import ScriptTree.Statement.Basic
import ScriptTree.Token.Lexer
import ScriptTree.Token.Stream
import ScriptTree.Tree.Site

namespace ScriptTree

/-- Who found an error: the lexer in a token, or the parser in the order of the tokens. -/
inductive ErrorOrigin
  | lexer (e : LexError)
  | parser
  deriving DecidableEq, Repr

structure ErrorSpan where
  origin : ErrorOrigin
  start : Nat
  stop : Nat
  deriving DecidableEq, Repr

def Site.error? (s : Site) : Option ErrorSpan :=
  match s.tree with
  | .token .error text => some ⟨.lexer (LexError.ofText text), s.start, s.stop⟩
  | .node .error _ => some ⟨.parser, s.start, s.stop⟩
  | _ => none

/-- Every text has a document; what is wrong with the text is recorded in the tree. -/
structure Document where
  text : Text
  tokens : TokenStream
  statements : List Statement
  tree : Tree

namespace Document

/-- The document of a text with given tokens and statements, of which the tail are left over. -/
def assemble (text : Text) (tokens : TokenStream) (statements : List Statement)
    (tail : List Token) : Document :=
  ⟨text, tokens, statements, programTree (statements.map Statement.tree) tail⟩

def parse (text : Text) : Document :=
  let tokens := Lexer.tokens text
  let (statements, tail) := Statement.parseAll tokens
  assemble text (.ofList tokens) statements tail

/-- Whether the text has an error, found by the lexer or by the parser. Of the tree only the nodes
are asked: its tokens are those of the stream. -/
def hasErrors (d : Document) : Bool :=
  (d.tokens.toList.any fun t => t.kind == .error) ||
    d.tree.sites.any fun s => s.tree.isNode && s.kind == .error

/-- All errors in the order of the text. An error node around an error token is an error of its
own. -/
def errors (d : Document) : List ErrorSpan := d.tree.sites.filterMap Site.error?

end Document

end ScriptTree
