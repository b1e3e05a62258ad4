import ScriptTree.Trivia.Comment
import ScriptTree.Tree.Difference
import ScriptTree.Update.Basic

namespace ScriptTree

structure Validation where
  source : Text
  differences : List Difference
  comments : Nat × Nat

def Validation.isValid (v : Validation) : Bool := v.differences.isEmpty

def Token.note (t : Token) : Text :=
  "CstToken \x7b kind: ".toList ++ t.kind.name.toList ++ ", span: ".toList ++
    Text.range t.start t.stop ++ ", lookahead: ".toList ++ Text.decimal t.lookahead ++
    " \x7d".toList

def TokenStream.note (s : TokenStream) : Text :=
  '[' :: ((s.toList.map Token.note).intersperse ", ".toList).flatten ++ [']']

namespace Document

/-- How the tree and the tokens of a document differ from its text. -/
def losses (d : Document) : List Difference :=
  let stop := d.text.bytes
  let text := d.tree.text
  let fresh := Lexer.tokens d.text
  let tokens := d.tokens.toList
  let i := ((fresh.zip tokens).takeWhile fun p => p.1 == p.2).length
  (if text = d.text then []
    else [⟨.lossyText, 0, stop, some (Text.quote d.text), some (Text.quote text)⟩]) ++
  (if fresh = tokens then []
    else [⟨.tokenStreamMismatch, 0, stop, fresh[i]?.map Token.note, tokens[i]?.map Token.note⟩])

end Document

namespace Validation

/-- Check that nothing of a text is lost in its document. -/
def roundTrip (text : Text) : Validation :=
  let d := Document.parse text
  let expected := ((Lexer.tokens text).filter fun t => t.kind == .comment).length
  ⟨text, d.losses, d.tree.comments.length, expected⟩

/-- Check that an update gives the document that a parse of the new text does. -/
def update (settings : Settings) (d : Document) (edits : List Edit) :
    Except Edit.BatchError Validation := do
  let d := (← Update.apply settings d edits).document
  let reference := Document.parse d.text
  return ⟨d.text, d.losses ++ d.tree.differences reference.tree, d.tree.comments.length,
    reference.tree.comments.length⟩

end Validation

end ScriptTree
