import ScriptTree.Statement.Expression

namespace ScriptTree

/-- A statement owns the trivia before it, the trivia after it on the same line, and the line break
or semicolon that ends it. -/
structure Statement where
  /-- The index of its first token, which may be trivia. -/
  first : Nat
  count : Nat
  /-- How many tokens from the first one on were examined to parse it. -/
  examined : Nat
  tree : Tree
  deriving DecidableEq, Repr

namespace Statement

def targetsLoop : Nat → Cursor → Forest × Cursor
  | 0, c => ([], c)
  | fuel + 1, c =>
    if c.kind = .comma then
      let (comma, c) := c.bump
      if c.kind = .eq || c.atTerminator then (comma, c)
      else
        let (target, c) := c.operand Expression.parse
        let (more, c) := targetsLoop fuel c
        (comma ++ target ++ more, c)
    else ([], c)

def assignment (target : Tree) (c : Cursor) : Forest × Cursor :=
  let (more, c) := targetsLoop c.rest.length c
  let targets := Tree.node .assignmentTargets (target :: more)
  if c.kind = .eq then
    let (eq, c) := c.bump
    let (value, c) := c.operand Expression.parse
    (targets :: eq ++ value, c)
  else ([targets, .missing], c)

/-- The kind and the children of a statement up to what does not belong to it. -/
def body (c : Cursor) : Kind × Forest × Cursor :=
  if c.atTerminator then (.expressionStatement, [.missing], c)
  else
    let (lead, c) := c.flush
    let (tree, c) := Expression.parse c
    if c.kind = .comma || c.kind = .eq then
      let (trees, c) := assignment tree c
      (.assignment, lead ++ trees, c)
    else (.expressionStatement, lead ++ [tree], c)

def ending (c : Cursor) : Forest × Cursor :=
  if c.kind = .newline || c.kind = .semicolon then c.take else c.flush

/-- Parse the statement at the front of the tokens, of which the first has the index `first`. There
is none if all tokens are trivia. The tokens after it come with it. -/
def parse? (tokens : List Token) (first : Nat) : Option (Statement × List Token) :=
  if tokens.all fun t => t.kind.isTrivia then none
  else
    let (kind, trees, c) := body (Cursor.start tokens)
    let (junk, c) := if c.atTerminator then ([], c) else c.junk
    let (closing, c) := ending c
    some (⟨first, c.taken, max c.examined c.taken, .node kind (trees ++ junk ++ closing)⟩, c.rest)

def parseAllLoop : Nat → List Token → Nat → List Statement × List Token
  | 0, tokens, _ => ([], tokens)
  | fuel + 1, tokens, first =>
    match parse? tokens first with
    | none => ([], tokens)
    | some (s, rest) =>
      let (more, tail) := parseAllLoop fuel rest (first + s.count)
      (s :: more, tail)

def parseAll (tokens : List Token) : List Statement × List Token :=
  parseAllLoop tokens.length tokens 0

end Statement

/-- The tree of a whole script: its statements and the trivia after the last one. -/
def programTree (statements : Forest) (tail : List Token) : Tree :=
  .node .program (statements ++ tail.map Token.tree)

end ScriptTree
