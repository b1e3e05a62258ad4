import ScriptTree.Tree.Basic

namespace ScriptTree

/-- Trivia is passed over at once but kept back as pending, and enters the tree only before the next
token or node does; so no node ends in trivia, and what stands between two operands lies in the node
that joins them. -/
structure Cursor where
  rest : List Token
  /-- Trivia right before the current token that is not in the tree yet. -/
  pending : List Token
  /-- How many tokens are passed, the pending ones included. -/
  taken : Nat
  /-- How many tokens are examined; the end of the tokens counts as one. -/
  examined : Nat
  /-- How many brackets are open; while one is, a line break is trivia. -/
  depth : Nat
  deriving Repr

namespace Cursor

def kind (c : Cursor) : Kind :=
  match c.rest with
  | [] => .eof
  | t :: _ => t.kind

/-- Whether a token is passed over as trivia at a bracket depth. -/
def skips (depth : Nat) (t : Token) : Bool :=
  if t.kind = .newline then decide (0 < depth) else t.kind.isTrivia

/-- Pass over the tokens of a class, and examine the one after them. -/
def passWhile (p : Token → Bool) (c : Cursor) : Cursor :=
  let run := c.rest.takeWhile p
  { c with
    rest := c.rest.dropWhile p
    pending := c.pending ++ run
    taken := c.taken + run.length
    examined := max c.examined (c.taken + run.length + 1) }

def skip (c : Cursor) : Cursor := c.passWhile (skips c.depth)

/-- A cursor at the first significant token; all line breaks before it are trivia. -/
def start (tokens : List Token) : Cursor :=
  passWhile (fun t => t.kind.isTrivia) ⟨tokens, [], 0, 0, 0⟩

def flush (c : Cursor) : Forest × Cursor :=
  (c.pending.map Token.tree, { c with pending := [] })

/-- Take the current token with the trivia before it, whatever the token is. -/
def take (c : Cursor) : Forest × Cursor :=
  match c.rest with
  | [] => ([], c)
  | t :: r =>
    (c.pending.map Token.tree ++ [t.tree],
      { c with rest := r, pending := [], taken := c.taken + 1 })

def depthAfter (depth : Nat) (k : Kind) : Nat :=
  if k.isOpening then depth + 1 else if k.isClosing then depth - 1 else depth

/-- Take the current token, count it if it is a bracket, and pass over the trivia after it. -/
def bump (c : Cursor) : Forest × Cursor :=
  let (trees, next) := { c with depth := depthAfter c.depth c.kind }.take
  (trees, next.skip)

/-- The kind of the next significant token after the current one, which is thereby examined. -/
def peek (c : Cursor) : Kind × Cursor :=
  let run := c.rest.tail.takeWhile (skips c.depth)
  let next := c.rest.tail.dropWhile (skips c.depth)
  ((next.head?.map Token.kind).getD .eof,
    { c with examined := max c.examined (c.taken + run.length + 2) })

/-- Give the pending trivia back, for it to be read at another bracket depth. -/
def reread (c : Cursor) (depth : Nat) : Cursor :=
  skip { c with
    rest := c.pending ++ c.rest
    pending := []
    taken := c.taken - c.pending.length
    depth := depth }

/-- Take a closing bracket; if another token stands there, mark the bracket missing. The trivia
passed over may then hold the line break that ends the statement outside the bracket. -/
def close (c : Cursor) (k : Kind) : Forest × Cursor :=
  if c.kind = k then c.bump else ([.missing], c.reread (c.depth - 1))

/-- Line breaks and semicolons end a statement, and so does the end of the tokens. -/
def atTerminator (c : Cursor) : Bool :=
  match c.kind with
  | .newline | .semicolon | .eof => true
  | _ => false

/-- Whether a missing operand is marked before the current token, instead of the token being taken
for a wrong one. -/
def atAnchor (c : Cursor) : Bool :=
  match c.kind with
  | .newline | .semicolon | .eof | .comma | .colon | .eq | .elseKw => true
  | k => k.isClosing

def ends (depth : Nat) (t : Token) : Bool :=
  t.kind = .eof || t.kind = .semicolon || (t.kind = .newline && depth = 0)

def dropTrailing (ts : List Token) : List Token :=
  (ts.reverse.dropWhile fun t => t.kind.isTrivia).reverse

/-- All tokens up to the end of the statement in one error node. -/
def junk (c : Cursor) : Forest × Cursor :=
  let run := c.rest.takeWhile fun t => !ends c.depth t
  let body := dropTrailing run
  (c.pending.map Token.tree ++ [.node .error (body.map Token.tree)],
    { c with
      rest := c.rest.dropWhile fun t => !ends c.depth t
      pending := run.drop body.length
      taken := c.taken + run.length
      examined := max c.examined (c.taken + run.length + 1) })

end Cursor

end ScriptTree
