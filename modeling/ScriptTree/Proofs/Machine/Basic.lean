import Mathlib.Order.Filter.AtTopBot.Basic
import ScriptTree.Proofs.Statement.Parses
import ScriptTree.Tree.Builder

namespace ScriptTree

namespace Kind

def isTerminator : Kind → Bool
  | .newline | .semicolon | .eof => true
  | _ => false

def isAnchor : Kind → Bool
  | .newline | .semicolon | .eof | .comma | .colon | .eq | .elseKw => true
  | k => k.isClosing

end Kind

/-- What stops a machine. -/
inductive Fault
  | unfinished
  | pending
  | opened
  | depth
  | nesting
  | mark
  | node
  | root
  deriving DecidableEq, Repr

/-- The parser as a machine over a stream of tokens. Where one of its counters would fall below zero,
where a mark is stale, or where a node is closed that is not open, it stops with a fault. -/
structure Machine where
  start : Nat
  pos : Nat
  /-- How many tokens right before the current one are trivia that is not in the tree yet. -/
  pending : Nat
  depth : Nat
  nesting : Nat
  /-- The most levels of nesting that were entered at a time. -/
  peak : Nat
  examined : Nat
  builder : TreeBuilder

namespace TreeBuilder

/-- How many trees there are at all open levels. -/
def size (b : TreeBuilder) : Nat := b.outerCount + b.current.length

/-- Whether a node may be opened at a mark: it was set within the current node. -/
def accepts (b : TreeBuilder) (mark : Nat) : Bool :=
  b.marks[mark]?.any fun n => b.outerCount ≤ n && n ≤ b.size

end TreeBuilder

open Expression (Join Unary Item maxNesting)

inductive Call
  | statement
  | targets
  | junk
  | nested (body : Call)
  | skipNested (opened : Nat)
  | conditional
  | binary (j : Join)
  | joinMore (j : Join) (mark : Nat)
  | comparison
  | compareMore
  | unary (u : Unary)
  | power
  | primary
  | suffixMore (mark : Nat)
  | atom
  | enclosed (kind close : Kind) (item : Item)
  | items (close : Kind) (item : Item) (named : Bool)
  | slot (item : Item) (named : Bool)
  | pair
  | argument (named : Bool)

namespace Call

abbrev expression : Call := nested conditional

def operand : Join → Call
  | .product => unary .sign
  | .sum => binary .product
  | .lag => binary .sum
  | .pipeline => binary .lag
  | .conjunction => unary .negation
  | .disjunction => binary .conjunction

def noUnary : Unary → Call
  | .negation => comparison
  | .sign => power

def element : Item → Bool → Call
  | .plain, _ => expression
  | .pair, _ => pair
  | .argument, named => argument named

end Call

abbrev Exec := Call → Machine → Except Fault Machine

namespace Machine

@[simp] theorem ok_bind {α β : Type} (a : α) (f : α → Except Fault β) :
    ((Except.ok a : Except Fault α) >>= f) = f a := rfl

def new (start : Nat) : Machine := ⟨start, start, 0, 0, 0, 0, start, .empty⟩

def missing (m : Machine) : Machine := { m with builder := m.builder.add .missing }

def closeNode (m : Machine) : Except Fault Machine :=
  if m.builder.around.isEmpty then .error .node
  else .ok { m with builder := m.builder.closeNode }

def openNodeAt (m : Machine) (mark : Nat) (kind : Kind) : Except Fault Machine :=
  if m.builder.accepts mark then .ok { m with builder := m.builder.openNodeAt mark kind }
  else .error .mark

def count (m : Machine) (k : Kind) : Except Fault Machine :=
  if k.isOpening then .ok { m with depth := m.depth + 1 }
  else if k.isClosing then
    if m.depth = 0 then .error .depth else .ok { m with depth := m.depth - 1 }
  else .ok m

def enter (m : Machine) : Machine :=
  { m with nesting := m.nesting + 1, peak := max m.peak (m.nesting + 1) }

def leave (m : Machine) : Except Fault Machine :=
  if m.nesting = 0 then .error .nesting else .ok { m with nesting := m.nesting - 1 }

def skipOne (m : Machine) : Machine := { m with pos := m.pos + 1, pending := m.pending + 1 }

/-- The tree of a statement, which is all that was built. -/
def finish (m : Machine) : Except Fault Tree :=
  match m.builder.around, m.builder.current with
  | [], [.node kind children] => .ok (.node kind children)
  | _, _ => .error .root

variable (ts : List Token)

def kind (m : Machine) : Kind := (ts[m.pos]?.map Token.kind).getD .eof

/-- The kind of the current token, which is thereby examined. -/
def ask (m : Machine) : Kind × Machine :=
  (m.kind ts, { m with examined := max m.examined (m.pos + 1) })

def skipWhile (p : Token → Bool) (m : Machine) : Machine :=
  let run := (ts.drop m.pos).takeWhile p
  { m with
    pos := m.pos + run.length
    pending := m.pending + run.length
    examined := max m.examined (m.pos + run.length + 1) }

def skipTrivia (m : Machine) : Machine := m.skipWhile ts (Cursor.skips m.depth)

/-- Whether a keyword argument starts here, for which two tokens may be examined. -/
def startsNamed (m : Machine) : Bool × Machine :=
  let (k, m) := m.ask ts
  if k = .identifier then
    let run := (ts.drop (m.pos + 1)).takeWhile (Cursor.skips m.depth)
    let next := (ts[m.pos + 1 + run.length]?.map Token.kind).getD .eof
    (next = .eq, { m with examined := max m.examined (m.pos + run.length + 2) })
  else (false, m)

def flush (m : Machine) : Except Fault Machine :=
  if m.start + m.pending ≤ m.pos then
    let lead := ((ts.drop (m.pos - m.pending)).take m.pending).map Token.tree
    .ok { m with pending := 0, builder := lead.foldl TreeBuilder.add m.builder }
  else .error .pending

def mark (m : Machine) : Except Fault (Nat × Machine) := do
  let m ← m.flush ts
  .ok (m.builder.marks.length, { m with builder := m.builder.mark })

def openNode (m : Machine) (kind : Kind) : Except Fault Machine := do
  let m ← m.flush ts
  .ok { m with builder := m.builder.openNode kind }

def addCurrent (m : Machine) : Except Fault Machine :=
  match ts[m.pos]? with
  | none => .ok m
  | some t => do
    let m ← m.flush ts
    .ok { m with pos := m.pos + 1, builder := m.builder.add t.tree }

/-- Add the current token, count it if it is a bracket, and skip the trivia after it. -/
def bump (m : Machine) : Except Fault Machine := do
  let (k, m) := m.ask ts
  let m ← m.count k
  let m ← m.addCurrent ts
  .ok (m.skipTrivia ts)

/-- Add a closing bracket, or mark it as missing and go back to the trivia before the current token. -/
def expectClosing (m : Machine) (close : Kind) : Except Fault Machine := do
  let (k, m) := m.ask ts
  if k = close then m.bump ts
  else if m.depth = 0 then .error .depth
  else if m.pos < m.start + m.pending then .error .pending
  else
    let m := { m.missing with depth := m.depth - 1, pos := m.pos - m.pending, pending := 0 }
    .ok (m.skipTrivia ts)

/-- Mark a missing operand, or put an error node around the token in its place. -/
def unexpected (m : Machine) : Except Fault Machine := do
  let (k, m) := m.ask ts
  if k.isAnchor then .ok m.missing
  else
    let m ← m.openNode ts .error
    let m ← m.addCurrent ts
    (m.skipTrivia ts).closeNode

def terminate (m : Machine) : Except Fault Machine := do
  let m ← m.flush ts
  let (k, m) := m.ask ts
  if k = .newline || k = .semicolon then m.addCurrent ts else .ok m

variable (run : Exec)

/-! ### Parsers and loops -/

def skipNested (opened : Nat) (m : Machine) : Except Fault Machine := do
  let (k, m) := m.ask ts
  if k = .eof || (opened = 0 && (k.isClosing || k = .newline || k = .semicolon)) then .ok m
  else if k.isClosing && opened = 0 then .error .opened
  else
    let m ← m.bump ts
    run (.skipNested (Cursor.depthAfter opened k)) m

def tooDeep (m : Machine) : Except Fault Machine := do
  let m ← m.openNode ts .error
  let m ← run (.skipNested 0) m
  m.closeNode

def nested (body : Call) (m : Machine) : Except Fault Machine :=
  if maxNesting ≤ m.nesting then tooDeep ts run m
  else do
    let m ← run body m.enter
    m.leave

def conditional (m : Machine) : Except Fault Machine := do
  let (mark, m) ← m.mark ts
  let m ← run (.binary .disjunction) m
  let (k, m) := m.ask ts
  if k = .ifKw then
    let m ← m.openNodeAt mark .conditionalExpression
    let m ← m.bump ts
    let m ← run (.binary .disjunction) m
    let (k, m) := m.ask ts
    if k = .elseKw then
      let m ← m.bump ts
      let m ← run (.binary .disjunction) m
      m.closeNode
    else m.missing.closeNode
  else .ok m

def binary (j : Join) (m : Machine) : Except Fault Machine := do
  let (mark, m) ← m.mark ts
  let m ← run (.operand j) m
  run (.joinMore j mark) m

def joinMore (j : Join) (mark : Nat) (m : Machine) : Except Fault Machine := do
  let (k, m) := m.ask ts
  if j.joins k then
    let m ← m.openNodeAt mark j.node
    let m ← m.bump ts
    let m ← run (.operand j) m
    let m ← m.closeNode
    run (.joinMore j mark) m
  else .ok m

def comparison (m : Machine) : Except Fault Machine := do
  let (mark, m) ← m.mark ts
  let m ← run (.binary .pipeline) m
  let (k, m) := m.ask ts
  if k.isComparison then
    let m ← m.openNodeAt mark .comparisonExpression
    let m ← run .compareMore m
    m.closeNode
  else .ok m

def compareMore (m : Machine) : Except Fault Machine := do
  let (k, m) := m.ask ts
  if k.isComparison then
    let m ← m.openNode ts .comparisonOp
    let m ← m.bump ts
    let m ← m.closeNode
    let m ← run (.binary .pipeline) m
    run .compareMore m
  else .ok m

def unary (u : Unary) (m : Machine) : Except Fault Machine := do
  let (k, m) := m.ask ts
  if u.starts k then
    let m ← m.openNode ts .unaryExpression
    let m ← m.bump ts
    let m ← run (.nested (.unary u)) m
    m.closeNode
  else run (.noUnary u) m

def power (m : Machine) : Except Fault Machine := do
  let (mark, m) ← m.mark ts
  let m ← run .primary m
  let (k, m) := m.ask ts
  if k = .starStar then
    let m ← m.openNodeAt mark .binaryExpression
    let m ← m.bump ts
    let m ← run (.nested (.unary .sign)) m
    m.closeNode
  else .ok m

def primary (m : Machine) : Except Fault Machine := do
  let (mark, m) ← m.mark ts
  let m ← run .atom m
  run (.suffixMore mark) m

def field (m : Machine) : Except Fault Machine := do
  let (k, m) := m.ask ts
  if k = .identifier then m.bump ts else m.unexpected ts

def suffixMore (mark : Nat) (m : Machine) : Except Fault Machine := do
  let (k, m) := m.ask ts
  if k = .lParen then
    let m ← m.openNodeAt mark .callExpression
    let m ← run (.enclosed .argumentList .rParen .argument) m
    let m ← m.closeNode
    run (.suffixMore mark) m
  else if k = .dot then
    let m ← m.openNodeAt mark .attributeExpression
    let m ← m.bump ts
    let m ← m.field ts
    let m ← m.closeNode
    run (.suffixMore mark) m
  else .ok m

def parenthesizedItems (m : Machine) : Except Fault (Kind × Machine) := do
  let (k, m) := m.ask ts
  if k = .rParen then .ok (.tupleLiteral, m)
  else
    let m ← run .expression m
    let (k, m) := m.ask ts
    if k = .comma then
      let m ← m.bump ts
      let m ← run (.items .rParen .plain false) m
      .ok (.tupleLiteral, m)
    else .ok (.parenthesizedExpression, m)

def parenthesized (m : Machine) : Except Fault Machine := do
  let (mark, m) ← m.mark ts
  let m ← m.bump ts
  let (kind, m) ← parenthesizedItems ts run m
  let m ← m.expectClosing ts .rParen
  let m ← m.openNodeAt mark kind
  m.closeNode

def atom (m : Machine) : Except Fault Machine := do
  let (k, m) := m.ask ts
  if k.isLiteral then m.bump ts
  else
    match k with
    | .lParen => parenthesized ts run m
    | .lBracket => run (.enclosed .listLiteral .rBracket .plain) m
    | .lBrace => run (.enclosed .dictLiteral .rBrace .pair) m
    | _ => m.unexpected ts

def enclosed (kind close : Kind) (item : Item) (m : Machine) : Except Fault Machine := do
  let m ← m.openNode ts kind
  let m ← m.bump ts
  let m ← run (.items close item false) m
  let m ← m.expectClosing ts close
  m.closeNode

def slot (item : Item) (named : Bool) (m : Machine) : Except Fault Machine := do
  let (k, m) := m.ask ts
  if k = .comma then .ok m.missing else run (.element item named) m

/-- Items between commas. Among arguments it is remembered whether a keyword argument came before. -/
def items (close : Kind) (item : Item) (named : Bool) (m : Machine) : Except Fault Machine := do
  let (k, m) := m.ask ts
  if k = close || k = .eof then .ok m
  else
    let named' := named || (item = .argument && (m.startsNamed ts).1)
    let m ← run (.slot item named) m
    let (k, m) := m.ask ts
    if k = .comma then
      let m ← m.bump ts
      run (.items close item named') m
    else .ok m

def pair (m : Machine) : Except Fault Machine := do
  let m ← m.openNode ts .dictPair
  let m ← run .expression m
  let (k, m) := m.ask ts
  if k = .colon then
    let m ← m.bump ts
    let m ← run .expression m
    m.closeNode
  else m.missing.closeNode

def argument (named : Bool) (m : Machine) : Except Fault Machine := do
  let (starts, m) := m.startsNamed ts
  if starts then
    let m ← m.openNode ts .keywordArgument
    let m ← m.bump ts
    let m ← m.bump ts
    let m ← run .expression m
    m.closeNode
  else if named then
    let m ← m.openNode ts .error
    let m ← run .expression m
    m.closeNode
  else run .expression m

def junkMore (m : Machine) : Except Fault Machine := do
  let (k, m) := m.ask ts
  if k = .eof || k = .semicolon || (k = .newline && m.depth = 0) then .ok m
  else if k.isTrivia then run .junk m.skipOne
  else
    let m ← m.flush ts
    let m ← m.addCurrent ts
    run .junk m

def junk (m : Machine) : Except Fault Machine := do
  let m ← m.openNode ts .error
  let m ← run .junk m
  m.closeNode

def targets (m : Machine) : Except Fault Machine := do
  let (k, m) := m.ask ts
  if k = .comma then
    let m ← m.bump ts
    let (k, m) := m.ask ts
    if k = .eq || k.isTerminator then .ok m
    else
      let m ← run .expression m
      run .targets m
  else .ok m

def assignment (mark : Nat) (m : Machine) : Except Fault Machine := do
  let m ← run .targets m
  let m ← m.openNodeAt mark .assignmentTargets
  let m ← m.closeNode
  let (k, m) := m.ask ts
  if k = .eq then
    let m ← m.bump ts
    run .expression m
  else .ok m.missing

def body (m : Machine) : Except Fault (Kind × Machine) := do
  let (k, m) := m.ask ts
  if k.isTerminator then .ok (.expressionStatement, m.missing)
  else
    let (mark, m) ← m.mark ts
    let m ← run .expression m
    let (k, m) := m.ask ts
    if k = .comma || k = .eq then
      let m ← assignment ts run mark m
      .ok (.assignment, m)
    else .ok (.expressionStatement, m)

def ending (m : Machine) : Except Fault Machine := do
  let (k, m) := m.ask ts
  let m ← if k.isTerminator then .ok m else junk ts run m
  m.terminate ts

def statement (m : Machine) : Except Fault Machine := do
  let root := m.builder.marks.length
  let m := { m with builder := m.builder.mark }
  let (kind, m) ← body ts run (m.skipWhile ts fun t => t.kind.isTrivia)
  let m ← ending ts run m
  let m ← m.openNodeAt root kind
  m.closeNode

def step : Exec
  | .statement => statement ts run
  | .targets => targets ts run
  | .junk => junkMore ts run
  | .nested body => nested ts run body
  | .skipNested opened => skipNested ts run opened
  | .conditional => conditional ts run
  | .binary j => binary ts run j
  | .joinMore j mark => joinMore ts run j mark
  | .comparison => comparison ts run
  | .compareMore => compareMore ts run
  | .unary u => unary ts run u
  | .power => power ts run
  | .primary => primary ts run
  | .suffixMore mark => suffixMore ts run mark
  | .atom => atom ts run
  | .enclosed kind close item => enclosed ts run kind close item
  | .items close item named => items ts run close item named
  | .slot item named => slot ts run item named
  | .pair => pair ts run
  | .argument named => argument ts run named

/-- What a call does with an amount of fuel, of which each further call inside it has one less. -/
def exec : Nat → Exec
  | 0 => fun _ _ => .error .unfinished
  | fuel + 1 => step ts (exec fuel)

/-- A call brings a machine to another one, given enough fuel. -/
def Runs (call : Call) (m m' : Machine) : Prop :=
  ∀ᶠ fuel in Filter.atTop, exec ts fuel call m = .ok m'

end Machine

end ScriptTree
