import ScriptTree.Tree.Dump

namespace ScriptTree

inductive DifferenceKind
  /-- The other tree has an element that is not there. -/
  | missingElement
  /-- There is an element that the other tree does not have. -/
  | extraElement
  | kindMismatch
  | textMismatch
  /-- The text of a tree is not the text it was made from. -/
  | lossyText
  | tokenStreamMismatch
  deriving DecidableEq, Repr

def DifferenceKind.name : DifferenceKind → String
  | .missingElement => "MissingElement"
  | .extraElement => "ExtraElement"
  | .kindMismatch => "KindMismatch"
  | .textMismatch => "TextMismatch"
  | .lossyText => "LossyText"
  | .tokenStreamMismatch => "TokenStreamMismatch"

structure Difference where
  kind : DifferenceKind
  start : Nat
  stop : Nat
  expected : Option Text
  actual : Option Text
  deriving DecidableEq, Repr

def Difference.message (d : Difference) : Text :=
  d.kind.name.toList ++ " at ".toList ++ Text.range d.start d.stop ++
    (match d.expected with
      | some s => ", expected ".toList ++ s
      | none => []) ++
    (match d.actual with
      | some s => ", found ".toList ++ s
      | none => [])

namespace Tree

/-- What an element is apart from its kind. -/
def variety (t : Tree) : Text := (if t.isNode then "node" else "token").toList

def kindDifference (t : Tree) (start : Nat) (expected actual : Text) : Difference :=
  ⟨.kindMismatch, start, start + t.bytes, some expected, some actual⟩

def tokenNote (text : Text) (start : Nat) : Text :=
  Text.quote text ++ '@' :: Text.range start (start + text.bytes)

def tokenDifferences (text : Text) (start : Nat) (expected : Text) (expectedStart : Nat) :
    List Difference :=
  if text = expected ∧ start = expectedStart then []
  else
    [⟨.textMismatch, start, start + text.bytes, some (tokenNote expected expectedStart),
      some (tokenNote text start)⟩]

end Tree

mutual

/-- The differences of a tree from an expected one, each at its start. -/
def Tree.differencesFrom (start : Nat) : Tree → Nat → Tree → List Difference
  | .token k s, expectedStart, .token l e =>
    if k = l then Tree.tokenDifferences s start e expectedStart
    else [Tree.kindDifference (.token k s) start l.name.toList k.name.toList]
  | .node k ts, expectedStart, .node l es =>
    if k = l then
      -- Equal trees at one place are not walked.
      if ts = es ∧ start = expectedStart then []
      else Forest.differencesFrom start ts expectedStart es
    else [Tree.kindDifference (.node k ts) start l.name.toList k.name.toList]
  | t, _, e =>
    [if t.kind = e.kind then Tree.kindDifference t start e.variety t.variety
      else Tree.kindDifference t start e.kind.name.toList t.kind.name.toList]

def Forest.differencesFrom (start : Nat) : Forest → Nat → Forest → List Difference
  | [], _, es => es.map fun e => ⟨.missingElement, start, start, some e.kind.name.toList, none⟩
  | t :: ts, expectedStart, [] =>
    ⟨.extraElement, start, start + t.bytes, none, some t.kind.name.toList⟩ ::
      Forest.differencesFrom (start + t.bytes) ts expectedStart []
  | t :: ts, expectedStart, e :: es =>
    t.differencesFrom start expectedStart e ++
      Forest.differencesFrom (start + t.bytes) ts (expectedStart + e.bytes) es

end

def Tree.differences (t expected : Tree) : List Difference := t.differencesFrom 0 0 expected

end ScriptTree
