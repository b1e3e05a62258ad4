import ScriptTree.Tree.Basic

namespace ScriptTree

structure PlacedToken where
  kind : Kind
  text : Text
  start : Nat
  deriving DecidableEq, Repr

namespace PlacedToken

def stop (t : PlacedToken) : Nat := t.start + t.text.bytes

def isTrivia (t : PlacedToken) : Bool := t.kind.isTrivia

end PlacedToken

inductive Leaf
  | token (t : PlacedToken)
  | gap
  deriving DecidableEq, Repr

namespace Leaf

def token? : Leaf → Option PlacedToken
  | token t => some t
  | gap => none

def trivia? (l : Leaf) : Option PlacedToken := l.token?.filter PlacedToken.isTrivia

end Leaf

mutual

def Tree.leavesFrom (start : Nat) : Tree → List Leaf
  | .token k s => [.token ⟨k, s, start⟩]
  | .node _ [] => [.gap]
  | .node _ (t :: ts) => t.leavesFrom start ++ Forest.leavesFrom (start + t.bytes) ts

def Forest.leavesFrom (start : Nat) : Forest → List Leaf
  | [] => []
  | t :: ts => t.leavesFrom start ++ Forest.leavesFrom (start + t.bytes) ts

end

def Tree.leaves (t : Tree) : List Leaf := t.leavesFrom 0

def Tree.tokens (t : Tree) : List PlacedToken := t.leaves.filterMap Leaf.token?

/-- A leaf between those before it, the nearest first, and those after it. -/
structure Spot where
  before : List Leaf
  leaf : Leaf
  after : List Leaf

def Leaf.spotsFrom (before : List Leaf) : List Leaf → List Spot
  | [] => []
  | l :: ls => ⟨before, l, ls⟩ :: spotsFrom (l :: before) ls

def Tree.spots (t : Tree) : List Spot := Leaf.spotsFrom [] t.leaves

end ScriptTree
