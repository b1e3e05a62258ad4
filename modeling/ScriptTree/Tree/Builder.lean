import ScriptTree.Tree.Basic

namespace ScriptTree

/-- An open node: its kind, and what stands before it in the node around it. -/
structure OpenNode where
  kind : Kind
  before : Forest

def OpenNode.countBefore : List OpenNode → Nat
  | [] => 0
  | n :: ns => n.before.length + countBefore ns

structure TreeBuilder where
  current : Forest
  around : List OpenNode
  marks : List Nat

namespace TreeBuilder

def empty : TreeBuilder := ⟨[], [], []⟩

def add (b : TreeBuilder) (t : Tree) : TreeBuilder := { b with current := b.current ++ [t] }

def openNode (b : TreeBuilder) (kind : Kind) : TreeBuilder :=
  { b with current := [], around := ⟨kind, b.current⟩ :: b.around }

def closeNode (b : TreeBuilder) : TreeBuilder :=
  match b.around with
  | [] => b
  | n :: ns => { b with current := n.before ++ [.node n.kind b.current], around := ns }

def outerCount (b : TreeBuilder) : Nat := OpenNode.countBefore b.around

def mark (b : TreeBuilder) : TreeBuilder :=
  { b with marks := b.marks ++ [b.outerCount + b.current.length] }

/-- Open a node around all that was added since a mark. -/
def openNodeAt (b : TreeBuilder) (mark : Nat) (kind : Kind) : TreeBuilder :=
  let n := (b.marks[mark]?).getD 0 - b.outerCount
  { b with current := b.current.drop n, around := ⟨kind, b.current.take n⟩ :: b.around }

def finish? (b : TreeBuilder) : Option Tree := b.current.getLast?

end TreeBuilder

end ScriptTree
