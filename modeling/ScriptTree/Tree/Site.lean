import ScriptTree.Tree.Basic

namespace ScriptTree

/-- One step up: the kind of the parent, and the siblings before, the nearest first. -/
structure Crumb where
  kind : Kind
  before : Forest

structure Site where
  tree : Tree
  start : Nat
  /-- The way up to the root, the parent first. -/
  above : List Crumb
  /-- How many leaves stand before it. -/
  leavesBefore : Nat

namespace Site

def stop (s : Site) : Nat := s.start + s.tree.bytes

def kind (s : Site) : Kind := s.tree.kind

def path (s : Site) : List Kind := (s.above.map Crumb.kind).reverse ++ [s.kind]

def depth (s : Site) : Nat := s.above.length

def isToken (s : Site) : Bool := !s.tree.isNode

def covers (s : Site) (start stop : Nat) : Bool := s.start ≤ start && stop ≤ s.stop

end Site

mutual

/-- How many leaves a tree has; a node without children is one. -/
def Tree.leafCount : Tree → Nat
  | .token _ _ => 1
  | .node _ [] => 1
  | .node _ (t :: ts) => t.leafCount + Forest.leafCount ts

def Forest.leafCount : Forest → Nat
  | [] => 0
  | t :: ts => t.leafCount + Forest.leafCount ts

end

def Forest.childSites (kind : Kind) (above : List Crumb) :
    Forest → Nat → Nat → Forest → List Site
  | _, _, _, [] => []
  | before, start, leaves, t :: ts =>
    ⟨t, start, ⟨kind, before⟩ :: above, leaves⟩ ::
      childSites kind above (t :: before) (start + t.bytes) (leaves + t.leafCount) ts

def Site.children (s : Site) : List Site :=
  Forest.childSites s.kind s.above [] s.start s.leavesBefore s.tree.children

mutual

def Tree.sitesFrom (start : Nat) (above : List Crumb) (leaves : Nat) : Tree → List Site
  | .token k s => [⟨.token k s, start, above, leaves⟩]
  | .node k ts => ⟨.node k ts, start, above, leaves⟩ :: Forest.sitesFrom start k above [] leaves ts

def Forest.sitesFrom (start : Nat) (kind : Kind) (above : List Crumb) (before : Forest)
    (leaves : Nat) : Forest → List Site
  | [] => []
  | t :: ts =>
    t.sitesFrom start (⟨kind, before⟩ :: above) leaves ++
      Forest.sitesFrom (start + t.bytes) kind above (t :: before) (leaves + t.leafCount) ts

end

def Tree.root (t : Tree) : Site := ⟨t, 0, [], 0⟩

def Tree.sites (t : Tree) : List Site := t.sitesFrom 0 [] 0

end ScriptTree
