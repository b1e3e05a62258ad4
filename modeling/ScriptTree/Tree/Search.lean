import ScriptTree.Tree.Site

namespace ScriptTree

/-- The token at an offset: of two that meet there the right one, and at the end of the text the
last one. -/
def Tree.tokenAt? (t : Tree) (offset : Nat) : Option Site :=
  (t.sites.filter fun s => s.isToken && s.start ≠ s.stop && s.covers offset offset).getLast?

def Tree.pathAt (t : Tree) (offset : Nat) : List Kind := ((t.tokenAt? offset).map Site.path).getD []

namespace Site

/-- The child in which a search for a range goes on. An empty range is looked for in the child that
has it inside, or else in the last child that ends there or before. -/
def candidate? (s : Site) (start stop : Nat) : Option Site :=
  let children := s.children
  if start < stop then children.find? fun c => c.covers start stop
  else
    match children.find? fun c => c.start < start && start < c.stop with
    | some c => some c
    | none => ((children.filter fun c => c.stop ≤ start).getLast?).or children.head?

/-- Go down to the smallest node that covers a range; there are `n` levels at most. -/
def coverLoop (start stop : Nat) : Nat → Site → Site
  | 0, s => s
  | n + 1, s =>
    match s.candidate? start stop with
    | none => s
    | some c => if c.tree.isNode && c.covers start stop then coverLoop start stop n c else s

end Site

def Tree.covering? (t : Tree) (start stop : Nat) : Option Site :=
  if stop < start || t.bytes < stop then none
  else some (Site.coverLoop start stop t.height t.root)

end ScriptTree
