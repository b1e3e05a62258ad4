import ScriptTree.Text.Quoted
import ScriptTree.Tree.Site

namespace ScriptTree

namespace Text

def decimal (n : Nat) : Text := Nat.toDigits 10 n

def range (start stop : Nat) : Text := decimal start ++ ['.', '.'] ++ decimal stop

def placed (k : Kind) (start stop : Nat) : Text := k.name.toList ++ '@' :: range start stop

end Text

/-- The line of one element; only tokens show their text. -/
def Site.line (s : Site) : Text :=
  List.replicate (2 * s.depth) ' ' ++ Text.placed s.kind s.start s.stop ++
    match s.tree with
    | .token _ text => ' ' :: Text.quote text
    | .node _ _ => []

/-- Every element of a tree in preorder, a line each. -/
def Tree.dump (t : Tree) : Text := t.sites.flatMap fun s => s.line ++ ['\n']

/-- The nodes right below the root with their texts, a line each. -/
def Tree.outline (t : Tree) : Text :=
  (t.root.children.filter fun s => s.tree.isNode).flatMap fun s =>
    Text.placed s.kind s.start s.stop ++ ' ' :: Text.quote s.tree.text ++ ['\n']

end ScriptTree
