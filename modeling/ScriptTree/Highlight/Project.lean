import ScriptTree.Highlight.Rule
import ScriptTree.Tree.Search

namespace ScriptTree

namespace Site

/-- Whether the element names an argument or a member. -/
def inNameSlot (s : Site) : Bool :=
  match s.above with
  | [] => false
  | c :: _ =>
    let previous := c.before.find? fun t => !t.kind.isTrivia
    match c.kind with
    | .keywordArgument => previous.isNone
    | .attributeExpression => previous.any fun t => t.kind == .dot
    | _ => false

/-- The kind under which the rules know the element. -/
def classified (s : Site) : Kind :=
  match s.tree with
  | .token .identifier text =>
    if s.inNameSlot then .identifier else (builtinKind? text).getD .identifier
  | t => t.kind

def tag? (s : Site) : Option Tag :=
  (TagRule.ofPath? ((s.above.map Crumb.kind).reverse ++ [s.classified])).map TagRule.tag

end Site

def Tree.tags (t : Tree) : List (Site × Tag) :=
  t.sites.filterMap fun s => s.tag?.map fun tag => (s, tag)

def Tree.tagAt? (t : Tree) (offset : Nat) : Option (Site × Tag) := do
  let token ← t.tokenAt? offset
  (t.tags.filter fun x => x.1.covers token.start token.stop).getLast?

end ScriptTree
