import ScriptTree.Yaml.Document
import ScriptTree.Yaml.Reference
import ScriptTree.Yaml.Scalar

namespace ScriptTree.Yaml

/-- What follows the node at the front; `depth` collections around it are to be left too. -/
def skipNode : Nat → List Part → List Part
  | _, [] => []
  | depth, p :: ps =>
    match p with
    | .event (.sequenceStart _) | .event (.mappingStart _) => skipNode (depth + 1) ps
    | .event .sequenceEnd | .event .mappingEnd =>
      if depth ≤ 1 then ps else skipNode (depth - 1) ps
    | _ => if depth = 0 then ps else skipNode depth ps

theorem length_skipNode_le (depth : Nat) (ps : List Part) :
    (skipNode depth ps).length ≤ ps.length := by
  fun_induction skipNode depth ps <;> simp_all <;> omega

def Part.text? (a : Anchors) (p : Part) : Option Text :=
  match p.start? a with
  | some (.scalar _ _ s _) => some s
  | _ => none

def Part.value (a : Anchors) (p : Part) : FieldValue :=
  match p.start? a with
  | some (.scalar _ tag s style) => scalarValue tag s style
  | _ => .other

def pairs? (a : Anchors) (ps : List Part) : Option (List Field) :=
  match ps with
  | .event .mappingEnd :: _ => some []
  | k :: v :: ps => do
    let key ← k.text? a
    let more ← pairs? a (skipNode 0 (v :: ps))
    return (key, v.value a) :: more
  | _ => none
termination_by ps.length
decreasing_by
  have h := length_skipNode_le 0 (v :: ps)
  simp only [List.length_cons] at h ⊢
  omega

/-- The fields of a text. One without a node, or with an empty one, has none. -/
def fields? (s : Text) : Option (List Field) := do
  let es ← document? s
  let (ps, a) ← parts? {} es
  match ps with
  | [] | .event (.scalar _ _ [] .plain) :: _ => return []
  | .event (.mappingStart _) :: ps => pairs? a ps
  | _ => none

end ScriptTree.Yaml
