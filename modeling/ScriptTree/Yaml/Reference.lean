import ScriptTree.Yaml.Event

namespace ScriptTree.Yaml

/-- The numbers of names, and the nodes of numbers, by the event that starts each. -/
structure Anchors where
  names : List (Text × Nat) := []
  nodes : List (Nat × Event) := []

namespace Anchors

/-- A name that is set again gets a new number, which the next new name gets too. -/
def setName (name : Text) (n : Nat) : List (Text × Nat) → List (Text × Nat)
  | [] => [(name, n)]
  | p :: ps => if p.1 = name then (name, n) :: ps else p :: setName name n ps

def set (a : Anchors) (name : Text) (e : Event) : Anchors :=
  let n := a.names.length
  ⟨setName name n a.names, (n, e) :: a.nodes⟩

end Anchors

def Event.anchor? : Event → Option Text
  | .scalar anchor _ _ _ | .sequenceStart anchor | .mappingStart anchor => anchor
  | _ => none

inductive Part
  | event (e : Event)
  | reference (n : Nat)

/-- Number the references of events; each name must have been set before. -/
def parts? (a : Anchors) : List Event → Option (List Part × Anchors)
  | [] => some ([], a)
  | .reference name :: es => do
    let n ← List.lookup name a.names
    let (ps, a) ← parts? a es
    return (.reference n :: ps, a)
  | e :: es => do
    let a := match e.anchor? with
      | some name => a.set name e
      | none => a
    let (ps, a) ← parts? a es
    return (.event e :: ps, a)

def Part.start? (a : Anchors) : Part → Option Event
  | .event e => some e
  | .reference n => List.lookup n a.nodes

end ScriptTree.Yaml
