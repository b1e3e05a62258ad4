import ScriptTree.Yaml.Token

namespace ScriptTree.Yaml

inductive Event
  | scalar (anchor tag : Option Text) (text : Text) (style : ScalarStyle)
  | reference (name : Text)
  | sequenceStart (anchor : Option Text)
  | sequenceEnd
  | mappingStart (anchor : Option Text)
  | mappingEnd
  deriving DecidableEq, Repr

namespace Event

def empty : Event := .scalar none none [] .plain

end Event

/-- The handles of tags and what they are short for. -/
abbrev Handles := List (Text × Text)

namespace Handles

def default : Handles := [(['!'], ['!']), (['!', '!'], "tag:yaml.org,2002:".toList)]

/-- The tag of a handle and the part after it; without a handle that part is the tag. -/
def tag? (hs : Handles) (handle suffix : Text) : Option Text :=
  if handle.isEmpty then some suffix else (List.lookup handle hs).map (· ++ suffix)

end Handles

inductive Goal
  /-- A node. Only one that starts on its own may be a block, and only a value of a mapping may be
  a sequence that is not indented. -/
  | node (block flat : Bool)
  | items
  | flatItems
  | keys
  | keyValue
  | flowItems (first : Bool)
  | pairKey
  | pairValue
  | pairEnd
  | flowKeys (first : Bool)
  | flowValue
  | noValue
  deriving DecidableEq, Repr

/-- What a goal leads to: events, goals that are next, and the tokens that are left. -/
abbrev Step := List Event × List Goal × List Token

def properties? (hs : Handles) :
    List Token → Option (Option Text × Option Text × List Token)
  | .anchor a :: .tag h s :: ts => (hs.tag? h s).map fun t => (some a, some t, ts)
  | .tag h s :: .anchor a :: ts => (hs.tag? h s).map fun t => (some a, some t, ts)
  | .anchor a :: ts => some (some a, none, ts)
  | .tag h s :: ts => (hs.tag? h s).map fun t => (none, some t, ts)
  | ts => some (none, none, ts)

/-- A node. The tag that is a mark alone says nothing about a scalar. -/
def node? (hs : Handles) (block flat : Bool) (ts : List Token) : Option Step :=
  match ts with
  | .reference name :: ts => some ([.reference name], [], ts)
  | ts => do
    let (anchor, tag, ts) ← properties? hs ts
    match ts with
    | .scalar s style :: r =>
      let tag := if tag = some ['!'] then none else tag
      return ([.scalar anchor tag s style], [], r)
    | .flowSequenceStart :: r => return ([.sequenceStart anchor], [.flowItems true], r)
    | .flowMappingStart :: r => return ([.mappingStart anchor], [.flowKeys true], r)
    | .blockEntry :: r =>
      if flat then return ([.sequenceStart anchor], [.flatItems], .blockEntry :: r)
      else if anchor.isSome || tag.isSome then
        return ([.scalar anchor tag [] .plain], [], .blockEntry :: r)
      else none
    | .blockSequenceStart :: r =>
      if block then return ([.sequenceStart anchor], [.items], r)
      else if anchor.isSome || tag.isSome then
        return ([.scalar anchor tag [] .plain], [], .blockSequenceStart :: r)
      else none
    | .blockMappingStart :: r =>
      if block then return ([.mappingStart anchor], [.keys], r)
      else if anchor.isSome || tag.isSome then
        return ([.scalar anchor tag [] .plain], [], .blockMappingStart :: r)
      else none
    | r =>
      if anchor.isSome || tag.isSome then return ([.scalar anchor tag [] .plain], [], r) else none

def nodeUnless (ends : List Token) (g after : Goal) (ts : List Token) : Step :=
  match ts with
  | t :: _ => if ends.contains t then ([.empty], [after], ts) else ([], [g, after], ts)
  | [] => ([], [g, after], ts)

def Goal.step? (hs : Handles) (g : Goal) (ts : List Token) : Option Step :=
  match g with
  | .node block flat => node? hs block flat ts
  | .items =>
    match ts with
    | .blockEntry :: r => some (nodeUnless [.blockEntry, .blockEnd] (.node true false) .items r)
    | .blockEnd :: r => some ([.sequenceEnd], [], r)
    | _ => none
  | .flatItems =>
    match ts with
    | .blockEntry :: r =>
      some (nodeUnless [.blockEntry, .key, .value, .blockEnd] (.node true false) .flatItems r)
    | r => some ([.sequenceEnd], [], r)
  | .keys =>
    match ts with
    | .key :: r => some (nodeUnless [.key, .value, .blockEnd] (.node true true) .keyValue r)
    | .blockEnd :: r => some ([.mappingEnd], [], r)
    | _ => none
  | .keyValue =>
    match ts with
    | .value :: r => some (nodeUnless [.key, .value, .blockEnd] (.node true true) .keys r)
    | r => some ([.empty], [.keys], r)
  | .flowItems first =>
    match first, ts with
    | _, .flowSequenceEnd :: r => some ([.sequenceEnd], [], r)
    | true, .key :: r | false, .flowEntry :: .key :: r =>
      some ([.mappingStart none], [.pairKey], r)
    | false, .flowEntry :: .flowSequenceEnd :: r => some ([.sequenceEnd], [], r)
    | true, r | false, .flowEntry :: r => some ([], [.node false false, .flowItems false], r)
    | false, _ => none
  | .pairKey =>
    match ts with
    | .value :: r | .flowEntry :: r | .flowSequenceEnd :: r => some ([.empty], [.pairValue], r)
    | r => some ([], [.node false false, .pairValue], r)
  | .pairValue =>
    match ts with
    | .value :: r => some (nodeUnless [.flowEntry, .flowSequenceEnd] (.node false false) .pairEnd r)
    | r => some ([.empty], [.pairEnd], r)
  | .pairEnd => some ([.mappingEnd], [.flowItems false], ts)
  | .flowKeys first =>
    match first, ts with
    | _, .flowMappingEnd :: r => some ([.mappingEnd], [], r)
    | true, .key :: r | false, .flowEntry :: .key :: r =>
      some (nodeUnless [.value, .flowEntry, .flowMappingEnd] (.node false false) .flowValue r)
    | false, .flowEntry :: .flowMappingEnd :: r => some ([.mappingEnd], [], r)
    | true, r | false, .flowEntry :: r => some ([], [.node false false, .noValue], r)
    | false, _ => none
  | .flowValue =>
    match ts with
    | .value :: r =>
      some (nodeUnless [.flowEntry, .flowMappingEnd] (.node false false) (.flowKeys false) r)
    | r => some ([.empty], [.flowKeys false], r)
  | .noValue => some ([.empty], [.flowKeys false], ts)

def events? (hs : Handles) : Nat → List Goal → List Token → Option (List Event × List Token)
  | 0, _, _ => none
  | _ + 1, [], ts => some ([], ts)
  | fuel + 1, g :: gs, ts => do
    let (es, next, ts) ← g.step? hs ts
    let (more, ts) ← events? hs fuel (next ++ gs) ts
    return (es ++ more, ts)

end ScriptTree.Yaml
