import ScriptTree.Yaml.Cursor

namespace ScriptTree.Yaml

def isFlowMark (c : Char) : Bool := ",[]\x7b\x7d".toList.contains c

/-- Whether the text starts with a character that no colon may stand before in brackets. -/
def atFlowMark : Text → Bool
  | [] => false
  | c :: _ => isFlowMark c || c == '?'

/-- The word at the front. It ends before a gap, before a colon with a gap after it, and in brackets
also before their marks. -/
def plainWord? (flow : Bool) : Text → Option Text
  | [] => some []
  | c :: s =>
    if isSpace c then some []
    else if flow && c == ':' && atFlowMark s then none
    else if (c == ':' && atSpace s) || (flow && isFlowMark c) then some []
    else (plainWord? flow s).map (c :: ·)

/-- A scalar, given its parts so far, the last one first, and the gap after them: its text, whether
a line break was passed after it, and the place that was come to. Lines that go on with it start at
`margin` or deeper, and their tabs too. -/
def plainAfter? (flow : Bool) (margin : Nat) :
    Nat → List Text → Gap → Cursor → Option (Text × Bool × Cursor)
  | 0, _, _, _ => none
  | fuel + 1, front, gap, c =>
    if c.atMarker || c.rest.head? == some '#' then some (front.reverse.flatten, gap.hasBreak, c)
    else
      match plainWord? flow c.rest with
      | none => none
      | some [] => some (front.reverse.flatten, gap.hasBreak, c)
      | some word =>
        let front := word :: gap.folded :: front
        let (gap, next) := (c.skip word.length).gap
        if gap.hasTabBefore margin then none
        else if !flow && next.column < margin then
          some (front.reverse.flatten, gap.hasBreak, next)
        else plainAfter? flow margin fuel front gap next

def plain? (flow : Bool) (margin : Nat) (c : Cursor) : Option (Text × Bool × Cursor) :=
  plainAfter? flow margin c.steps [] {} c

end ScriptTree.Yaml
