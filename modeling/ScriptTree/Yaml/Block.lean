import ScriptTree.Number.Digit
import ScriptTree.Yaml.Cursor

namespace ScriptTree.Yaml

/-- What becomes of the line breaks after the last line. -/
inductive Chomping
  | strip | clip | keep
  deriving DecidableEq, Repr

def chomping? : Char → Option Chomping
  | '+' => some .keep
  | '-' => some .strip
  | _ => none

/-- How a mark is followed up: how line breaks end, and by how much the lines are indented, zero if
they tell it themselves. -/
structure BlockHeader where
  chomping : Chomping := .clip
  indent : Nat := 0

def indent? (c : Char) : Option Nat :=
  if c.isDigit && c ≠ '0' then Digit.value? c else none

def blockHeader? (c : Cursor) : Option (BlockHeader × Cursor) :=
  match c.rest with
  | a :: b :: _ =>
    match chomping? a, indent? b, indent? a, chomping? b with
    | some ch, some n, _, _ => some (⟨ch, n⟩, c.skip 2)
    | some ch, none, _, _ => some (⟨ch, 0⟩, c.skip 1)
    | none, _, some n, some ch => some (⟨ch, n⟩, c.skip 2)
    | none, _, some n, none => some (⟨.clip, n⟩, c.skip 1)
    | none, _, none, _ => some ({}, c)
  | [a] =>
    match chomping? a, indent? a with
    | some ch, _ => some (⟨ch, 0⟩, c.skip 1)
    | none, some n => some (⟨.clip, n⟩, c.skip 1)
    | none, none => some ({}, c)
  | [] => some ({}, c)

/-- Blank lines and the indentation of the line after them: the deepest column come to, the line
breaks, and the place. If `indent` is zero any number of blanks is indentation. -/
def leadingBreaks? (indent : Nat) : Nat → Nat → Text → Cursor → Option (Nat × Text × Cursor)
  | 0, _, _, _ => none
  | fuel + 1, deepest, breaks, c =>
    let spaces := (c.rest.takeWhile (· == ' ')).length
    let c := c.skip (if indent = 0 then spaces else min spaces (indent - c.column))
    let deepest := max deepest c.column
    if (indent = 0 || c.column < indent) && c.rest.head? == some '\t' then none
    else if c.atBreak then leadingBreaks? indent fuel deepest (breaks ++ c.breakText) c.skipBreak
    else some (deepest, breaks, c)

structure BlockLines where
  parts : List Text := []
  last : Text := []
  blank : Text := []
  indented : Bool := false

namespace BlockLines

/-- What stands for the breaks after the last line, before one that starts with a blank or not. -/
def joint (b : BlockLines) (literal indented : Bool) : Text :=
  if !literal && b.last == ['\n'] && !b.indented && !indented then
    if b.blank.isEmpty then [' '] else b.blank
  else b.last ++ b.blank

def text (b : BlockLines) (chomping : Chomping) : Text :=
  b.parts.reverse.flatten ++
    match chomping with
    | .strip => []
    | .clip => b.last
    | .keep => b.last ++ b.blank

end BlockLines

def blockLines? (literal : Bool) (indent : Nat) :
    Nat → BlockLines → Cursor → Option (BlockLines × Cursor)
  | 0, _, _ => none
  | fuel + 1, b, c =>
    match c.rest with
    | [] => some (b, c)
    | d :: _ =>
      if c.column ≠ indent then some (b, c)
      else
        let line := c.rest.takeWhile fun x => !isBreak x
        let c := c.skip line.length
        match leadingBreaks? indent c.steps 0 [] c.skipBreak with
        | none => none
        | some (_, blank, next) =>
          let parts := line :: b.joint literal (isBlank d) :: b.parts
          blockLines? literal indent fuel ⟨parts, c.breakText, blank, isBlank d⟩ next

def block? (literal : Bool) (margin : Nat) (c : Cursor) : Option (Text × Cursor) := do
  let (header, c) ← blockHeader? (c.skip 1)
  let c ← c.endLine?
  let told := if header.indent = 0 then 0 else margin - 1 + header.indent
  let (deepest, blank, c) ← leadingBreaks? told c.steps 0 [] c
  let indent := if told = 0 then max deepest (max margin 1) else told
  let (b, c) ← blockLines? literal indent c.steps { blank := blank } c
  return (b.text header.chomping, c)

end ScriptTree.Yaml
