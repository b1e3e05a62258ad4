import ScriptTree.Text.Basic

namespace ScriptTree

structure Edit where
  start : Nat
  stop : Nat
  text : Text
  start_le_stop : start ≤ stop
  deriving DecidableEq

namespace Edit

/-- The largest offset that an edit can name. -/
def maxOffset : Nat := 0xffffffff

/-- The replacement of a range by a text; larger offsets count as the largest one, and a range that
ends before its start is empty. -/
def replace (start stop : Nat) (text : Text) : Edit where
  start := min start maxOffset
  stop := max (min stop maxOffset) (min start maxOffset)
  text := text
  start_le_stop := Nat.le_max_right ..

def insert (at_ : Nat) (text : Text) : Edit := replace at_ at_ text

def delete (start stop : Nat) : Edit := replace start stop []

def isInsertion (e : Edit) : Bool := e.start = e.stop && !e.text.isEmpty

def isDeletion (e : Edit) : Bool := e.start ≠ e.stop && e.text.isEmpty

def isReplacement (e : Edit) : Bool := e.start ≠ e.stop && !e.text.isEmpty

def lengthDelta (e : Edit) : Int := (e.text.bytes : Int) - (e.stop - e.start : Nat)

/-- What keeps an edit from being applied. -/
inductive Violation
  | outOfOrder | overlapping | outOfBounds | notBoundary
  deriving DecidableEq, Repr

namespace Violation

def all : List Violation := [.outOfOrder, .overlapping, .outOfBounds, .notBoundary]

def name : Violation → String
  | .outOfOrder => "OutOfOrder"
  | .overlapping => "Overlapping"
  | .outOfBounds => "OutOfBounds"
  | .notBoundary => "NotCharBoundary"

def message : Violation → String
  | .outOfOrder => "starts before the previous edit"
  | .overlapping => "overlaps the previous edit"
  | .outOfBounds => "reaches past the end of the text"
  | .notBoundary => "splits a character"

end Violation

structure BatchError where
  index : Nat
  violation : Violation
  deriving DecidableEq, Repr

def BatchError.message (e : BatchError) : String :=
  "Inconsistent edit batch: edit " ++ toString e.index ++ " " ++ e.violation.message

def violation? (s : Text) (previous : Option Edit) (e : Edit) : Option Violation :=
  if s.bytes < e.stop then some .outOfBounds
  else if !(s.isBoundary e.start && s.isBoundary e.stop) then some .notBoundary
  else if previous.any fun p => e.start < p.start then some .outOfOrder
  else if previous.any fun p => e.start < p.stop then some .overlapping
  else none

def validateFrom (s : Text) (previous : Option Edit) (index : Nat) :
    List Edit → Except BatchError Unit
  | [] => .ok ()
  | e :: es =>
    match violation? s previous e with
    | some v => .error ⟨index, v⟩
    | none => validateFrom s (some e) (index + 1) es

def inserted : List Edit → Nat
  | [] => 0
  | e :: es => e.text.bytes + inserted es

def validate (s : Text) (es : List Edit) : Except BatchError Unit := validateFrom s none 0 es

def applyFrom (s : Text) (from_ : Nat) : List Edit → Text
  | [] => (s.dropBytes? from_).getD []
  | e :: es => s.slice from_ e.start ++ e.text ++ applyFrom s e.stop es

def applyAll (s : Text) (es : List Edit) : Text := applyFrom s 0 es

end Edit

/-- An edit in the coordinates of the text before the batch and of the text after it. -/
structure Change where
  oldStart : Nat
  oldStop : Nat
  newStart : Nat
  newStop : Nat
  deriving DecidableEq, Repr

namespace Change

def delta (c : Change) : Int := (c.newStop : Int) - c.oldStop

def ofEditsFrom (gained : Int) : List Edit → List Change
  | [] => []
  | e :: es =>
    let start := (e.start + gained).toNat
    let c : Change := ⟨e.start, e.stop, start, start + e.text.bytes⟩
    c :: ofEditsFrom c.delta es

def ofEdits (es : List Edit) : List Change := ofEditsFrom 0 es

end Change

end ScriptTree
