namespace ScriptTree

abbrev Text := List Char

namespace Text

/-- The length of the UTF-8 form. -/
def bytes : Text → Nat
  | [] => 0
  | c :: s => c.utf8Size + bytes s

/-- The part of the text from a byte offset on, if the offset is a boundary. -/
def dropBytes? : Text → Nat → Option Text
  | s, 0 => some s
  | [], _ + 1 => none
  | c :: s, n + 1 => if c.utf8Size ≤ n + 1 then dropBytes? s (n + 1 - c.utf8Size) else none

/-- The longest part of the text that ends at or before a byte offset. -/
def takeBytes : Text → Nat → Text
  | [], _ => []
  | c :: s, n => if c.utf8Size ≤ n then c :: takeBytes s (n - c.utf8Size) else []

def isBoundary (s : Text) (n : Nat) : Bool := (dropBytes? s n).isSome

/-- The text from one boundary to another; what no cut yields is empty. -/
def slice (s : Text) (start stop : Nat) : Text :=
  ((s.dropBytes? start).getD []).takeBytes (stop - start)

@[simp] theorem bytes_nil : bytes [] = 0 := rfl

@[simp] theorem bytes_cons (c : Char) (s : Text) : bytes (c :: s) = c.utf8Size + bytes s := rfl

@[simp] theorem bytes_append (s t : Text) : bytes (s ++ t) = bytes s + bytes t := by
  induction s with
  | nil => simp
  | cons c s ih => simp [ih, Nat.add_assoc]

end Text

end ScriptTree
