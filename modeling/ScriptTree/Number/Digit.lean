import ScriptTree.Text.Basic

namespace ScriptTree.Digit

def value? (c : Char) : Option Nat :=
  if c.isDigit then some (c.toNat - '0'.toNat)
  else if 'a' ≤ c && c ≤ 'f' then some (c.toNat - 'a'.toNat + 10)
  else if 'A' ≤ c && c ≤ 'F' then some (c.toNat - 'A'.toNat + 10)
  else none

def isIn (base : Nat) (c : Char) : Bool :=
  match value? c with
  | some d => d < base
  | none => false

def number (base : Nat) (digits : Text) : Nat :=
  digits.foldl (fun n c => base * n + (value? c).getD 0) 0

def number? (base : Nat) (digits : Text) : Option Nat :=
  if digits.isEmpty || !digits.all (isIn base) then none else some (number base digits)

/-- The character whose code point hexadecimal digits are. -/
def codePoint? (digits : Text) : Option Char := do
  let n ← number? 16 digits
  if n.isValidChar then some (Char.ofNat n) else none

/-- A character given by as many hexadecimal digits as told, and the rest. -/
def takeCodePoint? (count : Nat) (s : Text) : Option (Char × Text) :=
  if s.length < count then none
  else (codePoint? (s.take count)).map fun c => (c, s.drop count)

end ScriptTree.Digit
