import ScriptTree.Number.Binary64
import ScriptTree.Text.Basic

namespace ScriptTree.Decimal

def digitsValue (digits : Text) : Nat := digits.foldl (fun n c => 10 * n + (c.toNat - '0'.toNat)) 0

def sign : Text → Bool × Text
  | '-' :: s => (true, s)
  | '+' :: s => (false, s)
  | s => (false, s)

def exponent? : Text → Option Int
  | [] => some 0
  | c :: s =>
    if c = 'e' ∨ c = 'E' then
      let (negative, digits) := sign s
      if digits.isEmpty || !digits.all Char.isDigit then none
      else some (if negative then -(digitsValue digits : Int) else digitsValue digits)
    else none

def fraction : Text → Text × Text
  | '.' :: s => (s.takeWhile Char.isDigit, s.dropWhile Char.isDigit)
  | s => ([], s)

def magnitude? (negative : Bool) (s : Text) : Option Binary64 :=
  let whole := s.takeWhile Char.isDigit
  let (places, rest) := fraction (s.dropWhile Char.isDigit)
  if whole.isEmpty && places.isEmpty then none
  else (exponent? rest).map fun e =>
    .ofDecimal negative (digitsValue (whole ++ places)) (e - places.length)

/-- The number that a word means in any mixture of cases. -/
def word? (negative : Bool) (s : Text) : Option Binary64 :=
  let w := s.map Char.toLower
  if w = "inf".toList ∨ w = "infinity".toList then some (.signed negative Binary64.infinityBits)
  else if w = "nan".toList then some (.signed negative Binary64.nanBits)
  else none

def parse? (s : Text) : Option Binary64 :=
  let (negative, s) := sign s
  (word? negative s).or (magnitude? negative s)

end ScriptTree.Decimal
