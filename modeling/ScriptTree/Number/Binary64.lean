namespace ScriptTree

structure Binary64 where
  bits : UInt64
  deriving DecidableEq, Repr

namespace Binary64

def twoPow (n : Nat) : Nat := Nat.pow 2 n

/-- The weight of the exponent field: the first bit above the 52 bits of the fraction. -/
def fieldUnit : Nat := 0x10000000000000

def signBit : Nat := 0x8000000000000000

/-- The quotient to the nearest integer, a half to the even one. -/
def roundDiv (num den : Nat) : Nat :=
  let q := num / den
  let r := num % den
  if 2 * r > den ∨ (2 * r = den ∧ q % 2 = 1) then q + 1 else q

/-- `num / den` in units of `2 ^ e`, as a fraction of integers. -/
def scaled (num den : Nat) (e : Int) : Nat × Nat :=
  if 0 ≤ e then (num, den * twoPow e.toNat) else (num * twoPow (-e).toNat, den)

/-- The exponent of the last binary place that a positive quotient keeps: it has 53 places, and
none below the smallest subnormal number. -/
def placeOf (num den : Nat) : Int :=
  let e : Int := (Nat.log2 num : Int) - Nat.log2 den - 53
  let (n, d) := scaled num den e
  max (-1074) (if 2 * fieldUnit ≤ n / d then e + 1 else e)

def infinityBits : Nat := 0x7ff0000000000000

def nanBits : Nat := 0x7ff8000000000000

/-- The bits of the number nearest to `num / den`. Counting the places from the smallest subnormal
one, the exponent field and the fraction make one number, so a carry needs no care. -/
def magnitudeBits (num den : Nat) : Nat :=
  if num = 0 then 0
  else
    let e := placeOf num den
    let (n, d) := scaled num den e
    min infinityBits ((e + 1074).toNat * fieldUnit + roundDiv n d)

def signed (negative : Bool) (magnitude : Nat) : Binary64 :=
  ⟨(if negative then magnitude + signBit else magnitude).toUInt64⟩

def ofRatio (negative : Bool) (num den : Nat) : Binary64 := signed negative (magnitudeBits num den)

def ofNat (n : Nat) : Binary64 := ofRatio false n 1

/-- A finite number that is not negative, as a fraction of integers. -/
def toRatio (x : Binary64) : Nat × Nat :=
  let b : Nat := x.bits.toNat
  let field : Nat := b / fieldUnit
  let fraction : Nat := b % fieldUnit
  let (m, place) : Nat × Int :=
    if field = 0 then (fraction, -1074) else (fraction + fieldUnit, (field : Int) - 1075)
  if 0 ≤ place then (m * twoPow place.toNat, 1) else (m, twoPow (-place).toNat)

def div (x y : Binary64) : Binary64 :=
  let (a, b) := x.toRatio
  let (c, d) := y.toRatio
  ofRatio false (a * d) (b * c)

def isFinite (x : Binary64) : Bool := x.bits.toNat % signBit < infinityBits

def lt (x y : Binary64) : Bool := x.bits < y.bits

/-- `coefficient * 10 ^ exponent`. A decimal far outside the range is settled by its size alone. -/
def ofDecimal (negative : Bool) (coefficient : Nat) (exponent : Int) : Binary64 :=
  if coefficient = 0 then signed negative 0
  else
    let size : Int := (Nat.toDigits 10 coefficient).length + exponent
    if 400 < size then signed negative infinityBits
    else if size < -400 then signed negative 0
    else if 0 ≤ exponent then ofRatio negative (coefficient * Nat.pow 10 exponent.toNat) 1
    else ofRatio negative coefficient (Nat.pow 10 (-exponent).toNat)

def hex (x : Binary64) : List Char :=
  let digits := Nat.toDigits 16 x.bits.toNat
  List.replicate (16 - digits.length) '0' ++ digits

end Binary64

end ScriptTree
