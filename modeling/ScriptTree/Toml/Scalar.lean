import ScriptTree.Number.Decimal
import ScriptTree.Number.Digit
import ScriptTree.Settings.Field
import ScriptTree.Toml.DateTime

namespace ScriptTree.Toml

/-- The digits of a base, single underscores between them left out. -/
def digitRun? (base : Nat) : Text → Option Text
  | [] => none
  | [c] => if Digit.isIn base c then some [c] else none
  | c :: '_' :: s => if Digit.isIn base c then (digitRun? base s).map (c :: ·) else none
  | c :: s => if Digit.isIn base c then (digitRun? base s).map (c :: ·) else none

/-- The range of integers: those of 128 bits, with a sign or without. -/
def inRange (n : Int) : Bool :=
  -0x80000000000000000000000000000000 ≤ n && n ≤ 0xffffffffffffffffffffffffffffffff

def wholeDigits? (w : Text) : Option Text :=
  match w with
  | '0' :: _ :: _ => none
  | w => digitRun? 10 w

def signedDigits? (w : Text) : Option (Bool × Text) :=
  let (negative, w) := Decimal.sign w
  (wholeDigits? w).map (negative, ·)

/-- An integer: in base sixteen, eight or two after a mark and without a sign, or in base ten. -/
def integer? (w : Text) : Option Int :=
  match w with
  | '0' :: 'x' :: r => (digitRun? 16 r).map fun d => Digit.number 16 d
  | '0' :: 'o' :: r => (digitRun? 8 r).map fun d => Digit.number 8 d
  | '0' :: 'b' :: r => (digitRun? 2 r).map fun d => Digit.number 2 d
  | w => (signedDigits? w).map fun p =>
    if p.1 then -(Decimal.digitsValue p.2 : Int) else Decimal.digitsValue p.2

def exponentDigits? (s : Text) : Option Text :=
  match s with
  | '+' :: r => (digitRun? 10 r).map ('+' :: ·)
  | '-' :: r => (digitRun? 10 r).map ('-' :: ·)
  | r => digitRun? 10 r

def isMark (c : Char) : Bool := c == 'e' || c == 'E'

def float? (w : Text) : Option Binary64 := do
  let mantissa := w.takeWhile fun c => !isMark c
  let exponent := w.dropWhile fun c => !isMark c
  let whole := mantissa.takeWhile (· ≠ '.')
  let fraction := mantissa.dropWhile (· ≠ '.')
  if fraction.isEmpty && exponent.isEmpty then none
  else
    let (negative, digits) ← signedDigits? whole
    let places ← if fraction.isEmpty then some [] else digitRun? 10 (fraction.drop 1)
    let power ← if exponent.isEmpty then some ['0'] else exponentDigits? (exponent.drop 1)
    Decimal.magnitude? negative (digits ++ '.' :: places ++ 'e' :: power)

def isSpecialFloat (w : Text) : Bool :=
  let w := (Decimal.sign w).2
  w = "inf".toList || w = "nan".toList

/-- Whether the word is a float; one that is too large is not. -/
def isFloat (w : Text) : Bool :=
  isSpecialFloat w ||
    match float? w with
    | some x => x.isFinite
    | none => false

def wordValue? (w : Text) : Option FieldValue :=
  if w = "true".toList then some (.boolean true)
  else if w = "false".toList then some (.boolean false)
  else
    match integer? w with
    | some n => if inRange n then some (.integer n) else none
    | none => if isFloat w || isDateTime w then some .other else none

def isWordEnd (c : Char) : Bool := " \t\r\n=,[]\x7b\x7d#".toList.contains c

/-- The word at the front and the rest. A blank between a date and a time belongs to them. -/
def takeWord (s : Text) : Text × Text :=
  let word := s.takeWhile fun c => !isWordEnd c
  let rest := s.dropWhile fun c => !isWordEnd c
  match rest with
  | ' ' :: d :: r =>
    if isDate word && d.isDigit then
      let time := (d :: r).takeWhile fun c => !isWordEnd c
      (word ++ ' ' :: time, (d :: r).dropWhile fun c => !isWordEnd c)
    else (word, rest)
  | _ => (word, rest)

end ScriptTree.Toml
