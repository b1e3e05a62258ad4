import ScriptTree.Number.Decimal

namespace ScriptTree.Toml

def twoDigits? (least most : Nat) : Text → Option (Nat × Text)
  | a :: b :: s =>
    let n := Decimal.digitsValue [a, b]
    if a.isDigit && b.isDigit && least ≤ n && n ≤ most then some (n, s) else none
  | _ => none

def after? (c : Char) : Text → Option Text
  | [] => none
  | d :: s => if d = c then some s else none

def isLeapYear (year : Nat) : Bool := year % 4 = 0 && (year % 100 ≠ 0 || year % 400 = 0)

def daysInMonth (year month : Nat) : Nat :=
  if month = 2 then if isLeapYear year then 29 else 28
  else if [4, 6, 9, 11].contains month then 30
  else 31

def afterDate? (s : Text) : Option Text := do
  let (century, s) ← twoDigits? 0 99 s
  let (year, s) ← twoDigits? 0 99 s
  let s ← after? '-' s
  let (month, s) ← twoDigits? 1 12 s
  let s ← after? '-' s
  let (_, s) ← twoDigits? 1 (daysInMonth (100 * century + year) month) s
  return s

def afterFraction? : Text → Option Text
  | '.' :: s => if (s.takeWhile Char.isDigit).isEmpty then none else some (s.dropWhile Char.isDigit)
  | s => some s

/-- What follows an hour and minute, which may have a second with a fraction after them. A minute
may have a second more. -/
def afterTime? (s : Text) : Option Text := do
  let (_, s) ← twoDigits? 0 23 s
  let s ← after? ':' s
  let (_, s) ← twoDigits? 0 59 s
  match s with
  | ':' :: s => do
    let (_, s) ← twoDigits? 0 60 s
    afterFraction? s
  | s => return s

def isOffset : Text → Bool
  | [] => true
  | [c] => c = 'Z' || c = 'z'
  | c :: s =>
    let rest : Option Text := do
      let (_, s) ← twoDigits? 0 23 s
      let s ← after? ':' s
      let (_, s) ← twoDigits? 0 59 s
      return s
    (c = '+' || c = '-') && rest == some []

def isDate (s : Text) : Bool := afterDate? s == some []

def isTimeMark (c : Char) : Bool := c = 'T' || c = 't' || c = ' '

def isDateTime (s : Text) : Bool :=
  match afterDate? s with
  | some [] => true
  | some (c :: r) =>
    isTimeMark c &&
      match afterTime? r with
      | some offset => isOffset offset
      | none => false
  | none => afterTime? s == some []

end ScriptTree.Toml
