import ScriptTree.Number.Decimal
import ScriptTree.Timeframe.Words

namespace ScriptTree

structure Timeframe where
  count : Nat
  unit : TimeUnit
  anchor : Option Anchor
  last : Bool
  deriving DecidableEq, Repr

namespace Timeframe

def maxCount : Nat := 0xffffffffffffffff

def splitDash : Text → List Text
  | [] => [[]]
  | c :: s =>
    if c = '-' then [] :: splitDash s
    else
      match splitDash s with
      | [] => [[c]]
      | w :: ws => (c :: w) :: ws

def parse? (s : Text) : Option Timeframe := do
  let digits := s.takeWhile Char.isDigit
  let count := Decimal.digitsValue digits
  if digits.isEmpty || maxCount < count then none
  else
    match splitDash (s.dropWhile Char.isDigit) with
    | [unit] => return ⟨count, ← TimeUnit.ofSuffix? unit, none, false⟩
    | [unit, anchor] =>
      return ⟨count, ← TimeUnit.ofSuffix? unit, some (← Anchor.ofWord? anchor), false⟩
    | [unit, anchor, last] =>
      if last = lastWord then
        return ⟨count, ← TimeUnit.ofSuffix? unit, some (← Anchor.ofWord? anchor), true⟩
      else none
    | _ => none

def text (t : Timeframe) : Text :=
  Nat.toDigits 10 t.count ++ t.unit.suffix ++
    match t.anchor with
    | none => []
    | some a => '-' :: a.word ++ if t.last then '-' :: lastWord else []

end Timeframe

end ScriptTree
