import ScriptTree.Timeframe.Basic
import ScriptTree.Token.Basic

namespace ScriptTree

inductive Literal
  | integer (n : Nat)
  | float (x : Binary64)
  | string (s : Text)
  | boolean (b : Bool)
  | null
  | timeframe (t : Timeframe)
  deriving DecidableEq, Repr

namespace Literal

/-- The largest integer; a larger number is a float. -/
def maxInteger : Nat := 0x7fffffffffffffff

def number? (s : Text) : Option Literal :=
  if !s.isEmpty && s.all Char.isDigit && Decimal.digitsValue s ≤ maxInteger then
    some (.integer (Decimal.digitsValue s))
  else (Decimal.parse? s).map .float

/-- What an escaped character stands for; any other character keeps its backslash. -/
def unescapeChar : Char → Text
  | 'n' => ['\n']
  | 't' => ['\t']
  | 'r' => ['\r']
  | '0' => ['\x00']
  | '\\' => ['\\']
  | '\x27' => ['\x27']
  | '\x22' => ['\x22']
  | c => ['\\', c]

def unescape : Text → Text
  | [] => []
  | '\\' :: c :: s => unescapeChar c ++ unescape s
  | c :: s => c :: unescape s

def dropEnd? (ending s : Text) : Option Text :=
  if ending.length ≤ s.length ∧ s.drop (s.length - ending.length) = ending then
    some (s.take (s.length - ending.length))
  else none

/-- The contents of a string between three quotes, which has no escapes. -/
def block? : Text → Option Text
  | '\x22' :: '\x22' :: '\x22' :: s => dropEnd? ['\x22', '\x22', '\x22'] s
  | _ => none

def quoted? : Text → Option Text
  | c :: s =>
    if c = '\x22' ∨ c = '\x27' then (dropEnd? [c] s).map unescape else none
  | [] => none

def string? (s : Text) : Option Text := (block? s).or (quoted? s)

def boolean? (s : Text) : Option Literal :=
  if s = "True".toList then some (.boolean true)
  else if s = "False".toList then some (.boolean false)
  else none

/-- The value of a token of a kind; there is none for other kinds and for a text that is not of the
kind's form. -/
def decode? (k : Kind) (s : Text) : Option Literal :=
  match k with
  | .number => number? s
  | .timeframe => (Timeframe.parse? s).map .timeframe
  | .string => (string? s).map .string
  | .boolean => boolean? s
  | .none => some .null
  | _ => none

end Literal

end ScriptTree
