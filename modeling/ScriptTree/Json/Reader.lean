import ScriptTree.Json.Basic
import ScriptTree.Number.Digit

namespace ScriptTree.Json

def isBlank (c : Char) : Bool := c == ' ' || c == '\n' || c == '\t' || c == '\r'

def skipBlank (s : Text) : Text := s.dropWhile isBlank

def hex4? : Text → Option (Nat × Text)
  | a :: b :: c :: d :: s => do
    let high := (← Digit.value? a) * 16 + (← Digit.value? b)
    let low := (← Digit.value? c) * 16 + (← Digit.value? d)
    return (high * 256 + low, s)
  | _ => none

def isHighSurrogate (n : Nat) : Bool := 0xd800 ≤ n && n < 0xdc00

def isLowSurrogate (n : Nat) : Bool := 0xdc00 ≤ n && n < 0xe000

/-- What stands for half a character where such a half is let pass. -/
def replacement : Char := '\uFFFD'

/-- The character of a `\u` escape after its mark. Two halves make one character; a half alone is an
error in a strict string. -/
def unicodeEscape? (strict : Bool) (s : Text) : Option (Char × Text) := do
  let (n, rest) ← hex4? s
  if isHighSurrogate n then
    let pair : Option (Char × Text) :=
      match rest with
      | '\\' :: 'u' :: r => do
        let (m, r) ← hex4? r
        if isLowSurrogate m then
          some (Char.ofNat (0x10000 + (n - 0xd800) * 0x400 + (m - 0xdc00)), r)
        else none
      | _ => none
    if strict then pair else some (pair.getD (replacement, rest))
  else if isLowSurrogate n then if strict then none else some (replacement, rest)
  else some (Char.ofNat n, rest)

def escape? (strict : Bool) : Text → Option (Char × Text)
  | '\x22' :: s => some ('\x22', s)
  | '\\' :: s => some ('\\', s)
  | '/' :: s => some ('/', s)
  | 'b' :: s => some ('\x08', s)
  | 'f' :: s => some ('\x0c', s)
  | 'n' :: s => some ('\n', s)
  | 'r' :: s => some ('\r', s)
  | 't' :: s => some ('\t', s)
  | 'u' :: s => unicodeEscape? strict s
  | _ => none

def stringBody? (strict : Bool) : Nat → Text → Option (Text × Text)
  | 0, _ => none
  | fuel + 1, s =>
    match s with
    | [] => none
    | '\x22' :: r => some ([], r)
    | '\\' :: r => do
      let (c, r) ← escape? strict r
      let (t, r) ← stringBody? strict fuel r
      return (c :: t, r)
    | c :: r =>
      if c.toNat < 0x20 then none
      else do
        let (t, r) ← stringBody? strict fuel r
        return (c :: t, r)

def digits? (s : Text) : Option (Text × Text) :=
  let taken := s.takeWhile Char.isDigit
  if taken.isEmpty then none else some (taken, s.dropWhile Char.isDigit)

/-- The whole part of a number: no zero stands before another digit. -/
def whole? : Text → Option (Text × Text)
  | '0' :: s => some (['0'], s)
  | s => digits? s

def fraction? : Text → Option (Text × Text)
  | '.' :: s => (digits? s).map fun p => ('.' :: p.1, p.2)
  | s => some ([], s)

def exponent? : Text → Option (Text × Text)
  | e :: s =>
    if e = 'e' ∨ e = 'E' then
      match s with
      | '+' :: r => (digits? r).map fun p => (e :: '+' :: p.1, p.2)
      | '-' :: r => (digits? r).map fun p => (e :: '-' :: p.1, p.2)
      | r => (digits? r).map fun p => (e :: p.1, p.2)
    else some ([], e :: s)
  | [] => some ([], [])

def number? (s : Text) : Option (Text × Text) := do
  let (sign, s) := match s with
    | '-' :: r => (['-'], r)
    | r => ([], r)
  let (whole, s) ← whole? s
  let (fraction, s) ← fraction? s
  let (exponent, s) ← exponent? s
  return (sign ++ whole ++ fraction ++ exponent, s)

def word? (w s : Text) : Option Text := if w.isPrefixOf s then some (s.drop w.length) else none

mutual

/-- A value at the front of the text, and the rest. If it is an object and `strict` holds, the names
of its members are strict strings. -/
def value? (strict : Bool) : Nat → Text → Option (Json × Text)
  | 0, _ => none
  | fuel + 1, s =>
    match skipBlank s with
    | [] => none
    | '\x7b' :: r =>
      match skipBlank r with
      | '\x7d' :: r => some (.object [], r)
      | r => (members? strict fuel r).map fun p => (.object p.1, p.2)
    | '[' :: r =>
      match skipBlank r with
      | ']' :: r => some (.array [], r)
      | r => (elements? fuel r).map fun p => (.array p.1, p.2)
    | '\x22' :: r => (stringBody? false fuel r).map fun p => (.string p.1, p.2)
    | 'n' :: r => (word? "ull".toList r).map fun r => (.null, r)
    | 't' :: r => (word? "rue".toList r).map fun r => (.bool true, r)
    | 'f' :: r => (word? "alse".toList r).map fun r => (.bool false, r)
    | r => (number? r).map fun p => (.number p.1, p.2)

def members? (strict : Bool) : Nat → Text → Option (List (Text × Json) × Text)
  | 0, _ => none
  | fuel + 1, s =>
    match skipBlank s with
    | '\x22' :: r =>
      match stringBody? strict fuel r with
      | none => none
      | some (name, r) =>
        match skipBlank r with
        | ':' :: r =>
          match value? false fuel r with
          | none => none
          | some (value, r) =>
            match skipBlank r with
            | '\x7d' :: r => some ([(name, value)], r)
            | ',' :: r => (members? strict fuel r).map fun p => ((name, value) :: p.1, p.2)
            | _ => none
        | _ => none
    | _ => none

def elements? : Nat → Text → Option (List Json × Text)
  | 0, _ => none
  | fuel + 1, s =>
    match value? false fuel s with
    | none => none
    | some (value, r) =>
      match skipBlank r with
      | ']' :: r => some ([value], r)
      | ',' :: r => (elements? fuel r).map fun p => (value :: p.1, p.2)
      | _ => none

end

def parse? (s : Text) : Option Json :=
  match value? true (2 * s.length + 2) s with
  | some (v, rest) => if (skipBlank rest).isEmpty then some v else none
  | none => none

end ScriptTree.Json
