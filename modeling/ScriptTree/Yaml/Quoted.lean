import ScriptTree.Number.Digit
import ScriptTree.Yaml.Cursor

namespace ScriptTree.Yaml

def letterEscape? : Char → Option Char
  | '0' => some '\x00'
  | 'a' => some '\x07'
  | 'b' => some '\x08'
  | 't' => some '\t'
  | '\t' => some '\t'
  | 'n' => some '\n'
  | 'v' => some '\x0b'
  | 'f' => some '\x0c'
  | 'r' => some '\r'
  | 'e' => some '\x1b'
  | ' ' => some ' '
  | '\x22' => some '\x22'
  | '/' => some '/'
  | '\\' => some '\\'
  | 'N' => some '\u0085'
  | '_' => some '\u00a0'
  | 'L' => some '\u2028'
  | 'P' => some '\u2029'
  | _ => none

def digitCount? : Char → Option Nat
  | 'x' => some 2
  | 'u' => some 4
  | 'U' => some 8
  | _ => none

def escape? : Text → Option (Char × Nat)
  | [] => none
  | e :: s =>
    match digitCount? e with
    | some n => (Digit.takeCodePoint? n s).map fun p => (p.1, n + 1)
    | none => (letterEscape? e).map fun c => (c, 1)

def atLineBreak : Text → Bool
  | [] => false
  | c :: _ => isBreak c

/-- The word at the front between double quotes, and how many characters it is written with. A
quote, a gap, a backslash before a line break or nothing follows it. -/
def doubleWord? : Nat → Text → Option (Text × Nat)
  | 0, _ => none
  | fuel + 1, s =>
    match s with
    | [] => some ([], 0)
    | '\\' :: r =>
      if atLineBreak r then some ([], 0)
      else do
        let (c, n) ← escape? r
        let (word, m) ← doubleWord? fuel (r.drop n)
        return (c :: word, n + 1 + m)
    | c :: r =>
      if c == '\x22' || isSpace c then some ([], 0)
      else do
        let (word, m) ← doubleWord? fuel r
        return (c :: word, m + 1)

def singleWord : Text → Text × Nat
  | [] => ([], 0)
  | '\x27' :: '\x27' :: s =>
    let (word, m) := singleWord s
    ('\x27' :: word, m + 2)
  | c :: s =>
    if c == '\x27' || isSpace c then ([], 0)
    else
      let (word, m) := singleWord s
      (c :: word, m + 1)

def quotedWord? (quote : Char) (c : Cursor) : Option (Text × Cursor) :=
  let found := if quote == '\x22' then doubleWord? c.steps c.rest else some (singleWord c.rest)
  found.map fun p => (p.1, c.skip p.2)

/-- A scalar after its first quote, given its parts so far, the last one first, and the place after
its last quote. No line of it may start or end a document. -/
def quotedAfter? (quote : Char) : Nat → List Text → Cursor → Option (Text × Cursor)
  | 0, _, _ => none
  | fuel + 1, front, c =>
    if c.atMarker then none
    else do
      let (word, c) ← quotedWord? quote c
      let front := word :: front
      match c.rest with
      | [] => none
      | d :: _ =>
        if d == quote then return (front.reverse.flatten, c.skip 1)
        else if isSpace d then
          let (gap, c) := c.gap
          quotedAfter? quote fuel (gap.folded :: front) c
        else
          let c := (c.skip 1).skipBreak
          if c.rest.head? == some quote then return (front.reverse.flatten, c.skip 1)
          else
            let (gap, c) := c.gap
            quotedAfter? quote fuel (gap.breaks :: front) c

def quoted? (quote : Char) (c : Cursor) : Option (Text × Cursor) :=
  quotedAfter? quote c.steps [] (c.skip 1)

end ScriptTree.Yaml
