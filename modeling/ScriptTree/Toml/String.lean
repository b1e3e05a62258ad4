import ScriptTree.Number.Digit
import ScriptTree.Toml.Layout

namespace ScriptTree.Toml

def escape? : Text → Option (Char × Text)
  | 'b' :: s => some ('\x08', s)
  | 't' :: s => some ('\t', s)
  | 'n' :: s => some ('\n', s)
  | 'f' :: s => some ('\x0c', s)
  | 'r' :: s => some ('\r', s)
  | 'e' :: s => some ('\x1b', s)
  | '\x22' :: s => some ('\x22', s)
  | '\\' :: s => some ('\\', s)
  | 'x' :: s => Digit.takeCodePoint? 2 s
  | 'u' :: s => Digit.takeCodePoint? 4 s
  | 'U' :: s => Digit.takeCodePoint? 8 s
  | _ => none

def basicString? : Nat → Text → Option (Text × Text)
  | 0, _ => none
  | fuel + 1, s =>
    match s with
    | [] => none
    | '\x22' :: r => some ([], r)
    | '\\' :: r => do
      let (c, r) ← escape? r
      let (t, r) ← basicString? fuel r
      return (c :: t, r)
    | c :: r =>
      if isControl c then none
      else do
        let (t, r) ← basicString? fuel r
        return (c :: t, r)

def literalString? : Text → Option (Text × Text)
  | [] => none
  | '\x27' :: r => some ([], r)
  | c :: r => if isControl c then none else (literalString? r).map fun p => (c :: p.1, p.2)

def lineString? : Text → Option (Text × Text)
  | '\x22' :: r => basicString? (r.takeWhile (· ≠ '\n')).length.succ r
  | '\x27' :: r => literalString? r
  | _ => none

/-- What a backslash may stand before in a string on several lines: an escape, or blanks and the
end of the line. -/
def longEscape? (s : Text) : Option Text :=
  match newline? (skipBlanks s) with
  | some r => some r
  | none => (escape? s).map Prod.snd

/-- What follows the three quotes that end a string on several lines. Three quotes end it wherever
they stand, but up to two more right after them belong to it. -/
def afterLong? (quote : Char) : Nat → Text → Option Text
  | 0, _ => none
  | fuel + 1, s =>
    match s with
    | [] => none
    | c :: r =>
      if c = quote then
        let run := (s.takeWhile (· = quote)).length
        if run < 3 then afterLong? quote fuel r else some (s.drop (min run 5))
      else if c = '\\' && quote = '\x22' then (longEscape? r).bind (afterLong? quote fuel)
      else
        match newline? s with
        | some r => afterLong? quote fuel r
        | none => if isControl c then none else afterLong? quote fuel r

def afterString? (s : Text) : Option Text :=
  match s with
  | '\x22' :: '\x22' :: '\x22' :: r => afterLong? '\x22' r.length.succ r
  | '\x27' :: '\x27' :: '\x27' :: r => afterLong? '\x27' r.length.succ r
  | _ => (lineString? s).map Prod.snd

end ScriptTree.Toml
