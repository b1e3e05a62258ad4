import ScriptTree.Text.Basic

namespace ScriptTree.Yaml

def isPrintable (c : Char) : Bool :=
  let n := c.toNat
  c == '\t' || c == '\n' || c == '\r' || (0x20 ≤ n && n ≤ 0x7e) || n == 0x85 ||
    (0xa0 ≤ n && n ≤ 0xfffd) || 0x10000 ≤ n

def isBlank (c : Char) : Bool := c == ' ' || c == '\t'

def isBreak (c : Char) : Bool :=
  c == '\n' || c == '\r' || c == '\u0085' || c == '\u2028' || c == '\u2029'

def isSpace (c : Char) : Bool := isBlank c || isBreak c

def atSpace : Text → Bool
  | [] => true
  | c :: _ => isSpace c

def isName (c : Char) : Bool := c.isAlphanum || c == '_' || c == '-'

/-- What a line break stands for in a scalar: only the two separators stand for themselves. -/
def lineBreak (c : Char) : Char := if c == '\u2028' || c == '\u2029' then c else '\n'

structure Cursor where
  rest : Text
  size : Nat
  index : Nat := 0
  line : Nat := 0
  column : Nat := 0

namespace Cursor

def start (s : Text) : Cursor := { rest := s, size := s.length }

/-- How often one can go on from here before the end is passed. -/
def steps (c : Cursor) : Nat := c.size - c.index + 1

def skip (c : Cursor) (n : Nat) : Cursor :=
  { c with rest := c.rest.drop n, index := c.index + n, column := c.column + n }

def skipTo (c : Cursor) (rest : Text) : Cursor := c.skip (c.rest.length - rest.length)

def skipWhile (c : Cursor) (p : Char → Bool) : Cursor := c.skip (c.rest.takeWhile p).length

def skipBlanks (c : Cursor) : Cursor := c.skipWhile isBlank

def skipComment (c : Cursor) : Cursor :=
  if c.rest.head? == some '#' then c.skipWhile fun c => !isBreak c else c

def skipBreak (c : Cursor) : Cursor :=
  match c.rest with
  | '\r' :: '\n' :: r =>
    { c with rest := r, index := c.index + 2, line := c.line + 1, column := 0 }
  | b :: r =>
    if isBreak b then { c with rest := r, index := c.index + 1, line := c.line + 1, column := 0 }
    else c
  | [] => c

def atBreak (c : Cursor) : Bool :=
  match c.rest with
  | [] => false
  | b :: _ => isBreak b

def breakText (c : Cursor) : Text :=
  match c.rest with
  | [] => []
  | b :: _ => if isBreak b then [lineBreak b] else []

/-- Whether a line starts here with three times a character and then a blank or nothing. -/
def atTriple (c : Cursor) (mark : Char) : Bool :=
  c.column == 0 &&
    match c.rest with
    | x :: y :: z :: r => x == mark && y == mark && z == mark && atSpace r
    | _ => false

/-- Whether a line starts here that starts or ends a document. -/
def atMarker (c : Cursor) : Bool := c.atTriple '-' || c.atTriple '.'

def endLine? (c : Cursor) : Option Cursor :=
  let c := c.skipBlanks.skipComment
  if c.rest.isEmpty || c.atBreak then some c.skipBreak else none

end Cursor

/-- The blanks and line breaks between two parts of a scalar: blanks, and further lines, each given
by the break before it and the blanks on it. -/
structure Gap where
  blanks : Text := []
  lines : List (Char × Text) := []

namespace Gap

def ofText : Text → Gap
  | [] => {}
  | '\r' :: '\n' :: s =>
    let g := ofText s
    ⟨[], ('\n', g.blanks) :: g.lines⟩
  | c :: s =>
    let g := ofText s
    if isBreak c then ⟨[], (lineBreak c, g.blanks) :: g.lines⟩
    else { g with blanks := c :: g.blanks }

def hasBreak (g : Gap) : Bool := !g.lines.isEmpty

def breaks (g : Gap) : Text := g.lines.map Prod.fst

/-- The gap folded: a line feed alone stands for a blank, and is dropped if more breaks follow. -/
def folded (g : Gap) : Text :=
  match g.breaks with
  | [] => g.blanks
  | ['\n'] => [' ']
  | '\n' :: more => more
  | breaks => breaks

def hasTabBefore (g : Gap) (column : Nat) : Bool :=
  g.lines.any fun l => (l.2.take column).contains '\t'

end Gap

def Cursor.gap (c : Cursor) : Gap × Cursor :=
  let run := c.rest.takeWhile isSpace
  let g := Gap.ofText run
  let column := match g.lines.getLast? with
    | some l => l.2.length
    | none => c.column + g.blanks.length
  let next := { c.skip run.length with line := c.line + g.lines.length, column := column }
  (g, next)

end ScriptTree.Yaml
