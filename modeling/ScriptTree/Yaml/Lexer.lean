import ScriptTree.Yaml.Block
import ScriptTree.Yaml.Plain
import ScriptTree.Yaml.Quoted
import ScriptTree.Yaml.Tag

namespace ScriptTree.Yaml

/-- A place where a key may have started. -/
structure PossibleKey where
  /-- Whether nothing but a key can stand there. -/
  required : Bool
  tokens : Nat
  index : Nat
  line : Nat
  column : Nat

def maxKeyLength : Nat := 1024

structure Lexer where
  cursor : Cursor
  tokens : List Token := []
  count : Nat := 0
  keyAllowed : Bool := true
  /-- One more than the column of the innermost block, and zero outside of all blocks. -/
  margin : Nat := 0
  margins : List Nat := []
  key : Option PossibleKey := none
  outerKeys : List (Option PossibleKey) := []

namespace Lexer

/-- Whether the place is in brackets, where indentation means nothing. -/
def inFlow (l : Lexer) : Bool := !l.outerKeys.isEmpty

def emit (l : Lexer) (t : Token) : Lexer := { l with tokens := t :: l.tokens, count := l.count + 1 }

def insert (l : Lexer) (n : Nat) (t : Token) : Lexer :=
  let later := l.count - n
  { l with tokens := l.tokens.take later ++ t :: l.tokens.drop later, count := l.count + 1 }

def dropKey? (l : Lexer) : Option Lexer :=
  match l.key with
  | some k => if k.required then none else some { l with key := none }
  | none => some l

def saveKey? (l : Lexer) : Option Lexer :=
  if l.keyAllowed then do
    let l ← l.dropKey?
    let c := l.cursor
    let required := !l.inFlow && l.margin == c.column + 1
    return { l with key := some ⟨required, l.count, c.index, c.line, c.column⟩ }
  else some l

/-- Forget the key that may have started in these brackets if it cannot have any more: keys are on
one line and not too long. For what is around the brackets this waits until they are closed. -/
def renewKey? (l : Lexer) : Option Lexer :=
  match l.key with
  | none => some l
  | some k =>
    if k.line < l.cursor.line || k.index + maxKeyLength < l.cursor.index then l.dropKey? else some l

/-- Start a block at a column, if it is deeper than the innermost one, by a token that is put in
after the first `n`. -/
def openBlock (l : Lexer) (column n : Nat) (t : Token) : Lexer :=
  if !l.inFlow && l.margin ≤ column then
    { l.insert n t with margin := column + 1, margins := l.margin :: l.margins }
  else l

/-- How many blocks end when only those with a margin up to `least` stay open, and the margins that
are left. -/
def closed (least : Nat) : Nat → List Nat → Nat × Nat × List Nat
  | margin, [] => (0, margin, [])
  | margin, m :: ms =>
    if least < margin then
      let (n, left) := closed least m ms
      (n + 1, left)
    else (0, margin, m :: ms)

def closeBlocks (l : Lexer) (least : Nat) : Lexer :=
  if l.inFlow then l
  else
    let (n, margin, margins) := closed least l.margin l.margins
    { l with
      tokens := List.replicate n .blockEnd ++ l.tokens
      count := n + l.count
      margin := margin
      margins := margins }

/-- Go on past blanks, comments and line breaks. A tab is a blank only where no key may start. The
mark of an encoding is passed over at the start of any line, but takes up a column. -/
def skipSpace : Nat → Lexer → Lexer
  | 0, l => l
  | fuel + 1, l =>
    let c := l.cursor
    let c := if c.column == 0 && c.rest.head? == some '\uFEFF' then c.skip 1 else c
    let tabs := l.inFlow || !l.keyAllowed
    let c := (c.skipWhile fun x => x == ' ' || (tabs && x == '\t')).skipComment
    if c.atBreak then
      skipSpace fuel { l with cursor := c.skipBreak, keyAllowed := l.keyAllowed || !l.inFlow }
    else { l with cursor := c }

def mark (l : Lexer) (length : Nat) (t : Token) : Lexer :=
  { l.emit t with cursor := l.cursor.skip length }

def leaveDocument? (l : Lexer) : Option Lexer := do
  let l ← (l.closeBlocks 0).dropKey?
  return { l with keyAllowed := false }

def directive? (l : Lexer) : Option Lexer := do
  let l ← l.leaveDocument?
  let (t, c) ← Yaml.directive? l.cursor
  return { l.emit t with cursor := c }

def documentMark? (l : Lexer) (t : Token) : Option Lexer := do
  let l ← l.leaveDocument?
  return l.mark 3 t

def openBracket? (l : Lexer) (t : Token) : Option Lexer := do
  let l ← l.saveKey?
  let l := { l with keyAllowed := true, key := none, outerKeys := l.key :: l.outerKeys }
  return l.mark 1 t

def closeBracket? (l : Lexer) (t : Token) : Option Lexer := do
  let l ← l.dropKey?
  let l := match l.outerKeys with
    | [] => l
    | k :: ks => { l with key := k, outerKeys := ks }
  return { l.mark 1 t with keyAllowed := false }

def flowEntry? (l : Lexer) : Option Lexer := do
  let l ← l.dropKey?
  return { l.mark 1 .flowEntry with keyAllowed := true }

def startBlock? (l : Lexer) (t : Token) : Option Lexer :=
  if l.inFlow then some l
  else if l.keyAllowed then some (l.openBlock l.cursor.column l.count t)
  else none

def blockEntry? (l : Lexer) : Option Lexer := do
  let l ← l.startBlock? .blockSequenceStart
  let l ← l.dropKey?
  return { l.mark 1 .blockEntry with keyAllowed := true }

def keyMark? (l : Lexer) : Option Lexer := do
  let l ← l.startBlock? .blockMappingStart
  let l ← l.dropKey?
  return { l.mark 1 .key with keyAllowed := !l.inFlow }

/-- The colon after a key, whose token is put in now, or else after a mark for a key. -/
def valueMark? (l : Lexer) : Option Lexer :=
  match l.key with
  | some k =>
    let l := (l.insert k.tokens .key).openBlock k.column k.tokens .blockMappingStart
    some { l.mark 1 .value with key := none, keyAllowed := false }
  | none => do
    let l ← l.startBlock? .blockMappingStart
    return { l.mark 1 .value with keyAllowed := !l.inFlow }

def name? (l : Lexer) (t : Text → Token) : Option Lexer := do
  let l ← l.saveKey?
  let (name, c) ← anchorName? (l.cursor.skip 1)
  return { l.emit (t name) with cursor := c, keyAllowed := false }

def tag? (l : Lexer) : Option Lexer := do
  let l ← l.saveKey?
  let (t, c) ← Yaml.tag? l.inFlow l.cursor
  return { l.emit t with cursor := c, keyAllowed := false }

def block? (l : Lexer) (style : ScalarStyle) : Option Lexer := do
  let l ← l.dropKey?
  let (s, c) ← Yaml.block? (style == .literal) l.margin l.cursor
  return { l.emit (.scalar s style) with cursor := c, keyAllowed := true }

def quoted? (l : Lexer) (quote : Char) (style : ScalarStyle) : Option Lexer := do
  let l ← l.saveKey?
  let (s, c) ← Yaml.quoted? quote l.cursor
  return { l.emit (.scalar s style) with cursor := c, keyAllowed := false }

def plain? (l : Lexer) : Option Lexer := do
  let l ← l.saveKey?
  let (s, broken, c) ← Yaml.plain? l.inFlow l.margin l.cursor
  return { l.emit (.scalar s .plain) with cursor := c, keyAllowed := broken }

def isIndicator (c : Char) : Bool := ",[]\x7b\x7d#&*!|>\x27\x22%@\x60".toList.contains c

def startsPlain (l : Lexer) (c : Char) (s : Text) : Bool :=
  if c == '-' then !atSpace s
  else if c == '?' || c == ':' then !l.inFlow && !atSpace s
  else !isSpace c && !isIndicator c

def token? (l : Lexer) (c : Char) (s : Text) : Option Lexer :=
  if l.cursor.column == 0 && c == '%' then l.directive?
  else if l.cursor.atTriple '-' then l.documentMark? .documentStart
  else if l.cursor.atTriple '.' then l.documentMark? .documentEnd
  else if c == '[' then l.openBracket? .flowSequenceStart
  else if c == '\x7b' then l.openBracket? .flowMappingStart
  else if c == ']' then l.closeBracket? .flowSequenceEnd
  else if c == '\x7d' then l.closeBracket? .flowMappingEnd
  else if c == ',' then l.flowEntry?
  else if c == '-' && atSpace s then l.blockEntry?
  else if c == '?' && (l.inFlow || atSpace s) then l.keyMark?
  else if c == ':' && (l.inFlow || atSpace s) then l.valueMark?
  else if c == '*' then l.name? .reference
  else if c == '&' then l.name? .anchor
  else if c == '!' then l.tag?
  else if c == '|' && !l.inFlow then l.block? .literal
  else if c == '>' && !l.inFlow then l.block? .folded
  else if c == '\x27' then l.quoted? '\x27' .singleQuoted
  else if c == '\x22' then l.quoted? '\x22' .doubleQuoted
  else if l.startsPlain c s then l.plain?
  else none

def tokensFrom? : Nat → Lexer → Option (List Token)
  | 0, _ => none
  | fuel + 1, l => do
    let l ← (l.skipSpace l.cursor.steps).renewKey?
    let l := l.closeBlocks (l.cursor.column + 1)
    match l.cursor.rest with
    | [] => do
      let l ← l.leaveDocument?
      return l.tokens.reverse
    | c :: s => do
      let l ← l.token? c s
      tokensFrom? fuel l

end Lexer

def tokens? (s : Text) : Option (List Token) :=
  if s.all isPrintable then Lexer.tokensFrom? s.length.succ { cursor := .start s } else none

end ScriptTree.Yaml
