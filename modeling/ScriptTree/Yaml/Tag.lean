import ScriptTree.Number.Digit
import ScriptTree.Yaml.Token
import ScriptTree.Yaml.Cursor

namespace ScriptTree.Yaml

def anchorName? (c : Cursor) : Option (Text × Cursor) :=
  let name := c.rest.takeWhile isName
  let rest := c.rest.dropWhile isName
  let ends := match rest with
    | [] => true
    | d :: _ => isSpace d || "?:,]\x7d%@\x60".toList.contains d
  if !name.isEmpty && ends then some (name, c.skip name.length) else none

def octetsAfter? (first : Nat) : Option Nat :=
  if first < 0x80 then some 0
  else if first < 0xc0 then none
  else if first < 0xe0 then some 1
  else if first < 0xf0 then some 2
  else if first < 0xf8 then some 3
  else none

/-- The characters of a tag; brackets and commas are among them only between angle brackets. -/
def isTagChar (verbatim : Bool) (c : Char) : Bool :=
  isName c || ";/?:@&=+$.!~*\x27()".toList.contains c || (verbatim && ",[]".toList.contains c)

/-- The characters of a tag at the front and the rest, while `due` more octets of an escaped
character are to come. Each octet counts as a character. -/
def tagText? (verbatim : Bool) : Nat → Text → Option (Text × Text)
  | due, '%' :: a :: b :: s => do
    let octet ← Digit.number? 16 [a, b]
    let due ←
      if due = 0 then octetsAfter? octet
      else if 0x80 ≤ octet && octet < 0xc0 then some (due - 1)
      else none
    let (t, r) ← tagText? verbatim due s
    return (Char.ofNat octet :: t, r)
  | due, c :: s =>
    if due ≠ 0 || c == '%' then none
    else if isTagChar verbatim c then do
      let (t, r) ← tagText? verbatim 0 s
      return (c :: t, r)
    else some ([], c :: s)
  | due, [] => if due = 0 then some ([], []) else none

def upToNull (s : Text) : Text := s.takeWhile (· ≠ '\x00')

def tagSuffix? (verbatim : Bool) (s : Text) : Option (Text × Text) := do
  let (t, r) ← tagText? verbatim 0 s
  if t.isEmpty then none else return (upToNull t, r)

def handleTail (s : Text) : Text × Text :=
  let name := s.takeWhile isName
  match s.dropWhile isName with
  | '!' :: r => (name ++ ['!'], r)
  | r => (name, r)

/-- A tag after its mark, as a handle and the part after it. A mark alone has no handle. -/
def tagParts? (s : Text) : Option (Text × Text × Text) :=
  match s with
  | '<' :: r => do
    let (suffix, r) ← tagSuffix? true r
    match r with
    | '>' :: r => return ([], suffix, r)
    | _ => none
  | _ =>
    let (tail, r) := handleTail s
    if tail.getLast? == some '!' then do
      let (suffix, r) ← tagSuffix? false r
      return ('!' :: tail, suffix, r)
    else do
      let (more, r) ← tagText? false 0 r
      let suffix := upToNull (tail ++ more)
      return if suffix.isEmpty then ([], ['!'], r) else (['!'], suffix, r)

/-- The tag whose mark is at a place. A blank follows it, or a comma in brackets. -/
def tag? (flow : Bool) (c : Cursor) : Option (Token × Cursor) := do
  let (handle, suffix, r) ← tagParts? (c.rest.drop 1)
  if atSpace r || (flow && r.head? == some ',') then
    return (.tag handle suffix, c.skipTo r)
  else none

def versionNumber? (s : Text) : Option (Nat × Text) :=
  let digits := s.takeWhile Char.isDigit
  if digits.length ≤ 9 then
    (Digit.number? 10 digits).map fun n => (n, s.dropWhile Char.isDigit)
  else none

def version? (s : Text) : Option (Token × Text) := do
  let (major, r) ← versionNumber? (s.dropWhile isBlank)
  match r with
  | '.' :: r => do
    let (minor, r) ← versionNumber? r
    return (.version major minor, r)
  | _ => none

def tagHandle? (s : Text) : Option (Token × Text) :=
  match s.dropWhile isBlank with
  | '!' :: r =>
    let (tail, r) := handleTail r
    let isHandle := tail.isEmpty || tail.getLast? == some '!'
    match r with
    | [] => none
    | d :: _ =>
      if isHandle && isBlank d then do
        let (expansion, r) ← tagSuffix? true (r.dropWhile isBlank)
        if atSpace r then return (.tagHandle ('!' :: tail) expansion, r) else none
      else none
  | _ => none

def directive? (c : Cursor) : Option (Token × Cursor) := do
  let s := c.rest.drop 1
  let name := s.takeWhile isName
  let r := s.dropWhile isName
  if !atSpace r then none
  else
    let (t, r) ←
      if name = "YAML".toList then version? r
      else if name = "TAG".toList then tagHandle? r
      else none
    return (t, ← (c.skipTo r).endLine?)

end ScriptTree.Yaml
