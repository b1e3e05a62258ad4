import ScriptTree.Toml.Scalar
import ScriptTree.Toml.String
import ScriptTree.Toml.Table

namespace ScriptTree.Toml

/-- How many keys a path may have, and how many brackets may be open at once. -/
def maxDepth : Nat := 80

def isBare (c : Char) : Bool := c.isAlphanum || c == '_' || c == '-'

def key? (s : Text) : Option (Text × Text) :=
  match lineString? s with
  | some p => some p
  | none =>
    let word := s.takeWhile isBare
    if word.isEmpty then none else some (word, s.dropWhile isBare)

def keys? : Nat → Text → Option (List Text × Text)
  | 0, _ => none
  | most + 1, s => do
    let (key, s) ← key? (skipBlanks s)
    match skipBlanks s with
    | '.' :: r => do
      let (keys, r) ← keys? most r
      return (key :: keys, r)
    | r => return ([key], r)

/-- A path: the keys before the last one, the last one, and the rest of the text. -/
def path? (s : Text) : Option (List Text × Text × Text) := do
  let (keys, r) ← keys? maxDepth s
  let last ← keys.getLast?
  return (keys.dropLast, last, r)

mutual

def value? : Nat → Nat → Text → Option (Node × Text)
  | 0, _, _ => none
  | fuel + 1, room, s =>
    match s with
    | '[' :: r => if room = 0 then none else (items? fuel (room - 1) r).map (.leaf .other, ·)
    | '\x7b' :: r =>
      if room = 0 then none
      else (pairs? fuel (room - 1) [] r).map fun p => (.table .braces p.1, p.2)
    | '\x22' :: _ | '\x27' :: _ => (afterString? s).map (.leaf .other, ·)
    | _ =>
      let (word, r) := takeWord s
      (wordValue? word).map fun v => (.leaf v, r)

def items? : Nat → Nat → Text → Option Text
  | 0, _, _ => none
  | fuel + 1, room, s =>
    match skipLines s with
    | ']' :: r => some r
    | r =>
      match value? fuel room r with
      | none => none
      | some (_, r) =>
        match skipLines r with
        | ']' :: r => some r
        | ',' :: r => items? fuel room r
        | _ => none

def pairs? : Nat → Nat → Entries → Text → Option (Entries × Text)
  | 0, _, _, _ => none
  | fuel + 1, room, es, s =>
    match skipLines s with
    | '\x7d' :: r => some (es, r)
    | r =>
      match path? r with
      | none => none
      | some (path, key, r) =>
        match skipLines r with
        | '=' :: r =>
          match value? fuel room (skipLines r) with
          | none => none
          | some (n, r) =>
            match es.assign? path key n with
            | none => none
            | some es =>
              match skipLines r with
              | '\x7d' :: r => some (es, r)
              | ',' :: r => pairs? fuel room es r
              | _ => none
        | _ => none

end

inductive Line
  | header (inArray : Bool) (path : List Text) (key : Text)
  | pair (path : List Text) (key : Text) (value : Node)

/-- The line at the front of the text, which is not blank, and what follows its content. The text
has fewer characters than `fuel`. -/
def line? (fuel : Nat) (s : Text) : Option (Line × Text) :=
  match s with
  | '[' :: '[' :: r =>
    match path? r with
    | some (path, key, ']' :: ']' :: r) => some (.header true path key, r)
    | _ => none
  | '[' :: r =>
    match path? r with
    | some (path, key, ']' :: r) => some (.header false path key, r)
    | _ => none
  | r =>
    match path? r with
    | some (path, key, '=' :: r) =>
      (value? (2 * fuel) maxDepth (skipBlanks r)).map fun p => (.pair path key p.1, p.2)
    | _ => none

/-- What lines make: the entries outside of all tables, and the path of the table that keys now
belong to. -/
structure Document where
  entries : Entries := []
  table : List Text := []

namespace Document

def addLine? (d : Document) : Line → Option Document
  | .header inArray path key => do
    let entries ←
      if inArray then d.entries.openItem? path key else d.entries.openTable? path key
    return ⟨entries, path ++ [key]⟩
  | .pair path key value => do
    let entries ← Entries.change? false (fun _ es => es.assign? path key value) d.table .header
      d.entries
    return { d with entries := entries }

def addText? (d : Document) : Nat → Text → Option Document
  | 0, _ => none
  | fuel + 1, s =>
    match skipLines s with
    | [] => some d
    | r => do
      let (line, r) ← line? (fuel + 1) r
      let d ← d.addLine? line
      let r ← endLine? r
      addText? d fuel r

end Document

def withoutMark : Text → Text
  | '\uFEFF' :: s => s
  | s => s

/-- The fields of a text: the entries outside of all tables. -/
def fields? (s : Text) : Option (List Field) :=
  let s := withoutMark s
  (Document.addText? {} s.length.succ s).map fun d => d.entries.fields

end ScriptTree.Toml
