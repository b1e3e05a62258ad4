import ScriptTree.Settings.Field

namespace ScriptTree.Toml

inductive Origin
  | header
  | passage
  | dotted
  | braces
  deriving DecidableEq, Repr

/-- Whether a table came to be only by what is in it. -/
def Origin.isImplied : Origin → Bool
  | .passage | .dotted => true
  | .header | .braces => false

inductive Node
  | leaf (v : FieldValue)
  | table (origin : Origin) (entries : List (Text × Node))
  /-- An array of tables that have headers, as the entries of its last table: nothing can be added
  to the others. -/
  | tables (entries : List (Text × Node))

abbrev Entries := List (Text × Node)

namespace Entries

def find? (es : Entries) (key : Text) : Option Node :=
  (List.find? (fun e => e.1 = key) es).map Prod.snd

def put (key : Text) (n : Node) : Entries → Entries
  | [] => [(key, n)]
  | e :: es => if e.1 = key then (key, n) :: es else e :: put key n es

/-- Change the table at the end of a path, from a table of a given origin. Tables that are missing
on the path are made. A key with points does not lead through tables that were defined otherwise. -/
def change? (dotted : Bool) (f : Origin → Entries → Option Entries) :
    List Text → Origin → Entries → Option Entries
  | [], origin, es => f origin es
  | key :: path, _, es =>
    match es.find? key with
    | none =>
      let origin : Origin := if dotted then .dotted else .passage
      (change? dotted f path origin []).map fun new => es.put key (.table origin new)
    | some (.leaf _) => none
    | some (.table origin old) =>
      if origin = .braces || (dotted && !origin.isImplied) then none
      else (change? dotted f path origin old).map fun new => es.put key (.table origin new)
    | some (.tables old) =>
      (change? dotted f path .header old).map fun new => es.put key (.tables new)

def add? (key : Text) (n : Node) (es : Entries) : Option Entries :=
  match es.find? key with
  | none => some (es.put key n)
  | some _ => none

/-- Give a key with points its value. The last table on its path must be one that such keys made. -/
def assign? (path : List Text) (key : Text) (n : Node) (es : Entries) : Option Entries :=
  change? true
    (fun origin es => if path.isEmpty || origin = .dotted then add? key n es else none)
    path .header es

def openTable? (path : List Text) (key : Text) (es : Entries) : Option Entries :=
  change? false
    (fun _ es =>
      match es.find? key with
      | none => some (es.put key (.table .header []))
      | some (.table .passage old) => some (es.put key (.table .header old))
      | _ => none)
    path .header es

def openItem? (path : List Text) (key : Text) (es : Entries) : Option Entries :=
  change? false
    (fun _ es =>
      match es.find? key with
      | none | some (.tables _) => some (es.put key (.tables []))
      | _ => none)
    path .header es

def fields (es : Entries) : List Field :=
  es.map fun e =>
    match e.2 with
    | .leaf v => (e.1, v)
    | _ => (e.1, .other)

theorem find?_put (key : Text) (n : Node) (es : Entries) : (es.put key n).find? key = some n := by
  induction es with
  | nil => simp [put, find?]
  | cons e es ih =>
    by_cases h : e.1 = key
    · simp [put, h, find?]
    · simp only [find?] at ih
      simp [put, h, find?, ih]

end Entries

end ScriptTree.Toml
