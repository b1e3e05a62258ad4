import ScriptTree.Json.Reader
import ScriptTree.Settings.Error
import ScriptTree.Settings.Path
import ScriptTree.Text.Blank
import ScriptTree.Toml.Reader
import ScriptTree.Yaml.Reader

namespace ScriptTree

inductive SettingsFormat
  | toml | json | yaml
  deriving DecidableEq, Repr

namespace SettingsFormat

def name : SettingsFormat → String
  | .toml => "Toml"
  | .json => "Json"
  | .yaml => "Yaml"

def ofPath? (path : Text) : Option SettingsFormat := do
  let e ← (Path.fileName? path).bind Path.extension?
  if e = "toml".toList then some .toml
  else if e = "json".toList then some .json
  else if e = "yaml".toList ∨ e = "yml".toList then some .yaml
  else none

end SettingsFormat

namespace FieldValue

/-- A JSON value as a field sees it: an integer is written with digits alone. -/
def ofJson : Json → FieldValue
  | .number s => if s.all Char.isDigit then .integer (Decimal.digitsValue s) else .other
  | .bool b => .boolean b
  | _ => .other

end FieldValue

namespace Settings

/-- The fields of a JSON value: an object has them by name, an array in order. -/
def jsonFields? : Json → Option (List Field)
  | .object ms => some (ms.map fun m => (m.1, FieldValue.ofJson m.2))
  | .array vs =>
    if vs.length ≤ fieldNames.length then some (fieldNames.zip (vs.map FieldValue.ofJson)) else none
  | _ => none

def fields? (format : SettingsFormat) (s : Text) : Option (List Field) :=
  match format with
  | .toml => Toml.fields? s
  | .json => (Json.parse? s).bind jsonFields?
  | .yaml => if (Text.trim s).isEmpty then some [] else Yaml.fields? s

/-- Accept settings under which looking ahead is possible. -/
def validate (s : Settings) : Except SettingsError Settings :=
  if s.maxResyncLookahead = 0 then .error .lookaheadTooSmall else .ok s

def read (format : SettingsFormat) (s : Text) : Except SettingsError Settings :=
  match (fields? format s).bind ofFields? with
  | some settings => settings.validate
  | none => .error .unreadable

def writtenFields (s : Settings) : List (Text × Text) :=
  [(lookaheadName, Nat.toDigits 10 s.maxResyncLookahead),
   (sizeName, Nat.toDigits 10 s.maxIncrementalSize),
   (incrementalName, (if s.incremental then "true" else "false").toList)]

def write (format : SettingsFormat) (s : Settings) : Text :=
  match format with
  | .toml => s.writtenFields.flatMap fun f => f.1 ++ " = ".toList ++ f.2 ++ ['\n']
  | .yaml => s.writtenFields.flatMap fun f => f.1 ++ ": ".toList ++ f.2 ++ ['\n']
  | .json =>
    let member (f : Text × Text) : Text := "  \x22".toList ++ f.1 ++ "\x22: ".toList ++ f.2
    "\x7b\n".toList ++ ((s.writtenFields.map member).intersperse [',', '\n']).flatten ++
      "\n\x7d".toList

end Settings

end ScriptTree
