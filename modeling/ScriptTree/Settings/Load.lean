import ScriptTree.Settings.FileTree
import ScriptTree.Settings.Format

namespace ScriptTree

inductive LoadError
  | settings (e : SettingsError)
  | unreadable (path : Text)
  deriving DecidableEq, Repr

namespace Settings

/-- The names that files with settings have; the first in a directory counts. -/
def fileNames : List Text :=
  [".epochscriptrc.toml".toList, "epochscript.toml".toList, "epochscript.yaml".toList,
   "epochscript.yml".toList, "epochscript.json".toList]

def discoverFrom (t : FileTree) : Nat → Location → Option Location
  | 0, _ => none
  | n + 1, l =>
    match fileNames.find? fun name => (t.file? (l ++ [name])).isSome with
    | some name => some (l ++ [name])
    | none => if l.isEmpty then none else discoverFrom t n l.dropLast

def discover (t : FileTree) (start : Text) : Except LoadError (Option Location) :=
  match t.resolve? start with
  | none => .error (.unreadable (t.shown start))
  | some .outside => .ok none
  | some (.below l) => .ok (discoverFrom t l.length.succ l)

def loadFile (t : FileTree) (place : FileTree.Place) (path : Text) : Except LoadError Settings :=
  match SettingsFormat.ofPath? path with
  | none => .error (.settings (.unsupportedExtension path))
  | some format =>
    let contents := match place with
      | .below l => t.file? l
      | .outside => none
    match contents with
    | none => .error (.unreadable path)
    | some s =>
      match read format s with
      | .ok settings => .ok settings
      | .error e => .error (.settings (.loadFailed path e))

/-- Load settings from a file that is named, or else from one that is found from a path upwards. If
none is found, or there is no path to start from, all settings have their defaults. -/
def load (t : FileTree) (custom start : Option Text) : Except LoadError Settings :=
  match custom with
  | some path =>
    match t.resolve? path with
    | none => .error (.settings (.notFound (t.shown path)))
    | some place => loadFile t place (t.shown path)
  | none =>
    match start with
    | none => .ok {}
    | some path => do
      match ← discover t path with
      | some l => loadFile t (.below l) (t.shownLocation l)
      | none => .ok {}

end Settings

end ScriptTree
