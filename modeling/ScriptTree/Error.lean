import ScriptTree.Edit
import ScriptTree.Settings.Load

namespace ScriptTree

inductive ScriptError
  | batch (e : Edit.BatchError)
  | settings (e : SettingsError)
  | unreadable (path : Text)
  deriving DecidableEq, Repr

namespace ScriptError

def ofLoad : LoadError → ScriptError
  | .settings e => .settings e
  | .unreadable path => .unreadable path

def kind : ScriptError → String
  | batch _ => "Incremental"
  | settings _ => "Config"
  | unreadable _ => "Io"

def message : ScriptError → Text
  | batch e => e.message.toList
  | settings e => e.message
  | unreadable path => "IO error for path '".toList ++ path ++ "'".toList

end ScriptError

end ScriptTree
