import ScriptTree.Text.Basic

namespace ScriptTree

inductive SettingsError
  | unreadable
  | lookaheadTooSmall
  | notFound (path : Text)
  | unsupportedExtension (path : Text)
  | loadFailed (path : Text) (cause : SettingsError)
  | custom (text : Text)
  deriving DecidableEq, Repr

namespace SettingsError

/-- Whether the cause is one that the message names in full. -/
def isExplained : SettingsError → Bool
  | unreadable => false
  | loadFailed _ cause => cause.isExplained
  | _ => true

def message : SettingsError → Text
  | unreadable => "Configuration error: unreadable configuration".toList
  | lookaheadTooSmall => "Configuration error: maxResyncLookahead must be at least 1".toList
  | notFound path => "Configuration error: Config file not found: ".toList ++ path
  | unsupportedExtension path =>
    "Configuration error: Unsupported file extension for '".toList ++ path ++
      "' (expected .toml, .json, .yaml, or .yml)".toList
  | loadFailed path cause =>
    "Configuration error: Failed to load config from '".toList ++ path ++ "': ".toList ++
      cause.message
  | custom text => "Configuration error: ".toList ++ text

end SettingsError

end ScriptTree
