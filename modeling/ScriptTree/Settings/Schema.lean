import ScriptTree.Json.Basic
import ScriptTree.Settings.Basic

namespace ScriptTree.Settings

def sizeSchema (description : String) (default : Nat) : Json :=
  .ofFields [("description", .ofString description), ("type", .ofString "integer"),
    ("format", .ofString "uint"), ("minimum", .ofNat 0), ("default", .ofNat default)]

def flagSchema (description : String) (default : Bool) : Json :=
  .ofFields [("description", .ofString description), ("type", .ofString "boolean"),
    ("default", .bool default)]

def lookaheadDescription : String :=
  "Tokens relexed past an edit, and fresh statements parsed without\n" ++
    "realigning, before giving up on reuse for the rest of the text"

def schema : Json :=
  let defaults : Settings := {}
  .ofFields
    [("$schema", .ofString "https://json-schema.org/draft/2020-12/schema"),
     ("title", .ofString "ParserConfig"),
     ("description", .ofString "Tuning knobs for incremental reparsing"),
     ("type", .ofString "object"),
     ("properties", .ofFields
       [("maxResyncLookahead", sizeSchema lookaheadDescription
          defaults.maxResyncLookahead),
        ("maxIncrementalSize", sizeSchema
          "Batches inserting more bytes than this take a full reparse"
          defaults.maxIncrementalSize),
        ("incremental", flagSchema "Reuse unaffected statements when reparsing after edits"
          defaults.incremental)])]

end ScriptTree.Settings
