namespace ScriptTree

inductive TagName
  | variableName | propertyName | typeName | number | string | bool | null | literal | keyword
  | compareOperator | lineComment | list
  deriving DecidableEq, Repr

def TagName.name : TagName → String
  | .variableName => "variableName"
  | .propertyName => "propertyName"
  | .typeName => "typeName"
  | .number => "number"
  | .string => "string"
  | .bool => "bool"
  | .null => "null"
  | .literal => "literal"
  | .keyword => "keyword"
  | .compareOperator => "compareOperator"
  | .lineComment => "lineComment"
  | .list => "list"

inductive TagModifier
  | function | standard | special | definition
  deriving DecidableEq, Repr

namespace TagModifier

def all : List TagModifier := [.function, .standard, .special, .definition]

def name : TagModifier → String
  | .function => "function"
  | .standard => "standard"
  | .special => "special"
  | .definition => "definition"

end TagModifier

structure Tag where
  name : TagName
  modifiers : List TagModifier
  deriving DecidableEq, Repr

namespace Tag

def has (t : Tag) (m : TagModifier) : Bool := t.modifiers.contains m

/-- The tag with its modifiers written around it like functions. -/
def text (t : Tag) : String := t.modifiers.foldl (fun s m => m.name ++ "(" ++ s ++ ")") t.name.name

end Tag

end ScriptTree
