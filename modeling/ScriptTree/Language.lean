namespace ScriptTree

structure LanguageData where
  name : String
  lineComment : String
  closeBrackets : List String

def LanguageData.script : LanguageData where
  name := "epochscript"
  lineComment := "#"
  closeBrackets := ["(", "[", "\x7b", "\x27", "\x22"]

def packageName : String := "epochscript-core"

def packageVersion : String := "0.1.0"

end ScriptTree
