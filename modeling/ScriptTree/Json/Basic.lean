import ScriptTree.Text.Basic

namespace ScriptTree

inductive Json
  | null
  | bool (b : Bool)
  | number (literal : Text)
  | string (s : Text)
  | array (elements : List Json)
  | object (members : List (Text × Json))
  deriving Repr

namespace Json

def ofNat (n : Nat) : Json := .number (Nat.toDigits 10 n)

def ofString (s : String) : Json := .string s.toList

def ofFields (fs : List (String × Json)) : Json := .object (fs.map fun f => (f.1.toList, f.2))

end Json

end ScriptTree
