import ScriptTree.Number.Digit
import ScriptTree.Settings.Field
import ScriptTree.Yaml.Token

namespace ScriptTree.Yaml

def booleanTag : Text := "tag:yaml.org,2002:bool".toList

def integerTag : Text := "tag:yaml.org,2002:int".toList

def boolean? (w : Text) : Option Bool :=
  if w = "true".toList ∨ w = "True".toList ∨ w = "TRUE".toList then some true
  else if w = "false".toList ∨ w = "False".toList ∨ w = "FALSE".toList then some false
  else none

/-- A number that is not negative. Digits after a leading zero make it a string. -/
def natural? (w : Text) : Option Nat :=
  let w := match w with
    | '+' :: r => r
    | r => r
  match w with
  | '0' :: 'x' :: r => Digit.number? 16 r
  | '0' :: 'o' :: r => Digit.number? 8 r
  | '0' :: 'b' :: r => Digit.number? 2 r
  | '0' :: _ :: _ => none
  | r => Digit.number? 10 r

/-- The value of a scalar as a boolean, if it may be one, or else as a number, if it may be one. -/
def valueAs (mayBool mayInt : Bool) (s : Text) : FieldValue :=
  match boolean? s, natural? s with
  | some b, _ => if mayBool then .boolean b else .other
  | none, some n => if mayInt then .integer n else .other
  | none, none => .other

def scalarValue (tag : Option Text) (s : Text) : ScalarStyle → FieldValue
  | .plain => valueAs true true s
  | .literal => valueAs (tag == some booleanTag) (tag == some integerTag) s
  | _ => .other

end ScriptTree.Yaml
