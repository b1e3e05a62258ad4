import ScriptTree.Kind
import ScriptTree.Text.Basic

namespace ScriptTree

structure Token where
  kind : Kind
  text : Text
  start : Nat
  /-- The end of the bytes that were examined; one past the end of the text if the end was seen. -/
  lookahead : Nat
  deriving DecidableEq, Repr

namespace Token

def stop (t : Token) : Nat := t.start + t.text.bytes

def shift (offset : Nat) (delta : Int) : Nat := (offset + delta).toNat

/-- The same token in a text where everything stands `delta` bytes further on. -/
def moved (t : Token) (delta : Int) : Token :=
  { t with start := shift t.start delta, lookahead := shift t.lookahead delta }

theorem shift_zero (n : Nat) : shift n 0 = n := by simp [shift]

theorem moved_zero (t : Token) : t.moved 0 = t := by simp [moved, shift_zero]

end Token

/-- What is wrong with the text of an error token. -/
inductive LexError
  | unterminatedString | unrecognizedCharacter
  deriving DecidableEq, Repr

namespace LexError

def ofText : Text → LexError
  | '\x22' :: _ | '\x27' :: _ => .unterminatedString
  | _ => .unrecognizedCharacter

def name : LexError → String
  | .unterminatedString => "UnterminatedString"
  | .unrecognizedCharacter => "UnrecognizedCharacter"

end LexError

def Token.error? (t : Token) : Option LexError :=
  if t.kind = .error then some (LexError.ofText t.text) else none

end ScriptTree
