import ScriptTree.Text.Basic

namespace ScriptTree.Toml

def isBlank (c : Char) : Bool := c == ' ' || c == '\t'

def skipBlanks (s : Text) : Text := s.dropWhile isBlank

/-- Characters that no comment and no string holds as they are. -/
def isControl (c : Char) : Bool := (c.toNat < 0x20 && c ≠ '\t') || c.toNat == 0x7f

def newline? : Text → Option Text
  | '\n' :: s => some s
  | '\r' :: '\n' :: s => some s
  | _ => none

def skipComment (s : Text) : Text :=
  match skipBlanks s with
  | '#' :: r => r.dropWhile fun c => !isControl c
  | r => r

def endLine? (s : Text) : Option Text :=
  match skipComment s with
  | [] => some []
  | r => newline? r

theorem length_of_newline? {s r : Text} (h : newline? s = some r) : r.length < s.length := by
  unfold newline? at h
  split at h
  · cases h
    exact Nat.lt_succ_self _
  · cases h
    exact Nat.lt_succ_of_lt (Nat.lt_succ_self _)
  · cases h

theorem length_skipBlanks_le (s : Text) : (skipBlanks s).length ≤ s.length :=
  (List.dropWhile_suffix _).length_le

theorem length_skipComment_le (s : Text) : (skipComment s).length ≤ s.length := by
  have h := length_skipBlanks_le s
  unfold skipComment
  split
  · next r hr =>
    rw [hr] at h
    exact Nat.le_trans (List.dropWhile_suffix _).length_le (Nat.le_trans (Nat.le_succ _) h)
  · exact h

def skipLines (s : Text) : Text :=
  match _h : newline? (skipComment s) with
  | some r => skipLines r
  | none => skipComment s
termination_by s.length
decreasing_by exact Nat.lt_of_lt_of_le (length_of_newline? _h) (length_skipComment_le s)

end ScriptTree.Toml
