import ScriptTree.Text.Basic

namespace ScriptTree.Path

def parts : Text → List Text
  | [] => [[]]
  | c :: s =>
    if c = '/' then [] :: parts s
    else
      match parts s with
      | [] => [[c]]
      | w :: ws => (c :: w) :: ws

theorem parts_of_not_mem {s : Text} (h : '/' ∉ s) : parts s = [s] := by
  induction s with
  | nil => rfl
  | cons c s ih =>
    simp only [List.mem_cons, not_or] at h
    simp [parts, Ne.symm h.1, ih h.2]

/-- Whether a part leads nowhere else. -/
def isStay (part : Text) : Bool := part = [] || part = ['.']

/-- Whether a part leads to the directory above. -/
def isBack (part : Text) : Bool := part = ['.', '.']

def isAbsolute (path : Text) : Bool := path.head? == some '/'

def fileName? (path : Text) : Option Text :=
  match ((parts path).filter fun p => !isStay p).getLast? with
  | some name => if isBack name then none else some name
  | none => none

/-- The part of a name after its last point, if there is more before the point. -/
def extension? (name : Text) : Option Text :=
  let after := (name.reverse.takeWhile (· ≠ '.')).reverse
  if after.length + 1 < name.length then some after else none

end ScriptTree.Path
