import Mathlib.Data.List.TakeWhile
import Mathlib.Tactic
import ScriptTree.Text.Basic

namespace ScriptTree.Text

theorem bytes_pos {s : Text} (h : s ≠ []) : 0 < s.bytes := by
  cases s with
  | nil => exact absurd rfl h
  | cons c s =>
    have := c.utf8Size_pos
    simp only [bytes_cons]
    omega

theorem eq_nil_of_bytes_eq_zero {s : Text} (h : s.bytes = 0) : s = [] := by
  by_contra hne
  have := bytes_pos hne
  omega

/-- Of two ways to cut a text, the one with fewer bytes in front cuts inside the other's front. -/
theorem append_eq_of_bytes_le {a b m r : Text} (h : a ++ b = m ++ r) (hle : a.bytes ≤ m.bytes) :
    ∃ u, m = a ++ u ∧ b = u ++ r := by
  rcases List.append_eq_append_iff.1 h with ⟨u, rfl, rfl⟩ | ⟨u, rfl, rfl⟩
  · exact ⟨u, rfl, rfl⟩
  · have hu : u = [] := eq_nil_of_bytes_eq_zero (by rw [bytes_append] at hle; omega)
    exact ⟨[], by simp [hu], by simp [hu]⟩

theorem append_inj_of_bytes_eq {a b m r : Text} (h : a ++ b = m ++ r) (he : a.bytes = m.bytes) :
    a = m ∧ b = r := by
  obtain ⟨u, hm, hb⟩ := append_eq_of_bytes_le h he.le
  have hu : u = [] := by
    apply eq_nil_of_bytes_eq_zero
    rw [hm, bytes_append] at he
    omega
  exact ⟨by simp [hm, hu], by simp [hb, hu]⟩

@[simp] theorem dropBytes?_zero (s : Text) : s.dropBytes? 0 = some s := by
  cases s <;> rfl

theorem dropBytes?_append (p s : Text) : (p ++ s).dropBytes? p.bytes = some s := by
  induction p with
  | nil => simp
  | cons c p ih =>
    have hc := c.utf8Size_pos
    obtain ⟨n, hn⟩ : ∃ n, c.utf8Size + bytes p = n + 1 := ⟨c.utf8Size + bytes p - 1, by omega⟩
    have hsub : n + 1 - c.utf8Size = bytes p := by omega
    rw [List.cons_append, bytes_cons, hn, dropBytes?, if_pos (by omega), hsub, ih]

theorem exists_of_dropBytes? {s t : Text} {n : Nat} (h : s.dropBytes? n = some t) :
    ∃ p, s = p ++ t ∧ p.bytes = n := by
  fun_induction dropBytes? s n with
  | case1 s => exact ⟨[], by simpa using h, rfl⟩
  | case2 => simp at h
  | case3 c s n hle ih =>
    obtain ⟨p, rfl, hp⟩ := ih h
    exact ⟨c :: p, rfl, by simp only [bytes_cons, hp]; omega⟩
  | case4 => simp at h

theorem exists_of_isBoundary {s : Text} {n : Nat} (h : s.isBoundary n) :
    ∃ p t, s = p ++ t ∧ p.bytes = n := by
  obtain ⟨t, ht⟩ := Option.isSome_iff_exists.1 h
  obtain ⟨p, hs, hp⟩ := exists_of_dropBytes? ht
  exact ⟨p, t, hs, hp⟩

theorem takeBytes_append (p s : Text) : (p ++ s).takeBytes p.bytes = p := by
  induction p with
  | nil =>
    cases s with
    | nil => rfl
    | cons c s =>
      have := c.utf8Size_pos
      simp only [List.nil_append, bytes_nil, takeBytes]
      rw [if_neg (by omega)]
  | cons c p ih =>
    simp only [List.cons_append, bytes_cons, takeBytes, Nat.add_sub_cancel_left, ih]
    rw [if_pos (by omega)]

theorem slice_append (p m s : Text) :
    slice (p ++ (m ++ s)) p.bytes (p.bytes + m.bytes) = m := by
  rw [slice, dropBytes?_append, Option.getD_some, Nat.add_sub_cancel_left, takeBytes_append]

theorem isBoundary_append (p s : Text) : (p ++ s).isBoundary p.bytes := by
  rw [isBoundary, dropBytes?_append, Option.isSome_some]

def slice? (s : Text) (start stop : Nat) : Option Text :=
  if start ≤ stop ∧ s.isBoundary start ∧ s.isBoundary stop then some (s.slice start stop) else none

theorem slice?_append (p m s : Text) :
    slice? (p ++ (m ++ s)) p.bytes (p.bytes + m.bytes) = some m := by
  have hstop : isBoundary (p ++ (m ++ s)) (p.bytes + m.bytes) := by
    rw [← List.append_assoc, ← bytes_append]
    exact isBoundary_append (p ++ m) s
  rw [slice?, if_pos ⟨Nat.le_add_right .., isBoundary_append p _, hstop⟩, slice_append]

theorem slice?_to_end (p m : Text) : slice? (p ++ m) p.bytes (p ++ m).bytes = some m := by
  rw [bytes_append]
  simpa using slice?_append p m []

/-! ### Runs of characters -/

/-- A run of characters of a class at the front of a text, and the rest, which does not go on with
the class. -/
structure IsRun (p : Char → Bool) (w r : Text) : Prop where
  all : ∀ c ∈ w, p c
  stops : ∀ c ∈ r.head?, ¬p c

theorem isRun_takeWhile (p : Char → Bool) (s : Text) : IsRun p (s.takeWhile p) (s.dropWhile p) where
  all _ h := List.mem_takeWhile_imp h
  stops c h hc := by
    have hnot := List.head?_dropWhile_not p s
    rw [h] at hnot
    exact absurd hc (by simpa using hnot)

/-- What comes before a character for the first time is a run of the others. -/
theorem isRun_of_not_mem {c : Char} {w r : Text} (hw : c ∉ w) (hr : ∀ d ∈ r.head?, d = c) :
    IsRun (· != c) w r where
  all d hd := by
    rw [bne_iff_ne]
    rintro rfl
    exact hw hd
  stops d hd := by simp [hr d hd]

namespace IsRun

variable {p : Char → Bool} {w r : Text}

theorem of_all (hw : w.all p) (hr : r.head?.any p = false) : IsRun p w r where
  all := List.all_eq_true.1 hw
  stops c hc hp := by
    rw [Option.mem_def.1 hc, Option.any_some] at hr
    exact absurd hp (by simp [hr])

theorem takeWhile_eq (h : IsRun p w r) : (w ++ r).takeWhile p = w := by
  rw [List.takeWhile_append_of_pos h.all]
  cases r with
  | nil => exact List.append_nil w
  | cons c r => rw [List.takeWhile_cons_of_neg (h.stops c rfl), List.append_nil]

theorem dropWhile_eq (h : IsRun p w r) : (w ++ r).dropWhile p = r := by
  rw [List.dropWhile_append_of_pos h.all]
  cases r with
  | nil => rfl
  | cons c r => exact List.dropWhile_cons_of_neg (h.stops c rfl)

/-- A run starts a text in one way only. -/
theorem append_inj {v q : Text} (h : IsRun p w r) (h' : IsRun p v q) (heq : w ++ r = v ++ q) :
    w = v ∧ r = q :=
  ⟨by rw [← h.takeWhile_eq, heq, h'.takeWhile_eq], by rw [← h.dropWhile_eq, heq, h'.dropWhile_eq]⟩

end IsRun

/-! ### Runs of characters that stop within the front of a text -/

theorem exists_not_of_bytes_lt {p : Char → Bool} {m r : Text}
    (h : bytes ((m ++ r).takeWhile p) < m.bytes) : ∃ c ∈ m, ¬p c := by
  by_contra hall
  push Not at hall
  rw [List.takeWhile_append_of_pos hall, bytes_append] at h
  omega

theorem takeWhile_append_of_not {p : Char → Bool} {m : Text} (h : ∃ c ∈ m, ¬p c) (r : Text) :
    (m ++ r).takeWhile p = m.takeWhile p := by
  obtain ⟨c, hc, hp⟩ := h
  have hne : ¬(m.takeWhile p).length = m.length := fun he =>
    hp (List.takeWhile_eq_self_iff.1 ((List.takeWhile_prefix p).eq_of_length he) c hc)
  rw [List.takeWhile_append, if_neg hne]

theorem dropWhile_append_of_not {p : Char → Bool} {m : Text} (h : ∃ c ∈ m, ¬p c) (r : Text) :
    (m ++ r).dropWhile p = m.dropWhile p ++ r := by
  have hne : (m.dropWhile p).isEmpty = false := by
    obtain ⟨c, hc, hp⟩ := h
    rw [List.isEmpty_eq_false_iff, ne_eq, List.dropWhile_eq_nil_iff]
    exact fun hall => hp (hall c hc)
  rw [List.dropWhile_append, hne]
  rfl

end ScriptTree.Text
