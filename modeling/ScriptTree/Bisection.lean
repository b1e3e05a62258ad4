namespace ScriptTree

/-- The index of a range from which on a test fails, found by halving the range. -/
def bisect (p : Nat → Bool) (lo hi : Nat) : Nat :=
  if lo < hi then
    let mid := lo + (hi - lo) / 2
    if p mid then bisect p (mid + 1) hi else bisect p lo mid
  else lo
termination_by hi - lo

/-- The index between two bounds from which on a test fails of the elements of an array. -/
def bisectArray {α : Type} (as : Array α) (p : α → Bool) (lo hi : Nat) : Nat :=
  bisect (fun i => as[i]?.any p) lo hi

theorem le_bisect (p : Nat → Bool) (lo hi : Nat) : lo ≤ bisect p lo hi := by
  fun_induction bisect p lo hi with
  | case1 lo hi hlt mid hp ih =>
    have : lo ≤ mid := Nat.le_add_right ..
    omega
  | case2 lo hi hlt mid hp ih => exact ih
  | case3 lo hi hlt => exact Nat.le_refl lo

theorem bisect_le {p : Nat → Bool} {lo hi : Nat} (h : lo ≤ hi) : bisect p lo hi ≤ hi := by
  fun_induction bisect p lo hi with
  | case1 lo hi hlt mid hp ih =>
    have : mid < hi := by simp only [mid]; omega
    exact ih (by omega)
  | case2 lo hi hlt mid hp ih =>
    have hmid : mid ≤ hi := by simp only [mid]; omega
    exact Nat.le_trans (ih (Nat.le_add_right ..)) hmid
  | case3 lo hi hlt => exact h

theorem bisect_le_of_lt {p : Nat → Bool} {lo hi : Nat} (h : lo < bisect p lo hi) :
    bisect p lo hi ≤ hi := by
  by_cases hle : lo ≤ hi
  · exact bisect_le hle
  · rw [bisect, if_neg (by omega)] at h
    exact absurd h (Nat.lt_irrefl lo)

/-- A place before which the test holds, and from which on it fails, is the one that is found. -/
theorem bisect_eq {p : Nat → Bool} {lo hi k : Nat} (hlo : lo ≤ k) (hhi : k ≤ hi)
    (hbefore : ∀ i, lo ≤ i → i < k → p i) (hbehind : ∀ i, k ≤ i → i < hi → ¬p i) :
    bisect p lo hi = k := by
  fun_induction bisect p lo hi with
  | case1 lo hi hlt mid hp ih =>
    have hmid : mid < k := by
      by_cases hle : k ≤ mid
      · exact absurd hp (hbehind mid hle (by simp only [mid]; omega))
      · omega
    exact ih hmid hhi (fun i hi => hbefore i (by simp only [mid] at hi; omega)) hbehind
  | case2 lo hi hlt mid hp ih =>
    have hmid : k ≤ mid := by
      by_cases hle : mid < k
      · exact absurd (hbefore mid (Nat.le_add_right ..) hle) hp
      · omega
    exact ih hlo hmid hbefore fun i hi hlt' => hbehind i hi (by simp only [mid] at hlt'; omega)
  | case3 lo hi hlt => omega

example : bisectArray #[2, 3, 5, 7, 11] (· ≤ 5) 0 5 = 3 := by cbv

end ScriptTree
