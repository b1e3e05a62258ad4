import ScriptTree.Tree.Difference

namespace ScriptTree

theorem Tree.tokenDifferences_eq_nil_iff {s e : Text} {start expectedStart : Nat} :
    tokenDifferences s start e expectedStart = [] ↔ s = e ∧ start = expectedStart := by
  unfold tokenDifferences
  split <;> simp_all

/-! ### Equal trees -/

theorem Tree.differencesFrom_self (t : Tree) (start : Nat) :
    t.differencesFrom start start t = [] := by
  cases t with
  | token k s =>
    rw [Tree.differencesFrom, if_pos rfl]
    exact Tree.tokenDifferences_eq_nil_iff.2 ⟨rfl, rfl⟩
  | node k ts => rw [Tree.differencesFrom, if_pos rfl, if_pos ⟨rfl, rfl⟩]

theorem Forest.differencesFrom_self (ts : Forest) (start : Nat) :
    Forest.differencesFrom start ts start ts = [] := by
  induction ts generalizing start with
  | nil => rw [Forest.differencesFrom, List.map_nil]
  | cons t ts ih => rw [Forest.differencesFrom, t.differencesFrom_self, ih, List.append_nil]

/-- Nodes of one kind differ where their children do: nothing is lost where they are passed over. -/
theorem Tree.differencesFrom_node (k : Kind) (ts es : Forest) (start expectedStart : Nat) :
    (node k ts).differencesFrom start expectedStart (node k es) =
      Forest.differencesFrom start ts expectedStart es := by
  rw [Tree.differencesFrom, if_pos rfl]
  split
  · rename_i hsame
    rw [hsame.1, hsame.2, Forest.differencesFrom_self]
  · rfl

/-! ### Trees without a difference -/

mutual

theorem Tree.eq_of_differencesFrom {t e : Tree} {start expectedStart : Nat}
    (h : t.differencesFrom start expectedStart e = []) : t = e := by
  cases t with
  | token k s =>
    cases e with
    | token l x =>
      rw [Tree.differencesFrom] at h
      split at h
      · rename_i hkind
        rw [hkind, (Tree.tokenDifferences_eq_nil_iff.1 h).1]
      · exact absurd h (List.cons_ne_nil _ _)
    | node l es => simp [Tree.differencesFrom] at h
  | node k ts =>
    cases e with
    | token l x => simp [Tree.differencesFrom] at h
    | node l es =>
      by_cases hkind : k = l
      · rw [hkind, Tree.differencesFrom_node] at h
        rw [hkind, Forest.eq_of_differencesFrom h]
      · rw [Tree.differencesFrom, if_neg hkind] at h
        exact absurd h (List.cons_ne_nil _ _)

theorem Forest.eq_of_differencesFrom {ts es : Forest} {start expectedStart : Nat}
    (h : Forest.differencesFrom start ts expectedStart es = []) : ts = es := by
  cases ts with
  | nil =>
    rw [Forest.differencesFrom, List.map_eq_nil_iff] at h
    exact h.symm
  | cons t ts =>
    cases es with
    | nil => simp [Forest.differencesFrom] at h
    | cons e es =>
      rw [Forest.differencesFrom, List.append_eq_nil_iff] at h
      rw [Tree.eq_of_differencesFrom h.1, Forest.eq_of_differencesFrom h.2]

end

/-- Two trees have no differences just when they are equal: when they have the same kinds, nodes,
tokens, children and texts throughout. -/
theorem Tree.differences_eq_nil_iff (t expected : Tree) :
    t.differences expected = [] ↔ t = expected := by
  constructor
  · exact Tree.eq_of_differencesFrom
  · rintro rfl
    exact t.differencesFrom_self 0

end ScriptTree
