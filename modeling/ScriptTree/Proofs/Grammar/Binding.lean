import ScriptTree.Proofs.Grammar.Words

namespace ScriptTree

namespace Grammar

open Cursor (Spells)
open Expression (Join Unary Goal Parses)

/-- How tightly a token takes hold of what stands before it; most tokens do not. -/
def grip : Kind → Nat
  | .lParen | .dot => 10
  | .starStar => 9
  | .star | .slash | .percent => 8
  | .plus | .minus => 7
  | .shiftRight | .shiftLeft => 6
  | .pipe => 5
  | .lt | .gt | .ltEq | .gtEq | .eqEq | .notEq => 4
  | .andKw => 3
  | .orKw => 2
  | .ifKw => 1
  | _ => 0

/-- A phrase is whole only if what follows has less grip than this. -/
def closedLimit : PhraseSort → Nat
  | .conditional => 1
  | .join .disjunction => 2
  | .join .conjunction => 3
  | .comparison | .unary .negation => 4
  | .join .pipeline => 5
  | .join .lag => 6
  | .join .sum => 7
  | .join .product => 8
  | .unary .sign | .power => 9
  | .postfixed => 10
  | .atom => 11

def closedGoal : PhraseSort → Goal
  | .conditional => .whole
  | .join j => .join j
  | .comparison => .comparison
  | .unary u => .unary u
  | .power => .power
  | .postfixed => .primary
  | .atom => .atom

/-- A phrase may also be the left part of a longer one of its sort, if one operator after another
joins to the left. -/
def openLimit : PhraseSort → Nat
  | .join j => closedLimit (operandSort j)
  | .postfixed => 11
  | s => closedLimit s

def openGoal : PhraseSort → Goal
  | .join j => .chain j
  | .postfixed => .suffixed
  | s => closedGoal s

theorem closedGoal_operandSort (j : Join) : closedGoal (operandSort j) = j.operand := by
  cases j <;> rfl

theorem closedGoal_plainSort (u : Unary) : closedGoal (plainSort u) = u.below := by
  cases u <;> rfl

theorem closedLimit_plainSort (u : Unary) : closedLimit (plainSort u) = openLimit (.unary u) := by
  cases u <;> rfl

theorem closedLimit_le_openLimit (s : PhraseSort) : closedLimit s ≤ openLimit s := by
  cases s with
  | join j => cases j <;> decide
  | postfixed => decide
  | _ => exact Nat.le_refl _

theorem closedLimit_lt_openLimit (j : Join) : closedLimit (.join j) < openLimit (.join j) := by
  cases j <;> decide

theorem grip_of_joins {j : Join} {k : Kind} (h : j.joins k) : grip k = closedLimit (.join j) := by
  cases j <;> simp only [Join.joins, Bool.or_eq_true, decide_eq_true_eq] at h <;>
    rcases h with (rfl | rfl) | rfl <;> rfl

theorem grip_of_isComparison {k : Kind} (h : k.isComparison) : grip k = 4 := by
  revert h
  cases k <;> decide

theorem grip_lt_eleven (k : Kind) : grip k < 11 := by
  cases k <;> decide

theorem ne_of_grip {k l : Kind} {n : Nat} (h : grip k < n) (hl : n ≤ grip l) : k ≠ l := by
  rintro rfl
  omega

def Ends (k : Kind) : Prop := k = .comma ∨ k.isClosing

theorem Ends.grip {k : Kind} (h : Ends k) : grip k = 0 := by
  rcases h with rfl | h
  · rfl
  · revert h
    cases k <;> decide

/-- What the parser has taken up to an operator is whole if the next operator has less grip. -/
theorem parses_closed {n : Nat} {s : PhraseSort} {c c' : Cursor} {t : Tree}
    (h : Parses n (openGoal s) c [t] c') (hk : grip c'.kind < closedLimit s) :
    Parses n (closedGoal s) c [t] c' := by
  cases s with
  | join j =>
    refine .join h (Bool.eq_false_iff.2 fun hj => ?_)
    have := grip_of_joins hj
    omega
  | postfixed => exact .primary h (ne_of_grip hk (by decide)) (ne_of_grip hk (by decide))
  | _ => exact h

/-! ### What phrases start with -/

def takesSign : PhraseSort → Bool
  | .power | .postfixed | .atom => false
  | _ => true

def takesNegation : PhraseSort → Bool
  | .conditional | .join .disjunction | .join .conjunction | .unary .negation => true
  | _ => false

def Opens (s : PhraseSort) (k : Kind) : Prop :=
  k.isLiteral ∨ k.isOpening ∨ (Unary.sign.starts k ∧ takesSign s) ∨
    (Unary.negation.starts k ∧ takesNegation s)

theorem Opens.mono {s s' : PhraseSort} {k : Kind} (h : Opens s k)
    (hsign : takesSign s → takesSign s') (hnegation : takesNegation s → takesNegation s') :
    Opens s' k :=
  h.imp_right (Or.imp_right (Or.imp (And.imp_right hsign) (And.imp_right hnegation)))

theorem Opens.starts_eq_false {u : Unary} {k : Kind} (h : Opens (plainSort u) k) :
    u.starts k = false := by
  rw [Bool.eq_false_iff]
  intro hu
  cases u with
  | negation =>
    obtain rfl : k = .notKw := by simpa [Unary.starts] using hu
    simp [Opens, plainSort, takesNegation, Unary.starts, Kind.isLiteral, Kind.isOpening] at h
  | sign =>
    simp only [Unary.starts, Bool.or_eq_true, decide_eq_true_eq] at hu
    rcases hu with rfl | rfl <;>
      simp [Opens, plainSort, takesSign, Unary.starts, Kind.isLiteral, Kind.isOpening] at h

instance (s : PhraseSort) (k : Kind) : Decidable (Opens s k) :=
  inferInstanceAs (Decidable (_ ∨ _ ∨ _ ∨ _))

theorem Opens.ne {s : PhraseSort} {k l : Kind} (h : Opens s k) (hl : ¬Opens .conditional l) :
    k ≠ l := by
  rintro rfl
  exact hl (h.mono (fun _ => rfl) (fun _ => rfl))

theorem not_opens_of_isClosing {k : Kind} (h : k.isClosing) : ¬Opens .conditional k := by
  revert h
  cases k <;> decide

theorem Derives.opens {n : Nat} {s : PhraseSort} {ws : List Word} {p : Phrase}
    (h : Derives n s ws p) : ∃ w vs, ws = w :: vs ∧ Opens s w.1 := by
  induction h with
  | unconditional h ih =>
    obtain ⟨w, vs, rfl, hw⟩ := ih
    exact ⟨w, vs, rfl, hw.mono (fun _ => rfl) (fun _ => rfl)⟩
  | conditional body condition alternative ih ih₁ ih₂ =>
    obtain ⟨w, vs, rfl, hw⟩ := ih
    exact ⟨w, _, rfl, hw.mono (fun _ => rfl) (fun _ => rfl)⟩
  | @unjoined n j w p h ih =>
    obtain ⟨w, vs, rfl, hw⟩ := ih
    exact ⟨w, vs, rfl, hw.mono (fun _ => rfl) (by cases j <;> decide)⟩
  | joined left hop right ih ih₁ =>
    obtain ⟨w, vs, rfl, hw⟩ := ih
    exact ⟨w, _, rfl, hw⟩
  | uncompared h ih =>
    obtain ⟨w, vs, rfl, hw⟩ := ih
    exact ⟨w, vs, rfl, hw.mono (fun _ => rfl) (by decide)⟩
  | compared first hne hop operands ih ih₁ =>
    obtain ⟨w, vs, rfl, hw⟩ := ih
    exact ⟨w, _, rfl, hw.mono (fun _ => rfl) (by decide)⟩
  | @plain n u w p h ih =>
    obtain ⟨w, vs, rfl, hw⟩ := ih
    exact ⟨w, vs, rfl, hw.mono (by cases u <;> decide) (by cases u <;> decide)⟩
  | @unary n u k w p hop operand ih =>
    refine ⟨k.word, w, rfl, ?_⟩
    cases u with
    | negation => exact .inr (.inr (.inr ⟨hop, rfl⟩))
    | sign => exact .inr (.inr (.inl ⟨hop, rfl⟩))
  | base h ih => exact ih
  | power base exponent ih ih₁ =>
    obtain ⟨w, vs, rfl, hw⟩ := ih
    exact ⟨w, _, rfl, hw⟩
  | bare h ih => exact ih
  | call callee hpositional hnamed trailing ih ih₁ ih₂ =>
    obtain ⟨w, vs, rfl, hw⟩ := ih
    exact ⟨w, _, rfl, hw⟩
  | member object field ih =>
    obtain ⟨w, vs, rfl, hw⟩ := ih
    exact ⟨w, _, rfl, hw⟩
  | name x => exact ⟨_, [], rfl, .inl rfl⟩
  | literal h hname x => exact ⟨_, [], rfl, .inl h⟩
  | paren h ih => exact ⟨_, _, rfl, .inr (.inl rfl)⟩
  | tuple h hone ih => exact ⟨_, _, rfl, .inr (.inl rfl)⟩
  | list h trailing ih => exact ⟨_, _, rfl, .inr (.inl rfl)⟩
  | dict hkey hvalue trailing ih ih₁ => exact ⟨_, _, rfl, .inr (.inl rfl)⟩

theorem Derives.opens_kind {n : Nat} {s : PhraseSort} {ws : List Word} {p : Phrase}
    (h : Derives n s ws p) {c c' : Cursor} (hs : Spells ws c c') : Opens s c.kind := by
  obtain ⟨w, vs, rfl, hw⟩ := h.opens
  rw [Cursor.kind_of_head? hs.1]
  exact hw

end Grammar

end ScriptTree
