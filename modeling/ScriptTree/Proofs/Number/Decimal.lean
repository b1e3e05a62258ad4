import Mathlib.Tactic
import ScriptTree.Number.Decimal
import ScriptTree.Proofs.Lexer.Number

namespace ScriptTree.Decimal

open Lexer (digitRuns fractions exponents exponentMarks decimals)

/-! ### Digits and their value -/

/-- Digits without the zeros at their front; of zeros alone one is kept. -/
def trimZeros : Text → Text
  | '0' :: c :: s => trimZeros (c :: s)
  | s => s

theorem digitChar_value {c : Char} (h : c.isDigit) :
    c.toNat - '0'.toNat < 10 ∧ Nat.digitChar (c.toNat - '0'.toNat) = c := by
  have hzero : '0'.toNat = 48 := rfl
  have hc := Lexer.toNat_of_isDigit h
  refine ⟨by omega, Char.toNat_inj.1 ?_⟩
  rw [Nat.toNat_digitChar_of_lt_ten (by omega)]
  omega

theorem toDigits_digit {c : Char} (h : c.isDigit) : Nat.toDigits 10 (c.toNat - '0'.toNat) = [c] := by
  rw [Nat.toDigits_of_lt_base (digitChar_value h).1, (digitChar_value h).2]

theorem digitsValue_cons (c : Char) (s : Text) :
    digitsValue (c :: s) = Nat.ofDigitChars 10 s (c.toNat - '0'.toNat) := by
  rw [digitsValue, List.foldl_cons, Nat.mul_zero, Nat.zero_add, Nat.ofDigitChars_eq_foldl]

/-- Digits behind a positive number are its further digits. -/
theorem toDigits_append {n : Nat} (hn : 0 < n) {s : Text} (hs : ∀ c ∈ s, c.isDigit) :
    Nat.toDigits 10 n ++ s = Nat.toDigits 10 (Nat.ofDigitChars 10 s n) := by
  induction s generalizing n with
  | nil => rw [Nat.ofDigitChars_nil, List.append_nil]
  | cons c s ih =>
    obtain ⟨hc, hs⟩ := List.forall_mem_cons.1 hs
    have hpos : 0 < 10 * n + (c.toNat - '0'.toNat) := by omega
    have hnext : Nat.toDigits 10 n ++ [c] = Nat.toDigits 10 (10 * n + (c.toNat - '0'.toNat)) := by
      rw [← Nat.toDigits_append_toDigits (by decide) hn (digitChar_value hc).1, toDigits_digit hc]
    rw [Nat.ofDigitChars_cons, ← ih hpos hs, ← hnext, List.append_assoc, List.singleton_append]

theorem toDigits_digitsValue {d : Text} (h : d ∈ digitRuns) :
    Nat.toDigits 10 (digitsValue d) = trimZeros d := by
  obtain ⟨hne, hall⟩ := h
  fun_induction trimZeros d with
  | case1 c s ih =>
    have hvalue : digitsValue ('0' :: c :: s) = digitsValue (c :: s) := rfl
    rw [hvalue]
    exact ih (List.cons_ne_nil c s) fun d hd => hall d (List.mem_cons_of_mem _ hd)
  | case2 d hzero =>
    cases d with
    | nil => exact absurd rfl hne
    | cons c s =>
      obtain ⟨hc, hs⟩ := List.forall_mem_cons.1 hall
      rw [digitsValue_cons]
      cases s with
      | nil => rw [Nat.ofDigitChars_nil, toDigits_digit hc]
      | cons e s =>
        -- The first digit counts, so the number has all digits.
        have hpos : 0 < c.toNat - '0'.toNat := by
          by_contra hle
          have hbounds := Lexer.toNat_of_isDigit hc
          have hc : c = '0' := Char.toNat_inj.1 (Nat.le_antisymm (by omega) hbounds.1)
          exact hzero e s (by rw [hc])
        rw [← toDigits_append hpos hs, toDigits_digit hc, List.singleton_append]

theorem digitsValue_toDigits (n : Nat) : digitsValue (Nat.toDigits 10 n) = n :=
  Nat.ofDigitChars_ten_toDigits

theorem toDigits_mem_digitRuns (n : Nat) : Nat.toDigits 10 n ∈ digitRuns :=
  ⟨Nat.toDigits_ne_nil, fun _ hc => Nat.isDigit_of_mem_toDigits (by decide) (by decide) hc⟩

/-! ### Numbers of the grammar can be read -/

theorem sign_of_digits {d : Text} (h : d ∈ digitRuns) (r : Text) : sign (d ++ r) = (false, d ++ r) := by
  obtain ⟨hne, hall⟩ := h
  cases d with
  | nil => exact absurd rfl hne
  | cons c s =>
    have hc : c.isDigit := hall c List.mem_cons_self
    rw [List.cons_append]
    unfold sign
    split
    · exact absurd ((List.cons.inj ‹_›).1 ▸ hc) (by decide)
    · exact absurd ((List.cons.inj ‹_›).1 ▸ hc) (by decide)
    · rfl

theorem exponent?_isSome {e : Text} (h : e ∈ exponents) : (exponent? e).isSome := by
  rw [exponents, Language.mem_add, Language.mem_one, Language.mem_mul] at h
  obtain rfl | ⟨m, hm, d, hd, rfl⟩ := h
  · rfl
  · obtain ⟨c, hc, hmark⟩ := Lexer.mem_exponentMarks.1 hm
    have hsign : ∃ negative, sign (m.tail ++ d) = (negative, d) := by
      obtain rfl | ⟨x, rfl | rfl, rfl⟩ := hmark
      · exact ⟨false, by simpa using sign_of_digits hd []⟩
      · exact ⟨false, rfl⟩
      · exact ⟨true, rfl⟩
    have hcons : m ++ d = c :: (m.tail ++ d) := by
      obtain rfl | ⟨x, -, rfl⟩ := hmark <;> rfl
    obtain ⟨negative, hsign⟩ := hsign
    have hdigits : (d.isEmpty || !d.all Char.isDigit) = false := by
      rw [Bool.or_eq_false_iff, List.isEmpty_eq_false_iff, Bool.not_eq_false', List.all_eq_true]
      exact hd
    rw [hcons, exponent?, if_pos hc]
    simp [hsign, hdigits]

/-- What follows the digits of a whole number does not start with a digit, and has the exponent behind
its fraction. -/
theorem fraction_append {f e : Text} (hf : f ∈ fractions) (he : e ∈ exponents) :
    (∀ c ∈ (f ++ e).head?, ¬c.isDigit) ∧ (fraction (f ++ e)).2 = e := by
  have hexponent : ∀ c ∈ e.head?, c = 'e' ∨ c = 'E' := by
    intro c hc
    obtain ⟨r, rfl⟩ := List.head?_eq_some_iff.1 hc
    exact Lexer.eq_mark_of_exponents he
  rw [fractions, Language.mem_add, Language.mem_one, Language.mem_mul] at hf
  obtain rfl | ⟨m, rfl, d, hd, rfl⟩ := hf
  · rw [List.nil_append]
    constructor
    · intro c hc
      rcases hexponent c hc with rfl | rfl <;> decide
    · unfold fraction
      split
      · exact absurd (hexponent '.' rfl) (by decide)
      · rfl
  · have hrun : Text.IsRun Char.isDigit d e := by
      refine ⟨hd.2, fun c hc => ?_⟩
      rcases hexponent c hc with rfl | rfl <;> decide
    refine ⟨fun c hc => ?_, hrun.dropWhile_eq⟩
    obtain rfl : '.' = c := Option.some.inj hc
    decide

theorem parse?_isSome {w : Text} (h : w ∈ decimals) : (parse? w).isSome := by
  rw [decimals, Language.mem_mul] at h
  obtain ⟨m, hm, e, he, rfl⟩ := h
  obtain ⟨d, hd, f, hf, rfl⟩ := Language.mem_mul.1 hm
  obtain ⟨hhead, hrest⟩ := fraction_append hf he
  have hrun : Text.IsRun Char.isDigit d (f ++ e) := ⟨hd.2, hhead⟩
  have hwhole : (d.isEmpty && (fraction (f ++ e)).1.isEmpty) = false := by
    rw [List.isEmpty_eq_false_iff.2 hd.1, Bool.false_and]
  rw [List.append_assoc, parse?, sign_of_digits hd]
  simp only [Option.isSome_or, magnitude?, hrun.takeWhile_eq, hrun.dropWhile_eq, hwhole, hrest,
    Bool.false_eq_true, if_false, Option.isSome_map, exponent?_isSome he, Bool.or_true]

end ScriptTree.Decimal
