import Mathlib.Tactic
import ScriptTree.Number.Digit
import ScriptTree.Proofs.Text.Bytes
import ScriptTree.Text.Quoted

namespace ScriptTree

/-! ### Numbers by their digits -/

namespace Digit

theorem value?_digitChar {d : Nat} (h : d < 16) : value? d.digitChar = some d := by
  have hall : ∀ d < 16, value? d.digitChar = some d := by decide
  exact hall d h

theorem number_append (base : Nat) (s : Text) (c : Char) :
    number base (s ++ [c]) = base * number base s + (value? c).getD 0 := by
  simp [number]

variable {base : Nat}

/-- A number written in a base is the number that its digits make, and they are digits of the base. -/
theorem toDigits_spec (hbase : 1 < base) (hle : base ≤ 16) (n : Nat) :
    number base (Nat.toDigits base n) = n ∧ ∀ c ∈ Nat.toDigits base n, isIn base c := by
  have hdigit : ∀ d < base, value? d.digitChar = some d := fun d hd =>
    value?_digitChar (hd.trans_le hle)
  have hisIn : ∀ d < base, isIn base d.digitChar := fun d hd => by simp [isIn, hdigit d hd, hd]
  induction n using Nat.base_induction base hbase with
  | single d hd =>
    rw [Nat.toDigits_of_lt_base hd]
    exact ⟨by simp [number, hdigit d hd], by simpa using hisIn d hd⟩
  | digit m d hd hm ih =>
    rw [← Nat.toDigits_append_toDigits hbase hm hd, Nat.toDigits_of_lt_base hd]
    refine ⟨by rw [number_append, ih.1, hdigit d hd, Option.getD_some], fun c hc => ?_⟩
    rcases List.mem_append.1 hc with hc | hc
    · exact ih.2 c hc
    · rw [List.mem_singleton.1 hc]
      exact hisIn d hd

theorem not_mem_toDigits (hbase : 1 < base) (hle : base ≤ 16) (n : Nat) {c : Char}
    (hc : value? c = none) : c ∉ Nat.toDigits base n := fun hmem => by
  have hisIn := (toDigits_spec hbase hle n).2 c hmem
  simp [isIn, hc] at hisIn

theorem codePoint?_toDigits (c : Char) : codePoint? (Nat.toDigits 16 c.toNat) = some c := by
  obtain ⟨hnumber, hisIn⟩ := toDigits_spec (by decide : 1 < 16) (Nat.le_refl 16) c.toNat
  have hdigits : ((Nat.toDigits 16 c.toNat).isEmpty ||
      !(Nat.toDigits 16 c.toNat).all (isIn 16)) = false := by
    rw [Bool.or_eq_false_iff, List.isEmpty_eq_false_iff, Bool.not_eq_false', List.all_eq_true]
    exact ⟨Nat.toDigits_ne_nil, hisIn⟩
  have hnumber? : number? 16 (Nat.toDigits 16 c.toNat) = some c.toNat := by
    rw [number?, hdigits, if_neg Bool.false_ne_true, hnumber]
  have hvalid : c.toNat.isValidChar := c.valid
  simp [codePoint?, hnumber?, hvalid]

end Digit

namespace Text

/-! ### One character -/

def takeQuoted? : Text → Option (Char × Text)
  | '\\' :: 'u' :: '\x7b' :: s =>
    (Digit.codePoint? (s.takeWhile (· != '\x7d'))).map fun c =>
      (c, (s.dropWhile (· != '\x7d')).drop 1)
  | '\\' :: 'n' :: s => some ('\n', s)
  | '\\' :: 'r' :: s => some ('\r', s)
  | '\\' :: 't' :: s => some ('\t', s)
  | '\\' :: '0' :: s => some ('\x00', s)
  | '\\' :: c :: s => some (c, s)
  | c :: s => some (c, s)
  | [] => none

theorem takeQuoted?_plain {c : Char} (hc : c ≠ '\\') (s : Text) :
    takeQuoted? (c :: s) = some (c, s) := by
  unfold takeQuoted?
  split <;> simp_all

theorem takeQuoted?_codePoint (c : Char) (s : Text) :
    takeQuoted? ('\\' :: 'u' :: '\x7b' :: (Nat.toDigits 16 c.toNat ++ '\x7d' :: s)) =
      some (c, s) := by
  have hbrace : '\x7d' ∉ Nat.toDigits 16 c.toNat :=
    Digit.not_mem_toDigits (by decide) (by decide) _ (by decide)
  have hrun : IsRun (· != '\x7d') (Nat.toDigits 16 c.toNat) ('\x7d' :: s) :=
    isRun_of_not_mem hbrace (by simp)
  rw [takeQuoted?, hrun.takeWhile_eq, hrun.dropWhile_eq, Digit.codePoint?_toDigits, Option.map_some,
    List.drop_one, List.tail_cons]

theorem takeQuoted?_quoteChar (c : Char) (s : Text) :
    takeQuoted? (quoteChar c ++ s) = some (c, s) := by
  unfold quoteChar
  split
  · rfl
  · rfl
  · rfl
  · rfl
  · rfl
  · rfl
  · split
    · simpa using takeQuoted?_codePoint c s
    · exact takeQuoted?_plain ‹_› s

theorem quoteChar_ne_nil (c : Char) : quoteChar c ≠ [] := by
  intro h
  have hread := takeQuoted?_quoteChar c []
  rw [h] at hread
  exact absurd hread (by simp [takeQuoted?])

theorem newline_not_mem_quoteChar (c : Char) : '\n' ∉ quoteChar c := by
  unfold quoteChar
  split
  · decide
  · decide
  · decide
  · decide
  · decide
  · decide
  · split
    · simpa using Digit.not_mem_toDigits (by decide) (by decide) c.toNat (by decide)
    · rw [List.mem_singleton]
      exact Ne.symm ‹_›

/-! ### Whole texts -/

/-- What is written for characters one after another tells them all. -/
theorem eq_of_flatMap_quoteChar {s t : Text} (h : s.flatMap quoteChar = t.flatMap quoteChar) :
    s = t := by
  induction s generalizing t with
  | nil =>
    cases t with
    | nil => rfl
    | cons d t =>
      rw [List.flatMap_nil, List.flatMap_cons, eq_comm, List.append_eq_nil_iff] at h
      exact absurd h.1 (quoteChar_ne_nil d)
  | cons c s ih =>
    cases t with
    | nil =>
      rw [List.flatMap_nil, List.flatMap_cons, List.append_eq_nil_iff] at h
      exact absurd h.1 (quoteChar_ne_nil c)
    | cons d t =>
      have hread := congrArg takeQuoted? h
      rw [List.flatMap_cons, List.flatMap_cons, takeQuoted?_quoteChar, takeQuoted?_quoteChar,
        Option.some_inj, Prod.mk.injEq] at hread
      rw [hread.1, ih hread.2]

theorem quote_injective : Function.Injective quote := by
  intro s t h
  rw [quote, quote, List.cons_append, List.cons_append, List.cons.injEq] at h
  exact eq_of_flatMap_quoteChar (List.append_cancel_right h.2)

theorem newline_not_mem_quote (s : Text) : '\n' ∉ quote s := by
  simp [quote, newline_not_mem_quoteChar]

end Text

end ScriptTree
