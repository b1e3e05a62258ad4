import ScriptTree.Proofs.Lexer.Quoted
import ScriptTree.Proofs.Number.Decimal
import ScriptTree.Timeframe.Basic

namespace ScriptTree

open Lexer (isDigit isWordPart isWordStart IsWord IsToken digitRuns Dashed Extends HasUnit)
open Text (IsRun)

namespace Timeframe

def ending (anchor : Option Anchor) (last : Bool) : Text :=
  match anchor with
  | none => []
  | some a => '-' :: a.word ++ if last then '-' :: lastWord else []

theorem text_eq (t : Timeframe) :
    t.text = Nat.toDigits 10 t.count ++ (t.unit.suffix ++ ending t.anchor t.last) :=
  List.append_assoc ..

/-- A text that spells a timeframe, with digits for the count. Without an anchor there is no last
occurrence. -/
structure Spells (s d : Text) (t : Timeframe) : Prop where
  text : s = d ++ (t.unit.suffix ++ ending t.anchor t.last)
  digits : d ∈ digitRuns
  count : t.count = Decimal.digitsValue d
  last : t.last → t.anchor.isSome

/-! ### The words of a timeframe -/

theorem head?_ending {anchor : Option Anchor} {last : Bool} :
    ∀ c ∈ (ending anchor last).head?, c = '-' := by
  intro c hc
  cases anchor with
  | none => exact absurd hc nofun
  | some a => exact (Option.some.inj hc).symm

theorem suffix_isWord (u : TimeUnit) {r : Text} (hr : r.head?.any isWordPart = false) :
    IsWord u.suffix r :=
  ⟨by cases u <;> decide, .of_all (by cases u <;> decide) hr⟩

theorem word_isWord (a : Anchor) {r : Text} (hr : r.head?.any isWordPart = false) :
    IsWord a.word r :=
  ⟨by cases a <;> decide, .of_all (by cases a <;> decide) hr⟩

theorem lastWord_isWord : IsWord lastWord [] := ⟨by decide, .of_all (by decide) rfl⟩

theorem ending_stops (anchor : Option Anchor) (last : Bool) :
    (ending anchor last).head?.any isWordPart = false := by
  cases h : (ending anchor last).head? with
  | none => rfl
  | some c =>
    rw [head?_ending c h]
    decide

theorem dash_notMem_of_isWord {w r : Text} (h : IsWord w r) : '-' ∉ w :=
  fun hmem => absurd (h.run.all '-' hmem) (by decide)

namespace Spells

variable {s d : Text} {t : Timeframe}

theorem digits_run (h : Spells s d t) :
    IsRun Char.isDigit d (t.unit.suffix ++ ending t.anchor t.last) := by
  obtain ⟨c, v, hu, hc, -⟩ := Lexer.suffix_start t.unit
  refine ⟨h.digits.2, fun e he => ?_⟩
  rw [hu, List.cons_append, List.head?_cons] at he
  exact Option.some.inj he ▸ hc

/-- The digits of a timeframe are those at the front of its text. -/
theorem takeWhile_eq (h : Spells s d t) : s.takeWhile Char.isDigit = d := by
  rw [h.text, h.digits_run.takeWhile_eq]

theorem dropWhile_eq (h : Spells s d t) :
    s.dropWhile Char.isDigit = t.unit.suffix ++ ending t.anchor t.last := by
  rw [h.text, h.digits_run.dropWhile_eq]

end Spells

theorem spells_text {t : Timeframe} (h : t.last → t.anchor.isSome) :
    Spells t.text (Nat.toDigits 10 t.count) t where
  text := t.text_eq
  digits := Decimal.toDigits_mem_digitRuns t.count
  count := (Decimal.digitsValue_toDigits t.count).symm
  last := h

/-! ### The lexer makes one token of a timeframe -/

/-- All that may follow a unit is taken. -/
theorem extends_ending {anchor : Option Anchor} {last : Bool} (h : last → anchor.isSome) :
    Extends (ending anchor last) (ending anchor last) := by
  have hnone (w r : Text) : ¬Dashed [] w r := fun h => List.cons_ne_nil _ _ h.text.symm
  match anchor, last with
  | none, false => exact .bare fun _ _ => hnone _ _
  | none, true => exact absurd (h rfl) Bool.false_ne_true
  | some a, false =>
    have hanchor : Dashed ('-' :: a.word) a.word [] :=
      ⟨congrArg ('-' :: ·) (List.append_nil a.word).symm, word_isWord a rfl⟩
    have hending : ending (some a) false = '-' :: a.word := List.append_nil _
    rw [hending]
    exact .anchored hanchor fun r => hnone lastWord r
  | some a, true =>
    have hanchor : Dashed ('-' :: a.word ++ '-' :: lastWord) a.word ('-' :: lastWord) :=
      ⟨rfl, word_isWord a (by decide)⟩
    have hlast : Dashed ('-' :: lastWord) lastWord [] :=
      ⟨congrArg ('-' :: ·) (List.append_nil lastWord).symm, lastWord_isWord⟩
    exact .last hanchor hlast

theorem Spells.isToken {s d : Text} {t : Timeframe} (h : Spells s d t) : IsToken .timeframe s := by
  obtain ⟨c, v, rfl⟩ := List.exists_cons_of_ne_nil h.digits.1
  have hc : isDigit c := h.digits.2 c List.mem_cons_self
  have hunit : HasUnit (c :: (v ++ (t.unit.suffix ++ ending t.anchor t.last))) (c :: v) t.unit
      (ending t.anchor t.last) :=
    ⟨rfl, h.digits_run, suffix_isWord t.unit (ending_stops _ _)⟩
  obtain ⟨hkind, htext⟩ := hunit.number_timeframe hc
  rw [← (extends_ending h.last).eq_anchor, List.append_assoc] at htext
  rw [h.text]
  refine Lexer.isToken_cons.2 ?_
  rw [Lexer.lexeme_digit hc]
  refine ⟨hkind, ?_⟩
  -- The token has the whole text, so nothing is left.
  have hcut := Lexer.number_text_append_rest c (v ++ (t.unit.suffix ++ ending t.anchor t.last))
  rw [htext] at hcut
  exact List.append_right_eq_self.1 hcut

/-- What may follow a unit is an ending of some timeframe. -/
theorem exists_ending {r e : Text} (h : Extends r e) :
    ∃ anchor last, e = ending anchor last ∧ (last → anchor.isSome) := by
  cases h with
  | bare _ => exact ⟨none, false, rfl, nofun⟩
  | @anchored _ a _ _ => exact ⟨some a, false, (List.append_nil _).symm, fun _ => rfl⟩
  | @last _ _ a _ _ => exact ⟨some a, true, rfl, fun _ => rfl⟩

theorem exists_spells {c : Char} (hc : isDigit c) {s : Text}
    (h : (Lexer.number c s).kind = .timeframe) : ∃ d t, Spells (Lexer.number c s).text d t := by
  by_cases hunit : ∃ d u r, HasUnit (c :: s) d u r
  · obtain ⟨d, u, r, hunit⟩ := hunit
    have hextends : Extends r (Lexer.anchor r).taken := Lexer.extends_iff.2 rfl
    obtain ⟨anchor, last, hending, hlast⟩ := exists_ending hextends
    refine ⟨d, ⟨Decimal.digitsValue d, u, anchor, last⟩, ?_, hunit.mem_digitRuns hc, rfl, hlast⟩
    rw [(hunit.number_timeframe hc).2, hending, List.append_assoc]
  · exact absurd ((Lexer.number_plain hc hunit).1.symm.trans h) (by decide)

end Timeframe

end ScriptTree
