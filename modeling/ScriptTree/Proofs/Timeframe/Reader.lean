import ScriptTree.Proofs.Lexer.Literal

namespace ScriptTree.Timeframe

open Lexer (IsToken digitRuns)

/-! ### What spells a timeframe is read -/

theorem splitDash_eq (s : Text) : splitDash s = s.splitOn '-' := by
  induction s with
  | nil => rfl
  | cons c s ih =>
    have hne := List.splitOn_ne_nil '-' s
    rw [splitDash, ih, List.splitOn_cons_eq_if_modifyHead]
    by_cases hc : c = '-'
    · simp [hc]
    · cases h : s.splitOn '-' with
      | nil => exact absurd h hne
      | cons w ws => simp [hc]

def parts (t : Timeframe) : List Text :=
  match t.anchor with
  | none => [t.unit.suffix]
  | some a => t.unit.suffix :: a.word :: if t.last then [lastWord] else []

theorem splitDash_parts (t : Timeframe) :
    splitDash (t.unit.suffix ++ ending t.anchor t.last) = t.parts := by
  obtain ⟨count, unit, anchor, last⟩ := t
  have hunit := dash_notMem_of_isWord (suffix_isWord unit (r := []) rfl)
  have hlast := dash_notMem_of_isWord lastWord_isWord
  rw [splitDash_eq]
  match anchor, last with
  | none, last =>
    simp only [ending, parts, List.append_nil]
    exact List.splitOn_eq_singleton hunit
  | some a, last =>
    have ha := dash_notMem_of_isWord (word_isWord a (r := []) rfl)
    simp only [ending, parts, List.cons_append]
    rw [List.splitOn_append_cons_self_of_not_mem hunit]
    cases last with
    | false => simp [List.splitOn_eq_singleton ha]
    | true =>
      rw [if_pos rfl, if_pos rfl, List.splitOn_append_cons_self_of_not_mem ha,
        List.splitOn_eq_singleton hlast]

theorem Spells.parse?_eq {s d : Text} {t : Timeframe} (h : Spells s d t)
    (hcount : t.count ≤ maxCount) : parse? s = some t := by
  have hdigits : (d.isEmpty || decide (maxCount < Decimal.digitsValue d)) = false := by
    rw [Bool.or_eq_false_iff, List.isEmpty_eq_false_iff, decide_eq_false_iff_not, Nat.not_lt,
      ← h.count]
    exact ⟨h.digits.1, hcount⟩
  rw [parse?]
  simp only [h.takeWhile_eq, h.dropWhile_eq, hdigits, splitDash_parts, Bool.false_eq_true, if_false]
  obtain ⟨count, unit, anchor, last⟩ := t
  obtain rfl : count = _ := h.count
  match anchor, last with
  | none, false => simp [parts, TimeUnit.ofSuffix?_suffix]
  | none, true => exact absurd (h.last rfl) Bool.false_ne_true
  | some a, false => simp [parts, TimeUnit.ofSuffix?_suffix, Anchor.ofWord?_word]
  | some a, true => simp [parts, TimeUnit.ofSuffix?_suffix, Anchor.ofWord?_word]

theorem intercalate_parts (t : Timeframe) :
    ['-'].intercalate t.parts = t.unit.suffix ++ ending t.anchor t.last := by
  rw [← splitDash_parts, splitDash_eq, List.intercalate_splitOn]

theorem spells_of_parse? {s : Text} {t : Timeframe} (h : parse? s = some t) :
    Spells s (s.takeWhile Char.isDigit) t ∧ t.count ≤ maxCount := by
  rw [parse?] at h
  split at h
  · exact absurd h nofun
  · rename_i hdigits
    rw [Bool.not_eq_true, Bool.or_eq_false_iff, List.isEmpty_eq_false_iff, decide_eq_false_iff_not,
      Nat.not_lt] at hdigits
    have hmem : s.takeWhile Char.isDigit ∈ digitRuns :=
      ⟨hdigits.1, fun c hc => List.mem_takeWhile_imp hc⟩
    -- The text is cut behind its digits and at each dash, so its parts say what it is.
    have hspells {u : TimeUnit} {anchor : Option Anchor} {last : Bool}
        (hparts : splitDash (s.dropWhile Char.isDigit) = parts ⟨0, u, anchor, last⟩)
        (hlast : last → anchor.isSome) :
        Spells s (s.takeWhile Char.isDigit)
          ⟨Decimal.digitsValue (s.takeWhile Char.isDigit), u, anchor, last⟩ := by
      refine ⟨?_, hmem, rfl, hlast⟩
      rw [← intercalate_parts ⟨_, u, anchor, last⟩]
      have hjoin : ['-'].intercalate (splitDash (s.dropWhile Char.isDigit)) =
          s.dropWhile Char.isDigit := by
        rw [splitDash_eq]
        exact List.intercalate_splitOn '-'
      have hcut := List.takeWhile_append_dropWhile (p := Char.isDigit) (l := s)
      rw [← hjoin, hparts] at hcut
      exact hcut.symm
    split at h
    · rename_i unit hparts
      obtain ⟨u, hu, ht⟩ := Option.bind_eq_some_iff.1 h
      obtain rfl := Option.some.inj ht
      obtain rfl := TimeUnit.suffix_of_ofSuffix? hu
      exact ⟨hspells hparts nofun, hdigits.2⟩
    · rename_i unit anchor hparts
      obtain ⟨u, hu, h⟩ := Option.bind_eq_some_iff.1 h
      obtain ⟨a, ha, ht⟩ := Option.bind_eq_some_iff.1 h
      obtain rfl := Option.some.inj ht
      obtain rfl := TimeUnit.suffix_of_ofSuffix? hu
      obtain rfl := Anchor.word_of_ofWord? ha
      exact ⟨hspells hparts nofun, hdigits.2⟩
    · rename_i unit anchor last hparts
      split at h
      · rename_i hlast
        obtain ⟨u, hu, h⟩ := Option.bind_eq_some_iff.1 h
        obtain ⟨a, ha, ht⟩ := Option.bind_eq_some_iff.1 h
        obtain rfl := Option.some.inj ht
        obtain rfl := TimeUnit.suffix_of_ofSuffix? hu
        obtain rfl := Anchor.word_of_ofWord? ha
        obtain rfl := hlast
        exact ⟨hspells hparts fun _ => rfl, hdigits.2⟩
      · exact absurd h nofun
    · exact absurd h nofun

/-- A text can be read just when it spells a timeframe whose count is not too large. -/
theorem parse?_eq_some_iff {s : Text} {t : Timeframe} :
    parse? s = some t ↔ (∃ d, Spells s d t) ∧ t.count ≤ maxCount := by
  constructor
  · intro h
    obtain ⟨hspells, hcount⟩ := spells_of_parse? h
    exact ⟨⟨_, hspells⟩, hcount⟩
  · rintro ⟨⟨d, h⟩, hcount⟩
    exact h.parse?_eq hcount

theorem Spells.isSome_parse? {s d : Text} {t : Timeframe} (h : Spells s d t) :
    (parse? s).isSome ↔ Decimal.digitsValue d < 2 ^ 64 := by
  rw [Option.isSome_iff_exists, show (2 ^ 64 : Nat) = maxCount + 1 from rfl, Nat.lt_succ_iff]
  simp only [parse?_eq_some_iff]
  constructor
  · rintro ⟨u, ⟨e, hu⟩, hcount⟩
    rwa [hu.count, ← hu.takeWhile_eq, h.takeWhile_eq] at hcount
  · intro hle
    exact ⟨t, ⟨d, h⟩, h.count ▸ hle⟩

/-! ### Reading, lexing and writing -/

/-- A text can be read as a timeframe just when it is one timeframe token with a count that is not too
large. What is written for the timeframe is the text without the zeros at its front; it is read as the
same timeframe, and is one timeframe token too. -/
theorem parse_iff_isToken (s : Text) :
    ((parse? s).isSome ↔ IsToken .timeframe s ∧
        Decimal.digitsValue (s.takeWhile Char.isDigit) < 2 ^ 64) ∧
      ∀ t, parse? s = some t →
        t.text = Decimal.trimZeros (s.takeWhile Char.isDigit) ++ s.dropWhile Char.isDigit ∧
          parse? t.text = some t ∧ IsToken .timeframe t.text := by
  constructor
  · constructor
    · intro hsome
      obtain ⟨t, ht⟩ := Option.isSome_iff_exists.1 hsome
      obtain ⟨h, hcount⟩ := spells_of_parse? ht
      exact ⟨h.isToken, h.count ▸ Nat.lt_succ_of_le hcount⟩
    · rintro ⟨htoken, hcount⟩
      cases Lexer.isLiteral_of_isToken rfl htoken with
      | timeframe h =>
        rw [h.takeWhile_eq] at hcount
        exact h.isSome_parse?.2 hcount
  · intro t ht
    obtain ⟨h, hcount⟩ := spells_of_parse? ht
    have hwritten := spells_text h.last
    refine ⟨?_, hwritten.parse?_eq hcount, hwritten.isToken⟩
    rw [text_eq, h.count, Decimal.toDigits_digitsValue h.digits, ← h.dropWhile_eq]

/-- Zeros at the front of a count are not written again. -/
theorem parse_iff_isToken_last :
    let s : Text := "007W-FRI-Last".toList
    let t : Timeframe := ⟨7, .week, some .friday, true⟩
    parse? s = some t ∧ t.text = "7W-FRI-Last".toList ∧ parse? t.text = some t ∧
      IsToken .timeframe t.text := by
  intro s t
  have ht : parse? s = some t := by decide +kernel
  obtain ⟨htext, hread, htoken⟩ := (parse_iff_isToken s).2 t ht
  exact ⟨ht, htext.trans (by decide +kernel), hread, htoken⟩

end ScriptTree.Timeframe
