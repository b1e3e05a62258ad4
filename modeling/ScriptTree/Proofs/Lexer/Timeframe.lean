import ScriptTree.Proofs.Lexer.Number
import ScriptTree.Proofs.Lexer.Scan

namespace ScriptTree.Lexer

open Text (IsRun)

/-! ### Words behind the digits -/

/-- A word at the front of a text, up to where no more of a word stands. -/
structure IsWord (w r : Text) : Prop where
  start : w.head?.any isWordStart
  run : IsRun isWordPart w r

structure Dashed (s w r : Text) : Prop where
  text : s = '-' :: (w ++ r)
  word : IsWord w r

theorem isWordPart_of_start {c : Char} (h : isWordStart c) : isWordPart c := by
  simp only [isWordStart, isWordPart, Bool.or_eq_true] at h ⊢
  exact .inl h

theorem isWord_run {c : Char} (hc : isWordStart c) (s : Text) :
    IsWord (c :: s.takeWhile isWordPart) (s.dropWhile isWordPart) := by
  have hrun := Text.isRun_takeWhile isWordPart s
  refine ⟨hc, fun d hd => ?_, hrun.stops⟩
  rcases List.mem_cons.1 hd with rfl | hd
  · exact isWordPart_of_start hc
  · exact hrun.all d hd

theorem runPiece_isWord {s : Text} (h : s.head?.any isWordStart) :
    IsWord (runPiece isWordPart s).taken (runPiece isWordPart s).rest := by
  cases s with
  | nil => exact absurd h Bool.false_ne_true
  | cons c s => exact isWord_run h s

namespace IsWord

variable {w r : Text}

theorem exists_cons (h : IsWord w r) :
    ∃ c v, w = c :: v ∧ isWordStart c ∧ IsRun isWordPart v r := by
  cases w with
  | nil => exact absurd h.start Bool.false_ne_true
  | cons c v =>
    exact ⟨c, v, rfl, h.start, fun d hd => h.run.all d (List.mem_cons_of_mem c hd), h.run.stops⟩

theorem runPiece_taken (h : IsWord w r) : (runPiece isWordPart (w ++ r)).taken = w := by
  obtain ⟨c, v, rfl, -, hrun⟩ := h.exists_cons
  simp [runPiece, hrun.takeWhile_eq]

end IsWord

theorem Dashed.dashWord_eq {s w r : Text} (h : Dashed s w r) (accept : Text → Bool) :
    (dashWord accept s).taken = (if accept w then '-' :: w else []) ∧
      (accept w → (dashWord accept s).rest = r) := by
  obtain ⟨c, v, rfl, hc, hrun⟩ := h.word.exists_cons
  rw [h.text, List.cons_append, dashWord_dash, if_pos hc, hrun.takeWhile_eq, hrun.dropWhile_eq]
  split
  · exact ⟨rfl, fun _ => rfl⟩
  · exact ⟨rfl, fun h => absurd h ‹_›⟩

theorem exists_dashed {accept : Text → Bool} {s : Text} (h : (dashWord accept s).taken ≠ []) :
    ∃ w r, accept w ∧ Dashed s w r := by
  cases s with
  | nil => exact absurd rfl h
  | cons d s =>
    by_cases hd : d = '-'
    · subst hd
      cases s with
      | nil => exact absurd rfl h
      | cons c s =>
        rw [dashWord_dash] at h
        split at h
        · rename_i hc
          split at h
          · rename_i haccept
            refine ⟨_, _, haccept, ?_, isWord_run hc s⟩
            rw [List.cons_append, List.takeWhile_append_dropWhile]
          · exact absurd rfl h
        · exact absurd rfl h
    · rw [dashWord_of_ne accept hd] at h
      exact absurd rfl h

/-- What a timeframe has behind its unit: an anchor, and behind that perhaps the last mark. Each is
a whole word behind a dash, and what is no such thing is left where it stands. -/
inductive Extends : Text → Text → Prop
  | bare {r : Text} : (∀ a r', ¬Dashed r (Anchor.word a) r') → Extends r []
  | anchored {r r' : Text} {a : Anchor} :
      Dashed r a.word r' → (∀ r'', ¬Dashed r' lastWord r'') → Extends r ('-' :: a.word)
  | last {r r' r'' : Text} {a : Anchor} :
      Dashed r a.word r' → Dashed r' lastWord r'' → Extends r ('-' :: a.word ++ '-' :: lastWord)

theorem exists_extends (r : Text) : ∃ e, Extends r e := by
  by_cases hanchor : ∃ a r', Dashed r (Anchor.word a) r'
  · obtain ⟨a, r', h⟩ := hanchor
    by_cases hlast : ∃ r'', Dashed r' lastWord r''
    · obtain ⟨r'', h'⟩ := hlast
      exact ⟨_, .last h h'⟩
    · exact ⟨_, .anchored h (not_exists.1 hlast)⟩
  · exact ⟨_, .bare fun a r' h => hanchor ⟨a, r', h⟩⟩

theorem Extends.eq_anchor {r e : Text} (h : Extends r e) : e = (anchor r).taken := by
  unfold anchor
  dsimp only
  cases h with
  | bare hnone =>
    have hnil : (dashWord (fun w => (Anchor.ofWord? w).isSome) r).taken = [] := by
      by_contra hne
      obtain ⟨w, r', hw, hdashed⟩ := exists_dashed hne
      obtain ⟨a, ha⟩ := Option.isSome_iff_exists.1 hw
      exact hnone a r' (Anchor.word_of_ofWord? ha ▸ hdashed)
    rw [if_pos hnil, hnil]
  | @anchored r' a hdashed hnone =>
    have haccept : (Anchor.ofWord? a.word).isSome := by rw [Anchor.ofWord?_word, Option.isSome_some]
    obtain ⟨htaken, hrest⟩ := hdashed.dashWord_eq fun w => (Anchor.ofWord? w).isSome
    have hnil : (dashWord (· == lastWord) r').taken = [] := by
      by_contra hne
      obtain ⟨w, r'', hw, hlast⟩ := exists_dashed hne
      exact hnone r'' (beq_iff_eq.1 hw ▸ hlast)
    rw [if_pos haccept] at htaken
    rw [htaken, if_neg (List.cons_ne_nil _ _), Piece.andThen, hrest haccept, htaken, hnil,
      List.append_nil]
  | @last r' r'' a hdashed hlast =>
    have haccept : (Anchor.ofWord? a.word).isSome := by rw [Anchor.ofWord?_word, Option.isSome_some]
    obtain ⟨htaken, hrest⟩ := hdashed.dashWord_eq fun w => (Anchor.ofWord? w).isSome
    obtain ⟨hmark, -⟩ := hlast.dashWord_eq (· == lastWord)
    rw [if_pos haccept] at htaken
    rw [if_pos (beq_self_eq_true lastWord)] at hmark
    rw [htaken, if_neg (List.cons_ne_nil _ _), Piece.andThen, hrest haccept, htaken, hmark]

theorem extends_iff {r e : Text} : Extends r e ↔ e = (anchor r).taken := by
  refine ⟨Extends.eq_anchor, fun he => ?_⟩
  obtain ⟨e', h⟩ := exists_extends r
  exact he ▸ h.eq_anchor ▸ h

/-! ### Numbers and timeframes -/

/-- Digits at the front of a text, with a unit directly behind them. -/
structure HasUnit (s d : Text) (u : TimeUnit) (r : Text) : Prop where
  text : s = d ++ (u.suffix ++ r)
  digits : IsRun isDigit d (u.suffix ++ r)
  unit : IsWord u.suffix r

theorem suffix_start (u : TimeUnit) :
    ∃ c v, u.suffix = c :: v ∧ ¬isDigit c ∧ c ≠ '.' ∧ c ≠ 'e' ∧ c ≠ 'E' := by
  cases u <;> exact ⟨_, _, rfl, by decide⟩

theorem lexeme_digit {c : Char} (hc : isDigit c) (s : Text) : lexeme c s = number c s := by
  have hrange := toNat_of_isDigit hc
  have hne (d : Char) (hd : d.toNat < 48) : c ≠ d := by
    rintro rfl
    omega
  have hblank : ¬Text.isBlank c := by
    intro hblank
    obtain ⟨r, hr, hin⟩ := List.any_eq_true.1 hblank
    rw [Bool.and_eq_true, decide_eq_true_eq, decide_eq_true_eq] at hin
    have hout := (by decide : ∀ r ∈ Text.blankRanges, r.2 < 48 ∨ 57 < r.1) r hr
    omega
  rw [lexeme, if_neg (hne _ (by decide)), if_neg (hne _ (by decide)), if_neg hblank,
    if_neg (hne _ (by decide)), if_neg (hne _ (by decide)), if_neg (hne _ (by decide)), if_pos hc]

section

variable {c : Char} {s : Text}

theorem digits_run (hc : isDigit c) :
    IsRun isDigit (runPiece isDigit (c :: s)).taken (runPiece isDigit (c :: s)).rest := by
  have hrun := Text.isRun_takeWhile isDigit s
  refine ⟨fun d hd => ?_, hrun.stops⟩
  rcases List.mem_cons.1 hd with rfl | hd
  · exact hc
  · exact hrun.all d hd

theorem digits_mem (hc : isDigit c) : (runPiece isDigit (c :: s)).taken ∈ digitRuns :=
  runPiece_digits hc

namespace HasUnit

variable {d r : Text} {u : TimeUnit}

theorem mem_digitRuns (h : HasUnit (c :: s) d u r) (hc : isDigit c) : d ∈ digitRuns := by
  refine ⟨?_, h.digits.all⟩
  rintro rfl
  obtain ⟨e, v, hu, he, -⟩ := suffix_start u
  have htext := h.text
  rw [hu, List.nil_append, List.cons_append, List.cons.injEq] at htext
  exact he (htext.1 ▸ hc)

theorem decimalPiece_taken (h : HasUnit (c :: s) d u r) (hc : isDigit c) :
    (decimalPiece (c :: s)).taken = d ∧ (decimalPiece (c :: s)).rest = u.suffix ++ r := by
  obtain ⟨e, v, hu, he, hpoint, hmark⟩ := suffix_start u
  have htaken : (decimalPiece (c :: s)).taken = d := by
    rw [h.text, hu]
    exact decimals_stopsAt he hpoint hmark d (mem_decimals_of_digitRuns (h.mem_digitRuns hc)) _
  have hrest := rest_of_taken decimalPiece_isReader (h.text ▸ htaken)
  rw [← h.text] at hrest
  exact ⟨htaken, hrest⟩

theorem runPiece_taken (h : HasUnit (c :: s) d u r) (hc : isDigit c) :
    (runPiece isDigit (c :: s)).taken = d := by
  obtain ⟨e, v, hu, he, -⟩ := suffix_start u
  rw [h.text, hu]
  exact digitRuns_stopsAt he d (h.mem_digitRuns hc) _

/-- A number with a unit behind it is a timeframe, with all that may follow the unit. -/
theorem number_timeframe (h : HasUnit (c :: s) d u r) (hc : isDigit c) :
    (number c s).kind = .timeframe ∧ (number c s).text = d ++ u.suffix ++ (anchor r).taken := by
  obtain ⟨hdecimal, hrest⟩ := h.decimalPiece_taken hc
  have hword := h.unit.runPiece_taken
  have hwordRest := rest_of_taken (runPiece_isReader isWordPart) hword
  have hstart : (decimalPiece (c :: s)).rest.head?.any isWordStart := by
    obtain ⟨e, v, hu, he, -⟩ := h.unit.exists_cons
    rw [hrest, hu]
    exact he
  have hsuffix :
      (TimeUnit.ofSuffix? (runPiece isWordPart (decimalPiece (c :: s)).rest).taken).isSome := by
    rw [hrest, hword, TimeUnit.ofSuffix?_suffix, Option.isSome_some]
  rw [number_eq, if_neg (not_not.2 (hdecimal.trans (h.runPiece_taken hc).symm)), if_pos hstart,
    if_pos hsuffix]
  refine ⟨rfl, ?_⟩
  simp only [Piece.lexeme, timeframePiece, unitPiece, Piece.andThen]
  rw [hdecimal, hrest, hword, hwordRest]

end HasUnit

theorem number_plain (hc : isDigit c) (hunit : ¬∃ d u r, HasUnit (c :: s) d u r) :
    (number c s).kind = .number ∧ (number c s).text = (decimalPiece (c :: s)).taken := by
  rw [number_eq]
  split
  · exact ⟨rfl, rfl⟩
  · rename_i hdigits
    rw [ne_eq, not_not] at hdigits
    split
    · rename_i hstart
      split
      · rename_i hsuffix
        -- The digits and the word behind them would be digits with a unit.
        exfalso
        have hcut := decimalPiece_isReader.cuts (c :: s)
        rw [hdigits] at hcut
        have hrest : (decimalPiece (c :: s)).rest = (runPiece isDigit (c :: s)).rest :=
          List.append_cancel_left (hcut.trans ((runPiece_isReader isDigit).cuts _).symm)
        rw [hrest] at hstart hsuffix
        obtain ⟨u, hu⟩ := Option.isSome_iff_exists.1 hsuffix
        have hword := runPiece_isWord hstart
        rw [← TimeUnit.suffix_of_ofSuffix? hu] at hword
        refine hunit ⟨(runPiece isDigit (c :: s)).taken, u, _, ?_, ?_, hword⟩
        all_goals
          rw [TimeUnit.suffix_of_ofSuffix? hu, (runPiece_isReader isWordPart).cuts]
        · exact ((runPiece_isReader isDigit).cuts _).symm
        · exact digits_run hc
      · exact ⟨rfl, rfl⟩
    · exact ⟨rfl, rfl⟩

theorem number_longest (hc : isDigit c) (hunit : ¬∃ d u r, HasUnit (c :: s) d u r) :
    IsLongest decimals (number c s).text (c :: s) := by
  have hmem := mem_decimals_of_digitRuns (digits_mem hc (s := s))
  have hlongest := decimals_reads.longest decimalPiece_isReader hmem
    (r := (runPiece isDigit (c :: s)).rest)
  rw [(runPiece_isReader isDigit).cuts] at hlongest
  rw [(number_plain hc hunit).2]
  exact hlongest

end

/-- A digit starts a timeframe if a unit stands directly behind the digits, with all that may follow
a unit, and else the longest number that stands there. -/
theorem tokenAt_digit (p : Text) {c : Char} (hc : isDigit c) (s : Text) :
    ∃ t, tokenAt? (p ++ c :: s) p.bytes = some t ∧ t.start = p.bytes ∧
      (t.kind = .timeframe ↔ ∃ d u r, HasUnit (c :: s) d u r) ∧
      (∀ d u r, HasUnit (c :: s) d u r → ∀ e, Extends r e ↔ t.text = d ++ u.suffix ++ e) ∧
      ((¬∃ d u r, HasUnit (c :: s) d u r) →
        t.kind = .number ∧ IsLongest decimals t.text (c :: s)) := by
  refine ⟨_, tokenAt?_append_cons p c s, rfl, ?_, ?_, ?_⟩
  all_goals rw [lexeme_digit hc, Lexeme.token]
  · constructor
    · intro hkind
      by_contra hunit
      exact absurd ((number_plain hc hunit).1.symm.trans hkind) (by decide)
    · rintro ⟨d, u, r, h⟩
      exact (h.number_timeframe hc).1
  · intro d u r h e
    rw [extends_iff, (h.number_timeframe hc).2, List.append_cancel_left_eq, eq_comm]
  · exact fun hunit => ⟨(number_plain hc hunit).1, number_longest hc hunit⟩

/-- A mark of an exponent with nothing behind its sign is left where it stands, and so is a last
mark that a word goes on with. -/
theorem tokenAt_digit_given_back :
    let s : Text := "1W-FRI-Lastly + 1e+".toList
    (∃ t, tokenAt? s 0 = some t ∧ t.kind = .timeframe ∧ t.text = "1W-FRI".toList) ∧
      ∃ t, tokenAt? s 16 = some t ∧ t.kind = .number ∧ IsLongest decimals t.text "1e+".toList := by
  intro s
  have hunit : HasUnit s "1".toList .week "-FRI-Lastly + 1e+".toList :=
    ⟨by decide, .of_all (by decide) (by decide), by decide, .of_all (by decide) (by decide)⟩
  have hdashed : Dashed "-FRI-Lastly + 1e+".toList (Anchor.word .friday) "-Lastly + 1e+".toList :=
    ⟨by decide, by decide, .of_all (by decide) (by decide)⟩
  have hanchored : Extends "-FRI-Lastly + 1e+".toList "-FRI".toList := by
    apply Extends.anchored hdashed
    intro r h
    have hr : "-Lastly + 1e+".toList.drop 5 = r := congrArg (List.drop 5) h.text
    exact h.word.run.stops 'l' (hr ▸ by decide) (by decide)
  constructor
  · obtain ⟨t, ht, -, hkind, htext, -⟩ :=
      tokenAt_digit [] (by decide : isDigit '1') "W-FRI-Lastly + 1e+".toList
    refine ⟨t, ht, hkind.2 ⟨_, _, _, hunit⟩, ?_⟩
    exact (htext _ _ _ hunit _).1 hanchored
  · obtain ⟨t, ht, -, -, -, hplain⟩ :=
      tokenAt_digit "1W-FRI-Lastly + ".toList (by decide : isDigit '1') "e+".toList
    have hnone : ¬∃ d u r, HasUnit "1e+".toList d u r := by
      rintro ⟨d, u, r, h⟩
      obtain ⟨e, v, hu, -, -, he, -⟩ := suffix_start u
      have hrest : ['e', '+'] = u.suffix ++ r := (h.decimalPiece_taken (by decide)).2
      rw [hu] at hrest
      exact he (List.cons.inj hrest).1.symm
    exact ⟨t, ht, hplain hnone⟩

end ScriptTree.Lexer
