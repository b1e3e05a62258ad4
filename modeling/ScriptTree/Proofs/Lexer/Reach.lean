import ScriptTree.Proofs.Lexer.Spelling

namespace ScriptTree

namespace Lexer

/-! ### No further than the end of the text -/

/-- What is seen of a text ends with it; the end counts as one. -/
def SeesWithin (f : Text → Piece) : Prop := ∀ s, (f s).seen ≤ s.bytes + 1

theorem bytes_run_le (front s : Text) (p : Char → Bool) :
    Text.bytes (front ++ s.takeWhile p) ≤ Text.bytes (front ++ s) := by
  have h := congrArg Text.bytes (List.takeWhile_append_dropWhile (p := p) (l := s))
  simp only [Text.bytes_append] at h ⊢
  omega

theorem two_le_bytes_cons (c : Char) (s : Text) : 2 ≤ Text.bytes (c :: s) + 1 := by
  have := c.utf8Size_pos
  rw [Text.bytes_cons]
  omega

theorem runPiece_seesWithin (p : Char → Bool) : SeesWithin (runPiece p) := by
  intro s
  cases s with
  | nil => exact Nat.le_refl _
  | cons c s => exact Nat.succ_le_succ (bytes_run_le [c] s p)

theorem fraction_seesWithin : SeesWithin fraction := by
  intro s
  cases s with
  | nil => exact Nat.le_refl _
  | cons c s =>
    by_cases hc : c = '.'
    · subst hc
      cases s with
      | nil => exact two_le_bytes_cons '.' []
      | cons d s =>
        rw [fraction_point]
        split
        · exact Nat.succ_le_succ (bytes_run_le ['.', d] s isDigit)
        · exact two_le_bytes_cons '.' (d :: s)
    · rw [fraction_of_ne hc]
      exact Nat.le_add_left ..

theorem exponentAfter_seen_le {front : Text} (hf : front.bytes = front.length) (s : Text) :
    (exponentAfter front s).seen ≤ Text.bytes (front ++ s) + 1 := by
  unfold exponentAfter
  split
  · rw [List.append_nil, hf]
  · rename_i d r
    split
    · have := bytes_run_le (front ++ [d]) r isDigit
      rw [List.append_assoc front [d] r] at this
      exact Nat.succ_le_succ this
    · rw [Text.bytes_append]
      dsimp only
      omega

theorem exponent_seesWithin : SeesWithin exponent := by
  intro s
  cases s with
  | nil => exact Nat.le_refl _
  | cons e s =>
    by_cases he : e = 'e' ∨ e = 'E'
    · cases s with
      | nil =>
        rw [exponent_lone he]
        exact exponentAfter_seen_le (bytes_mark he) []
      | cons d s =>
        by_cases hd : d = '+' ∨ d = '-'
        · rw [exponent_signed he hd]
          exact exponentAfter_seen_le (bytes_mark_sign he hd) s
        · rw [exponent_unsigned he hd]
          exact exponentAfter_seen_le (bytes_mark he) (d :: s)
    · rw [exponent_of_ne he]
      exact Nat.le_add_left ..

theorem dashWord_seesWithin (accept : Text → Bool) : SeesWithin (dashWord accept) := by
  intro s
  cases s with
  | nil => exact Nat.le_refl _
  | cons c s =>
    by_cases hc : c = '-'
    · subst hc
      cases s with
      | nil => exact two_le_bytes_cons '-' []
      | cons d s =>
        rw [dashWord_dash]
        split
        · split <;> exact Nat.succ_le_succ (bytes_run_le ['-', d] s isWordPart)
        · exact two_le_bytes_cons '-' (d :: s)
    · rw [dashWord_of_ne accept hc]
      exact Nat.le_add_left ..

theorem SeesWithin.andThen {f g : Text → Piece} (hr : IsReader f) (hf : SeesWithin f)
    (hg : SeesWithin g) : SeesWithin fun s => (f s).andThen g := by
  intro s
  have hcut := congrArg Text.bytes (hr.cuts s)
  have hnext := hg (f s).rest
  have hfirst := hf s
  rw [Text.bytes_append] at hcut
  simp only [Piece.andThen]
  omega

theorem anchor_seesWithin : SeesWithin anchor := by
  intro s
  have hd := dashWord_seesWithin fun w => (Anchor.ofWord? w).isSome
  have hl := SeesWithin.andThen (dashWord_isReader _) hd (dashWord_seesWithin (· == lastWord))
  unfold anchor
  dsimp only
  split
  · exact hd s
  · exact hl s

theorem decimalPiece_seesWithin : SeesWithin decimalPiece :=
  .andThen ((runPiece_isReader isDigit).andThen fraction_isReader)
    (.andThen (runPiece_isReader isDigit) (runPiece_seesWithin isDigit) fraction_seesWithin)
    exponent_seesWithin

theorem unitPiece_seesWithin : SeesWithin unitPiece :=
  .andThen decimalPiece_isReader decimalPiece_seesWithin (runPiece_seesWithin isWordPart)

theorem timeframePiece_seesWithin : SeesWithin timeframePiece :=
  .andThen unitPiece_isReader unitPiece_seesWithin anchor_seesWithin

theorem number_reach_le (c : Char) (s : Text) : (number c s).reach ≤ Text.bytes (c :: s) + 1 := by
  rw [number_eq]
  split
  · exact decimalPiece_seesWithin (c :: s)
  · split
    · split
      · exact timeframePiece_seesWithin (c :: s)
      · exact unitPiece_seesWithin (c :: s)
    · exact decimalPiece_seesWithin (c :: s)

/-- The bytes that are counted for a string: those of its text, and one more if it is open. -/
theorem string_reach (opening : Text) (body : Cut × Bool) :
    (string opening body).text.bytes ≤ (string opening body).reach ∧
      (string opening body).reach ≤ (string opening body).text.bytes + 1 := by
  simp only [string]
  split
  · exact ⟨Nat.le_refl _, Nat.le_succ _⟩
  · exact ⟨Nat.le_succ _, Nat.le_refl _⟩

theorem doubleQuoted_reach (s : Text) :
    (doubleQuoted s).text.bytes ≤ (doubleQuoted s).reach ∧
      (doubleQuoted s).reach ≤ (doubleQuoted s).text.bytes + 1 := by
  unfold doubleQuoted
  split
  · exact string_reach ..
  · exact ⟨Nat.le_succ 2, Nat.le_refl 3⟩
  · exact string_reach ..

theorem lexeme_reach_le (c : Char) (s : Text) : (lexeme c s).reach ≤ Text.bytes (c :: s) + 1 := by
  have htext : (lexeme c s).text.bytes ≤ Text.bytes (c :: s) := by
    rw [← lexeme_text_append_rest c s, Text.bytes_append]
    exact Nat.le_add_right ..
  have htwo := two_le_bytes_cons c s
  have hrun (p : Char → Bool) : Text.bytes (c :: s.takeWhile p) + 1 ≤ Text.bytes (c :: s) + 1 :=
    Nat.succ_le_succ (bytes_run_le [c] s p)
  revert htext
  refine lexeme_cases (motive := fun l => l.text.bytes ≤ _ → l.reach ≤ _) c s ?newline
    ?carriageReturn ?blank ?comment ?doubleQuoted ?quoted ?number ?word ?operator ?mark
  case newline => exact fun _ _ => Nat.le_add_left ..
  case carriageReturn => exact fun _ _ => (joined_reach ..).trans_le htwo
  case blank => exact fun _ _ => hrun _
  case comment => exact fun _ _ => hrun _
  case doubleQuoted => exact fun _ h => (doubleQuoted_reach s).2.trans (Nat.succ_le_succ h)
  case quoted => exact fun _ h => (string_reach ..).2.trans (Nat.succ_le_succ h)
  case number => exact fun _ _ => number_reach_le c s
  case word => exact fun _ _ _ => hrun _
  case operator => exact fun _ _ _ _ => (joined_reach ..).trans_le htwo
  case mark => exact fun _ _ _ _ => Nat.le_add_left ..

end Lexer

/-! ### At least as far as the token itself -/

/-- The error that a character makes which starts no token, if it takes more than one byte. -/
def IsWideError (k : Kind) (s : Text) : Prop := k = .error ∧ ∃ c, s = [c] ∧ 1 < c.utf8Size

/-- All bytes of the text are counted, unless it is a wide error, of which the first byte is. -/
structure Lexeme.Covered (l : Lexeme) : Prop where
  text_le : ¬IsWideError l.kind l.text → l.text.bytes ≤ l.reach
  wide : IsWideError l.kind l.text → l.reach = 1

/-- A lexeme is no wide error if its kind is no error, or its first character takes one byte. -/
theorem Lexeme.Covered.of_le {l : Lexeme} (h : l.text.bytes ≤ l.reach)
    (hl : l.kind ≠ .error ∨ ∃ c s, l.text = c :: s ∧ c.utf8Size = 1) : l.Covered where
  text_le _ := h
  wide hw := by
    obtain ⟨hk, d, hd, hwide⟩ := hw
    rcases hl with hl | ⟨c, s, hs, hc⟩
    · exact absurd hk hl
    · rw [hd] at hs
      obtain ⟨rfl, -⟩ := List.cons.inj hs
      omega

namespace Lexer

theorem joined_covered {c : Char} (hc : c.utf8Size = 1) {table : List (Char × Kind)}
    (ht : ∀ e ∈ table, e.1.utf8Size = 1) (alone : Kind) (s : Text) :
    (joined c s table alone).Covered := by
  refine joined_cases c s table alone (fun r => ?_) fun d k r hd => ?_
  · exact .of_le (by simp [hc]) (.inr ⟨c, [], rfl, hc⟩)
  · have hsize : d.utf8Size = 1 := ht (d, k) hd
    exact .of_le (by simp [hc, hsize]) (.inr ⟨c, [d], rfl, hc⟩)

theorem utf8Size_of_mem_operator? {c : Char} {table : List (Char × Kind)} {alone : Kind}
    (h : operator? c = some (table, alone)) : ∀ e ∈ table, e.1.utf8Size = 1 := by
  unfold operator? at h
  split at h <;> simp only [Option.some.injEq, Prod.mk.injEq, reduceCtorEq] at h
  all_goals
    obtain ⟨rfl, -⟩ := h
    decide

theorem utf8Size_of_mark? {c : Char} {k : Kind} (h : mark? c = some k) : c.utf8Size = 1 := by
  unfold mark? at h
  split at h <;> first | rfl | simp at h

theorem string_covered {c : Char} (hc : c.utf8Size = 1) (opening : Text) (body : Cut × Bool) :
    (string (c :: opening) body).Covered := by
  refine .of_le (string_reach _ body).1 (.inr ⟨c, opening ++ body.1.taken, ?_, hc⟩)
  simp only [string]
  split <;> rfl

theorem doubleQuoted_covered (s : Text) : (doubleQuoted s).Covered := by
  unfold doubleQuoted
  split
  · exact string_covered rfl ..
  · exact .of_le (Nat.le_succ 2) (.inl (by simp))
  · exact string_covered rfl ..

theorem bytes_le_reach_number (c : Char) (s : Text) :
    (number c s).text.bytes ≤ (number c s).reach := by
  have hdecimal := (decimalPiece_isReader.sees (c :: s)).le
  rw [number_eq]
  split
  · exact hdecimal
  · split
    · split
      · exact (timeframePiece_isReader.sees (c :: s)).le
      · exact hdecimal.trans (Nat.le_max_left ..)
    · exact hdecimal

theorem keyword?_ne_error (w : Text) : (keyword? w).getD .identifier ≠ .error := by
  unfold keyword?
  repeat' split
  all_goals decide

theorem lexeme_covered (c : Char) (s : Text) : (lexeme c s).Covered := by
  refine lexeme_cases (motive := Lexeme.Covered) c s ?newline
    ?carriageReturn ?blank ?comment ?doubleQuoted ?quoted ?number ?word ?operator ?mark
  case newline =>
    intro hc
    rw [hc]
    exact .of_le (Nat.le_refl 1) (.inl nofun)
  case carriageReturn => exact fun hc => joined_covered (by rw [hc]; rfl) (by decide) _ s
  case blank => exact fun _ => .of_le (Nat.le_succ _) (.inl nofun)
  case comment => exact fun _ => .of_le (Nat.le_succ _) (.inl nofun)
  case doubleQuoted => exact fun _ => doubleQuoted_covered s
  case quoted => exact fun hc => string_covered (by rw [hc]; rfl) [] _
  case number =>
    intro _
    refine .of_le (bytes_le_reach_number c s) (.inl ?_)
    rcases number_kind c s with hk | hk <;> rw [hk] <;> decide
  case word => exact fun _ _ => .of_le (Nat.le_succ _) (.inl (keyword?_ne_error _))
  case operator =>
    intro table alone h
    exact joined_covered (utf8Size_of_operator? h) (utf8Size_of_mem_operator? h) alone s
  case mark =>
    intro _ _ _
    by_cases hc : c.utf8Size = 1
    · exact .of_le (by simp [hc]) (.inr ⟨c, [], rfl, hc⟩)
    · -- No mark takes more than one byte, so the character starts no token.
      have hmark : mark? c = none := by
        cases hm : mark? c with
        | none => rfl
        | some k => exact absurd (utf8Size_of_mark? hm) hc
      have hwide : IsWideError .error [c] := ⟨rfl, c, rfl, by have := c.utf8Size_pos; omega⟩
      rw [hmark]
      exact ⟨fun hw => absurd hwide hw, fun _ => rfl⟩

/-- The lookahead of a token lies at most one byte behind the end of the text, and not before the end
of the token; but for a character that starts no token only its first byte is counted. -/
theorem lookahead_tokens (s : Text) : ∀ t ∈ tokens s,
    t.lookahead ≤ s.bytes + 1 ∧ (¬IsWideError t.kind t.text → t.stop ≤ t.lookahead) ∧
      (IsWideError t.kind t.text → t.lookahead = t.start + 1) := by
  intro t ht
  obtain ⟨p, c, r, rfl, rfl⟩ := exists_of_mem_scan ht
  have hreach := lexeme_reach_le c r
  have hcovered := lexeme_covered c r
  refine ⟨?_, fun hw => ?_, fun hw => ?_⟩
  · rw [Text.bytes_append, Lexeme.token]
    dsimp only
    omega
  · exact Nat.add_le_add_left (hcovered.text_le hw) _
  · exact congrArg _ (hcovered.wide hw)

/-- All of a word is looked at for an anchor that it is not; and a wide error behind it. -/
theorem lookahead_tokens_anchor :
    let s : Text := "1D-MONX🎉".toList
    let t : Token := ⟨.timeframe, "1D".toList, 0, 8⟩
    let u : Token := ⟨.error, "🎉".toList, 7, 8⟩
    t ∈ tokens s ∧ u ∈ tokens s ∧
      (t.lookahead ≤ s.bytes + 1 ∧ t.stop ≤ t.lookahead) ∧ u.lookahead = u.start + 1 := by
  intro s t u
  have ht : t ∈ tokens s := by decide +kernel
  have hu : u ∈ tokens s := by decide +kernel
  have hword : ¬IsWideError t.kind t.text := by rintro ⟨hk, -⟩; cases hk
  have hwide : IsWideError u.kind u.text := ⟨rfl, _, rfl, by decide⟩
  obtain ⟨hle, hcovered, -⟩ := lookahead_tokens s t ht
  exact ⟨ht, hu, ⟨hle, hcovered hword⟩, (lookahead_tokens s u hu).2.2 hwide⟩

/-- The lookahead of a token may lie before its end. -/
theorem exists_lookahead_lt_stop :
    ¬∀ s, ∀ t ∈ tokens s, t.stop ≤ t.lookahead ∧ t.lookahead ≤ s.bytes + 1 := by
  intro h
  have hmem : (⟨.error, "🎉".toList, 0, 1⟩ : Token) ∈ tokens "🎉".toList := by decide +kernel
  exact absurd (h _ _ hmem).1 (by decide)

end Lexer

end ScriptTree
