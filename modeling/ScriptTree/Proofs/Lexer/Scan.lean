import ScriptTree.Proofs.Lexer.Locality

namespace ScriptTree.Lexer

/-- The ways to find a lexeme, told by its first character. -/
@[elab_as_elim]
theorem lexeme_cases {motive : Lexeme → Prop} (c : Char) (s : Text)
    (newline : c = '\n' → motive ⟨.newline, [c], s, 1⟩)
    (carriageReturn : c = '\r' → motive (joined c s [('\n', .newline)] .newline))
    (blank : ¬isBreak c → motive (run .whitespace c s fun d => Text.isBlank d && !isBreak d))
    (comment : c = '#' → motive (run .comment c s fun d => !isBreak d))
    (doubleQuoted : c = '\x22' → motive (doubleQuoted s))
    (quoted : c = '\x27' → motive (string [c] (lineString c s)))
    (number : isDigit c → motive (number c s))
    (word : isWordStart c → ¬Text.isBlank c → motive
      { run .identifier c s isWordPart with
        kind := (keyword? (c :: s.takeWhile isWordPart)).getD .identifier })
    (operator : ∀ table alone, operator? c = some (table, alone) → motive (joined c s table alone))
    (mark : c ≠ '\x22' → c ≠ '\x27' → ¬Text.isBlank c →
      motive ⟨(mark? c).getD .error, [c], s, 1⟩) :
    motive (lexeme c s) := by
  unfold lexeme
  split
  · exact newline ‹_›
  split
  · exact carriageReturn ‹_›
  split
  · exact blank (by simp_all [isBreak])
  split
  · exact comment ‹_›
  split
  · exact doubleQuoted ‹_›
  split
  · exact quoted ‹_›
  split
  · exact number ‹_›
  split
  · exact word ‹_› ‹_›
  split
  · exact operator _ _ ‹_›
  · exact mark ‹_› ‹_› ‹_›

@[elab_as_elim]
theorem joined_cases {motive : Lexeme → Prop} (c : Char) (s : Text) (table : List (Char × Kind))
    (alone : Kind) (lone : ∀ r, motive ⟨alone, [c], r, 2⟩)
    (pair : ∀ d k r, (d, k) ∈ table → motive ⟨k, [c, d], r, 2⟩) :
    motive (joined c s table alone) := by
  unfold joined
  split
  · exact lone []
  · rename_i d r
    split
    · rename_i k hk
      obtain ⟨front, back, hsplit, -⟩ := List.lookup_eq_some_iff.1 hk
      exact pair d k r (by simp [hsplit])
    · exact lone (d :: r)

theorem lexeme_reach_pos (c : Char) (s : Text) : 0 < (lexeme c s).reach := by
  have hjoined (table : List (Char × Kind)) (alone : Kind) : 0 < (joined c s table alone).reach :=
    (joined_reach c s table alone) ▸ Nat.zero_lt_two
  refine lexeme_cases (motive := fun l => 0 < l.reach) c s ?newline ?carriageReturn ?blank ?comment
    ?doubleQuoted ?quoted ?number ?word ?operator ?mark
  case newline => exact fun _ => Nat.zero_lt_one
  case carriageReturn => exact fun _ => hjoined _ _
  case blank => exact fun _ => Nat.succ_pos _
  case comment => exact fun _ => Nat.succ_pos _
  case doubleQuoted =>
    exact fun _ => Nat.lt_of_lt_of_le Nat.zero_lt_two (two_le_reach_doubleQuoted s)
  case quoted =>
    intro _
    have hc := c.utf8Size_pos
    have := bytes_le_reach_string [c] (lineString c s)
    simp only [Text.bytes_cons] at this
    omega
  case number =>
    intro _
    have h := decimalPiece_isReader.sees (c :: s)
    have := seen_decimalPiece_le_reach c s
    omega
  case word => exact fun _ _ => Nat.succ_pos _
  case operator => exact fun _ _ _ => hjoined _ _
  case mark => exact fun _ _ _ => Nat.zero_lt_one

/-- The text `s`, whose first byte has the offset `n`, starts with the tokens and goes on with `r` at
the offset `k`. -/
inductive Lexes : Text → Nat → List Token → Text → Nat → Prop
  | nil (s : Text) (n : Nat) : Lexes s n [] s n
  | cons {c : Char} {s : Text} {n : Nat} {ts : List Token} {r : Text} {k : Nat} :
      Lexes (lexeme c s).rest (n + (lexeme c s).text.bytes) ts r k →
      Lexes (c :: s) n ((lexeme c s).token n :: ts) r k

theorem scan_cons (c : Char) (s : Text) (n : Nat) :
    scan (c :: s) n =
      (lexeme c s).token n :: scan (lexeme c s).rest (n + (lexeme c s).text.bytes) := by
  rw [scan]

theorem scan_nil (n : Nat) : scan [] n = [] := by rw [scan]

namespace Lexes

variable {s r : Text} {n k : Nat} {ts : List Token}

theorem scan_eq (h : Lexes s n ts r k) : scan s n = ts ++ scan r k := by
  induction h with
  | nil => rfl
  | cons _ ih => rw [scan_cons, ih, List.cons_append]

theorem cut (h : Lexes s n ts r k) : ∃ f, s = f ++ r ∧ k = n + f.bytes := by
  induction h with
  | nil s n => exact ⟨[], rfl, rfl⟩
  | @cons c s n ts r k _ ih =>
    obtain ⟨f, hf, hk⟩ := ih
    refine ⟨(lexeme c s).text ++ f, ?_, ?_⟩
    · rw [List.append_assoc, ← hf, lexeme_text_append_rest]
    · rw [hk, Text.bytes_append, Nat.add_assoc]

theorem trans {t : Text} {l : Nat} {us : List Token} (h : Lexes s n ts r k)
    (h' : Lexes r k us t l) : Lexes s n (ts ++ us) t l := by
  induction h with
  | nil => exact h'
  | cons _ ih => exact .cons (ih h')

theorem stop_getLast (h : Lexes s n ts r k) : (ts.getLast?.map Token.stop).getD n = k := by
  induction h with
  | nil => rfl
  | @cons c s n ts r k ht ih =>
    cases ts with
    | nil => exact ih
    | cons t ts =>
      rw [List.getLast?_cons_cons]
      simpa [List.getLast?_cons] using ih

theorem to_end (s : Text) (n : Nat) : Lexes s n (scan s n) [] (n + s.bytes) := by
  fun_induction scan s n with
  | case1 n => exact .nil [] n
  | case2 n c r l ih =>
    have hb := congrArg Text.bytes (lexeme_text_append_rest c r)
    rw [Text.bytes_append] at hb
    have : n + Text.bytes (c :: r) = n + l.text.bytes + l.rest.bytes := by
      rw [← hb, Nat.add_assoc]
    rw [this]
    exact .cons ih

/-- The tokens of a text can be cut anywhere. -/
theorem of_scan_eq {us : List Token} (h : scan s n = ts ++ us) :
    ∃ r k, Lexes s n ts r k ∧ us = scan r k := by
  induction ts generalizing s n with
  | nil => exact ⟨s, n, .nil s n, h.symm⟩
  | cons t ts ih =>
    cases s with
    | nil => simp [scan_nil] at h
    | cons c s =>
      rw [scan_cons, List.cons_append, List.cons.injEq] at h
      obtain ⟨r, k, hl, hu⟩ := ih h.2
      rw [← h.1]
      exact ⟨r, k, .cons hl, hu⟩

end Lexes

/-- No token of a text starts before it, or before the bytes that it looked at. -/
theorem bounds_of_mem_scan {s : Text} {n : Nat} {t : Token} (h : t ∈ scan s n) :
    n ≤ t.start ∧ t.start ≤ t.lookahead := by
  fun_induction scan s n with
  | case1 => simp at h
  | case2 n c r l ih =>
    rcases List.mem_cons.1 h with rfl | h
    · exact ⟨Nat.le_refl _, Nat.le_add_right _ _⟩
    · have := ih h
      exact ⟨by omega, this.2⟩

/-- A token of a text is the lexeme of what stands at some place in it. -/
theorem exists_of_mem_scan {s : Text} {n : Nat} {t : Token} (h : t ∈ scan s n) :
    ∃ (p : Text) (c : Char) (r : Text),
      s = p ++ c :: r ∧ t = (lexeme c r).token (n + p.bytes) := by
  fun_induction scan s n with
  | case1 => exact absurd h List.not_mem_nil
  | case2 n c r l ih =>
    rcases List.mem_cons.1 h with rfl | h
    · exact ⟨[], c, r, rfl, rfl⟩
    · obtain ⟨p, d, u, hrest, rfl⟩ := ih h
      refine ⟨l.text ++ p, d, u, ?_, ?_⟩
      · rw [List.append_assoc, ← hrest, lexeme_text_append_rest]
      · rw [Text.bytes_append, Nat.add_assoc]

/-- A lexeme at another place has moved by the difference of the two. -/
theorem moved_token (l : Lexeme) (n k : Nat) : (l.token n).moved ((k : Int) - n) = l.token k := by
  simp only [Token.moved, Lexeme.token, Token.shift, Token.mk.injEq, true_and]
  omega

/-! ### One token at a place -/

theorem tokenAt?_end (p : Text) : tokenAt? p p.bytes = none := if_pos (Nat.le_refl _)

theorem tokenAt?_append_cons (p : Text) (c : Char) (s : Text) :
    tokenAt? (p ++ c :: s) p.bytes = some ((lexeme c s).token p.bytes) := by
  have hc := c.utf8Size_pos
  have hlt : ¬Text.bytes (p ++ c :: s) ≤ p.bytes := by
    rw [Text.bytes_append, Text.bytes_cons]
    omega
  rw [tokenAt?, if_neg hlt, Text.dropBytes?_append]

/-- The token at a place depends on nothing before the place, and on nothing beyond the bytes that
were looked at for it. -/
theorem tokenAt_local (p p' m r r' : Text) :
    (∀ t, tokenAt? (p ++ m ++ r) p.bytes = some t → t.lookahead ≤ p.bytes + m.bytes →
      tokenAt? (p' ++ m ++ r') p'.bytes = some (t.moved ((p'.bytes : Int) - p.bytes))) ∧
      tokenAt? (p' ++ r) p'.bytes =
        (tokenAt? (p ++ r) p.bytes).map (Token.moved · ((p'.bytes : Int) - p.bytes)) := by
  constructor
  · intro t ht hle
    rw [List.append_assoc] at ht ⊢
    cases m with
    | nil =>
      -- Some byte was looked at, so the lookahead of a token lies behind its start.
      cases r with
      | nil =>
        rw [List.append_nil, List.append_nil, tokenAt?_end] at ht
        simp at ht
      | cons c r =>
        rw [List.nil_append, tokenAt?_append_cons] at ht
        obtain rfl := Option.some.inj ht
        have := lexeme_reach_pos c r
        simp only [Lexeme.token, Text.bytes_nil] at hle
        omega
    | cons c m =>
      rw [List.cons_append, tokenAt?_append_cons] at ht
      obtain rfl := Option.some.inj ht
      have hagrees := lexeme_agrees c m r r' (Nat.le_of_add_le_add_left hle)
      rw [List.cons_append, tokenAt?_append_cons, moved_token]
      simp only [Lexeme.token, hagrees.kind, hagrees.text, hagrees.reach]
  · cases r with
    | nil => rw [List.append_nil, List.append_nil, tokenAt?_end, tokenAt?_end, Option.map_none]
    | cons c r => rw [tokenAt?_append_cons, tokenAt?_append_cons, Option.map_some, moved_token]

/-- A string with a letter of two bytes: nothing behind its closing quote was looked at, so an open
string may follow it. -/
theorem tokenAt_local_string :
    let p : Text := "x = ".toList
    let m : Text := "\"é\"".toList
    let t : Token := ⟨.string, m, 4, 8⟩
    tokenAt? (p ++ m ++ "+ 1".toList) p.bytes = some t ∧ t.lookahead ≤ p.bytes + m.bytes ∧
      tokenAt? ([] ++ m ++ "\"".toList) (Text.bytes []) = some ⟨.string, m, 0, 4⟩ := by
  intro p m t
  have ht : tokenAt? (p ++ m ++ "+ 1".toList) p.bytes = some t := by decide +kernel
  have hle : t.lookahead ≤ p.bytes + m.bytes := by decide
  exact ⟨ht, hle, (tokenAt_local p [] m "+ 1".toList "\"".toList).1 t ht hle⟩

end ScriptTree.Lexer
