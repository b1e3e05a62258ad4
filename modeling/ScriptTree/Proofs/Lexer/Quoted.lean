import ScriptTree.Proofs.Lexer.Line

namespace ScriptTree.Lexer

/-! ### Texts that are one token -/

/-- A text that is one token of a kind. -/
def IsToken (k : Kind) (s : Text) : Prop := ∃ reach, tokens s = [⟨k, s, 0, reach⟩]

theorem isToken_cons {k : Kind} {c : Char} {s : Text} :
    IsToken k (c :: s) ↔ (lexeme c s).kind = k ∧ (lexeme c s).rest = [] := by
  have hcut := lexeme_text_append_rest c s
  rw [IsToken, tokens, scan_cons]
  constructor
  · rintro ⟨reach, h⟩
    obtain ⟨htoken, hrest⟩ := List.cons.inj h
    refine ⟨congrArg Token.kind htoken, ?_⟩
    cases hr : (lexeme c s).rest with
    | nil => rfl
    | cons d r =>
      rw [hr, scan_cons] at hrest
      exact absurd hrest (List.cons_ne_nil _ _)
  · rintro ⟨rfl, hrest⟩
    rw [hrest, List.append_nil] at hcut
    refine ⟨0 + (lexeme c s).reach, ?_⟩
    rw [hrest, scan_nil, Lexeme.token, hcut]

/-! ### Strings on one line -/

inductive LineBody (quote : Char) : Text → Prop
  | nil : LineBody quote []
  | plain {c : Char} {s : Text} : ¬isBreak c → c ≠ '\\' → c ≠ quote → LineBody quote s →
      LineBody quote (c :: s)
  | escaped {c : Char} {s : Text} : ¬isBreak c → LineBody quote s → LineBody quote ('\\' :: c :: s)

theorem lineString_escaped {quote c : Char} (hc : ¬isBreak c) (s : Text) :
    lineString quote ('\\' :: c :: s) =
      (⟨'\\' :: c :: (lineString quote s).1.taken, (lineString quote s).1.rest⟩,
        (lineString quote s).2) := by
  rw [lineString.eq_def]
  simp [hc, (by decide : isBreak '\\' = false)]

theorem LineBody.lineString_eq {q : Char} (hq : isQuote q) {b : Text} (h : LineBody q b)
    (r : Text) : lineString q (b ++ q :: r) = (⟨b ++ [q], r⟩, true) := by
  induction h with
  | nil => exact lineString_quote (isQuote_plain hq).1 (isQuote_plain hq).2 r
  | plain hc he hne _ ih => rw [List.cons_append, lineString_plain hc he hne, ih, List.cons_append]
  | escaped hc _ ih =>
    rw [List.cons_append, List.cons_append, lineString_escaped hc, ih, List.cons_append,
      List.cons_append]

theorem exists_lineBody {quote : Char} {s : Text} (h : (lineString quote s).2 = true) :
    ∃ b, LineBody quote b ∧ (lineString quote s).1.taken = b ++ [quote] := by
  fun_induction lineString quote s with
  | case1 | case2 | case3 | case4 => exact absurd h Bool.false_ne_true
  | case5 d r hd cut closed hcut hbreak ih =>
    rw [hcut] at ih
    obtain ⟨b, hb, htaken⟩ := ih h
    exact ⟨'\\' :: d :: b, .escaped hd hb, congrArg ('\\' :: d :: ·) htaken⟩
  | case6 => exact ⟨[], .nil, rfl⟩
  | case7 c s hc he hne cut closed hcut ih =>
    rw [hcut] at ih
    obtain ⟨b, hb, htaken⟩ := ih h
    exact ⟨c :: b, .plain hc he hne hb, congrArg (c :: ·) htaken⟩

/-- Right behind its opening a string on one line does not go on with a quote. -/
theorem LineBody.head?_ne {quote : Char} (hquote : quote ≠ '\\') {b : Text}
    (h : LineBody quote b) : b.head? ≠ some quote := by
  cases h with
  | nil => exact nofun
  | plain _ _ hne _ => exact fun h => hne (Option.some.inj h)
  | escaped _ _ => exact fun h => hquote (Option.some.inj h).symm

/-! ### Strings between three quotes -/

theorem blockString_close (r : Text) :
    blockString (tripleQuote ++ r) = (⟨tripleQuote, r⟩, true) := rfl

theorem blockString_eq {v : Text} (hinner : ¬tripleQuote <:+: v)
    (hlast : v.getLast? ≠ some '\x22') (r : Text) :
    blockString (v ++ (tripleQuote ++ r)) = (⟨v ++ tripleQuote, r⟩, true) := by
  induction v with
  | nil => exact blockString_close r
  | cons c v ih =>
    -- Three quotes that start at the front would lie in the text, or end it by a quote.
    have hopen : ∀ t, c = '\x22' → v ++ (tripleQuote ++ r) = '\x22' :: '\x22' :: t → False := by
      rintro t rfl ht
      match v with
      | [] => exact hlast rfl
      | [d] =>
        obtain ⟨rfl, -⟩ := List.cons.inj ht
        exact hlast rfl
      | d :: e :: w =>
        simp only [List.cons_append, List.cons.injEq] at ht
        exact hinner ⟨[], w, by rw [ht.1, ht.2.1]; rfl⟩
    have hv : v.getLast? ≠ some '\x22' := by
      intro h
      rw [List.getLast?_cons, h] at hlast
      exact hlast rfl
    rw [List.cons_append, blockString_plain hopen,
      ih (fun h => hinner (List.infix_cons h)) hv, List.cons_append]

theorem exists_block {s : Text} (h : (blockString s).2 = true) :
    ∃ v, (blockString s).1.taken = v ++ tripleQuote := by
  fun_induction blockString s with
  | case1 => exact ⟨[], rfl⟩
  | case2 => exact absurd h Bool.false_ne_true
  | case3 c s hne cut closed hcut ih =>
    rw [hcut] at ih
    obtain ⟨v, hv⟩ := ih h
    exact ⟨c :: v, congrArg (c :: ·) hv⟩

/-! ### Closed strings -/

inductive Quoted : Text → Prop
  | line {q : Char} {b : Text} : isQuote q → LineBody q b → Quoted (q :: (b ++ [q]))
  | block {v : Text} : Quoted (tripleQuote ++ (v ++ tripleQuote))

theorem string_closed (opening : Text) {body : Cut × Bool} (h : body.2 = true) :
    string opening body = ⟨.string, opening ++ body.1.taken, body.1.rest,
      Text.bytes (opening ++ body.1.taken)⟩ := by
  simp [string, h]

theorem string_kind_iff (opening : Text) (body : Cut × Bool) :
    (string opening body).kind = .string ↔ body.2 = true := by
  simp only [string]
  split
  · exact iff_of_true rfl ‹_›
  · exact iff_of_false (by simp) ‹_›

theorem quoted_lineString {q : Char} (hq : isQuote q) {s : Text}
    (h : (string [q] (lineString q s)).kind = .string) :
    Quoted (string [q] (lineString q s)).text := by
  have hclosed := (string_kind_iff _ _).1 h
  obtain ⟨b, hb, htaken⟩ := exists_lineBody hclosed
  rw [string_closed [q] hclosed, htaken]
  exact .line hq hb

theorem quoted_doubleQuoted {s : Text} (h : (doubleQuoted s).kind = .string) :
    Quoted (doubleQuoted s).text := by
  unfold doubleQuoted at h ⊢
  split at h
  · have hclosed := (string_kind_iff _ _).1 h
    obtain ⟨v, htaken⟩ := exists_block hclosed
    rw [string_closed _ hclosed, htaken]
    exact .block
  · exact .line (q := '\x22') (by decide) .nil
  · exact quoted_lineString (by decide) h

/-- A quote that is closed at the end of the text is one token with all that stands between. -/
theorem isToken_line {q : Char} (hq : isQuote q) {b : Text} (h : LineBody q b) :
    IsToken .string (q :: (b ++ [q])) := by
  have hline : string [q] (lineString q (b ++ [q])) = ⟨.string, q :: (b ++ [q]), [],
      Text.bytes (q :: (b ++ [q]))⟩ := by
    have hcut := h.lineString_eq hq []
    rw [string_closed [q] (by rw [hcut]), hcut]
    rfl
  rw [isToken_cons]
  rcases isQuote_iff.1 hq with rfl | rfl
  · have hlexeme : lexeme '\x22' (b ++ ['\x22']) = doubleQuoted (b ++ ['\x22']) := rfl
    rw [hlexeme]
    cases b with
    | nil => exact ⟨rfl, rfl⟩
    | cons c b =>
      have hhead : (c :: b ++ ['\x22']).head? ≠ some '\x22' :=
        h.head?_ne (isQuote_plain hq).2
      rw [doubleQuoted_line hhead, hline]
      exact ⟨rfl, rfl⟩
  · have hlexeme : lexeme '\x27' (b ++ ['\x27']) =
        string ['\x27'] (lineString '\x27' (b ++ ['\x27'])) := rfl
    rw [hlexeme, hline]
    exact ⟨rfl, rfl⟩

theorem isToken_block {v : Text} (hinner : ¬tripleQuote <:+: v)
    (hlast : v.getLast? ≠ some '\x22') :
    IsToken .string (tripleQuote ++ (v ++ tripleQuote)) := by
  have hcut := blockString_eq hinner hlast []
  rw [List.append_nil] at hcut
  have hlexeme : lexeme '\x22' ('\x22' :: '\x22' :: (v ++ tripleQuote)) =
      ⟨.string, tripleQuote ++ (v ++ tripleQuote), [],
        Text.bytes (tripleQuote ++ (v ++ tripleQuote))⟩ := by
    have hclosed : ((⟨v ++ tripleQuote, []⟩, true) : Cut × Bool).2 = true := rfl
    rw [← string_closed tripleQuote hclosed, ← hcut]
    rfl
  exact isToken_cons.2 ⟨congrArg Lexeme.kind hlexeme, congrArg Lexeme.rest hlexeme⟩

end ScriptTree.Lexer
