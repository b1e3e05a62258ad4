import ScriptTree.Proofs.Text.Bytes
import ScriptTree.Token.Lexer

namespace ScriptTree

namespace Lexer

/-- The same piece of two texts of which one ends in `r` and the other in `r'`. -/
structure Piece.Agrees (r r' : Text) (p q : Piece) : Prop where
  taken : q.taken = p.taken
  seen : q.seen = p.seen
  rest : ∃ u, p.rest = u ++ r ∧ q.rest = u ++ r'

/-- A reader of pieces: it cuts the text in two, sees the character after what it takes, and depends
only on what it sees. -/
structure IsReader (f : Text → Piece) : Prop where
  cuts (s : Text) : (f s).taken ++ (f s).rest = s
  sees (s : Text) : (f s).taken.bytes < (f s).seen
  agrees {m r : Text} (r' : Text) (h : (f (m ++ r)).seen ≤ m.bytes) :
    (f (m ++ r)).Agrees r r' (f (m ++ r'))

theorem Piece.Agrees.nil {r r' : Text} (u : Text) (n : Nat) :
    Piece.Agrees r r' ⟨⟨[], u ++ r⟩, n⟩ ⟨⟨[], u ++ r'⟩, n⟩ := ⟨rfl, rfl, u, rfl, rfl⟩

/-- What a reader sees of a text that is cut after `m` lies behind what it takes. -/
theorem IsReader.exists_rest {f : Text → Piece} (hf : IsReader f) {m r : Text}
    (h : (f (m ++ r)).seen ≤ m.bytes) :
    ∃ c u, m = (f (m ++ r)).taken ++ c :: u ∧ (f (m ++ r)).rest = c :: u ++ r := by
  have hs := hf.sees (m ++ r)
  obtain ⟨u, hm, hr⟩ := Text.append_eq_of_bytes_le (hf.cuts (m ++ r)) (by omega)
  cases u with
  | nil =>
    have := congrArg Text.bytes hm
    simp only [List.append_nil] at this
    omega
  | cons c u => exact ⟨c, u, hm, hr⟩

theorem exists_not_of_run {p : Char → Bool} {m r : Text} (front : Text)
    (h : Text.bytes (front ++ (m ++ r).takeWhile p) + 1 ≤ Text.bytes (front ++ m)) :
    ∃ c ∈ m, ¬p c := by
  simp only [Text.bytes_append] at h
  exact Text.exists_not_of_bytes_lt (r := r) (by omega)

theorem run_agrees {p : Char → Bool} {m r : Text} (front r' : Text)
    (h : Text.bytes (front ++ (m ++ r).takeWhile p) + 1 ≤ Text.bytes (front ++ m)) :
    Piece.Agrees r r'
      ⟨⟨front ++ (m ++ r).takeWhile p, (m ++ r).dropWhile p⟩,
        Text.bytes (front ++ (m ++ r).takeWhile p) + 1⟩
      ⟨⟨front ++ (m ++ r').takeWhile p, (m ++ r').dropWhile p⟩,
        Text.bytes (front ++ (m ++ r').takeWhile p) + 1⟩ := by
  have hnot := exists_not_of_run front h
  simp only [Text.takeWhile_append_of_not hnot, Text.dropWhile_append_of_not hnot]
  exact ⟨rfl, rfl, _, rfl, rfl⟩

/-- A reader sees a character, so only texts that start with one need be compared. -/
theorem IsReader.of_cons {f : Text → Piece} (hc : ∀ s, (f s).taken ++ (f s).rest = s)
    (hs : ∀ s, (f s).taken.bytes < (f s).seen)
    (ha : ∀ (c : Char) (m r r' : Text), (f (c :: m ++ r)).seen ≤ Text.bytes (c :: m) →
      (f (c :: m ++ r)).Agrees r r' (f (c :: m ++ r'))) : IsReader f where
  cuts := hc
  sees := hs
  agrees {m r} r' h := by
    cases m with
    | nil =>
      have := hs ([] ++ r)
      simp only [Text.bytes_nil] at h
      omega
    | cons c m => exact ha c m r r' h

theorem fraction_of_ne {c : Char} (h : c ≠ '.') (s : Text) : fraction (c :: s) = ⟨⟨[], c :: s⟩, 1⟩ := by
  unfold fraction
  split <;> simp_all

theorem fraction_point (d : Char) (s : Text) :
    fraction ('.' :: d :: s) =
      if isDigit d then
        ⟨⟨['.', d] ++ s.takeWhile isDigit, s.dropWhile isDigit⟩,
          Text.bytes (['.', d] ++ s.takeWhile isDigit) + 1⟩
      else ⟨⟨[], '.' :: d :: s⟩, 2⟩ := rfl

theorem two_le_seen_fraction (s : Text) : 2 ≤ (fraction ('.' :: s)).seen := by
  cases s with
  | nil => exact Nat.le_refl 2
  | cons d s =>
    rw [fraction_point]
    split
    · simp only [List.cons_append, Text.bytes_cons]
      have : ('.').utf8Size = 1 := rfl
      omega
    · exact Nat.le_refl 2

theorem fraction_isReader : IsReader fraction := by
  apply IsReader.of_cons fraction_taken_append_rest
  · intro s
    unfold fraction
    split
    · split
      · exact Nat.lt_succ_self _
      · exact Nat.zero_lt_two
    · exact Nat.zero_lt_two
    · exact Nat.zero_lt_one
  · intro c m r r' h
    by_cases hc : c = '.'
    · subst hc
      cases m with
      | nil => exact absurd ((two_le_seen_fraction r).trans h) (by decide)
      | cons d m =>
        simp only [List.cons_append, fraction_point d] at h ⊢
        split
        · rename_i hd
          rw [if_pos hd] at h
          exact run_agrees ['.', d] r' h
        · exact .nil ('.' :: d :: m) 2
    · simp only [List.cons_append, fraction_of_ne hc]
      exact .nil (c :: m) 1

def exponentAfter (front s : Text) : Piece :=
  match s with
  | [] => ⟨⟨[], front⟩, front.length + 1⟩
  | d :: r =>
    if isDigit d then
      ⟨⟨front ++ [d] ++ r.takeWhile isDigit, r.dropWhile isDigit⟩,
        Text.bytes (front ++ [d] ++ r.takeWhile isDigit) + 1⟩
    else ⟨⟨[], front ++ d :: r⟩, front.length + 1⟩

theorem exponent_of_ne {e : Char} (he : ¬(e = 'e' ∨ e = 'E')) (s : Text) :
    exponent (e :: s) = ⟨⟨[], e :: s⟩, 1⟩ := by
  have : exponentMark (e :: s) = [] := by
    unfold exponentMark
    split <;> simp_all
  simp [exponent, this]

theorem exponent_lone {e : Char} (he : e = 'e' ∨ e = 'E') : exponent [e] = exponentAfter [e] [] := by
  simp [exponent, exponentMark, exponentAfter, he]

theorem exponent_signed {e d : Char} (he : e = 'e' ∨ e = 'E') (hd : d = '+' ∨ d = '-') (s : Text) :
    exponent (e :: d :: s) = exponentAfter [e, d] s := by
  have : exponentMark (e :: d :: s) = [e, d] := by
    rcases hd with rfl | rfl <;> simp [exponentMark, he]
  cases s <;> simp [exponent, this, exponentAfter]

theorem exponent_unsigned {e d : Char} (he : e = 'e' ∨ e = 'E') (hd : ¬(d = '+' ∨ d = '-'))
    (s : Text) : exponent (e :: d :: s) = exponentAfter [e] (d :: s) := by
  have : exponentMark (e :: d :: s) = [e] := by
    unfold exponentMark
    split <;> grind
  simp [exponent, this, exponentAfter]

theorem lt_seen_exponentAfter {front : Text} (hf : front.bytes = front.length) (s : Text) :
    front.bytes < (exponentAfter front s).seen := by
  unfold exponentAfter
  split
  · exact hf ▸ Nat.lt_succ_self _
  · split
    · simp only [Text.bytes_append]
      omega
    · exact hf ▸ Nat.lt_succ_self _

theorem exponentAfter_agrees {front m r : Text} (hf : front.bytes = front.length) (r' : Text)
    (h : (exponentAfter front (m ++ r)).seen ≤ Text.bytes (front ++ m)) :
    (exponentAfter front (m ++ r)).Agrees r r' (exponentAfter front (m ++ r')) := by
  cases m with
  | nil =>
    have hs := lt_seen_exponentAfter hf r
    simp only [List.nil_append, List.append_nil] at h
    omega
  | cons d m =>
    simp only [exponentAfter, List.cons_append] at h ⊢
    split
    · rename_i hd
      rw [if_pos hd] at h
      exact run_agrees (front ++ [d]) r' (by simpa using h)
    · exact ⟨rfl, rfl, front ++ d :: m, by simp, by simp⟩

theorem bytes_mark {e : Char} (he : e = 'e' ∨ e = 'E') : Text.bytes [e] = 1 := by
  rcases he with rfl | rfl <;> rfl

theorem bytes_mark_sign {e d : Char} (he : e = 'e' ∨ e = 'E') (hd : d = '+' ∨ d = '-') :
    Text.bytes [e, d] = 2 := by
  rcases he with rfl | rfl <;> rcases hd with rfl | rfl <;> rfl

theorem two_le_seen_exponent {e : Char} (he : e = 'e' ∨ e = 'E') (s : Text) :
    2 ≤ (exponent (e :: s)).seen := by
  cases s with
  | nil =>
    rw [exponent_lone he]
    exact Nat.le_refl 2
  | cons d s =>
    by_cases hd : d = '+' ∨ d = '-'
    · have := lt_seen_exponentAfter (bytes_mark_sign he hd) s
      rw [← exponent_signed he hd, bytes_mark_sign he hd] at this
      omega
    · have := lt_seen_exponentAfter (bytes_mark he) (d :: s)
      rwa [← exponent_unsigned he hd, bytes_mark he] at this

theorem exponent_isReader : IsReader exponent := by
  apply IsReader.of_cons exponent_taken_append_rest
  · intro s
    unfold exponent
    dsimp only
    split
    · exact Nat.zero_lt_one
    · split
      · exact Nat.succ_pos _
      · split
        · exact Nat.lt_succ_self _
        · exact Nat.succ_pos _
  · intro e m r r' h
    by_cases he : e = 'e' ∨ e = 'E'
    · cases m with
      | nil =>
        have := (two_le_seen_exponent he r).trans h
        rw [bytes_mark he] at this
        omega
      | cons d m =>
        simp only [List.cons_append] at h ⊢
        by_cases hd : d = '+' ∨ d = '-'
        · rw [exponent_signed he hd] at h ⊢
          rw [exponent_signed he hd]
          exact exponentAfter_agrees (bytes_mark_sign he hd) r' h
        · rw [exponent_unsigned he hd] at h ⊢
          rw [exponent_unsigned he hd]
          exact exponentAfter_agrees (m := d :: m) (bytes_mark he) r' h
    · simp only [List.cons_append, exponent_of_ne he]
      exact .nil (e :: m) 1

theorem dashWord_of_ne (accept : Text → Bool) {c : Char} (hc : c ≠ '-') (s : Text) :
    dashWord accept (c :: s) = ⟨⟨[], c :: s⟩, 1⟩ := by
  unfold dashWord
  split <;> simp_all

theorem dashWord_dash (accept : Text → Bool) (c : Char) (s : Text) :
    dashWord accept ('-' :: c :: s) =
      if isWordStart c then
        if accept (c :: s.takeWhile isWordPart) then
          ⟨⟨['-', c] ++ s.takeWhile isWordPart, s.dropWhile isWordPart⟩,
            Text.bytes (['-', c] ++ s.takeWhile isWordPart) + 1⟩
        else ⟨⟨[], '-' :: c :: s⟩, Text.bytes (['-', c] ++ s.takeWhile isWordPart) + 1⟩
      else ⟨⟨[], '-' :: c :: s⟩, 2⟩ := rfl

theorem two_le_seen_dashWord (accept : Text → Bool) (s : Text) :
    2 ≤ (dashWord accept ('-' :: s)).seen := by
  cases s with
  | nil => exact Nat.le_refl 2
  | cons c s =>
    have h1 : ('-').utf8Size = 1 := rfl
    have h2 : 2 ≤ Text.bytes (['-', c] ++ s.takeWhile isWordPart) + 1 := by
      simp only [List.cons_append, Text.bytes_cons]
      omega
    rw [dashWord_dash]
    split
    · split <;> exact h2
    · exact Nat.le_refl 2

theorem dashWord_isReader (accept : Text → Bool) : IsReader (dashWord accept) := by
  apply IsReader.of_cons (dashWord_taken_append_rest accept)
  · intro s
    unfold dashWord
    split
    · split
      · dsimp only
        split
        · exact Nat.lt_succ_self _
        · exact Nat.succ_pos _
      · exact Nat.zero_lt_two
    · exact Nat.zero_lt_two
    · exact Nat.zero_lt_one
  · intro c m r r' h
    by_cases hc : c = '-'
    · subst hc
      cases m with
      | nil => exact absurd ((two_le_seen_dashWord accept r).trans h) (by decide)
      | cons d m =>
        simp only [List.cons_append, dashWord_dash accept d] at h ⊢
        split
        · rename_i hd
          rw [if_pos hd] at h
          -- Accepted or not, the whole word is seen.
          have hnot : ∃ x ∈ m, ¬isWordPart x := by
            split at h <;> exact exists_not_of_run ['-', d] h
          simp only [Text.takeWhile_append_of_not hnot, Text.dropWhile_append_of_not hnot]
          split
          · exact ⟨rfl, rfl, _, rfl, rfl⟩
          · exact .nil ('-' :: d :: m) _
        · exact .nil ('-' :: d :: m) 2
    · simp only [List.cons_append, dashWord_of_ne accept hc]
      exact .nil (c :: m) 1

theorem IsReader.andThen {f g : Text → Piece} (hf : IsReader f) (hg : IsReader g) :
    IsReader fun s => (f s).andThen g where
  cuts s := by rw [andThen_taken_append_rest (hg.cuts _), hf.cuts]
  sees s := by
    have := hg.sees (f s).rest
    simp only [Piece.andThen, Text.bytes_append]
    omega
  agrees {m r} r' h := by
    simp only [Piece.andThen] at h
    have hfs : (f (m ++ r)).seen ≤ m.bytes := by omega
    obtain ⟨ht, hn, u, hu, hu'⟩ := hf.agrees r' hfs
    have hm : m = (f (m ++ r)).taken ++ u := by
      have := hf.cuts (m ++ r)
      rw [hu, ← List.append_assoc] at this
      exact (List.append_cancel_right this).symm
    have hb := congrArg Text.bytes hm
    rw [Text.bytes_append] at hb
    rw [hu] at h
    obtain ⟨ht', hn', v, hv, hv'⟩ := hg.agrees (r := r) (m := u) r' (by omega)
    simp only [Piece.andThen, hu, hu']
    exact ⟨by simp [ht, ht'], by simp [ht, hn, hn'], v, hv, hv'⟩

theorem anchor_isReader : IsReader anchor := by
  have hd := dashWord_isReader fun w => (Anchor.ofWord? w).isSome
  have hl := hd.andThen (dashWord_isReader (· == lastWord))
  refine ⟨anchor_taken_append_rest, fun s => ?_, fun {m r} r' h => ?_⟩
  · unfold anchor
    dsimp only
    split
    · exact hd.sees s
    · exact hl.sees s
  · unfold anchor at h ⊢
    dsimp only at h ⊢
    split at h
    · rename_i hnil
      have ha := hd.agrees r' h
      rw [if_pos hnil, if_pos (ha.taken.trans hnil)]
      exact ha
    · rename_i hnil
      have hs : (dashWord (fun w => (Anchor.ofWord? w).isSome) (m ++ r)).seen ≤ m.bytes := by
        simp only [Piece.andThen] at h
        omega
      rw [if_neg hnil, if_neg fun hn => hnil ((hd.agrees r' hs).taken.symm.trans hn)]
      exact hl.agrees r' h

def runPiece (p : Char → Bool) : Text → Piece
  | [] => ⟨⟨[], []⟩, 1⟩
  | c :: s => ⟨⟨[c] ++ s.takeWhile p, s.dropWhile p⟩, Text.bytes ([c] ++ s.takeWhile p) + 1⟩

theorem runPiece_isReader (p : Char → Bool) : IsReader (runPiece p) := by
  apply IsReader.of_cons
  · intro s
    cases s <;> simp [runPiece]
  · intro s
    cases s with
    | nil => exact Nat.zero_lt_one
    | cons c s => exact Nat.lt_succ_self _
  · intro c m r r' h
    exact run_agrees [c] r' h

def decimalPiece (s : Text) : Piece := ((runPiece isDigit s).andThen fraction).andThen exponent

def unitPiece (s : Text) : Piece := (decimalPiece s).andThen (runPiece isWordPart)

def timeframePiece (s : Text) : Piece := (unitPiece s).andThen anchor

theorem decimalPiece_isReader : IsReader decimalPiece :=
  ((runPiece_isReader isDigit).andThen fraction_isReader).andThen exponent_isReader

theorem unitPiece_isReader : IsReader unitPiece :=
  decimalPiece_isReader.andThen (runPiece_isReader isWordPart)

theorem timeframePiece_isReader : IsReader timeframePiece :=
  unitPiece_isReader.andThen anchor_isReader

def Piece.lexeme (p : Piece) (kind : Kind) : Lexeme := ⟨kind, p.taken, p.rest, p.seen⟩

theorem number_eq (c : Char) (s : Text) :
    number c s =
      if (decimalPiece (c :: s)).taken ≠ (runPiece isDigit (c :: s)).taken then
        (decimalPiece (c :: s)).lexeme .number
      else if (decimalPiece (c :: s)).rest.head?.any isWordStart then
        if (TimeUnit.ofSuffix? (runPiece isWordPart (decimalPiece (c :: s)).rest).taken).isSome then
          (timeframePiece (c :: s)).lexeme .timeframe
        else { (decimalPiece (c :: s)).lexeme .number with reach := (unitPiece (c :: s)).seen }
      else (decimalPiece (c :: s)).lexeme .number := by
  have hd : (runPiece isDigit (c :: s)).taken = c :: s.takeWhile isDigit := rfl
  unfold number
  extract_lets digits decimal plain
  have hdec : decimal = decimalPiece (c :: s) := rfl
  rw [← hdec, hd]
  split
  · rfl
  · split
    · rename_i hr
      simp [hr, plain, Piece.lexeme]
    · rename_i d r hr
      simp only [hr, List.head?_cons, Option.any_some]
      split
      · have hw : (decimal.andThen fun _ => ⟨⟨d :: r.takeWhile isWordPart,
            r.dropWhile isWordPart⟩, Text.bytes (d :: r.takeWhile isWordPart) + 1⟩) =
            unitPiece (c :: s) := by
          simp only [unitPiece, Piece.andThen, ← hdec, hr]
          rfl
        simp only [hw]
        rfl
      · rfl

structure Lexeme.Agrees (r r' : Text) (l l' : Lexeme) : Prop where
  kind : l'.kind = l.kind
  text : l'.text = l.text
  reach : l'.reach = l.reach
  rest : ∃ u, l.rest = u ++ r ∧ l'.rest = u ++ r'

theorem Piece.Agrees.lexeme {r r' : Text} {p q : Piece} (h : p.Agrees r r' q) (kind : Kind) :
    Lexeme.Agrees r r' (p.lexeme kind) (q.lexeme kind) := ⟨rfl, h.taken, h.seen, h.rest⟩

theorem seen_decimalPiece_le_reach (c : Char) (s : Text) :
    (decimalPiece (c :: s)).seen ≤ (number c s).reach := by
  have hu : (decimalPiece (c :: s)).seen ≤ (unitPiece (c :: s)).seen := Nat.le_max_left ..
  have ht : (unitPiece (c :: s)).seen ≤ (timeframePiece (c :: s)).seen := Nat.le_max_left ..
  rw [number_eq]
  split
  · exact Nat.le_refl _
  · split
    · split
      · exact hu.trans ht
      · exact hu
    · exact Nat.le_refl _

theorem number_agrees (c : Char) (m r r' : Text)
    (h : (number c (m ++ r)).reach ≤ Text.bytes (c :: m)) :
    Lexeme.Agrees r r' (number c (m ++ r)) (number c (m ++ r')) := by
  have hs : (decimalPiece (c :: m ++ r)).seen ≤ Text.bytes (c :: m) :=
    (seen_decimalPiece_le_reach c (m ++ r)).trans h
  have hdigits : (runPiece isDigit (c :: m ++ r)).Agrees r r' (runPiece isDigit (c :: m ++ r')) := by
    apply (runPiece_isReader isDigit).agrees
    refine Nat.le_trans ?_ hs
    simp only [decimalPiece, Piece.andThen]
    omega
  have hdec := decimalPiece_isReader.agrees r' hs
  obtain ⟨d, u, hm, hu⟩ := decimalPiece_isReader.exists_rest hs
  have hu' : (decimalPiece (c :: m ++ r')).rest = d :: u ++ r' := by
    obtain ⟨v, hv, hv'⟩ := hdec.rest
    rw [hu] at hv
    rw [hv', ← List.append_cancel_right hv]
  rw [number_eq] at h ⊢
  rw [number_eq]
  simp only [List.cons_append] at hs hdigits hdec hm hu hu'
  simp only [hdec.taken, hdigits.taken, hu, hu', List.head?_cons, Option.any_some] at h ⊢
  split
  · exact hdec.lexeme .number
  · rename_i hsame
    rw [if_neg hsame] at h
    split
    · rename_i hd
      rw [if_pos hd] at h
      have hus : (unitPiece (c :: m ++ r)).seen ≤ Text.bytes (c :: m) := by
        split at h
        · exact Nat.le_trans (Nat.le_max_left ..) h
        · exact h
      have hunit := unitPiece_isReader.agrees r' hus
      have hword : (runPiece isWordPart (d :: u ++ r)).Agrees r r'
          (runPiece isWordPart (d :: u ++ r')) := by
        apply (runPiece_isReader isWordPart).agrees
        have hb := congrArg Text.bytes hm
        simp only [unitPiece, Piece.andThen, List.cons_append, hu] at hus
        rw [Text.bytes_append] at hb
        rw [List.cons_append]
        omega
      simp only [List.cons_append] at hunit hword
      rw [hword.taken]
      split
      · rename_i hsome
        rw [if_pos hsome] at h
        exact (timeframePiece_isReader.agrees (m := c :: m) r' h).lexeme .timeframe
      · exact ⟨rfl, hdec.taken, hunit.seen, hdec.rest⟩
    · exact hdec.lexeme .number

/-- What follows the opening of a string: a closed one is found again before any text, and an open
one before any text that starts with the character that stopped it. -/
structure IsBody (f : Text → Cut × Bool) : Prop where
  cuts (s : Text) : (f s).1.taken ++ (f s).1.rest = s
  closed {s : Text} (h : (f s).2 = true) (r : Text) :
    f ((f s).1.taken ++ r) = (⟨(f s).1.taken, r⟩, true)
  opened {s t : Text} {c : Char} (h : (f s).2 = false) (hr : (f s).1.rest = c :: t) (r : Text) :
    f ((f s).1.taken ++ c :: r) = (⟨(f s).1.taken, c :: r⟩, false)

theorem lineString_break {quote c : Char} (hc : isBreak c) (s : Text) :
    lineString quote (c :: s) = (⟨[], c :: s⟩, false) := by
  rw [lineString.eq_def]
  simp [hc]

theorem lineString_quote {quote : Char} (hb : ¬isBreak quote) (he : quote ≠ '\\') (s : Text) :
    lineString quote (quote :: s) = (⟨[quote], s⟩, true) := by
  rw [lineString.eq_def]
  simp [hb, he]

theorem lineString_plain {quote c : Char} (hb : ¬isBreak c) (he : c ≠ '\\') (hq : c ≠ quote)
    (s : Text) :
    lineString quote (c :: s) =
      (⟨c :: (lineString quote s).1.taken, (lineString quote s).1.rest⟩,
        (lineString quote s).2) := by
  rw [lineString.eq_def]
  simp [hb, he, hq]

theorem lineString_isBody (quote : Char) : IsBody (lineString quote) where
  cuts := lineString_taken_append_rest quote
  closed {s} h r := by
    fun_induction lineString quote s with
    | case1 | case2 | case3 | case4 => simp at h
    | case5 d s hd cut closed hcut ih => simp_all [lineString]
    | case6 s hb he => exact lineString_quote hb he r
    | case7 c s hb he hq cut closed hcut ih =>
      rw [hcut] at ih
      rw [List.cons_append, lineString_plain hb he hq, ih h]
  opened {s t c} h hr r := by
    fun_induction lineString quote s with
    | case1 | case3 => simp at hr
    | case2 d s hd =>
      obtain ⟨rfl, -⟩ := List.cons.inj hr
      exact lineString_break hd r
    | case4 d s hb hd =>
      obtain ⟨rfl, -⟩ := List.cons.inj hr
      simp [lineString, hb, hd]
    | case5 d s hd cut closed hcut ih => simp_all [lineString]
    | case6 => simp at h
    | case7 d s hb he hq cut closed hcut ih =>
      rw [hcut] at ih
      rw [List.cons_append, lineString_plain hb he hq, ih h hr]

theorem blockString_open {s : Text} (h : (blockString s).2 = false) : (blockString s).1.rest = [] := by
  fun_induction blockString s <;> simp_all

theorem three_le_length_of_closed {s : Text} (h : (blockString s).2 = true) :
    3 ≤ (blockString s).1.taken.length := by
  fun_induction blockString s <;> simp_all
  omega

theorem blockString_plain {c : Char} {s : Text}
    (h : ∀ t, c = '\x22' → s = '\x22' :: '\x22' :: t → False) :
    blockString (c :: s) =
      (⟨c :: (blockString s).1.taken, (blockString s).1.rest⟩, (blockString s).2) := by
  rw [blockString.eq_def]
  split <;> simp_all

theorem blockString_isBody : IsBody blockString where
  cuts := blockString_taken_append_rest
  closed {s} h r := by
    fun_induction blockString s with
    | case1 s => rfl
    | case2 => simp at h
    | case3 c s hne cut closed hb ih =>
      have hlen := three_le_length_of_closed (s := s) (by rw [hb]; exact h)
      have hcut := blockString_taken_append_rest s
      rw [hb] at ih hlen hcut
      -- The quotes that would close the string here stand in the part that is taken.
      have hnot : ∀ t, c = '\x22' → cut.taken ++ r = '\x22' :: '\x22' :: t → False := by
        intro t hc ht
        obtain ⟨a, b, k, hk⟩ : ∃ a b k, cut.taken = a :: b :: k := by
          rcases hk : cut.taken with _ | ⟨a, _ | ⟨b, k⟩⟩
          · simp [hk] at hlen
          · simp [hk] at hlen
          · exact ⟨a, b, k, rfl⟩
        simp only [hk, List.cons_append, List.cons.injEq] at ht hcut
        obtain ⟨rfl, rfl, -⟩ := ht
        exact hne _ hc hcut.symm
      rw [List.cons_append, blockString_plain hnot, ih h]
  opened h hr := by simp [blockString_open h] at hr

theorem string_agrees {f : Text → Cut × Bool} (hf : IsBody f) (opening m r r' : Text)
    (h : (string opening (f (m ++ r))).reach ≤ Text.bytes (opening ++ m)) :
    Lexeme.Agrees r r' (string opening (f (m ++ r))) (string opening (f (m ++ r'))) := by
  have hcut := hf.cuts (m ++ r)
  cases hc : (f (m ++ r)).2 with
  | true =>
    simp only [string, hc, if_true, Text.bytes_append] at h
    obtain ⟨u, hm, hu⟩ := Text.append_eq_of_bytes_le hcut (by omega)
    have hr' := hf.closed hc (u ++ r')
    rw [← List.append_assoc, ← hm] at hr'
    simp only [string, hr', hc, if_true]
    exact ⟨rfl, rfl, rfl, u, hu, rfl⟩
  | false =>
    simp only [string, hc, Bool.false_eq_true, if_false, Text.bytes_append] at h
    obtain ⟨u, hm, hu⟩ := Text.append_eq_of_bytes_le hcut (by omega)
    cases u with
    | nil =>
      have := congrArg Text.bytes hm
      simp only [List.append_nil] at this
      omega
    | cons c u =>
      have hr' := hf.opened hc hu (u ++ r')
      rw [← List.cons_append, ← List.append_assoc, ← hm] at hr'
      simp only [string, hr', hc, Bool.false_eq_true, if_false]
      exact ⟨rfl, rfl, rfl, c :: u, hu, rfl⟩

theorem joined_reach (c : Char) (s : Text) (table : List (Char × Kind)) (alone : Kind) :
    (joined c s table alone).reach = 2 := by
  unfold joined
  split
  · rfl
  · split <;> rfl

theorem joined_agrees {c : Char} (hc : c.utf8Size = 1) (table : List (Char × Kind)) (alone : Kind)
    (m r r' : Text) (h : (joined c (m ++ r) table alone).reach ≤ Text.bytes (c :: m)) :
    Lexeme.Agrees r r' (joined c (m ++ r) table alone) (joined c (m ++ r') table alone) := by
  cases m with
  | nil =>
    rw [joined_reach] at h
    exact absurd h (by simp [hc])
  | cons d m =>
    simp only [joined, List.cons_append]
    split
    · exact ⟨rfl, rfl, rfl, m, rfl, rfl⟩
    · exact ⟨rfl, rfl, rfl, d :: m, rfl, rfl⟩

theorem run_lexeme_agrees (kind : Kind) (c : Char) (p : Char → Bool) (m r r' : Text)
    (h : (run kind c (m ++ r) p).reach ≤ Text.bytes (c :: m)) :
    Lexeme.Agrees r r' (run kind c (m ++ r) p) (run kind c (m ++ r') p) :=
  ((runPiece_isReader p).agrees (m := c :: m) r' h).lexeme kind

theorem bytes_le_reach_string (opening : Text) (body : Cut × Bool) :
    opening.bytes ≤ (string opening body).reach := by
  simp only [string]
  split <;> simp only [Text.bytes_append] <;> omega

theorem doubleQuoted_line {s : Text} (h : s.head? ≠ some '\x22') :
    doubleQuoted s = string ['\x22'] (lineString '\x22' s) := by
  unfold doubleQuoted
  split <;> simp_all

theorem doubleQuoted_empty {s : Text} (h : s.head? ≠ some '\x22') :
    doubleQuoted ('\x22' :: s) = ⟨.string, ['\x22', '\x22'], s, 3⟩ := by
  unfold doubleQuoted
  split <;> simp_all

theorem two_le_reach_doubleQuoted (s : Text) : 2 ≤ (doubleQuoted s).reach := by
  unfold doubleQuoted
  split
  · exact Nat.le_trans (by decide) (bytes_le_reach_string ['\x22', '\x22', '\x22'] _)
  · exact Nat.le_succ 2
  · -- A string without characters is open, and an open one sees what stopped it.
    have hne : (lineString '\x22' s).2 = true → (lineString '\x22' s).1.taken ≠ [] := by
      fun_induction lineString '\x22' s <;> simp_all
    simp only [string]
    split
    · have := Text.bytes_pos (hne ‹_›)
      have h1 : ('\x22').utf8Size = 1 := rfl
      simp only [List.cons_append, List.nil_append, Text.bytes_cons]
      omega
    · have h1 : ('\x22').utf8Size = 1 := rfl
      simp only [List.cons_append, Text.bytes_cons]
      omega

theorem three_le_reach_doubleQuoted (s : Text) : 3 ≤ (doubleQuoted ('\x22' :: s)).reach := by
  by_cases h : s.head? = some '\x22'
  · obtain ⟨t, rfl⟩ : ∃ t, s = '\x22' :: t := by
      cases s <;> simp_all
    exact bytes_le_reach_string ['\x22', '\x22', '\x22'] _
  · rw [doubleQuoted_empty h]

theorem doubleQuoted_agrees (m r r' : Text)
    (h : (doubleQuoted (m ++ r)).reach ≤ Text.bytes ('\x22' :: m)) :
    Lexeme.Agrees r r' (doubleQuoted (m ++ r)) (doubleQuoted (m ++ r')) := by
  cases m with
  | nil => exact absurd ((two_le_reach_doubleQuoted r).trans h) (by decide)
  | cons c m =>
    by_cases hc : c = '\x22'
    · subst hc
      cases m with
      | nil => exact absurd ((three_le_reach_doubleQuoted r).trans h) (by decide)
      | cons d m =>
        by_cases hd : d = '\x22'
        · subst hd
          exact string_agrees blockString_isBody ['\x22', '\x22', '\x22'] m r r' h
        · simp only [List.cons_append]
          rw [doubleQuoted_empty (by simp [hd]), doubleQuoted_empty (by simp [hd])]
          exact ⟨rfl, rfl, rfl, d :: m, rfl, rfl⟩
    · simp only [List.cons_append] at h ⊢
      rw [doubleQuoted_line (by simp [hc])] at h ⊢
      rw [doubleQuoted_line (by simp [hc])]
      exact string_agrees (lineString_isBody '\x22') ['\x22'] (c :: m) r r' h

theorem utf8Size_of_operator? {c : Char} {t : List (Char × Kind) × Kind}
    (h : operator? c = some t) : c.utf8Size = 1 := by
  unfold operator? at h
  split at h <;> first | rfl | simp at h

/-- A lexeme of a text is one of every text with the same bytes as far as it reached. -/
theorem lexeme_agrees (c : Char) (m r r' : Text)
    (h : (lexeme c (m ++ r)).reach ≤ Text.bytes (c :: m)) :
    Lexeme.Agrees r r' (lexeme c (m ++ r)) (lexeme c (m ++ r')) := by
  unfold lexeme at h ⊢
  by_cases hn : c = '\n'
  · simp only [if_pos hn]
    exact ⟨rfl, rfl, rfl, m, rfl, rfl⟩
  simp only [if_neg hn] at h ⊢
  by_cases hr : c = '\r'
  · simp only [if_pos hr] at h ⊢
    exact joined_agrees (by rw [hr]; rfl) _ _ m r r' h
  simp only [if_neg hr] at h ⊢
  by_cases hb : Text.isBlank c
  · simp only [if_pos hb] at h ⊢
    exact run_lexeme_agrees _ c _ m r r' h
  simp only [if_neg hb] at h ⊢
  by_cases hc : c = '#'
  · simp only [if_pos hc] at h ⊢
    exact run_lexeme_agrees _ c _ m r r' h
  simp only [if_neg hc] at h ⊢
  by_cases hq : c = '\x22'
  · simp only [if_pos hq] at h ⊢
    subst hq
    exact doubleQuoted_agrees m r r' h
  simp only [if_neg hq] at h ⊢
  by_cases hs : c = '\x27'
  · simp only [if_pos hs] at h ⊢
    exact string_agrees (lineString_isBody c) [c] m r r' h
  simp only [if_neg hs] at h ⊢
  by_cases hd : isDigit c
  · simp only [if_pos hd] at h ⊢
    exact number_agrees c m r r' h
  simp only [if_neg hd] at h ⊢
  by_cases hw : isWordStart c
  · simp only [if_pos hw] at h ⊢
    have ha := run_lexeme_agrees .identifier c isWordPart m r r' h
    exact ⟨by simp only [ha.text], ha.text, ha.reach, ha.rest⟩
  simp only [if_neg hw] at h ⊢
  split
  · rename_i table alone ho
    simp only [ho] at h
    exact joined_agrees (utf8Size_of_operator? ho) table alone m r r' h
  · exact ⟨rfl, rfl, rfl, m, rfl, rfl⟩

end Lexer

end ScriptTree
