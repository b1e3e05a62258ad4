import ScriptTree.Proofs.Lexer.Spelling
import ScriptTree.Proofs.Lexer.Timeframe
import ScriptTree.Proofs.Token.Stored

namespace ScriptTree.Lexer

open Text (IsRun)

def isQuote (c : Char) : Bool := c == '\x22' || c == '\x27'

def tripleQuote : Text := ['\x22', '\x22', '\x22']

/-- The text of an error token, and what follows it. -/
inductive Damage : Text → Text → Prop
  | char {c : Char} {r : Text} : ¬isQuote c → Damage [c] r
  | line {q : Char} {w r : Text} : isQuote q → ¬tripleQuote <+: q :: w →
      IsRun (fun c => !isBreak c) (q :: w) r → Damage (q :: w) r
  | block {w : Text} : Damage (tripleQuote ++ w) []

/-- What a kind says of the line breaks in a text of that kind, and of what follows the text. -/
structure Contained (k : Kind) (w r : Text) : Prop where
  breaks : ∀ b ∈ w, isBreak b → k = .newline ∨ (k = .string ∨ k = .error) ∧ tripleQuote <+: w
  newline : k = .newline → w = ['\n'] ∨ w = ['\r'] ∨ w = ['\r', '\n']
  carriageReturn : w.getLast? = some '\r' → r.head? ≠ some '\n'
  error : k = .error → Damage w r

abbrev IsContained (l : Lexeme) : Prop := Contained l.kind l.text l.rest

theorem isBreak_iff {c : Char} : isBreak c ↔ c = '\n' ∨ c = '\r' := by
  simp [isBreak]

theorem Contained.of_plain {k : Kind} {w r : Text} (htext : ∀ b ∈ w, ¬isBreak b)
    (hkind : k ≠ .newline) (herror : k = .error → Damage w r) : Contained k w r where
  breaks b hb hbreak := absurd hbreak (htext b hb)
  newline h := absurd h hkind
  carriageReturn h := absurd (isBreak_iff.2 (.inr rfl)) (htext _ (List.mem_of_getLast? h))
  error := herror

/-! ### Words, numbers and operators -/

theorem not_isBreak_of_class {p : Char → Bool} (hfeed : ¬p '\n') (hreturn : ¬p '\r') {c : Char}
    (hc : p c) : ¬isBreak c := by
  intro hbreak
  rcases isBreak_iff.1 hbreak with rfl | rfl
  · exact hfeed hc
  · exact hreturn hc

theorem not_isBreak_of_isWordPart {c : Char} (h : isWordPart c) : ¬isBreak c :=
  not_isBreak_of_class (by decide) (by decide) h

theorem not_isBreak_of_isDigit {c : Char} (h : isDigit c) : ¬isBreak c :=
  not_isBreak_of_class (by decide) (by decide) h

theorem not_isBreak_of_decimals {u : Text} (hu : u ∈ decimals) : ∀ c ∈ u, ¬isBreak c := by
  have hdigits {v : Text} (hv : v ∈ digitRuns) : ∀ c ∈ v, ¬isBreak c :=
    fun c hc => not_isBreak_of_isDigit (hv.2 c hc)
  have hbehind {marks : Language Char} (hmarks : ∀ m ∈ marks, ∀ c ∈ m, ¬isBreak c) {v : Text}
      (hv : v ∈ 1 + marks * digitRuns) : ∀ c ∈ v, ¬isBreak c := by
    rw [Language.mem_add, Language.mem_one, Language.mem_mul] at hv
    obtain rfl | ⟨m, hm, w, hw, rfl⟩ := hv
    · exact fun c hc => absurd hc List.not_mem_nil
    · exact List.forall_mem_append.2 ⟨hmarks m hm, hdigits hw⟩
  obtain ⟨m, hm, e, he, rfl⟩ := Language.mem_mul.1 hu
  obtain ⟨d, hd, f, hf, rfl⟩ := Language.mem_mul.1 hm
  rw [List.forall_mem_append, List.forall_mem_append]
  refine ⟨⟨hdigits hd, hbehind ?_ hf⟩, hbehind ?_ he⟩
  · rintro m rfl
    exact List.forall_mem_singleton.2 (by decide)
  · intro m hm
    obtain ⟨a, rfl | rfl, rfl | ⟨d, rfl | rfl, rfl⟩⟩ := mem_exponentMarks.1 hm
    all_goals simp [isBreak]

theorem IsWord.not_isBreak {w r : Text} (h : IsWord w r) : ∀ c ∈ w, ¬isBreak c :=
  fun c hc => not_isBreak_of_isWordPart (h.run.all c hc)

theorem Extends.not_isBreak {r e : Text} (h : Extends r e) : ∀ c ∈ e, ¬isBreak c := by
  have hdash {w : Text} (hw : ∀ c ∈ w, ¬isBreak c) : ∀ c ∈ '-' :: w, ¬isBreak c :=
    List.forall_mem_cons.2 ⟨by decide, hw⟩
  cases h with
  | bare => exact fun c hc => absurd hc List.not_mem_nil
  | anchored h => exact hdash h.word.not_isBreak
  | last h h' =>
    exact List.forall_mem_append.2 ⟨hdash h.word.not_isBreak, hdash h'.word.not_isBreak⟩

theorem contained_number {c : Char} (hc : isDigit c) (s : Text) : IsContained (number c s) := by
  have hkind (h : (number c s).kind = .newline ∨ (number c s).kind = .error) : False := by
    rcases number_kind c s with hk | hk <;> rw [hk] at h <;> exact absurd h (by decide)
  refine Contained.of_plain ?_ (fun h => hkind (.inl h)) (fun h => (hkind (.inr h)).elim)
  by_cases hunit : ∃ d u r, HasUnit (c :: s) d u r
  · obtain ⟨d, u, r, h⟩ := hunit
    have hdigits : ∀ b ∈ d, ¬isBreak b := fun b hb => not_isBreak_of_isDigit (h.digits.all b hb)
    have hanchor : Extends r (anchor r).taken := extends_iff.2 rfl
    rw [(h.number_timeframe hc).2]
    exact List.forall_mem_append.2
      ⟨List.forall_mem_append.2 ⟨hdigits, h.unit.not_isBreak⟩, hanchor.not_isBreak⟩
  · exact not_isBreak_of_decimals (number_longest hc hunit).mem

theorem keyword?_kind (w : Text) :
    (keyword? w).getD .identifier ≠ .newline ∧ (keyword? w).getD .identifier ≠ .error := by
  unfold keyword?
  repeat' split
  all_goals exact ⟨by decide, by decide⟩

theorem mark?_kind (c : Char) : (mark? c).getD .error ≠ .newline := by
  unfold mark?
  split <;> exact by decide

/-- No operator has a line break in it, and only a lone one is an error. -/
theorem contained_operator {c : Char} {table : List (Char × Kind)} {alone : Kind}
    (h : operator? c = some (table, alone)) (s : Text) : IsContained (joined c s table alone) := by
  have htable : ¬isBreak c ∧ ¬isQuote c ∧ alone ≠ .newline ∧
      ∀ e ∈ table, ¬isBreak e.1 ∧ e.2 ≠ .newline ∧ e.2 ≠ .error := by
    unfold operator? at h
    split at h
    all_goals
      simp only [Option.some.injEq, Prod.mk.injEq, reduceCtorEq] at h
    all_goals
      obtain ⟨rfl, rfl⟩ := h
      decide
  obtain ⟨hc, hquote, halone, hjoin⟩ := htable
  have hlone (r : Text) : Contained alone [c] r :=
    .of_plain (List.forall_mem_singleton.2 hc) halone fun _ => .char hquote
  refine joined_cases c s table alone hlone fun d k r h => ?_
  obtain ⟨hd, hnewline, herror⟩ := hjoin (d, k) h
  refine Contained.of_plain ?_ hnewline fun h => absurd h herror
  exact List.forall_mem_cons.2 ⟨hc, List.forall_mem_singleton.2 hd⟩

/-! ### Strings -/

/-- A string on one line has no line break, and stops before one if it is open. -/
theorem lineString_run {quote : Char} (hq : ¬isBreak quote) (s : Text) :
    (∀ c ∈ (lineString quote s).1.taken, ¬isBreak c) ∧
      ((lineString quote s).2 = false → ∀ c ∈ (lineString quote s).1.rest.head?, isBreak c) := by
  have hescape : ¬isBreak '\\' := by decide
  fun_induction lineString quote s with
  | case1 => simp
  | case2 c s hc => simpa using hc
  | case3 => simpa using hescape
  | case4 d r hd hb => exact ⟨by simpa using hescape, fun _ => by simpa using hd⟩
  | case5 d r hd cut closed hcut _ ih =>
    rw [hcut] at ih
    exact ⟨List.forall_mem_cons.2 ⟨hescape, List.forall_mem_cons.2 ⟨hd, ih.1⟩⟩, ih.2⟩
  | case6 => simpa using hq
  | case7 c s hb he hne cut closed hcut ih =>
    rw [hcut] at ih
    exact ⟨List.forall_mem_cons.2 ⟨hb, ih.1⟩, ih.2⟩

/-- An open string does not go on with its quote. -/
theorem lineString_head {quote : Char} (hq : ¬isBreak quote) (he : quote ≠ '\\') {s : Text}
    (h : (lineString quote s).2 = false) : (lineString quote s).1.taken.head? ≠ some quote := by
  intro hhead
  have hcut := lineString_taken_append_rest quote s
  obtain ⟨w, hw⟩ := List.head?_eq_some_iff.1 hhead
  rw [hw, List.cons_append] at hcut
  rw [← hcut, lineString_quote hq he] at h
  exact Bool.noConfusion h

theorem isQuote_iff {q : Char} : isQuote q ↔ q = '\x22' ∨ q = '\x27' := by
  simp [isQuote]

theorem isQuote_plain {q : Char} (hq : isQuote q) : ¬isBreak q ∧ q ≠ '\\' := by
  rcases isQuote_iff.1 hq with rfl | rfl <;> decide

theorem contained_lineString {q : Char} (hq : isQuote q) (s : Text) :
    IsContained (string [q] (lineString q s)) := by
  have hplain := isQuote_plain hq
  obtain ⟨htaken, hstop⟩ := lineString_run hplain.1 s
  have htext : ∀ b ∈ [q] ++ (lineString q s).1.taken, ¬isBreak b :=
    List.forall_mem_cons.2 ⟨hplain.1, htaken⟩
  cases hclosed : (lineString q s).2 with
  | true =>
    simp only [string, hclosed, if_true]
    exact Contained.of_plain htext (by simp) (by simp)
  | false =>
    simp only [string, hclosed, Bool.false_eq_true, if_false]
    refine Contained.of_plain htext (by simp) fun _ => .line hq ?_ ⟨?_, ?_⟩
    · rintro ⟨w, hw⟩
      obtain ⟨rfl, hw⟩ := List.cons.inj hw
      exact lineString_head hplain.1 hplain.2 hclosed (congrArg List.head? hw).symm
    · exact fun b hb => by simpa using htext b hb
    · exact fun b hb => by simpa using hstop hclosed b hb

theorem blockString_closed {s : Text} (h : (blockString s).2 = true) :
    (blockString s).1.taken.getLast? = some '\x22' := by
  fun_induction blockString s with
  | case1 => rfl
  | case2 => exact absurd h Bool.false_ne_true
  | case3 c s hne cut closed hcut ih =>
    rw [hcut] at ih
    rw [List.getLast?_cons, ih h, Option.getD_some]

theorem contained_blockString (s : Text) : IsContained (string tripleQuote (blockString s)) := by
  cases hclosed : (blockString s).2 with
  | true =>
    simp only [string, hclosed, if_true]
    exact {
      breaks := fun _ _ _ => .inr ⟨.inl rfl, List.prefix_append ..⟩
      newline := by simp
      carriageReturn := fun h => by
        rw [List.getLast?_append, blockString_closed hclosed] at h
        exact absurd h (by decide)
      error := by simp }
  | false =>
    simp only [string, hclosed, Bool.false_eq_true, if_false, blockString_open hclosed]
    exact {
      breaks := fun _ _ _ => .inr ⟨.inr rfl, List.prefix_append ..⟩
      newline := by simp
      carriageReturn := by simp
      error := fun _ => .block }

theorem contained_doubleQuoted (s : Text) : IsContained (doubleQuoted s) := by
  unfold doubleQuoted
  split
  · exact contained_blockString _
  · exact Contained.of_plain
      (List.forall_mem_cons.2 ⟨by decide, List.forall_mem_singleton.2 (by decide)⟩) nofun nofun
  · exact contained_lineString (by decide) s

/-! ### Line breaks -/

theorem contained_newline (s : Text) : Contained .newline ['\n'] s where
  breaks _ _ _ := .inl rfl
  newline _ := .inl rfl
  carriageReturn h := absurd h (by decide)
  error h := absurd h (by decide)

theorem contained_carriageReturn (s : Text) :
    IsContained (joined '\r' s [('\n', .newline)] .newline) := by
  have hlone {r : Text} (hr : r.head? ≠ some '\n') : Contained .newline ['\r'] r :=
    ⟨fun _ _ _ => .inl rfl, fun _ => .inr (.inl rfl), fun _ => hr, fun h => absurd h (by decide)⟩
  cases s with
  | nil => exact hlone nofun
  | cons d s =>
    by_cases hd : d = '\n'
    · subst hd
      exact ⟨fun _ _ _ => .inl rfl, fun _ => .inr (.inr rfl), nofun, nofun⟩
    · have hnone : List.lookup d [('\n', Kind.newline)] = none := by
        rw [List.lookup_eq_none_iff]
        simpa using hd
      simp only [joined, hnone]
      exact hlone (by simpa using hd)

theorem run_text_plain {c : Char} (hc : ¬isBreak c) {p : Char → Bool} (hp : ∀ d, p d → ¬isBreak d)
    (k : Kind) (s : Text) : ∀ b ∈ (run k c s p).text, ¬isBreak b :=
  List.forall_mem_cons.2 ⟨hc, fun d hd => hp d (List.mem_takeWhile_imp hd)⟩

theorem lexeme_contained (c : Char) (s : Text) : IsContained (lexeme c s) := by
  refine lexeme_cases c s ?newline ?carriageReturn ?blank ?comment ?doubleQuoted ?quoted ?number
    ?word ?operator ?mark
  case newline =>
    rintro rfl
    exact contained_newline s
  case carriageReturn =>
    rintro rfl
    exact contained_carriageReturn s
  case blank =>
    intro hc
    exact Contained.of_plain (run_text_plain hc (fun d hd => by simp_all) _ s) nofun nofun
  case comment =>
    rintro rfl
    have hplain := run_text_plain (c := '#') (p := fun d => !isBreak d) (by decide)
      (fun d hd => by simpa using hd) .comment s
    exact Contained.of_plain hplain nofun nofun
  case doubleQuoted => exact fun _ => contained_doubleQuoted s
  case quoted =>
    rintro rfl
    exact contained_lineString (by decide) s
  case number => exact fun hc => contained_number hc s
  case word =>
    intro hc _
    have hword := run_text_plain (not_isBreak_of_isWordPart (isWordPart_of_start hc))
      (fun d hd => not_isBreak_of_isWordPart hd) .identifier s
    have hkind := keyword?_kind (c :: s.takeWhile isWordPart)
    exact Contained.of_plain hword hkind.1 fun h => absurd h hkind.2
  case operator => exact fun table alone h => contained_operator h s
  case mark =>
    intro hdouble hsingle hblank
    have hc : ¬isBreak c := by
      apply not_isBreak_of_class (p := fun d => !Text.isBlank d) (by decide) (by decide)
      simpa using hblank
    have hquote : ¬isQuote c := by simp [isQuote, hdouble, hsingle]
    exact Contained.of_plain (List.forall_mem_singleton.2 hc) (mark?_kind c) fun _ => .char hquote

/-! ### Tokens -/

/-- The token that has a character of a text: `a` stands in it before the character and `b` behind the
character, and `u` is what follows the token. -/
structure Owns (s : Text) (n : Nat) (p : Text) (c : Char) (r : Text) (t : Token) (a b u : Text) :
    Prop where
  mem : t ∈ scan s n
  contained : Contained t.kind t.text u
  start : t.start + a.bytes = n + p.bytes
  text : t.text = a ++ c :: b
  behind : r = b ++ u

theorem exists_owner {s : Text} {n : Nat} {p : Text} {c : Char} {r : Text} (h : s = p ++ c :: r) :
    ∃ t a b u, Owns s n p c r t a b u := by
  fun_induction scan s n generalizing p with
  | case1 => exact absurd h (by simp)
  | case2 n d v l =>
    rename_i ih
    have hcut : l.text ++ l.rest = p ++ c :: r := (lexeme_text_append_rest d v).trans h
    -- The character stands behind the first token, or in it.
    have hbehind {w : Text} (hp : p = l.text ++ w) (hrest : l.rest = w ++ c :: r) :
        ∃ t a b u, Owns (d :: v) n p c r t a b u := by
      obtain ⟨t, a, b, u, howns⟩ := ih hrest
      refine ⟨t, a, b, u, ?_, howns.contained, ?_, howns.text, howns.behind⟩
      · rw [scan_cons]
        exact List.mem_cons_of_mem _ howns.mem
      · rw [howns.start, hp, Text.bytes_append, Nat.add_assoc]
    rcases List.append_eq_append_iff.1 hcut with ⟨w, hp, hrest⟩ | ⟨b, htext, hr⟩
    · exact hbehind hp hrest
    · cases b with
      | nil => exact hbehind (w := []) (by simpa using htext.symm) hr.symm
      | cons e b =>
        obtain ⟨rfl, htail⟩ := List.cons.inj hr
        refine ⟨l.token n, p, b, l.rest, ?_, lexeme_contained d v, rfl, htext, htail⟩
        rw [scan_cons]
        exact List.mem_cons_self

section

variable {s : Text} {n : Nat} {p : Text} {c : Char} {r : Text} {t : Token} {a b u : Text}

theorem Owns.covers (h : Owns s n p c r t a b u) {k : Nat} (hk : n + p.bytes ≤ k)
    (hle : k ≤ n + p.bytes + b.bytes) : t.Covers k := by
  have hc := c.utf8Size_pos
  have hstart := h.start
  rw [Token.Covers, Token.stop, h.text, Text.bytes_append, Text.bytes_cons]
  omega

/-- A carriage return before a line feed is in one token with it. -/
theorem Owns.lineFeed (h : Owns s n p '\r' ('\n' :: r) t a b u) : ∃ b', b = '\n' :: b' := by
  have hbehind := h.behind
  cases b with
  | nil =>
    have hlast : t.text.getLast? = some '\r' := by rw [h.text, List.getLast?_concat]
    exact absurd (congrArg List.head? hbehind.symm) (h.contained.carriageReturn hlast)
  | cons d b => exact ⟨b, by rw [(List.cons.inj hbehind).1]⟩

theorem Owns.text_eq (h : Owns s n p '\r' ('\n' :: r) t a b u) (hkind : t.kind = .newline) :
    t.start = n + p.bytes ∧ t.text = ['\r', '\n'] := by
  obtain ⟨b', rfl⟩ := h.lineFeed
  have hlength := congrArg List.length h.text
  simp only [List.length_append, List.length_cons] at hlength
  have hnewline : t.text = ['\r', '\n'] := by
    rcases h.contained.newline hkind with hone | hone | htwo
    · rw [hone, List.length_singleton] at hlength
      omega
    · rw [hone, List.length_singleton] at hlength
      omega
    · exact htwo
  have ha : a = [] := by
    rw [hnewline, List.length_cons, List.length_singleton] at hlength
    exact List.eq_nil_of_length_eq_zero (by omega)
  have hstart := h.start
  rw [ha, Text.bytes_nil, Nat.add_zero] at hstart
  exact ⟨hstart, hnewline⟩

end

/-- No line break is swallowed by what is wrong in its line. A line break is in a newline or between
three quotes, a carriage return and the line feed behind it are one newline, and an error is one
character or a string that is open up to the end of its line, or of the text after three quotes. -/
theorem tokens_contained (s : Text) :
    (∀ (p : Text) (c : Char) (r : Text), s = p ++ c :: r → isBreak c →
      ∃ t ∈ tokens s, t.Covers p.bytes ∧
        (t.kind = .newline ∨ (t.kind = .string ∨ t.kind = .error) ∧ tripleQuote <+: t.text)) ∧
    (∀ p r : Text, s = p ++ '\r' :: '\n' :: r → ∀ t ∈ tokens s, t.kind = .newline →
      t.Covers p.bytes ∨ t.Covers (p.bytes + 1) →
        t.start = p.bytes ∧ t.text = ['\r', '\n']) ∧
    ∀ t ∈ tokens s, t.kind = .error →
      ∃ p r : Text, s = p ++ (t.text ++ r) ∧ t.start = p.bytes ∧ Damage t.text r := by
  refine ⟨?_, ?_, ?_⟩
  · intro p c r hs hc
    obtain ⟨t, a, b, u, h⟩ := exists_owner (n := 0) hs
    have hmem : c ∈ t.text := by
      rw [h.text]
      exact List.mem_append_right a List.mem_cons_self
    exact ⟨t, h.mem, h.covers (by omega) (by omega), h.contained.breaks c hmem hc⟩
  · intro p r hs t ht hkind hcovers
    obtain ⟨t', a, b, u, h⟩ := exists_owner (n := 0) hs
    obtain ⟨b', hb⟩ := h.lineFeed
    have hone : 1 ≤ b.bytes := Text.bytes_pos (hb ▸ List.cons_ne_nil _ _)
    have heq {k : Nat} (hk : p.bytes ≤ k) (hle : k ≤ p.bytes + 1) (htk : t.Covers k) : t = t' :=
      (contiguous_scan s 0).eq_of_covers ht h.mem htk (h.covers (by omega) (by omega))
    obtain rfl : t = t' := by
      rcases hcovers with hfirst | hsecond
      · exact heq (Nat.le_refl _) (Nat.le_succ _) hfirst
      · exact heq (Nat.le_succ _) (Nat.le_refl _) hsecond
    have htext := h.text_eq hkind
    rwa [Nat.zero_add] at htext
  · intro t ht hkind
    obtain ⟨p, c, r, hs, rfl⟩ := exists_of_mem_scan ht
    refine ⟨p, (lexeme c r).rest, ?_, Nat.zero_add _, (lexeme_contained c r).error hkind⟩
    rw [hs, Lexeme.token, lexeme_text_append_rest]

/-- A string left open before a carriage return and a line feed, and three quotes that are never
closed. -/
theorem tokens_contained_open_strings :
    let s : Text := "'a\\\r\nb = \"\"\"\n".toList
    (∃ t ∈ tokens s, t.Covers 3 ∧
      (t.kind = .newline ∨ (t.kind = .string ∨ t.kind = .error) ∧ tripleQuote <+: t.text)) ∧
      (∀ t ∈ tokens s, t.kind = .newline → t.Covers 3 ∨ t.Covers 4 →
        t.start = 3 ∧ t.text = ['\r', '\n']) ∧
      ∃ p r : Text, s = p ++ ("'a\\".toList ++ r) ∧ 0 = p.bytes ∧ Damage "'a\\".toList r := by
  intro s
  obtain ⟨hbreaks, hpairs, herrors⟩ := tokens_contained s
  refine ⟨?_, ?_, ?_⟩
  · exact hbreaks "'a\\".toList '\r' "\nb = \"\"\"\n".toList (by decide) (by decide)
  · exact hpairs "'a\\".toList "b = \"\"\"\n".toList (by decide)
  · exact herrors ⟨.error, "'a\\".toList, 0, 4⟩ (by decide +kernel) rfl

end ScriptTree.Lexer
