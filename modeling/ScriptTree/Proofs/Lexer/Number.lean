import Mathlib.Computability.Language
import ScriptTree.Proofs.Lexer.Locality

/-!
The grammar of decimal numbers, and that the lexer reads the longest word of it. A reader `Reads` a
language if what it takes is a word of it, and every word at the front of the text is a front of what
it takes. Two readers one after the other read the product of their languages, because the first one
`StopsAt` each character that the second one may start with: digits end at a point, and a fraction
ends at the mark of an exponent.
-/

namespace ScriptTree.Lexer

/-! ### The grammar of numbers -/

theorem toNat_of_isDigit {c : Char} (h : isDigit c) : 48 ≤ c.toNat ∧ c.toNat ≤ 57 := by
  rw [isDigit, Char.isDigit, Bool.and_eq_true, decide_eq_true_eq, decide_eq_true_eq] at h
  exact h

def digitRuns : Language Char := {s | s ≠ [] ∧ ∀ c ∈ s, isDigit c}

def fractions : Language Char := 1 + {['.']} * digitRuns

def exponentMarks : Language Char := {['e'], ['E']} * (1 + {['+'], ['-']})

def exponents : Language Char := 1 + exponentMarks * digitRuns

def decimals : Language Char := digitRuns * fractions * exponents

/-- The longest word of a language at the front of a text. -/
structure IsLongest (l : Language Char) (w s : Text) : Prop where
  front : w <+: s
  mem : w ∈ l
  length_le : ∀ v, v <+: s → v ∈ l → v.length ≤ w.length

/-- A reader that takes the longest word of a language, where a text starts with any. -/
structure Reads (l : Language Char) (f : Text → Piece) : Prop where
  mem {u : Text} (h : u ∈ l) (r : Text) : (f (u ++ r)).taken ∈ l
  front {u : Text} (h : u ∈ l) (r : Text) : u <+: (f (u ++ r)).taken

/-- A reader takes no more than a word of a language where a character follows it. -/
def StopsAt (l : Language Char) (f : Text → Piece) (c : Char) : Prop :=
  ∀ u ∈ l, ∀ r, (f (u ++ c :: r)).taken = u

theorem rest_of_taken {f : Text → Piece} (hf : IsReader f) {u r : Text}
    (h : (f (u ++ r)).taken = u) : (f (u ++ r)).rest = r := by
  have hcut := hf.cuts (u ++ r)
  rw [h] at hcut
  exact List.append_cancel_left hcut

section

variable {l m : Language Char} {f g : Text → Piece}

/-- Two readers one after the other read the words of two languages, if the first one stops where
the second one has something to read. -/
theorem Reads.andThen (hr : IsReader f) (hf : Reads l f) (hg : Reads m g) (hnil : [] ∈ m)
    (hstop : ∀ c r, c :: r ∈ m → StopsAt l f c) :
    Reads (l * m) fun s => (f s).andThen g where
  mem := by
    intro w hw r
    obtain ⟨u, hu, v, -, rfl⟩ := Language.mem_mul.1 hw
    have hfirst := hf.mem hu (v ++ r)
    have hsecond := hg.mem hnil (f (u ++ (v ++ r))).rest
    rw [List.append_assoc]
    exact Language.append_mem_mul hfirst hsecond
  front := by
    intro w hw r
    obtain ⟨u, hu, v, hv, rfl⟩ := Language.mem_mul.1 hw
    rw [List.append_assoc]
    cases v with
    | nil =>
      rw [List.append_nil, List.nil_append]
      exact (hf.front hu r).trans (List.prefix_append ..)
    | cons c v =>
      have htaken := hstop c v hv u hu (v ++ r)
      have hrest := rest_of_taken hr (r := c :: v ++ r) htaken
      simp only [Piece.andThen]
      rw [hrest, List.cons_append, htaken]
      exact (List.prefix_append_right_inj u).2 (hg.front hv r)

theorem StopsAt.andThen (hr : IsReader f) {c : Char} (hf : StopsAt l f c) (hg : StopsAt m g c)
    (hstop : ∀ d r, d :: r ∈ m → StopsAt l f d) :
    StopsAt (l * m) (fun s => (f s).andThen g) c := by
  intro w hw r
  obtain ⟨u, hu, v, hv, rfl⟩ := Language.mem_mul.1 hw
  have hfirst : (f (u ++ (v ++ c :: r))).taken = u := by
    cases v with
    | nil => exact hf u hu r
    | cons d v => exact hstop d v hv u hu (v ++ c :: r)
  rw [List.append_assoc]
  simp only [Piece.andThen]
  rw [rest_of_taken hr hfirst, hfirst, hg v hv r]

theorem Reads.longest (hr : IsReader f) (hf : Reads l f) {u r : Text} (hu : u ∈ l) :
    IsLongest l (f (u ++ r)).taken (u ++ r) where
  front := ⟨_, hr.cuts _⟩
  mem := hf.mem hu r
  length_le v hv hmem := by
    obtain ⟨t, ht⟩ := hv
    have hfront := hf.front hmem t
    rw [ht] at hfront
    exact hfront.length_le

end

/-! ### What the parts of a number read -/

theorem runPiece_front {p : Char → Bool} {u : Text} (hu : ∀ c ∈ u, p c) (r : Text) :
    u <+: (runPiece p (u ++ r)).taken := by
  cases u with
  | nil => exact List.nil_prefix
  | cons c u =>
    have htail : (u ++ r).takeWhile p = u ++ r.takeWhile p :=
      List.takeWhile_append_of_pos fun d hd => hu d (List.mem_cons_of_mem c hd)
    exact ⟨r.takeWhile p, by simp [runPiece, htail]⟩

theorem runPiece_digits {s : Text} (h : s.head?.any isDigit) :
    (runPiece isDigit s).taken ∈ digitRuns := by
  cases s with
  | nil => simp at h
  | cons c s =>
    refine ⟨List.cons_ne_nil _ _, fun d hd => ?_⟩
    rcases List.mem_cons.1 hd with rfl | hd
    · simpa using h
    · exact List.mem_takeWhile_imp hd

theorem head_of_digits {u : Text} (hu : u ∈ digitRuns) (r : Text) : (u ++ r).head?.any isDigit := by
  cases u with
  | nil => exact absurd rfl hu.1
  | cons c u => simpa using hu.2 c List.mem_cons_self

theorem digitRuns_reads : Reads digitRuns (runPiece isDigit) where
  mem hu r := runPiece_digits (head_of_digits hu r)
  front hu r := runPiece_front hu.2 r

theorem digitRuns_stopsAt {c : Char} (hc : ¬isDigit c) :
    StopsAt digitRuns (runPiece isDigit) c := by
  intro u hu r
  cases u with
  | nil => exact absurd rfl hu.1
  | cons d u =>
    have hrun : Text.IsRun isDigit u (c :: r) :=
      ⟨fun x hx => hu.2 x (List.mem_cons_of_mem d hx), by simpa using hc⟩
    simp [runPiece, hrun.takeWhile_eq]

theorem fraction_taken (s : Text) :
    (fraction ('.' :: s)).taken =
      if s.head?.any isDigit then '.' :: (runPiece isDigit s).taken else [] := by
  cases s with
  | nil => rfl
  | cons d s =>
    rw [fraction_point, List.head?_cons, Option.any_some]
    split
    · rfl
    · rfl

theorem exponentAfter_taken (front s : Text) :
    (exponentAfter front s).taken =
      if s.head?.any isDigit then front ++ (runPiece isDigit s).taken else [] := by
  cases s with
  | nil => rfl
  | cons d s =>
    rw [exponentAfter, List.head?_cons, Option.any_some]
    split
    · exact List.append_assoc ..
    · rfl

/-- A reader of digits behind a mark, which takes nothing where there is no such thing. -/
structure ReadsBehind (marks : Language Char) (f : Text → Piece) : Prop where
  digits {m : Text} (hm : m ∈ marks) {s : Text} (hs : s.head?.any isDigit) :
    (f (m ++ s)).taken = m ++ (runPiece isDigit s).taken
  nothing {s : Text} (hs : (f s).taken ≠ []) :
    ∃ m ∈ marks, ∃ r, s = m ++ r ∧ r.head?.any isDigit

theorem ReadsBehind.reads {marks : Language Char} {f : Text → Piece} (hf : ReadsBehind marks f) :
    Reads (1 + marks * digitRuns) f where
  mem := by
    intro u _ r
    rw [Language.mem_add]
    by_cases hnil : (f (u ++ r)).taken = []
    · exact .inl hnil
    · right
      obtain ⟨m, hm, s, hs, hdigit⟩ := hf.nothing hnil
      rw [hs, hf.digits hm hdigit]
      exact Language.append_mem_mul hm (runPiece_digits hdigit)
  front := by
    intro u hu r
    rw [Language.mem_add, Language.mem_one, Language.mem_mul] at hu
    rcases hu with rfl | ⟨m, hm, v, hv, rfl⟩
    · exact List.nil_prefix
    · rw [List.append_assoc, hf.digits hm (head_of_digits hv r)]
      exact (List.prefix_append_right_inj m).2 (digitRuns_reads.front hv r)

theorem ReadsBehind.stopsAt {marks : Language Char} {f : Text → Piece} (hf : ReadsBehind marks f)
    {c : Char} (hc : ¬isDigit c) (hmark : ∀ m ∈ marks, m.head? ≠ some c) (hnil : [] ∉ marks):
    StopsAt (1 + marks * digitRuns) f c := by
  intro u hu r
  rw [Language.mem_add, Language.mem_one, Language.mem_mul] at hu
  rcases hu with rfl | ⟨m, hm, v, hv, rfl⟩
  · by_contra htaken
    obtain ⟨m, hm, s, hs, -⟩ := hf.nothing htaken
    cases m with
    | nil => exact hnil hm
    | cons d m => exact hmark _ hm (by simpa using congrArg List.head? hs.symm)
  · rw [List.append_assoc, hf.digits hm (head_of_digits hv _), digitRuns_stopsAt hc v hv r]

theorem fraction_readsBehind : ReadsBehind {['.']} fraction where
  digits := by
    rintro m rfl s hs
    exact (fraction_taken s).trans (if_pos hs)
  nothing := by
    intro s hs
    cases s with
    | nil => exact absurd rfl hs
    | cons c s =>
      by_cases hc : c = '.'
      · subst hc
        rw [fraction_taken] at hs
        exact ⟨['.'], rfl, s, rfl, of_not_not fun h => hs (if_neg h)⟩
      · rw [fraction_of_ne hc] at hs
        exact absurd rfl hs

theorem mem_exponentMarks {m : Text} :
    m ∈ exponentMarks ↔
      ∃ e, (e = 'e' ∨ e = 'E') ∧ (m = [e] ∨ ∃ d, (d = '+' ∨ d = '-') ∧ m = [e, d]) := by
  rw [exponentMarks, Language.mem_mul]
  constructor
  · rintro ⟨a, ha, b, hb, rfl⟩
    obtain ⟨e, he, rfl⟩ : ∃ e, (e = 'e' ∨ e = 'E') ∧ a = [e] := by
      rcases ha with rfl | rfl
      · exact ⟨'e', .inl rfl, rfl⟩
      · exact ⟨'E', .inr rfl, rfl⟩
    refine ⟨e, he, ?_⟩
    rcases hb with rfl | rfl | rfl
    · exact .inl rfl
    · exact .inr ⟨'+', .inl rfl, rfl⟩
    · exact .inr ⟨'-', .inr rfl, rfl⟩
  · rintro ⟨e, he, hm⟩
    have hmark : [e] ∈ ({['e'], ['E']} : Language Char) := by
      rcases he with rfl | rfl
      · exact .inl rfl
      · exact .inr rfl
    rcases hm with rfl | ⟨d, hd, rfl⟩
    · exact ⟨[e], hmark, [], .inl rfl, rfl⟩
    · refine ⟨[e], hmark, [d], .inr ?_, rfl⟩
      rcases hd with rfl | rfl
      · exact .inl rfl
      · exact .inr rfl

theorem exponent_readsBehind : ReadsBehind exponentMarks exponent where
  digits := by
    intro m hm s hs
    obtain ⟨e, he, rfl | ⟨d, hd, rfl⟩⟩ := mem_exponentMarks.1 hm
    · cases s with
      | nil => simp at hs
      | cons d s =>
        have hd : ¬(d = '+' ∨ d = '-') := by
          rintro (rfl | rfl)
          · exact (by decide : ¬isDigit '+') hs
          · exact (by decide : ¬isDigit '-') hs
        rw [List.singleton_append, exponent_unsigned he hd, exponentAfter_taken, if_pos hs]
    · rw [List.cons_append, List.singleton_append, exponent_signed he hd, exponentAfter_taken,
        if_pos hs]
  nothing := by
    intro s hs
    cases s with
    | nil => exact absurd rfl hs
    | cons e s =>
      by_cases he : e = 'e' ∨ e = 'E'
      · cases s with
        | nil =>
          rw [exponent_lone he] at hs
          exact absurd rfl hs
        | cons d s =>
          by_cases hd : d = '+' ∨ d = '-'
          · rw [exponent_signed he hd, exponentAfter_taken] at hs
            refine ⟨[e, d], mem_exponentMarks.2 ⟨e, he, .inr ⟨d, hd, rfl⟩⟩, s, rfl, ?_⟩
            exact of_not_not fun h => hs (if_neg h)
          · rw [exponent_unsigned he hd, exponentAfter_taken] at hs
            refine ⟨[e], mem_exponentMarks.2 ⟨e, he, .inl rfl⟩, d :: s, rfl, ?_⟩
            exact of_not_not fun h => hs (if_neg h)
      · rw [exponent_of_ne he] at hs
        exact absurd rfl hs

theorem eq_point_of_fractions {c : Char} {r : Text} (h : c :: r ∈ fractions) : c = '.' := by
  rw [fractions, Language.mem_add, Language.mem_one, Language.mem_mul] at h
  obtain h | ⟨m, rfl, v, -, h⟩ := h
  · exact absurd h (List.cons_ne_nil c r)
  · exact (List.cons.inj h).1.symm

theorem eq_mark_of_exponents {c : Char} {r : Text} (h : c :: r ∈ exponents) :
    c = 'e' ∨ c = 'E' := by
  rw [exponents, Language.mem_add, Language.mem_one, Language.mem_mul] at h
  obtain h | ⟨m, hm, v, -, h⟩ := h
  · exact absurd h (List.cons_ne_nil c r)
  · obtain ⟨e, he, rfl | ⟨d, -, rfl⟩⟩ := mem_exponentMarks.1 hm
    · exact (List.cons.inj h).1 ▸ he
    · exact (List.cons.inj h).1 ▸ he

/-- Digits end where a fraction starts. -/
theorem digitRuns_stopsAt_fraction (c : Char) (r : Text) (h : c :: r ∈ fractions) :
    StopsAt digitRuns (runPiece isDigit) c := by
  rw [eq_point_of_fractions h]
  exact digitRuns_stopsAt (by decide)

/-- Digits with a fraction, or without one, end at any character that is neither a digit nor a
point. -/
theorem mantissa_stopsAt {c : Char} (hc : ¬isDigit c) (hpoint : c ≠ '.') :
    StopsAt (digitRuns * fractions) (fun s => (runPiece isDigit s).andThen fraction) c := by
  apply StopsAt.andThen (runPiece_isReader isDigit) (digitRuns_stopsAt hc) _
    digitRuns_stopsAt_fraction
  apply fraction_readsBehind.stopsAt hc
  · rintro m rfl h
    exact hpoint (Option.some.inj h).symm
  · exact fun h => List.cons_ne_nil _ _ (Eq.symm h)

theorem mantissa_stopsAt_exponent (c : Char) (r : Text) (h : c :: r ∈ exponents) :
    StopsAt (digitRuns * fractions) (fun s => (runPiece isDigit s).andThen fraction) c := by
  rcases eq_mark_of_exponents h with rfl | rfl
  · exact mantissa_stopsAt (by decide) (by decide)
  · exact mantissa_stopsAt (by decide) (by decide)

theorem decimals_reads : Reads decimals decimalPiece := by
  have hreader := (runPiece_isReader isDigit).andThen fraction_isReader
  have hfront := digitRuns_reads.andThen (runPiece_isReader isDigit) fraction_readsBehind.reads
    (.inl rfl) digitRuns_stopsAt_fraction
  exact hfront.andThen hreader exponent_readsBehind.reads (.inl rfl) mantissa_stopsAt_exponent

theorem decimals_stopsAt {c : Char} (hc : ¬isDigit c) (hpoint : c ≠ '.')
    (hmark : c ≠ 'e' ∧ c ≠ 'E') : StopsAt decimals decimalPiece c := by
  have hreader := (runPiece_isReader isDigit).andThen fraction_isReader
  apply StopsAt.andThen hreader (mantissa_stopsAt hc hpoint) _ mantissa_stopsAt_exponent
  apply exponent_readsBehind.stopsAt hc
  · intro m hm h
    obtain ⟨e, he, rfl | ⟨d, -, rfl⟩⟩ := mem_exponentMarks.1 hm
    · obtain rfl := Option.some.inj h
      exact not_or.2 hmark he
    · obtain rfl := Option.some.inj h
      exact not_or.2 hmark he
  · intro h
    obtain ⟨e, -, h | ⟨d, -, h⟩⟩ := mem_exponentMarks.1 h
    · exact List.cons_ne_nil _ _ h.symm
    · exact List.cons_ne_nil _ _ h.symm

theorem mem_decimals_of_digitRuns {u : Text} (hu : u ∈ digitRuns) : u ∈ decimals := by
  have hfront : u ++ [] ∈ digitRuns * fractions := Language.append_mem_mul hu (.inl rfl)
  have hwhole : u ++ [] ++ [] ∈ decimals := Language.append_mem_mul hfront (.inl rfl)
  rwa [List.append_nil, List.append_nil] at hwhole

end ScriptTree.Lexer
