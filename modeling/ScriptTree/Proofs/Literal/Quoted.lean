import ScriptTree.Literal
import ScriptTree.Proofs.Lexer.Quoted

namespace ScriptTree.Literal

open Lexer (IsToken LineBody Quoted isBreak isQuote tripleQuote)

/-! ### Bodies with escapes -/

/-- What a body stands for, if each backslash in it escapes a character. -/
inductive Unescapes : Text → Text → Prop
  | nil : Unescapes [] []
  | plain {c : Char} {s v : Text} : c ≠ '\\' → Unescapes s v → Unescapes (c :: s) (c :: v)
  | escaped {c : Char} {s v : Text} : Unescapes s v →
      Unescapes ('\\' :: c :: s) (unescapeChar c ++ v)

theorem unescape_plain {c : Char} (hc : c ≠ '\\') (s : Text) :
    unescape (c :: s) = c :: unescape s := by
  rw [unescape.eq_def]
  split <;> simp_all

theorem Unescapes.unescape_eq {s v : Text} (h : Unescapes s v) : unescape s = v := by
  induction h with
  | nil => rfl
  | plain hc _ ih => rw [unescape_plain hc, ih]
  | escaped _ ih => rw [unescape, ih]

/-- In what the lexer accepts between quotes, each backslash escapes a character. -/
theorem unescapes_of_lineBody {quote : Char} {b : Text} (h : LineBody quote b) :
    Unescapes b (unescape b) := by
  induction h with
  | nil => exact .nil
  | plain _ he _ _ ih =>
    rw [unescape_plain he]
    exact .plain he ih
  | escaped _ _ ih => exact .escaped ih

/-! ### Literals without their quotes -/

theorem dropEnd?_append (s ending : Text) : dropEnd? ending (s ++ ending) = some s := by
  have hsub : (s ++ ending).length - ending.length = s.length := by
    rw [List.length_append, Nat.add_sub_cancel]
  rw [dropEnd?, hsub, List.drop_left, List.take_left, if_pos]
  exact ⟨by rw [List.length_append]; exact Nat.le_add_left .., rfl⟩

theorem block?_block (v : Text) : block? (tripleQuote ++ (v ++ tripleQuote)) = some v :=
  dropEnd?_append v tripleQuote

/-- A string on one line is no string between three quotes. -/
theorem block?_line {q : Char} (hq : isQuote q) {b : Text} (h : LineBody q b) :
    block? (q :: (b ++ [q])) = none := by
  have hhead := h.head?_ne (Lexer.isQuote_plain hq).2
  unfold block?
  split
  · rename_i s hs
    obtain ⟨rfl, hs⟩ := List.cons.inj hs
    cases b with
    | nil => exact absurd hs (by simp)
    | cons c b =>
      obtain ⟨rfl, -⟩ := List.cons.inj hs
      exact absurd rfl hhead
  · rfl

theorem quoted?_line {q : Char} (hq : isQuote q) (b : Text) :
    quoted? (q :: (b ++ [q])) = some (unescape b) := by
  rw [quoted?, if_pos (Lexer.isQuote_iff.1 hq), dropEnd?_append, Option.map_some]

theorem string?_block (v : Text) : string? (tripleQuote ++ (v ++ tripleQuote)) = some v := by
  rw [string?, block?_block, Option.some_or]

theorem string?_line {q : Char} (hq : isQuote q) {b : Text} (h : LineBody q b) :
    string? (q :: (b ++ [q])) = some (unescape b) := by
  rw [string?, block?_line hq h, Option.none_or, quoted?_line hq]

/-! ### Literals for a given text -/

def escapeChar : Char → Text
  | '\\' => ['\\', '\\']
  | '\x27' => ['\\', '\x27']
  | '\x22' => ['\\', '\x22']
  | '\n' => ['\\', 'n']
  | '\t' => ['\\', 't']
  | '\r' => ['\\', 'r']
  | '\x00' => ['\\', '0']
  | c => [c]

def escape (v : Text) : Text := v.flatMap escapeChar

def quote (q : Char) (v : Text) : Text := q :: (escape v ++ [q])

def blockQuote (v : Text) : Text := tripleQuote ++ (v ++ tripleQuote)

/-- A text that is one string token, with a value. -/
structure Denotes (s v : Text) : Prop where
  isToken : IsToken .string s
  value : string? s = some v

/-- A character is escaped by one that stands for it, or it needs no escape. -/
theorem escapeChar_cases (c : Char) :
    (∃ d, escapeChar c = ['\\', d] ∧ unescapeChar d = [c] ∧ ¬isBreak d) ∨
      escapeChar c = [c] ∧ c ≠ '\\' ∧ ¬isQuote c ∧ ¬isBreak c := by
  unfold escapeChar
  split
  · exact .inl ⟨'\\', rfl, rfl, by decide⟩
  · exact .inl ⟨'\x27', rfl, rfl, by decide⟩
  · exact .inl ⟨'\x22', rfl, rfl, by decide⟩
  · exact .inl ⟨'n', rfl, rfl, by decide⟩
  · exact .inl ⟨'t', rfl, rfl, by decide⟩
  · exact .inl ⟨'r', rfl, rfl, by decide⟩
  · exact .inl ⟨'0', rfl, rfl, by decide⟩
  · refine .inr ⟨rfl, ‹_›, ?_, ?_⟩
    · rw [Lexer.isQuote_iff]
      exact not_or.2 ⟨‹_›, ‹_›⟩
    · rw [Lexer.isBreak_iff]
      exact not_or.2 ⟨‹_›, ‹_›⟩

/-- What is escaped may stand between quotes of either kind, and stands for what was escaped. -/
theorem escape_spec {q : Char} (hq : isQuote q) (v : Text) :
    LineBody q (escape v) ∧ Unescapes (escape v) v := by
  induction v with
  | nil => exact ⟨.nil, .nil⟩
  | cons c v ih =>
    rw [escape, List.flatMap_cons]
    rcases escapeChar_cases c with ⟨d, hd, hvalue, hbreak⟩ | ⟨hc, hne, hquote, hbreak⟩
    · rw [hd]
      have hv := Unescapes.escaped (c := d) ih.2
      rw [hvalue] at hv
      exact ⟨.escaped hbreak ih.1, hv⟩
    · rw [hc]
      have hcq : c ≠ q := by
        rintro rfl
        exact hquote hq
      exact ⟨.plain hbreak hne hcq ih.1, .plain hne ih.2⟩

/-- Every text is denoted by a literal on one line, between quotes of either kind; and by one between
three quotes, unless it has three quotes in it or ends in one. -/
theorem denotes_of_text (v : Text) :
    (∀ q, isQuote q → Denotes (quote q v) v) ∧
      (¬tripleQuote <:+: v → v.getLast? ≠ some '\x22' → Denotes (blockQuote v) v) := by
  constructor
  · intro q hq
    obtain ⟨hbody, hvalue⟩ := escape_spec hq v
    refine ⟨Lexer.isToken_line hq hbody, ?_⟩
    rw [quote, string?_line hq hbody, hvalue.unescape_eq]
  · intro hinner hlast
    exact ⟨Lexer.isToken_block hinner hlast, string?_block v⟩

/-- A path in quotes that ends in a backslash, and a block that starts with two quotes. -/
theorem denotes_of_text_quotes :
    let v : Text := "é \"C:\\\"\n\t\r\x00'\\".toList
    let w : Text := "\"\"a\\n\"\nb".toList
    (Denotes (quote '\x22' v) v ∧ Denotes (quote '\x27' v) v) ∧ ¬tripleQuote <:+: w ∧
      w.getLast? ≠ some '\x22' ∧ Denotes (blockQuote w) w := by
  intro v w
  have hinner : ¬tripleQuote <:+: w := by decide
  have hlast : w.getLast? ≠ some '\x22' := by decide
  have hv := (denotes_of_text v).1
  exact ⟨⟨hv _ (by decide), hv _ (by decide)⟩, hinner, hlast, (denotes_of_text w).2 hinner hlast⟩

end ScriptTree.Literal
