import ScriptTree.Proofs.Literal.Quoted
import ScriptTree.Proofs.Timeframe.Reader

namespace ScriptTree.Literal

open Lexer (IsLiteral Quoted decimals)

/-! ### Numbers -/

theorem number?_integer {w : Text} (hne : w ≠ []) (hall : ∀ c ∈ w, c.isDigit)
    (hlt : Decimal.digitsValue w < 2 ^ 63) : number? w = some (.integer (Decimal.digitsValue w)) := by
  have hle : Decimal.digitsValue w ≤ maxInteger := Nat.le_of_lt_succ hlt
  rw [number?, if_pos]
  simp [hne, hle, List.all_eq_true.2 hall]

theorem number?_float {w : Text}
    (h : ¬((∀ c ∈ w, c.isDigit) ∧ Decimal.digitsValue w < 2 ^ 63)) :
    number? w = (Decimal.parse? w).map .float := by
  rw [number?, if_neg]
  rw [Bool.and_eq_true, Bool.and_eq_true, decide_eq_true_eq, List.all_eq_true]
  rintro ⟨⟨-, hall⟩, hle⟩
  exact h ⟨hall, Nat.lt_succ_of_le hle⟩

theorem ne_nil_of_decimals {w : Text} (h : w ∈ decimals) : w ≠ [] := by
  obtain ⟨m, hm, e, -, rfl⟩ := Language.mem_mul.1 h
  obtain ⟨d, hd, f, -, rfl⟩ := Language.mem_mul.1 hm
  simp [hd.1]

/-! ### Literals -/

/-- What the decoder makes of a text of a kind. -/
structure Decodes (k : Kind) (w : Text) : Prop where
  /-- There is a value for each literal but a timeframe with too large a count. -/
  isSome : (decode? k w).isSome ↔
    k.hasValue ∧ ¬(k = .timeframe ∧ 2 ^ 64 ≤ Decimal.digitsValue (w.takeWhile Char.isDigit))
  integer : k = .number → ∀ n, decode? k w = some (.integer n) ↔
    (∀ c ∈ w, c.isDigit) ∧ Decimal.digitsValue w = n ∧ n < 2 ^ 63
  float : k = .number → ¬((∀ c ∈ w, c.isDigit) ∧ Decimal.digitsValue w < 2 ^ 63) →
    ∃ x, decode? k w = some (.float x)
  string : k = .string →
    (∃ v, block? w = some v ∧ decode? k w = some (.string v)) ∨
      ∃ q b v, w = q :: (b ++ [q]) ∧ block? w = none ∧ Unescapes b v ∧
        decode? k w = some (.string v)

theorem decodes_of_not_hasValue {k : Kind} (h : k.hasValue = false) (w : Text) : Decodes k w := by
  have hnone : decode? k w = none := by
    cases k <;> first | rfl | exact absurd h (by decide)
  refine ⟨?_, ?_, ?_, ?_⟩
  · simp [hnone, h]
  all_goals
    rintro rfl
    exact absurd h (by decide)

theorem decodes_number {w : Text} (h : w ∈ decimals) : Decodes .number w := by
  have hparse := Option.isSome_iff_exists.1 (Decimal.parse?_isSome h)
  obtain ⟨x, hx⟩ := hparse
  have hdecode : decode? .number w = number? w := rfl
  by_cases hinteger : (∀ c ∈ w, c.isDigit) ∧ Decimal.digitsValue w < 2 ^ 63
  · have hvalue := number?_integer (ne_nil_of_decimals h) hinteger.1 hinteger.2
    rw [← hdecode] at hvalue
    refine ⟨?_, fun _ n => ?_, fun _ hnot => absurd hinteger hnot, by simp⟩
    · simp [hvalue, Kind.hasValue]
    · simp only [hvalue, Option.some.injEq, Literal.integer.injEq]
      exact ⟨fun hn => ⟨hinteger.1, hn, hn ▸ hinteger.2⟩, fun hn => hn.2.1⟩
  · have hvalue := number?_float hinteger
    rw [← hdecode, hx, Option.map_some] at hvalue
    refine ⟨?_, fun _ n => ?_, fun _ _ => ⟨x, hvalue⟩, by simp⟩
    · simp [hvalue, Kind.hasValue]
    · rw [hvalue]
      refine ⟨by simp, ?_⟩
      rintro ⟨hall, rfl, hlt⟩
      exact absurd ⟨hall, hlt⟩ hinteger

theorem decodes_timeframe {w d : Text} {t : Timeframe} (h : Timeframe.Spells w d t) :
    Decodes .timeframe w := by
  have hdecode : (decode? .timeframe w).isSome = (Timeframe.parse? w).isSome := Option.isSome_map ..
  refine ⟨?_, by simp, by simp, by simp⟩
  rw [hdecode, h.isSome_parse?, h.takeWhile_eq]
  simp [Kind.hasValue]

theorem decodes_string {w : Text} (h : Quoted w) : Decodes .string w := by
  have hstring {v : Text} (hv : string? w = some v) : decode? .string w = some (.string v) :=
    congrArg (Option.map Literal.string) hv
  cases h with
  | @line q b hq hb =>
    have hdecode := hstring (string?_line hq hb)
    refine ⟨?_, by simp, by simp, fun _ => .inr ⟨q, b, _, rfl, block?_line hq hb, ?_, hdecode⟩⟩
    · simp [hdecode, Kind.hasValue]
    · exact unescapes_of_lineBody hb
  | @block v =>
    have hdecode := hstring (string?_block v)
    refine ⟨?_, by simp, by simp, fun _ => .inl ⟨v, block?_block v, hdecode⟩⟩
    simp [hdecode, Kind.hasValue]

theorem decodes_of_isLiteral {k : Kind} {w : Text} (h : IsLiteral k w) : Decodes k w := by
  cases h with
  | number h => exact decodes_number h
  | timeframe h => exact decodes_timeframe h
  | string h => exact decodes_string h
  | yes => exact ⟨by decide, by simp, by simp, by simp⟩
  | no => exact ⟨by decide, by simp, by simp, by simp⟩
  | nothing => exact ⟨by decide, by simp, by simp, by simp⟩

/-- The tokens of a text that are literals have values, except timeframes whose count is too large. A
number is an integer just when it is digits of an integer, and else a float, and no string ends in a
backslash that has nothing to escape. -/
theorem decodes_of_mem_tokens (s : Text) {t : Token} (ht : t ∈ Lexer.tokens s) :
    Decodes t.kind t.text := by
  obtain ⟨p, c, r, -, rfl⟩ := Lexer.exists_of_mem_scan ht
  by_cases hk : (Lexer.lexeme c r).kind.hasValue
  · exact decodes_of_isLiteral (Lexer.isLiteral_lexeme hk)
  · exact decodes_of_not_hasValue (Bool.eq_false_of_not_eq_true hk) _

/-- A string that ends in an escaped backslash, and a number that is too large for an integer. -/
theorem decodes_of_mem_tokens_escaped :
    let s : Text := "x = 'C:\\\\'; y = 9223372036854775808".toList
    let t : Token := ⟨.string, "'C:\\\\'".toList, 4, 10⟩
    let u : Token := ⟨.number, "9223372036854775808".toList, 16, 36⟩
    (t ∈ Lexer.tokens s ∧ Decodes t.kind t.text) ∧ u ∈ Lexer.tokens s ∧ Decodes u.kind u.text := by
  intro s t u
  have ht : t ∈ Lexer.tokens s := by decide +kernel
  have hu : u ∈ Lexer.tokens s := by decide +kernel
  exact ⟨⟨ht, decodes_of_mem_tokens s ht⟩, hu, decodes_of_mem_tokens s hu⟩

end ScriptTree.Literal
