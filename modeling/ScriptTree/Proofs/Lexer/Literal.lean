import ScriptTree.Proofs.Timeframe.Spelling

namespace ScriptTree

def Kind.hasValue : Kind → Bool
  | .number | .timeframe | .string | .boolean | .none => true
  | _ => false

namespace Lexer

inductive IsLiteral : Kind → Text → Prop
  | number {w : Text} : w ∈ decimals → IsLiteral .number w
  | timeframe {w d : Text} {t : Timeframe} : Timeframe.Spells w d t → IsLiteral .timeframe w
  | string {w : Text} : Quoted w → IsLiteral .string w
  | yes : IsLiteral .boolean "True".toList
  | no : IsLiteral .boolean "False".toList
  | nothing : IsLiteral .none "None".toList

theorem joined_kind {p : Kind → Prop} {c : Char} {table : List (Char × Kind)} {alone : Kind}
    (halone : p alone) (htable : ∀ e ∈ table, p e.2) (s : Text) :
    p (joined c s table alone).kind :=
  joined_cases (motive := fun l => p l.kind) c s table alone (fun _ => halone)
    (fun d k _ h => htable (d, k) h)

theorem operator?_hasValue {c : Char} {table : List (Char × Kind)} {alone : Kind}
    (h : operator? c = some (table, alone)) :
    alone.hasValue = false ∧ ∀ e ∈ table, e.2.hasValue = false := by
  unfold operator? at h
  split at h
  all_goals
    simp only [Option.some.injEq, Prod.mk.injEq, reduceCtorEq] at h
  all_goals
    obtain ⟨rfl, rfl⟩ := h
    decide

theorem mark?_hasValue (c : Char) : ((mark? c).getD .error).hasValue = false := by
  unfold mark?
  split <;> rfl

/-- Of the words only those for the truth values and for no value are literals. -/
theorem isLiteral_keyword {w : Text} (h : ((keyword? w).getD .identifier).hasValue) :
    IsLiteral ((keyword? w).getD .identifier) w := by
  have hword (k : Kind) (hk : keyword? w = some k) (hvalue : k.hasValue) : IsLiteral k w := by
    unfold keyword? at hk
    repeat' split at hk
    all_goals simp only [Option.some.injEq, reduceCtorEq] at hk
    all_goals subst hk
    all_goals try exact absurd hvalue Bool.false_ne_true
    · rename_i hw
      rcases hw with rfl | rfl
      · exact .yes
      · exact .no
    · rename_i hw
      exact hw ▸ .nothing
  cases hk : keyword? w with
  | none =>
    rw [hk] at h
    exact absurd h Bool.false_ne_true
  | some k => exact hword k hk (by rwa [hk] at h)

theorem isLiteral_number {c : Char} (hc : isDigit c) (s : Text) :
    IsLiteral (number c s).kind (number c s).text := by
  by_cases hunit : ∃ d u r, HasUnit (c :: s) d u r
  · obtain ⟨d, u, r, hunit⟩ := hunit
    have hkind := (hunit.number_timeframe hc).1
    obtain ⟨d, t, h⟩ := Timeframe.exists_spells hc hkind
    rw [hkind]
    exact .timeframe h
  · rw [(number_plain hc hunit).1]
    exact .number (number_longest hc hunit).mem

/-- A lexeme of a kind that has a value is a literal. -/
theorem isLiteral_lexeme {c : Char} {s : Text} (h : (lexeme c s).kind.hasValue) :
    IsLiteral (lexeme c s).kind (lexeme c s).text := by
  revert h
  refine lexeme_cases (motive := fun l => l.kind.hasValue → IsLiteral l.kind l.text) c s ?newline
    ?carriageReturn ?blank ?comment ?doubleQuoted ?quoted ?number ?word ?operator ?mark
  case newline => exact fun _ => nofun
  case carriageReturn =>
    have hkind : (joined '\r' s [('\n', .newline)] .newline).kind.hasValue = false :=
      joined_kind (p := fun k => k.hasValue = false) rfl (by decide) s
    rintro rfl h
    exact absurd h (by simp [hkind])
  case blank => exact fun _ => nofun
  case comment => exact fun _ => nofun
  case doubleQuoted =>
    intro _ h
    rcases doubleQuoted_kind s with hk | hk
    · rw [hk]
      exact .string (quoted_doubleQuoted hk)
    · exact absurd h (by simp [hk, Kind.hasValue])
  case quoted =>
    rintro rfl h
    rcases string_kind ['\x27'] (lineString '\x27' s) with hk | hk
    · rw [hk]
      exact .string (quoted_lineString (by decide) hk)
    · exact absurd h (by simp [hk, Kind.hasValue])
  case number => exact fun hc _ => isLiteral_number hc s
  case word => exact fun _ _ h => isLiteral_keyword h
  case operator =>
    intro table alone htable h
    obtain ⟨halone, hjoin⟩ := operator?_hasValue htable
    have hkind := joined_kind (p := fun k => k.hasValue = false) (c := c) halone hjoin s
    exact absurd h (by simp [hkind])
  case mark => exact fun _ _ _ h => absurd h (by simp [mark?_hasValue])

theorem isLiteral_of_isToken {k : Kind} {s : Text} (hk : k.hasValue) (h : IsToken k s) :
    IsLiteral k s := by
  cases s with
  | nil =>
    obtain ⟨reach, h⟩ := h
    exact absurd h (by rw [tokens, scan_nil]; exact List.cons_ne_nil _ _ ∘ Eq.symm)
  | cons c s =>
    obtain ⟨rfl, hrest⟩ := isToken_cons.1 h
    have hcut := lexeme_text_append_rest c s
    rw [hrest, List.append_nil] at hcut
    exact hcut ▸ isLiteral_lexeme hk

end Lexer

end ScriptTree
