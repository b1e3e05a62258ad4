import ScriptTree.Proofs.Lexer.Locality
import ScriptTree.Proofs.Lexer.Scan
import ScriptTree.Proofs.Tree.Yield

namespace ScriptTree

def Kind.spelling? : Kind → Option Text
  | .ifKw => some "if".toList
  | .elseKw => some "else".toList
  | .andKw => some "and".toList
  | .orKw => some "or".toList
  | .notKw => some "not".toList
  | .plus => some ['+']
  | .minus => some ['-']
  | .star => some ['*']
  | .starStar => some ['*', '*']
  | .slash => some ['/']
  | .percent => some ['%']
  | .pipe => some ['|']
  | .shiftRight => some ['>', '>']
  | .shiftLeft => some ['<', '<']
  | .lt => some ['<']
  | .gt => some ['>']
  | .ltEq => some ['<', '=']
  | .gtEq => some ['>', '=']
  | .eqEq => some ['=', '=']
  | .notEq => some ['!', '=']
  | .eq => some ['=']
  | .dot => some ['.']
  | .comma => some [',']
  | .colon => some [':']
  | .semicolon => some [';']
  | .lParen => some ['(']
  | .rParen => some [')']
  | .lBracket => some ['[']
  | .rBracket => some [']']
  | .lBrace => some ['\x7b']
  | .rBrace => some ['\x7d']
  | _ => Option.none

structure Word.Spelled (w : Word) : Prop where
  isToken : w.1.isToken
  text : ∀ s ∈ w.1.spelling?, w.2 = s

theorem Word.Spelled.ne_eof {w : Word} (h : w.Spelled) : w.1 ≠ .eof := by
  intro he
  have htoken := h.isToken
  rw [he] at htoken
  exact absurd htoken (by decide)

namespace Lexer

theorem spelled_of_free {k : Kind} (hk : k.isToken) (hfree : k.spelling? = Option.none) (s : Text) :
    Word.Spelled (k, s) := ⟨hk, fun t ht => by simp [hfree] at ht⟩

theorem spelled_of_eq {k : Kind} {s : Text} (hk : k.isToken) (hs : k.spelling? = some s) :
    Word.Spelled (k, s) := ⟨hk, fun t ht => by simpa [hs] using ht⟩

theorem joined_spelled {c : Char} {table : List (Char × Kind)} {alone : Kind}
    (halone : Word.Spelled (alone, [c])) (htable : ∀ e ∈ table, Word.Spelled (e.2, [c, e.1]))
    (s : Text) : Word.Spelled ((joined c s table alone).kind, (joined c s table alone).text) :=
  joined_cases (motive := fun l => Word.Spelled (l.kind, l.text)) c s table alone
    (fun _ => halone) (fun d k _ h => htable (d, k) h)

theorem string_kind (opening : Text) (body : Cut × Bool) :
    (string opening body).kind = .string ∨ (string opening body).kind = .error := by
  simp only [string]
  split
  · exact .inl rfl
  · exact .inr rfl

theorem doubleQuoted_kind (s : Text) :
    (doubleQuoted s).kind = .string ∨ (doubleQuoted s).kind = .error := by
  unfold doubleQuoted
  split
  · exact string_kind ..
  · exact .inl rfl
  · exact string_kind ..

theorem number_kind (c : Char) (s : Text) :
    (number c s).kind = .number ∨ (number c s).kind = .timeframe := by
  unfold number
  extract_lets digits decimal plain
  split
  · exact .inl rfl
  · split
    · exact .inl rfl
    · split
      · extract_lets unit whole full
        split
        · exact .inr rfl
        · exact .inl rfl
      · exact .inl rfl

theorem keyword?_spelled (w : Text) : Word.Spelled ((keyword? w).getD .identifier, w) := by
  unfold keyword?
  repeat' split
  all_goals
    first
      | exact spelled_of_free (by decide) rfl _
      | exact spelled_of_eq (by decide) (by simp_all [Kind.spelling?])

theorem mark?_spelled (c : Char) : Word.Spelled ((mark? c).getD .error, [c]) := by
  unfold mark?
  split <;> first | exact spelled_of_eq (by decide) rfl | exact spelled_of_free (by decide) rfl _

theorem operator?_spelled {c : Char} {table : List (Char × Kind)} {alone : Kind}
    (h : operator? c = some (table, alone)) :
    Word.Spelled (alone, [c]) ∧ ∀ e ∈ table, Word.Spelled (e.2, [c, e.1]) := by
  have heq {k : Kind} {s : Text} (hs : k.isToken ∧ k.spelling? = some s) : Word.Spelled (k, s) :=
    spelled_of_eq hs.1 hs.2
  unfold operator? at h
  split at h <;> simp only [Option.some.injEq, Prod.mk.injEq, reduceCtorEq] at h
  all_goals
    obtain ⟨rfl, rfl⟩ := h
    simp only [List.mem_cons, List.not_mem_nil, or_false, forall_eq_or_imp, forall_eq]
  · exact ⟨heq (by decide), heq (by decide)⟩
  · exact ⟨heq (by decide), heq (by decide), heq (by decide)⟩
  · exact ⟨heq (by decide), heq (by decide), heq (by decide)⟩
  · exact ⟨heq (by decide), heq (by decide)⟩
  · exact ⟨spelled_of_free (by decide) rfl _, heq (by decide)⟩

/-- The lexer gives a kind only to the texts that the kind allows. -/
theorem lexeme_spelled (c : Char) (s : Text) :
    Word.Spelled ((lexeme c s).kind, (lexeme c s).text) := by
  have hfree {k : Kind} (hk : k.isToken ∧ k.spelling? = Option.none) (t : Text) :
      Word.Spelled (k, t) := spelled_of_free hk.1 hk.2 t
  refine lexeme_cases (motive := fun l => Word.Spelled (l.kind, l.text)) c s ?newline ?carriageReturn
    ?blank ?comment ?doubleQuoted ?quoted ?number ?word ?operator ?mark
  case newline => exact fun _ => hfree (k := .newline) (by decide) _
  case carriageReturn =>
    rintro rfl
    exact joined_spelled (hfree (by decide) _) (by simpa using hfree (by decide) _) s
  case blank => exact fun _ => hfree (k := .whitespace) (by decide) _
  case comment => exact fun _ => hfree (k := .comment) (by decide) _
  case doubleQuoted =>
    intro _
    rcases doubleQuoted_kind s with h | h <;> rw [h] <;> exact hfree (by decide) _
  case quoted =>
    intro _
    rcases string_kind [c] (lineString c s) with h | h <;> rw [h] <;> exact hfree (by decide) _
  case number =>
    intro _
    rcases number_kind c s with h | h <;> rw [h] <;> exact hfree (by decide) _
  case word => exact fun _ _ => keyword?_spelled _
  case operator =>
    intro table alone h
    exact joined_spelled (operator?_spelled h).1 (operator?_spelled h).2 s
  case mark => exact fun _ _ _ => mark?_spelled c

theorem spelled_of_mem_scan {s : Text} {n : Nat} {t : Token} (h : t ∈ scan s n) :
    t.word.Spelled := by
  fun_induction scan s n with
  | case1 => simp at h
  | case2 start c r l ih =>
    rcases List.mem_cons.1 h with rfl | h
    · exact lexeme_spelled c r
    · exact ih h

theorem kind_ne_eof_of_mem_tokens {s : Text} {t : Token} (h : t ∈ tokens s) : t.kind ≠ .eof :=
  (spelled_of_mem_scan h).ne_eof

end Lexer

end ScriptTree
