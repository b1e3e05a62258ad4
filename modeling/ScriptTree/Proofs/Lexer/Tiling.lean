import ScriptTree.Proofs.Lexer.Spelling
import ScriptTree.Proofs.Token.Stored

namespace ScriptTree.Lexer

/-- The tokens found one after another from an offset on, until the text goes on no further. -/
inductive Finds (s : Text) : Nat → List Token → Prop
  | stop {n : Nat} : tokenAt? s n = none → Finds s n []
  | next {n : Nat} {t : Token} {ts : List Token} :
      tokenAt? s n = some t → Finds s t.stop ts → Finds s n (t :: ts)

theorem Finds.unique {s : Text} {n : Nat} {ts us : List Token} (h : Finds s n ts)
    (h' : Finds s n us) : ts = us := by
  induction h generalizing us with
  | stop hnone =>
    cases h' with
    | stop => rfl
    | next hsome => simp [hnone] at hsome
  | next hsome _ ih =>
    cases h' with
    | stop hnone => simp [hsome] at hnone
    | next hsome' h' =>
      obtain rfl := Option.some.inj (hsome.symm.trans hsome')
      rw [ih h']

/-- Tokens that stand in a text one behind the other, from its start to its end. -/
structure Tiles (s : Text) (ts : List Token) : Prop where
  contiguous : Token.Contiguous 0 ts
  endOf : Token.endOf ts = s.bytes
  /-- Both ends of a token are boundaries, and its text is what stands between them. -/
  slice : ∀ t ∈ ts, s.slice? t.start t.stop = some t.text
  text : ts.flatMap Token.text = s
  kind : ∀ t ∈ ts, t.kind ≠ .eof

theorem append_lexeme (p : Text) (c : Char) (s : Text) :
    p ++ c :: s = p ++ (lexeme c s).text ++ (lexeme c s).rest := by
  rw [List.append_assoc, lexeme_text_append_rest]

/-- The tokens of what follows a front are found from where the front ends. -/
theorem finds_scan {p s : Text} {n : Nat} (hn : p.bytes = n) : Finds (p ++ s) n (scan s n) := by
  fun_induction scan s n generalizing p with
  | case1 =>
    rw [List.append_nil, ← hn]
    exact .stop (tokenAt?_end p)
  | case2 n c r l =>
    rename_i ih
    -- The token ends where the rest of the text starts, so the search goes on at a boundary.
    have hmore := ih (p := p ++ l.text) (by rw [Text.bytes_append, hn])
    rw [← append_lexeme] at hmore
    refine .next ?_ hmore
    rw [← hn]
    exact tokenAt?_append_cons p c r

theorem slice_of_mem_scan {p s : Text} {n : Nat} (hn : p.bytes = n) {t : Token}
    (ht : t ∈ scan s n) : (p ++ s).slice? t.start t.stop = some t.text := by
  fun_induction scan s n generalizing p with
  | case1 => exact absurd ht List.not_mem_nil
  | case2 n c r l =>
    rename_i ih
    rcases List.mem_cons.1 ht with rfl | ht
    · rw [append_lexeme, ← hn, List.append_assoc]
      exact Text.slice?_append p l.text l.rest
    · rw [append_lexeme]
      exact ih (by rw [Text.bytes_append, hn]) ht

theorem flatMap_text_scan (s : Text) (n : Nat) : (scan s n).flatMap Token.text = s := by
  fun_induction scan s n with
  | case1 => rfl
  | case2 n c r l ih =>
    rw [List.flatMap_cons, ih]
    exact lexeme_text_append_rest c r

theorem endOf_tokens (s : Text) : Token.endOf (tokens s) = s.bytes := by
  rw [Token.endOf, tokens, (Lexes.to_end s 0).stop_getLast, Nat.zero_add]

/-- Of every text the search for tokens ends, with the tokens of the text; and they tile it. -/
theorem tokens_tile (s : Text) :
    (∀ ts, Finds s 0 ts ↔ ts = tokens s) ∧ Tiles s (tokens s) := by
  have hfinds : Finds s 0 (tokens s) := finds_scan (p := []) rfl
  refine ⟨fun ts => ⟨fun h => h.unique hfinds, fun h => h ▸ hfinds⟩, ?_⟩
  exact {
    contiguous := contiguous_scan s 0
    endOf := endOf_tokens s
    slice := fun t ht => slice_of_mem_scan (p := []) rfl ht
    text := flatMap_text_scan s 0
    kind := fun t ht => kind_ne_eof_of_mem_tokens ht }

end ScriptTree.Lexer
