import ScriptTree.Proofs.Grammar.Spelling

namespace ScriptTree

namespace Grammar

open Cursor (depthOver)
open Expression (Join Unary)

theorem depthOver_append (d : Nat) (ws vs : List Word) :
    depthOver d (ws ++ vs) = depthOver (depthOver d ws) vs := by
  simp [depthOver]

theorem depthOver_cons (d : Nat) (w : Word) (ws : List Word) :
    depthOver d (w :: ws) = depthOver (Cursor.depthAfter d w.1) ws := by
  simp [depthOver]

theorem listed_cons (w : List Word) (parts : List (List Word)) (trailing : Bool) :
    listed (w :: parts) (parts.isEmpty || trailing) =
      w ++ Kind.comma.word :: listed parts trailing := by
  cases parts <;> rfl

theorem listed_single (w : List Word) : listed [w] false = w := by simp [listed]

/-- Neither trivia nor a bracket nor an equals sign. -/
def neutral (k : Kind) : Bool := !k.isTrivia && !k.isOpening && !k.isClosing && k != .eq

structure Inner (ws : List Word) : Prop where
  trivia : ∀ w ∈ ws, w.1.isTrivia = false
  balanced : ∀ d, depthOver d ws = d
  head : ∀ w ∈ ws.head?, w.1 ≠ .eq

structure Whole (ws : List Word) : Prop where
  ne_nil : ws ≠ []
  trivia : ∀ w ∈ ws, w.1.isTrivia = false
  balanced : ∀ d, depthOver d ws = d
  front : ∀ w ∈ ws.take 2, w.1 ≠ .eq

section Neutral

variable {k : Kind} (hk : neutral k)

include hk

theorem trivia_of_neutral : k.isTrivia = false := by
  simp only [neutral, Bool.and_eq_true, Bool.not_eq_true'] at hk
  exact hk.1.1.1

theorem depthAfter_of_neutral (d : Nat) : Cursor.depthAfter d k = d := by
  simp only [neutral, Bool.and_eq_true, Bool.not_eq_true'] at hk
  simp [Cursor.depthAfter, hk.1.1.2, hk.1.2]

theorem ne_eq_of_neutral : k ≠ .eq := by
  simp only [neutral, Bool.and_eq_true, bne_iff_ne] at hk
  exact hk.2

end Neutral

theorem neutral_of_joins {j : Join} {k : Kind} (h : j.joins k) : neutral k := by
  cases j <;> simp only [Join.joins, Bool.or_eq_true, decide_eq_true_eq] at h <;>
    rcases h with (rfl | rfl) | rfl <;> rfl

theorem neutral_of_starts {u : Unary} {k : Kind} (h : u.starts k) : neutral k := by
  cases u <;> simp only [Unary.starts, Bool.or_eq_true, decide_eq_true_eq] at h
  · rw [h]
    rfl
  · rcases h with rfl | rfl <;> rfl

theorem neutral_of_isComparison {k : Kind} (h : k.isComparison) : neutral k := by
  revert h
  cases k <;> decide

theorem neutral_of_isLiteral {k : Kind} (h : k.isLiteral) : neutral k := by
  revert h
  cases k <;> decide

theorem Whole.inner {ws : List Word} (h : Whole ws) : Inner ws := by
  refine ⟨h.trivia, h.balanced, fun w hw => h.front w ?_⟩
  cases ws with
  | nil => simp at hw
  | cons v ws =>
    obtain rfl : v = w := by simpa using hw
    simp

theorem Whole.single {w : Word} (h : neutral w.1) : Whole [w] := by
  refine ⟨by simp, ?_, fun d => ?_, ?_⟩
  · simpa using trivia_of_neutral h
  · simpa [depthOver] using depthAfter_of_neutral h d
  · simpa using ne_eq_of_neutral h

theorem Inner.nil : Inner [] := ⟨by simp, fun _ => rfl, by simp⟩

theorem Inner.append {ws vs : List Word} (hw : Inner ws) (hv : Inner vs) : Inner (ws ++ vs) := by
  refine ⟨fun w h => ?_, fun d => ?_, fun w h => ?_⟩
  · rcases List.mem_append.1 h with h | h
    · exact hw.trivia w h
    · exact hv.trivia w h
  · rw [depthOver_append, hw.balanced, hv.balanced]
  · cases ws with
    | nil => exact hv.head w h
    | cons v ws => exact hw.head w (by simpa using h)

theorem Inner.between {ws vs : List Word} {k : Kind} (hw : Inner ws) (hk : neutral k)
    (hv : Inner vs) : Inner (ws ++ k.word :: vs) :=
  hw.append ((Whole.single (w := k.word) hk).inner.append hv)

theorem Whole.between {ws vs : List Word} {k : Kind} (hw : Whole ws) (hk : neutral k)
    (hv : Inner vs) : Whole (ws ++ k.word :: vs) := by
  have hinner := hw.inner.between hk hv
  refine ⟨by simp, hinner.trivia, hinner.balanced, fun w h => ?_⟩
  cases ws with
  | nil => exact absurd rfl hw.ne_nil
  | cons v ws =>
    cases ws with
    | nil =>
      have hv := hw.front v (by simp)
      simp only [List.cons_append, List.nil_append, List.take_succ_cons, List.take_zero,
        List.mem_cons, List.not_mem_nil, or_false] at h
      rcases h with rfl | rfl
      · exact hv
      · exact ne_eq_of_neutral hk
    | cons u ws => exact hw.front w (by simpa using h)

theorem Whole.cons {ws : List Word} {k : Kind} (hk : neutral k) (hw : Whole ws) :
    Whole (k.word :: ws) := by
  have hinner := Inner.nil.between hk hw.inner
  refine ⟨by simp, hinner.trivia, hinner.balanced, fun w h => ?_⟩
  cases ws with
  | nil => exact absurd rfl hw.ne_nil
  | cons v ws =>
    have hv := hw.front v (by simp)
    simp only [List.take_succ_cons, List.take_zero, List.mem_cons, List.not_mem_nil, or_false] at h
    rcases h with rfl | rfl
    · exact ne_eq_of_neutral hk
    · exact hv

theorem Inner.listed {parts : List (List Word)} (h : ∀ w ∈ parts, Inner w) (trailing : Bool) :
    Inner (listed parts trailing) := by
  have hcomma : neutral .comma := rfl
  fun_induction Grammar.listed parts trailing with
  | case1 => exact .nil
  | case2 w trailing =>
    have hw := h w (by simp)
    cases trailing with
    | false => simpa using hw
    | true => exact hw.between hcomma .nil
  | case3 w v ws trailing ih =>
    exact (h w (by simp)).between hcomma (ih fun u hu => h u (List.mem_cons_of_mem _ hu))

theorem Whole.bracketed {opening closing : Kind} (ho : opening.isOpening) (hc : closing.isClosing)
    {ws : List Word} (h : Inner ws) : Whole (bracketed opening closing ws) := by
  have hne {k : Kind} (hk : k.isOpening ∨ k.isClosing) : k.isTrivia = false ∧ k ≠ .eq := by
    revert hk
    cases k <;> decide
  have hdown (d : Nat) : Cursor.depthAfter (d + 1) closing = d := by
    have hopen : closing.isOpening = false := by
      revert hc
      cases closing <;> decide
    simp [Cursor.depthAfter, hopen, hc]
  refine ⟨by simp [Grammar.bracketed], fun w hw => ?_, fun d => ?_, fun w hw => ?_⟩
  · simp only [Grammar.bracketed, List.cons_append, List.mem_cons, List.mem_append,
      List.not_mem_nil, or_false] at hw
    rcases hw with rfl | hw | rfl
    · exact (hne (.inl ho)).1
    · exact h.trivia w hw
    · exact (hne (.inr hc)).1
  · simp only [Grammar.bracketed, depthOver_append, depthOver_cons, Kind.word_fst]
    rw [show Cursor.depthAfter d opening = d + 1 by simp [Cursor.depthAfter, ho], h.balanced, hdown]
    rfl
  · cases ws with
    | nil =>
      simp only [Grammar.bracketed, List.cons_append, List.nil_append, List.take_succ_cons,
        List.take_zero, List.mem_cons, List.not_mem_nil, or_false] at hw
      rcases hw with rfl | rfl
      · exact (hne (.inl ho)).2
      · exact (hne (.inr hc)).2
    | cons v ws =>
      have hv := h.head v rfl
      simp only [Grammar.bracketed, List.cons_append, List.take_succ_cons,
        List.take_zero, List.mem_cons, List.not_mem_nil, or_false] at hw
      rcases hw with rfl | rfl
      · exact (hne (.inl ho)).2
      · exact hv

theorem Whole.append {ws vs : List Word} (hw : Whole ws) (hv : Whole vs) : Whole (ws ++ vs) := by
  have hinner := hw.inner.append hv.inner
  refine ⟨by simp [hw.ne_nil], hinner.trivia, hinner.balanced, fun w h => ?_⟩
  rw [List.take_append] at h
  rcases List.mem_append.1 h with h | h
  · exact hw.front w h
  · exact hv.front w ((List.take_sublist_take_left (by omega)).mem h)

theorem NamedArgument.inner_text {a : NamedArgument} (h : Whole a.words) : Inner a.text := by
  refine ⟨fun w hw => ?_, fun d => ?_, by simp [NamedArgument.text]⟩
  · simp only [NamedArgument.text, List.mem_cons] at hw
    rcases hw with rfl | rfl | hw
    · rfl
    · rfl
    · exact h.trivia w hw
  · simp only [NamedArgument.text, depthOver_cons]
    exact h.balanced d

theorem inner_compared {more : List (Kind × List Word × Phrase)}
    (hop : ∀ m ∈ more, m.1.isComparison) (h : ∀ m ∈ more, Whole m.2.1) :
    Inner (more.flatMap fun m => m.1.word :: m.2.1) := by
  induction more with
  | nil => exact .nil
  | cons m more ih =>
    have hm := (h m List.mem_cons_self).cons (neutral_of_isComparison (hop m List.mem_cons_self))
    rw [List.flatMap_cons]
    exact hm.inner.append (ih (fun x hx => hop x (List.mem_cons_of_mem _ hx))
      (fun x hx => h x (List.mem_cons_of_mem _ hx)))

theorem Derives.words {n : Nat} {s : PhraseSort} {ws : List Word} {p : Phrase}
    (h : Derives n s ws p) : Whole ws := by
  induction h with
  | unconditional h ih => exact ih
  | conditional body condition alternative ih ih₁ ih₂ =>
    have hif := ih.between (k := .ifKw) rfl ih₁.inner
    exact hif.between (k := .elseKw) rfl ih₂.inner
  | unjoined h ih => exact ih
  | joined left hop right ih ih₁ => exact ih.between (neutral_of_joins hop) ih₁.inner
  | uncompared h ih => exact ih
  | @compared n w p more first hne hop operands ih ih₁ =>
    cases more with
    | nil => exact absurd rfl hne
    | cons m more =>
      have hmore := inner_compared (fun x hx => hop x (List.mem_cons_of_mem _ hx))
        (fun x hx => ih₁ x (List.mem_cons_of_mem _ hx))
      have hm := (ih₁ m List.mem_cons_self).inner.append hmore
      rw [List.flatMap_cons, List.cons_append]
      exact ih.between (neutral_of_isComparison (hop m List.mem_cons_self)) hm
  | plain h ih => exact ih
  | unary hop operand ih => exact ih.cons (neutral_of_starts hop)
  | base h ih => exact ih
  | power base exponent ih ih₁ => exact ih.between (k := .starStar) rfl ih₁.inner
  | bare h ih => exact ih
  | @call n w p positional named callee hpositional hnamed trailing ih ih₁ ih₂ =>
    refine ih.append (.bracketed rfl rfl (.listed (fun w hw => ?_) trailing))
    rcases List.mem_append.1 hw with hw | hw
    · obtain ⟨a, ha, rfl⟩ := List.mem_map.1 hw
      exact (ih₁ a ha).inner
    · obtain ⟨a, ha, rfl⟩ := List.mem_map.1 hw
      exact NamedArgument.inner_text (ih₂ a ha)
  | member object field ih =>
    exact ih.between (k := .dot) rfl (Whole.single (w := (.identifier, field)) rfl).inner
  | name x => exact .single rfl
  | literal h hname x => exact .single (neutral_of_isLiteral h)
  | paren h ih => exact .bracketed rfl rfl ih.inner
  | tuple h hone ih =>
    refine .bracketed rfl rfl (.listed (fun w hw => ?_) _)
    obtain ⟨a, ha, rfl⟩ := List.mem_map.1 hw
    exact (ih a ha).inner
  | list h trailing ih =>
    refine .bracketed rfl rfl (.listed (fun w hw => ?_) _)
    obtain ⟨a, ha, rfl⟩ := List.mem_map.1 hw
    exact (ih a ha).inner
  | dict hkey hvalue trailing ih ih₁ =>
    refine .bracketed rfl rfl (.listed (fun w hw => ?_) _)
    obtain ⟨e, he, rfl⟩ := List.mem_map.1 hw
    exact (ih e he).inner.between (k := .colon) rfl (ih₁ e he).inner

/-- The words of a sentence; there is at least one, none is trivia, and brackets are balanced. -/
theorem Sentence.Derives.words {ws : List Word} {s : Sentence} (h : Sentence.Derives ws s) :
    ws ≠ [] ∧ (∀ w ∈ ws, w.1.isTrivia = false) ∧ ∀ d, depthOver d ws = d := by
  cases h with
  | expression h => exact ⟨h.words.ne_nil, h.words.trivia, h.words.balanced⟩
  | @assignment targets w p hne htargets trailing value =>
    have hlisted : Inner (listed (targets.map Prod.fst) trailing) := by
      refine .listed (fun w hw => ?_) trailing
      obtain ⟨x, hx, rfl⟩ := List.mem_map.1 hw
      exact (htargets x hx).words.inner
    refine ⟨by simp, fun v hv => ?_, fun d => ?_⟩
    · rcases List.mem_append.1 hv with hv | hv
      · exact hlisted.trivia v hv
      · rcases List.mem_cons.1 hv with rfl | hv
        · rfl
        · exact value.words.trivia v hv
    · rw [depthOver_append, depthOver_cons, hlisted.balanced]
      exact value.words.balanced d

end Grammar

end ScriptTree
