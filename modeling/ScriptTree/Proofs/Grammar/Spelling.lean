import ScriptTree.Proofs.Grammar.Basic
import ScriptTree.Proofs.Statement.Partition

namespace ScriptTree

namespace Cursor

def Spells : List Word → Cursor → Cursor → Prop
  | [], c, c' => c' = c
  | w :: ws, c, c' => c.rest.head?.map Token.word = some w ∧ Spells ws c.bump.2 c'

theorem Spells.append {ws vs : List Word} {c c₁ c₂ : Cursor} (h : Spells ws c c₁)
    (h' : Spells vs c₁ c₂) : Spells (ws ++ vs) c c₂ := by
  induction ws generalizing c with
  | nil =>
    obtain rfl : c₁ = c := h
    exact h'
  | cons w ws ih => exact ⟨h.1, ih h.2⟩

theorem Spells.split {ws vs : List Word} {c c₂ : Cursor} (h : Spells (ws ++ vs) c c₂) :
    ∃ c₁, Spells ws c c₁ ∧ Spells vs c₁ c₂ := by
  induction ws generalizing c with
  | nil => exact ⟨c, rfl, h⟩
  | cons w ws ih =>
    obtain ⟨c₁, h₁, h₂⟩ := ih h.2
    exact ⟨c₁, ⟨h.1, h₁⟩, h₂⟩

theorem exists_rest_of_head? {c : Cursor} {w : Word} (h : c.rest.head?.map Token.word = some w) :
    ∃ t r, c.rest = t :: r ∧ t.word = w := by
  cases hr : c.rest with
  | nil => simp [hr] at h
  | cons t r => exact ⟨t, r, rfl, by simpa [hr] using h⟩

theorem kind_of_head? {c : Cursor} {w : Word} (h : c.rest.head?.map Token.word = some w) :
    c.kind = w.1 := by
  obtain ⟨t, r, hr, rfl⟩ := exists_rest_of_head? h
  exact kind_eq_of_rest hr

theorem bump_flush {c : Cursor} {w : Word} (h : c.rest.head?.map Token.word = some w) :
    c.flush.2.bump.2 = c.bump.2 := by
  obtain ⟨t, r, hr, -⟩ := exists_rest_of_head? h
  have hr' : c.flush.2.rest = t :: r := hr
  rw [bump_eq hr, bump_eq hr']
  rfl

theorem spells_flush {ws : List Word} (hne : ws ≠ []) {c c' : Cursor} :
    Spells ws c.flush.2 c' ↔ Spells ws c c' := by
  cases ws with
  | nil => exact absurd rfl hne
  | cons w ws =>
    apply and_congr_right
    intro h
    rw [bump_flush (c := c) h]

/-- A look ahead has no part in what is spelled. -/
theorem spells_looked {ws : List Word} (hne : ws ≠ []) {c c' : Cursor} :
    Spells ws (Expression.looked c) c' ↔ Spells ws c c' := by
  have hrest : (Expression.looked c).rest = c.rest := by
    unfold Expression.looked
    split <;> rfl
  cases ws with
  | nil => exact absurd rfl hne
  | cons w ws => rw [Spells, Spells, Expression.bump_looked, hrest]

/-! ### Words and the tokens around them -/

theorem spaced_append {d e : Nat} {ws : List Word} {run ts : List Token}
    (hrun : ∀ t ∈ run, skips d t) (h : Grammar.Spaced d ws ts e) :
    Grammar.Spaced d ws (run ++ ts) e := by
  induction run with
  | nil => exact h
  | cons t run ih =>
    have ht := hrun t List.mem_cons_self
    refine .trivia (isTrivia_of_skips ht) (fun hk => ?_) (ih fun u hu => hrun u (by simp [hu]))
    simpa [skips, hk] using ht

/-- The tokens that are taken for words hold the words. -/
theorem Spells.spaced {ws : List Word} (hws : ∀ w ∈ ws, w.1.isTrivia = false) {c c' : Cursor}
    (h : Spells ws c c') :
    ∃ ts, c.rest = ts ++ c'.rest ∧ Grammar.Spaced c.depth ws ts c'.depth := by
  induction ws generalizing c with
  | nil =>
    obtain rfl : c' = c := h
    exact ⟨[], rfl, .nil⟩
  | cons w ws ih =>
    obtain ⟨t, r, hr, rfl⟩ := exists_rest_of_head? h.1
    obtain ⟨ts, hts, hspaced⟩ := ih (fun w hw => hws w (List.mem_cons_of_mem _ hw)) h.2
    rw [bump_eq hr] at hts hspaced
    refine ⟨t :: (r.takeWhile (skips (depthAfter c.depth t.kind)) ++ ts), ?_, ?_⟩
    · rw [hr, List.cons_append, List.append_assoc, ← hts]
      exact congrArg _ (List.takeWhile_append_dropWhile).symm
    · refine .word (hws _ List.mem_cons_self) (spaced_append (fun u hu => ?_) hspaced)
      exact List.mem_takeWhile_imp hu

def depthOver (d : Nat) (ws : List Word) : Nat := ws.foldl (fun d w => depthAfter d w.1) d

theorem Spells.depth {ws : List Word} {c c' : Cursor} (h : Spells ws c c') :
    c'.depth = depthOver c.depth ws := by
  induction ws generalizing c with
  | nil =>
    obtain rfl : c' = c := h
    rfl
  | cons w ws ih =>
    obtain ⟨t, r, hr, rfl⟩ := exists_rest_of_head? h.1
    rw [ih h.2, bump_eq hr]
    rfl

theorem skip_of_skips {c : Cursor} {t : Token} {r : List Token} (hr : c.rest = t :: r)
    (h : skips c.depth t) :
    c.skip = skip { c with rest := r, pending := c.pending ++ [t], taken := c.taken + 1 } := by
  simp only [skip, passWhile, hr, List.takeWhile_cons, List.dropWhile_cons, h, if_true,
    List.length_cons, List.append_assoc, List.cons_append, List.nil_append]
  congr 1 <;> omega

theorem skip_of_not_skips {c : Cursor} {t : Token} {r : List Token} (hr : c.rest = t :: r)
    (h : skips c.depth t = false) :
    c.skip = { c with examined := max c.examined (c.taken + 1) } := by
  simp [skip, passWhile, hr, h]

/-- Spaced words are spelled, from behind the trivia before them to behind the trivia after them. -/
theorem spells_of_spaced {d e : Nat} {ws : List Word} {ts rest : List Token}
    (h : Grammar.Spaced d ws ts e) (hrest : ∀ t ∈ rest.head?, skips e t = false)
    {c : Cursor} (hd : c.depth = d) (hc : c.rest = ts ++ rest) :
    ∃ c', Spells ws c.skip c' ∧ c'.rest = rest := by
  induction h generalizing c with
  | @nil d =>
    refine ⟨c.skip, rfl, ?_⟩
    rw [List.nil_append] at hc
    simp only [skip, passWhile, hc, hd]
    cases rest with
    | nil => rfl
    | cons t r =>
      have ht : skips d t = false := hrest t rfl
      simp [ht]
  | @trivia d ws t ts e ht hbreak more ih =>
    have hskips : skips c.depth t := by
      unfold skips
      split
      · simpa [hd] using hbreak ‹_›
      · exact ht
    rw [skip_of_skips hc hskips]
    exact ih hrest hd rfl
  | @word d ws t ts e ht more ih =>
    have hskips : skips c.depth t = false := by
      unfold skips
      split
      · rename_i hk
        simp [hk, Kind.isTrivia] at ht
      · exact ht
    rw [skip_of_not_skips hc hskips]
    obtain ⟨c', hspells, hrest'⟩ := ih hrest
      (c := past { c with examined := max c.examined (c.taken + 1) } (depthAfter d t.kind)
        (ts ++ rest)) rfl rfl
    refine ⟨c', ⟨by simp [hc], ?_⟩, hrest'⟩
    rw [bump_eq (c := { c with examined := max c.examined (c.taken + 1) }) hc, hd]
    exact hspells

/-- Before the first of spaced words outside of brackets there is trivia, but no line break. -/
theorem exists_run_of_spaced {e : Nat} {ws : List Word} (hne : ws ≠ []) {ts : List Token}
    (h : Grammar.Spaced 0 ws ts e) :
    ∃ run t us, ts = run ++ t :: us ∧ (∀ u ∈ run, skips 0 u) ∧ t.kind.isTrivia = false := by
  induction ts generalizing ws with
  | nil =>
    cases h
    exact absurd rfl hne
  | cons t ts ih =>
    cases h with
    | trivia ht hbreak more =>
      obtain ⟨run, u, us, rfl, hrun, hu⟩ := ih hne more
      refine ⟨t :: run, u, us, rfl, List.forall_mem_cons.2 ⟨?_, hrun⟩, hu⟩
      have hline : t.kind ≠ .newline := fun hk => absurd (hbreak hk) (by decide)
      simpa [skips, hline] using ht
    | word ht more => exact ⟨[], t, ts, rfl, by simp, ht⟩

theorem skips_of_spaced_nil {d e : Nat} {ts : List Token} (h : Grammar.Spaced d [] ts e) :
    d = e ∧ ∀ u ∈ ts, skips e u := by
  induction ts with
  | nil =>
    cases h
    exact ⟨rfl, nofun⟩
  | cons t ts ih =>
    cases h with
    | trivia ht hbreak more =>
      obtain ⟨rfl, hts⟩ := ih more
      refine ⟨rfl, List.forall_mem_cons.2 ⟨?_, hts⟩⟩
      unfold skips
      split
      · simpa using hbreak ‹_›
      · exact ht

/-- Behind the last of spaced words outside of brackets there is trivia, but no line break. -/
theorem exists_line_of_spaced {d : Nat} {ws : List Word} (hne : ws ≠ []) {ts : List Token}
    (h : Grammar.Spaced d ws ts 0) :
    ∃ us t line, ts = us ++ t :: line ∧ t.kind.isTrivia = false ∧ ∀ u ∈ line, skips 0 u := by
  induction ts generalizing d ws with
  | nil =>
    cases h
    exact absurd rfl hne
  | cons t ts ih =>
    cases h with
    | trivia ht hbreak more =>
      obtain ⟨us, u, line, rfl, hu, hline⟩ := ih hne more
      exact ⟨t :: us, u, line, rfl, hu, hline⟩
    | @word _ ws _ _ _ ht more =>
      cases ws with
      | nil => exact ⟨[], t, ts, rfl, ht, (skips_of_spaced_nil more).2⟩
      | cons w ws =>
        obtain ⟨us, u, line, rfl, hu, hline⟩ := ih (List.cons_ne_nil w ws) more
        exact ⟨t :: us, u, line, rfl, hu, hline⟩

theorem start_eq_skip {e : Nat} {ws : List Word} (hne : ws ≠ []) {lead ts : List Token}
    (hlead : ∀ t ∈ lead, t.kind.isTrivia) (h : Grammar.Spaced 0 ws ts e) (rest : List Token) :
    start (lead ++ (ts ++ rest)) = skip ⟨ts ++ rest, lead, lead.length, 0, 0⟩ := by
  obtain ⟨run, t, us, rfl, hrun, ht⟩ := exists_run_of_spaced hne h
  -- Both classes of tokens end at the first word.
  have hpass {p : Token → Bool} (xs : List Token) (hxs : ∀ u ∈ xs, p u) (hp : ¬p t) :
      (xs ++ t :: (us ++ rest)).takeWhile p = xs ∧
        (xs ++ t :: (us ++ rest)).dropWhile p = t :: (us ++ rest) := by
    rw [List.takeWhile_append_of_pos hxs, List.dropWhile_append_of_pos hxs,
      List.takeWhile_cons_of_neg hp, List.dropWhile_cons_of_neg hp, List.append_nil]
    exact ⟨rfl, rfl⟩
  have hskips := hpass (p := skips 0) run hrun fun hs => by simp [isTrivia_of_skips hs] at ht
  have htrivia := hpass (p := fun u => u.kind.isTrivia) (lead ++ run)
    (fun u hu => (List.mem_append.1 hu).elim (hlead u) fun hu => isTrivia_of_skips (hrun u hu))
    (by simp [ht])
  rw [List.append_assoc] at htrivia
  rw [List.append_assoc, List.cons_append]
  simp only [start, skip, passWhile, hskips, htrivia]
  simp

/-- Spaced words behind trivia are spelled from the start. -/
theorem exists_spells_start {ws : List Word} (hne : ws ≠ []) {lead ts : List Token}
    (hlead : ∀ t ∈ lead, t.kind.isTrivia) (h : Grammar.Spaced 0 ws ts 0) (rest : List Token)
    (hrest : ∀ t ∈ rest.head?, skips 0 t = false) :
    ∃ c', Spells ws (start (lead ++ (ts ++ rest))) c' ∧ c'.rest = rest := by
  rw [start_eq_skip hne hlead h rest]
  exact spells_of_spaced h hrest (c := ⟨ts ++ rest, lead, lead.length, 0, 0⟩) rfl rfl

end Cursor

end ScriptTree
