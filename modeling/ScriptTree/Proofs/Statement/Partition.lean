import ScriptTree.Proofs.Statement.Runs

namespace ScriptTree

open Cursor (Moves)
open Expression (Parses maxNesting)

namespace Statement

/-- What stands before the terminator of a statement, and what does not belong to it. -/
inductive Body : Cursor → Kind → Forest → Cursor → Prop
  | empty {c} (h : c.atTerminator) : Body c .expressionStatement [.missing] c
  | expression {c f c'} (h : c.atTerminator = false)
      (expr : Parses maxNesting (.operand (.nested .whole)) c f c') (hcomma : c'.kind ≠ .comma)
      (heq : c'.kind ≠ .eq) : Body c .expressionStatement f c'
  | assignment {c t c₁ f c₂ g c₃} (h : c.atTerminator = false)
      (target : Parses maxNesting (.nested .whole) c.flush.2 [t] c₁)
      (hmore : c₁.kind = .comma ∨ c₁.kind = .eq) (more : Parses maxNesting .targets c₁ f c₂)
      (heq : c₂.kind = .eq) (value : Parses maxNesting (.operand (.nested .whole)) c₂.bump.2 g c₃) :
      Body c .assignment
        (c.flush.1 ++ (.node .assignmentTargets (t :: f) :: c₂.bump.1 ++ g)) c₃
  | unassigned {c t c₁ f c₂} (h : c.atTerminator = false)
      (target : Parses maxNesting (.nested .whole) c.flush.2 [t] c₁)
      (hmore : c₁.kind = .comma ∨ c₁.kind = .eq) (more : Parses maxNesting .targets c₁ f c₂)
      (heq : c₂.kind ≠ .eq) :
      Body c .assignment (c.flush.1 ++ [.node .assignmentTargets (t :: f), .missing]) c₂

theorem parses_targetsLoop (fuel : Nat) (c : Cursor) (hfuel : c.rest.length ≤ fuel) :
    Parses maxNesting .targets c (targetsLoop fuel c).1 (targetsLoop fuel c).2 := by
  induction fuel generalizing c with
  | zero => exact .targetsEnd ((Expression.kind_eq_eof_of_length hfuel).trans_ne (by decide))
  | succ fuel ih =>
    rw [targetsLoop]
    split
    · rename_i hcomma
      have htarget := Expression.parses_parse.operand c.bump.2
      have hlt := Expression.length_rest_lt (hcomma.trans_ne (by decide)) htarget.moves
      by_cases hend : c.bump.2.kind = .eq ∨ c.bump.2.atTerminator
      · simp only [Bool.or_eq_true, decide_eq_true_eq, hend, if_true]
        exact .targetsTrailing hcomma hend
      · simp only [Bool.or_eq_true, decide_eq_true_eq, hend, if_false]
        exact .targetsMore hcomma hend htarget (ih _ (Nat.le_of_lt_succ (hlt.trans_le hfuel)))
    · rename_i hcomma
      exact .targetsEnd hcomma

theorem targetsLoop_eq {c c' : Cursor} {f : Forest} (h : Parses maxNesting .targets c f c') :
    targetsLoop c.rest.length c = (f, c') :=
  h.runs rfl _ (Nat.le_refl _)

theorem body_eq {c c' : Cursor} {k : Kind} {f : Forest} (h : Body c k f c') :
    body c = (k, f, c') := by
  unfold body
  cases h with
  | empty h => rw [if_pos h]
  | expression h expr hcomma heq =>
    cases expr with
    | operand expr =>
      have hexpr : Expression.parse c.flush.2 = _ := Expression.runs_whole expr.runs
      simp only [h, Bool.false_eq_true, if_false, hexpr, hcomma, heq, decide_false, Bool.or_self]
  | assignment h target hmore more heq value =>
    have htarget : Expression.parse c.flush.2 = _ := Expression.runs_whole target.runs
    have hvalue : Cursor.operand _ Expression.parse = _ :=
      Expression.Goal.Runs.operand_eq Expression.runs_whole value.runs
    simp only [h, Bool.false_eq_true, if_false, htarget, Bool.or_eq_true, decide_eq_true_eq, hmore,
      if_true, Statement.assignment, targetsLoop_eq more, heq, hvalue]
  | unassigned h target hmore more heq =>
    have htarget : Expression.parse c.flush.2 = _ := Expression.runs_whole target.runs
    simp only [h, Bool.false_eq_true, if_false, htarget, Bool.or_eq_true, decide_eq_true_eq, hmore,
      if_true, Statement.assignment, targetsLoop_eq more, heq]

theorem exists_body (c : Cursor) : ∃ k f c', Body c k f c' := by
  by_cases h : c.atTerminator
  · exact ⟨_, _, _, .empty h⟩
  · have h : c.atTerminator = false := by simpa using h
    obtain ⟨⟨t, c₁⟩, ht⟩ : ∃ r, Expression.parse c.flush.2 = r := ⟨_, rfl⟩
    have htarget := Expression.parses_parse c.flush.2 rfl
    rw [ht] at htarget
    have hmore := parses_targetsLoop _ c₁ (Nat.le_refl _)
    by_cases hk : c₁.kind = .comma ∨ c₁.kind = .eq
    · by_cases heq : (targetsLoop c₁.rest.length c₁).2.kind = .eq
      · exact ⟨_, _, _, .assignment h htarget hk hmore heq (Expression.parses_parse.operand _)⟩
      · exact ⟨_, _, _, .unassigned h htarget hk hmore heq⟩
    · rw [not_or] at hk
      exact ⟨_, _, _, .expression h (.operand htarget) hk.1 hk.2⟩

/-! ### What a statement takes -/

theorem Body.moves {c c' : Cursor} {k : Kind} {f : Forest} (h : Body c k f c') : Moves c f c' := by
  cases h with
  | empty h => exact (Moves.refl c).missing
  | expression h expr hcomma heq => exact expr.moves
  | assignment h target hmore more heq value =>
    have htargets := (target.moves.trans more.moves).node .assignmentTargets
    have hbump := Cursor.bump_moves (heq.trans_ne (by decide))
    exact (Cursor.flush_moves c).trans ((htargets.trans hbump).trans value.moves)
  | unassigned h target hmore more heq =>
    have htargets := (target.moves.trans more.moves).node .assignmentTargets
    exact (Cursor.flush_moves c).trans htargets.missing

/-- The body never gives back the trivia before the statement. -/
theorem Body.length_rest_le {c c' : Cursor} {k : Kind} {f : Forest} (h : Body c k f c') :
    c'.rest.length ≤ c.rest.length := by
  cases h with
  | empty h => exact Nat.le_refl _
  | expression h expr hcomma heq => exact expr.length_rest_le_of_operand
  | assignment h target hmore more heq value =>
    have hmoves := target.moves.trans more.moves
    have hbump := Cursor.bump_moves (heq.trans_ne (by decide))
    exact c'.length_rest_le_ahead.trans
      ((hmoves.trans hbump).trans value.moves).length_ahead_le
  | unassigned h target hmore more heq =>
    exact c'.length_rest_le_ahead.trans (target.moves.trans more.moves).length_ahead_le

end Statement

namespace Cursor

@[simp] theorem ahead_start (tokens : List Token) : (start tokens).ahead = tokens :=
  ahead_passWhile ..

theorem start_ready (tokens : List Token) :
    (start tokens).Ready ∧ (start tokens).taken + (start tokens).rest.length = tokens.length := by
  have hlen := congrArg List.length
    (List.takeWhile_append_dropWhile (p := fun t : Token => t.kind.isTrivia) (l := tokens))
  rw [List.length_append] at hlen
  simp only [start, passWhile, List.nil_append, Nat.zero_add]
  refine ⟨⟨Nat.le_refl _, by simp, fun t ht => ?_⟩, hlen⟩
  exact List.mem_takeWhile_imp (p := fun t : Token => t.kind.isTrivia) ht

/-- The first token that is no trivia is the current one. -/
theorem exists_rest_start {tokens : List Token} (h : ¬tokens.all fun t => t.kind.isTrivia) :
    ∃ t r, (start tokens).rest = t :: r ∧ t.kind.isTrivia = false := by
  have hne : tokens.dropWhile (fun t => t.kind.isTrivia) ≠ [] := by
    intro hnil
    rw [List.dropWhile_eq_nil_iff] at hnil
    exact h (List.all_eq_true.2 hnil)
  obtain ⟨t, r, hr⟩ := List.exists_cons_of_ne_nil hne
  refine ⟨t, r, hr, ?_⟩
  have hhead := List.head_dropWhile_not (fun t : Token => t.kind.isTrivia) hne
  simp only [hr, List.head_cons] at hhead
  exact hhead

theorem kind_of_atTerminator {c : Cursor} (h : c.atTerminator) (heof : c.kind ≠ .eof) :
    c.kind = .newline ∨ c.kind = .semicolon := by
  unfold atTerminator at h
  split at h
  · exact .inl ‹_›
  · exact .inr ‹_›
  · contradiction
  · exact absurd h (by simp)

/-- Behind the last token that is no trivia the tokens are trivia. -/
theorem append_drop_dropTrailing (ts : List Token) :
    dropTrailing ts ++ ts.drop (dropTrailing ts).length = ts ∧
      ∀ t ∈ ts.drop (dropTrailing ts).length, t.kind.isTrivia := by
  obtain ⟨trail, htrail⟩ :
      ∃ trail, (ts.reverse.takeWhile fun t => t.kind.isTrivia).reverse = trail := ⟨_, rfl⟩
  have hsplit : dropTrailing ts ++ trail = ts := by
    rw [← htrail, dropTrailing, ← List.reverse_append, List.takeWhile_append_dropWhile,
      List.reverse_reverse]
  have hdrop : (dropTrailing ts ++ trail).drop (dropTrailing ts).length = trail := List.drop_left
  rw [hsplit] at hdrop
  rw [hdrop]
  refine ⟨hsplit, fun t ht => ?_⟩
  rw [← htrail] at ht
  exact List.mem_takeWhile_imp (p := fun t : Token => t.kind.isTrivia) (List.mem_reverse.1 ht)

theorem junk_moves (c : Cursor) : Moves c c.junk.1 c.junk.2 := by
  unfold junk
  have hrest := List.takeWhile_append_dropWhile (p := fun t => !ends c.depth t) (l := c.rest)
  generalize c.rest.takeWhile (fun t => !ends c.depth t) = run at hrest ⊢
  obtain ⟨htrail, htrivia⟩ := append_drop_dropTrailing run
  dsimp only
  generalize run.drop (dropTrailing run).length = trail at htrail htrivia ⊢
  have hlen := congrArg List.length hrest
  have hlen' := congrArg List.length htrail
  rw [List.length_append] at hlen hlen'
  refine ⟨⟨c.pending ++ dropTrailing run, ?_, by simp⟩, Nat.le_max_left ..,
    fun hr => ⟨⟨?_, ?_, ?_⟩, ?_⟩⟩
  · simp only [ahead]
    rw [List.append_assoc, ← List.append_assoc (dropTrailing _), htrail, hrest]
  · show trail.length ≤ c.taken + run.length
    omega
  · show c.taken + run.length < max c.examined (c.taken + run.length + 1)
    omega
  · exact htrivia
  · show c.taken + run.length + (c.rest.dropWhile _).length = c.taken + c.rest.length
    omega

/-- Behind the junk the statement ends. -/
theorem atTerminator_junk (c : Cursor) : c.junk.2.atTerminator := by
  unfold atTerminator
  cases hr : c.junk.2.rest with
  | nil => rw [kind_eq_eof hr]
  | cons t r =>
    rw [kind_eq_of_rest hr]
    have hne : c.rest.dropWhile (fun t => !ends c.depth t) ≠ [] := by
      intro hnil
      simp [junk, hnil] at hr
    have hhead := List.head_dropWhile_not (fun t => !ends c.depth t) hne
    have hr' : c.rest.dropWhile (fun t => !ends c.depth t) = t :: r := hr
    simp only [hr', List.head_cons] at hhead
    simp only [ends, Bool.not_eq_false', Bool.or_eq_true, Bool.and_eq_true, decide_eq_true_eq]
      at hhead
    rcases hhead with (hk | hk) | ⟨hk, -⟩ <;> rw [hk]

end Cursor

namespace Statement

def finish (c : Cursor) : Forest × Cursor :=
  let junk := if c.atTerminator then ([], c) else c.junk
  (junk.1 ++ (ending junk.2).1, (ending junk.2).2)

theorem parse?_eq {tokens : List Token} (h : ¬tokens.all fun t => t.kind.isTrivia) (first : Nat)
    {k : Kind} {f : Forest} {c : Cursor} (hb : Body (.start tokens) k f c) :
    parse? tokens first =
      some (⟨first, (finish c).2.taken, max (finish c).2.examined (finish c).2.taken,
        .node k (f ++ (finish c).1)⟩, (finish c).2.rest) := by
  unfold parse?
  rw [if_neg h, body_eq hb]
  simp only [finish, List.append_assoc]

theorem exists_of_parse? {tokens rest : List Token} {first : Nat} {s : Statement}
    (h : parse? tokens first = some (s, rest)) :
    (¬tokens.all fun t => t.kind.isTrivia) ∧
      ∃ k f c, Body (.start tokens) k f c ∧ rest = (finish c).2.rest ∧
        s = ⟨first, (finish c).2.taken, max (finish c).2.examined (finish c).2.taken,
          .node k (f ++ (finish c).1)⟩ := by
  have hall : ¬tokens.all fun t => t.kind.isTrivia := by
    intro hall
    rw [parse?, if_pos hall] at h
    exact absurd h (by simp)
  obtain ⟨k, f, c, hb⟩ := exists_body (.start tokens)
  rw [parse?_eq hall first hb] at h
  obtain ⟨rfl, rfl⟩ := Prod.mk.inj (Option.some.inj h)
  exact ⟨hall, k, f, c, hb, rfl, rfl⟩

/-- A line break or a semicolon is taken with the trivia before it. -/
theorem exists_ending {c : Cursor} (h : c.kind = .newline ∨ c.kind = .semicolon) :
    ∃ t r, c.rest = t :: r ∧ t.kind = c.kind ∧
      ending c = (c.pending.map Token.tree ++ [t.tree], c.past c.depth r) := by
  have hne : c.kind ≠ .eof := by
    rcases h with h | h <;> exact h.trans_ne (by decide)
  obtain ⟨t, r, hr, ht⟩ := Cursor.exists_rest hne
  refine ⟨t, r, hr, ht, ?_⟩
  rw [ending, if_pos (by simpa using h), Cursor.take_eq hr]

theorem ending_eq_flush {c : Cursor} (h : ¬(c.kind = .newline ∨ c.kind = .semicolon)) :
    ending c = c.flush := by
  rw [ending, if_neg (by simpa using h)]

theorem kind_or_rest_of_atTerminator {c : Cursor} (h : c.atTerminator)
    (heof : ∀ t ∈ c.rest, t.kind ≠ .eof) :
    (c.kind = .newline ∨ c.kind = .semicolon) ∨ c.rest = [] := by
  cases hr : c.rest with
  | nil => exact .inr rfl
  | cons t r =>
    have hkind := Cursor.kind_eq_of_rest hr
    exact .inl (c.kind_of_atTerminator h (hkind ▸ heof t (by simp [hr])))

/-- At the end all trivia is in the tree, and so is the terminator, if there is one. -/
theorem ending_split (c : Cursor) :
    (∃ ts, c.ahead = ts ++ (ending c).2.rest ∧ Forest.yield (ending c).1 = ts.map Token.word) ∧
      (ending c).2.taken + (ending c).2.rest.length = c.taken + c.rest.length := by
  by_cases hk : c.kind = .newline ∨ c.kind = .semicolon
  · obtain ⟨t, r, hr, -, hending⟩ := exists_ending hk
    rw [hending]
    refine ⟨⟨c.pending ++ [t], by simp [Cursor.ahead, Cursor.past, hr], by simp⟩, ?_⟩
    simp only [Cursor.past, hr, List.length_cons]
    omega
  · rw [ending_eq_flush hk]
    exact ⟨⟨c.pending, rfl, by simp [Cursor.flush]⟩, rfl⟩

theorem ending_progress {c : Cursor} (h : c.atTerminator) (heof : ∀ t ∈ c.rest, t.kind ≠ .eof) :
    (ending c).2.rest.length < c.rest.length ∨ (ending c).2.rest = [] := by
  rcases kind_or_rest_of_atTerminator h heof with hk | hrest
  · obtain ⟨t, r, hr, -, hending⟩ := exists_ending hk
    rw [hending, hr]
    exact .inl (by simp [Cursor.past])
  · rw [ending_eq_flush (by rw [Cursor.kind_eq_eof hrest]; decide)]
    exact .inr hrest

theorem exists_junk (c : Cursor) :
    ∃ f c', (if c.atTerminator then ([], c) else c.junk) = (f, c') ∧ Moves c f c' ∧
      c'.atTerminator ∧ c'.rest.length ≤ c.rest.length := by
  by_cases h : c.atTerminator
  · exact ⟨_, _, if_pos h, .refl c, h, Nat.le_refl _⟩
  · exact ⟨_, _, if_neg h, c.junk_moves, c.atTerminator_junk,
      (List.dropWhile_suffix _).length_le⟩

theorem finish_split {c : Cursor} (hr : c.Ready) :
    (∃ ts, c.ahead = ts ++ (finish c).2.rest ∧ Forest.yield (finish c).1 = ts.map Token.word) ∧
      (finish c).2.taken + (finish c).2.rest.length = c.taken + c.rest.length := by
  obtain ⟨f, c', hj, hmoves, -, -⟩ := exists_junk c
  obtain ⟨ts, hts, hyield⟩ := hmoves.ahead
  obtain ⟨⟨us, hus, hyield'⟩, htaken⟩ := ending_split c'
  obtain ⟨-, htaken'⟩ := hmoves.ready hr
  unfold finish
  simp only [hj]
  exact ⟨⟨ts ++ us, by rw [hts, hus, List.append_assoc], by simp [hyield, hyield']⟩, by omega⟩

theorem finish_progress {c : Cursor} (heof : ∀ t ∈ c.ahead, t.kind ≠ .eof) :
    (finish c).2.rest.length < c.rest.length ∨ (finish c).2.rest = [] := by
  obtain ⟨f, c', hj, hmoves, hterm, hle⟩ := exists_junk c
  obtain ⟨ts, hts, -⟩ := hmoves.ahead
  have hrest : ∀ t ∈ c'.rest, t.kind ≠ .eof := by
    intro t ht
    apply heof t
    rw [hts, Cursor.ahead]
    simp [ht]
  unfold finish
  simp only [hj]
  rcases ending_progress hterm hrest with hlt | hnil
  · exact .inl (by omega)
  · exact .inr hnil

/-- A statement takes as many tokens from the front as it counts. -/
theorem drop_of_parse? {tokens rest : List Token} {first : Nat} {s : Statement}
    (h : parse? tokens first = some (s, rest)) : tokens.drop s.count = rest := by
  obtain ⟨-, k, f, c, hb, rfl, rfl⟩ := exists_of_parse? h
  obtain ⟨hr₀, hlen₀⟩ := Cursor.start_ready tokens
  obtain ⟨hr, hlen⟩ := hb.moves.ready hr₀
  obtain ⟨ts, hts, -⟩ := hb.moves.ahead
  obtain ⟨⟨us, hus, -⟩, htaken⟩ := finish_split hr
  have htokens : tokens = (ts ++ us) ++ (finish c).2.rest := by
    rw [List.append_assoc, ← hus, ← hts, Cursor.ahead_start]
  have hcount : (finish c).2.taken = (ts ++ us).length := by
    have hlen' := congrArg List.length htokens
    rw [List.length_append] at hlen'
    omega
  dsimp only
  rw [hcount]
  conv_lhs => rw [htokens]
  exact List.drop_left

structure Owns (s : Statement) (ts : List Token) : Prop where
  count : s.count = ts.length
  examined : s.count ≤ s.examined
  yield : s.tree.yield = ts.map Token.word
  significant : ∃ t ∈ ts, t.kind.isTrivia = false

/-- A statement owns the tokens before those that are left. -/
theorem owns_of_parse? {tokens rest : List Token} {first : Nat} {s : Statement}
    (heof : ∀ t ∈ tokens, t.kind ≠ .eof) (h : parse? tokens first = some (s, rest)) :
    s.first = first ∧ ∃ ts, tokens = ts ++ rest ∧ s.Owns ts := by
  obtain ⟨hall, k, f, c, hb, rfl, rfl⟩ := exists_of_parse? h
  obtain ⟨hr₀, hlen₀⟩ := Cursor.start_ready tokens
  obtain ⟨hr, hlen⟩ := hb.moves.ready hr₀
  obtain ⟨ts, hts, hyield⟩ := hb.moves.ahead
  rw [Cursor.ahead_start] at hts
  obtain ⟨⟨us, hus, hyield'⟩, htaken⟩ := finish_split hr
  have hend := finish_progress (c := c)
    (fun t ht => heof t (by rw [hts]; exact List.mem_append_right _ ht))
  have htokens : tokens = (ts ++ us) ++ (finish c).2.rest := by rw [hts, hus, List.append_assoc]
  have hcount : (finish c).2.taken = (ts ++ us).length := by
    have hlen' := congrArg List.length htokens
    rw [List.length_append] at hlen'
    omega
  refine ⟨rfl, ts ++ us, htokens, hcount, Nat.le_max_right .., by simp [hyield, hyield'], ?_⟩
  -- The first token that is no trivia is owned, since fewer tokens are left than from it on.
  obtain ⟨t, r, hrest, ht⟩ := Cursor.exists_rest_start hall
  refine ⟨t, ?_, ht⟩
  have hle := hb.length_rest_le
  have hsplit : (Cursor.start tokens).pending ++ t :: r = (ts ++ us) ++ (finish c).2.rest := by
    rw [← htokens, ← hrest]
    exact Cursor.ahead_start tokens
  have hlt : (Cursor.start tokens).pending.length < (ts ++ us).length := by
    have hlen' := congrArg List.length hsplit
    simp only [List.length_append, List.length_cons] at hlen' ⊢
    simp only [hrest, List.length_cons] at hle
    rcases hend with hlt | hnil
    · omega
    · rw [hnil, List.length_nil] at hlen'
      omega
  have hget := congrArg (·[(Cursor.start tokens).pending.length]?) hsplit
  simp only [List.getElem?_append_right (Nat.le_refl _), Nat.sub_self, List.getElem?_cons_zero,
    List.getElem?_append_left hlt] at hget
  exact List.mem_of_getElem? hget.symm

/-! ### Statements one after another -/

/-- The statements of tokens of which the first has the index `n`, and the trivia after them. -/
inductive Sequence : List Token → Nat → List Statement → List Token → Prop
  | done {tokens n} (h : parse? tokens n = none) : Sequence tokens n [] tokens
  | step {tokens n s rest ss tail} (h : parse? tokens n = some (s, rest))
      (more : Sequence rest (n + s.count) ss tail) : Sequence tokens n (s :: ss) tail

theorem Sequence.eq_nil {tail : List Token} {n : Nat} {ss : List Statement}
    (h : Sequence [] n ss tail) : ss = [] := by
  cases h with
  | done h => rfl
  | step h more => simp [parse?] at h

theorem length_rest_lt_of_parse? {tokens rest : List Token} {first : Nat} {s : Statement}
    (heof : ∀ t ∈ tokens, t.kind ≠ .eof) (h : parse? tokens first = some (s, rest)) :
    rest.length < tokens.length ∧ ∀ t ∈ rest, t.kind ≠ .eof := by
  obtain ⟨-, ts, rfl, hs⟩ := owns_of_parse? heof h
  obtain ⟨t, ht, -⟩ := hs.significant
  have := List.length_pos_of_mem ht
  refine ⟨by rw [List.length_append]; omega, fun t ht => heof t (List.mem_append_right _ ht)⟩

theorem sequence_parseAllLoop (fuel : Nat) {tokens : List Token} (n : Nat)
    (heof : ∀ t ∈ tokens, t.kind ≠ .eof) (hfuel : tokens.length ≤ fuel) :
    Sequence tokens n (parseAllLoop fuel tokens n).1 (parseAllLoop fuel tokens n).2 := by
  induction fuel generalizing tokens n with
  | zero =>
    obtain rfl := List.length_eq_zero_iff.1 (Nat.le_zero.1 hfuel)
    exact .done rfl
  | succ fuel ih =>
    rw [parseAllLoop]
    split
    · rename_i h
      exact .done h
    · rename_i s rest h
      obtain ⟨hlt, hrest⟩ := length_rest_lt_of_parse? heof h
      exact .step h (ih _ hrest (by omega))

/-- Statements that follow one another are those that are parsed. -/
theorem Sequence.parseAllLoop_eq {tokens tail : List Token} {n : Nat} {ss : List Statement}
    (h : Sequence tokens n ss tail) (heof : ∀ t ∈ tokens, t.kind ≠ .eof) {fuel : Nat}
    (hfuel : tokens.length ≤ fuel) : parseAllLoop fuel tokens n = (ss, tail) := by
  induction h generalizing fuel with
  | done h =>
    cases fuel with
    | zero => rfl
    | succ fuel =>
      rw [parseAllLoop]
      simp only [h]
  | step h more ih =>
    obtain ⟨hlt, hrest⟩ := length_rest_lt_of_parse? heof h
    obtain ⟨fuel, rfl⟩ : ∃ m, fuel = m + 1 := ⟨fuel - 1, by omega⟩
    rw [parseAllLoop]
    simp only [h, ih hrest (by omega : _ ≤ fuel)]

def Contiguous : Nat → List Statement → Prop
  | _, [] => True
  | n, s :: ss => s.first = n ∧ Contiguous (n + s.count) ss

def tokenCount (ss : List Statement) : Nat := (ss.map Statement.count).sum

/-- Each index that statements count belongs to one of them. -/
theorem Contiguous.exists_owner {n i : Nat} {ss : List Statement} (h : Contiguous n ss)
    (hle : n ≤ i) (hlt : i < n + tokenCount ss) :
    ∃ s ∈ ss, s.first ≤ i ∧ i < s.first + s.count := by
  induction ss generalizing n with
  | nil => exact absurd hlt hle.not_gt
  | cons s ss ih =>
    obtain ⟨rfl, hmore⟩ := h
    by_cases hi : i < s.first + s.count
    · exact ⟨s, List.mem_cons_self, hle, hi⟩
    · rw [tokenCount, List.map_cons, List.sum_cons, ← Nat.add_assoc] at hlt
      obtain ⟨u, hu, howns⟩ := ih hmore (Nat.le_of_not_lt hi) hlt
      exact ⟨u, List.mem_cons_of_mem _ hu, howns⟩

theorem Sequence.contiguous {tokens tail : List Token} {n : Nat} {ss : List Statement}
    (h : Sequence tokens n ss tail) (heof : ∀ t ∈ tokens, t.kind ≠ .eof) : Contiguous n ss := by
  induction h with
  | done h => trivial
  | step h more ih =>
    exact ⟨(owns_of_parse? heof h).1, ih (length_rest_lt_of_parse? heof h).2⟩

theorem Sequence.tail_trivia {tokens tail : List Token} {n : Nat} {ss : List Statement}
    (h : Sequence tokens n ss tail) : ∀ t ∈ tail, t.kind.isTrivia := by
  induction h with
  | @done tokens n h =>
    unfold parse? at h
    split at h
    · rename_i hall
      exact List.all_eq_true.1 hall
    · exact absurd h (by simp)
  | step h more ih => exact ih

theorem Sequence.drop_tokenCount {tokens tail : List Token} {n : Nat} {ss : List Statement}
    (h : Sequence tokens n ss tail) (heof : ∀ t ∈ tokens, t.kind ≠ .eof) :
    tokens.drop (tokenCount ss) = tail := by
  induction h with
  | done h => rfl
  | @step tokens n s rest ss tail h more ih =>
    obtain ⟨-, ts, rfl, hs⟩ := owns_of_parse? heof h
    have hdrop := ih (length_rest_lt_of_parse? heof h).2
    simp only [tokenCount, List.map_cons, List.sum_cons] at hdrop ⊢
    rw [hs.count, ← List.drop_drop, List.drop_left, hdrop]

/-- A statement owns its range of the tokens, whatever stands before them. -/
theorem Sequence.owns {tokens tail : List Token} {n : Nat} {ss : List Statement}
    (h : Sequence tokens n ss tail) (heof : ∀ t ∈ tokens, t.kind ≠ .eof) (before : List Token)
    (hn : before.length = n) :
    ∀ s ∈ ss, s.Owns (((before ++ tokens).drop s.first).take s.count) := by
  induction h generalizing before with
  | done h => simp
  | @step tokens n s rest ss tail h more ih =>
    obtain ⟨hfirst, ts, rfl, hs⟩ := owns_of_parse? heof h
    intro x hx
    rcases List.mem_cons.1 hx with rfl | hx
    · rw [hfirst, ← hn, List.drop_left, hs.count, List.take_left]
      exact hs
    · have hrest := (length_rest_lt_of_parse? heof h).2
      have := ih hrest (before ++ ts) (by rw [List.length_append, hs.count, hn]) x hx
      rwa [List.append_assoc] at this

/-- The leaves of the statements and the tail are the tokens. -/
theorem Sequence.yield {tokens tail : List Token} {n : Nat} {ss : List Statement}
    (h : Sequence tokens n ss tail) (heof : ∀ t ∈ tokens, t.kind ≠ .eof) :
    (programTree (ss.map Statement.tree) tail).yield = tokens.map Token.word := by
  simp only [programTree, Tree.yield_node, Forest.yield_append, Forest.yield_map_tree]
  induction h with
  | done h => simp
  | @step tokens n s rest ss tail h more ih =>
    obtain ⟨-, ts, rfl, hs⟩ := owns_of_parse? heof h
    have hmore := ih (length_rest_lt_of_parse? heof h).2
    simp only [List.map_cons, Forest.yield_cons, List.map_append, hs.yield]
    rw [List.append_assoc, hmore]

end Statement

end ScriptTree
