import ScriptTree.Ast.Statement
import ScriptTree.Proofs.Grammar.Soundness

namespace ScriptTree

open Grammar (sentence_of_parse?)

def Word.commentContent? (w : Word) : Option Text :=
  if w.1 = .comment then some (Text.commentContent w.2) else none

namespace Statement

structure Front (t : Tree) (lead : List Token) : Prop where
  trivia : ∀ u ∈ lead, u.kind.isTrivia
  children : ∃ u g, t.children = lead.map Token.tree ++ u :: g ∧ u.isTrivia = false
  yield : ∃ v ws, t.yield = lead.map Token.word ++ v :: ws ∧ v.1.isTrivia = false

/-- Words with a terminator behind them: a semicolon, or the first line break behind the last word
that is no trivia. -/
inductive Ended : List Word → Prop
  | semicolon {ws w} (hw : w.1 = .semicolon) : Ended (ws ++ [w])
  | newline {ws v line w} (hv : v.1.isTrivia = false)
      (hline : ∀ u ∈ line, u.1.isTrivia ∧ u.1 ≠ .newline) (hw : w.1 = .newline) :
      Ended (ws ++ v :: (line ++ [w]))

theorem Ended.behind {ws : List Word} (h : Ended ws) (vs : List Word) : Ended (vs ++ ws) := by
  cases h with
  | semicolon hw =>
    rw [← List.append_assoc]
    exact .semicolon hw
  | newline hv hline hw =>
    rw [← List.append_assoc]
    exact .newline hv hline hw

theorem Ended.of_tokens {us line : List Token} {v w : Token} (hv : v.kind.isTrivia = false)
    (hline : ∀ u ∈ line, Cursor.skips 0 u) (hw : w.kind = .newline ∨ w.kind = .semicolon) :
    Ended ((us ++ v :: (line ++ [w])).map Token.word) := by
  rw [List.map_append, List.map_cons, List.map_append, List.map_singleton]
  rcases hw with hw | hw
  · refine .newline hv (fun u hu => ?_) hw
    obtain ⟨y, hy, rfl⟩ := List.mem_map.1 hu
    refine ⟨Cursor.isTrivia_of_skips (hline y hy), fun hk => ?_⟩
    have hk : y.kind = .newline := hk
    simpa [Cursor.skips, hk] using hline y hy
  · rw [← List.cons_append, ← List.append_assoc]
    exact .semicolon hw

theorem Front.frontComments_eq {t : Tree} {lead : List Token} (h : Front t lead) :
    Ast.frontComments t.children = lead.filterMap fun u => Word.commentContent? u.word := by
  obtain ⟨u, g, hchildren, hu⟩ := h.children
  have hlead : ∀ x ∈ lead.map Token.tree, x.isTrivia := by
    intro x hx
    obtain ⟨y, hy, rfl⟩ := List.mem_map.1 hx
    exact h.trivia y hy
  rw [Ast.frontComments, hchildren, List.takeWhile_append_of_pos hlead,
    List.takeWhile_cons_of_neg (by simp [hu]), List.append_nil, List.filterMap_map]
  refine List.filterMap_congr fun y _ => ?_
  obtain ⟨k, s⟩ := y
  cases k <;> rfl

/-- The body of a statement without errors comes behind the trivia, and does not start with any. -/
theorem Body.front {c c' : Cursor} {k : Kind} {f : Forest} (h : Body c k f c')
    (herr : Forest.hasError f = false) {t : Token} {r : List Token} (hr : c.rest = t :: r)
    (ht : t.kind.isTrivia = false) :
    ∃ u g, f = c.pending.map Token.tree ++ u :: g ∧ u.isTrivia = false := by
  cases h with
  | empty h => simp at herr
  | expression h expr hcomma heq =>
    cases expr with
    | @operand _ _ _ u _ expr =>
      refine ⟨u, [], rfl, ?_⟩
      cases u with
      | node k ts => rfl
      | token k s =>
        -- A single token is the first one that is ahead.
        obtain ⟨ts, hts, hyield⟩ := expr.moves.ahead
        have hahead : c.flush.2.ahead = t :: r := by simp [Cursor.ahead, Cursor.flush, hr]
        cases ts with
        | nil => simp [Tree.yield] at hyield
        | cons x ts =>
          rw [hahead, List.cons_append] at hts
          obtain ⟨rfl, -⟩ := List.cons.inj hts
          obtain ⟨hword, -⟩ : (k, s) = t.word ∧ ts = [] := by simpa [Tree.yield] using hyield
          have hk : k = t.kind := congrArg Prod.fst hword
          rw [Tree.isTrivia, hk, ht]
  | assignment h target hmore more heq value => exact ⟨_, _, rfl, rfl⟩
  | unassigned h target hmore more heq => exact ⟨_, _, rfl, rfl⟩

/-- A statement without errors starts with trivia and ends with a terminator, or nothing is left
behind it. -/
theorem front_of_parse? {tokens rest : List Token} {n : Nat} {x : Statement}
    (h : parse? tokens n = some (x, rest)) (hs : ∀ t ∈ tokens, t.word.Spelled)
    (herr : x.tree.hasError = false) :
    (∃ lead, Front x.tree lead) ∧ (rest = [] ∨ Ended x.tree.yield) := by
  obtain ⟨ws, p, ts, hd, hspaced, hend⟩ := sentence_of_parse? h hs herr
  obtain ⟨-, own, htokens, howns⟩ := owns_of_parse? (fun t ht => (hs t ht).ne_eof) h
  obtain ⟨hall, k, f, c, hb, -, rfl⟩ := exists_of_parse? h
  obtain ⟨t, r, hr, ht⟩ := Cursor.exists_rest_start hall
  have hahead : own ++ rest = (Cursor.start tokens).pending ++ (Cursor.start tokens).rest :=
    htokens.symm.trans (Cursor.ahead_start tokens).symm
  -- What it owns is the trivia and the sentence, and the terminator if there is one.
  obtain ⟨last, hown, hlast⟩ : ∃ last, own = (Cursor.start tokens).pending ++ (ts ++ last) ∧
      (rest = [] ∨ ∃ t : Token, (t.kind = .newline ∨ t.kind = .semicolon) ∧ last = [t]) := by
    rcases hend with ⟨hts, rfl⟩ | ⟨t, ht, hts⟩
    · exact ⟨[], by simpa [hts] using hahead, .inl rfl⟩
    · refine ⟨[t], (List.append_left_inj rest).1 ?_, .inr ⟨t, ht, rfl⟩⟩
      simp [hahead, hts]
  obtain ⟨us, v, line, rfl, hv, hline⟩ := Cursor.exists_line_of_spaced hd.words.1 hspaced
  obtain ⟨more, hmore⟩ : ∃ more, us ++ v :: line = t :: more := by
    rw [hown, hr, List.append_assoc, List.append_cancel_left_eq] at hahead
    cases us with
    | nil => exact ⟨line, by rw [List.nil_append, (List.cons.inj hahead).1]⟩
    | cons a us => exact ⟨us ++ v :: line, by rw [List.cons_append, (List.cons.inj hahead).1]⟩
  simp only [Tree.hasError_node, Forest.hasError_append, Bool.or_eq_false_iff] at herr
  obtain ⟨u, g, rfl, hu⟩ := hb.front herr.2.1 hr ht
  refine ⟨⟨_, (Cursor.start_ready tokens).1.trivia, ⟨u, g ++ (finish c).1, by simp [Tree.children],
    hu⟩, t.word, (more ++ last).map Token.word, ?_, ht⟩, hlast.imp_right ?_⟩
  · rw [howns.yield, hown, hmore]
    simp
  · rintro ⟨w, hw, rfl⟩
    rw [howns.yield, hown, List.map_append]
    have hended : Ended ((us ++ v :: (line ++ [w])).map Token.word) := .of_tokens hv hline hw
    simpa using hended.behind ((Cursor.start tokens).pending.map Token.word)

/-- Of statements without errors each has its trivia at the front, and each but the last one has a
terminator. -/
theorem Sequence.fronts {tokens tail : List Token} {n : Nat} {ss : List Statement}
    (h : Sequence tokens n ss tail) (hs : ∀ t ∈ tokens, t.word.Spelled)
    (herr : ∀ x ∈ ss, x.tree.hasError = false) :
    (∀ x ∈ ss, ∃ lead, Front x.tree lead) ∧
      ∀ front x back, ss = front ++ x :: back → back ≠ [] → Ended x.tree.yield := by
  induction h with
  | done h => simp
  | @step tokens n s rest ss tail h more ih =>
    obtain ⟨hfront, hend⟩ := front_of_parse? h hs (herr s List.mem_cons_self)
    obtain ⟨-, own, htokens, -⟩ := owns_of_parse? (fun t ht => (hs t ht).ne_eof) h
    obtain ⟨hfronts, hends⟩ := ih (fun t ht => hs t (by simp [htokens, ht]))
      fun x hx => herr x (List.mem_cons_of_mem _ hx)
    refine ⟨List.forall_mem_cons.2 ⟨hfront, hfronts⟩, fun front x back hss hback => ?_⟩
    cases front with
    | nil =>
      obtain ⟨rfl, rfl⟩ := List.cons.inj hss
      refine hend.resolve_left fun hrest => hback ?_
      subst hrest
      exact more.eq_nil
    | cons y front => exact hends front x back (List.cons.inj hss).2 hback

end Statement

end ScriptTree
