import ScriptTree.Proofs.Machine.Calls
import ScriptTree.Proofs.Statement.Partition
import ScriptTree.Token.Lexer

namespace ScriptTree

open Expression (Parses maxNesting)

namespace Cursor

theorem dropTrailing_eq_nil {ts : List Token} (h : ∀ t ∈ ts, t.kind.isTrivia) :
    dropTrailing ts = [] := by
  rw [dropTrailing, List.dropWhile_eq_nil_iff.2 fun t ht => h t (List.mem_reverse.1 ht)]
  rfl

theorem dropTrailing_append_cons (us : List Token) {t : Token} (ht : t.kind.isTrivia = false)
    (ts : List Token) : dropTrailing (us ++ t :: ts) = us ++ t :: dropTrailing ts := by
  simp only [dropTrailing, List.reverse_append, List.reverse_cons, List.append_assoc,
    List.dropWhile_append]
  split
  · rename_i hempty
    simp [ht, List.isEmpty_iff.1 hempty]
  · simp

def pass (c : Cursor) : Forest × Cursor :=
  let run := c.rest.takeWhile fun t => !ends c.depth t
  let body := dropTrailing (c.pending ++ run)
  (body.map Token.tree,
    { c with
      rest := c.rest.dropWhile fun t => !ends c.depth t
      pending := (c.pending ++ run).drop body.length
      taken := c.taken + run.length
      examined := max c.examined (c.taken + run.length + 1) })

theorem junk_eq (c : Cursor) :
    c.junk = (c.flush.1 ++ [.node .error c.flush.2.pass.1], c.flush.2.pass.2) := rfl

def asked (c : Cursor) : Cursor := { c with examined := max c.examined (c.taken + 1) }

def kept (c : Cursor) (t : Token) (r : List Token) : Cursor :=
  { c with rest := r, pending := c.pending ++ [t], taken := c.taken + 1 }

section Pass

variable {c : Cursor} {t : Token} {r : List Token}

theorem pass_nil (hc : ∀ t ∈ c.pending, t.kind.isTrivia) (hr : c.rest = []) :
    c.pass = ([], c.asked) := by
  simp [pass, hr, dropTrailing_eq_nil hc, asked]

theorem pass_ends (hc : ∀ t ∈ c.pending, t.kind.isTrivia) (hr : c.rest = t :: r)
    (ht : ends c.depth t) : c.pass = ([], c.asked) := by
  simp [pass, hr, ht, dropTrailing_eq_nil hc, asked]

theorem pass_trivia (hr : c.rest = t :: r) (ht : ends c.depth t = false) :
    c.pass = (c.asked.kept t r).pass := by
  simp only [pass, hr, ht, asked, kept, Bool.not_false, List.takeWhile_cons_of_pos,
    List.dropWhile_cons_of_pos, List.append_assoc, List.singleton_append, List.length_cons,
    Prod.mk.injEq, Cursor.mk.injEq, true_and, and_true]
  omega

theorem pass_token (hr : c.rest = t :: r) (ht : ends c.depth t = false)
    (htrivia : t.kind.isTrivia = false) :
    c.pass = (c.pending.map Token.tree ++ [t.tree] ++ (c.asked.past c.depth r).pass.1,
      (c.asked.past c.depth r).pass.2) := by
  simp only [pass, hr, ht, asked, past, Bool.not_false, List.takeWhile_cons_of_pos,
    List.dropWhile_cons_of_pos, dropTrailing_append_cons _ htrivia, List.nil_append]
  simp
  omega

end Pass

end Cursor

namespace Machine

variable {ts : List Token} {s n : Nat} {m : Machine} {c c' : Cursor} {k : Kind} {f : Forest}

theorem Follows.ask (h : m.Follows ts s n c) :
    ∃ m', m.ask ts = (c.kind, m') ∧ m'.Follows ts s n c.asked ∧ m'.builder = m.builder := by
  have hpos := h.pos
  have hexamined := h.examined
  refine ⟨{ m with examined := max m.examined (m.pos + 1) }, by rw [Machine.ask, h.kind],
    ⟨h.start, h.pos, h.pending, h.pending_le, h.depth, h.levels, ?_, h.ahead⟩, rfl⟩
  dsimp only [Cursor.asked]
  omega

theorem Follows.skipOne (h : m.Follows ts s n c) {t : Token} {r : List Token}
    (hr : c.rest = t :: r) : m.skipOne.Follows ts s n (c.kept t r) := by
  have hpos := h.pos
  have hpending := h.pending
  have hle := h.pending_le
  refine ⟨h.start, ?_, ?_, ?_, h.depth, h.levels, h.examined, ?_⟩
  · dsimp only [Machine.skipOne, Cursor.kept]
    omega
  · simp [hpending, Machine.skipOne, Cursor.kept]
  · simpa [Cursor.kept] using hle
  · show ts.drop (m.pos + 1 - (m.pending + 1)) = c.pending ++ [t] ++ r
    rw [Nat.add_sub_add_right, h.ahead, Cursor.ahead, hr, List.append_assoc]
    rfl

/-- The loop adds the tokens with the trivia between them, up to the end of the statement. -/
theorem runs_junk (h : m.Follows ts s n c) (hc : ∀ t ∈ c.pending, t.kind.isTrivia) :
    ∃ m', Runs ts .junk m m' ∧ m'.Follows ts s n c.pass.2 ∧ m.builder.Adds c.pass.1 m'.builder := by
  -- By induction on the tokens that are left: one that is kept back stays pending, any other one is
  -- added with what is pending.
  obtain ⟨r, hr⟩ : ∃ r, c.rest = r := ⟨_, rfl⟩
  induction r generalizing c m with
  | nil =>
    obtain ⟨m₁, hask, hfollows, hbuilder⟩ := h.ask
    have hk := Cursor.kind_eq_eof hr
    rw [Cursor.pass_nil hc hr]
    refine ⟨m₁, runs_of_step ?_, hfollows, hbuilder ▸ .refl _⟩
    filter_upwards with fuel
    simp [step, junkMore, hask, hk]
  | cons t r ih =>
    obtain ⟨m₁, hask, hfollows, hbuilder⟩ := h.ask
    rw [Cursor.kind_eq_of_rest hr] at hask
    have hends : (t.kind = .eof || t.kind = .semicolon || (t.kind = .newline && m₁.depth = 0)) =
        Cursor.ends c.depth t := by
      rw [hfollows.depth]
      rfl
    by_cases ht : Cursor.ends c.depth t
    · rw [Cursor.pass_ends hc hr ht]
      refine ⟨m₁, runs_of_step ?_, hfollows, hbuilder ▸ .refl _⟩
      filter_upwards with fuel
      simp only [step, junkMore, hask, hends, if_pos ht]
    · have ht : Cursor.ends c.depth t = false := by simpa using ht
      by_cases htrivia : t.kind.isTrivia
      · have hkept : ∀ u ∈ (c.asked.kept t r).pending, u.kind.isTrivia := by
          intro u hu
          rcases List.mem_append.1 hu with hu | hu
          · exact hc u hu
          · rwa [List.mem_singleton.1 hu]
        rw [Cursor.pass_trivia hr ht]
        obtain ⟨m₂, hrun, hmore, hadds⟩ := ih (hfollows.skipOne hr) hkept rfl
        refine ⟨m₂, runs_of_step ?_, hmore, hbuilder ▸ hadds⟩
        filter_upwards [hrun] with fuel hrun
        simp only [step, junkMore, hask, hends, ht, Bool.false_eq_true, if_false, htrivia, if_true]
        exact hrun
      · have htrivia : t.kind.isTrivia = false := by simpa using htrivia
        obtain ⟨m₂, hflush, hflushed, hlead⟩ := hfollows.flush
        obtain ⟨m₃, hadd, hpast, htoken⟩ := hflushed.addCurrent hr
        obtain ⟨m₄, hrun, hmore, hadds⟩ :=
          ih hpast (fun u hu => absurd hu List.not_mem_nil) rfl
        rw [Cursor.pass_token hr ht htrivia]
        refine ⟨m₄, runs_of_step ?_, hmore, hbuilder ▸ (hlead.trans htoken).trans hadds⟩
        filter_upwards [hrun] with fuel hrun
        simp only [step, junkMore, hask, hends, ht, Bool.false_eq_true, if_false, htrivia, hflush,
          hadd, ok_bind]
        exact hrun

theorem At.junk (h : m.At ts s n c) : ∃ m',
    (∀ᶠ fuel in Filter.atTop, junk ts (exec ts fuel) m = .ok m') ∧
      Makes ts s n m c.junk.1 m' c.junk.2 := by
  obtain ⟨m₀, m₁, hopen, hlead, hnode⟩ := h.openNode .error
  obtain ⟨m₂, hrun, hfollows, hadds⟩ :=
    runs_junk hnode.stands.toFollows fun u hu => absurd hu List.not_mem_nil
  have hready := (c.junk_moves.ready h.ready).1
  rw [Cursor.junk_eq] at hready ⊢
  have hstands : m₂.At ts s n c.flush.2.pass.2 := ⟨hfollows, hready⟩
  obtain ⟨m₃, hclose, hmakes⟩ := (hnode.makes ⟨hstands, hadds⟩).close
  refine ⟨m₃, ?_, hlead.trans hmakes⟩
  filter_upwards [hrun] with fuel hrun
  simp only [Machine.junk, hopen, hrun, hclose, ok_bind]

theorem At.terminate (h : m.At ts s n c) : ∃ m', m.terminate ts = .ok m' ∧
    m'.Follows ts s n (Statement.ending c).2 ∧ m.builder.Adds (Statement.ending c).1 m'.builder := by
  obtain ⟨m₁, hflush, hlead⟩ := h.flush
  by_cases hk : c.kind = .newline ∨ c.kind = .semicolon
  · obtain ⟨t, r, hr, -, hending⟩ := Statement.exists_ending hk
    obtain ⟨m₂, hadd, hfollows, htoken⟩ := hlead.stands.toFollows.addCurrent (c := c.flush.2) hr
    rw [hending]
    refine ⟨m₂, ?_, hfollows, hlead.builder.trans htoken⟩
    simp only [Machine.terminate, hflush, hlead.stands.ask, Cursor.kind_flush, Bool.or_eq_true,
      decide_eq_true_eq, if_pos hk, hadd, ok_bind]
  · rw [Statement.ending_eq_flush hk]
    refine ⟨m₁, ?_, hlead.stands.toFollows, hlead.builder⟩
    simp only [Machine.terminate, hflush, hlead.stands.ask, Cursor.kind_flush, Bool.or_eq_true,
      decide_eq_true_eq, if_neg hk, ok_bind]

theorem At.ending (h : m.At ts s n c) : ∃ m',
    (∀ᶠ fuel in Filter.atTop, ending ts (exec ts fuel) m = .ok m') ∧
      m'.Follows ts s n (Statement.finish c).2 ∧ m.builder.Adds (Statement.finish c).1 m'.builder := by
  unfold Machine.ending Statement.finish
  simp only [h.ask, Kind.isTerminator_kind]
  by_cases ht : c.atTerminator
  · obtain ⟨m₁, hterminate, hfollows, hadds⟩ := h.terminate
    simp only [ht, if_true]
    refine ⟨m₁, ?_, hfollows, hadds⟩
    filter_upwards with fuel
    simp only [hterminate, ok_bind]
  · obtain ⟨m₁, hjunk, hmakes⟩ := h.junk
    obtain ⟨m₂, hterminate, hfollows, hadds⟩ := hmakes.stands.terminate
    simp only [ht, Bool.false_eq_true, if_false]
    refine ⟨m₂, ?_, hfollows, hmakes.builder.trans hadds⟩
    filter_upwards [hjunk] with fuel hjunk
    simp only [hjunk, hterminate, ok_bind]

/-- The expression that a statement starts with is made behind a mark. -/
theorem At.first (h : m.At ts s maxNesting c) {t : Tree}
    (hfirst : Parses maxNesting (.nested .whole) c.flush.2 [t] c') : ∃ m₀ m₁ mark,
      m.mark ts = .ok (mark, m₀) ∧ Makes ts s maxNesting m c.flush.1 m₀ c.flush.2 ∧
        m₀.builder.marks[mark]? = some m₀.builder.size ∧ Runs ts .expression m₀ m₁ ∧
          Makes ts s maxNesting m₀ [t] m₁ c' := by
  have hanswered : Answered ts s maxNesting (.nested .whole) c.flush.2 [t] c' :=
    hfirst.answered (Nat.le_refl _) h.ready.flush
  have hbehind : AnswersBehind ts s maxNesting .expression c.flush.2 [t] c' := hanswered.behind rfl
  exact hbehind.marked h

/-- The targets of an assignment are put into one node. -/
theorem Makes.targets {m₀ m₁ : Machine} {t : Tree} {c₁ : Cursor} {mark : Nat}
    (h : Makes ts s maxNesting m₀ [t] m₁ c₁) (hset : m₀.builder.marks[mark]? = some m₀.builder.size)
    (more : Parses maxNesting .targets c₁ f c') : ∃ m₂ m₃ m₄, Runs ts .targets m₁ m₂ ∧
      m₂.openNodeAt mark .assignmentTargets = .ok m₃ ∧ m₃.closeNode = .ok m₄ ∧
        Makes ts s maxNesting m₀ [.node .assignmentTargets (t :: f)] m₄ c' := by
  have hanswers : Answers ts s maxNesting .targets c₁ f c' :=
    more.answered (Nat.le_refl _) h.stands.ready
  obtain ⟨m₂, hrun, hmakes⟩ := hanswers m₁ h.stands
  obtain ⟨m₃, hopen, hnode⟩ := (h.trans hmakes).openNodeAt hset .assignmentTargets
  obtain ⟨m₄, hclose, hmakes₁⟩ := hnode.close
  exact ⟨m₂, m₃, m₄, hrun, hopen, hclose, hmakes₁⟩

theorem At.body (h : m.At ts s maxNesting c) (hb : Statement.Body c k f c') : ∃ m',
    (∀ᶠ fuel in Filter.atTop, body ts (exec ts fuel) m = .ok (k, m')) ∧
      Makes ts s maxNesting m f m' c' := by
  unfold Machine.body
  simp only [h.ask, Kind.isTerminator_kind]
  cases hb with
  | empty ht =>
    refine ⟨m.missing, ?_, h.missing⟩
    filter_upwards with fuel
    simp only [ht, if_true]
  | expression ht expr hcomma heq =>
    cases expr with
    | operand expr =>
      obtain ⟨m₀, m₁, mark, hmark, hlead, hset, hrun, hmakes⟩ := h.first expr
      refine ⟨m₁, ?_, hlead.trans hmakes⟩
      filter_upwards [hrun] with fuel hrun
      simp only [ht, Bool.false_eq_true, if_false, hmark, hrun, hmakes.stands.ask, hcomma, heq,
        decide_false, Bool.or_self, ok_bind]
  | assignment ht target hmore more heq value =>
    obtain ⟨m₀, m₁, mark, hmark, hlead, hset, hrun, hmakes⟩ := h.first target
    obtain ⟨m₂, m₃, m₄, hrun₁, hopen, hclose, hmakes₁⟩ := hmakes.targets hset more
    obtain ⟨m₅, hbump, hword⟩ := hmakes₁.stands.bump_plain (by rw [heq]; rfl)
    obtain ⟨m₆, hvalue, hmakes₂⟩ : ∃ m₆, Runs ts .expression m₅ m₆ ∧ Makes ts s maxNesting m₅ _ m₆ _ :=
      value.answered (Nat.le_refl _) hword.stands.ready .expression rfl m₅ hword.stands
    refine ⟨m₆, ?_, hlead.trans ((hmakes₁.trans hword).trans hmakes₂)⟩
    filter_upwards [hrun, hrun₁, hvalue] with fuel hrun hrun₁ hvalue
    simp only [ht, Bool.false_eq_true, if_false, hmark, hrun, hmakes.stands.ask, Bool.or_eq_true,
      decide_eq_true_eq, hmore, if_true, assignment, hrun₁, hopen, hclose, hmakes₁.stands.ask,
      heq, hbump, hvalue, ok_bind]
  | unassigned ht target hmore more heq =>
    obtain ⟨m₀, m₁, mark, hmark, hlead, hset, hrun, hmakes⟩ := h.first target
    obtain ⟨m₂, m₃, m₄, hrun₁, hopen, hclose, hmakes₁⟩ := hmakes.targets hset more
    refine ⟨m₄.missing, ?_, hlead.trans (hmakes₁.trans hmakes₁.stands.missing)⟩
    filter_upwards [hrun, hrun₁] with fuel hrun hrun₁
    simp only [ht, Bool.false_eq_true, if_false, hmark, hrun, hmakes.stands.ask, Bool.or_eq_true,
      decide_eq_true_eq, hmore, if_true, assignment, hrun₁, hopen, hclose, hmakes₁.stands.ask,
      heq, ok_bind]

theorem follows_new (ts : List Token) (s : Nat) :
    (new s).Follows ts s maxNesting ⟨ts.drop s, [], 0, 0, 0⟩ :=
  ⟨rfl, rfl, rfl, Nat.le_refl _, rfl, Nat.zero_add _, rfl, rfl⟩

/-- A machine that is called for a statement builds it as a single node, and then stands behind it. -/
theorem runs_statement (hb : Statement.Body (.start (ts.drop s)) k f c) : ∃ m,
    Runs ts .statement (.new s) m ∧ m.Follows ts s maxNesting (Statement.finish c).2 ∧
      m.finish = .ok (.node k (f ++ (Statement.finish c).1)) := by
  obtain ⟨m₀, hm₀⟩ : ∃ m₀, { new s with builder := (new s).builder.mark } = m₀ := ⟨_, rfl⟩
  have hset : m₀.builder.marks[0]? = some m₀.builder.size := by rw [← hm₀]; rfl
  have hstart : (m₀.skipWhile ts fun t => t.kind.isTrivia).At ts s maxNesting (.start (ts.drop s)) := by
    rw [← hm₀]
    exact ⟨((follows_new ts s).rebuild _).skipWhile _, (Cursor.start_ready _).1⟩
  obtain ⟨m₁, hbody, hmakes⟩ := hstart.body hb
  obtain ⟨m₂, hending, hfollows, hadds⟩ := hmakes.stands.ending
  -- The mark set at the very start takes in all that was added.
  have hall : m₀.builder.Adds (f ++ (Statement.finish c).1) m₂.builder := hmakes.builder.trans hadds
  obtain ⟨haccepts, hopens⟩ := hall.openNodeAt hset k
  obtain ⟨hopen, hadds'⟩ := hopens.close
  refine ⟨{ m₂ with builder := (m₂.builder.openNodeAt 0 k).closeNode }, runs_of_step ?_,
    hfollows.rebuild _, ?_⟩
  · have hnode : m₂.openNodeAt 0 k = .ok { m₂ with builder := m₂.builder.openNodeAt 0 k } :=
      if_pos haccepts
    have hclose : closeNode { m₂ with builder := m₂.builder.openNodeAt 0 k } =
        .ok { m₂ with builder := (m₂.builder.openNodeAt 0 k).closeNode } := by
      rw [closeNode, hopen]
      rfl
    filter_upwards [hbody, hending] with fuel hbody hending
    simp only [step, statement, hm₀, hbody, hending, ok_bind]
    exact (congrArg (· >>= closeNode) hnode).trans hclose
  · have hcurrent := hadds'.current
    have haround := hadds'.around
    rw [← hm₀] at hcurrent haround
    simp only [finish, hcurrent, haround]
    rfl

/-- Wherever something is left of the tokens, whatever they are, a statement is parsed from there without
a fault. Behind it no bracket is open unless the tokens have ended, and what was built is a single node:
the tree of the statement. -/
theorem statement_sound (ts : List Token) (start : Nat)
    (h : ¬(ts.drop start).all fun t => t.kind.isTrivia) : ∃ m tree,
      Runs ts .statement (new start) m ∧ (m.depth = 0 ∨ m.kind ts = .eof) ∧ m.finish = .ok tree ∧
        Statement.parse? (ts.drop start) start =
          some (⟨start, m.pos - start, max m.examined m.pos - start, tree⟩, ts.drop m.pos) := by
  obtain ⟨k, f, c, hb⟩ := Statement.exists_body (.start (ts.drop start))
  obtain ⟨m, hrun, hfollows, hfinish⟩ := runs_statement hb
  refine ⟨m, _, hrun, ?_, hfinish, ?_⟩
  · rw [hfollows.depth, hfollows.kind]
    exact (hb.balanced (Cursor.start_ready _).1).finish.imp_right And.right
  · have hpos := hfollows.pos
    have hexamined := hfollows.examined
    have htaken : m.pos - start = (Statement.finish c).2.taken := by omega
    have hlast : max m.examined m.pos - start =
        max (Statement.finish c).2.examined (Statement.finish c).2.taken := by omega
    rw [Statement.parse?_eq h start hb, htaken, hlast, hfollows.rest]

/-- The bracket on the second line is never closed. -/
theorem statement_sound_unclosed :
    let ts := Lexer.tokens "x = 1\ny = f(a\nz\n".toList
    (¬(ts.drop 6).all fun t => t.kind.isTrivia) ∧ ∃ m tree, Runs ts .statement (new 6) m ∧
      (m.depth = 0 ∨ m.kind ts = .eof) ∧ m.finish = .ok tree ∧
        Statement.parse? (ts.drop 6) 6 =
          some (⟨6, m.pos - 6, max m.examined m.pos - 6, tree⟩, ts.drop m.pos) := by
  intro ts
  have h : ¬(ts.drop 6).all fun t => t.kind.isTrivia := by decide +kernel
  exact ⟨h, statement_sound ts 6 h⟩

end Machine

end ScriptTree
