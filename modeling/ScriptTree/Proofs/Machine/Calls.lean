import ScriptTree.Proofs.Machine.Steps
import ScriptTree.Proofs.Statement.Depth
import ScriptTree.Proofs.Statement.Shape

namespace ScriptTree

open Expression (Join Unary Item Goal Parses maxNesting)

namespace Expression

def Goal.call? : Goal → Option Call
  | nested g => g.call?.map .nested
  | whole => some .conditional
  | join j => some (.binary j)
  | comparison => some .comparison
  | unary u => some (.unary u)
  | power => some .power
  | primary => some .primary
  | enclosed kind close item => some (.enclosed kind close item)
  | pair => some .pair
  | argument named => some (.argument named)
  | _ => none

theorem Join.call?_operand (j : Join) : j.operand.call? = some (.operand j) := by cases j <;> rfl

theorem Unary.call?_below (u : Unary) : u.below.call? = some (.noUnary u) := by cases u <;> rfl

theorem Item.call?_goal (item : Item) (named : Bool) :
    (item.goal named).call? = some (.element item named) := by
  cases item <;> rfl

end Expression

namespace Machine

variable (ts : List Token) (s n : Nat)

/-- A machine at one cursor is brought to another one by a call, and adds trees on the way. -/
def Answers (call : Call) (c : Cursor) (f : Forest) (c' : Cursor) : Prop :=
  ∀ m : Machine, m.At ts s n c → ∃ m', Runs ts call m m' ∧ Makes ts s n m f m' c'

def AnswersBehind (call : Call) (c : Cursor) (f : Forest) (c' : Cursor) : Prop :=
  ∀ c₀ : Cursor, c₀.flush.2 = c → Answers ts s n call c₀ (c₀.flush.1 ++ f) c'

/-- A call that has set a mark, and added trees since, goes on with adding more to them. -/
def Grows (call : Call) (more : Nat → Call) (c : Cursor) (f : Forest) (c' : Cursor) : Prop :=
  ∀ (c₀ : Cursor) (m : Machine), c₀.flush.2 = c → m.At ts s n c₀ → ∃ m₀ m₁ mark,
    Makes ts s n m c₀.flush.1 m₀ c ∧ m₀.builder.marks[mark]? = some m₀.builder.size ∧
      Makes ts s n m₀ f m₁ c' ∧ ∀ m₂, Runs ts (more mark) m₁ m₂ → Runs ts call m m₂

def Answered : Goal → Cursor → Forest → Cursor → Prop
  | .operand g => fun c f c' => ∀ call ∈ g.call?, Answers ts s n call c f c'
  | .chain j => Grows ts s n (.binary j) (.joinMore j)
  | .suffixed => Grows ts s n .primary .suffixMore
  | .atom => fun c f c' => c.pending = [] → Answers ts s n .atom c f c'
  | .compared => Answers ts s n .compareMore
  | .items close item named => Answers ts s n (.items close item named)
  | .slot item named => Answers ts s n (.slot item named)
  | .targets => Answers ts s n .targets
  | g => fun c f c' => ∀ call ∈ g.call?, AnswersBehind ts s n call c f c'

variable {ts s n} {m m' : Machine} {c c₁ c₂ c₃ : Cursor} {f g : Forest} {t : Tree}

theorem runs_of_step {call : Call} (h : ∀ᶠ fuel in Filter.atTop, step ts (exec ts fuel) call m = .ok m') :
    Runs ts call m m' := by
  rw [Runs, ← Filter.map_add_atTop_eq_nat 1]
  exact h

/-- A call that only makes another call is answered as that one is. -/
theorem Answers.passed {call call' : Call} (h : Answers ts s n call' c f c₁)
    (hstep : ∀ m : Machine, m.At ts s n c → ∀ fuel,
      step ts (exec ts fuel) call m = exec ts fuel call' m) : Answers ts s n call c f c₁ := by
  intro m hm
  obtain ⟨m₁, hrun, hmakes⟩ := h m hm
  refine ⟨m₁, runs_of_step ?_, hmakes⟩
  filter_upwards [hrun] with fuel hrun
  rw [hstep m hm, hrun]

theorem AnswersBehind.answers {call : Call} (h : AnswersBehind ts s n call c.flush.2 f c₁) :
    Answers ts s n call c (c.flush.1 ++ f) c₁ := h c rfl

theorem AnswersBehind.bare {call : Call} (h : AnswersBehind ts s n call c f c₁)
    (hc : c.pending = []) : Answers ts s n call c f c₁ := by
  have hflush := Cursor.flush_eq hc
  simpa [hflush] using h c (by rw [hflush])

theorem AnswersBehind.marked {call : Call} (h : AnswersBehind ts s n call c.flush.2 f c₁)
    (hm : m.At ts s n c) : ∃ m₀ m₁ mark, m.mark ts = .ok (mark, m₀) ∧
      Makes ts s n m c.flush.1 m₀ c.flush.2 ∧ m₀.builder.marks[mark]? = some m₀.builder.size ∧
        Runs ts call m₀ m₁ ∧ Makes ts s n m₀ f m₁ c₁ := by
  obtain ⟨m₀, mark, hmark, hlead, hset⟩ := hm.mark
  obtain ⟨m₁, hrun, hmakes⟩ := h.bare rfl m₀ hlead.stands
  exact ⟨m₀, m₁, mark, hmark, hlead, hset, hrun, hmakes⟩

theorem Answered.of_behind {g : Goal} {call : Call} (hcall : g.call? = some call)
    (h : AnswersBehind ts s n call c f c₁) : Answered ts s n g c f c₁ := by
  have hall : ∀ call' ∈ g.call?, AnswersBehind ts s n call' c f c₁ := by
    intro call' hcall'
    obtain rfl := Option.some.inj (hcall.symm.trans hcall')
    exact h
  cases g <;> first | exact hall | cases hcall

theorem Answered.behind {g : Goal} {call : Call} (h : Answered ts s n g c f c₁)
    (hcall : g.call? = some call) : AnswersBehind ts s n call c f c₁ := by
  cases g <;> first | exact h call hcall | cases hcall

/-! ### Nesting -/

theorem answers_skipNested {fuel opened : Nat} (hopened : opened ≤ c.depth)
    (hfuel : c.rest.length ≤ fuel) :
    Answers ts s n (.skipNested opened) c (Expression.skipNested fuel opened c).1
      (Expression.skipNested fuel opened c).2 := by
  have hstop {opened : Nat} {c : Cursor} (hk : c.kind = .eof ||
      (opened = 0 && (c.kind.isClosing || c.kind = .newline || c.kind = .semicolon))) :
      Answers ts s n (.skipNested opened) c [] c := by
    intro m h
    refine ⟨m, runs_of_step ?_, h.refl⟩
    filter_upwards with fuel
    simp only [step, skipNested, h.ask, if_pos hk]
  fun_induction Expression.skipNested fuel opened c with
  | case1 opened c =>
    have heof := Cursor.kind_eq_eof (List.length_eq_zero_iff.1 (Nat.le_zero.1 hfuel))
    exact hstop (by simp [heof])
  | case2 fuel opened c k hk => exact hstop hk
  | case3 fuel opened c k hk trees c₁ hb more c₂ hs ih =>
    intro m h
    have hne : c.kind ≠ .eof := by
      intro he
      simp [k, he] at hk
    -- A bracket is closed here only if it was opened here.
    have hclosing : c.kind.isClosing → opened ≠ 0 := by
      intro hclose hzero
      simp [k, hclose, hzero] at hk
    obtain ⟨m₁, hbump, hmakes⟩ := h.bump hne fun hclose => by have := hclosing hclose; omega
    have hdepth := Cursor.depth_bump hne
    have hlt := Cursor.length_ahead_bump_lt hne
    have hle := c.bump.2.length_rest_le_ahead
    rw [hb] at hmakes hdepth hlt hle
    dsimp only at hmakes hdepth hlt hle
    have hkeep : Cursor.depthAfter opened k ≤ c₁.depth := by
      rw [hdepth]
      exact Cursor.depthAfter_mono (by omega) k
    obtain ⟨m₂, hrun, hmakes₁⟩ := ih hkeep (by omega) m₁ hmakes.stands
    rw [hs] at hmakes₁
    refine ⟨m₂, runs_of_step ?_, hmakes.trans hmakes₁⟩
    dsimp only [k] at hk
    have hopen : (c.kind.isClosing && decide (opened = 0)) = false := by
      simpa using hclosing
    filter_upwards [hrun] with fuel hrun
    simp only [step, skipNested, h.ask, if_neg hk, hopen, Bool.false_eq_true, if_false, hbump,
      ok_bind]
    exact hrun

theorem answers_tooDeep (body : Call) (c : Cursor) :
    AnswersBehind ts s 0 (.nested body) c [(Expression.tooDeep c).1] (Expression.tooDeep c).2 := by
  rintro c₀ rfl m h
  -- No level is left, so the machine is as deep as the limit.
  have hlevels : maxNesting ≤ m.nesting := h.levels.ge
  obtain ⟨m₀, m₁, hopen, hlead, hnode⟩ := h.openNode .error
  obtain ⟨m₂, hrun, hmakes⟩ :=
    answers_skipNested (Nat.zero_le _) (Nat.le_refl _) m₁ hnode.stands
  obtain ⟨m₃, hclose, hmakes₁⟩ := (hnode.makes hmakes).close
  refine ⟨m₃, runs_of_step ?_, hlead.trans hmakes₁⟩
  filter_upwards [hrun] with fuel hrun
  simp only [step, nested, if_pos hlevels, tooDeep, hopen, hrun, hclose, ok_bind]

theorem Answers.nested {body : Call} (h : Answers ts s n body c f c₁) (hn : n < maxNesting) :
    Answers ts s (n + 1) (.nested body) c f c₁ := by
  intro m hm
  have hlevels := hm.levels
  obtain ⟨m₁, hrun, hmakes⟩ := h m.enter hm.enter
  obtain ⟨m₂, hleave, hstands, hbuilder⟩ := hmakes.stands.leave hn
  refine ⟨m₂, runs_of_step ?_, hstands, hbuilder ▸ hmakes.builder⟩
  filter_upwards [hrun] with fuel hrun
  simp only [step, Machine.nested, if_neg (show ¬maxNesting ≤ m.nesting by omega), hrun, hleave,
    ok_bind]

/-! ### Operators -/

theorem answers_unconditional (body : AnswersBehind ts s n (.binary .disjunction) c [t] c₁)
    (hif : c₁.kind ≠ .ifKw) : AnswersBehind ts s n .conditional c [t] c₁ := by
  rintro c₀ rfl m h
  obtain ⟨m₀, m₁, mark, hmark, hlead, hset, hbody, hmakes⟩ := body.marked h
  refine ⟨m₁, runs_of_step ?_, hlead.trans hmakes⟩
  filter_upwards [hbody] with fuel hbody
  simp only [step, conditional, hmark, hbody, hmakes.stands.ask, if_neg hif, ok_bind]

theorem answers_conditional (body : AnswersBehind ts s n (.binary .disjunction) c [t] c₁)
    (hif : c₁.kind = .ifKw) (condition : Answers ts s n (.binary .disjunction) c₁.bump.2 f c₂)
    (helse : c₂.kind = .elseKw)
    (alternative : Answers ts s n (.binary .disjunction) c₂.bump.2 g c₃) :
    AnswersBehind ts s n .conditional c
      [.node .conditionalExpression (t :: c₁.bump.1 ++ f ++ c₂.bump.1 ++ g)] c₃ := by
  rintro c₀ rfl m h
  obtain ⟨m₀, m₁, mark, hmark, hlead, hset, hbody, hmakes⟩ := body.marked h
  obtain ⟨m₂, hopen, hnode⟩ := hmakes.openNodeAt hset .conditionalExpression
  obtain ⟨m₃, hbump, hword⟩ := hnode.stands.bump_plain (by rw [hif]; rfl)
  obtain ⟨m₄, hcondition, hmakes₁⟩ := condition m₃ hword.stands
  obtain ⟨m₅, hbump₁, hword₁⟩ := hmakes₁.stands.bump_plain (by rw [helse]; rfl)
  obtain ⟨m₆, halternative, hmakes₂⟩ := alternative m₅ hword₁.stands
  obtain ⟨m₇, hclose, hmakes₃⟩ :=
    ((((hnode.makes hword).makes hmakes₁).makes hword₁).makes hmakes₂).close
  refine ⟨m₇, runs_of_step ?_, hlead.trans hmakes₃⟩
  filter_upwards [hbody, hcondition, halternative] with fuel hbody hcondition halternative
  simp only [step, conditional, hmark, hbody, hmakes.stands.ask, hif, if_true, hopen, hbump,
    hcondition, hmakes₁.stands.ask, helse, hbump₁, halternative, hclose, ok_bind]

theorem answers_withoutElse (body : AnswersBehind ts s n (.binary .disjunction) c [t] c₁)
    (hif : c₁.kind = .ifKw) (condition : Answers ts s n (.binary .disjunction) c₁.bump.2 f c₂)
    (helse : c₂.kind ≠ .elseKw) :
    AnswersBehind ts s n .conditional c
      [.node .conditionalExpression (t :: c₁.bump.1 ++ f ++ [.missing])] c₂ := by
  rintro c₀ rfl m h
  obtain ⟨m₀, m₁, mark, hmark, hlead, hset, hbody, hmakes⟩ := body.marked h
  obtain ⟨m₂, hopen, hnode⟩ := hmakes.openNodeAt hset .conditionalExpression
  obtain ⟨m₃, hbump, hword⟩ := hnode.stands.bump_plain (by rw [hif]; rfl)
  obtain ⟨m₄, hcondition, hmakes₁⟩ := condition m₃ hword.stands
  obtain ⟨m₅, hclose, hmakes₂⟩ :=
    (((hnode.makes hword).makes hmakes₁).makes hmakes₁.stands.missing).close
  refine ⟨m₅, runs_of_step ?_, hlead.trans hmakes₂⟩
  filter_upwards [hbody, hcondition] with fuel hbody hcondition
  simp only [step, conditional, hmark, hbody, hmakes.stands.ask, hif, if_true, hopen, hbump,
    hcondition, hmakes₁.stands.ask, if_neg helse, hclose, ok_bind]

theorem grows_first {j : Join} (h : AnswersBehind ts s n (.operand j) c f c₁) :
    Grows ts s n (.binary j) (.joinMore j) c f c₁ := by
  rintro c₀ m rfl hm
  obtain ⟨m₀, m₁, mark, hmark, hlead, hset, hrun, hmakes⟩ := h.marked hm
  refine ⟨m₀, m₁, mark, hlead, hset, hmakes, ?_⟩
  intro m₂ hmore
  apply runs_of_step
  filter_upwards [hrun, hmore] with fuel hrun hmore
  simp only [step, binary, hmark, hrun, hmore, ok_bind]

theorem Grows.further {j : Join} (left : Grows ts s n (.binary j) (.joinMore j) c [t] c₁)
    (hop : j.joins c₁.kind) (right : Answers ts s n (.operand j) c₁.bump.2 f c₂) :
    Grows ts s n (.binary j) (.joinMore j) c [.node j.node (t :: c₁.bump.1 ++ f)] c₂ := by
  intro c₀ m hc hm
  obtain ⟨m₀, m₁, mark, hlead, hset, hmakes, hgrow⟩ := left c₀ m hc hm
  obtain ⟨m₂, hopen, hnode⟩ := hmakes.openNodeAt hset j.node
  obtain ⟨m₃, hbump, hword⟩ := hnode.stands.bump_plain (Kind.isPlain_of_joins hop)
  obtain ⟨m₄, hright, hmakes₁⟩ := right m₃ hword.stands
  obtain ⟨m₅, hclose, hmakes₂⟩ := ((hnode.makes hword).makes hmakes₁).close
  refine ⟨m₀, m₅, mark, hlead, hset, hmakes₂, ?_⟩
  -- What is added next goes around the new node, by the same mark.
  intro m₆ hmore
  apply hgrow
  apply runs_of_step
  filter_upwards [hright, hmore] with fuel hright hmore
  simp only [step, joinMore, hmakes.stands.ask, hop, if_true, hopen, hbump, hright, hclose, hmore,
    ok_bind]

theorem Grows.join {j : Join} (h : Grows ts s n (.binary j) (.joinMore j) c f c₁)
    (hstop : j.joins c₁.kind = false) : AnswersBehind ts s n (.binary j) c f c₁ := by
  intro c₀ hc m hm
  obtain ⟨m₀, m₁, mark, hlead, hset, hmakes, hgrow⟩ := h c₀ m hc hm
  refine ⟨m₁, hgrow m₁ (runs_of_step ?_), hlead.trans hmakes⟩
  filter_upwards with fuel
  simp only [step, joinMore, hmakes.stands.ask, hstop, Bool.false_eq_true, if_false]

theorem answers_uncompared (h : AnswersBehind ts s n (.binary .pipeline) c f c₁)
    (hstop : c₁.kind.isComparison = false) : AnswersBehind ts s n .comparison c f c₁ := by
  rintro c₀ rfl m hm
  obtain ⟨m₀, m₁, mark, hmark, hlead, hset, hrun, hmakes⟩ := h.marked hm
  refine ⟨m₁, runs_of_step ?_, hlead.trans hmakes⟩
  filter_upwards [hrun] with fuel hrun
  simp only [step, comparison, hmark, hrun, hmakes.stands.ask, hstop, Bool.false_eq_true, if_false,
    ok_bind]

theorem answers_comparison (left : AnswersBehind ts s n (.binary .pipeline) c [t] c₁)
    (hop : c₁.kind.isComparison) (more : Answers ts s n .compareMore c₁ f c₂) :
    AnswersBehind ts s n .comparison c [.node .comparisonExpression (t :: f)] c₂ := by
  rintro c₀ rfl m hm
  obtain ⟨m₀, m₁, mark, hmark, hlead, hset, hleft, hmakes⟩ := left.marked hm
  obtain ⟨m₂, hopen, hnode⟩ := hmakes.openNodeAt hset .comparisonExpression
  obtain ⟨m₃, hmore, hmakes₁⟩ := more m₂ hnode.stands
  obtain ⟨m₄, hclose, hmakes₂⟩ := (hnode.makes hmakes₁).close
  refine ⟨m₄, runs_of_step ?_, hlead.trans hmakes₂⟩
  filter_upwards [hleft, hmore] with fuel hleft hmore
  simp only [step, comparison, hmark, hleft, hmakes.stands.ask, hop, if_true, hopen, hmore, hclose,
    ok_bind]

theorem answers_comparedEnd (hstop : c.kind.isComparison = false) :
    Answers ts s n .compareMore c [] c := by
  intro m hm
  refine ⟨m, runs_of_step ?_, hm.refl⟩
  filter_upwards with fuel
  simp only [step, compareMore, hm.ask, hstop, Bool.false_eq_true, if_false]

theorem answers_comparedMore (hop : c.kind.isComparison)
    (right : Answers ts s n (.binary .pipeline) c.flush.2.bump.2 f c₁)
    (more : Answers ts s n .compareMore c₁ g c₂) :
    Answers ts s n .compareMore c
      (c.flush.1 ++ .node .comparisonOp c.flush.2.bump.1 :: f ++ g) c₂ := by
  intro m hm
  obtain ⟨m₀, m₁, hopen, hlead, hnode⟩ := hm.openNode .comparisonOp
  obtain ⟨m₂, hbump, hword⟩ := hnode.stands.bump_plain (Kind.isPlain_of_isComparison hop)
  obtain ⟨m₃, hclose, hmakes⟩ := (hnode.makes hword).close
  obtain ⟨m₄, hright, hmakes₁⟩ := right m₃ hmakes.stands
  obtain ⟨m₅, hmore, hmakes₂⟩ := more m₄ hmakes₁.stands
  have hall := ((hlead.trans hmakes).trans hmakes₁).trans hmakes₂
  refine ⟨m₅, runs_of_step ?_, by simpa using hall⟩
  filter_upwards [hright, hmore] with fuel hright hmore
  simp only [step, compareMore, hm.ask, hop, if_true, hopen, hbump, hclose, hright, hmore, ok_bind]

theorem answers_unary {u : Unary} (hop : u.starts c.kind)
    (h : Answers ts s n (.nested (.unary u)) c.bump.2 f c₁) :
    AnswersBehind ts s n (.unary u) c [.node .unaryExpression (c.bump.1 ++ f)] c₁ := by
  rintro c₀ rfl m hm
  obtain ⟨m₀, m₁, hopen, hlead, hnode⟩ := hm.openNode .unaryExpression
  obtain ⟨m₂, hbump, hword⟩ := hnode.stands.bump_plain (Kind.isPlain_of_starts hop)
  obtain ⟨m₃, hrun, hmakes⟩ := h m₂ hword.stands
  obtain ⟨m₄, hclose, hmakes₁⟩ := ((hnode.makes hword).makes hmakes).close
  refine ⟨m₄, runs_of_step ?_, hlead.trans hmakes₁⟩
  rw [Cursor.kind_flush] at hop
  filter_upwards [hrun] with fuel hrun
  simp only [step, unary, hm.ask, hop, if_true, hopen, hbump, hrun, hclose, ok_bind]

theorem answers_noUnary {u : Unary} (hop : u.starts c.kind = false)
    (h : AnswersBehind ts s n (.noUnary u) c f c₁) : AnswersBehind ts s n (.unary u) c f c₁ := by
  rintro c₀ rfl
  rw [Cursor.kind_flush] at hop
  refine h.answers.passed fun m hm fuel => ?_
  simp only [step, unary, hm.ask, hop, Bool.false_eq_true, if_false]

theorem answers_noPower (h : AnswersBehind ts s n .primary c f c₁) (hop : c₁.kind ≠ .starStar) :
    AnswersBehind ts s n .power c f c₁ := by
  rintro c₀ rfl m hm
  obtain ⟨m₀, m₁, mark, hmark, hlead, hset, hrun, hmakes⟩ := h.marked hm
  refine ⟨m₁, runs_of_step ?_, hlead.trans hmakes⟩
  filter_upwards [hrun] with fuel hrun
  simp only [step, power, hmark, hrun, hmakes.stands.ask, if_neg hop, ok_bind]

theorem answers_power (base : AnswersBehind ts s n .primary c [t] c₁) (hop : c₁.kind = .starStar)
    (exponent : Answers ts s n (.nested (.unary .sign)) c₁.bump.2 f c₂) :
    AnswersBehind ts s n .power c [.node .binaryExpression (t :: c₁.bump.1 ++ f)] c₂ := by
  rintro c₀ rfl m hm
  obtain ⟨m₀, m₁, mark, hmark, hlead, hset, hbase, hmakes⟩ := base.marked hm
  obtain ⟨m₂, hopen, hnode⟩ := hmakes.openNodeAt hset .binaryExpression
  obtain ⟨m₃, hbump, hword⟩ := hnode.stands.bump_plain (by rw [hop]; rfl)
  obtain ⟨m₄, hexponent, hmakes₁⟩ := exponent m₃ hword.stands
  obtain ⟨m₅, hclose, hmakes₂⟩ := ((hnode.makes hword).makes hmakes₁).close
  refine ⟨m₅, runs_of_step ?_, hlead.trans hmakes₂⟩
  filter_upwards [hbase, hexponent] with fuel hbase hexponent
  simp only [step, power, hmark, hbase, hmakes.stands.ask, hop, if_true, hopen, hbump, hexponent,
    hclose, ok_bind]

/-! ### Calls and members -/

theorem grows_bare (h : c.pending = [] → Answers ts s n .atom c f c₁) :
    Grows ts s n .primary .suffixMore c f c₁ := by
  rintro c₀ m rfl hm
  obtain ⟨m₀, mark, hmark, hlead, hset⟩ := hm.mark
  obtain ⟨m₁, hrun, hmakes⟩ := h rfl m₀ hlead.stands
  refine ⟨m₀, m₁, mark, hlead, hset, hmakes, ?_⟩
  intro m₂ hmore
  apply runs_of_step
  filter_upwards [hrun, hmore] with fuel hrun hmore
  simp only [step, primary, hmark, hrun, hmore, ok_bind]

theorem Grows.call (callee : Grows ts s n .primary .suffixMore c [t] c₁)
    (hparen : c₁.kind = .lParen)
    (arguments : Answers ts s n (.enclosed .argumentList .rParen .argument) c₁ f c₂) :
    Grows ts s n .primary .suffixMore c [.node .callExpression (t :: f)] c₂ := by
  intro c₀ m hc hm
  obtain ⟨m₀, m₁, mark, hlead, hset, hmakes, hgrow⟩ := callee c₀ m hc hm
  obtain ⟨m₂, hopen, hnode⟩ := hmakes.openNodeAt hset .callExpression
  obtain ⟨m₃, harguments, hmakes₁⟩ := arguments m₂ hnode.stands
  obtain ⟨m₄, hclose, hmakes₂⟩ := (hnode.makes hmakes₁).close
  refine ⟨m₀, m₄, mark, hlead, hset, hmakes₂, ?_⟩
  intro m₅ hmore
  apply hgrow
  apply runs_of_step
  filter_upwards [harguments, hmore] with fuel harguments hmore
  simp only [step, suffixMore, hmakes.stands.ask, hparen, if_true, hopen, harguments, hclose, hmore,
    ok_bind]

theorem Grows.member (object : Grows ts s n .primary .suffixMore c [t] c₁) (hdot : c₁.kind = .dot) :
    Grows ts s n .primary .suffixMore c
      [.node .attributeExpression (t :: c₁.bump.1 ++ (Expression.field c₁.bump.2).1)]
      (Expression.field c₁.bump.2).2 := by
  intro c₀ m hc hm
  obtain ⟨m₀, m₁, mark, hlead, hset, hmakes, hgrow⟩ := object c₀ m hc hm
  obtain ⟨m₂, hopen, hnode⟩ := hmakes.openNodeAt hset .attributeExpression
  obtain ⟨m₃, hbump, hword⟩ := hnode.stands.bump_plain (by rw [hdot]; rfl)
  obtain ⟨m₄, hfield, hmakes₁⟩ := hword.stands.field
  obtain ⟨m₅, hclose, hmakes₂⟩ := ((hnode.makes hword).makes hmakes₁).close
  refine ⟨m₀, m₅, mark, hlead, hset, hmakes₂, ?_⟩
  intro m₆ hmore
  apply hgrow
  apply runs_of_step
  filter_upwards [hmore] with fuel hmore
  simp only [step, suffixMore, hmakes.stands.ask, hdot, reduceCtorEq, if_false, if_true, hopen,
    hbump, hfield, hclose, hmore, ok_bind]

theorem Grows.primary (h : Grows ts s n .primary .suffixMore c f c₁) (hparen : c₁.kind ≠ .lParen)
    (hdot : c₁.kind ≠ .dot) : AnswersBehind ts s n .primary c f c₁ := by
  intro c₀ hc m hm
  obtain ⟨m₀, m₁, mark, hlead, hset, hmakes, hgrow⟩ := h c₀ m hc hm
  refine ⟨m₁, hgrow m₁ (runs_of_step ?_), hlead.trans hmakes⟩
  filter_upwards with fuel
  simp only [step, suffixMore, hmakes.stands.ask, if_neg hparen, if_neg hdot]

/-! ### Items -/

theorem answers_missingItem {item : Item} {named : Bool} (hcomma : c.kind = .comma) :
    Answers ts s n (.slot item named) c [.missing] c := by
  intro m hm
  refine ⟨m.missing, runs_of_step ?_, hm.missing⟩
  filter_upwards with fuel
  simp only [step, slot, hm.ask, if_pos hcomma]

theorem answers_item {item : Item} {named : Bool} (hcomma : c.kind ≠ .comma)
    (h : Answers ts s n (.element item named) c f c₁) :
    Answers ts s n (.slot item named) c f c₁ := by
  refine h.passed fun m hm fuel => ?_
  simp only [step, slot, hm.ask, if_neg hcomma]

section Items

variable {close : Kind} {item : Item} {named : Bool}

theorem answers_itemsEnd (hend : c.kind = close ∨ c.kind = .eof) :
    Answers ts s n (.items close item named) c [] c := by
  intro m hm
  refine ⟨m, runs_of_step ?_, hm.refl⟩
  filter_upwards with fuel
  simp only [step, items, hm.ask, Bool.or_eq_true, decide_eq_true_eq, if_pos hend]

theorem answers_itemsLast (hend : ¬(c.kind = close ∨ c.kind = .eof))
    (h : Answers ts s n (.slot item named) c f c₁) (hcomma : c₁.kind ≠ .comma) :
    Answers ts s n (.items close item named) c f c₁ := by
  intro m hm
  obtain ⟨m₁, hrun, hmakes⟩ := h m hm
  refine ⟨m₁, runs_of_step ?_, hmakes⟩
  filter_upwards [hrun] with fuel hrun
  simp only [step, items, hm.ask, Bool.or_eq_true, decide_eq_true_eq, if_neg hend, hrun,
    hmakes.stands.ask, if_neg hcomma, ok_bind]

theorem answers_itemsMore (hend : ¬(c.kind = close ∨ c.kind = .eof))
    (h : Answers ts s n (.slot item named) c f c₁) (hcomma : c₁.kind = .comma)
    (more : Answers ts s n (.items close item (named || (item = .argument && Expression.startsNamed c)))
      c₁.bump.2 g c₂) :
    Answers ts s n (.items close item named) c (f ++ c₁.bump.1 ++ g) c₂ := by
  intro m hm
  obtain ⟨m₀, hlook, -⟩ := hm.startsNamed
  obtain ⟨m₁, hrun, hmakes⟩ := h m hm
  obtain ⟨m₂, hbump, hword⟩ := hmakes.stands.bump_plain (by rw [hcomma]; rfl)
  obtain ⟨m₃, hmore, hmakes₁⟩ := more m₂ hword.stands
  refine ⟨m₃, runs_of_step ?_, (hmakes.trans hword).trans hmakes₁⟩
  filter_upwards [hrun, hmore] with fuel hrun hmore
  simp only [step, items, hm.ask, Bool.or_eq_true, decide_eq_true_eq, if_neg hend, hlook, hrun,
    hmakes.stands.ask, hcomma, if_true, hbump, hmore, ok_bind]

end Items

theorem answers_pair (key : AnswersBehind ts s n .expression c [t] c₁) (hcolon : c₁.kind = .colon)
    (value : Answers ts s n .expression c₁.bump.2 f c₂) :
    AnswersBehind ts s n .pair c [.node .dictPair (t :: c₁.bump.1 ++ f)] c₂ := by
  rintro c₀ rfl m hm
  obtain ⟨m₀, m₁, hopen, hlead, hnode⟩ := hm.openNode .dictPair
  obtain ⟨m₂, hkey, hmakes⟩ := key.bare rfl m₁ hnode.stands
  obtain ⟨m₃, hbump, hword⟩ := hmakes.stands.bump_plain (by rw [hcolon]; rfl)
  obtain ⟨m₄, hvalue, hmakes₁⟩ := value m₃ hword.stands
  obtain ⟨m₅, hclose, hmakes₂⟩ := (((hnode.makes hmakes).makes hword).makes hmakes₁).close
  refine ⟨m₅, runs_of_step ?_, hlead.trans hmakes₂⟩
  filter_upwards [hkey, hvalue] with fuel hkey hvalue
  simp only [step, pair, hopen, hkey, hmakes.stands.ask, hcolon, if_true, hbump, hvalue, hclose,
    ok_bind]

theorem answers_withoutColon (key : AnswersBehind ts s n .expression c [t] c₁)
    (hcolon : c₁.kind ≠ .colon) :
    AnswersBehind ts s n .pair c [.node .dictPair [t, .missing]] c₁ := by
  rintro c₀ rfl m hm
  obtain ⟨m₀, m₁, hopen, hlead, hnode⟩ := hm.openNode .dictPair
  obtain ⟨m₂, hkey, hmakes⟩ := key.bare rfl m₁ hnode.stands
  obtain ⟨m₃, hclose, hmakes₁⟩ := ((hnode.makes hmakes).makes hmakes.stands.missing).close
  refine ⟨m₃, runs_of_step ?_, hlead.trans hmakes₁⟩
  filter_upwards [hkey] with fuel hkey
  simp only [step, pair, hopen, hkey, hmakes.stands.ask, if_neg hcolon, hclose, ok_bind]

theorem answers_keyword {named : Bool} (hname : Expression.startsNamed c)
    (value : Answers ts s n .expression c.bump.2.bump.2 f c₁) :
    AnswersBehind ts s n (.argument named) c
      [.node .keywordArgument (c.bump.1 ++ c.bump.2.bump.1 ++ f)] c₁ := by
  rintro c₀ rfl m hm
  obtain ⟨hidentifier, heq⟩ := Expression.startsNamed_iff.1 hname
  have hname' : Expression.startsNamed c₀ = true := hname
  obtain ⟨m₁, hlook, hlooked⟩ := hm.startsNamed
  obtain ⟨m₂, m₃, hopen, hlead, hnode⟩ := hlooked.stands.openNode .keywordArgument
  -- The look has examined the equals sign, which makes no difference behind it.
  rw [Expression.flush_looked] at hlead hnode
  obtain ⟨m₄, hbump, hword⟩ := hnode.stands.bump_plain (by
    rw [Expression.kind_looked, hidentifier]
    rfl)
  rw [Expression.bump_looked] at hword
  obtain ⟨m₅, hbump₁, hword₁⟩ := hword.stands.bump_plain (by rw [heq]; rfl)
  obtain ⟨m₆, hvalue, hmakes⟩ := value m₅ hword₁.stands
  obtain ⟨m₇, hclose, hmakes₁⟩ := (((hnode.makes hword).makes hword₁).makes hmakes).close
  refine ⟨m₇, runs_of_step ?_, (hlooked.trans hlead).trans hmakes₁⟩
  filter_upwards [hvalue] with fuel hvalue
  simp only [step, argument, hlook, hname', if_true, hopen, hbump, hbump₁, hvalue, hclose, ok_bind]

theorem answers_positional (hname : Expression.startsNamed c = false)
    (value : AnswersBehind ts s n .expression (Expression.looked c) f c₁) :
    AnswersBehind ts s n (.argument false) c f c₁ := by
  rintro c₀ rfl m hm
  have hname' : Expression.startsNamed c₀ = false := hname
  obtain ⟨m₁, hlook, hlooked⟩ := hm.startsNamed
  have hvalue := value (Expression.looked c₀) (by rw [Expression.flush_looked])
  rw [Expression.flush_looked] at hvalue
  obtain ⟨m₂, hrun, hmakes⟩ := hvalue m₁ hlooked.stands
  refine ⟨m₂, runs_of_step ?_, hlooked.trans hmakes⟩
  filter_upwards [hrun] with fuel hrun
  simp only [step, argument, hlook, hname', Bool.false_eq_true, if_false, hrun]

theorem answers_misplaced (hname : Expression.startsNamed c = false)
    (value : AnswersBehind ts s n .expression (Expression.looked c) f c₁) :
    AnswersBehind ts s n (.argument true) c [.node .error f] c₁ := by
  rintro c₀ rfl m hm
  have hname' : Expression.startsNamed c₀ = false := hname
  obtain ⟨m₁, hlook, hlooked⟩ := hm.startsNamed
  obtain ⟨m₂, m₃, hopen, hlead, hnode⟩ := hlooked.stands.openNode .error
  rw [Expression.flush_looked] at hlead hnode
  have hpending : (Expression.looked c₀.flush.2).pending = [] := by
    unfold Expression.looked
    split <;> rfl
  obtain ⟨m₄, hrun, hmakes⟩ := value.bare hpending m₃ hnode.stands
  obtain ⟨m₅, hclose, hmakes₁⟩ := (hnode.makes hmakes).close
  refine ⟨m₅, runs_of_step ?_, (hlooked.trans hlead).trans hmakes₁⟩
  filter_upwards [hrun] with fuel hrun
  simp only [step, argument, hlook, hname', Bool.false_eq_true, if_false, if_true, hopen, hrun,
    hclose, ok_bind]

/-! ### Brackets -/

theorem answers_enclosed {kind close : Kind} {item : Item} (hopen : c.kind.isOpening)
    (hclose : close.isClosing) (h : Answers ts s n (.items close item false) c.bump.2 f c₁)
    (hdepth : 0 < c₁.depth) :
    AnswersBehind ts s n (.enclosed kind close item) c
      [.node kind (c.bump.1 ++ f ++ (c₁.close close).1)] (c₁.close close).2 := by
  rintro c₀ rfl m hm
  obtain ⟨m₀, m₁, hnew, hlead, hnode⟩ := hm.openNode kind
  obtain ⟨m₂, hbump, hword⟩ := hnode.stands.bump_opening hopen
  obtain ⟨m₃, hrun, hmakes⟩ := h m₂ hword.stands
  obtain ⟨m₄, hexpect, hclosing⟩ :=
    hmakes.stands.expectClosing hdepth (Kind.ne_eof_of_isClosing hclose)
  obtain ⟨m₅, hend, hmakes₁⟩ := (((hnode.makes hword).makes hmakes).makes hclosing).close
  refine ⟨m₅, runs_of_step ?_, hlead.trans hmakes₁⟩
  filter_upwards [hrun] with fuel hrun
  simp only [step, enclosed, hnew, hbump, hrun, hexpect, hend, ok_bind]

theorem answers_parenthesized {k : Kind} (hpending : c.pending = []) (hopen : c.kind = .lParen)
    (inside : ∀ m : Machine, m.At ts s n c.bump.2 → ∃ m', (∀ᶠ fuel in Filter.atTop,
      parenthesizedItems ts (exec ts fuel) m = .ok (k, m')) ∧ Makes ts s n m f m' c₁)
    (hdepth : 0 < c₁.depth) :
    Answers ts s n .atom c [.node k (c.bump.1 ++ f ++ (c₁.close .rParen).1)]
      (c₁.close .rParen).2 := by
  intro m hm
  obtain ⟨m₀, mark, hmark, hlead, hset⟩ := hm.mark
  rw [Cursor.flush_eq hpending] at hlead
  obtain ⟨m₁, hbump, hword⟩ := hlead.stands.bump_opening (by rw [hopen]; rfl)
  obtain ⟨m₂, hrun, hmakes⟩ := inside m₁ hword.stands
  obtain ⟨m₃, hexpect, hclosing⟩ := hmakes.stands.expectClosing hdepth (by decide : Kind.rParen ≠ .eof)
  obtain ⟨m₄, hnew, hnode⟩ := ((hword.trans hmakes).trans hclosing).openNodeAt hset k
  obtain ⟨m₅, hend, hmakes₁⟩ := hnode.close
  refine ⟨m₅, runs_of_step ?_, hlead.trans hmakes₁⟩
  filter_upwards [hrun] with fuel hrun
  simp only [step, atom, hm.ask, hopen, show Kind.lParen.isLiteral = false from rfl,
    Bool.false_eq_true, if_false, parenthesized, hmark, hbump, hrun, hexpect, hnew, hend, ok_bind]

theorem answers_emptyTuple (hpending : c.pending = []) (hopen : c.kind = .lParen)
    (hclose : c.bump.2.kind = .rParen) (hdepth : 0 < c.bump.2.depth) :
    Answers ts s n .atom c [.node .tupleLiteral (c.bump.1 ++ (c.bump.2.close .rParen).1)]
      (c.bump.2.close .rParen).2 := by
  have hempty : Answers ts s n .atom c
      [.node .tupleLiteral (c.bump.1 ++ [] ++ (c.bump.2.close .rParen).1)]
      (c.bump.2.close .rParen).2 := by
    refine answers_parenthesized hpending hopen (fun m hm => ⟨m, ?_, hm.refl⟩) hdepth
    filter_upwards with fuel
    simp only [parenthesizedItems, hm.ask, if_pos hclose]
  rwa [List.append_nil] at hempty

theorem answers_group (hpending : c.pending = []) (hopen : c.kind = .lParen)
    (hclose : c.bump.2.kind ≠ .rParen) (inner : Answers ts s n .expression c.bump.2 f c₁)
    (hcomma : c₁.kind ≠ .comma) (hdepth : 0 < c₁.depth) :
    Answers ts s n .atom c
      [.node .parenthesizedExpression (c.bump.1 ++ f ++ (c₁.close .rParen).1)]
      (c₁.close .rParen).2 := by
  refine answers_parenthesized hpending hopen (fun m hm => ?_) hdepth
  obtain ⟨m₁, hrun, hmakes⟩ := inner m hm
  refine ⟨m₁, ?_, hmakes⟩
  filter_upwards [hrun] with fuel hrun
  simp only [parenthesizedItems, hm.ask, if_neg hclose, hrun, hmakes.stands.ask, if_neg hcomma,
    ok_bind]

theorem answers_tuple (hpending : c.pending = []) (hopen : c.kind = .lParen)
    (hclose : c.bump.2.kind ≠ .rParen) (inner : Answers ts s n .expression c.bump.2 f c₁)
    (hcomma : c₁.kind = .comma)
    (more : Answers ts s n (.items .rParen .plain false) c₁.bump.2 g c₂) (hdepth : 0 < c₂.depth) :
    Answers ts s n .atom c
      [.node .tupleLiteral (c.bump.1 ++ f ++ c₁.bump.1 ++ g ++ (c₂.close .rParen).1)]
      (c₂.close .rParen).2 := by
  have htuple : Answers ts s n .atom c [.node .tupleLiteral
      (c.bump.1 ++ (f ++ c₁.bump.1 ++ g) ++ (c₂.close .rParen).1)] (c₂.close .rParen).2 := by
    refine answers_parenthesized hpending hopen (fun m hm => ?_) hdepth
    obtain ⟨m₁, hrun, hmakes⟩ := inner m hm
    obtain ⟨m₂, hbump, hword⟩ := hmakes.stands.bump_plain (by rw [hcomma]; rfl)
    obtain ⟨m₃, hmore, hmakes₁⟩ := more m₂ hword.stands
    refine ⟨m₃, ?_, (hmakes.trans hword).trans hmakes₁⟩
    filter_upwards [hrun, hmore] with fuel hrun hmore
    simp only [parenthesizedItems, hm.ask, if_neg hclose, hrun, hmakes.stands.ask, hcomma, if_true,
      hbump, hmore, ok_bind]
  simpa using htuple

theorem answers_literal {u : Token} {r : List Token} (hpending : c.pending = [])
    (hrest : c.rest = u :: r) (hkind : u.kind.isLiteral) :
    Answers ts s n .atom c [u.tree] c.bump.2 := by
  intro m hm
  rw [← Cursor.kind_eq_of_rest hrest] at hkind
  obtain ⟨m₁, hbump, hword⟩ := hm.bump_plain (Kind.isPlain_of_isLiteral hkind)
  have htree : c.bump.1 = [u.tree] := by rw [Cursor.bump_eq hrest, hpending]; rfl
  refine ⟨m₁, runs_of_step ?_, htree ▸ hword⟩
  filter_upwards with fuel
  simp only [step, atom, hm.ask, if_pos hkind, hbump]

theorem answers_list (hopen : c.kind = .lBracket)
    (h : Answers ts s n (.enclosed .listLiteral .rBracket .plain) c f c₁) :
    Answers ts s n .atom c f c₁ := by
  refine h.passed fun m hm fuel => ?_
  simp only [step, atom, hm.ask, hopen, show Kind.lBracket.isLiteral = false from rfl,
    Bool.false_eq_true, if_false]

theorem answers_dict (hopen : c.kind = .lBrace)
    (h : Answers ts s n (.enclosed .dictLiteral .rBrace .pair) c f c₁) :
    Answers ts s n .atom c f c₁ := by
  refine h.passed fun m hm fuel => ?_
  simp only [step, atom, hm.ask, hopen, show Kind.lBrace.isLiteral = false from rfl,
    Bool.false_eq_true, if_false]

theorem answers_unexpected (hpending : c.pending = []) (hliteral : c.kind.isLiteral = false)
    (hopen : c.kind.isOpening = false) :
    Answers ts s n .atom c [(Expression.unexpected c).1] (Expression.unexpected c).2 := by
  intro m hm
  obtain ⟨m₁, hrun, hmakes⟩ := hm.unexpected
  refine ⟨m₁, runs_of_step ?_, ?_⟩
  · filter_upwards with fuel
    have hatom : atom ts (exec ts fuel) m = m.unexpected ts := by
      simp only [atom, hm.ask, hliteral, Bool.false_eq_true, if_false]
      cases hk : c.kind <;> first | rfl | simp [hk, Kind.isOpening] at hopen
    exact hatom.trans hrun
  · by_cases ha : c.atAnchor
    · rw [if_pos ha] at hmakes
      rw [Expression.unexpected, if_pos ha]
      exact hmakes
    · rw [if_neg ha, Cursor.operand, Cursor.flush_eq hpending] at hmakes
      exact hmakes

/-! ### Targets -/

theorem answers_targetsEnd (hcomma : c.kind ≠ .comma) : Answers ts s n .targets c [] c := by
  intro m hm
  refine ⟨m, runs_of_step ?_, hm.refl⟩
  filter_upwards with fuel
  simp only [step, targets, hm.ask, if_neg hcomma]

theorem answers_targetsTrailing (hcomma : c.kind = .comma)
    (hend : c.bump.2.kind = .eq ∨ c.bump.2.atTerminator) :
    Answers ts s n .targets c c.bump.1 c.bump.2 := by
  intro m hm
  obtain ⟨m₁, hbump, hword⟩ := hm.bump_plain (by rw [hcomma]; rfl)
  refine ⟨m₁, runs_of_step ?_, hword⟩
  filter_upwards with fuel
  simp only [step, targets, hm.ask, hcomma, if_true, hbump, hword.stands.ask,
    Kind.isTerminator_kind, Bool.or_eq_true, decide_eq_true_eq, if_pos hend, ok_bind]

theorem answers_targetsMore (hcomma : c.kind = .comma)
    (hend : ¬(c.bump.2.kind = .eq ∨ c.bump.2.atTerminator))
    (target : Answers ts s n .expression c.bump.2 f c₁) (more : Answers ts s n .targets c₁ g c₂) :
    Answers ts s n .targets c (c.bump.1 ++ f ++ g) c₂ := by
  intro m hm
  obtain ⟨m₁, hbump, hword⟩ := hm.bump_plain (by rw [hcomma]; rfl)
  obtain ⟨m₂, htarget, hmakes⟩ := target m₁ hword.stands
  obtain ⟨m₃, hmore, hmakes₁⟩ := more m₂ hmakes.stands
  refine ⟨m₃, runs_of_step ?_, (hword.trans hmakes).trans hmakes₁⟩
  filter_upwards [htarget, hmore] with fuel htarget hmore
  simp only [step, targets, hm.ask, hcomma, if_true, hbump, hword.stands.ask,
    Kind.isTerminator_kind, Bool.or_eq_true, decide_eq_true_eq, if_neg hend, htarget, hmore, ok_bind]

end Machine

namespace Expression

open Machine (Answered)

/-- Whatever is parsed for a goal, a machine answers with. -/
theorem Parses.answered {ts : List Token} {s n : Nat} {g : Goal} {c c' : Cursor} {f : Forest}
    (h : Parses n g c f c') (hn : n ≤ maxNesting) (hc : c.Ready) : Answered ts s n g c f c' := by
  -- A bracket that was opened is still open where its closing one is to stand, so the machine may
  -- close it or mark it as missing.
  have hdepth {c c₁ : Cursor} (hopen : c.kind.isOpening) (h : c.bump.2.Balanced c₁)
      (hc : c₁.Ready) : 0 < c₁.depth := (Cursor.Balanced.close hopen h hc (k := .rParen) rfl).1
  induction h with
  | tooDeep g c =>
    intro call hcall
    obtain ⟨body, -, rfl⟩ := Option.map_eq_some_iff.1 hcall
    exact Machine.answers_tooDeep body c
  | nested h ih =>
    intro call hcall
    obtain ⟨body, hbody, rfl⟩ := Option.map_eq_some_iff.1 hcall
    intro c₀ hc₀
    exact ((ih (by omega) hc).behind hbody c₀ hc₀).nested hn
  | @operand n g c t c' h ih =>
    intro call hcall
    exact ((ih hn hc.flush).behind hcall).answers
  | unconditional h hif ih =>
    exact .of_behind rfl (Machine.answers_unconditional ((ih hn hc).behind rfl) hif)
  | conditional body hif condition helse alternative ih ih₁ ih₂ =>
    have hr := (body.ready hc).bump (hif.trans_ne (by decide))
    have hr' := (condition.ready hr).bump (helse.trans_ne (by decide))
    exact .of_behind rfl (Machine.answers_conditional ((ih hn hc).behind rfl) hif
      (ih₁ hn hr _ rfl) helse (ih₂ hn hr' _ rfl))
  | withoutElse body hif condition helse ih ih₁ =>
    have hr := (body.ready hc).bump (hif.trans_ne (by decide))
    exact .of_behind rfl (Machine.answers_withoutElse ((ih hn hc).behind rfl) hif
      (ih₁ hn hr _ rfl) helse)
  | join h hstop ih => exact .of_behind rfl (Machine.Grows.join (ih hn hc) hstop)
  | @first n j c t c' h ih => exact Machine.grows_first ((ih hn hc).behind j.call?_operand)
  | @further n j c t c₁ f c₂ left hop right ih ih₁ =>
    have hr := (left.ready hc).bump (Join.ne_eof hop)
    exact Machine.Grows.further (ih hn hc) hop (ih₁ hn hr _ j.call?_operand)
  | uncompared h hstop ih =>
    exact .of_behind rfl (Machine.answers_uncompared ((ih hn hc).behind rfl) hstop)
  | comparison left hop more ih ih₁ =>
    exact .of_behind rfl (Machine.answers_comparison ((ih hn hc).behind rfl) hop
      (ih₁ hn (left.ready hc)))
  | comparedEnd hstop => exact Machine.answers_comparedEnd hstop
  | comparedMore hop right more ih ih₁ =>
    have hr := hc.flush.bump (Kind.ne_eof_of_isComparison hop)
    exact Machine.answers_comparedMore hop (ih hn hr _ rfl) (ih₁ hn (right.ready hr))
  | unary hop h ih =>
    have hr := hc.bump (Unary.ne_eof hop)
    exact .of_behind rfl (Machine.answers_unary hop (ih hn hr _ rfl))
  | @noUnary n u c t c' hop h ih =>
    exact .of_behind rfl (Machine.answers_noUnary hop ((ih hn hc).behind u.call?_below))
  | noPower h hop ih => exact .of_behind rfl (Machine.answers_noPower ((ih hn hc).behind rfl) hop)
  | power base hop exponent ih ih₁ =>
    have hr := (base.ready hc).bump (hop.trans_ne (by decide))
    exact .of_behind rfl (Machine.answers_power ((ih hn hc).behind rfl) hop (ih₁ hn hr _ rfl))
  | primary h hparen hdot ih => exact .of_behind rfl (Machine.Grows.primary (ih hn hc) hparen hdot)
  | bare h ih => exact Machine.grows_bare (ih hn hc)
  | call callee hparen arguments ih ih₁ =>
    exact Machine.Grows.call (ih hn hc) hparen (ih₁ hn (callee.ready hc) _ rfl)
  | member object hdot ih => exact Machine.Grows.member (ih hn hc) hdot
  | literal hpending hrest hkind =>
    intro _
    exact Machine.answers_literal hpending hrest hkind
  | emptyTuple hopen hclose =>
    have hr := hc.bump (hopen.trans_ne (by decide))
    intro hpending
    exact Machine.answers_emptyTuple hpending hopen hclose (hdepth (hopen ▸ rfl) (.refl _) hr)
  | group hopen hclose inner hcomma ih =>
    have hr := hc.bump (hopen.trans_ne (by decide))
    have hd := hdepth (hopen ▸ rfl) (inner.balanced hr) (inner.ready hr)
    intro hpending
    exact Machine.answers_group hpending hopen hclose (ih hn hr _ rfl) hcomma hd
  | tuple hopen hclose inner hcomma more ih ih₁ =>
    have hr := hc.bump (hopen.trans_ne (by decide))
    have hr' := (inner.ready hr).bump (hcomma.trans_ne (by decide))
    have hitems := (inner.balanced hr).bump (by rw [hcomma]; rfl) (more.balanced hr')
    have hd := hdepth (hopen ▸ rfl) hitems (more.ready hr')
    intro hpending
    exact Machine.answers_tuple hpending hopen hclose (ih hn hr _ rfl) hcomma (ih₁ hn hr') hd
  | list hopen h ih =>
    intro hpending
    exact Machine.answers_list hopen (((ih hn hc).behind rfl).bare hpending)
  | dict hopen h ih =>
    intro hpending
    exact Machine.answers_dict hopen (((ih hn hc).behind rfl).bare hpending)
  | unexpected hliteral hopen =>
    intro hpending
    exact Machine.answers_unexpected hpending hliteral hopen
  | enclosed hopen hclose h ih =>
    have hr := hc.bump (Kind.ne_eof_of_isOpening hopen)
    have hd := hdepth hopen (h.balanced hr) (h.ready hr)
    exact .of_behind rfl (Machine.answers_enclosed hopen hclose (ih hn hr) hd)
  | itemsEnd hend => exact Machine.answers_itemsEnd hend
  | itemsLast hend h hcomma ih => exact Machine.answers_itemsLast hend (ih hn hc) hcomma
  | itemsMore hend h hcomma more ih ih₁ =>
    have hr := (h.ready hc).bump (hcomma.trans_ne (by decide))
    -- The parser looks at the trees of an item, the machine at the tokens that it starts with.
    rw [h.any_keywordArgument hc] at ih₁
    exact Machine.answers_itemsMore hend (ih hn hc) hcomma (ih₁ hn hr)
  | missingItem hcomma => exact Machine.answers_missingItem hcomma
  | @item n item named c f c' hcomma h ih =>
    exact Machine.answers_item hcomma (ih hn hc _ (item.call?_goal named))
  | pair key hcolon value ih ih₁ =>
    have hr := (key.ready hc).bump (hcolon.trans_ne (by decide))
    exact .of_behind rfl (Machine.answers_pair ((ih hn hc).behind rfl) hcolon (ih₁ hn hr _ rfl))
  | withoutColon key hcolon ih =>
    exact .of_behind rfl (Machine.answers_withoutColon ((ih hn hc).behind rfl) hcolon)
  | keyword hname value ih =>
    obtain ⟨hidentifier, heq⟩ := startsNamed_iff.1 hname
    have hr := hc.bump (hidentifier.trans_ne (by decide))
    have hr' := hr.bump (heq.trans_ne (by decide))
    exact .of_behind rfl (Machine.answers_keyword hname (ih hn hr' _ rfl))
  | positional hname value ih =>
    have hr := ((looked_moves _).ready hc).1
    exact .of_behind rfl (Machine.answers_positional hname ((ih hn hr).behind rfl))
  | misplaced hname value ih =>
    have hr := ((looked_moves _).ready hc).1
    exact .of_behind rfl (Machine.answers_misplaced hname ((ih hn hr).behind rfl))
  | targetsEnd hcomma => exact Machine.answers_targetsEnd hcomma
  | targetsTrailing hcomma hend => exact Machine.answers_targetsTrailing hcomma hend
  | targetsMore hcomma hend target more ih ih₁ =>
    have hr := hc.bump (hcomma.trans_ne (by decide))
    exact Machine.answers_targetsMore hcomma hend (ih hn hr _ rfl) (ih₁ hn (target.ready hr))

end Expression

end ScriptTree
