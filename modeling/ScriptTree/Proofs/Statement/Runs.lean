import ScriptTree.Proofs.Statement.Parses

namespace ScriptTree

namespace Expression

open Cursor (Moves)

def Gives (n : Nat) (g : Goal) (c : Cursor) (r : Tree × Cursor) : Prop := Parses n g c [r.1] r.2

def Follows (n : Nat) (g : Goal) (p : Parser) : Prop :=
  ∀ c : Cursor, c.pending = [] → Gives n g c (p c)

structure Level.Follows (n : Nat) (inner : Level) : Prop where
  whole : Expression.Follows n (.nested .whole) inner.whole
  negated : Expression.Follows n (.nested (.unary .negation)) inner.negated
  signed : Expression.Follows n (.nested (.unary .sign)) inner.signed

/-- After a token and some more steps fewer tokens are left. -/
theorem length_rest_lt {c c' : Cursor} {f : Forest} (hne : c.kind ≠ .eof)
    (h : Moves c.bump.2 f c') : c'.rest.length < c.rest.length :=
  calc c'.rest.length ≤ c'.ahead.length := c'.length_rest_le_ahead
    _ ≤ c.bump.2.ahead.length := h.length_ahead_le
    _ < c.rest.length := Cursor.length_ahead_bump_lt hne

theorem kind_eq_eof_of_length {c : Cursor} (h : c.rest.length ≤ 0) : c.kind = .eof :=
  Cursor.kind_eq_eof (List.length_eq_zero_iff.1 (Nat.le_zero.1 h))

theorem Follows.operand {n : Nat} {g : Goal} {p : Parser} (h : Follows n g p) (c : Cursor) :
    Parses n (.operand g) c (c.operand p).1 (c.operand p).2 :=
  .operand (h c.flush.2 rfl)

theorem Parses.length_rest_le_of_operand {n : Nat} {g : Goal} {c c' : Cursor} {f : Forest}
    (h : Parses n (.operand g) c f c') : c'.rest.length ≤ c.rest.length := by
  cases h with
  | operand h => exact c'.length_rest_le_ahead.trans h.moves.length_ahead_le

theorem Parses.length_rest_le_of_slot {n : Nat} {item : Item} {named : Bool} {c c' : Cursor}
    {f : Forest} (h : Parses n (.slot item named) c f c') : c'.rest.length ≤ c.rest.length := by
  cases h with
  | missingItem => exact Nat.le_refl _
  | item _ h => exact h.length_rest_le_of_operand

theorem Parses.length_rest_lt_of_enclosed {n : Nat} {kind close : Kind} {item : Item}
    {c c' : Cursor} {f : Forest} (h : Parses n (.enclosed kind close item) c f c') :
    c'.rest.length < c.rest.length := by
  cases h with
  | enclosed hopen hclose h =>
    exact length_rest_lt (Kind.ne_eof_of_isOpening hopen)
      (h.moves.trans (Cursor.close_moves _ (Kind.ne_eof_of_isClosing hclose)))

theorem Parses.length_rest_lt_of_arguments {n : Nat} {kind close : Kind} {item : Item}
    {c c' : Cursor} {f : Forest} (h : Parses n (.operand (.enclosed kind close item)) c f c') :
    c'.rest.length < c.rest.length := by
  cases h with
  | operand h => exact h.length_rest_lt_of_enclosed

section Parsers

variable {n : Nat} {inner : Level}

theorem parses_joinLoop {j : Join} {p : Parser} (hp : Follows n j.operand p) {c₀ : Cursor}
    (fuel : Nat) {t : Tree} {c : Cursor} (h : Parses n (.chain j) c₀ [t] c)
    (hfuel : c.rest.length ≤ fuel) :
    Gives n (.join j) c₀ (joinLoop j.node j.joins p fuel t c) := by
  induction fuel generalizing t c with
  | zero =>
    have hk := kind_eq_eof_of_length hfuel
    refine .join h (Bool.eq_false_iff.2 fun hj => ?_)
    exact Join.ne_eof hj hk
  | succ fuel ih =>
    rw [joinLoop]
    split
    · rename_i hop
      have hright := hp.operand c.bump.2
      have hlt := length_rest_lt (Join.ne_eof hop) hright.moves
      exact ih (.further h hop hright) (Nat.le_of_lt_succ (hlt.trans_le hfuel))
    · rename_i hop
      exact .join h (by simpa using hop)

theorem parses_joined {j : Join} {p : Parser} (hp : Follows n j.operand p) :
    Follows n (.join j) (joined j.node j.joins p) := by
  intro c hc
  have hfirst := Parses.first (hp c hc)
  show Gives n (.join j) c (if j.joins (p c).2.kind then _ else _)
  split
  · exact parses_joinLoop hp _ hfirst (Nat.le_refl _)
  · rename_i hop
    exact .join hfirst (by simpa using hop)

theorem parses_compareLoop {p : Parser} (hp : Follows n (.join .pipeline) p) (fuel : Nat)
    (c : Cursor) (hfuel : c.rest.length ≤ fuel) :
    Parses n .compared c (compareLoop p fuel c).1 (compareLoop p fuel c).2 := by
  induction fuel generalizing c with
  | zero =>
    have hk := kind_eq_eof_of_length hfuel
    exact .comparedEnd (by simp [hk, Kind.isComparison])
  | succ fuel ih =>
    rw [compareLoop]
    split
    · rename_i hop
      have hright := hp.operand c.flush.2.bump.2
      have hlt : _ < c.rest.length :=
        length_rest_lt (c := c.flush.2) (Kind.ne_eof_of_isComparison hop) hright.moves
      exact .comparedMore hop hright (ih _ (Nat.le_of_lt_succ (hlt.trans_le hfuel)))
    · rename_i hop
      exact .comparedEnd (by simpa using hop)

theorem parses_itemsLoop {close : Kind} {item : Item} {p : Bool → Parser}
    (hp : ∀ named, Follows n (item.goal named) (p named)) (fuel : Nat) (named : Bool) (c : Cursor)
    (hfuel : c.rest.length ≤ fuel) :
    Parses n (.items close item named) c (itemsLoop close p fuel named c).1
      (itemsLoop close p fuel named c).2 := by
  induction fuel generalizing named c with
  | zero => exact .itemsEnd (.inr (kind_eq_eof_of_length hfuel))
  | succ fuel ih =>
    rw [itemsLoop]
    split
    · rename_i hend
      exact .itemsEnd (by simpa using hend)
    · rename_i hend
      rw [Bool.or_eq_true, decide_eq_true_eq, decide_eq_true_eq] at hend
      -- The slot is one step of the loop, whether it holds an item or not.
      obtain ⟨f, c₁, hstep, hslot⟩ : ∃ f c₁,
          (if c.kind = .comma then ([.missing], c) else c.operand (p named)) = (f, c₁) ∧
            Parses n (.slot item named) c f c₁ := by
        by_cases hcomma : c.kind = .comma
        · exact ⟨_, _, if_pos hcomma, .missingItem hcomma⟩
        · exact ⟨_, _, if_neg hcomma, .item hcomma ((hp named).operand c)⟩
      rw [hstep]
      show Parses n (.items close item named) c (Prod.fst (ite _ _ _)) (Prod.snd (ite _ _ _))
      split
      · rename_i hcomma
        have hlt := length_rest_lt (hcomma.trans_ne (by decide)) (Moves.refl c₁.bump.2)
        have hle := hslot.length_rest_le_of_slot
        exact .itemsMore hend hslot hcomma (ih _ _ (by omega))
      · rename_i hcomma
        exact .itemsLast hend hslot hcomma

theorem parses_enclosed {kind close : Kind} {item : Item} {p : Bool → Parser}
    (hp : ∀ named, Follows n (item.goal named) (p named)) {c : Cursor} (hopen : c.kind.isOpening)
    (hclose : close.isClosing) :
    Gives n (.enclosed kind close item) c (enclosed kind close p c) :=
  .enclosed hopen hclose (parses_itemsLoop hp _ _ _ (Nat.le_refl _))

theorem parses_parenthesized (h : inner.Follows n) {c : Cursor} (hopen : c.kind = .lParen) :
    Gives n .atom c (parenthesized inner c) := by
  have hfirst := h.whole.operand c.bump.2
  show Gives n .atom c (if c.bump.2.kind = .rParen then _ else
    if (c.bump.2.operand inner.whole).2.kind = .comma then _ else _)
  split
  · rename_i hclose
    exact Parses.emptyTuple hopen hclose
  · rename_i hclose
    split
    · rename_i hcomma
      exact Parses.tuple hopen hclose hfirst hcomma
        (parses_itemsLoop (fun _ => h.whole) _ _ _ (Nat.le_refl _))
    · rename_i hcomma
      exact Parses.group hopen hclose hfirst hcomma

theorem parses_dictPair (h : inner.Follows n) : Follows n .pair (dictPair inner) := by
  intro c hc
  have hkey := h.whole c hc
  show Gives n .pair c (if (inner.whole c).2.kind = .colon then _ else _)
  split
  · rename_i hcolon
    exact Parses.pair hkey hcolon (h.whole.operand _)
  · rename_i hcolon
    exact Parses.withoutColon hkey hcolon

theorem parses_positional (h : inner.Follows n) (named : Bool) {c : Cursor} (hc : c.pending = [])
    (hname : startsNamed c = false) :
    Gives n (.argument named) c
      (if named then (.node .error [(inner.whole (looked c)).1], (inner.whole (looked c)).2)
        else inner.whole (looked c)) := by
  have hpending : (looked c).pending = [] := by
    unfold looked
    split <;> exact hc
  cases named with
  | false => exact Parses.positional hname (h.whole _ hpending)
  | true => exact Parses.misplaced hname (h.whole _ hpending)

theorem parses_argument (h : inner.Follows n) (named : Bool) :
    Follows n (.argument named) (argument inner named) := by
  intro c hc
  show Gives n (.argument named) c
    (if c.kind = .identifier then if c.peek.1 = .eq then _ else _ else _)
  split
  · rename_i hk
    split
    · rename_i heq
      have hname : startsNamed c := by simp [startsNamed, hk, heq]
      have hkeyword : Parses n (.argument named) c _ _ := .keyword hname (h.whole.operand _)
      rw [← bump_peek hk] at hkeyword
      exact hkeyword
    · rename_i heq
      have hpos := parses_positional h named hc (by simp [startsNamed, heq])
      rw [looked, if_pos hk] at hpos
      exact hpos
  · rename_i hk
    have hpos := parses_positional h named hc (by simp [startsNamed, hk])
    rw [looked, if_neg hk] at hpos
    exact hpos

theorem parses_atom (h : inner.Follows n) : Follows n .atom (atom inner) := by
  intro c hc
  unfold atom
  cases hr : c.rest with
  | nil =>
    have hk := Cursor.kind_eq_eof hr
    have hmissing : Gives n .atom c (unexpected c) := .unexpected (by simp [hk, Kind.isLiteral])
      (by simp [hk, Kind.isOpening])
    have ha : c.atAnchor := by simp [Cursor.atAnchor, hk]
    rw [unexpected, if_pos ha] at hmissing
    exact hmissing
  | cons t r =>
    have hk := Cursor.kind_eq_of_rest hr
    by_cases hliteral : t.kind.isLiteral
    · simp only [hliteral, if_true]
      exact Parses.literal hc hr hliteral
    · simp only [hliteral, Bool.false_eq_true, if_false]
      split
      · rename_i hopen
        exact parses_parenthesized h (hk.trans hopen)
      · rename_i hopen
        rw [hopen] at hk
        exact Parses.list hk
          (parses_enclosed (fun _ => h.whole) (by rw [hk]; rfl) (by decide))
      · rename_i hopen
        rw [hopen] at hk
        exact Parses.dict hk
          (parses_enclosed (fun _ => parses_dictPair h) (by rw [hk]; rfl) (by decide))
      · rename_i hparen hbracket hbrace
        rw [← hk] at hliteral hparen hbracket hbrace
        refine Parses.unexpected (by simpa using hliteral) (Bool.eq_false_iff.2 fun hopen => ?_)
        unfold Kind.isOpening at hopen
        split at hopen <;> simp_all

theorem parses_suffixes (h : inner.Follows n) {c₀ : Cursor} (fuel : Nat) {t : Tree} {c : Cursor}
    (hc : Parses n .suffixed c₀ [t] c) (hfuel : c.rest.length ≤ fuel) :
    Gives n .primary c₀ (suffixes inner fuel t c) := by
  induction fuel generalizing t c with
  | zero =>
    have hk := kind_eq_eof_of_length hfuel
    exact Parses.primary hc (hk.trans_ne (by decide)) (hk.trans_ne (by decide))
  | succ fuel ih =>
    unfold suffixes
    split
    · rename_i hparen
      have hargs : Gives n (.enclosed .argumentList .rParen .argument) c.flush.2
          (enclosed .argumentList .rParen (argument inner) c.flush.2) :=
        parses_enclosed (parses_argument h) (by rw [Cursor.kind_flush, hparen]; rfl) (by decide)
      have hlt := Parses.length_rest_lt_of_enclosed hargs
      exact ih (.call hc hparen (.operand hargs)) (Nat.le_of_lt_succ (hlt.trans_le hfuel))
    · rename_i hdot
      have hlt := length_rest_lt (hdot.trans_ne (by decide)) (field_moves c.bump.2)
      exact ih (.member hc hdot) (Nat.le_of_lt_succ (hlt.trans_le hfuel))
    · rename_i hparen hdot
      exact Parses.primary hc hparen hdot

theorem parses_primary (h : inner.Follows n) : Follows n .primary (primary inner) := by
  intro c hc
  have hatom := Parses.bare (parses_atom h c hc)
  show Gives n .primary c
    (if (atom inner c).2.kind = .lParen || (atom inner c).2.kind = .dot then _ else _)
  split
  · exact parses_suffixes h _ hatom (Nat.le_refl _)
  · rename_i hk
    simp only [Bool.or_eq_true, decide_eq_true_eq, not_or] at hk
    exact Parses.primary hatom hk.1 hk.2

theorem parses_power (h : inner.Follows n) : Follows n .power (power inner) := by
  intro c hc
  have hbase := parses_primary h c hc
  show Gives n .power c (if (primary inner c).2.kind = .starStar then _ else _)
  split
  · rename_i hop
    exact Parses.power hbase hop (h.signed.operand _)
  · rename_i hop
    exact Parses.noPower hbase hop

theorem parses_signed (h : inner.Follows n) : Follows n (.unary .sign) (signed inner) := by
  intro c hc
  show Gives n (.unary .sign) c (if Unary.sign.starts c.kind then _ else _)
  split
  · rename_i hop
    exact Parses.unary hop (h.signed.operand _)
  · rename_i hop
    exact Parses.noUnary (by simpa using hop) (parses_power h c hc)

theorem parses_pipeline (h : inner.Follows n) : Follows n (.join .pipeline) (pipeline inner) :=
  have hproduct : Follows n (.join .product) (product inner) := parses_joined (parses_signed h)
  have hsum : Follows n (.join .sum) (sum inner) := parses_joined hproduct
  have hlag : Follows n (.join .lag) (lag inner) := parses_joined hsum
  parses_joined hlag

theorem parses_comparison (h : inner.Follows n) : Follows n .comparison (comparison inner) := by
  intro c hc
  have hp := parses_pipeline h
  unfold comparison
  -- The operands are parsed alike whatever they are made of.
  generalize pipeline inner = p at hp ⊢
  have hleft := hp c hc
  show Gives n .comparison c (if (p c).2.kind.isComparison then _ else _)
  split
  · rename_i hop
    exact Parses.comparison hleft hop (parses_compareLoop hp _ _ (Nat.le_refl _))
  · rename_i hop
    exact Parses.uncompared hleft (by simpa using hop)

theorem parses_negated (h : inner.Follows n) : Follows n (.unary .negation) (negated inner) := by
  intro c hc
  show Gives n (.unary .negation) c (if c.kind = .notKw then _ else _)
  split
  · rename_i hop
    exact Parses.unary (by simpa [Unary.starts] using hop) (h.negated.operand _)
  · rename_i hop
    exact Parses.noUnary (by simpa [Unary.starts] using hop) (parses_comparison h c hc)

theorem parses_disjunction (h : inner.Follows n) :
    Follows n (.join .disjunction) (disjunction inner) :=
  have hand : Follows n (.join .conjunction) (conjunction inner) :=
    parses_joined (parses_negated h)
  parses_joined hand

theorem parses_conditional (h : inner.Follows n) : Follows n .whole (conditional inner) := by
  intro c hc
  have hp := parses_disjunction h
  unfold conditional
  generalize disjunction inner = p at hp ⊢
  have hbody := hp c hc
  have hcondition := hp.operand (p c).2.bump.2
  show Gives n .whole c (if (p c).2.kind = .ifKw then
    if ((p c).2.bump.2.operand p).2.kind = .elseKw then _ else _ else _)
  split
  · rename_i hif
    split
    · rename_i helse
      exact Parses.conditional hbody hif hcondition helse (hp.operand _)
    · rename_i helse
      exact Parses.withoutElse hbody hif hcondition helse
  · rename_i hif
    exact Parses.unconditional hbody hif

end Parsers

theorem parses_level (n : Nat) : (level n).Follows n := by
  induction n with
  | zero => exact ⟨fun c _ => .tooDeep _ c, fun c _ => .tooDeep _ c, fun c _ => .tooDeep _ c⟩
  | succ n ih =>
    exact ⟨fun c hc => .nested (parses_conditional ih c hc),
      fun c hc => .nested (parses_negated ih c hc), fun c hc => .nested (parses_signed ih c hc)⟩

/-- Every cursor without pending trivia is parsed. -/
theorem parses_parse : Follows maxNesting (.nested .whole) parse := (parses_level maxNesting).whole

/-! ### The parsers give what is parsed -/

def Join.parser (inner : Level) : Join → Parser
  | product => Expression.product inner
  | sum => Expression.sum inner
  | lag => Expression.lag inner
  | pipeline => Expression.pipeline inner
  | conjunction => Expression.conjunction inner
  | disjunction => Expression.disjunction inner

def Join.operandParser (inner : Level) : Join → Parser
  | product => signed inner
  | sum => Expression.product inner
  | lag => Expression.sum inner
  | pipeline => Expression.lag inner
  | conjunction => negated inner
  | disjunction => Expression.conjunction inner

theorem Join.parser_eq (inner : Level) (j : Join) :
    j.parser inner = joined j.node j.joins (j.operandParser inner) := by
  cases j <;> rfl

def Unary.parser (inner : Level) : Unary → Parser
  | negation => negated inner
  | sign => signed inner

def Unary.operandParser (inner : Level) : Unary → Parser
  | negation => inner.negated
  | sign => inner.signed

def Unary.belowParser (inner : Level) : Unary → Parser
  | negation => comparison inner
  | sign => power inner

theorem Unary.parser_eq (inner : Level) (u : Unary) (c : Cursor) :
    u.parser inner c =
      if u.starts c.kind then
        (.node .unaryExpression (c.bump.1 ++ (c.bump.2.operand (u.operandParser inner)).1),
          (c.bump.2.operand (u.operandParser inner)).2)
      else u.belowParser inner c := by
  cases u with
  | negation =>
    simp only [starts, decide_eq_true_eq]
    rfl
  | sign => rfl

def Item.parser (inner : Level) : Item → Bool → Parser
  | plain, _ => inner.whole
  | pair, _ => dictPair inner
  | argument, named => Expression.argument inner named

def Yields (p : Parser) (c : Cursor) (f : Forest) (c' : Cursor) : Prop :=
  ∃ t, f = [t] ∧ p c = (t, c')

/-- What the parser of a goal does. A chain is met on the way, where the loop still has fuel for
every token that is left. -/
def Goal.Runs : Goal → Nat → Cursor → Forest → Cursor → Prop
  | nested _, 0, c, f, c' => Yields Expression.tooDeep c f c'
  | nested g, n + 1, c, f, c' => g.Runs n c f c'
  | operand g, n, c, f, c' => ∃ t, f = c.flush.1 ++ [t] ∧ g.Runs n c.flush.2 [t] c'
  | whole, n, c, f, c' => Yields (Expression.conditional (level n)) c f c'
  | join j, n, c, f, c' => Yields (j.parser (level n)) c f c'
  | chain j, n, c, f, c' => ∃ t fuel, f = [t] ∧ c'.rest.length ≤ fuel ∧
      j.parser (level n) c = joinLoop j.node j.joins (j.operandParser (level n)) fuel t c'
  | comparison, n, c, f, c' => Yields (Expression.comparison (level n)) c f c'
  | compared, n, c, f, c' => ∀ fuel, c.rest.length ≤ fuel →
      compareLoop (Expression.pipeline (level n)) fuel c = (f, c')
  | unary u, n, c, f, c' => Yields (u.parser (level n)) c f c'
  | power, n, c, f, c' => Yields (Expression.power (level n)) c f c'
  | primary, n, c, f, c' => Yields (Expression.primary (level n)) c f c'
  | suffixed, n, c, f, c' => ∃ t fuel, f = [t] ∧ c'.rest.length ≤ fuel ∧
      Expression.primary (level n) c = suffixes (level n) fuel t c'
  | atom, n, c, f, c' => Yields (Expression.atom (level n)) c f c'
  | enclosed kind close item, n, c, f, c' =>
      Yields (Expression.enclosed kind close (item.parser (level n))) c f c'
  | items close item named, n, c, f, c' => ∀ fuel, c.rest.length ≤ fuel →
      itemsLoop close (item.parser (level n)) fuel named c = (f, c')
  | slot item named, n, c, f, c' =>
      (if c.kind = .comma then ([.missing], c) else c.operand (item.parser (level n) named)) =
        (f, c')
  | pair, n, c, f, c' => Yields (dictPair (level n)) c f c'
  | argument named, n, c, f, c' => Yields (Expression.argument (level n) named) c f c'
  | targets, n, c, f, c' => n = maxNesting → ∀ fuel, c.rest.length ≤ fuel →
      Statement.targetsLoop fuel c = (f, c')

theorem Goal.Runs.operand_eq {g : Goal} {n : Nat} {p : Parser} {c c' : Cursor} {f : Forest}
    (hp : ∀ {c t c'}, g.Runs n c [t] c' → p c = (t, c')) (h : (Goal.operand g).Runs n c f c') :
    c.operand p = (f, c') := by
  obtain ⟨t, rfl, ht⟩ := h
  show (c.flush.1 ++ [(p c.flush.2).1], (p c.flush.2).2) = _
  rw [hp ht]

theorem Yields.eq {p : Parser} {c c' : Cursor} {t : Tree} (h : Yields p c [t] c') :
    p c = (t, c') := by
  obtain ⟨u, hu, hp⟩ := h
  rw [hp, List.singleton_inj.1 hu]

theorem Yields.of_eq {p : Parser} {c c' : Cursor} {t : Tree} (h : p c = (t, c')) :
    Yields p c [t] c' := ⟨t, rfl, h⟩

theorem runs_whole {n : Nat} {c c' : Cursor} {t : Tree}
    (h : (Goal.nested .whole).Runs n c [t] c') : (level n).whole c = (t, c') := by
  cases n <;> exact Yields.eq h

theorem runs_unary {n : Nat} (u : Unary) {c c' : Cursor} {t : Tree}
    (h : (Goal.nested (.unary u)).Runs n c [t] c') : u.operandParser (level n) c = (t, c') := by
  cases u <;> cases n <;> exact Yields.eq h

theorem runs_below {n : Nat} (u : Unary) {c c' : Cursor} {t : Tree}
    (h : u.below.Runs n c [t] c') : u.belowParser (level n) c = (t, c') := by
  cases u <;> exact Yields.eq h

theorem runs_join {n : Nat} (j : Join) {c c' : Cursor} {t : Tree}
    (h : (Goal.join j).Runs n c [t] c') : j.parser (level n) c = (t, c') :=
  Yields.eq h

theorem runs_enclosed {n : Nat} {kind close : Kind} (item : Item) {c c' : Cursor} {t : Tree}
    (h : (Goal.enclosed kind close item).Runs n c [t] c') :
    enclosed kind close (item.parser (level n)) c = (t, c') :=
  Yields.eq h

theorem Join.runs_operand {n : Nat} (j : Join) {c c' : Cursor} {t : Tree}
    (h : j.operand.Runs n c [t] c') : j.operandParser (level n) c = (t, c') := by
  cases j <;> exact Yields.eq h

theorem Item.runs_goal {n : Nat} (item : Item) (named : Bool) {c c' : Cursor} {t : Tree}
    (h : (item.goal named).Runs n c [t] c') : item.parser (level n) named c = (t, c') := by
  cases item with
  | plain => exact runs_whole h
  | pair => exact Yields.eq h
  | argument => exact Yields.eq h

theorem joinLoop_eq_of_not_joins {kind : Kind} {joins : Kind → Bool} {p : Parser} {t : Tree}
    {c : Cursor} (h : joins c.kind = false) (fuel : Nat) : joinLoop kind joins p fuel t c = (t, c) := by
  cases fuel with
  | zero => rfl
  | succ fuel =>
    rw [joinLoop, if_neg]
    simp [h]

theorem joined_eq (kind : Kind) (joins : Kind → Bool) (p : Parser) (c : Cursor) :
    joined kind joins p c = joinLoop kind joins p (p c).2.rest.length (p c).1 (p c).2 := by
  show (if joins (p c).2.kind then _ else _) = _
  split
  · rfl
  · rename_i h
    rw [joinLoop_eq_of_not_joins (by simpa using h)]

theorem suffixes_eq_of_not_starts {inner : Level} {t : Tree} {c : Cursor} (hparen : c.kind ≠ .lParen)
    (hdot : c.kind ≠ .dot) (fuel : Nat) : suffixes inner fuel t c = (t, c) := by
  cases fuel with
  | zero => rfl
  | succ fuel =>
    unfold suffixes
    split
    · contradiction
    · contradiction
    · rfl

theorem primary_eq (inner : Level) (c : Cursor) :
    primary inner c =
      suffixes inner (atom inner c).2.rest.length (atom inner c).1 (atom inner c).2 := by
  show (if (atom inner c).2.kind = .lParen || (atom inner c).2.kind = .dot then _ else _) = _
  split
  · rfl
  · rename_i h
    simp only [Bool.or_eq_true, decide_eq_true_eq, not_or] at h
    rw [suffixes_eq_of_not_starts h.1 h.2]
    rfl

/-- An atom that is no literal is told by its first token. -/
theorem atom_eq_of_kind {inner : Level} {c : Cursor} (h : c.kind.isLiteral = false) :
    atom inner c =
      match c.kind with
      | .lParen => parenthesized inner c
      | .lBracket => enclosed .listLiteral .rBracket (fun _ => inner.whole) c
      | .lBrace => enclosed .dictLiteral .rBrace (fun _ => dictPair inner) c
      | _ => unexpected c := by
  unfold atom
  cases hr : c.rest with
  | nil =>
    have hk := Cursor.kind_eq_eof hr
    have ha : c.atAnchor := by simp [Cursor.atAnchor, hk]
    simp only [hk, unexpected, ha, if_true]
  | cons t r =>
    have hk := Cursor.kind_eq_of_rest hr
    rw [hk] at h ⊢
    exact if_neg (Bool.eq_false_iff.1 h)

theorem atom_eq_parenthesized {inner : Level} {c : Cursor} (h : c.kind = .lParen) :
    atom inner c = parenthesized inner c := by
  rw [atom_eq_of_kind (by rw [h]; rfl)]
  simp only [h]

theorem argument_eq_of_not_named {inner : Level} (named : Bool) {c : Cursor}
    (h : startsNamed c = false) :
    argument inner named c =
      if named then (.node .error [(inner.whole (looked c)).1], (inner.whole (looked c)).2)
      else inner.whole (looked c) := by
  unfold argument looked
  by_cases hk : c.kind = .identifier
  · have heq : c.peek.1 ≠ .eq := by simpa [startsNamed, hk] using h
    simp only [hk, if_true, heq, if_false]
  · simp only [hk, if_false]

theorem length_pos_of_not_end {close : Kind} {c : Cursor} (h : ¬(c.kind = close ∨ c.kind = .eof)) :
    0 < c.rest.length := by
  rw [not_or] at h
  obtain ⟨t, r, hr, -⟩ := Cursor.exists_rest h.2
  simp [hr]

/-- A loop has fuel for every token that is left. If its first round takes tokens, the fuel that is
left is enough for what is behind them. -/
theorem loop_eq_of_round {loop : Nat → Forest × Cursor} {r : Forest × Cursor} {m n : Nat}
    (hlt : m < n) (hround : ∀ fuel, m ≤ fuel → loop (fuel + 1) = r) (fuel : Nat) (hfuel : n ≤ fuel) :
    loop fuel = r := by
  obtain ⟨fuel, rfl⟩ : ∃ k, fuel = k + 1 := ⟨fuel - 1, by omega⟩
  exact hround fuel (by omega)

/-- A loop that is met on its way, with fuel for every token that is left, is met after another round
too. -/
theorem exists_loop_of_round {loop : Nat → Tree → Cursor → Tree × Cursor} {r : Tree × Cursor}
    {t t' : Tree} {c c' : Cursor}
    (h : ∃ u fuel, [t] = [u] ∧ c.rest.length ≤ fuel ∧ r = loop fuel u c)
    (hlt : c'.rest.length < c.rest.length)
    (hround : ∀ fuel, loop (fuel + 1) t c = loop fuel t' c') :
    ∃ u fuel, [t'] = [u] ∧ c'.rest.length ≤ fuel ∧ r = loop fuel u c' := by
  obtain ⟨u, fuel, hu, hfuel, hrun⟩ := h
  obtain rfl := List.singleton_inj.1 hu
  obtain ⟨fuel, rfl⟩ : ∃ k, fuel = k + 1 := ⟨fuel - 1, by omega⟩
  exact ⟨t', fuel, rfl, by omega, hrun.trans (hround fuel)⟩

/-- What is parsed is what the parser of the goal gives. -/
theorem Parses.runs {n : Nat} {g : Goal} {c c' : Cursor} {f : Forest} (h : Parses n g c f c') :
    g.Runs n c f c' := by
  induction h with
  | tooDeep g c => exact .of_eq rfl
  | nested h ih => exact ih
  | operand h ih => exact ⟨_, rfl, ih⟩
  | @unconditional n c t c' h hif ih =>
    have hbody : disjunction (level n) c = _ := runs_join .disjunction ih
    refine .of_eq ?_
    unfold Expression.conditional
    simp only [hbody, hif, if_false]
  | @conditional n c t c₁ f c₂ g c₃ body hif condition helse alternative ih ih₁ ih₂ =>
    have hbody : disjunction (level n) c = _ := runs_join .disjunction ih
    have hcondition : c₁.bump.2.operand (disjunction (level n)) = _ :=
      Goal.Runs.operand_eq (runs_join .disjunction) ih₁
    have halternative : c₂.bump.2.operand (disjunction (level n)) = _ :=
      Goal.Runs.operand_eq (runs_join .disjunction) ih₂
    refine .of_eq ?_
    unfold Expression.conditional
    simp only [hbody, hif, if_true, hcondition, helse, halternative]
  | @withoutElse n c t c₁ f c₂ body hif condition helse ih ih₁ =>
    have hbody : disjunction (level n) c = _ := runs_join .disjunction ih
    have hcondition : c₁.bump.2.operand (disjunction (level n)) = _ :=
      Goal.Runs.operand_eq (runs_join .disjunction) ih₁
    refine .of_eq ?_
    unfold Expression.conditional
    simp only [hbody, hif, if_true, hcondition, helse, if_false]
  | join h hstop ih =>
    obtain ⟨u, fuel, hu, -, hrun⟩ := ih
    refine .of_eq ?_
    rw [hrun, joinLoop_eq_of_not_joins hstop, List.singleton_inj.1 hu]
  | @first n j c t c' h ih =>
    have hop := j.runs_operand ih
    refine ⟨t, c'.rest.length, rfl, Nat.le_refl _, ?_⟩
    rw [j.parser_eq, joined_eq, hop]
  | @further n j c t c₁ f c₂ left hop right ih ih₁ =>
    have hlt := length_rest_lt (Join.ne_eof hop) right.moves
    have hright := Goal.Runs.operand_eq j.runs_operand ih₁
    refine exists_loop_of_round ih hlt fun fuel => ?_
    rw [joinLoop, if_pos hop]
    simp only [hright]
  | @uncompared n c t c' h hstop ih =>
    have hleft : pipeline (level n) c = _ := runs_join .pipeline ih
    refine .of_eq ?_
    unfold Expression.comparison
    simp only [hleft, hstop, Bool.false_eq_true, if_false]
  | @comparison n c t c₁ f c₂ left hop more ih ih₁ =>
    have hleft : pipeline (level n) c = _ := runs_join .pipeline ih
    have hmore := ih₁ _ (Nat.le_refl _)
    refine .of_eq ?_
    unfold Expression.comparison
    simp only [hleft, hop, if_true, hmore]
  | @comparedEnd n c hstop =>
    intro fuel hfuel
    cases fuel with
    | zero => rfl
    | succ fuel =>
      rw [compareLoop, if_neg]
      simp [hstop]
  | @comparedMore n c f c₁ g c₂ hop right more ih ih₁ =>
    have hlt : _ < c.rest.length :=
      length_rest_lt (c := c.flush.2) (Kind.ne_eof_of_isComparison hop) right.moves
    have hright : c.flush.2.bump.2.operand (pipeline (level n)) = _ :=
      Goal.Runs.operand_eq (runs_join .pipeline) ih
    refine loop_eq_of_round hlt fun fuel hfuel => ?_
    have hmore := ih₁ fuel hfuel
    rw [compareLoop, if_pos hop]
    simp only [hright, hmore]
  | @unary n u c f c' hop h ih =>
    have hoperand := Goal.Runs.operand_eq (runs_unary u) ih
    refine .of_eq ?_
    rw [u.parser_eq, if_pos hop, hoperand]
  | @noUnary n u c t c' hop h ih =>
    refine .of_eq ?_
    rw [u.parser_eq, if_neg (by simp [hop]), runs_below u ih]
  | noPower h hop ih =>
    refine .of_eq ?_
    unfold Expression.power
    simp only [Yields.eq ih, hop, if_false]
  | @power n c t c₁ f c₂ base hop exponent ih ih₁ =>
    have hexponent : c₁.bump.2.operand (level n).signed = _ :=
      Goal.Runs.operand_eq (runs_unary .sign) ih₁
    refine .of_eq ?_
    unfold Expression.power
    simp only [Yields.eq ih, hop, if_true, hexponent]
  | primary h hparen hdot ih =>
    obtain ⟨u, fuel, hu, -, hrun⟩ := ih
    refine .of_eq ?_
    rw [hrun, suffixes_eq_of_not_starts hparen hdot, List.singleton_inj.1 hu]
  | @bare n c t c' h ih =>
    refine ⟨t, c'.rest.length, rfl, Nat.le_refl _, ?_⟩
    rw [primary_eq, Yields.eq ih]
  | @call n c t c₁ f c₂ callee hparen arguments ih ih₁ =>
    have hlt := arguments.length_rest_lt_of_arguments
    have hargs : c₁.operand (Expression.enclosed .argumentList .rParen (argument (level n))) = _ :=
      Goal.Runs.operand_eq (runs_enclosed .argument) ih₁
    refine exists_loop_of_round ih hlt fun fuel => ?_
    rw [suffixes]
    simp only [hparen, hargs]
  | @member n c t c₁ object hdot ih =>
    have hlt := length_rest_lt (hdot.trans_ne (by decide)) (field_moves c₁.bump.2)
    refine exists_loop_of_round ih hlt fun fuel => ?_
    rw [suffixes]
    simp only [hdot]
    rfl
  | @literal n c t r hpending hrest hkind =>
    refine .of_eq ?_
    unfold Expression.atom
    simp only [hrest, hkind, if_true]
  | @emptyTuple n c hopen hclose =>
    refine .of_eq ?_
    rw [atom_eq_parenthesized hopen]
    unfold parenthesized
    simp only [hclose, if_true]
  | @group n c f c₁ hopen hclose inner hcomma ih =>
    have hfirst := Goal.Runs.operand_eq runs_whole ih
    refine .of_eq ?_
    rw [atom_eq_parenthesized hopen]
    unfold parenthesized
    simp only [hclose, hfirst, hcomma, if_false]
  | @tuple n c f c₁ g c₂ hopen hclose inner hcomma more ih ih₁ =>
    have hfirst := Goal.Runs.operand_eq runs_whole ih
    have hmore : items .rParen (fun _ => (level n).whole) c₁.bump.2 = _ := ih₁ _ (Nat.le_refl _)
    refine .of_eq ?_
    rw [atom_eq_parenthesized hopen]
    unfold parenthesized
    simp only [hclose, hfirst, hcomma, hmore, if_false, if_true]
  | @list n c f c' hopen h ih =>
    obtain ⟨t, rfl, ht⟩ := ih
    refine .of_eq ?_
    rw [atom_eq_of_kind (by rw [hopen]; rfl)]
    simp only [hopen]
    exact ht
  | @dict n c f c' hopen h ih =>
    obtain ⟨t, rfl, ht⟩ := ih
    refine .of_eq ?_
    rw [atom_eq_of_kind (by rw [hopen]; rfl)]
    simp only [hopen]
    exact ht
  | @unexpected n c hliteral hopen =>
    refine .of_eq ?_
    rw [atom_eq_of_kind hliteral]
    split
    · rename_i hk
      simp [hk, Kind.isOpening] at hopen
    · rename_i hk
      simp [hk, Kind.isOpening] at hopen
    · rename_i hk
      simp [hk, Kind.isOpening] at hopen
    · rfl
  | @enclosed n kind close item c f c₁ hopen hclose h ih =>
    have hitems : items close (item.parser (level n)) c.bump.2 = _ := ih _ (Nat.le_refl _)
    refine .of_eq ?_
    unfold Expression.enclosed
    simp only [hitems]
  | @itemsEnd n close item named c hend =>
    intro fuel hfuel
    cases fuel with
    | zero => rfl
    | succ fuel =>
      rw [itemsLoop, if_pos]
      simpa using hend
  | @itemsLast n close item named c f c' hend h hcomma ih =>
    refine loop_eq_of_round (length_pos_of_not_end hend) fun fuel _ => ?_
    rw [itemsLoop, if_neg (by simpa using hend)]
    simp only [Goal.Runs] at ih
    simp only [ih, hcomma, if_false]
  | @itemsMore n close item named c f c₁ g c₂ hend h hcomma more ih ih₁ =>
    have hlt := length_rest_lt (hcomma.trans_ne (by decide)) (Moves.refl c₁.bump.2)
    refine loop_eq_of_round (hlt.trans_le h.length_rest_le_of_slot) fun fuel hfuel => ?_
    have hmore := ih₁ fuel hfuel
    rw [itemsLoop, if_neg (by simpa using hend)]
    simp only [Goal.Runs] at ih
    simp only [ih, hcomma, if_true, hmore]
  | missingItem hcomma => exact if_pos hcomma
  | @item n item named c f c' hcomma h ih =>
    have hitem := Goal.Runs.operand_eq (item.runs_goal named) ih
    exact (if_neg hcomma).trans hitem
  | @pair n c t c₁ f c₂ key hcolon value ih ih₁ =>
    have hkey := runs_whole ih
    have hvalue := Goal.Runs.operand_eq runs_whole ih₁
    refine .of_eq ?_
    unfold dictPair
    simp only [hkey, hcolon, if_true, hvalue]
  | @withoutColon n c t c' key hcolon ih =>
    have hkey := runs_whole ih
    refine .of_eq ?_
    unfold dictPair
    simp only [hkey, hcolon, if_false]
  | @keyword n named c f c' hname value ih =>
    have hvalue := Goal.Runs.operand_eq runs_whole ih
    simp only [startsNamed, Bool.and_eq_true, decide_eq_true_eq] at hname
    refine .of_eq ?_
    unfold Expression.argument
    simp only [hname.1, hname.2, if_true, bump_peek hname.1, hvalue]
  | @positional n c t c' hname value ih =>
    exact .of_eq ((argument_eq_of_not_named _ hname).trans (by rw [runs_whole ih]; rfl))
  | @misplaced n c t c' hname value ih =>
    exact .of_eq ((argument_eq_of_not_named _ hname).trans (by rw [runs_whole ih]; rfl))
  | @targetsEnd n c hcomma =>
    intro _ fuel hfuel
    cases fuel with
    | zero => rfl
    | succ fuel => rw [Statement.targetsLoop, if_neg hcomma]
  | @targetsTrailing n c hcomma hend =>
    intro _
    have hlt := length_rest_lt (hcomma.trans_ne (by decide)) (Moves.refl c.bump.2)
    refine loop_eq_of_round hlt fun fuel _ => ?_
    rw [Statement.targetsLoop, if_pos hcomma]
    simp only [Bool.or_eq_true, decide_eq_true_eq, hend, if_true]
  | @targetsMore n c f c₁ g c₂ hcomma hend target more ih ih₁ =>
    intro hn
    subst hn
    have hlt := length_rest_lt (hcomma.trans_ne (by decide)) target.moves
    have htarget : c.bump.2.operand Expression.parse = _ := Goal.Runs.operand_eq runs_whole ih
    refine loop_eq_of_round hlt fun fuel hfuel => ?_
    have hmore := ih₁ rfl fuel hfuel
    rw [Statement.targetsLoop, if_pos hcomma]
    simp only [Bool.or_eq_true, decide_eq_true_eq, hend, if_false, htarget, hmore]

end Expression

end ScriptTree
