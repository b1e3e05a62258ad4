import ScriptTree.Proofs.Document.Partition
import ScriptTree.Proofs.Grammar.Words

namespace ScriptTree

namespace Kind

def isExpression : Kind → Bool
  | .conditionalExpression | .binaryExpression | .unaryExpression | .comparisonExpression
  | .pipelineExpression | .callExpression | .attributeExpression | .parenthesizedExpression
  | .tupleLiteral | .listLiteral | .dictLiteral => true
  | _ => false

def isBinaryOperator : Kind → Bool
  | .plus | .minus | .star | .starStar | .slash | .percent | .shiftRight | .shiftLeft | .andKw
  | .orKw => true
  | _ => false

def isUnaryOperator : Kind → Bool
  | .plus | .minus | .notKw => true
  | _ => false

end Kind

namespace Tree

def isNodeOf (k : Kind) : Tree → Bool
  | .token _ _ => false
  | .node l _ => l == k

/-- An operand is a literal, an expression, or an error in its place. -/
def isOperand : Tree → Bool
  | .token k _ => k.isLiteral
  | .node k _ => k.isExpression || k == .error

end Tree

open Expression (Item)

/-- What may stand between commas. Among arguments it matters whether a keyword argument came
before: after one of these any other argument is an error. -/
def Expression.Item.fits : Item → Bool → Tree → Bool
  | plain, _, t => t.isOperand
  | pair, _, t => t.isNodeOf .dictPair || t.isNodeOf .error
  | argument, named, t =>
    t.isNodeOf .keywordArgument || if named then t.isNodeOf .error else t.isOperand

inductive Listed (item : Item) : Bool → Forest → Prop
  | nil {named} : Listed item named []
  | last {named t} (ht : item.fits named t) : Listed item named [t]
  | more {named t x ts} (ht : item.fits named t)
      (hts : Listed item (named || t.kind == .keywordArgument) ts) :
      Listed item named (t :: .token .comma x :: ts)

/-- Among plain items no keyword argument matters. -/
theorem Listed.plain {named named' : Bool} {ts : Forest} (h : Listed .plain named ts) :
    Listed .plain named' ts := by
  induction h generalizing named' with
  | nil => exact .nil
  | last ht => exact .last ht
  | more ht hts ih => exact .more ht ih

inductive Compared : Forest → Prop
  | nil : Compared []
  | more {us t ts} (ht : t.isOperand) (hts : Compared ts) :
      Compared (.node .comparisonOp us :: t :: ts)

/-- Brackets around items. The closing one may be missing. -/
def Enclosed (opening closing : Kind) (item : Item) (ts : Forest) : Prop :=
  ∃ x us t, ts = .token opening x :: us ++ [t] ∧ Listed item false us ∧
    ((∃ y, t = .token closing y) ∨ t = .missing)

/-- What may follow the expressions of a statement: tokens that do not belong to it, in an error,
and the semicolon that ends it. A line break that ends it is left out with the trivia. -/
inductive Followed : Forest → Prop
  | nil : Followed []
  | junk {us} : Followed [.node .error us]
  | ended {x} : Followed [.token .semicolon x]
  | junkEnded {us x} : Followed [.node .error us, .token .semicolon x]

/-- The children of a node of a kind, without trivia. -/
inductive Shape : Kind → Forest → Prop
  | conditional {a x b y c} (ha : a.isOperand) (hb : b.isOperand) (hc : c.isOperand) :
      Shape .conditionalExpression [a, .token .ifKw x, b, .token .elseKw y, c]
  | withoutElse {a x b} (ha : a.isOperand) (hb : b.isOperand) :
      Shape .conditionalExpression [a, .token .ifKw x, b, .missing]
  | binary {a k x b} (ha : a.isOperand) (hk : k.isBinaryOperator) (hb : b.isOperand) :
      Shape .binaryExpression [a, .token k x, b]
  | unary {k x a} (hk : k.isUnaryOperator) (ha : a.isOperand) :
      Shape .unaryExpression [.token k x, a]
  | pipeline {a x b} (ha : a.isOperand) (hb : b.isOperand) :
      Shape .pipelineExpression [a, .token .pipe x, b]
  | comparison {a us b ts} (ha : a.isOperand) (hb : b.isOperand) (hts : Compared ts) :
      Shape .comparisonExpression (a :: .node .comparisonOp us :: b :: ts)
  | comparisonOp {k x} (hk : k.isComparison) : Shape .comparisonOp [.token k x]
  | call {a us} (ha : a.isOperand) : Shape .callExpression [a, .node .argumentList us]
  | argumentList {ts} (hts : Enclosed .lParen .rParen .argument ts) : Shape .argumentList ts
  | keywordArgument {x y a} (ha : a.isOperand) :
      Shape .keywordArgument [.token .identifier x, .token .eq y, a]
  | member {a x y} (ha : a.isOperand) :
      Shape .attributeExpression [a, .token .dot x, .token .identifier y]
  | wrongMember {a x us} (ha : a.isOperand) :
      Shape .attributeExpression [a, .token .dot x, .node .error us]
  | parenthesized {x a y} (ha : a.isOperand) :
      Shape .parenthesizedExpression [.token .lParen x, a, .token .rParen y]
  | unclosed {x a} (ha : a.isOperand) :
      Shape .parenthesizedExpression [.token .lParen x, a, .missing]
  | tuple {ts} (hts : Enclosed .lParen .rParen .plain ts) : Shape .tupleLiteral ts
  | list {ts} (hts : Enclosed .lBracket .rBracket .plain ts) : Shape .listLiteral ts
  | dict {ts} (hts : Enclosed .lBrace .rBrace .pair ts) : Shape .dictLiteral ts
  | pair {a x b} (ha : a.isOperand) (hb : b.isOperand) : Shape .dictPair [a, .token .colon x, b]
  | withoutColon {a} (ha : a.isOperand) : Shape .dictPair [a, .missing]
  | targets {a ts} (hts : Listed .plain false (a :: ts)) : Shape .assignmentTargets (a :: ts)
  | assignment {us x a ts} (ha : a.isOperand) (hts : Followed ts) :
      Shape .assignment (.node .assignmentTargets us :: .token .eq x :: a :: ts)
  | unassigned {us ts} (hts : Followed ts) :
      Shape .assignment (.node .assignmentTargets us :: .missing :: ts)
  | expression {a ts} (ha : a.isOperand) (hts : Followed ts) : Shape .expressionStatement (a :: ts)
  | program {ts} (hts : ∀ t ∈ ts, t.isNodeOf .assignment ∨ t.isNodeOf .expressionStatement) :
      Shape .program ts
  | tokens {ts} (hts : ∀ t ∈ ts, t.isNode = false) : Shape .error ts
  /-- An argument after a keyword argument. -/
  | misplaced {a} (ha : a.isOperand) : Shape .error [a]

def Forest.significant (ts : Forest) : Forest := ts.filter fun t => !t.isTrivia

mutual

/-- Every node of a tree has the shape of its kind. -/
def Tree.Shaped : Tree → Prop
  | .token _ _ => True
  | .node k ts => Shape k (Forest.significant ts) ∧ Forest.Shaped ts

def Forest.Shaped : Forest → Prop
  | [] => True
  | t :: ts => t.Shaped ∧ Forest.Shaped ts

end

@[simp] theorem Tree.shaped_token (k : Kind) (s : Text) : (Tree.token k s).Shaped := by
  rw [Tree.Shaped]
  trivial

namespace Forest

@[simp] theorem significant_nil : significant [] = [] := rfl

@[simp] theorem significant_append (ts us : Forest) :
    significant (ts ++ us) = significant ts ++ significant us := List.filter_append ..

@[simp] theorem significant_node (k : Kind) (us ts : Forest) :
    significant (.node k us :: ts) = .node k us :: significant ts := rfl

@[simp] theorem significant_missing (ts : Forest) :
    significant (.missing :: ts) = .missing :: significant ts := rfl

theorem significant_cons {t : Tree} (h : t.isTrivia = false) (ts : Forest) :
    significant (t :: ts) = t :: significant ts := by
  simp [significant, h]

theorem any_keywordArgument {ts : Forest} {t : Tree} (h : significant ts = [t]) :
    (ts.any fun u => u.kind == .keywordArgument) = (t.kind == .keywordArgument) := by
  have htrivia (u : Tree) : (!u.isTrivia && u.kind == .keywordArgument) =
      (u.kind == .keywordArgument) := by
    cases u with
    | token k s => cases k <;> rfl
    | node k us => rfl
  have hany := congrArg (List.any · fun u => u.kind == .keywordArgument) h
  simpa only [significant, List.any_filter, htrivia, List.any_cons, List.any_nil,
    Bool.or_false] using hany

theorem significant_trivia {ts : List Token} (h : ∀ t ∈ ts, t.kind.isTrivia) :
    significant (ts.map Token.tree) = [] := by
  rw [significant, List.filter_eq_nil_iff]
  intro t ht
  obtain ⟨u, hu, rfl⟩ := List.mem_map.1 ht
  simp [Token.tree, Tree.isTrivia, h u hu]

theorem shaped_iff {ts : Forest} : Shaped ts ↔ ∀ t ∈ ts, t.Shaped := by
  induction ts with
  | nil => simp [Shaped]
  | cons t ts ih => simp [Shaped, ih]

theorem shaped_significant {ts : Forest} :
    (∀ t ∈ significant ts, t.Shaped) ↔ ∀ t ∈ ts, t.Shaped := by
  refine ⟨fun h t ht => ?_, fun h t ht => h t (List.mem_of_mem_filter ht)⟩
  cases t with
  | token k s => trivial
  | node k us => exact h _ (List.mem_filter.2 ⟨ht, rfl⟩)

end Forest

theorem Tree.shaped_node {k : Kind} {ts : Forest} :
    (Tree.node k ts).Shaped ↔
      Shape k (Forest.significant ts) ∧ ∀ t ∈ Forest.significant ts, t.Shaped := by
  rw [Tree.Shaped, Forest.shaped_iff, Forest.shaped_significant]

theorem Tree.shaped_tokens {ts : Forest} (h : ∀ t ∈ ts, t.isNode = false) :
    (Tree.node .error ts).Shaped := by
  have hts : ∀ t ∈ Forest.significant ts, t.isNode = false :=
    fun t ht => h t (List.mem_of_mem_filter ht)
  refine shaped_node.2 ⟨.tokens hts, fun t ht => ?_⟩
  cases t with
  | token k s => trivial
  | node k us => exact absurd (hts _ ht) (by simp [Tree.isNode])

theorem Tree.shaped_missing : Tree.missing.Shaped := shaped_tokens (by simp)

namespace Forest

def Sole (p : Tree → Bool) (s : Forest) : Prop := ∃ t, s = [t] ∧ p t ∧ t.Shaped

variable {p q : Tree → Bool} {t : Tree} {s : Forest}

theorem Sole.mono (h : Sole p s) (hpq : ∀ t, p t → q t) : Sole q s := by
  obtain ⟨t, hs, hp, ht⟩ := h
  exact ⟨t, hs, hpq t hp, ht⟩

theorem Sole.of_significant (h : Sole p (significant [t])) :
    (∀ ts, significant (t :: ts) = t :: significant ts) ∧ p t ∧ t.Shaped := by
  obtain ⟨u, hu, hp, hs⟩ := h
  have hmem : u ∈ significant [t] := by simp [hu]
  obtain ⟨hmem, htrivia⟩ := List.mem_filter.1 hmem
  obtain rfl := List.mem_singleton.1 hmem
  exact ⟨significant_cons (by simpa using htrivia), hp, hs⟩

theorem sole_node {k : Kind} {f g : Forest} (hp : p (.node k f)) (hg : significant f = g)
    (hshape : Shape k g) (hts : ∀ t ∈ g, t.Shaped) : Sole p (significant [.node k f]) :=
  ⟨_, rfl, hp, Tree.shaped_node.2 (hg ▸ ⟨hshape, hts⟩)⟩

theorem sole_infix {kind k : Kind} {x : Text} {f g : Forest} (hp : p (.node kind (t :: f ++ g)))
    (ht : Sole Tree.isOperand (significant [t])) (hf : significant f = [.token k x])
    (hg : Sole Tree.isOperand (significant g))
    (hshape : ∀ {a b : Tree}, a.isOperand → b.isOperand → Shape kind [a, .token k x, b]) :
    Sole p (significant [.node kind (t :: f ++ g)]) := by
  obtain ⟨ha, hao, has⟩ := ht.of_significant
  obtain ⟨b, hb, hbo, hbs⟩ := hg
  refine sole_node hp ?_ (hshape hao hbo) (by simp [has, hbs])
  simp only [List.cons_append, ha, significant_append, hf, hb, List.nil_append]

theorem sole_missing (hp : p .missing) : Sole p (significant [.missing]) :=
  ⟨_, rfl, hp, Tree.shaped_missing⟩

end Forest

namespace Cursor

theorem isNode_bump (c : Cursor) : ∀ t ∈ c.bump.1, t.isNode = false := by
  intro t ht
  cases hr : c.rest with
  | nil => simp [bump, take, hr] at ht
  | cons u r =>
    rw [bump_eq hr] at ht
    rcases List.mem_append.1 ht with ht | ht
    · obtain ⟨v, -, rfl⟩ := List.mem_map.1 ht
      rfl
    · obtain rfl := List.mem_singleton.1 ht
      rfl

theorem significant_flush {c : Cursor} (h : c.Ready) : Forest.significant c.flush.1 = [] :=
  Forest.significant_trivia h.trivia

/-- Of what is taken only the current token is no trivia. -/
theorem significant_bump {c : Cursor} (h : c.Ready) {k : Kind} (hk : c.kind = k)
    (hne : k ≠ .eof) (htrivia : k.isTrivia = false) :
    ∃ x, Forest.significant c.bump.1 = [.token k x] ∧ c.bump.2.Ready := by
  subst hk
  obtain ⟨t, r, hr, ht⟩ := exists_rest hne
  refine ⟨t.text, ?_, ((bump_moves hne).ready h).1⟩
  rw [bump_eq hr, Forest.significant_append, Forest.significant_trivia h.trivia, ← ht]
  rw [← ht] at htrivia
  exact Forest.significant_cons (t := t.tree) htrivia []

theorem significant_close {c : Cursor} (h : c.Ready) {k : Kind} (hk : k.isClosing) :
    ∃ t, Forest.significant (c.close k).1 = [t] ∧ ((∃ y, t = .token k y) ∨ t = .missing) ∧
      t.Shaped := by
  unfold close
  split
  · rename_i hkind
    obtain ⟨x, hx, -⟩ := significant_bump h hkind (Kind.ne_eof_of_isClosing hk)
      (by revert hk; cases k <;> decide)
    exact ⟨_, hx, .inl ⟨x, rfl⟩, trivial⟩
  · exact ⟨_, rfl, .inr rfl, Tree.shaped_missing⟩

end Cursor

namespace Expression

open Cursor (Moves)

theorem isNode_skipNested (fuel opened : Nat) (c : Cursor) :
    ∀ t ∈ (skipNested fuel opened c).1, t.isNode = false := by
  fun_induction skipNested fuel opened c with
  | case1 => simp
  | case2 => simp
  | case3 fuel opened c k hk trees c₁ hb more c₂ hs ih =>
    have hbump := c.isNode_bump
    rw [hb] at hbump
    rw [hs] at ih
    intro t ht
    rcases List.mem_append.1 ht with ht | ht
    · exact hbump t ht
    · exact ih t ht

theorem tooDeep_sole (c : Cursor) :
    Forest.Sole (Tree.isNodeOf .error) (Forest.significant [(tooDeep c).1]) :=
  ⟨_, rfl, rfl, Tree.shaped_tokens (isNode_skipNested _ _ c)⟩

theorem unexpected_sole (c : Cursor) :
    Forest.Sole (Tree.isNodeOf .error) (Forest.significant [(unexpected c).1]) := by
  unfold unexpected
  split
  · exact ⟨_, rfl, rfl, Tree.shaped_missing⟩
  · refine ⟨_, rfl, rfl, Tree.shaped_tokens fun t ht => ?_⟩
    unfold Cursor.take at ht
    split at ht
    · simp at ht
    · rcases List.mem_append.1 ht with ht | ht
      · obtain ⟨u, -, rfl⟩ := List.mem_map.1 ht
        rfl
      · obtain rfl := List.mem_singleton.1 ht
        rfl

/-- What stands after a dot is a name or an error. -/
theorem field_shaped {c : Cursor} (h : c.Ready) :
    ∃ t, Forest.significant (field c).1 = [t] ∧
      ((∃ y, t = .token .identifier y) ∨ ∃ us, t = .node .error us) ∧ t.Shaped := by
  unfold field
  split
  · rename_i hk
    obtain ⟨x, hx, -⟩ := Cursor.significant_bump h hk (by decide) rfl
    exact ⟨_, hx, .inl ⟨x, rfl⟩, trivial⟩
  · split
    · exact ⟨_, rfl, .inr ⟨_, rfl⟩, Tree.shaped_missing⟩
    · obtain ⟨t, ht, hp, hs⟩ := unexpected_sole c.flush.2
      refine ⟨t, ?_, ?_, hs⟩
      · rw [Cursor.operand, Forest.significant_append, Cursor.significant_flush h, ht]
        rfl
      · cases t with
        | token k x => simp [Tree.isNodeOf] at hp
        | node k us =>
          obtain rfl : k = .error := by simpa [Tree.isNodeOf] using hp
          exact .inr ⟨us, rfl⟩

/-- The trees that a goal gives, without trivia; `first` is the kind of the token that it starts
at. -/
def Goal.Fits (first : Kind) : Goal → Forest → Prop
  | nested g, s => Forest.Sole (Tree.isNodeOf .error) s ∨ g.Fits first s
  | operand g, s => g.Fits first s
  | compared, s => Compared s ∧ (first.isComparison → s ≠ []) ∧ ∀ t ∈ s, t.Shaped
  | enclosed kind close item, s => ∃ us, s = [.node kind us] ∧
      Enclosed first close item (Forest.significant us) ∧ ∀ t ∈ Forest.significant us, t.Shaped
  | items _ item named, s => Listed item named s ∧ ∀ t ∈ s, t.Shaped
  | slot item named, s => Forest.Sole (item.fits named) s
  | pair, s => Forest.Sole (Item.pair.fits false) s
  | argument named, s => Forest.Sole (Item.argument.fits named) s
  | targets, s => (∀ a : Tree, a.isOperand → Listed .plain false (a :: s)) ∧ ∀ t ∈ s, t.Shaped
  | _, s => Forest.Sole Tree.isOperand s

theorem Goal.fits_operand {j : Join} {first : Kind} {s : Forest} :
    j.operand.Fits first s ↔ s.Sole Tree.isOperand := by
  cases j <;> rfl

theorem Goal.fits_below {u : Unary} {first : Kind} {s : Forest} :
    u.below.Fits first s ↔ s.Sole Tree.isOperand := by
  cases u <;> rfl

theorem isOperand_of_error {t : Tree} (h : t.isNodeOf .error) : t.isOperand := by
  cases t with
  | token k s => simp [Tree.isNodeOf] at h
  | node k ts =>
    obtain rfl : k = .error := by simpa [Tree.isNodeOf] using h
    rfl

theorem Goal.sole_of_nested {g : Goal} {first : Kind} {s : Forest}
    (hg : g.Fits first s → s.Sole Tree.isOperand) (h : (nested g).Fits first s) :
    s.Sole Tree.isOperand := by
  rcases h with h | h
  · exact h.mono fun t => isOperand_of_error
  · exact hg h

theorem Item.fits_error {item : Item} {named : Bool} {t : Tree} (h : t.isNodeOf .error) :
    item.fits named t := by
  cases item <;> cases named <;> simp [Item.fits, h, isOperand_of_error h]

theorem Item.sole_of_goal {item : Item} {named : Bool} {first : Kind} {s : Forest}
    (h : (item.goal named).Fits first s) : s.Sole (item.fits named) := by
  cases item with
  | plain => exact Goal.sole_of_nested id h
  | pair => exact h
  | argument => exact h

theorem Join.isOperand_node (j : Join) (ts : Forest) : (Tree.node j.node ts).isOperand := by
  cases j <;> rfl

theorem Join.shape {j : Join} {k : Kind} (h : j.joins k) {a b : Tree} (x : Text)
    (ha : a.isOperand) (hb : b.isOperand) : Shape j.node [a, .token k x, b] := by
  cases j <;> simp only [joins, Bool.or_eq_true, decide_eq_true_eq] at h
  case pipeline =>
    rw [h]
    exact .pipeline ha hb
  all_goals
    refine .binary ha ?_ hb
    rcases h with (rfl | rfl) | rfl <;> rfl

theorem Unary.isUnaryOperator {u : Unary} {k : Kind} (h : u.starts k) : k.isUnaryOperator := by
  cases u <;> simp only [starts, Bool.or_eq_true, decide_eq_true_eq] at h
  · rw [h]
    rfl
  · rcases h with rfl | rfl <;> rfl

/-- Whatever is parsed gives the trees that the goal calls for. -/
theorem Parses.fits {n : Nat} {g : Goal} {c c' : Cursor} {f : Forest} (h : Parses n g c f c')
    (hc : c.Ready) : g.Fits c.kind (Forest.significant f) := by
  -- The cursor stays ready, so what is kept back before each token is trivia and drops out; what is
  -- left of the parts stands in the node in their order.
  induction h with
  | tooDeep g c => exact .inl (tooDeep_sole c)
  | nested h ih => exact .inr (ih hc)
  | @operand n g c t c' h ih =>
    rw [Forest.significant_append, Cursor.significant_flush hc]
    exact ih (c.flush_moves.ready hc).1
  | unconditional h hif ih => exact ih hc
  | conditional body hif condition helse alternative ih ih₁ ih₂ =>
    obtain ⟨ha, hao, has⟩ := (ih hc).of_significant
    obtain ⟨x, hx, hr⟩ := Cursor.significant_bump (body.moves.ready hc).1 hif (by decide) rfl
    obtain ⟨b, hb, hbo, hbs⟩ := ih₁ hr
    obtain ⟨y, hy, hr⟩ :=
      Cursor.significant_bump (condition.moves.ready hr).1 helse (by decide) rfl
    obtain ⟨d, hd, hdo, hds⟩ := ih₂ hr
    refine Forest.sole_node rfl ?_ (.conditional (x := x) (y := y) hao hbo hdo) ?_
    · simp only [List.cons_append, ha, Forest.significant_append, hx, hb, hy, hd,
        List.nil_append]
    · simp [has, hbs, hds]
  | withoutElse body hif condition helse ih ih₁ =>
    obtain ⟨ha, hao, has⟩ := (ih hc).of_significant
    obtain ⟨x, hx, hr⟩ := Cursor.significant_bump (body.moves.ready hc).1 hif (by decide) rfl
    obtain ⟨b, hb, hbo, hbs⟩ := ih₁ hr
    refine Forest.sole_node rfl ?_ (.withoutElse (x := x) hao hbo) ?_
    · simp only [List.cons_append, ha, Forest.significant_append, hx, hb, List.nil_append]
      rfl
    · simp [has, hbs, Tree.shaped_missing]
  | join h hstop ih => exact ih hc
  | first h ih => exact Goal.fits_operand.1 (ih hc)
  | @further n j c t c₁ f c₂ left hop right ih ih₁ =>
    obtain ⟨x, hx, hr⟩ := Cursor.significant_bump (left.moves.ready hc).1 rfl (Join.ne_eof hop)
      (Grammar.trivia_of_neutral (Grammar.neutral_of_joins hop))
    exact Forest.sole_infix (j.isOperand_node _) (ih hc) hx (Goal.fits_operand.1 (ih₁ hr))
      (Join.shape hop x)
  | uncompared h hstop ih => exact ih hc
  | comparison left hop more ih ih₁ =>
    obtain ⟨ha, hao, has⟩ := (ih hc).of_significant
    obtain ⟨hmore, hne, hs⟩ := ih₁ (left.moves.ready hc).1
    -- The goal starts at a comparison operator, so at least one operand follows.
    have hcompared := hne hop
    refine Forest.sole_node rfl (ha _) ?_ (by simpa [has] using hs)
    generalize Forest.significant _ = s at hmore hcompared ⊢
    cases hmore with
    | nil => exact absurd rfl hcompared
    | more hb hts => exact .comparison hao hb hts
  | comparedEnd hstop => exact ⟨.nil, by simp [hstop], by simp⟩
  | @comparedMore n c f c₁ g c₂ hop right more ih ih₁ =>
    have hflush := (c.flush_moves.ready hc).1
    obtain ⟨x, hx, hr⟩ := Cursor.significant_bump hflush rfl (Kind.ne_eof_of_isComparison hop)
      (Grammar.trivia_of_neutral (Grammar.neutral_of_isComparison hop))
    obtain ⟨b, hb, hbo, hbs⟩ := ih hr
    obtain ⟨hmore, -, hs⟩ := ih₁ (right.moves.ready hr).1
    have hoperator : (Tree.node .comparisonOp c.flush.2.bump.1).Shaped :=
      Tree.shaped_node.2 (hx ▸ ⟨.comparisonOp hop, by simp⟩)
    have heq : Forest.significant
        (c.flush.1 ++ .node .comparisonOp c.flush.2.bump.1 :: f ++ g) =
          .node .comparisonOp c.flush.2.bump.1 :: b :: Forest.significant g := by
      simp [Cursor.significant_flush hc, hb]
    rw [heq]
    exact ⟨.more hbo hmore, by simp, by simpa [hoperator, hbs] using hs⟩
  | @unary n u c f c' hop h ih =>
    obtain ⟨x, hx, hr⟩ := Cursor.significant_bump hc rfl (Unary.ne_eof hop)
      (Grammar.trivia_of_neutral (Grammar.neutral_of_starts hop))
    obtain ⟨b, hb, hbo, hbs⟩ := Goal.sole_of_nested id (ih hr)
    refine Forest.sole_node rfl ?_ (.unary (x := x) (u.isUnaryOperator hop) hbo) (by simp [hbs])
    simp only [Forest.significant_append, hx, hb, List.cons_append, List.nil_append]
  | noUnary hop h ih => exact Goal.fits_below.1 (ih hc)
  | noPower h hop ih => exact ih hc
  | power base hop exponent ih ih₁ =>
    obtain ⟨x, hx, hr⟩ := Cursor.significant_bump (base.moves.ready hc).1 hop (by decide) rfl
    exact Forest.sole_infix rfl (ih hc) hx (Goal.sole_of_nested id (ih₁ hr))
      fun ha hb => .binary ha rfl hb
  | primary h hparen hdot ih => exact ih hc
  | bare h ih => exact ih hc
  | call callee hparen arguments ih ih₁ =>
    obtain ⟨ha, hao, has⟩ := (ih hc).of_significant
    obtain ⟨us, hus, hitems, hs⟩ := ih₁ (callee.moves.ready hc).1
    have harguments : (Tree.node .argumentList us).Shaped :=
      Tree.shaped_node.2 ⟨.argumentList (hparen ▸ hitems), hs⟩
    exact Forest.sole_node rfl (by rw [ha, hus]) (.call hao) (by simp [has, harguments])
  | @member n c a c₁ object hdot ih =>
    obtain ⟨ha, hao, has⟩ := (ih hc).of_significant
    obtain ⟨x, hx, hr⟩ := Cursor.significant_bump (object.moves.ready hc).1 hdot (by decide) rfl
    obtain ⟨t, ht, hfield, hs⟩ := field_shaped hr
    refine Forest.sole_node rfl (g := [a, .token .dot x, t]) ?_ ?_ (by simp [has, hs])
    · simp only [List.cons_append, ha, Forest.significant_append, hx, ht, List.nil_append]
    · rcases hfield with ⟨y, rfl⟩ | ⟨us, rfl⟩
      · exact .member hao
      · exact .wrongMember hao
  | @literal n c t r hpending hrest hkind =>
    have htrivia := Grammar.trivia_of_neutral (Grammar.neutral_of_isLiteral hkind)
    exact ⟨t.tree, Forest.significant_cons (t := t.tree) htrivia [], hkind, by simp [Token.tree]⟩
  | emptyTuple hopen hclose =>
    obtain ⟨x, hx, hr⟩ := Cursor.significant_bump hc hopen (by decide) rfl
    obtain ⟨t, ht, htclose, hs⟩ := Cursor.significant_close hr (k := .rParen) rfl
    refine Forest.sole_node rfl (g := [.token .lParen x, t]) ?_ ?_ (by simp [hs])
    · simp only [Forest.significant_append, hx, ht, List.cons_append, List.nil_append]
    · exact .tuple ⟨x, [], t, rfl, .nil, htclose⟩
  | group hopen hclose inner hcomma ih =>
    obtain ⟨x, hx, hr⟩ := Cursor.significant_bump hc hopen (by decide) rfl
    obtain ⟨a, ha, hao, has⟩ := Goal.sole_of_nested id (ih hr)
    obtain ⟨t, ht, htclose, hs⟩ :=
      Cursor.significant_close (inner.moves.ready hr).1 (k := .rParen) rfl
    refine Forest.sole_node rfl (g := [.token .lParen x, a, t]) ?_ ?_ (by simp [has, hs])
    · simp only [Forest.significant_append, hx, ha, ht, List.cons_append, List.nil_append]
    · rcases htclose with ⟨y, rfl⟩ | rfl
      · exact .parenthesized hao
      · exact .unclosed hao
  | @tuple n c f c₁ g c₂ hopen hclose inner hcomma more ih ih₁ =>
    obtain ⟨x, hx, hr⟩ := Cursor.significant_bump hc hopen (by decide) rfl
    obtain ⟨a, ha, hao, has⟩ := Goal.sole_of_nested id (ih hr)
    obtain ⟨y, hy, hr⟩ :=
      Cursor.significant_bump (inner.moves.ready hr).1 hcomma (by decide) rfl
    obtain ⟨hitems, hitem⟩ := ih₁ hr
    obtain ⟨t, ht, htclose, hs⟩ :=
      Cursor.significant_close (more.moves.ready hr).1 (k := .rParen) rfl
    refine Forest.sole_node rfl
      (g := .token .lParen x :: (a :: .token .comma y :: Forest.significant g) ++ [t]) ?_ ?_ ?_
    · simp only [Forest.significant_append, hx, ha, hy, ht, List.cons_append, List.nil_append]
    · exact .tuple ⟨x, _, t, rfl, .more hao hitems.plain, htclose⟩
    · have hitems : ∀ u ∈ a :: .token .comma y :: Forest.significant g, u.Shaped :=
        List.forall_mem_cons.2 ⟨has, List.forall_mem_cons.2 ⟨trivial, hitem⟩⟩
      exact List.forall_mem_append.2
        ⟨List.forall_mem_cons.2 ⟨trivial, hitems⟩, List.forall_mem_singleton.2 hs⟩
  | list hopen h ih =>
    obtain ⟨us, hus, hitems, hs⟩ := ih hc
    exact ⟨_, hus, rfl, Tree.shaped_node.2 ⟨.list (hopen ▸ hitems), hs⟩⟩
  | dict hopen h ih =>
    obtain ⟨us, hus, hitems, hs⟩ := ih hc
    exact ⟨_, hus, rfl, Tree.shaped_node.2 ⟨.dict (hopen ▸ hitems), hs⟩⟩
  | @unexpected n c hliteral hopen => exact (unexpected_sole c).mono fun t => isOperand_of_error
  | @enclosed n kind close item c f c₁ hopen hclose h ih =>
    have hne := Kind.ne_eof_of_isOpening hopen
    obtain ⟨x, hx, hr⟩ :=
      Cursor.significant_bump hc rfl hne (by revert hopen; cases c.kind <;> decide)
    obtain ⟨hitems, hitem⟩ := ih hr
    obtain ⟨t, ht, htclose, hs⟩ := Cursor.significant_close (h.moves.ready hr).1 hclose
    refine ⟨_, rfl, ?_⟩
    have heq : Forest.significant (c.bump.1 ++ f ++ (c₁.close close).1) =
        .token c.kind x :: Forest.significant f ++ [t] := by
      simp only [Forest.significant_append, hx, ht, List.cons_append, List.nil_append]
    rw [heq]
    exact ⟨⟨x, _, t, rfl, hitems, htclose⟩, List.forall_mem_append.2
      ⟨List.forall_mem_cons.2 ⟨trivial, hitem⟩, List.forall_mem_singleton.2 hs⟩⟩
  | itemsEnd hend => exact ⟨.nil, by simp⟩
  | itemsLast hend h hcomma ih =>
    obtain ⟨t, ht, hfits, hs⟩ := ih hc
    rw [ht]
    exact ⟨.last hfits, by simpa using hs⟩
  | @itemsMore n close item named c f c₁ g c₂ hend h hcomma more ih ih₁ =>
    obtain ⟨t, ht, hfits, hs⟩ := ih hc
    obtain ⟨x, hx, hr⟩ := Cursor.significant_bump (h.moves.ready hc).1 hcomma (by decide) rfl
    obtain ⟨hitems, hitem⟩ := ih₁ hr
    -- The parser asks all trees of an item for a keyword argument; all but one are trivia.
    have hany := Forest.any_keywordArgument ht
    rw [hany] at hitems
    simp only [Forest.significant_append, ht, hx, List.cons_append, List.nil_append]
    exact ⟨.more hfits hitems, by simpa [hs] using hitem⟩
  | missingItem hcomma => exact Forest.sole_missing (Item.fits_error rfl)
  | item hcomma h ih => exact Item.sole_of_goal (ih hc)
  | pair key hcolon value ih ih₁ =>
    obtain ⟨x, hx, hr⟩ := Cursor.significant_bump (key.moves.ready hc).1 hcolon (by decide) rfl
    exact Forest.sole_infix rfl (Goal.sole_of_nested id (ih hc)) hx (Goal.sole_of_nested id (ih₁ hr))
      .pair
  | withoutColon key hcolon ih =>
    obtain ⟨ha, hao, has⟩ := (Goal.sole_of_nested id (ih hc)).of_significant
    exact Forest.sole_node rfl (ha _) (.withoutColon hao) (by simp [has, Tree.shaped_missing])
  | @keyword n named c f c' hname value ih =>
    obtain ⟨hk, heq⟩ := startsNamed_iff.1 hname
    obtain ⟨x, hx, hr⟩ := Cursor.significant_bump hc hk (by decide) rfl
    obtain ⟨y, hy, hr⟩ := Cursor.significant_bump hr heq (by decide) rfl
    obtain ⟨b, hb, hbo, hbs⟩ := Goal.sole_of_nested id (ih hr)
    refine Forest.sole_node rfl ?_ (.keywordArgument (x := x) (y := y) hbo) (by simp [hbs])
    simp only [Forest.significant_append, hx, hy, hb, List.cons_append, List.nil_append]
  | @positional n c t c' hname value ih =>
    have hvalue := Goal.sole_of_nested id (ih ((looked_moves c).ready hc).1)
    exact hvalue.mono fun t ht => by simp [Item.fits, ht]
  | @misplaced n c t c' hname value ih =>
    obtain ⟨ha, hao, has⟩ :=
      (Goal.sole_of_nested id (ih ((looked_moves c).ready hc).1)).of_significant
    exact Forest.sole_node rfl (ha []) (.misplaced hao) (by simp [has])
  | targetsEnd hcomma => exact ⟨fun a ha => .last ha, by simp⟩
  | targetsTrailing hcomma hend =>
    obtain ⟨x, hx, hr⟩ := Cursor.significant_bump hc hcomma (by decide) rfl
    rw [hx]
    exact ⟨fun a ha => .more ha .nil, by simp⟩
  | @targetsMore n c f c₁ g c₂ hcomma hend target more ih ih₁ =>
    obtain ⟨x, hx, hr⟩ := Cursor.significant_bump hc hcomma (by decide) rfl
    obtain ⟨b, hb, hbo, hbs⟩ := Goal.sole_of_nested id (ih hr)
    obtain ⟨hmore, hs⟩ := ih₁ (target.moves.ready hr).1
    simp only [Forest.significant_append, hx, hb, List.cons_append, List.nil_append]
    exact ⟨fun a ha => .more ha (hmore b hbo).plain, by simpa [hbs] using hs⟩

/-- An item is a keyword argument just if it starts like one. -/
theorem Parses.any_keywordArgument {n : Nat} {item : Item} {named : Bool} {c c' : Cursor}
    {f : Forest} (h : Parses n (.slot item named) c f c') (hc : c.Ready) :
    (f.any fun t => t.kind == .keywordArgument) = (item = .argument && startsNamed c) := by
  -- An expression is no keyword argument.
  have hexpression {c c' : Cursor} {t : Tree} (hc : c.Ready) (h : Parses n (.nested .whole) c [t] c') :
      (t.kind == .keywordArgument) = false := by
    obtain ⟨-, hoperand, -⟩ := (Goal.sole_of_nested id (h.fits hc)).of_significant
    cases t with
    | token k x => cases k <;> first | rfl | cases hoperand
    | node k us => cases k <;> first | rfl | cases hoperand
  cases h with
  | missingItem hcomma => simp [startsNamed, hcomma, Tree.missing, Tree.kind]
  | item hcomma h =>
    cases h with
    | @operand _ _ _ t _ h =>
      have hready := hc.flush
      have htrivia : (c.flush.1.any fun t => t.kind == .keywordArgument) = false := by
        rw [List.any_eq_false]
        intro u hu
        obtain ⟨x, hx, rfl⟩ := List.mem_map.1 hu
        have := hc.trivia x hx
        intro hk
        rw [Token.tree, Tree.kind, beq_iff_eq] at hk
        simp [hk, Kind.isTrivia] at this
      rw [List.any_append, htrivia, Bool.false_or, List.any_cons, List.any_nil, Bool.or_false]
      cases item with
      | plain => exact hexpression hready h
      | pair => cases h <;> rfl
      | argument =>
        have hlooked := ((looked_moves c.flush.2).ready hready).1
        cases h with
        | keyword hname value => exact (show startsNamed c = true from hname).symm
        | positional hname value =>
          exact (hexpression hlooked value).trans (show startsNamed c = false from hname).symm
        | misplaced hname value => exact (show startsNamed c = false from hname).symm

end Expression

namespace Statement

open Expression (Goal)

theorem junk_significant {c : Cursor} (hc : c.Ready) :
    ∃ us, Forest.significant c.junk.1 = [.node .error us] ∧ (Tree.node .error us).Shaped := by
  have hjunk : Forest.significant c.junk.1 = [.node .error
      ((Cursor.dropTrailing (c.rest.takeWhile fun t => !Cursor.ends c.depth t)).map
        Token.tree)] := by
    rw [Cursor.junk, Forest.significant_append, Forest.significant_trivia hc.trivia]
    rfl
  refine ⟨_, hjunk, Tree.shaped_tokens fun t ht => ?_⟩
  obtain ⟨u, -, rfl⟩ := List.mem_map.1 ht
  rfl

theorem ending_significant {c : Cursor} (hc : c.Ready) :
    Forest.significant (ending c).1 = [] ∨
      ∃ x, Forest.significant (ending c).1 = [.token .semicolon x] := by
  by_cases hk : c.kind = .newline ∨ c.kind = .semicolon
  · obtain ⟨t, r, -, ht, hending⟩ := exists_ending hk
    rw [hending, Forest.significant_append, Forest.significant_trivia hc.trivia, Token.tree, ht]
    rcases hk with hk | hk <;> rw [hk]
    · exact .inl rfl
    · exact .inr ⟨t.text, rfl⟩
  · rw [ending_eq_flush hk]
    exact .inl (Cursor.significant_flush hc)

theorem finish_followed {c : Cursor} (hc : c.Ready) :
    Followed (Forest.significant (finish c).1) ∧
      ∀ t ∈ Forest.significant (finish c).1, t.Shaped := by
  unfold finish
  by_cases ht : c.atTerminator
  · simp only [ht, if_true, List.nil_append]
    rcases ending_significant hc with h | ⟨x, h⟩ <;> rw [h]
    · exact ⟨.nil, by simp⟩
    · exact ⟨.ended, by simp⟩
  · simp only [ht, Bool.false_eq_true, if_false, Forest.significant_append]
    obtain ⟨us, hus, hs⟩ := junk_significant hc
    rw [hus]
    rcases ending_significant (c.junk_moves.ready hc).1 with h | ⟨x, h⟩ <;> rw [h]
    · exact ⟨.junk, by simpa using hs⟩
    · exact ⟨.junkEnded, by simpa using hs⟩

/-- The body of a statement and what follows it have the shape of the statement. -/
theorem Body.shape {c c' : Cursor} {k : Kind} {f : Forest} (h : Body c k f c') (hc : c.Ready)
    {ts : Forest} (hts : Followed ts) :
    Shape k (Forest.significant f ++ ts) ∧ ∀ t ∈ Forest.significant f, t.Shaped := by
  have hflush := (c.flush_moves.ready hc).1
  have hlead := Cursor.significant_flush hc
  cases h with
  | empty h => exact ⟨.expression rfl hts, by simp [Tree.shaped_missing]⟩
  | expression h expr hcomma heq =>
    obtain ⟨a, ha, hao, has⟩ := Goal.sole_of_nested id (expr.fits hc)
    rw [ha]
    exact ⟨.expression hao hts, by simpa using has⟩
  | @assignment t c₁ f c₂ g _ h target hmore more heq value =>
    obtain ⟨ha, hao, has⟩ := (Goal.sole_of_nested id (target.fits hflush)).of_significant
    have hr := (target.moves.ready hflush).1
    obtain ⟨htargets, hs⟩ := more.fits hr
    obtain ⟨x, hx, hr⟩ :=
      Cursor.significant_bump (more.moves.ready hr).1 heq (by decide) rfl
    obtain ⟨b, hb, hbo, hbs⟩ := Goal.sole_of_nested id (value.fits hr)
    have hnode : (Tree.node .assignmentTargets (t :: f)).Shaped :=
      Tree.shaped_node.2 (ha f ▸ ⟨.targets (htargets t hao), by simpa [has] using hs⟩)
    have hf : Forest.significant
        (c.flush.1 ++ (.node .assignmentTargets (t :: f) :: c₂.bump.1 ++ g)) =
          [.node .assignmentTargets (t :: f), .token .eq x, b] := by
      simp [hlead, hx, hb]
    rw [hf]
    exact ⟨.assignment hbo hts, by simp [hnode, hbs]⟩
  | @unassigned t c₁ f c₂ h target hmore more heq =>
    obtain ⟨ha, hao, has⟩ := (Goal.sole_of_nested id (target.fits hflush)).of_significant
    obtain ⟨htargets, hs⟩ := more.fits (target.moves.ready hflush).1
    have hnode : (Tree.node .assignmentTargets (t :: f)).Shaped :=
      Tree.shaped_node.2 (ha f ▸ ⟨.targets (htargets t hao), by simpa [has] using hs⟩)
    have hf : Forest.significant
        (c.flush.1 ++ [.node .assignmentTargets (t :: f), .missing]) =
          [.node .assignmentTargets (t :: f), .missing] := by
      simp [hlead]
    rw [hf]
    exact ⟨.unassigned hts, by simp [hnode, Tree.shaped_missing]⟩

theorem Body.isStatement {c c' : Cursor} {k : Kind} {f : Forest} (h : Body c k f c') :
    k = .assignment ∨ k = .expressionStatement := by
  cases h <;> simp

theorem shaped_of_parse? {tokens rest : List Token} {first : Nat} {s : Statement}
    (h : parse? tokens first = some (s, rest)) :
    s.tree.Shaped ∧ (s.tree.isNodeOf .assignment ∨ s.tree.isNodeOf .expressionStatement) := by
  obtain ⟨-, k, f, c, hb, rfl, rfl⟩ := exists_of_parse? h
  have hstart := (Cursor.start_ready tokens).1
  obtain ⟨hfollowed, hs⟩ := finish_followed (hb.moves.ready hstart).1
  obtain ⟨hshape, hs'⟩ := hb.shape hstart hfollowed
  refine ⟨Tree.shaped_node.2 ?_, ?_⟩
  · rw [Forest.significant_append]
    exact ⟨hshape, fun t ht => (List.mem_append.1 ht).elim (hs' t) (hs t)⟩
  · rcases hb.isStatement with rfl | rfl
    · exact .inl rfl
    · exact .inr rfl

/-- The tree of statements one after another is shaped. -/
theorem Sequence.shaped {tokens tail : List Token} {n : Nat} {ss : List Statement}
    (h : Sequence tokens n ss tail) : (programTree (ss.map Statement.tree) tail).Shaped := by
  have hss : ∀ s ∈ ss, s.tree.Shaped ∧
      (s.tree.isNodeOf .assignment ∨ s.tree.isNodeOf .expressionStatement) := by
    induction h with
    | done h => simp
    | step h more ih => exact List.forall_mem_cons.2 ⟨shaped_of_parse? h, ih⟩
  have hmem : ∀ t ∈ Forest.significant (ss.map Statement.tree ++ tail.map Token.tree),
      ∃ s ∈ ss, s.tree = t := by
    intro t ht
    rw [Forest.significant_append, Forest.significant_trivia h.tail_trivia, List.append_nil] at ht
    exact List.mem_map.1 (List.mem_of_mem_filter ht)
  refine Tree.shaped_node.2 ⟨.program fun t ht => ?_, fun t ht => ?_⟩
  · obtain ⟨s, hs, rfl⟩ := hmem t ht
    exact (hss s hs).2
  · obtain ⟨s, hs, rfl⟩ := hmem t ht
    exact (hss s hs).1

end Statement

namespace Document

theorem Current.shaped {d : Document} (h : d.Current) : d.tree.Shaped := by
  obtain ⟨tail, hseq, htree⟩ := h.sequence
  rw [htree]
  exact hseq.shaped

/-- Whatever the text is, its tree is one of the whole text, and every node of it has the shape of its
kind. -/
theorem parse_shaped (s : Text) : (parse s).tree.text = s ∧ (parse s).tree.Shaped := by
  have hcurrent := parse_current s
  exact ⟨hcurrent.partitioned.text, hcurrent.shaped⟩

end Document

end ScriptTree
