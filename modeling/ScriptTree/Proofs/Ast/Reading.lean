import Mathlib.Data.List.Forall2
import ScriptTree.Ast.Statement
import ScriptTree.Proofs.Grammar.Basic

namespace ScriptTree

namespace Grammar

mutual

/-- The expression has all its parts in place and says the phrase. -/
inductive Reads : Expr → Phrase → Prop
  | name (s : Span) (x : Text) : Reads (.name s x) (.name x)
  | literal (s : Span) (k : Kind) (x : Text) : Reads (.literal s k x) (.literal k x)
  | conditional {s b c a p q r} (body : Reads b p) (condition : Reads c q)
      (alternative : Reads a r) :
      Reads (.conditional s (some b) (some c) (some a)) (.conditional p q r)
  | binary {s op l r p q} (left : Reads l p) (right : Reads r q) :
      Reads (.binary s (some op) (some l) (some r)) (.binary op p q)
  | unary {s k e p} (operand : Reads e p) : Reads (.unary s (some k) (some e)) (.unary k p)
  | comparison {s es ps} (operands : List.Forall₂ Reads es ps) (ks : List Kind) :
      Reads (.comparison s es ks) (.comparison ps ks)
  | pipeline {s l r p q} (source : Reads l p) (stage : Reads r q) :
      Reads (.pipeline s (some l) (some r)) (.pipeline p q)
  | call {s e p es ps ns qs} (callee : Reads e p) (positional : List.Forall₂ Reads es ps)
      (named : List.Forall₂ ReadsNamed ns qs) :
      Reads (.call s (some e) (some (es, ns))) (.call p ps qs)
  | member {s e p} (object : Reads e p) (x : Text) :
      Reads (.member s (some e) (some x)) (.member p x)
  | paren {s e p} (inner : Reads e p) : Reads (.paren s (some e)) (.paren p)
  | tuple {s es ps} (elements : List.Forall₂ Reads es ps) : Reads (.tuple s es) (.tuple ps)
  | list {s es ps} (elements : List.Forall₂ Reads es ps) : Reads (.list s es) (.list ps)
  | dict {s es ps} (pairs : List.Forall₂ ReadsPair es ps) : Reads (.dict s es) (.dict ps)

inductive ReadsNamed : Option Text × Option Expr → Text × Phrase → Prop
  | intro {e p} (x : Text) (value : Reads e p) : ReadsNamed (some x, some e) (x, p)

inductive ReadsPair : Option Expr × Option Expr → Phrase × Phrase → Prop
  | intro {e p f q} (key : Reads e p) (value : Reads f q) : ReadsPair (some e, some f) (p, q)

end

/-- A statement with all its parts in place says a sentence. -/
inductive ReadsSentence : Ast.Statement → Sentence → Prop
  | expression {e p} (heading : Ast.Heading) (h : Reads e p) :
      ReadsSentence (.expression heading (some e)) (.expression p)
  | assignment {es ps e p} (heading : Ast.Heading) (targets : List.Forall₂ Reads es ps)
      (equals : Nat) (value : Reads e p) :
      ReadsSentence (.assignment heading (some es) (some equals) (some e)) (.assignment ps p)

/-- What there is to be found among trees side by side. -/
structure Content where
  phrases : List Phrase := []
  named : List (Text × Phrase) := []
  pairs : List (Phrase × Phrase) := []
  comparisons : List Kind := []

instance : Append Content where
  append x y := ⟨x.phrases ++ y.phrases, x.named ++ y.named, x.pairs ++ y.pairs,
    x.comparisons ++ y.comparisons⟩

/-- Whoever reads the trees, wherever they stand, finds the content in them. What trees show that
stand side by side is what each of them shows, in turn. -/
structure Shows (f : Forest) (x : Content) : Prop where
  clean : Forest.hasError f = false
  phrases : ∀ start, List.Forall₂ Reads (Expr.ofForest start f) x.phrases
  named : ∀ start, List.Forall₂ ReadsNamed (Expr.namedOf start f) x.named
  pairs : ∀ start, List.Forall₂ ReadsPair (Expr.pairsOf start f) x.pairs
  comparisons : Forest.comparisonOperators f = x.comparisons

/-! ### Trees side by side -/

theorem ofForest_append (start : Nat) (f g : Forest) :
    Expr.ofForest start (f ++ g) =
      Expr.ofForest start f ++ Expr.ofForest (start + Forest.bytes f) g := by
  induction f generalizing start with
  | nil => simp [Expr.ofForest, Forest.bytes]
  | cons t f ih =>
    rw [List.cons_append, Expr.ofForest, Expr.ofForest, Forest.bytes, ih, Nat.add_assoc]
    cases Expr.ofTree? start t <;> rfl

theorem namedOf_cons (start : Nat) (t : Tree) (f : Forest) :
    Expr.namedOf start (t :: f) = Expr.namedOf start [t] ++ Expr.namedOf (start + t.bytes) f := by
  cases t with
  | token k x => simp [Expr.namedOf]
  | node k g => by_cases hk : k = .keywordArgument <;> simp [Expr.namedOf, Tree.bytes, hk]

theorem namedOf_append (start : Nat) (f g : Forest) :
    Expr.namedOf start (f ++ g) =
      Expr.namedOf start f ++ Expr.namedOf (start + Forest.bytes f) g := by
  induction f generalizing start with
  | nil => simp [Expr.namedOf, Forest.bytes]
  | cons t f ih =>
    rw [List.cons_append, namedOf_cons, ih, namedOf_cons start t f, Forest.bytes, Nat.add_assoc,
      List.append_assoc]

theorem pairsOf_cons (start : Nat) (t : Tree) (f : Forest) :
    Expr.pairsOf start (t :: f) = Expr.pairsOf start [t] ++ Expr.pairsOf (start + t.bytes) f := by
  cases t with
  | token k x => simp [Expr.pairsOf]
  | node k g => by_cases hk : k = .dictPair <;> simp [Expr.pairsOf, Tree.bytes, hk]

theorem pairsOf_append (start : Nat) (f g : Forest) :
    Expr.pairsOf start (f ++ g) =
      Expr.pairsOf start f ++ Expr.pairsOf (start + Forest.bytes f) g := by
  induction f generalizing start with
  | nil => simp [Expr.pairsOf, Forest.bytes]
  | cons t f ih =>
    rw [List.cons_append, pairsOf_cons, ih, pairsOf_cons start t f, Forest.bytes, Nat.add_assoc,
      List.append_assoc]

theorem Shows.append {f g : Forest} {x y : Content} (hf : Shows f x) (hg : Shows g y) :
    Shows (f ++ g) (x ++ y) where
  clean := by rw [Forest.hasError_append, hf.clean, hg.clean, Bool.or_self]
  phrases start := by
    rw [ofForest_append]
    exact List.rel_append (hf.phrases _) (hg.phrases _)
  named start := by
    rw [namedOf_append]
    exact List.rel_append (hf.named _) (hg.named _)
  pairs start := by
    rw [pairsOf_append]
    exact List.rel_append (hf.pairs _) (hg.pairs _)
  comparisons := by
    rw [Forest.comparisonOperators, List.filterMap_append]
    exact congrArg₂ _ hf.comparisons hg.comparisons

theorem shows_nil : Shows [] {} where
  clean := Forest.hasError_nil
  phrases _ := by simp [Expr.ofForest]
  named _ := by simp [Expr.namedOf]
  pairs _ := by simp [Expr.pairsOf]
  comparisons := rfl

/-- A token that is no operand shows nothing. -/
theorem shows_token {k : Kind} (hliteral : k.isLiteral = false) (herror : k ≠ .error) (x : Text) :
    Shows [.token k x] {} where
  clean := by simpa [Tree.hasError] using herror
  phrases _ := by
    have hname : k ≠ .identifier := by
      rintro rfl
      exact absurd hliteral (by decide)
    simp [Expr.ofForest, Expr.ofTree?, hliteral, hname]
  named _ := by simp [Expr.namedOf]
  pairs _ := by simp [Expr.pairsOf]
  comparisons := rfl

theorem shows_trivia {ts : List Token} (h : ∀ t ∈ ts, t.kind.isTrivia) :
    Shows (ts.map Token.tree) {} := by
  have hsilent {k : Kind} (hk : k.isTrivia) : k.isLiteral = false ∧ k ≠ .error := by
    revert hk
    cases k <;> decide
  induction ts with
  | nil => exact shows_nil
  | cons t ts ih =>
    have ht := hsilent (h t List.mem_cons_self)
    exact (shows_token ht.1 ht.2 t.text).append (ih fun u hu => h u (List.mem_cons_of_mem _ hu))

/-! ### Single trees -/

theorem ofForest_single (start : Nat) (t : Tree) :
    Expr.ofForest start [t] = (Expr.ofTree? start t).toList := by
  rw [Expr.ofForest]
  cases Expr.ofTree? start t <;> simp [Expr.ofForest]

def isPart (k : Kind) : Bool :=
  k == .keywordArgument || k == .dictPair || k == .comparisonOp || k == .argumentList ||
    k == .assignmentTargets

theorem ofTree?_of_isPart {k : Kind} (hk : isPart k) (start : Nat) (f : Forest) :
    Expr.ofTree? start (.node k f) = none := by
  simp only [isPart, Bool.or_eq_true, beq_iff_eq] at hk
  rcases hk with (((rfl | rfl) | rfl) | rfl) | rfl <;> rfl

theorem shows_expr {t : Tree} {p : Phrase} (hclean : t.hasError = false)
    (h : ∀ start, ∃ e, Expr.ofTree? start t = some e ∧ Reads e p) :
    Shows [t] { phrases := [p] } where
  clean := by simpa using hclean
  phrases start := by
    obtain ⟨e, he, hreads⟩ := h start
    rw [ofForest_single, he]
    exact .cons hreads .nil
  named start := by
    obtain ⟨e, he, -⟩ := h start
    cases t with
    | token k x => simp [Expr.namedOf]
    | node k f =>
      have hk : k ≠ .keywordArgument := by
        rintro rfl
        rw [ofTree?_of_isPart rfl] at he
        cases he
      simp [Expr.namedOf, hk]
  pairs start := by
    obtain ⟨e, he, -⟩ := h start
    cases t with
    | token k x => simp [Expr.pairsOf]
    | node k f =>
      have hk : k ≠ .dictPair := by
        rintro rfl
        rw [ofTree?_of_isPart rfl] at he
        cases he
      simp [Expr.pairsOf, hk]
  comparisons := by
    obtain ⟨e, he, -⟩ := h 0
    cases t with
    | token k x => rfl
    | node k f =>
      have hk : k ≠ .comparisonOp := by
        rintro rfl
        rw [ofTree?_of_isPart rfl] at he
        cases he
      simp [Forest.comparisonOperators, hk]

theorem Shows.expr {t : Tree} {p : Phrase} (h : Shows [t] { phrases := [p] }) (start : Nat) :
    ∃ e, Expr.ofTree? start t = some e ∧ Reads e p := by
  have hreads := h.phrases start
  rw [ofForest_single] at hreads
  cases he : Expr.ofTree? start t with
  | none =>
    rw [he] at hreads
    cases hreads
  | some e =>
    rw [he] at hreads
    cases hreads with
    | cons hreads _ => exact ⟨e, rfl, hreads⟩

theorem Shows.ne_part {t : Tree} {p : Phrase} (h : Shows [t] { phrases := [p] }) {k : Kind}
    (hk : isPart k) (f : Forest) : t ≠ .node k f := by
  rintro rfl
  obtain ⟨e, he, -⟩ := h.expr 0
  rw [ofTree?_of_isPart hk] at he
  cases he

theorem Shows.isLiteral {k : Kind} {x : Text} {p : Phrase}
    (h : Shows [.token k x] { phrases := [p] }) : k.isLiteral := by
  obtain ⟨e, he, -⟩ := h.expr 0
  rw [Expr.ofTree?] at he
  split at he
  · rename_i hk
    rw [hk]
    rfl
  · split at he
    · assumption
    · cases he

theorem shows_name (x : Text) : Shows [.token .identifier x] { phrases := [.name x] } :=
  shows_expr (by simp [Tree.hasError]) fun _ => ⟨_, rfl, .name _ x⟩

theorem shows_literal {k : Kind} (h : k.isLiteral) (hname : k ≠ .identifier) (x : Text) :
    Shows [.token k x] { phrases := [.literal k x] } := by
  have herror : k ≠ .error := by
    rintro rfl
    exact absurd h (by decide)
  exact shows_expr (by simpa [Tree.hasError] using herror)
    fun _ => ⟨_, by rw [Expr.ofTree?, if_neg hname, if_pos h], .literal _ k x⟩

/-! ### Operators and names among trees -/

theorem token?_append {p : Kind → Bool} {f : Forest} (h : ∀ k x, .token k x ∈ f → p k = false)
    (g : Forest) : Forest.token? p (f ++ g) = Forest.token? p g := by
  induction f with
  | nil => rfl
  | cons t f ih =>
    have hf := ih fun k x hx => h k x (List.mem_cons_of_mem _ hx)
    cases t with
    | token k x => simpa [Forest.token?, h k x List.mem_cons_self] using hf
    | node k us => simpa [Forest.token?] using hf

theorem token?_trivia {p : Kind → Bool} (hp : ∀ k, k.isTrivia → p k = false) {ts : List Token}
    (h : ∀ t ∈ ts, t.kind.isTrivia) (g : Forest) :
    Forest.token? p (ts.map Token.tree ++ g) = Forest.token? p g := by
  refine token?_append (fun k x hx => ?_) g
  obtain ⟨t, ht, heq⟩ := List.mem_map.1 hx
  cases heq
  exact hp _ (h t ht)

theorem isOperator_of_isTrivia (k : Kind) (h : k.isTrivia) :
    (k.isOperator || k.isKeyword) = false := by
  revert h
  cases k <;> decide

theorem isOperator_of_isLiteral (k : Kind) (h : k.isLiteral) :
    (k.isOperator || k.isKeyword) = false := by
  revert h
  cases k <;> decide

theorem operator?_trivia {ts : List Token} (h : ∀ t ∈ ts, t.kind.isTrivia) {w : Word}
    (hw : w.1.isOperator || w.1.isKeyword) (g : Forest) :
    Forest.operator? (ts.map Token.tree ++ [.token w.1 w.2] ++ g) = some w := by
  rw [List.append_assoc, Forest.operator?, token?_trivia isOperator_of_isTrivia h]
  simp only [List.cons_append, Forest.token?, hw, if_true]

/-- An operand has no operator of its own. -/
theorem Shows.operator?_cons {t : Tree} {p : Phrase} (h : Shows [t] { phrases := [p] })
    (g : Forest) : Forest.operator? (t :: g) = Forest.operator? g := by
  refine token?_append (f := [t]) (fun k x hx => ?_) g
  obtain rfl := List.mem_singleton.1 hx
  exact isOperator_of_isLiteral k h.isLiteral

/-! ### Nodes -/

section Nodes

variable {f : Forest} {p q r : Phrase}

theorem shows_conditional (h : Shows f { phrases := [p, q, r] }) :
    Shows [.node .conditionalExpression f] { phrases := [.conditional p q r] } := by
  refine shows_expr (by simp [h.clean]) fun start => ⟨_, rfl, ?_⟩
  have hparts := h.phrases start
  generalize Expr.ofForest start f = parts at hparts
  obtain _ | ⟨body, _ | ⟨condition, _ | ⟨alternative, _ | _⟩⟩⟩ := hparts
  exact .conditional body condition alternative

theorem shows_binary {w : Word} (h : Shows f { phrases := [p, q] })
    (hop : Forest.operator? f = some w) :
    Shows [.node .binaryExpression f] { phrases := [.binary w p q] } := by
  refine shows_expr (by simp [h.clean]) fun start => ⟨_, rfl, ?_⟩
  have hparts := h.phrases start
  rw [hop]
  generalize Expr.ofForest start f = parts at hparts
  obtain _ | ⟨left, _ | ⟨right, _ | _⟩⟩ := hparts
  exact .binary left right

theorem shows_pipeline (h : Shows f { phrases := [p, q] }) :
    Shows [.node .pipelineExpression f] { phrases := [.pipeline p q] } := by
  refine shows_expr (by simp [h.clean]) fun start => ⟨_, rfl, ?_⟩
  have hparts := h.phrases start
  generalize Expr.ofForest start f = parts at hparts
  obtain _ | ⟨source, _ | ⟨stage, _ | _⟩⟩ := hparts
  exact .pipeline source stage

theorem shows_unary {w : Word} (h : Shows f { phrases := [p] })
    (hop : Forest.operator? f = some w) :
    Shows [.node .unaryExpression f] { phrases := [.unary w.1 p] } := by
  refine shows_expr (by simp [h.clean]) fun start => ⟨_, rfl, ?_⟩
  have hparts := h.phrases start
  rw [hop]
  generalize Expr.ofForest start f = parts at hparts
  obtain _ | ⟨operand, _ | _⟩ := hparts
  exact .unary operand

theorem shows_comparison {ps : List Phrase} {ks : List Kind}
    (h : Shows f { phrases := ps, comparisons := ks }) :
    Shows [.node .comparisonExpression f] { phrases := [.comparison ps ks] } := by
  refine shows_expr (by simp [h.clean]) fun start => ⟨_, rfl, ?_⟩
  rw [h.comparisons]
  exact .comparison (h.phrases start) ks

theorem shows_paren (h : Shows f { phrases := [p] }) :
    Shows [.node .parenthesizedExpression f] { phrases := [.paren p] } := by
  refine shows_expr (by simp [h.clean]) fun start => ⟨_, rfl, ?_⟩
  have hparts := h.phrases start
  generalize Expr.ofForest start f = parts at hparts
  obtain _ | ⟨inner, _ | _⟩ := hparts
  exact .paren inner

theorem shows_tuple {ps : List Phrase} (h : Shows f { phrases := ps }) :
    Shows [.node .tupleLiteral f] { phrases := [.tuple ps] } :=
  shows_expr (by simp [h.clean]) fun start => ⟨_, rfl, .tuple (h.phrases start)⟩

theorem shows_list {ps : List Phrase} (h : Shows f { phrases := ps }) :
    Shows [.node .listLiteral f] { phrases := [.list ps] } :=
  shows_expr (by simp [h.clean]) fun start => ⟨_, rfl, .list (h.phrases start)⟩

theorem shows_dict {ps : List (Phrase × Phrase)} (h : Shows f { pairs := ps }) :
    Shows [.node .dictLiteral f] { phrases := [.dict ps] } :=
  shows_expr (by simp [h.clean]) fun start => ⟨_, rfl, .dict (h.pairs start)⟩

/-- The name behind the dot is not the object. -/
theorem shows_member {ps : List Phrase} {x : Text} (h : Shows f { phrases := p :: ps })
    (hfield : Forest.member? f = some x) :
    Shows [.node .attributeExpression f] { phrases := [.member p x] } := by
  refine shows_expr (by simp [h.clean]) fun start => ⟨_, rfl, ?_⟩
  have hparts := h.phrases start
  rw [hfield]
  generalize Expr.ofForest start f = parts at hparts
  obtain _ | ⟨object, _⟩ := hparts
  exact .member object x

theorem Shows.member?_eq {t : Tree} (h : Shows [t] { phrases := [p] }) {ts us : List Token}
    (hts : ∀ u ∈ ts, u.kind.isTrivia) (hus : ∀ u ∈ us, u.kind.isTrivia) (d x : Text) :
    Forest.member? (t :: (ts.map Token.tree ++ [.token .dot d]) ++
      (us.map Token.tree ++ [.token .identifier x])) = some x := by
  have hname : Forest.token? (· == .identifier)
      (us.map Token.tree ++ [.token .identifier x]) = some (.identifier, x) :=
    token?_trivia (fun k hk => by revert hk; cases k <;> decide) hus _
  have hskip : ∀ (ts : List Token) (g : Forest), (∀ u ∈ ts, u.kind.isTrivia) →
      Forest.member? (ts.map Token.tree ++ g) = Forest.member? g := by
    intro ts g hts
    induction ts with
    | nil => rfl
    | cons u ts ih =>
      have hu : u.kind ≠ .dot := by
        intro hk
        have := hts u List.mem_cons_self
        rw [hk] at this
        exact absurd this (by decide)
      have hts' := ih fun v hv => hts v (List.mem_cons_of_mem _ hv)
      simpa [Forest.member?, Token.tree, hu] using hts'
  have hdot : Forest.member? (ts.map Token.tree ++ (.token .dot d ::
      (us.map Token.tree ++ [.token .identifier x]))) = some x := by
    rw [hskip ts _ hts, Forest.member?, hname]
    rfl
  have ht : Forest.member? (t :: (ts.map Token.tree ++ (.token .dot d ::
      (us.map Token.tree ++ [.token .identifier x])))) = some x := by
    cases t with
    | token k y =>
      have hk : k ≠ .dot := by
        rintro rfl
        exact absurd h.isLiteral (by decide)
      simpa [Forest.member?, hk] using hdot
    | node k g => simpa [Forest.member?] using hdot
  simpa using ht

/-- The arguments of a call lie in one node behind the callee. -/
theorem shows_call {t : Tree} {ps : List Phrase} {qs : List (Text × Phrase)} {ts : List Token}
    (h : Shows [t] { phrases := [p] }) (hts : ∀ u ∈ ts, u.kind.isTrivia)
    (harguments : Shows f { phrases := ps, named := qs }) :
    Shows [.node .callExpression (t :: (ts.map Token.tree ++ [.node .argumentList f]))]
      { phrases := [.call p ps qs] } := by
  have hskip (start : Nat) : ∃ at', Expr.argumentsOf? start
      (ts.map Token.tree ++ [.node .argumentList f]) =
        some (Expr.ofForest at' f, Expr.namedOf at' f) := by
    induction ts generalizing start with
    | nil => exact ⟨start, rfl⟩
    | cons u ts ih => exact ih (fun v hv => hts v (List.mem_cons_of_mem _ hv)) _
  have hclean : Forest.hasError (ts.map Token.tree) = false := (shows_trivia hts).clean
  have ht := h.clean
  rw [Forest.hasError_cons, Forest.hasError_nil, Bool.or_false] at ht
  refine shows_expr ?_ fun start => ?_
  · simp [ht, hclean, harguments.clean]
  · obtain ⟨e, he, hreads⟩ := h.expr start
    obtain ⟨at', hat⟩ := hskip (start + t.bytes)
    have harg : Expr.argumentsOf? start (t :: (ts.map Token.tree ++ [.node .argumentList f])) =
        some (Expr.ofForest at' f, Expr.namedOf at' f) := by
      cases t with
      | token k x => exact hat
      | node k g =>
        have hk : k ≠ .argumentList := fun hk => h.ne_part (k := .argumentList) rfl g (by rw [hk])
        simpa [Expr.argumentsOf?, hk] using hat
    refine ⟨_, rfl, ?_⟩
    rw [harg, Expr.ofForest, he]
    exact .call hreads (harguments.phrases at') (harguments.named at')

/-- The name of an argument is itself read as an expression before its value. -/
theorem shows_keyword {x : Text} {k : Kind} (h : Shows f { phrases := [q, p] })
    (hname : Forest.token? (· == .identifier) f = some (k, x)) :
    Shows [.node .keywordArgument f] { named := [(x, p)] } where
  clean := by simp [h.clean]
  phrases start := by
    rw [ofForest_single, ofTree?_of_isPart rfl]
    exact .nil
  named start := by
    have hparts := h.phrases start
    rw [Expr.namedOf, hname, Expr.namedOf]
    generalize Expr.ofForest start f = parts at hparts
    obtain _ | ⟨name, _ | ⟨value, _ | _⟩⟩ := hparts
    exact .cons (.intro x value) .nil
  pairs start := by simp [Expr.pairsOf]
  comparisons := rfl

theorem shows_pair (h : Shows f { phrases := [p, q] }) :
    Shows [.node .dictPair f] { pairs := [(p, q)] } where
  clean := by simp [h.clean]
  phrases start := by
    rw [ofForest_single, ofTree?_of_isPart rfl]
    exact .nil
  named start := by simp [Expr.namedOf]
  pairs start := by
    have hparts := h.phrases start
    rw [Expr.pairsOf, Expr.pairsOf]
    generalize Expr.ofForest start f = parts at hparts
    obtain _ | ⟨key, _ | ⟨value, _ | _⟩⟩ := hparts
    exact .cons (.intro key value) .nil
  comparisons := rfl

theorem shows_comparisonOp {w : Word} (h : Forest.hasError f = false)
    (hop : Forest.operator? f = some w) :
    Shows [.node .comparisonOp f] { comparisons := [w.1] } where
  clean := by simp [h]
  phrases start := by
    rw [ofForest_single, ofTree?_of_isPart rfl]
    exact .nil
  named start := by simp [Expr.namedOf]
  pairs start := by simp [Expr.pairsOf]
  comparisons := by simp [Forest.comparisonOperators, hop]

theorem shows_targets (h : Forest.hasError f = false) :
    Shows [.node .assignmentTargets f] {} where
  clean := by simp [h]
  phrases start := by
    rw [ofForest_single, ofTree?_of_isPart rfl]
    exact .nil
  named start := by simp [Expr.namedOf]
  pairs start := by simp [Expr.pairsOf]
  comparisons := rfl

end Nodes

/-! ### Statements -/

def Tells (t : Tree) (s : Sentence) : Prop :=
  ∀ site : Site, site.tree = t →
    ∃ statement, Ast.Statement.ofSite? site = some statement ∧ ReadsSentence statement s

theorem tells_expression {f : Forest} {p : Phrase} (h : Shows f { phrases := [p] }) :
    Tells (.node .expressionStatement f) (.expression p) := by
  rintro ⟨_, start, above, leaves⟩ rfl
  refine ⟨_, rfl, ?_⟩
  have hparts := h.phrases start
  generalize Expr.ofForest start f = parts at hparts ⊢
  obtain _ | ⟨expr, _ | _⟩ := hparts
  exact .expression _ expr

/-- The first child of a class is found where it stands. -/
theorem exists_find?_childSites {P : Site → Bool} {p : Tree → Bool}
    (hP : ∀ site, P site = p site.tree) {f : Forest} (hf : ∀ u ∈ f, p u = false) {t : Tree}
    (ht : p t) (g : Forest) (k : Kind) (above : List Crumb) (before : Forest)
    (start leaves : Nat) :
    ∃ site, (Forest.childSites k above before start leaves (f ++ t :: g)).find? P = some site ∧
      site.tree = t := by
  induction f generalizing before start leaves with
  | nil =>
    refine ⟨⟨t, start, ⟨k, before⟩ :: above, leaves⟩, ?_, rfl⟩
    rw [List.nil_append, Forest.childSites]
    exact List.find?_cons_of_pos ((hP _).trans ht)
  | cons u f ih =>
    have hu : ¬P ⟨u, start, ⟨k, before⟩ :: above, leaves⟩ := by
      rw [hP, hf u List.mem_cons_self]
      simp
    rw [List.cons_append, Forest.childSites, List.find?_cons_of_neg hu]
    exact ih (fun v hv => hf v (List.mem_cons_of_mem _ hv)) _ _ _

theorem tells_assignment {ts us : List Token} (hts : ∀ u ∈ ts, u.kind.isTrivia)
    (hus : ∀ u ∈ us, u.kind.isTrivia) {f g : Forest} {ps : List Phrase} {p : Phrase} (x : Text)
    (htargets : Shows f { phrases := ps })
    (h : Shows (ts.map Token.tree ++ .node .assignmentTargets f ::
      (us.map Token.tree ++ .token .eq x :: g)) { phrases := [p] }) :
    Tells (.node .assignment (ts.map Token.tree ++ .node .assignmentTargets f ::
      (us.map Token.tree ++ .token .eq x :: g))) (.assignment ps p) := by
  rintro ⟨_, start, above, leaves⟩ rfl
  have htrivia {vs : List Token} (hvs : ∀ u ∈ vs, u.kind.isTrivia) {u : Tree}
      (hu : u ∈ vs.map Token.tree) : u.isNode = false ∧ u.kind ≠ .eq := by
    obtain ⟨v, hv, rfl⟩ := List.mem_map.1 hu
    refine ⟨rfl, fun hk => ?_⟩
    have hv' := hvs v hv
    rw [show v.kind = .eq from hk] at hv'
    exact absurd hv' (by decide)
  obtain ⟨site, hfind, hsite⟩ := exists_find?_childSites
    (P := fun c => c.tree.isNode && c.kind == .assignmentTargets)
    (p := fun t => t.isNode && t.kind == .assignmentTargets) (fun _ => rfl)
    (f := ts.map Token.tree) (fun u hu => by simp [(htrivia hts hu).1])
    (t := .node .assignmentTargets f) rfl (us.map Token.tree ++ .token .eq x :: g) .assignment
    above [] start leaves
  obtain ⟨site', hfind', -⟩ := exists_find?_childSites
    (P := fun c => c.isToken && c.kind == .eq)
    (p := fun t => !t.isNode && t.kind == .eq) (fun _ => rfl)
    (f := ts.map Token.tree ++ .node .assignmentTargets f :: us.map Token.tree)
    (fun u hu => by
      rcases List.mem_append.1 hu with hu | hu
      · simp [(htrivia hts hu).2]
      · rcases List.mem_cons.1 hu with rfl | hu
        · rfl
        · simp [(htrivia hus hu).2])
    (t := .token .eq x) rfl g .assignment above [] start leaves
  rw [List.append_assoc, List.cons_append] at hfind'
  refine ⟨_, rfl, ?_⟩
  simp only [Site.children, Site.kind, Tree.kind, Tree.children] at hfind hfind' ⊢
  rw [hfind, hfind', Option.map_some, Option.map_some, hsite]
  have hparts := h.phrases start
  generalize Expr.ofForest start _ = parts at hparts ⊢
  obtain _ | ⟨value, _ | _⟩ := hparts
  exact .assignment _ (htargets.phrases _) _ value

theorem reads_childSites {trees : Forest} {sentences : List Sentence}
    (h : List.Forall₂ Tells trees sentences) (tail : List Token) (k : Kind) (above : List Crumb)
    (before : Forest) (start leaves : Nat) :
    List.Forall₂ ReadsSentence
      ((Forest.childSites k above before start leaves
        (trees ++ tail.map Token.tree)).filterMap Ast.Statement.ofSite?) sentences := by
  induction h generalizing before start leaves with
  | nil =>
    rw [List.nil_append]
    induction tail generalizing before start leaves with
    | nil => exact .nil
    | cons t tail ih => exact ih _ _ _
  | @cons t s trees sentences ht more ih =>
    rw [List.cons_append, Forest.childSites]
    obtain ⟨statement, hs, hreads⟩ := ht ⟨t, start, ⟨k, before⟩ :: above, leaves⟩ rfl
    rw [List.filterMap_cons_some hs]
    exact .cons hreads (ih _ _ _)

/-- The statements that are read off the tree of a script. -/
theorem exists_statements? {trees : Forest} {sentences : List Sentence}
    (h : List.Forall₂ Tells trees sentences) (tail : List Token) :
    ∃ statements, Ast.statements? (programTree trees tail) = some statements ∧
      List.Forall₂ ReadsSentence statements sentences :=
  ⟨_, rfl, reads_childSites h tail .program [] [] 0 0⟩

end Grammar

end ScriptTree
