import ScriptTree.Proofs.Statement.Cursor
import ScriptTree.Statement.Basic

namespace ScriptTree

namespace Kind

def isBracketed : Kind → Bool
  | .parenthesizedExpression | .tupleLiteral | .listLiteral | .dictLiteral | .argumentList => true
  | _ => false

theorem ne_eof_of_isOpening {k : Kind} (h : k.isOpening) : k ≠ .eof := by
  rintro rfl
  simp [isOpening] at h

theorem ne_eof_of_isClosing {k : Kind} (h : k.isClosing) : k ≠ .eof := by
  rintro rfl
  simp [isClosing] at h

theorem ne_eof_of_isComparison {k : Kind} (h : k.isComparison) : k ≠ .eof := by
  rintro rfl
  simp [isComparison] at h

end Kind

namespace Expression

open Cursor (Moves)

inductive Join
  | product | sum | lag | pipeline | conjunction | disjunction
  deriving DecidableEq

namespace Join

def node : Join → Kind
  | pipeline => .pipelineExpression
  | _ => .binaryExpression

def joins : Join → Kind → Bool
  | product => fun k => k = .star || k = .slash || k = .percent
  | sum => fun k => k = .plus || k = .minus
  | lag => fun k => k = .shiftRight || k = .shiftLeft
  | pipeline => fun k => k = .pipe
  | conjunction => fun k => k = .andKw
  | disjunction => fun k => k = .orKw

end Join

inductive Unary
  | negation | sign
  deriving DecidableEq

def Unary.starts : Unary → Kind → Bool
  | negation => fun k => k = .notKw
  | sign => fun k => k = .minus || k = .plus

inductive Item
  | plain | pair | argument
  deriving DecidableEq

inductive Goal
  | nested (g : Goal)
  | operand (g : Goal)
  | whole
  | join (j : Join)
  /-- A level that joins to the left, up to some operand. -/
  | chain (j : Join)
  | comparison
  | compared
  | unary (u : Unary)
  | power
  | primary
  | suffixed
  | atom
  | enclosed (kind close : Kind) (item : Item)
  | items (close : Kind) (item : Item) (named : Bool)
  | slot (item : Item) (named : Bool)
  | pair
  | argument (named : Bool)
  | targets

def Join.operand : Join → Goal
  | product => .unary .sign
  | sum => .join .product
  | lag => .join .sum
  | pipeline => .join .lag
  | conjunction => .unary .negation
  | disjunction => .join .conjunction

def Unary.below : Unary → Goal
  | negation => .comparison
  | sign => .power

def Item.goal : Item → Bool → Goal
  | plain, _ => .nested .whole
  | pair, _ => .pair
  | argument, named => .argument named

def field (c : Cursor) : Forest × Cursor :=
  if c.kind = .identifier then c.bump
  else if c.atAnchor then ([.missing], c)
  else c.operand unexpected

def startsNamed (c : Cursor) : Bool := c.kind = .identifier && c.peek.1 = .eq

/-- The cursor after a look for a keyword argument. -/
def looked (c : Cursor) : Cursor := if c.kind = .identifier then c.peek.2 else c

/-- Parsing without fuel: for the goal, with `n` more levels of nesting to go, the first cursor moves
to the second one, and the trees are made on the way. Levels that join to the left are read from the
left: a chain is a prefix of what the whole level takes. -/
inductive Parses : Nat → Goal → Cursor → Forest → Cursor → Prop
  | tooDeep (g : Goal) (c : Cursor) : Parses 0 (.nested g) c [(tooDeep c).1] (tooDeep c).2
  | nested {n g c f c'} (h : Parses n g c f c') : Parses (n + 1) (.nested g) c f c'
  | operand {n g c t c'} (h : Parses n g c.flush.2 [t] c') :
      Parses n (.operand g) c (c.flush.1 ++ [t]) c'
  | unconditional {n c t c'} (h : Parses n (.join .disjunction) c [t] c') (hif : c'.kind ≠ .ifKw) :
      Parses n .whole c [t] c'
  | conditional {n c t c₁ f c₂ g c₃} (body : Parses n (.join .disjunction) c [t] c₁)
      (hif : c₁.kind = .ifKw)
      (condition : Parses n (.operand (.join .disjunction)) c₁.bump.2 f c₂)
      (helse : c₂.kind = .elseKw)
      (alternative : Parses n (.operand (.join .disjunction)) c₂.bump.2 g c₃) :
      Parses n .whole c
        [.node .conditionalExpression (t :: c₁.bump.1 ++ f ++ c₂.bump.1 ++ g)] c₃
  | withoutElse {n c t c₁ f c₂} (body : Parses n (.join .disjunction) c [t] c₁)
      (hif : c₁.kind = .ifKw)
      (condition : Parses n (.operand (.join .disjunction)) c₁.bump.2 f c₂)
      (helse : c₂.kind ≠ .elseKw) :
      Parses n .whole c [.node .conditionalExpression (t :: c₁.bump.1 ++ f ++ [.missing])] c₂
  | join {n j c t c'} (h : Parses n (.chain j) c [t] c') (hstop : j.joins c'.kind = false) :
      Parses n (.join j) c [t] c'
  | first {n j c t c'} (h : Parses n j.operand c [t] c') : Parses n (.chain j) c [t] c'
  | further {n j c t c₁ f c₂} (left : Parses n (.chain j) c [t] c₁) (hop : j.joins c₁.kind)
      (right : Parses n (.operand j.operand) c₁.bump.2 f c₂) :
      Parses n (.chain j) c [.node j.node (t :: c₁.bump.1 ++ f)] c₂
  | uncompared {n c t c'} (h : Parses n (.join .pipeline) c [t] c')
      (hstop : c'.kind.isComparison = false) : Parses n .comparison c [t] c'
  | comparison {n c t c₁ f c₂} (left : Parses n (.join .pipeline) c [t] c₁)
      (hop : c₁.kind.isComparison) (more : Parses n .compared c₁ f c₂) :
      Parses n .comparison c [.node .comparisonExpression (t :: f)] c₂
  | comparedEnd {n c} (hstop : c.kind.isComparison = false) : Parses n .compared c [] c
  | comparedMore {n c f c₁ g c₂} (hop : c.kind.isComparison)
      (right : Parses n (.operand (.join .pipeline)) c.flush.2.bump.2 f c₁)
      (more : Parses n .compared c₁ g c₂) :
      Parses n .compared c (c.flush.1 ++ .node .comparisonOp c.flush.2.bump.1 :: f ++ g) c₂
  | unary {n u c f c'} (hop : u.starts c.kind)
      (h : Parses n (.operand (.nested (.unary u))) c.bump.2 f c') :
      Parses n (.unary u) c [.node .unaryExpression (c.bump.1 ++ f)] c'
  | noUnary {n u c t c'} (hop : u.starts c.kind = false) (h : Parses n u.below c [t] c') :
      Parses n (.unary u) c [t] c'
  | noPower {n c t c'} (h : Parses n .primary c [t] c') (hop : c'.kind ≠ .starStar) :
      Parses n .power c [t] c'
  | power {n c t c₁ f c₂} (base : Parses n .primary c [t] c₁) (hop : c₁.kind = .starStar)
      (exponent : Parses n (.operand (.nested (.unary .sign))) c₁.bump.2 f c₂) :
      Parses n .power c [.node .binaryExpression (t :: c₁.bump.1 ++ f)] c₂
  | primary {n c t c'} (h : Parses n .suffixed c [t] c') (hparen : c'.kind ≠ .lParen)
      (hdot : c'.kind ≠ .dot) : Parses n .primary c [t] c'
  | bare {n c t c'} (h : Parses n .atom c [t] c') : Parses n .suffixed c [t] c'
  | call {n c t c₁ f c₂} (callee : Parses n .suffixed c [t] c₁) (hparen : c₁.kind = .lParen)
      (arguments : Parses n (.operand (.enclosed .argumentList .rParen .argument)) c₁ f c₂) :
      Parses n .suffixed c [.node .callExpression (t :: f)] c₂
  | member {n c t c₁} (object : Parses n .suffixed c [t] c₁) (hdot : c₁.kind = .dot) :
      Parses n .suffixed c
        [.node .attributeExpression (t :: c₁.bump.1 ++ (field c₁.bump.2).1)] (field c₁.bump.2).2
  | literal {n c t r} (hpending : c.pending = []) (hrest : c.rest = t :: r)
      (hkind : t.kind.isLiteral) : Parses n .atom c [t.tree] c.bump.2
  | emptyTuple {n c} (hopen : c.kind = .lParen) (hclose : c.bump.2.kind = .rParen) :
      Parses n .atom c [.node .tupleLiteral (c.bump.1 ++ (c.bump.2.close .rParen).1)]
        (c.bump.2.close .rParen).2
  | group {n c f c₁} (hopen : c.kind = .lParen) (hclose : c.bump.2.kind ≠ .rParen)
      (inner : Parses n (.operand (.nested .whole)) c.bump.2 f c₁) (hcomma : c₁.kind ≠ .comma) :
      Parses n .atom c
        [.node .parenthesizedExpression (c.bump.1 ++ f ++ (c₁.close .rParen).1)]
        (c₁.close .rParen).2
  | tuple {n c f c₁ g c₂} (hopen : c.kind = .lParen) (hclose : c.bump.2.kind ≠ .rParen)
      (inner : Parses n (.operand (.nested .whole)) c.bump.2 f c₁) (hcomma : c₁.kind = .comma)
      (more : Parses n (.items .rParen .plain false) c₁.bump.2 g c₂) :
      Parses n .atom c
        [.node .tupleLiteral (c.bump.1 ++ f ++ c₁.bump.1 ++ g ++ (c₂.close .rParen).1)]
        (c₂.close .rParen).2
  | list {n c f c'} (hopen : c.kind = .lBracket)
      (h : Parses n (.enclosed .listLiteral .rBracket .plain) c f c') : Parses n .atom c f c'
  | dict {n c f c'} (hopen : c.kind = .lBrace)
      (h : Parses n (.enclosed .dictLiteral .rBrace .pair) c f c') : Parses n .atom c f c'
  | unexpected {n c} (hliteral : c.kind.isLiteral = false) (hopen : c.kind.isOpening = false) :
      Parses n .atom c [(unexpected c).1] (unexpected c).2
  | enclosed {n kind close item c f c₁} (hopen : c.kind.isOpening) (hclose : close.isClosing)
      (h : Parses n (.items close item false) c.bump.2 f c₁) :
      Parses n (.enclosed kind close item) c
        [.node kind (c.bump.1 ++ f ++ (c₁.close close).1)] (c₁.close close).2
  | itemsEnd {n close item named c} (hend : c.kind = close ∨ c.kind = .eof) :
      Parses n (.items close item named) c [] c
  | itemsLast {n close item named c f c'} (hend : ¬(c.kind = close ∨ c.kind = .eof))
      (h : Parses n (.slot item named) c f c') (hcomma : c'.kind ≠ .comma) :
      Parses n (.items close item named) c f c'
  | itemsMore {n close item named c f c₁ g c₂} (hend : ¬(c.kind = close ∨ c.kind = .eof))
      (h : Parses n (.slot item named) c f c₁) (hcomma : c₁.kind = .comma)
      (more : Parses n (.items close item (named || f.any (·.kind == .keywordArgument)))
        c₁.bump.2 g c₂) :
      Parses n (.items close item named) c (f ++ c₁.bump.1 ++ g) c₂
  | missingItem {n item named c} (hcomma : c.kind = .comma) :
      Parses n (.slot item named) c [.missing] c
  | item {n item named c f c'} (hcomma : c.kind ≠ .comma)
      (h : Parses n (.operand (item.goal named)) c f c') : Parses n (.slot item named) c f c'
  | pair {n c t c₁ f c₂} (key : Parses n (.nested .whole) c [t] c₁) (hcolon : c₁.kind = .colon)
      (value : Parses n (.operand (.nested .whole)) c₁.bump.2 f c₂) :
      Parses n .pair c [.node .dictPair (t :: c₁.bump.1 ++ f)] c₂
  | withoutColon {n c t c'} (key : Parses n (.nested .whole) c [t] c')
      (hcolon : c'.kind ≠ .colon) : Parses n .pair c [.node .dictPair [t, .missing]] c'
  | keyword {n named c f c'} (hname : startsNamed c)
      (value : Parses n (.operand (.nested .whole)) c.bump.2.bump.2 f c') :
      Parses n (.argument named) c
        [.node .keywordArgument (c.bump.1 ++ c.bump.2.bump.1 ++ f)] c'
  | positional {n c t c'} (hname : startsNamed c = false)
      (value : Parses n (.nested .whole) (looked c) [t] c') : Parses n (.argument false) c [t] c'
  | misplaced {n c t c'} (hname : startsNamed c = false)
      (value : Parses n (.nested .whole) (looked c) [t] c') :
      Parses n (.argument true) c [.node .error [t]] c'
  | targetsEnd {n c} (hcomma : c.kind ≠ .comma) : Parses n .targets c [] c
  | targetsTrailing {n c} (hcomma : c.kind = .comma)
      (hend : c.bump.2.kind = .eq ∨ c.bump.2.atTerminator) :
      Parses n .targets c c.bump.1 c.bump.2
  | targetsMore {n c f c₁ g c₂} (hcomma : c.kind = .comma)
      (hend : ¬(c.bump.2.kind = .eq ∨ c.bump.2.atTerminator))
      (target : Parses n (.operand (.nested .whole)) c.bump.2 f c₁)
      (more : Parses n .targets c₁ g c₂) :
      Parses n .targets c (c.bump.1 ++ f ++ g) c₂

/-! ### Moves -/

theorem Join.ne_eof {j : Join} {k : Kind} (h : j.joins k) : k ≠ .eof := by
  rintro rfl
  cases j <;> simp [joins] at h

theorem Unary.ne_eof {u : Unary} {k : Kind} (h : u.starts k) : k ≠ .eof := by
  rintro rfl
  cases u <;> simp [starts] at h

theorem operand_moves {p : Parser} {c : Cursor}
    (h : Moves c.flush.2 [(p c.flush.2).1] (p c.flush.2).2) :
    Moves c (c.operand p).1 (c.operand p).2 :=
  c.flush_moves.trans h

theorem field_moves (c : Cursor) : Moves c (field c).1 (field c).2 := by
  unfold field
  split
  · rename_i h
    exact Cursor.bump_moves (h.trans_ne (by decide))
  · split
    · exact (Moves.refl c).missing
    · exact operand_moves (unexpected_moves _)

theorem looked_moves (c : Cursor) : Moves c [] (looked c) := by
  unfold looked
  split
  · exact c.peek_moves
  · exact .refl c

@[simp] theorem kind_looked (c : Cursor) : (looked c).kind = c.kind := by
  unfold looked
  split <;> rfl

/-- A look ahead sees no more than a name that is taken lets one see. -/
theorem bump_peek {c : Cursor} (h : c.kind = .identifier) : c.peek.2.bump = c.bump := by
  obtain ⟨t, r, hr, ht⟩ := Cursor.exists_rest (h.trans_ne (by decide))
  rw [h] at ht
  have hr' : c.peek.2.rest = t :: r := hr
  rw [Cursor.bump_eq hr, Cursor.bump_eq hr', ht]
  simp only [Cursor.peek, Cursor.past, Cursor.skip, Cursor.passWhile, Cursor.depthAfter,
    Kind.isOpening, Kind.isClosing, Bool.false_eq_true, if_false, hr, List.tail_cons,
    Prod.mk.injEq, Cursor.mk.injEq, true_and, and_true]
  omega

theorem bump_looked (c : Cursor) : (looked c).bump = c.bump := by
  unfold looked
  split
  · rename_i h
    exact bump_peek h
  · rfl

/-- A look ahead does not matter for the trivia that is kept back. -/
theorem flush_looked (c : Cursor) : (looked c).flush = (c.flush.1, looked c.flush.2) := by
  unfold looked
  by_cases hk : c.kind = .identifier
  · rw [if_pos hk, if_pos (c := c.flush.2.kind = .identifier) hk]
    rfl
  · rw [if_neg hk, if_neg (c := c.flush.2.kind = .identifier) hk]

theorem startsNamed_iff {c : Cursor} :
    startsNamed c ↔ c.kind = .identifier ∧ c.bump.2.kind = .eq := by
  rw [startsNamed, Bool.and_eq_true, decide_eq_true_eq, decide_eq_true_eq]
  apply and_congr_right
  intro h
  obtain ⟨t, r, hr, ht⟩ := Cursor.exists_rest (h.trans_ne (by decide))
  rw [h] at ht
  rw [Cursor.bump_eq hr, ht]
  simp only [Cursor.peek, hr, List.tail_cons, Cursor.kind, Cursor.skip, Cursor.passWhile,
    Cursor.past, Cursor.depthAfter, Kind.isOpening, Kind.isClosing, Bool.false_eq_true, if_false]
  cases r.dropWhile (Cursor.skips c.depth) with
  | nil => simp
  | cons u us => simp

/-- Parsing turns the tokens that it passes into leaves, each once and in their order. -/
theorem Parses.moves {n : Nat} {g : Goal} {c c' : Cursor} {f : Forest} (h : Parses n g c f c') :
    Moves c f c' := by
  induction h with
  | tooDeep g c => exact tooDeep_moves c
  | nested h ih => exact ih
  | operand h ih => exact (Cursor.flush_moves _).trans ih
  | unconditional h hif ih => exact ih
  | conditional body hif condition helse alternative ih ih₁ ih₂ =>
    have hbump := Cursor.bump_moves (hif.trans_ne (by decide))
    have hbump' := Cursor.bump_moves (helse.trans_ne (by decide))
    exact ((((ih.trans hbump).trans ih₁).trans hbump').trans ih₂).node _
  | withoutElse body hif condition helse ih ih₁ =>
    have hbump := Cursor.bump_moves (hif.trans_ne (by decide))
    exact (((ih.trans hbump).trans ih₁).missing).node _
  | join h hstop ih => exact ih
  | first h ih => exact ih
  | further left hop right ih ih₁ =>
    exact ((ih.trans (Cursor.bump_moves (Join.ne_eof hop))).trans ih₁).node _
  | uncompared h hstop ih => exact ih
  | comparison left hop more ih ih₁ => exact (ih.trans ih₁).node _
  | comparedEnd hstop => exact .refl _
  | @comparedMore n c f c₁ g c₂ hop right more ih ih₁ =>
    have hne := Kind.ne_eof_of_isComparison hop
    have hbump := (Cursor.bump_moves (c := c.flush.2) hne).node .comparisonOp
    exact (((c.flush_moves.trans hbump).trans ih).trans ih₁).of_yield (by simp)
  | unary hop h ih => exact ((Cursor.bump_moves (Unary.ne_eof hop)).trans ih).node _
  | noUnary hop h ih => exact ih
  | noPower h hop ih => exact ih
  | power base hop exponent ih ih₁ =>
    exact ((ih.trans (Cursor.bump_moves (hop.trans_ne (by decide)))).trans ih₁).node _
  | primary h hparen hdot ih => exact ih
  | bare h ih => exact ih
  | call callee hparen arguments ih ih₁ => exact (ih.trans ih₁).node _
  | member object hdot ih =>
    exact ((ih.trans (Cursor.bump_moves (hdot.trans_ne (by decide)))).trans (field_moves _)).node _
  | @literal n c t r hpending hrest hkind =>
    have hbump := Cursor.past_skip_moves hrest (Cursor.depthAfter c.depth t.kind)
    rw [hpending] at hbump
    rw [Cursor.bump_eq hrest]
    exact hbump
  | emptyTuple hopen hclose =>
    exact ((Cursor.bump_moves (hopen.trans_ne (by decide))).trans (Cursor.close_moves _ (by decide))).node _
  | group hopen hclose inner hcomma ih =>
    have hbump := Cursor.bump_moves (hopen.trans_ne (by decide))
    exact ((hbump.trans ih).trans (Cursor.close_moves _ (by decide))).node _
  | tuple hopen hclose inner hcomma more ih ih₁ =>
    have hbump := Cursor.bump_moves (hopen.trans_ne (by decide))
    have hbump' := Cursor.bump_moves (hcomma.trans_ne (by decide))
    exact ((((hbump.trans ih).trans hbump').trans ih₁).trans
      (Cursor.close_moves _ (by decide))).node _
  | list hopen h ih => exact ih
  | dict hopen h ih => exact ih
  | unexpected hliteral hopen => exact unexpected_moves _
  | enclosed hopen hclose h ih =>
    have hbump := Cursor.bump_moves (Kind.ne_eof_of_isOpening hopen)
    exact ((hbump.trans ih).trans (Cursor.close_moves _ (Kind.ne_eof_of_isClosing hclose))).node _
  | itemsEnd hend => exact .refl _
  | itemsLast hend h hcomma ih => exact ih
  | itemsMore hend h hcomma more ih ih₁ =>
    exact (ih.trans (Cursor.bump_moves (hcomma.trans_ne (by decide)))).trans ih₁
  | missingItem hcomma => exact (Moves.refl _).missing
  | item hcomma h ih => exact ih
  | pair key hcolon value ih ih₁ =>
    exact ((ih.trans (Cursor.bump_moves (hcolon.trans_ne (by decide)))).trans ih₁).node _
  | withoutColon key hcolon ih => exact ih.missing.node _
  | keyword hname value ih =>
    obtain ⟨hname, heq⟩ := startsNamed_iff.1 hname
    have hbump := Cursor.bump_moves (hname.trans_ne (by decide))
    have hbump' := Cursor.bump_moves (heq.trans_ne (by decide))
    exact ((hbump.trans hbump').trans ih).node _
  | positional hname value ih => exact (looked_moves _).trans ih
  | misplaced hname value ih => exact ((looked_moves _).trans ih).node _
  | targetsEnd hcomma => exact .refl _
  | targetsTrailing hcomma hend => exact Cursor.bump_moves (hcomma.trans_ne (by decide))
  | targetsMore hcomma hend target more ih ih₁ =>
    exact ((Cursor.bump_moves (hcomma.trans_ne (by decide))).trans ih).trans ih₁

/-! ### Goals of one tree -/

namespace Goal

def single : Goal → Bool
  | nested g => g.single
  | operand _ => false
  | compared => false
  | items .. => false
  | slot .. => false
  | targets => false
  | _ => true

/-- Whether trivia stands only before goals of one tree, and only kinds of bracketed nodes enclose
items. All goals that come up in a statement are proper. -/
def proper : Goal → Bool
  | nested g => g.proper
  | operand g => g.single && g.proper
  | enclosed kind .. => kind.isBracketed
  | _ => true

end Goal

theorem Goal.proper_operand {g : Goal} (h : (operand g).proper) : g.single ∧ g.proper := by
  simpa [proper] using h

theorem Join.single_operand (j : Join) : j.operand.single := by cases j <;> rfl

theorem Join.proper_operand (j : Join) : (Goal.operand j.operand).proper := by cases j <;> rfl

theorem Unary.single_below (u : Unary) : u.below.single := by cases u <;> rfl

theorem Unary.proper_below (u : Unary) : u.below.proper := by cases u <;> rfl

theorem Item.proper_goal (item : Item) (named : Bool) :
    (Goal.operand (item.goal named)).proper := by
  cases item <;> rfl

theorem Parses.exists_eq {n : Nat} {g : Goal} {c c' : Cursor} {f : Forest} (h : Parses n g c f c')
    (hg : g.single) : ∃ t, f = [t] := by
  induction h with
  | nested h ih => exact ih hg
  | list hopen h ih => exact ih rfl
  | dict hopen h ih => exact ih rfl
  | operand | comparedEnd | comparedMore | itemsEnd | itemsLast | itemsMore | missingItem | item
  | targetsEnd | targetsTrailing | targetsMore => cases hg
  | _ => exact ⟨_, rfl⟩

end Expression

end ScriptTree
