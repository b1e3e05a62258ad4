import ScriptTree.Document
import ScriptTree.Proofs.Statement.Partition

namespace ScriptTree

open Cursor (Moves)
open Expression (Parses maxNesting)

namespace Expression

/-- What is parsed for a goal comes to a nested part when no level of nesting is left: at once, or in
one of its parts after the parts before it are parsed. -/
inductive Reaches : Nat → Goal → Cursor → Prop
  | here {g c} : Reaches 0 (.nested g) c
  | nested {n g c} (h : Reaches n g c) : Reaches (n + 1) (.nested g) c
  | operand {n g c} (h : Reaches n g c.flush.2) : Reaches n (.operand g) c
  | body {n c} (h : Reaches n (.join .disjunction) c) : Reaches n .whole c
  | condition {n c t c₁} (body : Parses n (.join .disjunction) c [t] c₁) (hif : c₁.kind = .ifKw)
      (h : Reaches n (.operand (.join .disjunction)) c₁.bump.2) : Reaches n .whole c
  | alternative {n c t c₁ f c₂} (body : Parses n (.join .disjunction) c [t] c₁)
      (hif : c₁.kind = .ifKw)
      (condition : Parses n (.operand (.join .disjunction)) c₁.bump.2 f c₂)
      (helse : c₂.kind = .elseKw)
      (h : Reaches n (.operand (.join .disjunction)) c₂.bump.2) : Reaches n .whole c
  | join {n j c} (h : Reaches n (.chain j) c) : Reaches n (.join j) c
  | first {n j c} (h : Reaches n j.operand c) : Reaches n (.chain j) c
  | right {n j c t c₁} (left : Parses n (.chain j) c [t] c₁) (hop : j.joins c₁.kind)
      (h : Reaches n (.operand j.operand) c₁.bump.2) : Reaches n (.chain j) c
  | left {n c} (h : Reaches n (.join .pipeline) c) : Reaches n .comparison c
  | compared {n c t c₁} (left : Parses n (.join .pipeline) c [t] c₁) (hop : c₁.kind.isComparison)
      (h : Reaches n .compared c₁) : Reaches n .comparison c
  | comparedRight {n c} (hop : c.kind.isComparison)
      (h : Reaches n (.operand (.join .pipeline)) c.flush.2.bump.2) : Reaches n .compared c
  | comparedMore {n c f c₁} (hop : c.kind.isComparison)
      (right : Parses n (.operand (.join .pipeline)) c.flush.2.bump.2 f c₁)
      (h : Reaches n .compared c₁) : Reaches n .compared c
  | unary {n u c} (hop : u.starts c.kind)
      (h : Reaches n (.operand (.nested (.unary u))) c.bump.2) : Reaches n (.unary u) c
  | noUnary {n u c} (hop : u.starts c.kind = false) (h : Reaches n u.below c) :
      Reaches n (.unary u) c
  | base {n c} (h : Reaches n .primary c) : Reaches n .power c
  | exponent {n c t c₁} (base : Parses n .primary c [t] c₁) (hop : c₁.kind = .starStar)
      (h : Reaches n (.operand (.nested (.unary .sign))) c₁.bump.2) : Reaches n .power c
  | primary {n c} (h : Reaches n .suffixed c) : Reaches n .primary c
  | bare {n c} (h : Reaches n .atom c) : Reaches n .suffixed c
  | call {n c t c₁} (callee : Parses n .suffixed c [t] c₁) (hparen : c₁.kind = .lParen)
      (h : Reaches n (.operand (.enclosed .argumentList .rParen .argument)) c₁) :
      Reaches n .suffixed c
  | inner {n c} (hopen : c.kind = .lParen) (hclose : c.bump.2.kind ≠ .rParen)
      (h : Reaches n (.operand (.nested .whole)) c.bump.2) : Reaches n .atom c
  | tuple {n c f c₁} (hopen : c.kind = .lParen) (hclose : c.bump.2.kind ≠ .rParen)
      (inner : Parses n (.operand (.nested .whole)) c.bump.2 f c₁) (hcomma : c₁.kind = .comma)
      (h : Reaches n (.items .rParen .plain false) c₁.bump.2) : Reaches n .atom c
  | list {n c} (hopen : c.kind = .lBracket)
      (h : Reaches n (.enclosed .listLiteral .rBracket .plain) c) : Reaches n .atom c
  | dict {n c} (hopen : c.kind = .lBrace)
      (h : Reaches n (.enclosed .dictLiteral .rBrace .pair) c) : Reaches n .atom c
  | enclosed {n kind close item c} (hopen : c.kind.isOpening)
      (h : Reaches n (.items close item false) c.bump.2) : Reaches n (.enclosed kind close item) c
  | slot {n close item named c} (hend : ¬(c.kind = close ∨ c.kind = .eof))
      (h : Reaches n (.slot item named) c) : Reaches n (.items close item named) c
  | itemsMore {n close item named c f c₁} (hend : ¬(c.kind = close ∨ c.kind = .eof))
      (slot : Parses n (.slot item named) c f c₁) (hcomma : c₁.kind = .comma)
      (h : Reaches n (.items close item (named || f.any (·.kind == .keywordArgument))) c₁.bump.2) :
      Reaches n (.items close item named) c
  | item {n item named c} (hcomma : c.kind ≠ .comma)
      (h : Reaches n (.operand (item.goal named)) c) : Reaches n (.slot item named) c
  | key {n c} (h : Reaches n (.nested .whole) c) : Reaches n .pair c
  | value {n c t c₁} (key : Parses n (.nested .whole) c [t] c₁) (hcolon : c₁.kind = .colon)
      (h : Reaches n (.operand (.nested .whole)) c₁.bump.2) : Reaches n .pair c
  | keyword {n named c} (hname : startsNamed c)
      (h : Reaches n (.operand (.nested .whole)) c.bump.2.bump.2) : Reaches n (.argument named) c
  | positional {n named c} (hname : startsNamed c = false)
      (h : Reaches n (.nested .whole) (looked c)) : Reaches n (.argument named) c
  | target {n c} (hcomma : c.kind = .comma)
      (hend : ¬(c.bump.2.kind = .eq ∨ c.bump.2.atTerminator))
      (h : Reaches n (.operand (.nested .whole)) c.bump.2) : Reaches n .targets c
  | targetsMore {n c f c₁} (hcomma : c.kind = .comma)
      (hend : ¬(c.bump.2.kind = .eq ∨ c.bump.2.atTerminator))
      (target : Parses n (.operand (.nested .whole)) c.bump.2 f c₁)
      (h : Reaches n .targets c₁) : Reaches n .targets c

/-- How many levels of nesting a goal can open before it takes a token. -/
def Goal.demand : Goal → Nat
  | .nested g => g.demand + 1
  | .operand g => g.demand
  | .items .. => 1
  | .slot .. => 1
  | .pair => 1
  | .argument _ => 1
  | _ => 0

@[simp] theorem Join.demand_operand (j : Join) : j.operand.demand = 0 := by cases j <;> rfl

@[simp] theorem Unary.demand_below (u : Unary) : u.below.demand = 0 := by cases u <;> rfl

@[simp] theorem Item.demand_goal (item : Item) (named : Bool) : (item.goal named).demand = 1 := by
  cases item <;> rfl

/-- Each further level of nesting takes a token. -/
theorem Reaches.lt_length {n : Nat} {g : Goal} {c : Cursor} (h : Reaches n g c) :
    n < c.ahead.length + g.demand := by
  have hpast {c c₁ : Cursor} {f : Forest} (hm : Moves c f c₁) (hne : c₁.kind ≠ .eof) :
      c₁.bump.2.ahead.length < c.ahead.length :=
    calc c₁.bump.2.ahead.length < c₁.rest.length := Cursor.length_ahead_bump_lt hne
      _ ≤ c₁.ahead.length := c₁.length_rest_le_ahead
      _ ≤ c.ahead.length := hm.length_ahead_le
  have hbump {c : Cursor} (hne : c.kind ≠ .eof) : c.bump.2.ahead.length < c.ahead.length :=
    hpast (.refl c) hne
  -- A part behind a token has less ahead of it, which makes up for the level that it may open.
  induction h with
  | here => simp only [Goal.demand]; omega
  | nested h ih => simp only [Goal.demand]; omega
  | operand h ih =>
    exact ih.trans_le (Nat.add_le_add_right (Cursor.flush_moves _).length_ahead_le _)
  | body h ih => exact ih
  | condition body hif h ih =>
    exact ih.trans (Nat.add_lt_add_right (hpast body.moves (hif.trans_ne (by decide))) _)
  | alternative body hif condition helse h ih =>
    have hlt := hpast body.moves (hif.trans_ne (by decide))
    exact ih.trans ((hpast condition.moves (helse.trans_ne (by decide))).trans hlt)
  | join h ih => exact ih
  | first h ih => simpa [Goal.demand] using ih
  | right left hop h ih =>
    have hlt := hpast left.moves (Join.ne_eof hop)
    simp only [Goal.demand, Join.demand_operand] at ih ⊢
    omega
  | left h ih => exact ih
  | compared left hop h ih => exact ih.trans_le left.moves.length_ahead_le
  | comparedRight hop h ih =>
    exact ih.trans (hpast (Cursor.flush_moves _) (Kind.ne_eof_of_isComparison hop))
  | @comparedMore n c f c₁ hop right h ih =>
    have hlt := hpast c.flush_moves (Kind.ne_eof_of_isComparison hop)
    exact ih.trans (right.moves.length_ahead_le.trans_lt hlt)
  | unary hop h ih =>
    have hlt := hbump (Unary.ne_eof hop)
    simp only [Goal.demand] at ih ⊢
    omega
  | noUnary hop h ih => simpa [Goal.demand] using ih
  | base h ih => exact ih
  | exponent base hop h ih =>
    have hlt := hpast base.moves (hop.trans_ne (by decide))
    simp only [Goal.demand] at ih ⊢
    omega
  | primary h ih => exact ih
  | bare h ih => exact ih
  | call callee hparen h ih => exact ih.trans_le callee.moves.length_ahead_le
  | inner hopen hclose h ih =>
    have hlt := hbump (hopen.trans_ne (by decide))
    simp only [Goal.demand] at ih ⊢
    omega
  | tuple hopen hclose inner hcomma h ih =>
    have hlt := hbump (hopen.trans_ne (by decide))
    have hlt' := hpast inner.moves (hcomma.trans_ne (by decide))
    simp only [Goal.demand] at ih ⊢
    omega
  | list hopen h ih => exact ih
  | dict hopen h ih => exact ih
  | enclosed hopen h ih =>
    have hlt := hbump (Kind.ne_eof_of_isOpening hopen)
    simp only [Goal.demand] at ih ⊢
    omega
  | slot hend h ih => exact ih
  | itemsMore hend slot hcomma h ih =>
    exact ih.trans (Nat.add_lt_add_right (hpast slot.moves (hcomma.trans_ne (by decide))) 1)
  | item hcomma h ih => simpa [Goal.demand] using ih
  | key h ih => exact ih
  | value key hcolon h ih =>
    exact ih.trans (Nat.add_lt_add_right (hpast key.moves (hcolon.trans_ne (by decide))) 1)
  | keyword hname h ih =>
    obtain ⟨hk, heq⟩ := startsNamed_iff.1 hname
    have hlt := hbump (hk.trans_ne (by decide))
    have hlt' := hbump (heq.trans_ne (by decide))
    simp only [Goal.demand] at ih ⊢
    omega
  | positional hname h ih =>
    exact ih.trans_le (Nat.add_le_add_right (looked_moves _).length_ahead_le 1)
  | target hcomma hend h ih =>
    have hlt := hbump (hcomma.trans_ne (by decide))
    simp only [Goal.demand] at ih ⊢
    omega
  | targetsMore hcomma hend target h ih =>
    have hlt := hbump (hcomma.trans_ne (by decide))
    exact ih.trans (target.moves.length_ahead_le.trans_lt hlt)

end Expression

namespace Statement

open Expression (Reaches)

inductive BodyReaches (c : Cursor) : Prop
  | target (h : c.atTerminator = false) (hr : Reaches maxNesting (.nested .whole) c.flush.2)
  | more {t c₁} (h : c.atTerminator = false)
      (target : Parses maxNesting (.nested .whole) c.flush.2 [t] c₁)
      (hmore : c₁.kind = .comma ∨ c₁.kind = .eq) (hr : Reaches maxNesting .targets c₁)
  | value {t c₁ f c₂} (h : c.atTerminator = false)
      (target : Parses maxNesting (.nested .whole) c.flush.2 [t] c₁)
      (hmore : c₁.kind = .comma ∨ c₁.kind = .eq) (more : Parses maxNesting .targets c₁ f c₂)
      (heq : c₂.kind = .eq) (hr : Reaches maxNesting (.operand (.nested .whole)) c₂.bump.2)

theorem BodyReaches.maxNesting_le {c : Cursor} (h : BodyReaches c) :
    maxNesting ≤ c.ahead.length := by
  have hflush := c.flush_moves.length_ahead_le
  cases h with
  | target h hr => exact (Nat.lt_succ_iff.1 hr.lt_length).trans hflush
  | more h target hmore hr =>
    exact hr.lt_length.le.trans (target.moves.length_ahead_le.trans hflush)
  | @value t c₁ f c₂ h target hmore more heq hr =>
    have hle := (target.moves.trans more.moves).length_ahead_le
    have hrest := c₂.length_rest_le_ahead
    have hlt := Cursor.length_ahead_bump_lt (heq.trans_ne (by decide))
    have hreach := Nat.lt_succ_iff.1 hr.lt_length
    omega

end Statement

namespace Document

/-- Some statement of a document comes to a place that lies too deep. -/
def ReachesLimit (d : Document) : Prop :=
  ∃ x ∈ d.statements, Statement.BodyReaches (.start (d.tokens.toList.drop x.first))

/-- A script with fewer tokens than levels never reaches the limit. -/
theorem not_reachesLimit_of_length {d : Document} (h : d.tokens.toList.length < maxNesting) :
    ¬d.ReachesLimit := by
  rintro ⟨x, -, hx⟩
  have hle := hx.maxNesting_le
  rw [Cursor.ahead_start, List.length_drop] at hle
  omega

end Document

end ScriptTree
