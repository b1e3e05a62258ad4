import ScriptTree.Proofs.Machine.Statement
import ScriptTree.Proofs.Statement.Nesting

namespace ScriptTree

open Expression (Join Unary Item maxNesting)

namespace Machine

def Ensures {α : Type} (r : Except Fault α) (p : α → Prop) : Prop := ∀ a, r = .ok a → p a

/-- One machine is as deep as another was, and on the way it was not deeper than the limit. -/
structure Level (m m' : Machine) : Prop where
  nesting : m'.nesting = m.nesting
  peak_le : m'.peak ≤ max m.peak maxNesting

namespace Ensures

variable {α β : Type} {r : Except Fault α} {p : α → Prop} {q : β → Prop}

theorem ok {a : α} (h : p a) : Ensures (.ok a) p := by
  rintro b ⟨⟩
  exact h

theorem error {e : Fault} : Ensures (.error e) p := nofun

theorem bind {f : α → Except Fault β} (h : Ensures r p) (hf : ∀ a, p a → Ensures (f a) q) :
    Ensures (r >>= f) q := by
  intro b hb
  cases r with
  | error e => cases hb
  | ok a => exact hf a (h a rfl) b hb

theorem ite {c : Prop} [Decidable c] {r' : Except Fault α} (h : c → Ensures r p)
    (h' : ¬c → Ensures r' p) : Ensures (if c then r else r') p := by
  split
  · exact h ‹_›
  · exact h' ‹_›

end Ensures

namespace Level

variable {m m₁ m₂ : Machine} {ts : List Token} {k : Kind}

theorem refl (m : Machine) : Level m m := ⟨rfl, Nat.le_max_left ..⟩

theorem trans (h : Level m m₁) (h' : Level m₁ m₂) : Level m m₂ := by
  refine ⟨h'.nesting.trans h.nesting, h'.peak_le.trans ?_⟩
  exact Nat.max_le.2 ⟨h.peak_le, Nat.le_max_right ..⟩

/-! ### Steps -/

theorem flush (h : Level m m₁) : Ensures (m₁.flush ts) (Level m) := by
  unfold Machine.flush
  exact .ite (fun _ => .ok ⟨h.nesting, h.peak_le⟩) fun _ => .error

theorem mark (h : Level m m₁) : Ensures (m₁.mark ts) fun r => Level m r.2 :=
  h.flush.bind fun _ h => .ok ⟨h.nesting, h.peak_le⟩

theorem openNode (h : Level m m₁) : Ensures (m₁.openNode ts k) (Level m) :=
  h.flush.bind fun _ h => .ok ⟨h.nesting, h.peak_le⟩

theorem openNodeAt (h : Level m m₁) (mark : Nat) : Ensures (m₁.openNodeAt mark k) (Level m) := by
  unfold Machine.openNodeAt
  exact .ite (fun _ => .ok ⟨h.nesting, h.peak_le⟩) fun _ => .error

theorem closeNode (h : Level m m₁) : Ensures m₁.closeNode (Level m) := by
  unfold Machine.closeNode
  exact .ite (fun _ => .error) fun _ => .ok ⟨h.nesting, h.peak_le⟩

theorem addCurrent (h : Level m m₁) : Ensures (m₁.addCurrent ts) (Level m) := by
  unfold Machine.addCurrent
  split
  · exact .ok h
  · exact h.flush.bind fun _ h => .ok ⟨h.nesting, h.peak_le⟩

theorem count (h : Level m m₁) : Ensures (m₁.count k) (Level m) := by
  unfold Machine.count
  refine .ite (fun _ => .ok ⟨h.nesting, h.peak_le⟩) fun _ => .ite (fun _ => ?_) fun _ => .ok h
  exact .ite (fun _ => .error) fun _ => .ok ⟨h.nesting, h.peak_le⟩

theorem examine (h : Level m m₁) (n : Nat) : Level m { m₁ with examined := n } :=
  ⟨h.nesting, h.peak_le⟩

theorem skipTrivia (h : Level m m₁) : Level m (m₁.skipTrivia ts) := ⟨h.nesting, h.peak_le⟩

theorem skipOne (h : Level m m₁) : Level m m₁.skipOne := ⟨h.nesting, h.peak_le⟩

theorem missing (h : Level m m₁) : Level m m₁.missing := ⟨h.nesting, h.peak_le⟩

theorem startsNamed (h : Level m m₁) : Level m (m₁.startsNamed ts).2 := by
  unfold Machine.startsNamed
  dsimp only [Machine.ask]
  split
  · exact h.examine _
  · exact h.examine _

theorem bump (h : Level m m₁) : Ensures (m₁.bump ts) (Level m) :=
  (h.examine _).count.bind fun _ h => h.addCurrent.bind fun _ h => .ok h.skipTrivia

theorem expectClosing (h : Level m m₁) (close : Kind) : Ensures (m₁.expectClosing ts close) (Level m) :=
  .ite (fun _ => (h.examine _).bump) fun _ => .ite (fun _ => .error) fun _ =>
    .ite (fun _ => .error) fun _ => .ok ⟨h.nesting, h.peak_le⟩

theorem unexpected (h : Level m m₁) : Ensures (m₁.unexpected ts) (Level m) :=
  .ite (fun _ => .ok (h.examine _).missing) fun _ =>
    (h.examine _).openNode.bind fun _ h => h.addCurrent.bind fun _ h => h.skipTrivia.closeNode

theorem field (h : Level m m₁) : Ensures (m₁.field ts) (Level m) :=
  .ite (fun _ => (h.examine _).bump) fun _ => (h.examine _).unexpected

theorem terminate (h : Level m m₁) : Ensures (m₁.terminate ts) (Level m) :=
  h.flush.bind fun _ h =>
    .ite (fun _ => (h.examine _).addCurrent) fun _ => .ok (h.examine _)

end Level

/-! ### Parsers and loops -/

def Steady (run : Exec) : Prop := ∀ call m, Ensures (run call m) (Level m)

namespace Level

variable {m m₁ m₂ : Machine} {ts : List Token} {run : Exec}

theorem call (h : Level m m₁) (hrun : Steady run) (call : Call) : Ensures (run call m₁) (Level m) :=
  fun m₂ h₂ => h.trans (hrun call m₁ m₂ h₂)

theorem skipNested (h : Level m m₁) (hrun : Steady run) (opened : Nat) :
    Ensures (Machine.skipNested ts run opened m₁) (Level m) :=
  .ite (fun _ => .ok (h.examine _)) fun _ => .ite (fun _ => .error) fun _ =>
    (h.examine _).bump.bind fun _ h => h.call hrun _

theorem tooDeep (h : Level m m₁) (hrun : Steady run) :
    Ensures (Machine.tooDeep ts run m₁) (Level m) :=
  h.openNode.bind fun _ h => (h.call hrun _).bind fun _ h => h.closeNode

/-- A level is entered only below the limit, and left again. -/
theorem nested (h : Level m m₁) (hrun : Steady run) (body : Call) :
    Ensures (Machine.nested ts run body m₁) (Level m) := by
  refine .ite (fun _ => h.tooDeep hrun) fun hlimit => ?_
  refine Ensures.bind (hrun body m₁.enter) fun m₂ h₂ => .ite (fun _ => .error) fun _ => .ok ?_
  -- The body is as deep as the level that was entered, which the limit allows.
  have hnesting := h₂.nesting
  have hpeak := h₂.peak_le
  have hpeak₁ := h.peak_le
  refine h.trans ⟨?_, ?_⟩
  · simp only [hnesting, enter]
    omega
  · simp only [enter] at hpeak
    dsimp only
    omega

theorem conditional (h : Level m m₁) (hrun : Steady run) :
    Ensures (Machine.conditional ts run m₁) (Level m) := by
  refine h.mark.bind fun ⟨mark, _⟩ h => (h.call hrun _).bind fun _ h =>
    .ite (fun _ => ?_) fun _ => .ok (h.examine _)
  refine ((h.examine _).openNodeAt mark).bind fun _ h => h.bump.bind fun _ h =>
    (h.call hrun _).bind fun _ h => .ite (fun _ => ?_) fun _ => (h.examine _).missing.closeNode
  exact (h.examine _).bump.bind fun _ h => (h.call hrun _).bind fun _ h => h.closeNode

theorem binary (h : Level m m₁) (hrun : Steady run) (j : Join) :
    Ensures (Machine.binary ts run j m₁) (Level m) :=
  h.mark.bind fun ⟨_, _⟩ h => (h.call hrun _).bind fun _ h => h.call hrun _

theorem joinMore (h : Level m m₁) (hrun : Steady run) (j : Join) (mark : Nat) :
    Ensures (Machine.joinMore ts run j mark m₁) (Level m) := by
  refine .ite (fun _ => ?_) fun _ => .ok (h.examine _)
  exact ((h.examine _).openNodeAt mark).bind fun _ h => h.bump.bind fun _ h =>
    (h.call hrun _).bind fun _ h => h.closeNode.bind fun _ h => h.call hrun _

theorem comparison (h : Level m m₁) (hrun : Steady run) :
    Ensures (Machine.comparison ts run m₁) (Level m) := by
  refine h.mark.bind fun ⟨mark, _⟩ h => (h.call hrun _).bind fun _ h =>
    .ite (fun _ => ?_) fun _ => .ok (h.examine _)
  exact ((h.examine _).openNodeAt mark).bind fun _ h => (h.call hrun _).bind fun _ h => h.closeNode

theorem compareMore (h : Level m m₁) (hrun : Steady run) :
    Ensures (Machine.compareMore ts run m₁) (Level m) := by
  refine .ite (fun _ => ?_) fun _ => .ok (h.examine _)
  exact (h.examine _).openNode.bind fun _ h => h.bump.bind fun _ h => h.closeNode.bind fun _ h =>
    (h.call hrun _).bind fun _ h => h.call hrun _

theorem unary (h : Level m m₁) (hrun : Steady run) (u : Unary) :
    Ensures (Machine.unary ts run u m₁) (Level m) := by
  refine .ite (fun _ => ?_) fun _ => (h.examine _).call hrun _
  exact (h.examine _).openNode.bind fun _ h => h.bump.bind fun _ h =>
    (h.call hrun _).bind fun _ h => h.closeNode

theorem power (h : Level m m₁) (hrun : Steady run) :
    Ensures (Machine.power ts run m₁) (Level m) := by
  refine h.mark.bind fun ⟨mark, _⟩ h => (h.call hrun _).bind fun _ h =>
    .ite (fun _ => ?_) fun _ => .ok (h.examine _)
  exact ((h.examine _).openNodeAt mark).bind fun _ h => h.bump.bind fun _ h =>
    (h.call hrun _).bind fun _ h => h.closeNode

theorem primary (h : Level m m₁) (hrun : Steady run) :
    Ensures (Machine.primary ts run m₁) (Level m) :=
  h.mark.bind fun ⟨_, _⟩ h => (h.call hrun _).bind fun _ h => h.call hrun _

theorem suffixMore (h : Level m m₁) (hrun : Steady run) (mark : Nat) :
    Ensures (Machine.suffixMore ts run mark m₁) (Level m) := by
  refine .ite (fun _ => ?_) fun _ => .ite (fun _ => ?_) fun _ => .ok (h.examine _)
  · exact ((h.examine _).openNodeAt mark).bind fun _ h => (h.call hrun _).bind fun _ h =>
      h.closeNode.bind fun _ h => h.call hrun _
  · exact ((h.examine _).openNodeAt mark).bind fun _ h => h.bump.bind fun _ h => h.field.bind
      fun _ h => h.closeNode.bind fun _ h => h.call hrun _

theorem parenthesizedItems (h : Level m m₁) (hrun : Steady run) :
    Ensures (Machine.parenthesizedItems ts run m₁) fun r => Level m r.2 := by
  refine .ite (fun _ => .ok (h.examine _)) fun _ => ((h.examine _).call hrun _).bind fun _ h =>
    .ite (fun _ => ?_) fun _ => .ok (h.examine _)
  exact (h.examine _).bump.bind fun _ h => (h.call hrun _).bind fun _ h => .ok h

theorem parenthesized (h : Level m m₁) (hrun : Steady run) :
    Ensures (Machine.parenthesized ts run m₁) (Level m) := by
  refine h.mark.bind fun ⟨mark, _⟩ h => h.bump.bind fun _ h =>
    (h.parenthesizedItems hrun).bind fun ⟨_, _⟩ h => ?_
  exact (h.expectClosing _).bind fun _ h => (h.openNodeAt mark).bind fun _ h => h.closeNode

theorem atom (h : Level m m₁) (hrun : Steady run) : Ensures (Machine.atom ts run m₁) (Level m) := by
  refine .ite (fun _ => (h.examine _).bump) fun _ => ?_
  split
  · exact (h.examine _).parenthesized hrun
  · exact (h.examine _).call hrun _
  · exact (h.examine _).call hrun _
  · exact (h.examine _).unexpected

theorem enclosed (h : Level m m₁) (hrun : Steady run) (kind close : Kind) (item : Item) :
    Ensures (Machine.enclosed ts run kind close item m₁) (Level m) :=
  h.openNode.bind fun _ h => h.bump.bind fun _ h => (h.call hrun _).bind fun _ h =>
    (h.expectClosing close).bind fun _ h => h.closeNode

theorem items (h : Level m m₁) (hrun : Steady run) (close : Kind) (item : Item) (named : Bool) :
    Ensures (Machine.items ts run close item named m₁) (Level m) := by
  refine .ite (fun _ => .ok (h.examine _)) fun _ => ((h.examine _).call hrun _).bind fun _ h =>
    .ite (fun _ => ?_) fun _ => .ok (h.examine _)
  exact (h.examine _).bump.bind fun _ h => h.call hrun _

theorem slot (h : Level m m₁) (hrun : Steady run) (item : Item) (named : Bool) :
    Ensures (Machine.slot ts run item named m₁) (Level m) :=
  .ite (fun _ => .ok (h.examine _).missing) fun _ => (h.examine _).call hrun _

theorem pair (h : Level m m₁) (hrun : Steady run) : Ensures (Machine.pair ts run m₁) (Level m) := by
  refine h.openNode.bind fun _ h => (h.call hrun _).bind fun _ h =>
    .ite (fun _ => ?_) fun _ => (h.examine _).missing.closeNode
  exact (h.examine _).bump.bind fun _ h => (h.call hrun _).bind fun _ h => h.closeNode

theorem argument (h : Level m m₁) (hrun : Steady run) (named : Bool) :
    Ensures (Machine.argument ts run named m₁) (Level m) := by
  have hlook : Level m (m₁.startsNamed ts).2 := h.startsNamed
  unfold Machine.argument
  generalize m₁.startsNamed ts = look at hlook ⊢
  obtain ⟨starts, m₂⟩ := look
  refine .ite (fun _ => ?_) fun _ => .ite (fun _ => ?_) fun _ => hlook.call hrun _
  · exact hlook.openNode.bind fun _ h => h.bump.bind fun _ h => h.bump.bind fun _ h =>
      (h.call hrun _).bind fun _ h => h.closeNode
  · exact hlook.openNode.bind fun _ h => (h.call hrun _).bind fun _ h => h.closeNode

theorem targets (h : Level m m₁) (hrun : Steady run) :
    Ensures (Machine.targets ts run m₁) (Level m) := by
  refine .ite (fun _ => (h.examine _).bump.bind fun _ h => ?_) fun _ => .ok (h.examine _)
  exact .ite (fun _ => .ok (h.examine _)) fun _ => ((h.examine _).call hrun _).bind fun _ h =>
    h.call hrun _

theorem junkMore (h : Level m m₁) (hrun : Steady run) :
    Ensures (Machine.junkMore ts run m₁) (Level m) := by
  refine .ite (fun _ => .ok (h.examine _)) fun _ => .ite (fun _ => ?_) fun _ => ?_
  · exact (h.examine _).skipOne.call hrun _
  · exact (h.examine _).flush.bind fun _ h => h.addCurrent.bind fun _ h => h.call hrun _

theorem junk (h : Level m m₁) (hrun : Steady run) : Ensures (Machine.junk ts run m₁) (Level m) :=
  h.openNode.bind fun _ h => (h.call hrun _).bind fun _ h => h.closeNode

theorem assignment (h : Level m m₁) (hrun : Steady run) (mark : Nat) :
    Ensures (Machine.assignment ts run mark m₁) (Level m) := by
  refine (h.call hrun _).bind fun _ h => (h.openNodeAt mark).bind fun _ h => h.closeNode.bind
    fun _ h => .ite (fun _ => ?_) fun _ => .ok (h.examine _).missing
  exact (h.examine _).bump.bind fun _ h => h.call hrun _

theorem body (h : Level m m₁) (hrun : Steady run) :
    Ensures (Machine.body ts run m₁) fun r => Level m r.2 := by
  refine .ite (fun _ => .ok (h.examine _).missing) fun _ => (h.examine _).mark.bind
    fun ⟨mark, _⟩ h => (h.call hrun _).bind fun _ h => .ite (fun _ => ?_) fun _ => .ok (h.examine _)
  exact ((h.examine _).assignment hrun mark).bind fun _ h => .ok h

theorem ending (h : Level m m₁) (hrun : Steady run) :
    Ensures (Machine.ending ts run m₁) (Level m) := by
  refine .ite (fun _ => ?_) fun _ => ((h.examine _).junk hrun).bind fun _ h => h.terminate
  exact (Ensures.ok (h.examine _)).bind fun _ h => h.terminate

theorem statement (h : Level m m₁) (hrun : Steady run) :
    Ensures (Machine.statement ts run m₁) (Level m) := by
  have hskip : Level m ({ m₁ with builder := m₁.builder.mark }.skipWhile ts
      fun t => t.kind.isTrivia) := ⟨h.nesting, h.peak_le⟩
  exact (hskip.body hrun).bind fun ⟨_, _⟩ h => (h.ending hrun).bind fun _ h =>
    (h.openNodeAt _).bind fun _ h => h.closeNode

end Level

theorem Steady.step {ts : List Token} {run : Exec} (hrun : Steady run) : Steady (step ts run) := by
  intro call m
  have h := Level.refl m
  cases call with
  | statement => exact h.statement hrun
  | targets => exact h.targets hrun
  | junk => exact h.junkMore hrun
  | nested body => exact h.nested hrun body
  | skipNested opened => exact h.skipNested hrun opened
  | conditional => exact h.conditional hrun
  | binary j => exact h.binary hrun j
  | joinMore j mark => exact h.joinMore hrun j mark
  | comparison => exact h.comparison hrun
  | compareMore => exact h.compareMore hrun
  | unary u => exact h.unary hrun u
  | power => exact h.power hrun
  | primary => exact h.primary hrun
  | suffixMore mark => exact h.suffixMore hrun mark
  | atom => exact h.atom hrun
  | enclosed kind close item => exact h.enclosed hrun kind close item
  | items close item named => exact h.items hrun close item named
  | slot item named => exact h.slot hrun item named
  | pair => exact h.pair hrun
  | argument named => exact h.argument hrun named

/-- However much fuel there is, a call that ends leaves the machine as deep as it was. -/
theorem steady_exec (ts : List Token) (fuel : Nat) : Steady (exec ts fuel) := by
  induction fuel with
  | zero => exact fun _ _ => .error
  | succ fuel ih => exact ih.step

theorem Runs.level {ts : List Token} {call : Call} {m m' : Machine} (h : Runs ts call m m') :
    Level m m' := by
  obtain ⟨fuel, hfuel⟩ := h.exists
  exact steady_exec ts fuel call m m' hfuel

/-- On every way down the tree of a text at most as many nodes take a level of nesting as there are
levels. A machine that parses it never enters more of them, and every call leaves as many as it
enters. -/
theorem nesting_bounded :
    (∀ text : Text, ∀ s ∈ (Document.parse text).tree.sites,
      s.nodes.countP Kind.nests ≤ maxNesting) ∧
    (∀ (ts : List Token) (call : Call) (m m' : Machine), Runs ts call m m' →
      m'.nesting = m.nesting ∧ m'.peak ≤ max m.peak maxNesting) ∧
    ∀ (ts : List Token) (start : Nat), ¬((ts.drop start).all fun t => t.kind.isTrivia) →
      ∃ m, Runs ts .statement (new start) m ∧ m.nesting = 0 ∧ m.peak ≤ maxNesting := by
  refine ⟨fun text => (Document.parse_current text).countP_nodes_le, ?_, ?_⟩
  · intro ts call m m' h
    exact ⟨h.level.nesting, h.level.peak_le⟩
  · intro ts start _
    obtain ⟨k, f, c, hb⟩ := Statement.exists_body (.start (ts.drop start))
    obtain ⟨m, hrun, -, -⟩ := runs_statement hb
    have hpeak := hrun.level.peak_le
    exact ⟨m, hrun, hrun.level.nesting, hpeak.trans_eq (Nat.max_eq_right (Nat.zero_le _))⟩

end Machine

end ScriptTree
