import ScriptTree.Proofs.Statement.Partition

namespace ScriptTree

open Cursor (Moves)
open Expression (Goal Parses)

/-- Cursors correspond by `R`, and the trees that are made on the way by `F`. Only steps to places
where `P` holds count, and with such a place all places before it are among them. -/
structure Simulation (R : Cursor → Cursor → Prop) (F : Forest → Forest → Prop)
    (P : Cursor → Prop) : Prop where
  back {c c' f} : Moves c f c' → P c' → P c
  kind {c d} : R c d → d.kind = c.kind
  depth {c d} : R c d → d.depth = c.depth
  flush {c d} : R c d → F c.flush.1 d.flush.1 ∧ R c.flush.2 d.flush.2
  /-- The current token is taken, and the trivia behind it is passed over at some bracket depth. -/
  take {c d t r} (n : Nat) : R c d → c.rest = t :: r → P (c.past n r).skip →
    ∃ u l, d.rest = u :: l ∧
      F (c.pending.map Token.tree ++ [t.tree]) (d.pending.map Token.tree ++ [u.tree]) ∧
      R (c.past n r).skip (d.past n l).skip
  reread {c d} (n : Nat) : R c d → P (c.reread n) → R (c.reread n) (d.reread n)
  looked {c d} : R c d → P (Expression.looked c) →
    Expression.startsNamed d = Expression.startsNamed c ∧
      R (Expression.looked c) (Expression.looked d)
  nil : F [] []
  append {f f' g g'} : F f f' → F g g' → F (f ++ g) (f' ++ g')
  node {f f'} (k : Kind) : F f f' → F [.node k f] [.node k f']
  named {f f'} : F f f' →
    f'.any (·.kind == .keywordArgument) = f.any (·.kind == .keywordArgument)

namespace Simulation

variable {R : Cursor → Cursor → Prop} {F : Forest → Forest → Prop} {P : Cursor → Prop}
  {c d : Cursor}

theorem cons (S : Simulation R F P) {t t' : Tree} {f f' : Forest} (ht : F [t] [t']) (hf : F f f') :
    F (t :: f) (t' :: f') := S.append ht hf

theorem missing (S : Simulation R F P) : F [.missing] [.missing] := S.node .error S.nil

theorem atTerminator (S : Simulation R F P) (h : R c d) : d.atTerminator = c.atTerminator := by
  unfold Cursor.atTerminator
  rw [S.kind h]

theorem atAnchor (S : Simulation R F P) (h : R c d) : d.atAnchor = c.atAnchor := by
  unfold Cursor.atAnchor
  rw [S.kind h]

theorem bump (S : Simulation R F P) (h : R c d) (hne : c.kind ≠ .eof) (hP : P c.bump.2) :
    F c.bump.1 d.bump.1 ∧ R c.bump.2 d.bump.2 := by
  obtain ⟨t, r, hr, ht⟩ := Cursor.exists_rest hne
  rw [Cursor.bump_eq hr] at hP ⊢
  obtain ⟨u, l, hl, htrees, hnext⟩ := S.take _ h hr hP
  have hu : u.kind = t.kind := by rw [← Cursor.kind_eq_of_rest hl, S.kind h, ht]
  rw [Cursor.bump_eq hl, hu, S.depth h]
  exact ⟨htrees, hnext⟩

/-- A step before an allowed one is allowed. -/
theorem back_bump (S : Simulation R F P) (hne : c.kind ≠ .eof) (hP : P c.bump.2) : P c :=
  S.back (Cursor.bump_moves hne) hP

theorem close (S : Simulation R F P) (h : R c d) {k : Kind} (hk : k ≠ .eof)
    (hP : P (c.close k).2) : F (c.close k).1 (d.close k).1 ∧ R (c.close k).2 (d.close k).2 := by
  unfold Cursor.close at hP ⊢
  rw [S.kind h, S.depth h]
  by_cases he : c.kind = k
  · simp only [he, if_true] at hP ⊢
    exact S.bump h (he.trans_ne hk) hP
  · simp only [he, if_false] at hP ⊢
    exact ⟨S.missing, S.reread _ h hP⟩

theorem unexpected (S : Simulation R F P) (h : R c d) (hP : P (Expression.unexpected c).2) :
    F [(Expression.unexpected c).1] [(Expression.unexpected d).1] ∧
      R (Expression.unexpected c).2 (Expression.unexpected d).2 := by
  unfold Expression.unexpected at hP ⊢
  rw [S.atAnchor h]
  by_cases ha : c.atAnchor
  · simp only [ha, if_true]
    exact ⟨S.missing, h⟩
  · have hne : c.kind ≠ .eof := by
      intro he
      simp [Cursor.atAnchor, he] at ha
    obtain ⟨t, r, hr, -⟩ := Cursor.exists_rest hne
    simp only [ha, Bool.false_eq_true, if_false, Cursor.take_eq hr] at hP ⊢
    obtain ⟨u, l, hl, htrees, hnext⟩ := S.take _ h hr hP
    rw [Cursor.take_eq hl, S.depth h]
    exact ⟨S.node .error htrees, hnext⟩

theorem field (S : Simulation R F P) (h : R c d) (hP : P (Expression.field c).2) :
    F (Expression.field c).1 (Expression.field d).1 ∧
      R (Expression.field c).2 (Expression.field d).2 := by
  unfold Expression.field at hP ⊢
  rw [S.kind h, S.atAnchor h]
  by_cases hk : c.kind = .identifier
  · simp only [hk, if_true] at hP ⊢
    exact S.bump h (hk.trans_ne (by decide)) hP
  · by_cases ha : c.atAnchor
    · simp only [hk, ha, if_true, if_false]
      exact ⟨S.missing, h⟩
    · simp only [hk, ha, Bool.false_eq_true, if_false] at hP ⊢
      obtain ⟨hlead, hflush⟩ := S.flush h
      obtain ⟨htree, hnext⟩ := S.unexpected hflush hP
      exact ⟨S.append hlead htree, hnext⟩

end Simulation

namespace Expression

variable {c : Cursor}

def endsNested (opened : Nat) (k : Kind) : Bool :=
  k = .eof || (opened = 0 && (k.isClosing || k = .newline || k = .semicolon))

theorem skipNested_of_ends {opened : Nat} (h : endsNested opened c.kind) (fuel : Nat) :
    skipNested fuel opened c = ([], c) := by
  cases fuel with
  | zero => rfl
  | succ fuel =>
    rw [skipNested, if_pos]
    exact h

theorem skipNested_of_not_ends {opened : Nat} (h : endsNested opened c.kind = false) (fuel : Nat) :
    skipNested (fuel + 1) opened c =
      (c.bump.1 ++ (skipNested fuel (Cursor.depthAfter opened c.kind) c.bump.2).1,
        (skipNested fuel (Cursor.depthAfter opened c.kind) c.bump.2).2) := by
  rw [skipNested, if_neg]
  exact Bool.eq_false_iff.1 h

end Expression

namespace Simulation

variable {R : Cursor → Cursor → Prop} {F : Forest → Forest → Prop} {P : Cursor → Prop}
  {c d : Cursor}

theorem skipNested (S : Simulation R F P) {fuel fuel' : Nat} (opened : Nat) (h : R c d)
    (hfuel : c.rest.length ≤ fuel) (hfuel' : d.rest.length ≤ fuel')
    (hP : P (Expression.skipNested fuel opened c).2) :
    F (Expression.skipNested fuel opened c).1 (Expression.skipNested fuel' opened d).1 ∧
      R (Expression.skipNested fuel opened c).2 (Expression.skipNested fuel' opened d).2 := by
  induction fuel generalizing fuel' opened c d with
  | zero =>
    have hk := Expression.kind_eq_eof_of_length hfuel
    have hends : Expression.endsNested opened c.kind := by simp [Expression.endsNested, hk]
    rw [Expression.skipNested_of_ends hends,
      Expression.skipNested_of_ends (c := d) (S.kind h ▸ hends)]
    exact ⟨S.nil, h⟩
  | succ fuel ih =>
    by_cases hends : Expression.endsNested opened c.kind
    · rw [Expression.skipNested_of_ends hends,
        Expression.skipNested_of_ends (c := d) (S.kind h ▸ hends)]
      exact ⟨S.nil, h⟩
    · have hnot : Expression.endsNested opened c.kind = false := by simpa using hends
      have hne : c.kind ≠ .eof := by
        intro he
        simp [Expression.endsNested, he] at hnot
      have hlt := Cursor.length_ahead_bump_lt hne
      have hlt' := Cursor.length_ahead_bump_lt (c := d) (S.kind h ▸ hne)
      have hle := c.bump.2.length_rest_le_ahead
      have hle' := d.bump.2.length_rest_le_ahead
      obtain ⟨fuel', rfl⟩ : ∃ m, fuel' = m + 1 := ⟨fuel' - 1, by omega⟩
      rw [Expression.skipNested_of_not_ends hnot] at hP ⊢
      rw [Expression.skipNested_of_not_ends (c := d) (S.kind h ▸ hnot), S.kind h]
      obtain ⟨htrees, hbump⟩ :=
        S.bump h hne (S.back (Expression.skipNested_moves ..) hP)
      obtain ⟨hmore, hnext⟩ := ih _ hbump (by omega) (by omega : _ ≤ fuel') hP
      exact ⟨S.append htrees hmore, hnext⟩

theorem tooDeep (S : Simulation R F P) (h : R c d) (hP : P (Expression.tooDeep c).2) :
    F [(Expression.tooDeep c).1] [(Expression.tooDeep d).1] ∧
      R (Expression.tooDeep c).2 (Expression.tooDeep d).2 := by
  obtain ⟨htrees, hnext⟩ := S.skipNested 0 h (Nat.le_refl _) (Nat.le_refl _) hP
  exact ⟨S.node .error htrees, hnext⟩

end Simulation

namespace Expression

variable {R : Cursor → Cursor → Prop} {F : Forest → Forest → Prop} {P : Cursor → Prop}

@[simp] theorem pending_looked (c : Cursor) : (looked c).pending = c.pending := by
  unfold looked
  split <;> rfl

theorem not_single {g : Goal} (h : g.single = false) {p : Prop} (hg : g.single) : p := by
  simp [h] at hg

theorem exists_tree {n : Nat} {g : Goal} (hg : g.single) {d : Cursor} {f : Forest}
    {r : Cursor → Prop}
    (h : ∃ f' d', Parses n g d f' d' ∧ F f f' ∧ r d') :
    ∃ t d', Parses n g d [t] d' ∧ F f [t] ∧ r d' := by
  obtain ⟨f', d', h', hf, hr⟩ := h
  obtain ⟨t, rfl⟩ := h'.exists_eq hg
  exact ⟨t, d', h', hf, hr⟩

theorem exists_infix (S : Simulation R F P) {n : Nat} {g g' : Goal} (hg : g.single)
    {c c' d : Cursor} {t : Tree} {f : Forest} (hne : c.kind ≠ .eof) (hP : P c.bump.2)
    (hleft : P c → ∃ f' d', Parses n g d f' d' ∧ F [t] f' ∧ R c d')
    (hright : ∀ {d' : Cursor}, R c.bump.2 d' → ∃ f' d'', Parses n g' d' f' d'' ∧ F f f' ∧ R c' d'') :
    ∃ t' d₁ f' d₂, Parses n g d [t'] d₁ ∧ d₁.kind = c.kind ∧ Parses n g' d₁.bump.2 f' d₂ ∧
      F (t :: c.bump.1 ++ f) (t' :: d₁.bump.1 ++ f') ∧ R c' d₂ := by
  obtain ⟨t', d₁, h₁, ht, hd₁⟩ := exists_tree hg (hleft (S.back_bump hne hP))
  obtain ⟨hword, hbump⟩ := S.bump hd₁ hne hP
  obtain ⟨f', d₂, h₂, hf, hd₂⟩ := hright hbump
  exact ⟨t', d₁, f', d₂, h₁, S.kind hd₁, h₂, S.append (S.cons ht hword) hf, hd₂⟩

/-- All that is parsed from the first of two corresponding cursors is parsed from the second one.
Before a goal of one tree the second one has no trivia pending, as the first has not. -/
theorem Parses.simulated (S : Simulation R F P) {n : Nat} {g : Goal} {c c' : Cursor} {f : Forest}
    (h : Parses n g c f c') (hg : g.proper) {d : Cursor} (hd : R c d)
    (hpending : g.single → d.pending = []) (hP : P c') :
    ∃ f' d', Parses n g d f' d' ∧ F f f' ∧ R c' d' := by
  -- A place on the way is allowed since the last one is, so in each case these are taken from the
  -- last to the first, and the parts from the first to the last.
  induction h generalizing d with
  | tooDeep g c =>
    obtain ⟨htree, hd'⟩ := S.tooDeep hd hP
    exact ⟨_, _, .tooDeep g d, htree, hd'⟩
  | nested h ih =>
    obtain ⟨f', d', h', hf, hd'⟩ := ih hg hd hpending hP
    exact ⟨f', d', .nested h', hf, hd'⟩
  | @operand n g c t c' h ih =>
    obtain ⟨hsingle, hproper⟩ := Goal.proper_operand hg
    obtain ⟨hlead, hflush⟩ := S.flush hd
    obtain ⟨t', d', h', ht, hd'⟩ := exists_tree hsingle (ih hproper hflush (fun _ => rfl) hP)
    exact ⟨_, d', .operand h', S.append hlead ht, hd'⟩
  | unconditional h hif ih =>
    obtain ⟨t', d', h', ht, hd'⟩ := exists_tree rfl (ih rfl hd hpending hP)
    exact ⟨_, d', .unconditional h' (S.kind hd' ▸ hif), ht, hd'⟩
  | conditional body hif condition helse alternative ih ih₁ ih₂ =>
    have hne := hif.trans_ne (by decide : Kind.ifKw ≠ .eof)
    have hne' := helse.trans_ne (by decide : Kind.elseKw ≠ .eof)
    have hP₂ := S.back alternative.moves hP
    have hP₁ := S.back condition.moves (S.back_bump hne' hP₂)
    obtain ⟨t, d₁, f', d₂, h₁, hk, h₂, hfront, hd₂⟩ :=
      exists_infix S rfl hne hP₁ (ih rfl hd hpending)
        fun hbump => ih₁ rfl hbump (not_single rfl) (S.back_bump hne' hP₂)
    obtain ⟨hword, hbump⟩ := S.bump hd₂ hne' hP₂
    obtain ⟨g', d₃, h₃, hg', hd₃⟩ := ih₂ rfl hbump (not_single rfl) hP
    refine ⟨_, d₃, .conditional h₁ (hk.trans hif) h₂ (S.kind hd₂ ▸ helse) h₃, ?_, hd₃⟩
    exact S.node _ (S.append (S.append hfront hword) hg')
  | withoutElse body hif condition helse ih ih₁ =>
    have hne := hif.trans_ne (by decide : Kind.ifKw ≠ .eof)
    obtain ⟨t, d₁, f', d₂, h₁, hk, h₂, hfront, hd₂⟩ :=
      exists_infix S rfl hne (S.back condition.moves hP) (ih rfl hd hpending)
        fun hbump => ih₁ rfl hbump (not_single rfl) hP
    refine ⟨_, d₂, .withoutElse h₁ (hk.trans hif) h₂ (S.kind hd₂ ▸ helse), ?_, hd₂⟩
    exact S.node _ (S.append hfront S.missing)
  | join h hstop ih =>
    obtain ⟨t, d', h', ht, hd'⟩ := exists_tree rfl (ih rfl hd hpending hP)
    exact ⟨_, d', .join h' (S.kind hd' ▸ hstop), ht, hd'⟩
  | @first n j c t c' h ih =>
    obtain ⟨-, hproper⟩ := Goal.proper_operand j.proper_operand
    obtain ⟨t, d', h', ht, hd'⟩ :=
      exists_tree j.single_operand (ih hproper hd (fun _ => hpending rfl) hP)
    exact ⟨_, d', .first h', ht, hd'⟩
  | @further n j c t c₁ f c₂ left hop right ih ih₁ =>
    obtain ⟨t, d₁, f', d₂, h₁, hk, h₂, hall, hd₂⟩ :=
      exists_infix S rfl (Join.ne_eof hop) (S.back right.moves hP) (ih rfl hd hpending)
        fun hbump => ih₁ j.proper_operand hbump (not_single rfl) hP
    exact ⟨_, d₂, .further h₁ (hk ▸ hop) h₂, S.node _ hall, hd₂⟩
  | uncompared h hstop ih =>
    obtain ⟨t, d', h', ht, hd'⟩ := exists_tree rfl (ih rfl hd hpending hP)
    exact ⟨_, d', .uncompared h' (S.kind hd' ▸ hstop), ht, hd'⟩
  | comparison left hop more ih ih₁ =>
    obtain ⟨t, d₁, h₁, ht, hd₁⟩ := exists_tree rfl (ih rfl hd hpending (S.back more.moves hP))
    obtain ⟨f', d₂, h₂, hf, hd₂⟩ := ih₁ rfl hd₁ (not_single rfl) hP
    exact ⟨_, d₂, .comparison h₁ (S.kind hd₁ ▸ hop) h₂, S.node _ (S.cons ht hf), hd₂⟩
  | comparedEnd hstop => exact ⟨_, d, .comparedEnd (S.kind hd ▸ hstop), S.nil, hd⟩
  | @comparedMore n c f c₁ g c₂ hop right more ih ih₁ =>
    have hne : c.flush.2.kind ≠ .eof := Kind.ne_eof_of_isComparison hop
    have hP₁ := S.back more.moves hP
    obtain ⟨hlead, hflush⟩ := S.flush hd
    obtain ⟨hword, hbump⟩ := S.bump hflush hne (S.back right.moves hP₁)
    obtain ⟨f', d₁, h₁, hf, hd₁⟩ := ih rfl hbump (not_single rfl) hP₁
    obtain ⟨g', d₂, h₂, hg', hd₂⟩ := ih₁ rfl hd₁ (not_single rfl) hP
    refine ⟨_, d₂, .comparedMore (S.kind hd ▸ hop) h₁ h₂, ?_, hd₂⟩
    exact S.append (S.append hlead (S.cons (S.node _ hword) hf)) hg'
  | @unary n u c f c' hop h ih =>
    have hne := Unary.ne_eof hop
    obtain ⟨hword, hbump⟩ := S.bump hd hne (S.back h.moves hP)
    obtain ⟨f', d', h', hf, hd'⟩ := ih rfl hbump (not_single rfl) hP
    exact ⟨_, d', .unary (S.kind hd ▸ hop) h', S.node _ (S.append hword hf), hd'⟩
  | @noUnary n u c t c' hop h ih =>
    obtain ⟨t, d', h', ht, hd'⟩ :=
      exists_tree u.single_below (ih u.proper_below hd (fun _ => hpending rfl) hP)
    exact ⟨_, d', .noUnary (S.kind hd ▸ hop) h', ht, hd'⟩
  | noPower h hop ih =>
    obtain ⟨t, d', h', ht, hd'⟩ := exists_tree rfl (ih rfl hd hpending hP)
    exact ⟨_, d', .noPower h' (S.kind hd' ▸ hop), ht, hd'⟩
  | power base hop exponent ih ih₁ =>
    have hne := hop.trans_ne (by decide : Kind.starStar ≠ .eof)
    obtain ⟨t, d₁, f', d₂, h₁, hk, h₂, hall, hd₂⟩ :=
      exists_infix S rfl hne (S.back exponent.moves hP) (ih rfl hd hpending)
        fun hbump => ih₁ rfl hbump (not_single rfl) hP
    exact ⟨_, d₂, .power h₁ (hk.trans hop) h₂, S.node _ hall, hd₂⟩
  | primary h hparen hdot ih =>
    obtain ⟨t, d', h', ht, hd'⟩ := exists_tree rfl (ih rfl hd hpending hP)
    exact ⟨_, d', .primary h' (S.kind hd' ▸ hparen) (S.kind hd' ▸ hdot), ht, hd'⟩
  | bare h ih =>
    obtain ⟨t, d', h', ht, hd'⟩ := exists_tree rfl (ih rfl hd hpending hP)
    exact ⟨_, d', .bare h', ht, hd'⟩
  | call callee hparen arguments ih ih₁ =>
    obtain ⟨t, d₁, h₁, ht, hd₁⟩ := exists_tree rfl (ih rfl hd hpending (S.back arguments.moves hP))
    obtain ⟨f', d₂, h₂, hf, hd₂⟩ := ih₁ rfl hd₁ (not_single rfl) hP
    exact ⟨_, d₂, .call h₁ (S.kind hd₁ ▸ hparen) h₂, S.node _ (S.cons ht hf), hd₂⟩
  | member object hdot ih =>
    have hne := hdot.trans_ne (by decide : Kind.dot ≠ .eof)
    have hP₁ := S.back (field_moves _) hP
    obtain ⟨t, d₁, h₁, ht, hd₁⟩ := exists_tree rfl (ih rfl hd hpending (S.back_bump hne hP₁))
    obtain ⟨hword, hbump⟩ := S.bump hd₁ hne hP₁
    obtain ⟨hfield, hd₂⟩ := S.field hbump hP
    refine ⟨_, _, .member h₁ (S.kind hd₁ ▸ hdot), ?_, hd₂⟩
    exact S.node _ (S.append (S.cons ht hword) hfield)
  | @literal n c t r hc hrest hkind =>
    have hk := Cursor.kind_eq_of_rest hrest
    have hne : c.kind ≠ .eof := by
      intro he
      rw [← hk, he] at hkind
      simp [Kind.isLiteral] at hkind
    obtain ⟨u, l, hrest', hu⟩ := Cursor.exists_rest (S.kind hd ▸ hne : d.kind ≠ .eof)
    obtain ⟨hword, hbump⟩ := S.bump hd hne hP
    rw [Cursor.bump_eq hrest, Cursor.bump_eq hrest', hc, hpending rfl] at hword
    refine ⟨_, _, .literal (hpending rfl) hrest' ?_, hword, hbump⟩
    rwa [hu, S.kind hd, hk]
  | emptyTuple hopen hclose =>
    have hne := hopen.trans_ne (by decide : Kind.lParen ≠ .eof)
    obtain ⟨hword, hbump⟩ := S.bump hd hne (S.back (Cursor.close_moves _ (by decide)) hP)
    obtain ⟨hword', hd'⟩ := S.close hbump (by decide) hP
    refine ⟨_, _, .emptyTuple (S.kind hd ▸ hopen) (S.kind hbump ▸ hclose), ?_, hd'⟩
    exact S.node _ (S.append hword hword')
  | group hopen hclose inner hcomma ih =>
    have hne := hopen.trans_ne (by decide : Kind.lParen ≠ .eof)
    have hP₁ := S.back (Cursor.close_moves _ (by decide)) hP
    obtain ⟨hword, hbump⟩ := S.bump hd hne (S.back inner.moves hP₁)
    obtain ⟨f', d₁, h₁, hf, hd₁⟩ := ih rfl hbump (not_single rfl) hP₁
    obtain ⟨hword', hd'⟩ := S.close hd₁ (by decide) hP
    refine ⟨_, _, .group (S.kind hd ▸ hopen) (S.kind hbump ▸ hclose) h₁ (S.kind hd₁ ▸ hcomma),
      ?_, hd'⟩
    exact S.node _ (S.append (S.append hword hf) hword')
  | tuple hopen hclose inner hcomma more ih ih₁ =>
    have hne := hopen.trans_ne (by decide : Kind.lParen ≠ .eof)
    have hne' := hcomma.trans_ne (by decide : Kind.comma ≠ .eof)
    have hP₂ := S.back (Cursor.close_moves _ (by decide)) hP
    have hP₁ := S.back more.moves hP₂
    have hP₀ := S.back_bump hne' hP₁
    obtain ⟨hword, hbump⟩ := S.bump hd hne (S.back inner.moves hP₀)
    obtain ⟨f', d₁, h₁, hf, hd₁⟩ := ih rfl hbump (not_single rfl) hP₀
    obtain ⟨hword₁, hbump₁⟩ := S.bump hd₁ hne' hP₁
    obtain ⟨g', d₂, h₂, hg', hd₂⟩ := ih₁ rfl hbump₁ (not_single rfl) hP₂
    obtain ⟨hword₂, hd'⟩ := S.close hd₂ (by decide) hP
    refine ⟨_, _, .tuple (S.kind hd ▸ hopen) (S.kind hbump ▸ hclose) h₁ (S.kind hd₁ ▸ hcomma) h₂,
      ?_, hd'⟩
    exact S.node _ (S.append (S.append (S.append (S.append hword hf) hword₁) hg') hword₂)
  | list hopen h ih =>
    obtain ⟨f', d', h', hf, hd'⟩ := ih rfl hd hpending hP
    exact ⟨f', d', .list (S.kind hd ▸ hopen) h', hf, hd'⟩
  | dict hopen h ih =>
    obtain ⟨f', d', h', hf, hd'⟩ := ih rfl hd hpending hP
    exact ⟨f', d', .dict (S.kind hd ▸ hopen) h', hf, hd'⟩
  | unexpected hliteral hopen =>
    obtain ⟨htree, hd'⟩ := S.unexpected hd hP
    exact ⟨_, _, .unexpected (S.kind hd ▸ hliteral) (S.kind hd ▸ hopen), htree, hd'⟩
  | enclosed hopen hclose h ih =>
    have hk := Kind.ne_eof_of_isClosing hclose
    have hP₁ := S.back (Cursor.close_moves _ hk) hP
    obtain ⟨hword, hbump⟩ :=
      S.bump hd (Kind.ne_eof_of_isOpening hopen) (S.back h.moves hP₁)
    obtain ⟨f', d₁, h₁, hf, hd₁⟩ := ih rfl hbump (not_single rfl) hP₁
    obtain ⟨hword', hd'⟩ := S.close hd₁ hk hP
    refine ⟨_, _, .enclosed (S.kind hd ▸ hopen) hclose h₁, ?_, hd'⟩
    exact S.node _ (S.append (S.append hword hf) hword')
  | itemsEnd hend => exact ⟨_, d, .itemsEnd (S.kind hd ▸ hend), S.nil, hd⟩
  | itemsLast hend h hcomma ih =>
    obtain ⟨f', d', h', hf, hd'⟩ := ih rfl hd (not_single rfl) hP
    exact ⟨f', d', .itemsLast (S.kind hd ▸ hend) h' (S.kind hd' ▸ hcomma), hf, hd'⟩
  | itemsMore hend h hcomma more ih ih₁ =>
    have hne := hcomma.trans_ne (by decide : Kind.comma ≠ .eof)
    have hP₁ := S.back more.moves hP
    obtain ⟨f', d₁, h₁, hf, hd₁⟩ := ih rfl hd (not_single rfl) (S.back_bump hne hP₁)
    obtain ⟨hword, hbump⟩ := S.bump hd₁ hne hP₁
    obtain ⟨g', d₂, h₂, hg', hd₂⟩ := ih₁ rfl hbump (not_single rfl) hP
    rw [← S.named hf] at h₂
    refine ⟨_, d₂, .itemsMore (S.kind hd ▸ hend) h₁ (S.kind hd₁ ▸ hcomma) h₂, ?_, hd₂⟩
    exact S.append (S.append hf hword) hg'
  | missingItem hcomma => exact ⟨_, d, .missingItem (S.kind hd ▸ hcomma), S.missing, hd⟩
  | @item n item named c f c' hcomma h ih =>
    obtain ⟨f', d', h', hf, hd'⟩ := ih (item.proper_goal named) hd (not_single rfl) hP
    exact ⟨f', d', .item (S.kind hd ▸ hcomma) h', hf, hd'⟩
  | pair key hcolon value ih ih₁ =>
    have hne := hcolon.trans_ne (by decide : Kind.colon ≠ .eof)
    obtain ⟨t, d₁, f', d₂, h₁, hk, h₂, hall, hd₂⟩ :=
      exists_infix S rfl hne (S.back value.moves hP) (ih rfl hd hpending)
        fun hbump => ih₁ rfl hbump (not_single rfl) hP
    exact ⟨_, d₂, .pair h₁ (hk.trans hcolon) h₂, S.node _ hall, hd₂⟩
  | withoutColon key hcolon ih =>
    obtain ⟨t, d', h', ht, hd'⟩ := exists_tree rfl (ih rfl hd hpending hP)
    exact ⟨_, d', .withoutColon h' (S.kind hd' ▸ hcolon), S.node _ (S.cons ht S.missing), hd'⟩
  | keyword hname value ih =>
    obtain ⟨hk, heq⟩ := startsNamed_iff.1 hname
    have hne := hk.trans_ne (by decide : Kind.identifier ≠ .eof)
    have hne' := heq.trans_ne (by decide : Kind.eq ≠ .eof)
    have hP₂ := S.back value.moves hP
    obtain ⟨hword, hbump⟩ := S.bump hd hne (S.back_bump hne' hP₂)
    obtain ⟨hword', hbump'⟩ := S.bump hbump hne' hP₂
    obtain ⟨f', d', h', hf, hd'⟩ := ih rfl hbump' (not_single rfl) hP
    refine ⟨_, d', .keyword (startsNamed_iff.2 ⟨S.kind hd ▸ hk, S.kind hbump ▸ heq⟩) h', ?_, hd'⟩
    exact S.node _ (S.append (S.append hword hword') hf)
  | positional hname value ih =>
    obtain ⟨hsame, hlooked⟩ := S.looked hd (S.back value.moves hP)
    obtain ⟨t, d', h', ht, hd'⟩ :=
      exists_tree rfl (ih rfl hlooked (fun _ => by simpa using hpending rfl) hP)
    exact ⟨_, d', .positional (hsame ▸ hname) h', ht, hd'⟩
  | misplaced hname value ih =>
    obtain ⟨hsame, hlooked⟩ := S.looked hd (S.back value.moves hP)
    obtain ⟨t, d', h', ht, hd'⟩ :=
      exists_tree rfl (ih rfl hlooked (fun _ => by simpa using hpending rfl) hP)
    exact ⟨_, d', .misplaced (hsame ▸ hname) h', S.node _ ht, hd'⟩
  | targetsEnd hcomma => exact ⟨_, d, .targetsEnd (S.kind hd ▸ hcomma), S.nil, hd⟩
  | targetsTrailing hcomma hend =>
    have hne := hcomma.trans_ne (by decide : Kind.comma ≠ .eof)
    obtain ⟨hword, hbump⟩ := S.bump hd hne hP
    rw [← S.kind hbump, ← S.atTerminator hbump] at hend
    exact ⟨_, _, .targetsTrailing (S.kind hd ▸ hcomma) hend, hword, hbump⟩
  | targetsMore hcomma hend target more ih ih₁ =>
    have hne := hcomma.trans_ne (by decide : Kind.comma ≠ .eof)
    have hP₁ := S.back more.moves hP
    obtain ⟨hword, hbump⟩ := S.bump hd hne (S.back target.moves hP₁)
    rw [← S.kind hbump, ← S.atTerminator hbump] at hend
    obtain ⟨f', d₁, h₁, hf, hd₁⟩ := ih rfl hbump (not_single rfl) hP₁
    obtain ⟨g', d₂, h₂, hg', hd₂⟩ := ih₁ rfl hd₁ (not_single rfl) hP
    refine ⟨_, d₂, .targetsMore (S.kind hd ▸ hcomma) hend h₁ h₂, ?_, hd₂⟩
    exact S.append (S.append hword hf) hg'

end Expression

namespace Statement

open Expression (exists_tree not_single)

variable {R : Cursor → Cursor → Prop} {F : Forest → Forest → Prop} {P : Cursor → Prop}

theorem Body.simulated (S : Simulation R F P) {c c' : Cursor} {k : Kind} {f : Forest}
    (h : Body c k f c') {d : Cursor} (hd : R c d) (hP : P c') :
    ∃ f' d', Body d k f' d' ∧ F f f' ∧ R c' d' := by
  have hterm := S.atTerminator hd
  obtain ⟨hlead, hflush⟩ := S.flush hd
  cases h with
  | empty h => exact ⟨_, d, .empty (hterm ▸ h), S.missing, hd⟩
  | expression h expr hcomma heq =>
    obtain ⟨f', d', h', hf, hd'⟩ := expr.simulated S rfl hd (not_single rfl) hP
    exact ⟨f', d', .expression (hterm ▸ h) h' (S.kind hd' ▸ hcomma) (S.kind hd' ▸ heq), hf, hd'⟩
  | assignment h target hmore more heq value =>
    have hne := heq.trans_ne (by decide : Kind.eq ≠ .eof)
    have hP₂ := S.back value.moves hP
    have hP₁ := S.back_bump hne hP₂
    obtain ⟨t, d₁, h₁, ht, hd₁⟩ :=
      exists_tree rfl (target.simulated S rfl hflush (fun _ => rfl) (S.back more.moves hP₁))
    obtain ⟨f', d₂, h₂, hf, hd₂⟩ := more.simulated S rfl hd₁ (not_single rfl) hP₁
    obtain ⟨hword, hbump⟩ := S.bump hd₂ hne hP₂
    obtain ⟨g', d₃, h₃, hg, hd₃⟩ := value.simulated S rfl hbump (not_single rfl) hP
    rw [← S.kind hd₁] at hmore
    refine ⟨_, d₃, .assignment (hterm ▸ h) h₁ hmore h₂ (S.kind hd₂ ▸ heq) h₃, ?_, hd₃⟩
    exact S.append hlead (S.append (S.cons (S.node _ (S.cons ht hf)) hword) hg)
  | unassigned h target hmore more heq =>
    obtain ⟨t, d₁, h₁, ht, hd₁⟩ :=
      exists_tree rfl (target.simulated S rfl hflush (fun _ => rfl) (S.back more.moves hP))
    obtain ⟨f', d₂, h₂, hf, hd₂⟩ := more.simulated S rfl hd₁ (not_single rfl) hP
    rw [← S.kind hd₁] at hmore
    refine ⟨_, d₂, .unassigned (hterm ▸ h) h₁ hmore h₂ (S.kind hd₂ ▸ heq), ?_, hd₂⟩
    exact S.append hlead (S.cons (S.node _ (S.cons ht hf)) S.missing)

end Statement

end ScriptTree
