import ScriptTree.Proofs.Statement.Boundary

namespace ScriptTree

open Cursor (Moves)
open Expression (Parses maxNesting)

namespace Cursor

/-- The way from a cursor to another one leaves no bracket open, unless the tokens end there. -/
def Balanced (c c' : Cursor) : Prop := c'.depth = c.depth ∨ c.depth < c'.depth ∧ c'.kind = .eof

namespace Balanced

variable {c c₁ c₂ : Cursor}

theorem refl (c : Cursor) : c.Balanced c := .inl rfl

theorem depth_le (h : c.Balanced c₁) : c.depth ≤ c₁.depth := by
  rcases h with h | ⟨h, -⟩ <;> omega

theorem depth_eq (h : c.Balanced c₁) (hne : c₁.kind ≠ .eof) : c₁.depth = c.depth :=
  h.resolve_right fun h => hne h.2

theorem trans (h : c.Balanced c₁) (hne : c₁.kind ≠ .eof) (h' : c₁.Balanced c₂) : c.Balanced c₂ := by
  have heq := h.depth_eq hne
  unfold Balanced at h' ⊢
  rwa [heq] at h'

theorem of_depth_eq (heq : c₁.depth = c.depth) (h : c₁.Balanced c₂) : c.Balanced c₂ := by
  unfold Balanced at h ⊢
  rwa [heq] at h

theorem bump (h : c.Balanced c₁) (hk : c₁.kind.isPlain) (h' : c₁.bump.2.Balanced c₂) :
    c.Balanced c₂ :=
  h.trans (Kind.ne_eof_of_isPlain hk) (h'.of_depth_eq (Keeps.bump hk).depth)

end Balanced

theorem depthAfter_mono {d e : Nat} (h : d ≤ e) (k : Kind) :
    depthAfter d k ≤ depthAfter e k := by
  unfold depthAfter
  split
  · omega
  · split <;> omega

theorem depth_bump {c : Cursor} (h : c.kind ≠ .eof) : c.bump.2.depth = depthAfter c.depth c.kind := by
  obtain ⟨t, r, hr, ht⟩ := exists_rest h
  rw [bump_eq hr, ht]
  rfl

/-- What is pending stays trivia inside a bracket, so the end of the tokens stays the end. -/
theorem kind_reread_eq_eof {c : Cursor} (hc : c.Ready) (h : c.kind = .eof) {d : Nat} (hd : 0 < d) :
    (c.reread d).kind = .eof := by
  have hskips : ∀ t ∈ c.pending, skips d t := by
    intro t ht
    unfold skips
    split
    · exact decide_eq_true hd
    · exact hc.trivia t ht
  have hrest : (c.reread d).rest = c.rest.dropWhile (skips d) := List.dropWhile_append_of_pos hskips
  cases hr : c.rest with
  | nil => exact kind_eq_eof (by rw [hrest, hr]; rfl)
  | cons t r =>
    rw [kind_eq_of_rest hr] at h
    have hstop : ¬skips d t := by simp [skips, h, Kind.isTrivia]
    rw [hr, List.dropWhile_cons_of_neg hstop] at hrest
    rw [kind_eq_of_rest hrest, h]

/-- A closing bracket, taken or marked as missing, ends what an opening one began. -/
theorem Balanced.close {c c₁ : Cursor} (hopen : c.kind.isOpening) (h : c.bump.2.Balanced c₁)
    (hc : c₁.Ready) {k : Kind} (hk : k.isClosing) :
    0 < c₁.depth ∧ c.Balanced (c₁.close k).2 := by
  obtain ⟨-, hopening, -⟩ := bump_of_isOpening hopen
  obtain ⟨-, hclosing, -⟩ := close_of_isClosing (c := c₁) hk
  have hle := h.depth_le
  refine ⟨by omega, ?_⟩
  rcases h with h | ⟨hlt, heof⟩
  · exact .inl (by omega)
  · have hne : c₁.kind ≠ k := fun hkind => Kind.ne_eof_of_isClosing hk (hkind.symm.trans heof)
    refine .inr ⟨by omega, ?_⟩
    rw [Cursor.close, if_neg hne]
    exact kind_reread_eq_eof hc heof (by omega)

end Cursor

namespace Expression

open Cursor (Balanced Keeps)

/-- Brackets that are opened in a part without structure are counted there. -/
theorem depth_skipNested {fuel opened : Nat} {c : Cursor} (hopened : opened ≤ c.depth)
    (hfuel : c.rest.length ≤ fuel) :
    (skipNested fuel opened c).2.depth + opened = c.depth ∨
      c.depth < (skipNested fuel opened c).2.depth + opened ∧
        (skipNested fuel opened c).2.kind = .eof := by
  have hend (opened : Nat) (c : Cursor) (heof : c.kind = .eof) :
      c.depth + opened = c.depth ∨ c.depth < c.depth + opened ∧ c.kind = .eof := by
    rcases Nat.eq_zero_or_pos opened with hzero | hpos
    · exact .inl (by omega)
    · exact .inr ⟨by omega, heof⟩
  fun_induction skipNested fuel opened c with
  | case1 opened c =>
    exact hend opened c (Cursor.kind_eq_eof (List.length_eq_zero_iff.1 (Nat.le_zero.1 hfuel)))
  | case2 fuel opened c k hk =>
    by_cases heof : c.kind = .eof
    · exact hend opened c heof
    · simp only [k, heof, decide_false, Bool.false_or, Bool.and_eq_true, decide_eq_true_eq] at hk
      exact .inl (by rw [hk.1]; rfl)
  | case3 fuel opened c k hk trees c₁ hb more c₂ hs ih =>
    simp only [Bool.or_eq_true, decide_eq_true_eq, not_or, Bool.and_eq_true, not_and] at hk
    have hne : c.kind ≠ .eof := hk.1
    have hdepth := Cursor.depth_bump hne
    have hlt := Cursor.length_ahead_bump_lt hne
    have hle := c.bump.2.length_rest_le_ahead
    rw [hb] at hdepth hlt hle
    dsimp only at hdepth hlt hle
    -- A bracket is closed here only if it was opened here.
    have hkeep : Cursor.depthAfter opened k ≤ c₁.depth ∧
        c₁.depth + opened = c.depth + Cursor.depthAfter opened k := by
      have hclosing : k.isClosing → opened ≠ 0 := fun hclose hzero => (hk.2 hzero).1.1 hclose
      rw [show c₁.depth = Cursor.depthAfter c.depth k from hdepth]
      unfold Cursor.depthAfter
      split
      · omega
      · split
        · rename_i hclose
          have := hclosing hclose
          omega
        · omega
    have hnext := ih hkeep.1 (by omega)
    rw [hs] at hnext
    dsimp only at hnext ⊢
    rcases hnext with h | ⟨h, heof⟩
    · exact .inl (by omega)
    · exact .inr ⟨by omega, heof⟩

theorem tooDeep_balanced (c : Cursor) : c.Balanced (tooDeep c).2 :=
  depth_skipNested (Nat.zero_le _) (Nat.le_refl _)

theorem Parses.ready {n : Nat} {g : Goal} {c c' : Cursor} {f : Forest} (h : Parses n g c f c')
    (hc : c.Ready) : c'.Ready := (h.moves.ready hc).1

/-- Whatever is parsed leaves no bracket open, unless the tokens end. -/
theorem Parses.balanced {n : Nat} {g : Goal} {c c' : Cursor} {f : Forest} (h : Parses n g c f c')
    (hc : c.Ready) : c.Balanced c' := by
  have hplain {c : Cursor} {k : Kind} (hk : c.kind = k) (hp : k.isPlain) : c.kind.isPlain := by
    rwa [hk]
  induction h with
  | tooDeep g c => exact tooDeep_balanced c
  | nested h ih => exact ih hc
  | @operand n g c t c' h ih => exact (ih hc.flush).of_depth_eq rfl
  | unconditional h hif ih => exact ih hc
  | conditional body hif condition helse alternative ih ih₁ ih₂ =>
    have hr := (body.ready hc).bump (hif.trans_ne (by decide))
    have hr' := (condition.ready hr).bump (helse.trans_ne (by decide))
    have hrest := (ih₁ hr).bump (hplain helse rfl) (ih₂ hr')
    exact (ih hc).bump (hplain hif rfl) hrest
  | withoutElse body hif condition helse ih ih₁ =>
    have hr := (body.ready hc).bump (hif.trans_ne (by decide))
    exact (ih hc).bump (hplain hif rfl) (ih₁ hr)
  | join h hstop ih => exact ih hc
  | first h ih => exact ih hc
  | further left hop right ih ih₁ =>
    have hr := (left.ready hc).bump (Join.ne_eof hop)
    exact (ih hc).bump (Kind.isPlain_of_joins hop) (ih₁ hr)
  | uncompared h hstop ih => exact ih hc
  | comparison left hop more ih ih₁ =>
    exact (ih hc).trans (Kind.ne_eof_of_isComparison hop) (ih₁ (left.ready hc))
  | comparedEnd hstop => exact .refl _
  | @comparedMore n c f c₁ g c₂ hop right more ih ih₁ =>
    have hop' : c.flush.2.kind.isPlain := Kind.isPlain_of_isComparison hop
    have hr := hc.flush.bump (Kind.ne_eof_of_isPlain hop')
    have hright := ((Balanced.refl c.flush.2).bump hop' (ih hr)).of_depth_eq (c := c) rfl
    -- If brackets stayed open, the tokens have ended, and no operator follows.
    cases more with
    | comparedEnd hstop => exact hright
    | comparedMore hop₁ right₁ more₁ =>
      exact hright.trans (Kind.ne_eof_of_isComparison hop₁) (ih₁ (right.ready hr))
  | unary hop h ih =>
    exact (Cursor.Balanced.refl _).bump (Kind.isPlain_of_starts hop) (ih (hc.bump (Unary.ne_eof hop)))
  | noUnary hop h ih => exact ih hc
  | noPower h hop ih => exact ih hc
  | power base hop exponent ih ih₁ =>
    have hr := (base.ready hc).bump (hop.trans_ne (by decide))
    exact (ih hc).bump (hplain hop rfl) (ih₁ hr)
  | primary h hparen hdot ih => exact ih hc
  | bare h ih => exact ih hc
  | call callee hparen arguments ih ih₁ =>
    exact (ih hc).trans (hparen.trans_ne (by decide)) (ih₁ (callee.ready hc))
  | member object hdot ih =>
    exact (ih hc).bump (hplain hdot rfl) (.inl (Keeps.field _).depth)
  | @literal n c t r hpending hrest hkind =>
    have hk := Kind.isPlain_of_isLiteral hkind
    rw [← Cursor.kind_eq_of_rest hrest] at hk
    exact .inl (Keeps.bump hk).depth
  | emptyTuple hopen hclose =>
    have hr := hc.bump (hopen.trans_ne (by decide))
    exact (Balanced.close (hopen ▸ rfl) (.refl _) hr rfl).2
  | group hopen hclose inner hcomma ih =>
    have hr := hc.bump (hopen.trans_ne (by decide))
    exact (Balanced.close (hopen ▸ rfl) (ih hr) (inner.ready hr) rfl).2
  | tuple hopen hclose inner hcomma more ih ih₁ =>
    have hr := hc.bump (hopen.trans_ne (by decide))
    have hr' := (inner.ready hr).bump (hcomma.trans_ne (by decide))
    have hitems := (ih hr).bump (hplain hcomma rfl) (ih₁ hr')
    exact (Balanced.close (hopen ▸ rfl) hitems (more.ready hr') rfl).2
  | list hopen h ih => exact ih hc
  | dict hopen h ih => exact ih hc
  | unexpected hliteral hopen => exact .inl (Keeps.unexpected _).depth
  | enclosed hopen hclose h ih =>
    have hr := hc.bump (Kind.ne_eof_of_isOpening hopen)
    exact (Balanced.close hopen (ih hr) (h.ready hr) hclose).2
  | itemsEnd hend => exact .refl _
  | itemsLast hend h hcomma ih => exact ih hc
  | itemsMore hend h hcomma more ih ih₁ =>
    have hr := (h.ready hc).bump (hcomma.trans_ne (by decide))
    exact (ih hc).bump (hplain hcomma rfl) (ih₁ hr)
  | missingItem hcomma => exact .refl _
  | item hcomma h ih => exact ih hc
  | pair key hcolon value ih ih₁ =>
    have hr := (key.ready hc).bump (hcolon.trans_ne (by decide))
    exact (ih hc).bump (hplain hcolon rfl) (ih₁ hr)
  | withoutColon key hcolon ih => exact ih hc
  | @keyword n named c f c' hname value ih =>
    obtain ⟨hname, heq⟩ := startsNamed_iff.1 hname
    have hr := hc.bump (hname.trans_ne (by decide))
    have hr' := hr.bump (heq.trans_ne (by decide))
    have hvalue := (Balanced.refl c.bump.2).bump (hplain heq rfl) (ih hr')
    exact (Balanced.refl c).bump (hplain hname rfl) hvalue
  | positional hname value ih =>
    exact (ih ((looked_moves _).ready hc).1).of_depth_eq (Keeps.looked _).depth
  | misplaced hname value ih =>
    exact (ih ((looked_moves _).ready hc).1).of_depth_eq (Keeps.looked _).depth
  | targetsEnd hcomma => exact .refl _
  | targetsTrailing hcomma hend => exact .inl (Keeps.bump (hplain hcomma rfl)).depth
  | @targetsMore n c f c₁ g c₂ hcomma hend target more ih ih₁ =>
    have hr := hc.bump (hcomma.trans_ne (by decide))
    have htarget := (Balanced.refl c).bump (hplain hcomma rfl) (ih hr)
    cases more with
    | targetsEnd hstop => exact htarget
    | targetsTrailing hcomma₁ hend₁ =>
      exact htarget.trans (hcomma₁.trans_ne (by decide)) (ih₁ (target.ready hr))
    | targetsMore hcomma₁ hend₁ target₁ more₁ =>
      exact htarget.trans (hcomma₁.trans_ne (by decide)) (ih₁ (target.ready hr))

end Expression

theorem Statement.Body.balanced {c c' : Cursor} {k : Kind} {f : Forest} (h : Statement.Body c k f c')
    (hc : c.Ready) : c.Balanced c' := by
  have htargets {c₁ c₂ : Cursor} {t : Tree} {f : Forest}
      (target : Parses maxNesting (.nested .whole) c.flush.2 [t] c₁)
      (hmore : c₁.kind = .comma ∨ c₁.kind = .eq) (more : Parses maxNesting .targets c₁ f c₂) :
      c.Balanced c₂ ∧ c₂.Ready := by
    have hne : c₁.kind ≠ .eof := by rcases hmore with h | h <;> exact h.trans_ne (by decide)
    have hr := target.ready hc.flush
    have hbalanced := (target.balanced hc.flush).trans hne (more.balanced hr)
    exact ⟨hbalanced.of_depth_eq rfl, more.ready hr⟩
  cases h with
  | empty h => exact .refl c
  | expression h expr hcomma heq => exact expr.balanced hc
  | assignment h target hmore more heq value =>
    obtain ⟨hbalanced, hr⟩ := htargets target hmore more
    have hr' := hr.bump (heq.trans_ne (by decide))
    exact hbalanced.bump (by rw [heq]; rfl) (value.balanced hr')
  | unassigned h target hmore more heq => exact (htargets target hmore more).1

theorem Cursor.Balanced.finish {c c' : Cursor} (h : c.Balanced c') :
    c.Balanced (Statement.finish c').2 := by
  have hending (c : Cursor) : (Statement.ending c).2.depth = c.depth := by
    by_cases hk : c.kind = .newline ∨ c.kind = .semicolon
    · obtain ⟨t, r, -, -, hending⟩ := Statement.exists_ending hk
      rw [hending]
      rfl
    · rw [Statement.ending_eq_flush hk]
      rfl
  rcases h with hdepth | ⟨hlt, heof⟩
  · refine .inl ?_
    rw [← hdepth, Statement.finish, hending]
    split <;> rfl
  · have ht : c'.atTerminator := by rw [atTerminator, heof]
    refine .inr ?_
    rw [Statement.finish, if_pos ht, Statement.ending_eq_flush (by simp [heof])]
    exact ⟨hlt, heof⟩

end ScriptTree
