import ScriptTree.Proofs.Statement.Depth
import ScriptTree.Proofs.Statement.Shape
import ScriptTree.Proofs.Tree.Address

namespace ScriptTree

open Expression (Goal Parses Join Unary maxNesting)

structure Forest.Trimmed (ts : Forest) : Prop where
  first : ∀ t ∈ ts.head?, t.isTrivia = false
  last : ∀ t ∈ ts.getLast?, t.isTrivia = false

/-- The nodes that may begin or end with trivia. -/
def Kind.ownsTrivia : Kind → Bool
  | .program | .assignment | .expressionStatement => true
  | _ => false

/-- No node begins or ends with trivia that it does not own. -/
abbrev Forest.Tidy : Forest → Prop :=
  Forest.Licensed fun k ts => k.ownsTrivia = false → ts.Trimmed

theorem Forest.tidy_missing : Forest.Tidy [.missing] :=
  licensed_node.2 ⟨fun _ => ⟨nofun, nofun⟩, trivial⟩

namespace Cursor

/-- A step whose trees are tidy. Trivia stands at the front of them only if some was kept back, and
never at their end. -/
structure Edged (c : Cursor) (f : Forest) (c' : Cursor) : Prop where
  settled : c'.Settled
  tidy : Forest.Tidy f
  first : c.pending = [] → ∀ t ∈ f.head?, t.isTrivia = false
  last : ∀ t ∈ f.getLast?, t.isTrivia = false
  pending : f = [] → c'.pending = c.pending

namespace Edged

variable {c c₁ c₂ : Cursor} {f g : Forest}

theorem refl (h : c.Settled) : Edged c [] c := ⟨h, trivial, nofun, nofun, fun _ => rfl⟩

theorem trans (h : Edged c f c₁) (h' : Edged c₁ g c₂) : Edged c (f ++ g) c₂ where
  settled := h'.settled
  tidy := Forest.licensed_append.2 ⟨h.tidy, h'.tidy⟩
  first hp := by
    cases f with
    | nil => exact h'.first ((h.pending rfl).trans hp)
    | cons t f => exact h.first hp
  last := by
    cases hg : g.getLast? with
    | none =>
      rw [List.getLast?_append, hg, Option.none_or]
      exact h.last
    | some t =>
      rw [List.getLast?_append, hg, Option.some_or]
      exact hg ▸ h'.last
  pending hnil := by
    obtain ⟨rfl, rfl⟩ := List.append_eq_nil_iff.1 hnil
    exact (h'.pending rfl).trans (h.pending rfl)

theorem of_tidy {k : Kind} (h : c₁.Settled) (htidy : Forest.Tidy [.node k f]) :
    Edged c [.node k f] c₁ where
  settled := h
  tidy := htidy
  first _ t ht := by
    obtain rfl := Option.some.inj ht
    rfl
  last t ht := by
    obtain rfl := Option.some.inj ht
    rfl
  pending h := absurd h (List.cons_ne_nil _ _)

theorem node (h : Edged c f c₁) (hp : c.pending = []) (k : Kind) : Edged c [.node k f] c₁ :=
  of_tidy h.settled (Forest.licensed_node.2 ⟨fun _ => ⟨h.first hp, h.last⟩, h.tidy⟩)

theorem missing (h : c₁.Settled) : Edged c [.missing] c₁ := of_tidy h Forest.tidy_missing

theorem lead (h : Edged c.flush.2 f c₁) (hne : f ≠ []) : Edged c (c.flush.1 ++ f) c₁ where
  settled := h.settled
  tidy := Forest.licensed_append.2 ⟨Forest.licensed_map_tree _, h.tidy⟩
  first hp := by
    rw [flush_eq hp]
    rw [flush_eq hp] at h
    exact h.first hp
  last := by
    rw [List.getLast?_append_of_ne_nil _ hne]
    exact h.last
  pending hnil := absurd (List.append_eq_nil_iff.1 hnil).2 hne

theorem past_skip {t : Token} {r : List Token} (ht : t.kind.isTrivia = false) (d : Nat) :
    Edged c (c.pending.map Token.tree ++ [t.tree]) (c.past d r).skip where
  settled := settled_skip rfl
  tidy := by
    rw [show [t.tree] = [t].map Token.tree from rfl, ← List.map_append]
    exact Forest.licensed_map_tree _
  first hp u hu := by
    rw [hp] at hu
    obtain rfl := Option.some.inj hu
    exact ht
  last u hu := by
    rw [List.getLast?_concat] at hu
    obtain rfl := Option.some.inj hu
    exact ht
  pending hnil := absurd (List.append_eq_nil_iff.1 hnil).2 (List.cons_ne_nil _ _)

theorem bump (hne : c.kind ≠ .eof) (ht : c.kind.isTrivia = false) : Edged c c.bump.1 c.bump.2 := by
  obtain ⟨t, r, hr, hk⟩ := exists_rest hne
  rw [← hk] at ht
  rw [bump_eq hr]
  exact past_skip ht _

theorem word {k : Kind} (hk : c.kind = k) (h : k ≠ .eof ∧ k.isTrivia = false) :
    Edged c c.bump.1 c.bump.2 :=
  bump (hk.trans_ne h.1) (hk ▸ h.2)

theorem close {k : Kind} (hk : k.isClosing) : Edged c (c.close k).1 (c.close k).2 := by
  unfold Cursor.close
  split
  · rename_i hkind
    refine word hkind ⟨Kind.ne_eof_of_isClosing hk, ?_⟩
    revert hk
    cases k <;> decide
  · exact missing (settled_skip rfl)

theorem looked (h : c.Settled) : Edged c [] (Expression.looked c) := by
  unfold Expression.looked
  split
  · exact ⟨⟨h.pending, h.current⟩, trivial, nofun, nofun, fun _ => rfl⟩
  · exact refl h

end Edged

end Cursor

namespace Expression

open Cursor (Edged Settled)

theorem edged_unexpected {c : Cursor} (hc : c.Settled) (hp : c.pending = []) :
    Edged c [(unexpected c).1] (unexpected c).2 := by
  unfold unexpected
  by_cases ha : c.atAnchor
  · rw [if_pos ha]
    exact .missing hc
  · rw [if_neg ha]
    have hne : c.kind ≠ .eof := fun hk => ha (by simp [Cursor.atAnchor, hk])
    have htrivia : c.kind.isTrivia = false :=
      hc.isTrivia_eq_false fun _ hk => ha (by simp [Cursor.atAnchor, hk])
    obtain ⟨t, r, hr, hk⟩ := Cursor.exists_rest hne
    rw [Cursor.take_eq hr]
    exact (Edged.past_skip (hk ▸ htrivia) _).node hp .error

/-- A line break that is passed stands in a bracket that was opened where the nesting ends, and there
it is trivia. -/
theorem edged_skipNested (fuel opened : Nat) (c : Cursor) (hc : c.Settled)
    (hle : opened ≤ c.depth) :
    Edged c (skipNested fuel opened c).1 (skipNested fuel opened c).2 := by
  fun_induction skipNested fuel opened c with
  | case1 => exact .refl hc
  | case2 => exact .refl hc
  | case3 fuel opened c k hk trees c₁ hb more c₂ hs ih =>
    simp only [Bool.or_eq_true, decide_eq_true_eq, Bool.and_eq_true, not_or, not_and] at hk
    obtain ⟨heof, hstop⟩ := hk
    have htrivia : c.kind.isTrivia = false :=
      hc.isTrivia_eq_false fun hdepth => (hstop (by omega)).1.2
    have hbump : Edged c c.bump.1 c.bump.2 := .bump heof htrivia
    have hdepth := Cursor.depth_bump heof
    rw [hb] at hbump hdepth
    have hmore := ih hbump.settled ((Cursor.depthAfter_mono hle k).trans_eq hdepth.symm)
    rw [hs] at hmore
    exact hbump.trans hmore

theorem edged_tooDeep {c : Cursor} (hc : c.Settled) (hp : c.pending = []) :
    Edged c [(tooDeep c).1] (tooDeep c).2 :=
  (edged_skipNested _ 0 c hc (Nat.zero_le _)).node hp .error

theorem edged_field {c : Cursor} (hc : c.Settled) : Edged c (field c).1 (field c).2 := by
  unfold field
  split
  · rename_i hk
    exact .word hk (by decide)
  · split
    · exact .missing hc
    · exact (edged_unexpected hc.flush rfl).lead (List.cons_ne_nil _ _)

def Goal.bare : Goal → Bool
  | operand _ | compared | items .. | slot .. | targets => false
  | _ => true

theorem Parses.edged {n : Nat} {g : Goal} {c c' : Cursor} {f : Forest} (h : Parses n g c f c')
    (hc : c.Settled) (hp : g.bare → c.pending = []) : Edged c f c' := by
  induction h with
  | tooDeep g c => exact edged_tooDeep hc (hp rfl)
  | nested h ih => exact ih hc fun _ => hp rfl
  | operand h ih => exact (ih hc.flush fun _ => rfl).lead (List.cons_ne_nil _ _)
  | unconditional h hif ih => exact ih hc hp
  | conditional body hif condition helse alternative ih ih₁ ih₂ =>
    have hbody := ih hc hp
    have hword : Edged _ _ _ := .word hif (by decide)
    have hcondition := ih₁ hword.settled nofun
    have hword' : Edged _ _ _ := .word helse (by decide)
    have halternative := ih₂ hword'.settled nofun
    exact ((((hbody.trans hword).trans hcondition).trans hword').trans halternative).node (hp rfl) _
  | withoutElse body hif condition helse ih ih₁ =>
    have hbody := ih hc hp
    have hword : Edged _ _ _ := .word hif (by decide)
    have hfront := (hbody.trans hword).trans (ih₁ hword.settled nofun)
    exact (hfront.trans (.missing hfront.settled)).node (hp rfl) _
  | join h hstop ih => exact ih hc hp
  | first h ih => exact ih hc fun _ => hp rfl
  | further left hop right ih ih₁ =>
    have hleft := ih hc hp
    have hword : Edged _ _ _ := .bump (Join.ne_eof hop)
      (Grammar.trivia_of_neutral (Grammar.neutral_of_joins hop))
    exact ((hleft.trans hword).trans (ih₁ hword.settled nofun)).node (hp rfl) _
  | uncompared h hstop ih => exact ih hc hp
  | comparison left hop more ih ih₁ =>
    have hleft := ih hc hp
    exact (hleft.trans (ih₁ hleft.settled nofun)).node (hp rfl) _
  | comparedEnd hstop => exact .refl hc
  | @comparedMore n c f c₁ g c₂ hop right more ih ih₁ =>
    have hword : Edged c.flush.2 _ _ := .bump (Kind.ne_eof_of_isComparison hop)
      (Grammar.trivia_of_neutral (Grammar.neutral_of_isComparison hop))
    have hright := ih hword.settled nofun
    have hmore := ih₁ hright.settled nofun
    exact (((hword.node rfl .comparisonOp).trans hright).lead (List.cons_ne_nil _ _)).trans hmore
  | unary hop h ih =>
    have hword : Edged _ _ _ := .bump (Unary.ne_eof hop)
      (Grammar.trivia_of_neutral (Grammar.neutral_of_starts hop))
    exact (hword.trans (ih hword.settled nofun)).node (hp rfl) _
  | noUnary hop h ih => exact ih hc fun _ => hp rfl
  | noPower h hop ih => exact ih hc hp
  | power base hop exponent ih ih₁ =>
    have hbase := ih hc hp
    have hword : Edged _ _ _ := .word hop (by decide)
    exact ((hbase.trans hword).trans (ih₁ hword.settled nofun)).node (hp rfl) _
  | primary h hparen hdot ih => exact ih hc hp
  | bare h ih => exact ih hc hp
  | call callee hparen arguments ih ih₁ =>
    have hcallee := ih hc hp
    exact (hcallee.trans (ih₁ hcallee.settled nofun)).node (hp rfl) _
  | member object hdot ih =>
    have hobject := ih hc hp
    have hword : Edged _ _ _ := .word hdot (by decide)
    exact ((hobject.trans hword).trans (edged_field hword.settled)).node (hp rfl) _
  | @literal n c t r hpending hrest hkind =>
    have htrivia := Grammar.trivia_of_neutral (Grammar.neutral_of_isLiteral hkind)
    have hword : Edged c _ _ := .past_skip (r := r) htrivia (Cursor.depthAfter c.depth t.kind)
    rw [hpending] at hword
    rw [Cursor.bump_eq hrest]
    exact hword
  | emptyTuple hopen hclose =>
    have hword : Edged _ _ _ := .word hopen (by decide)
    exact (hword.trans (.close rfl)).node (hp rfl) _
  | group hopen hclose inner hcomma ih =>
    have hword : Edged _ _ _ := .word hopen (by decide)
    have hinner := ih hword.settled nofun
    exact ((hword.trans hinner).trans (.close rfl)).node (hp rfl) _
  | tuple hopen hclose inner hcomma more ih ih₁ =>
    have hword : Edged _ _ _ := .word hopen (by decide)
    have hinner := ih hword.settled nofun
    have hcomma' : Edged _ _ _ := .word hcomma (by decide)
    have hmore := ih₁ hcomma'.settled nofun
    exact ((((hword.trans hinner).trans hcomma').trans hmore).trans (.close rfl)).node (hp rfl) _
  | list hopen h ih => exact ih hc hp
  | dict hopen h ih => exact ih hc hp
  | unexpected hliteral hopen => exact edged_unexpected hc (hp rfl)
  | @enclosed n kind close item c f c₁ hopen hclose h ih =>
    have hword : Edged c _ _ := .bump (Kind.ne_eof_of_isOpening hopen)
      (by revert hopen; cases c.kind <;> decide)
    have hitems := ih hword.settled nofun
    exact ((hword.trans hitems).trans (.close hclose)).node (hp rfl) _
  | itemsEnd hend => exact .refl hc
  | itemsLast hend h hcomma ih => exact ih hc nofun
  | itemsMore hend h hcomma more ih ih₁ =>
    have hslot := ih hc nofun
    have hword : Edged _ _ _ := .word hcomma (by decide)
    exact (hslot.trans hword).trans (ih₁ hword.settled nofun)
  | missingItem hcomma => exact .missing hc
  | item hcomma h ih => exact ih hc nofun
  | pair key hcolon value ih ih₁ =>
    have hkey := ih hc fun _ => hp rfl
    have hword : Edged _ _ _ := .word hcolon (by decide)
    exact ((hkey.trans hword).trans (ih₁ hword.settled nofun)).node (hp rfl) _
  | withoutColon key hcolon ih =>
    have hkey := ih hc fun _ => hp rfl
    exact (hkey.trans (.missing hkey.settled)).node (hp rfl) _
  | keyword hname value ih =>
    obtain ⟨hk, heq⟩ := startsNamed_iff.1 hname
    have hword : Edged _ _ _ := .word hk (by decide)
    have hword' : Edged _ _ _ := .word heq (by decide)
    exact ((hword.trans hword').trans (ih hword'.settled nofun)).node (hp rfl) _
  | positional hname value ih =>
    have hlooked : Edged _ _ _ := .looked hc
    exact hlooked.trans (ih hlooked.settled fun _ => (hlooked.pending rfl).trans (hp rfl))
  | misplaced hname value ih =>
    have hlooked : Edged _ _ _ := .looked hc
    have hvalue := ih hlooked.settled fun _ => (hlooked.pending rfl).trans (hp rfl)
    exact (hlooked.trans hvalue).node (hp rfl) _
  | targetsEnd hcomma => exact .refl hc
  | targetsTrailing hcomma hend => exact .word hcomma (by decide)
  | targetsMore hcomma hend target more ih ih₁ =>
    have hword : Edged _ _ _ := .word hcomma (by decide)
    have htarget := ih hword.settled nofun
    exact (hword.trans htarget).trans (ih₁ htarget.settled nofun)

end Expression

namespace Statement

open Cursor (Edged Settled)

theorem Body.tidy {c c' : Cursor} {k : Kind} {f : Forest} (h : Body c k f c')
    (hc : c.flush.2.Settled) : Forest.Tidy f ∧ (¬c'.atTerminator → c'.Settled) := by
  have hflush : Forest.Tidy c.flush.1 := Forest.licensed_map_tree _
  have htargets {t : Tree} {c₁ c₂ : Cursor} {f : Forest}
      (target : Parses maxNesting (.nested .whole) c.flush.2 [t] c₁)
      (more : Parses maxNesting .targets c₁ f c₂) :
      Edged c.flush.2 [.node .assignmentTargets (t :: f)] c₂ := by
    have htarget := target.edged hc fun _ => rfl
    exact (htarget.trans (more.edged htarget.settled nofun)).node rfl _
  cases h with
  | empty h => exact ⟨Forest.tidy_missing, fun hn => absurd h hn⟩
  | expression h expr hcomma heq =>
    cases expr with
    | operand expr =>
      have hexpr := expr.edged hc fun _ => rfl
      exact ⟨Forest.licensed_append.2 ⟨hflush, hexpr.tidy⟩, fun _ => hexpr.settled⟩
  | assignment h target hmore more heq value =>
    have hnode := htargets target more
    have hword : Edged _ _ _ := .word heq (by decide)
    have hvalue := value.edged hword.settled nofun
    have hwhole := (hnode.trans hword).trans hvalue
    exact ⟨Forest.licensed_append.2 ⟨hflush, hwhole.tidy⟩, fun _ => hwhole.settled⟩
  | unassigned h target hmore more heq =>
    have hnode := htargets target more
    have hmissing := hnode.trans (.missing hnode.settled)
    exact ⟨Forest.licensed_append.2 ⟨hflush, hmissing.tidy⟩, fun _ => hmissing.settled⟩

theorem getLast?_dropTrailing (ts : List Token) :
    ∀ t ∈ (Cursor.dropTrailing ts).getLast?, t.kind.isTrivia = false := by
  intro t ht
  have hnot := List.head?_dropWhile_not (fun t : Token => t.kind.isTrivia) ts.reverse
  rw [Cursor.dropTrailing, List.getLast?_reverse] at ht
  rw [ht] at hnot
  exact hnot

theorem head?_dropTrailing {ts : List Token} {t : Token}
    (h : (Cursor.dropTrailing ts).head? = some t) : ts.head? = some t := by
  rw [← (Cursor.append_drop_dropTrailing ts).1, List.head?_append, h, Option.some_or]

/-- The tokens that do not belong to a statement start with one that is no trivia, and the trivia at
their end is left out. -/
theorem tidy_junk {c : Cursor} (hc : c.Settled) (hterm : ¬c.atTerminator) :
    Forest.Tidy c.junk.1 := by
  refine Forest.licensed_append.2 ⟨Forest.licensed_map_tree _, ?_⟩
  refine Forest.licensed_node.2 ⟨fun _ => ⟨?_, ?_⟩, Forest.licensed_map_tree _⟩
  · rw [List.head?_map]
    intro t ht
    obtain ⟨u, hu, rfl⟩ := Option.map_eq_some_iff.1 ht
    have hfirst : c.rest.head? = some u := by
      have hrun := head?_dropTrailing hu
      rw [← List.takeWhile_append_dropWhile (p := fun t => !Cursor.ends c.depth t) (l := c.rest),
        List.head?_append, hrun, Option.some_or]
    obtain ⟨r, hr⟩ := List.head?_eq_some_iff.1 hfirst
    have htrivia : c.kind.isTrivia = false :=
      hc.isTrivia_eq_false fun _ hk => hterm (by simp [Cursor.atTerminator, hk])
    rwa [Cursor.kind_eq_of_rest hr] at htrivia
  · rw [List.getLast?_map]
    intro t ht
    obtain ⟨u, hu, rfl⟩ := Option.map_eq_some_iff.1 ht
    exact getLast?_dropTrailing _ u hu

theorem tidy_ending (c : Cursor) : Forest.Tidy (ending c).1 := by
  by_cases hk : c.kind = .newline ∨ c.kind = .semicolon
  · obtain ⟨t, r, -, -, hending⟩ := exists_ending hk
    rw [hending, show [t.tree] = [t].map Token.tree from rfl, ← List.map_append]
    exact Forest.licensed_map_tree _
  · rw [ending_eq_flush hk]
    exact Forest.licensed_map_tree _

theorem tidy_finish {c : Cursor} (hc : ¬c.atTerminator → c.Settled) : Forest.Tidy (finish c).1 := by
  unfold finish
  by_cases ht : c.atTerminator
  · simp only [ht, if_true, List.nil_append]
    exact tidy_ending c
  · simp only [ht, Bool.false_eq_true, if_false]
    exact Forest.licensed_append.2 ⟨tidy_junk (hc ht) ht, tidy_ending _⟩

theorem tidy_of_parse? {tokens rest : List Token} {first : Nat} {s : Statement}
    (h : parse? tokens first = some (s, rest)) : Forest.Tidy [s.tree] := by
  obtain ⟨hall, k, f, c, hb, rfl, rfl⟩ := exists_of_parse? h
  obtain ⟨hbody, hsettled⟩ := hb.tidy (settled_start hall)
  have hchildren := Forest.licensed_append.2 ⟨hbody, tidy_finish hsettled⟩
  refine Forest.licensed_node.2 ⟨fun hk => ?_, hchildren⟩
  rcases hb.isStatement with rfl | rfl <;> exact absurd hk (by decide)

theorem Sequence.tidy {tokens tail : List Token} {n : Nat} {ss : List Statement}
    (h : Sequence tokens n ss tail) : Forest.Tidy [programTree (ss.map Statement.tree) tail] := by
  refine Forest.licensed_node.2 ⟨fun h => absurd h (by decide), ?_⟩
  refine Forest.licensed_append.2 ⟨?_, Forest.licensed_map_tree _⟩
  induction h with
  | done h => trivial
  | step h more ih =>
    rw [List.map_cons, ← List.singleton_append]
    exact Forest.licensed_append.2 ⟨tidy_of_parse? h, ih⟩

end Statement

namespace Document

theorem Current.tidy {d : Document} (h : d.Current) : Forest.Tidy [d.tree] := by
  obtain ⟨tail, hseq, htree⟩ := h.sequence
  rw [htree]
  exact hseq.tidy

/-- Whatever the text is, trivia stands between nodes: but for the script and its statements, no
node begins or ends with whitespace, a line break or a comment. -/
theorem parse_trimmed (s : Text) : ∀ x ∈ (parse s).tree.sites, x.tree.isNode →
    x.kind ≠ .program → x.kind ≠ .assignment → x.kind ≠ .expressionStatement →
      ∀ t, x.tree.children.head? = some t ∨ x.tree.children.getLast? = some t →
        t.isTrivia = false := by
  intro x hx hnode hprogram hassignment hexpression
  have htidy := (Forest.licensed_iff.1 (parse_current s).tidy) _ List.mem_cons_self
  have howns : x.kind.ownsTrivia = false := by
    unfold Kind.ownsTrivia
    split <;> simp_all
  obtain ⟨hfirst, hlast⟩ := Tree.licensed_sitesFrom _ htidy 0 [] 0 x hx hnode howns
  intro t ht
  rcases ht with ht | ht
  · exact hfirst t ht
  · exact hlast t ht

/-- The operand behind a comment and a line break is missing, and its mark stands behind them. -/
theorem parse_trimmed_unclosed :
    let s : Text := "f( a * # c\n ; y".toList
    ∃ x ∈ (parse s).tree.sites, x.tree.isNode ∧ x.kind = .binaryExpression ∧
      x.tree.children.length = 8 ∧ (x.tree.children.filter Tree.isTrivia).length = 5 ∧
        ∀ t, x.tree.children.head? = some t ∨ x.tree.children.getLast? = some t →
          t.isTrivia = false := by
  intro s
  obtain ⟨x, hx, hnode, hk, hlength, htrivia⟩ : ∃ x ∈ (parse s).tree.sites, x.tree.isNode ∧
      x.kind = .binaryExpression ∧ x.tree.children.length = 8 ∧
        (x.tree.children.filter Tree.isTrivia).length = 5 := by
    decide +kernel
  refine ⟨x, hx, hnode, hk, hlength, htrivia, ?_⟩
  exact parse_trimmed s x hx hnode (hk.trans_ne (by decide)) (hk.trans_ne (by decide))
    (hk.trans_ne (by decide))

end Document

end ScriptTree
