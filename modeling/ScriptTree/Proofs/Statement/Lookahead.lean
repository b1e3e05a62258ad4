import ScriptTree.Proofs.Document.History

namespace ScriptTree

namespace Cursor

/-- Behind the current token only trivia was examined, and one token after it; the first `j` tokens
aside, of which nothing is said. -/
structure Near (j : Nat) (c : Cursor) : Prop extends c.Ready where
  seen : ∀ k, j ≤ k → c.taken + k + 1 < c.examined → ∃ t ∈ c.rest[k]?, t.kind.isTrivia

theorem Near.mono {i j : Nat} {c : Cursor} (h : c.Near i) (hij : i ≤ j) : c.Near j :=
  ⟨h.toReady, fun k hk => h.seen k (hij.trans hk)⟩

theorem Near.weaken {c : Cursor} (h : c.Near 0) : c.Near 1 := h.mono (by omega)

theorem Near.flush {j : Nat} {c : Cursor} (h : c.Near j) : c.flush.2.Near j :=
  ⟨(c.flush_moves.ready h.toReady).1, h.seen⟩

theorem seen_passWhile {c : Cursor} (p : Token → Bool)
    (h : ∀ k, c.taken + k + 1 < c.examined → ∃ t ∈ c.rest[k]?, t.kind.isTrivia) (k : Nat)
    (hk : (c.passWhile p).taken + k + 1 < (c.passWhile p).examined) :
    ∃ t ∈ (c.passWhile p).rest[k]?, t.kind.isTrivia := by
  simp only [passWhile] at hk ⊢
  obtain ⟨t, ht, htrivia⟩ := h ((c.rest.takeWhile p).length + k) (by omega)
  refine ⟨t, ?_, htrivia⟩
  have hsplit := List.takeWhile_append_dropWhile (p := p) (l := c.rest)
  generalize c.rest.takeWhile p = run at hsplit ht
  rwa [← hsplit, List.getElem?_append_right (by omega), Nat.add_sub_cancel_left] at ht

theorem Near.past_skip {c : Cursor} (h : c.Near 1) {t : Token} {r : List Token}
    (hr : c.rest = t :: r) (d : Nat) : (c.past d r).skip.Near 0 := by
  refine ⟨((past_skip_moves hr d).ready h.toReady).1, fun k _ => seen_passWhile _ ?_ k⟩
  intro k hk
  have hseen := h.seen (k + 1) (by omega) (by simp only [past] at hk; omega)
  rwa [hr, List.getElem?_cons_succ] at hseen

theorem Near.bump {c : Cursor} (h : c.Near 1) (hne : c.kind ≠ .eof) : c.bump.2.Near 0 := by
  obtain ⟨t, r, hr, -⟩ := exists_rest hne
  rw [bump_eq hr]
  exact h.past_skip hr _

theorem Near.reread {c : Cursor} (h : c.Near 0) (d : Nat) : (c.reread d).Near 0 := by
  refine ⟨((c.reread_moves d).ready h.toReady).1, fun k _ => seen_passWhile _ ?_ k⟩
  intro k hk
  have hle := h.pending_le
  dsimp only at hk ⊢
  by_cases hlt : k < c.pending.length
  · rw [List.getElem?_append_left hlt, List.getElem?_eq_getElem hlt]
    exact ⟨_, rfl, h.trivia _ (List.getElem_mem hlt)⟩
  · rw [List.getElem?_append_right (by omega)]
    exact h.seen _ (by omega) (by omega)

theorem Near.close {c : Cursor} (h : c.Near 0) {k : Kind} (hk : k ≠ .eof) :
    (c.close k).2.Near 0 := by
  unfold Cursor.close
  split
  · rename_i hkind
    exact h.weaken.bump (hkind.trans_ne hk)
  · exact h.reread _

/-- A look for an equals sign sees past the name and the trivia behind it. -/
theorem Near.peek {c : Cursor} (h : c.Near 1) : c.peek.2.Near 1 := by
  refine ⟨(c.peek_moves.ready h.toReady).1, fun k hk hlt => ?_⟩
  simp only [Cursor.peek] at hlt ⊢
  by_cases hrun : k - 1 < (c.rest.tail.takeWhile (skips c.depth)).length
  · refine ⟨_, ?_, isTrivia_of_skips (List.mem_takeWhile_imp (List.getElem_mem hrun))⟩
    have hget : c.rest.tail[k - 1]? = some ((c.rest.tail.takeWhile (skips c.depth))[k - 1]) := by
      rw [← List.getElem?_eq_getElem hrun]
      conv_lhs => rw [← List.takeWhile_append_dropWhile (p := skips c.depth) (l := c.rest.tail)]
      exact List.getElem?_append_left hrun
    rwa [List.getElem?_tail, Nat.sub_add_cancel hk] at hget
  · exact h.seen k hk (by omega)

theorem Near.junk {c : Cursor} (h : c.Near 0) : c.junk.2.Near 0 :=
  ⟨(c.junk_moves.ready h.toReady).1,
    fun k _ => seen_passWhile _ (fun k hk => h.seen k (Nat.zero_le k) hk) k⟩

theorem start_near (tokens : List Token) : (start tokens).Near 0 :=
  ⟨(start_ready tokens).1, fun k _ => seen_passWhile _ (fun k hk => absurd hk (by simp)) k⟩

end Cursor

namespace Expression

open Cursor (Near)

theorem near_unexpected {c : Cursor} (h : c.Near 1) (h' : c.atAnchor → c.Near 0) :
    (unexpected c).2.Near 0 := by
  unfold unexpected
  split
  · rename_i hanchor
    exact h' hanchor
  · rename_i hanchor
    have hne : c.kind ≠ .eof := by
      intro heof
      simp [Cursor.atAnchor, heof] at hanchor
    obtain ⟨t, r, hr, -⟩ := Cursor.exists_rest hne
    rw [Cursor.take_eq hr]
    exact h.past_skip hr _

theorem near_field {c : Cursor} (h : c.Near 0) : (field c).2.Near 0 := by
  unfold field
  split
  · rename_i hname
    exact h.weaken.bump (hname.trans_ne (by decide))
  · split
    · exact h
    · exact near_unexpected h.flush.weaken fun _ => h.flush

theorem near_skipNested {fuel opened : Nat} {c : Cursor} (h : c.Near 0) :
    (skipNested fuel opened c).2.Near 0 := by
  fun_induction skipNested fuel opened c with
  | case1 => exact h
  | case2 => exact h
  | case3 fuel opened c k hk trees c₁ hb more c₂ hs ih =>
    have hne : c.kind ≠ .eof := by
      intro he
      simp [k, he] at hk
    have hbump := h.weaken.bump hne
    rw [hb] at hbump
    rw [hs] at ih
    exact ih hbump

/-- A name is not where the nested part ends, so it is taken even where nothing else is known of the
tokens behind it. -/
theorem near_tooDeep {c : Cursor} (h : c.Near 1) (h' : c.kind ≠ .identifier → c.Near 0) :
    (tooDeep c).2.Near 0 := by
  by_cases hname : c.kind = .identifier
  · obtain ⟨t, r, hr, -⟩ := Cursor.exists_rest (hname.trans_ne (by decide))
    have hbump := h.bump (hname.trans_ne (by decide))
    simp only [tooDeep, hr, List.length_cons, skipNested, hname]
    exact near_skipNested hbump
  · exact near_skipNested (h' hname)

/-- What a goal needs to be known of the tokens examined before it: behind a name that was looked past
for an equals sign, nothing of the token next to it. -/
structure Goal.Sighted (g : Goal) (c : Cursor) : Prop where
  near_one : c.Near 1
  near : g.single = false ∨ c.kind ≠ .identifier → c.Near 0

namespace Goal.Sighted

variable {g g' : Goal} {c : Cursor}

theorem of_near (h : c.Near 0) : g.Sighted c := ⟨h.weaken, fun _ => h⟩

theorem single (h : g.Sighted c) (hg : g'.single) : g'.Sighted c :=
  ⟨h.near_one, fun hne => h.near (hne.imp_left (by simp [hg]))⟩

theorem bump (h : g.Sighted c) (hne : c.kind ≠ .eof) : g'.Sighted c.bump.2 :=
  of_near (h.near_one.bump hne)

theorem near_of_kind (h : g.Sighted c) (hk : c.kind ≠ .identifier) : c.Near 0 := h.near (.inr hk)

theorem looked (h : g.Sighted c) : (Goal.nested .whole).Sighted (looked c) := by
  unfold Expression.looked
  split
  · rename_i hname
    exact ⟨h.near_one.peek, fun hne => absurd hname (hne.resolve_left (by decide))⟩
  · rename_i hname
    exact of_near (h.near_of_kind hname)

end Goal.Sighted

open Goal (Sighted)

/-- Parsing leaves nothing examined but trivia and one token behind it. -/
theorem Parses.near {n : Nat} {g : Goal} {c c' : Cursor} {f : Forest} (h : Parses n g c f c')
    (hc : g.Sighted c) : c'.Near 0 := by
  induction h with
  | tooDeep g c => exact near_tooDeep hc.near_one hc.near_of_kind
  | nested h ih => exact ih ⟨hc.near_one, hc.near⟩
  | operand h ih => exact ih (.of_near (hc.near (.inl rfl)).flush)
  | unconditional h hif ih => exact ih (hc.single rfl)
  | conditional body hif condition helse alternative ih ih₁ ih₂ =>
    have hbump := (ih (hc.single rfl)).weaken.bump (hif.trans_ne (by decide))
    have hbump' := (ih₁ (.of_near hbump)).weaken.bump (helse.trans_ne (by decide))
    exact ih₂ (.of_near hbump')
  | withoutElse body hif condition helse ih ih₁ =>
    exact ih₁ (.of_near ((ih (hc.single rfl)).weaken.bump (hif.trans_ne (by decide))))
  | join h hstop ih => exact ih (hc.single rfl)
  | @first n j c t c' h ih => exact ih (hc.single j.single_operand)
  | further left hop right ih ih₁ =>
    exact ih₁ (.of_near ((ih (hc.single rfl)).weaken.bump (Join.ne_eof hop)))
  | uncompared h hstop ih => exact ih (hc.single rfl)
  | comparison left hop more ih ih₁ => exact ih₁ (.of_near (ih (hc.single rfl)))
  | comparedEnd hstop => exact hc.near (.inl rfl)
  | comparedMore hop right more ih ih₁ =>
    have hflush := (hc.near (.inl rfl)).flush
    have hright := ih (.of_near (hflush.weaken.bump (Kind.ne_eof_of_isComparison hop)))
    exact ih₁ (.of_near hright)
  | unary hop h ih => exact ih (hc.bump (Unary.ne_eof hop))
  | @noUnary n u c t c' hop h ih => exact ih (hc.single u.single_below)
  | noPower h hop ih => exact ih (hc.single rfl)
  | power base hop exponent ih ih₁ =>
    exact ih₁ (.of_near ((ih (hc.single rfl)).weaken.bump (hop.trans_ne (by decide))))
  | primary h hparen hdot ih => exact ih (hc.single rfl)
  | bare h ih => exact ih (hc.single rfl)
  | call callee hparen arguments ih ih₁ => exact ih₁ (.of_near (ih (hc.single rfl)))
  | member object hdot ih =>
    exact near_field ((ih (hc.single rfl)).weaken.bump (hdot.trans_ne (by decide)))
  | @literal n c t r hpending hrest hkind =>
    rw [Cursor.bump_eq hrest]
    exact hc.near_one.past_skip hrest _
  | emptyTuple hopen hclose =>
    exact (hc.near_one.bump (hopen.trans_ne (by decide))).close (by decide)
  | group hopen hclose inner hcomma ih =>
    exact (ih (hc.bump (hopen.trans_ne (by decide)))).close (by decide)
  | tuple hopen hclose inner hcomma more ih ih₁ =>
    have hinner := ih (hc.bump (hopen.trans_ne (by decide)))
    have hmore := ih₁ (.of_near (hinner.weaken.bump (hcomma.trans_ne (by decide))))
    exact hmore.close (by decide)
  | list hopen h ih => exact ih (hc.single rfl)
  | dict hopen h ih => exact ih (hc.single rfl)
  | @unexpected n c hliteral hopen =>
    refine near_unexpected hc.near_one fun hanchor => hc.near_of_kind ?_
    rintro hname
    simp [hname, Kind.isLiteral] at hliteral
  | enclosed hopen hclose h ih =>
    exact (ih (hc.bump (Kind.ne_eof_of_isOpening hopen))).close (Kind.ne_eof_of_isClosing hclose)
  | itemsEnd hend => exact hc.near (.inl rfl)
  | itemsLast hend h hcomma ih => exact ih (.of_near (hc.near (.inl rfl)))
  | itemsMore hend h hcomma more ih ih₁ =>
    have hitem := ih (.of_near (hc.near (.inl rfl)))
    exact ih₁ (.of_near (hitem.weaken.bump (hcomma.trans_ne (by decide))))
  | missingItem hcomma => exact hc.near (.inl rfl)
  | item hcomma h ih => exact ih (.of_near (hc.near (.inl rfl)))
  | pair key hcolon value ih ih₁ =>
    exact ih₁ (.of_near ((ih (hc.single rfl)).weaken.bump (hcolon.trans_ne (by decide))))
  | withoutColon key hcolon ih => exact ih (hc.single rfl)
  | keyword hname value ih =>
    obtain ⟨hname, heq⟩ := startsNamed_iff.1 hname
    have hbump := hc.near_one.bump (hname.trans_ne (by decide))
    exact ih (.of_near (hbump.weaken.bump (heq.trans_ne (by decide))))
  | positional hname value ih => exact ih hc.looked
  | misplaced hname value ih => exact ih hc.looked
  | targetsEnd hcomma => exact hc.near (.inl rfl)
  | targetsTrailing hcomma hend => exact hc.near_one.bump (hcomma.trans_ne (by decide))
  | targetsMore hcomma hend target more ih ih₁ =>
    exact ih₁ (.of_near (ih (hc.bump (hcomma.trans_ne (by decide)))))

end Expression

namespace Statement

open Expression (Goal)

theorem Body.near {c c' : Cursor} {k : Kind} {f : Forest} (h : Body c k f c') (hc : c.Near 0) :
    c'.Near 0 := by
  cases h with
  | empty h => exact hc
  | expression h expr hcomma heq => exact expr.near (.of_near hc)
  | assignment h target hmore more heq value =>
    have htargets := more.near (.of_near (target.near (.of_near hc.flush)))
    exact value.near (.of_near (htargets.weaken.bump (heq.trans_ne (by decide))))
  | unassigned h target hmore more heq =>
    exact more.near (.of_near (target.near (.of_near hc.flush)))

theorem seen_ending {c : Cursor} (h : c.Near 0) (k : Nat)
    (hk : (ending c).2.taken + k + 1 < (ending c).2.examined) :
    ∃ t ∈ (ending c).2.rest[k]?, t.kind.isTrivia := by
  by_cases hend : c.kind = .newline ∨ c.kind = .semicolon
  · obtain ⟨t, r, hr, -, hending⟩ := exists_ending hend
    rw [hending] at hk ⊢
    simp only [Cursor.past] at hk ⊢
    have hseen := h.seen (k + 1) (by omega) (by omega)
    rwa [hr, List.getElem?_cons_succ] at hseen
  · rw [ending_eq_flush hend] at hk ⊢
    exact h.seen k (by omega) hk

theorem seen_finish {c : Cursor} (h : c.Near 0) (k : Nat)
    (hk : (finish c).2.taken + k + 1 < (finish c).2.examined) :
    ∃ t ∈ (finish c).2.rest[k]?, t.kind.isTrivia := by
  unfold finish at hk ⊢
  by_cases hterm : c.atTerminator
  · simp only [hterm, if_true] at hk ⊢
    exact seen_ending h k hk
  · simp only [hterm, Bool.false_eq_true, if_false] at hk ⊢
    exact seen_ending h.junk k hk

/-- What a statement examined behind its last token is trivia, and one token after it. -/
theorem isTrivia_of_examined {tokens rest : List Token} {first : Nat} {s : Statement}
    (h : parse? tokens first = some (s, rest)) {k : Nat} (hk : s.count ≤ k)
    (hlt : k + 1 < s.examined) : ∃ t ∈ tokens[k]?, t.kind.isTrivia := by
  have hdrop := drop_of_parse? h
  obtain ⟨-, kind, f, c, hb, rfl, rfl⟩ := exists_of_parse? h
  dsimp only at hk hlt hdrop
  have hseen := seen_finish (hb.near (Cursor.start_near tokens)) (k - (finish c).2.taken) (by omega)
  rwa [← hdrop, List.getElem?_drop, Nat.add_sub_cancel' hk] at hseen

/-- A statement examines no more than the next one, which has a token that is no trivia. -/
theorem examined_le_of_parse? {tokens rest rest' : List Token} {n n' : Nat} {s s' : Statement}
    (heof : ∀ t ∈ tokens, t.kind ≠ .eof) (h : parse? tokens n = some (s, rest))
    (h' : parse? rest n' = some (s', rest')) : s.examined ≤ s.count + s'.examined := by
  have hrest := (length_rest_lt_of_parse? heof h).2
  have hdrop := drop_of_parse? h
  obtain ⟨-, ts, hts, howns⟩ := owns_of_parse? hrest h'
  obtain ⟨t, ht, hsignificant⟩ := howns.significant
  obtain ⟨j, hj, rfl⟩ := List.getElem_of_mem ht
  have hcount := howns.count
  have hexamined := howns.examined
  by_contra hlt
  obtain ⟨u, hu, htrivia⟩ :=
    isTrivia_of_examined h (k := s.count + j) (by omega) (by omega)
  rw [← List.getElem?_drop, hdrop, hts, List.getElem?_append_left hj,
    List.getElem?_eq_getElem hj] at hu
  obtain rfl := Option.some.inj hu
  rw [hsignificant] at htrivia
  exact absurd htrivia (by simp)

/-- The ends of what statements one after another examined are in order. -/
theorem Sequence.examined_pairwise {tokens tail : List Token} {n : Nat} {ss : List Statement}
    (h : Sequence tokens n ss tail) (heof : ∀ t ∈ tokens, t.kind ≠ .eof) :
    ss.Pairwise fun s s' => s.first + s.examined ≤ s'.first + s'.examined := by
  induction h with
  | done h => exact .nil
  | @step tokens n s rest ss tail h more ih =>
    have hrest := (length_rest_lt_of_parse? heof h).2
    have hss := ih hrest
    refine List.pairwise_cons.2 ⟨?_, hss⟩
    cases more with
    | done h' => simp
    | @step _ _ s' rest' ss' _ h' more =>
      have hfirst := (owns_of_parse? heof h).1
      have hfirst' := (owns_of_parse? hrest h').1
      have hle := examined_le_of_parse? heof h h'
      intro x hx
      rcases List.mem_cons.1 hx with rfl | hx
      · omega
      · have hnext : s'.first + s'.examined ≤ x.first + x.examined :=
          List.rel_of_pairwise_cons hss hx
        omega

end Statement

namespace Document

theorem Current.examined_pairwise {d : Document} (h : d.Current) :
    d.statements.Pairwise fun s s' => s.first + s.examined ≤ s'.first + s'.examined := by
  obtain ⟨tail, hseq, -⟩ := h.sequence
  exact hseq.examined_pairwise fun t ht => Lexer.kind_ne_eof_of_mem_tokens ht

/-- Wherever a statement is parsed among whatever tokens, those it examined and does not own are
trivia, but for the last one, which may be any token or the end of the tokens. So the examined ends of
the statements of a text are in order. -/
theorem lookahead_bounded :
    (∀ (ts : List Token) (i : Nat) (s : Statement) (rest : List Token),
      Statement.parse? (ts.drop i) i = some (s, rest) →
        ∀ k, s.count ≤ k → k + 1 < s.examined → ∃ t ∈ ts[i + k]?, t.kind.isTrivia) ∧
      ∀ text : Text, (parse text).statements.Pairwise fun s s' =>
        s.first + s.examined ≤ s'.first + s'.examined := by
  refine ⟨?_, fun text => (parse_current text).examined_pairwise⟩
  intro ts i s rest h k hk hlt
  rw [← List.getElem?_drop]
  exact Statement.isTrivia_of_examined h hk hlt

end Document

end ScriptTree
