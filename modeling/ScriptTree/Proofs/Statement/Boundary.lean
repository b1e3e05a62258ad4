import ScriptTree.Proofs.Document.Partition
import ScriptTree.Proofs.Statement.Limit

namespace ScriptTree

open Expression (Goal Parses Reaches maxNesting)

mutual

/-- The tokens of a tree from left to right, each with whether it stands inside a bracketed node. The
whole tree may do so. -/
def Tree.marked (inside : Bool) : Tree → List (Word × Bool)
  | .token k s => [((k, s), inside)]
  | .node k ts => Forest.marked (inside || k.isBracketed) ts

def Forest.marked (inside : Bool) : Forest → List (Word × Bool)
  | [] => []
  | t :: ts => t.marked inside ++ Forest.marked inside ts

end

namespace Forest

@[simp] theorem marked_nil (inside : Bool) : marked inside [] = [] := by rw [marked]

@[simp] theorem marked_cons (inside : Bool) (t : Tree) (ts : Forest) :
    marked inside (t :: ts) = t.marked inside ++ marked inside ts := by
  rw [marked]

@[simp] theorem marked_append (inside : Bool) (ts us : Forest) :
    marked inside (ts ++ us) = marked inside ts ++ marked inside us := by
  induction ts with
  | nil => simp
  | cons t ts ih => simp [ih]

@[simp] theorem marked_map_tree (inside : Bool) (ts : List Token) :
    marked inside (ts.map Token.tree) = ts.map fun t => (t.word, inside) := by
  induction ts with
  | nil => simp
  | cons t ts ih => simp [ih, Token.tree, Tree.marked, Token.word]

end Forest

@[simp] theorem Tree.marked_node (inside : Bool) (k : Kind) (ts : Forest) :
    (Tree.node k ts).marked inside = Forest.marked (inside || k.isBracketed) ts := by
  rw [Tree.marked]

mutual

theorem Tree.map_fst_marked (inside : Bool) (t : Tree) :
    (t.marked inside).map Prod.fst = t.yield := by
  cases t with
  | token k s => simp [Tree.marked, Tree.yield]
  | node k ts =>
    rw [Tree.marked, Tree.yield]
    exact Forest.map_fst_marked _ ts

theorem Forest.map_fst_marked (inside : Bool) (ts : Forest) :
    (Forest.marked inside ts).map Prod.fst = Forest.yield ts := by
  cases ts with
  | nil => simp
  | cons t ts => simp [Tree.map_fst_marked inside t, Forest.map_fst_marked inside ts]

end

mutual

theorem Tree.snd_of_mem_marked (t : Tree) {w : Word × Bool} (h : w ∈ t.marked true) : w.2 := by
  cases t with
  | token k s => simp_all [Tree.marked]
  | node k ts =>
    rw [Tree.marked, Bool.true_or] at h
    exact Forest.snd_of_mem_marked ts h

theorem Forest.snd_of_mem_marked (ts : Forest) {w : Word × Bool} (h : w ∈ Forest.marked true ts) :
    w.2 := by
  cases ts with
  | nil => simp at h
  | cons t ts =>
    rw [Forest.marked_cons, List.mem_append] at h
    exact h.elim (Tree.snd_of_mem_marked t) (Forest.snd_of_mem_marked ts)

end

/-! ### Trees that end no statement -/

/-- Trees made at a bracket depth without a token that ends a statement there. -/
structure Forest.Contained (depth : Nat) (f : Forest) : Prop where
  semicolon : ∀ w ∈ Forest.yield f, w.1 ≠ .semicolon
  newline : depth = 0 → ∀ w ∈ Forest.marked false f, w.1.1 = .newline → w.2

namespace Forest.Contained

variable {n : Nat} {f g : Forest}

theorem nil : Forest.Contained n [] := ⟨by simp, by simp⟩

theorem append (hf : Forest.Contained n f) (hg : Forest.Contained n g) :
    Forest.Contained n (f ++ g) where
  semicolon w hw := by
    rw [Forest.yield_append, List.mem_append] at hw
    exact hw.elim (hf.semicolon w) (hg.semicolon w)
  newline hn w hw := by
    rw [Forest.marked_append, List.mem_append] at hw
    exact hw.elim (hf.newline hn w) (hg.newline hn w)

theorem bracketed {k : Kind} (hk : k.isBracketed) (hf : ∀ w ∈ Forest.yield f, w.1 ≠ .semicolon) :
    Forest.Contained n [.node k f] where
  semicolon w hw := hf w (by simpa using hw)
  newline _ w hw _ := by
    rw [Forest.marked_cons, Tree.marked_node, hk, Bool.or_true, Forest.marked_nil,
      List.append_nil] at hw
    exact Forest.snd_of_mem_marked f hw

theorem node (k : Kind) (hf : Forest.Contained n f) : Forest.Contained n [.node k f] := by
  cases hk : k.isBracketed with
  | true => exact bracketed hk hf.semicolon
  | false =>
    refine ⟨fun w hw => hf.semicolon w (by simpa using hw), fun hn w hw => hf.newline hn w ?_⟩
    simpa [hk] using hw

theorem missing : Forest.Contained n [.missing] := nil.node .error

theorem tokens {l : List Token} (hsemicolon : ∀ t ∈ l, t.kind ≠ .semicolon)
    (hnewline : n = 0 → ∀ t ∈ l, t.kind ≠ .newline) : Forest.Contained n (l.map Token.tree) where
  semicolon w hw := by
    rw [Forest.yield_map_tree, List.mem_map] at hw
    obtain ⟨t, ht, rfl⟩ := hw
    exact hsemicolon t ht
  newline hn w hw hk := by
    rw [Forest.marked_map_tree, List.mem_map] at hw
    obtain ⟨t, ht, rfl⟩ := hw
    exact absurd hk (hnewline hn t ht)

end Forest.Contained

/-! ### Steps that keep the depth -/

def Kind.isPlain (k : Kind) : Bool :=
  !k.isOpening && !k.isClosing && k != .newline && k != .semicolon && k != .eof

namespace Kind

theorem ne_eof_of_isPlain {k : Kind} (h : k.isPlain) : k ≠ .eof := by
  rintro rfl
  exact absurd h (by decide)

theorem isPlain_of_joins {j : Expression.Join} {k : Kind} (h : j.joins k) : k.isPlain := by
  revert h
  cases j <;> cases k <;> decide

theorem isPlain_of_starts {u : Expression.Unary} {k : Kind} (h : u.starts k) : k.isPlain := by
  revert h
  cases u <;> cases k <;> decide

theorem isPlain_of_isComparison {k : Kind} (h : k.isComparison) : k.isPlain := by
  revert h
  cases k <;> decide

theorem isPlain_of_isLiteral {k : Kind} (h : k.isLiteral) : k.isPlain := by
  revert h
  cases k <;> decide

end Kind

namespace Cursor

/-- All that is kept back is passed over at this depth, and the current token is not. -/
structure Settled (c : Cursor) : Prop where
  pending : ∀ t ∈ c.pending, skips c.depth t
  current : ∀ t r, c.rest = t :: r → skips c.depth t = false

/-- The depth is kept, and the trees that are made end no statement. -/
structure Keeps (c : Cursor) (f : Forest) (c' : Cursor) : Prop where
  depth : c'.depth = c.depth
  settled : c.Settled → c'.Settled
  contained : c.Settled → Forest.Contained c.depth f

theorem settled_skip {c : Cursor} (h : c.pending = []) : c.skip.Settled where
  pending t ht := by
    simp only [skip, passWhile, h, List.nil_append] at ht
    exact List.mem_takeWhile_imp ht
  current t r hr := by
    have hr' : c.rest.dropWhile (skips c.depth) = t :: r := hr
    have hhead := List.head_dropWhile_not (skips c.depth) (l := c.rest) (by rw [hr']; simp)
    simp only [hr', List.head_cons] at hhead
    exact hhead

theorem Settled.flush {c : Cursor} (h : c.Settled) : c.flush.2.Settled :=
  ⟨by simp [Cursor.flush], h.current⟩

/-- Only a line break outside of all brackets is trivia where a cursor has settled. -/
theorem Settled.isTrivia_eq_false {c : Cursor} (h : c.Settled)
    (hne : c.depth = 0 → c.kind ≠ .newline) : c.kind.isTrivia = false := by
  by_cases heof : c.kind = .eof
  · rw [heof]
    rfl
  · obtain ⟨t, r, hr, hk⟩ := exists_rest heof
    have hskips := h.current t r hr
    rw [← hk] at hne ⊢
    unfold skips at hskips
    split at hskips
    · rename_i hnewline
      exact absurd hnewline (hne (by simpa using hskips))
    · exact hskips

theorem contained_pending {c : Cursor} (h : c.Settled) :
    Forest.Contained c.depth (c.pending.map Token.tree) := by
  refine .tokens (fun t ht hk => ?_) (fun hn t ht hk => ?_)
  · have htrivia := isTrivia_of_skips (h.pending t ht)
    rw [hk] at htrivia
    exact absurd htrivia (by decide)
  · have hskips := h.pending t ht
    rw [skips, if_pos hk, hn] at hskips
    exact absurd hskips (by decide)

theorem ne_semicolon_of_mem_taken {c : Cursor} (hc : c.Settled) {t : Token}
    (ht : t.kind ≠ .semicolon) :
    ∀ w ∈ Forest.yield (c.pending.map Token.tree ++ [t.tree]), w.1 ≠ .semicolon := by
  intro w hw
  rw [Forest.yield_append, List.mem_append] at hw
  rcases hw with hw | hw
  · exact (contained_pending hc).semicolon w hw
  · obtain rfl : w = t.word := by simpa using hw
    exact ht

theorem bump_of_isOpening {c : Cursor} (h : c.kind.isOpening) :
    c.bump.2.Settled ∧ c.bump.2.depth = c.depth + 1 ∧
      (c.Settled → ∀ w ∈ Forest.yield c.bump.1, w.1 ≠ .semicolon) := by
  obtain ⟨t, r, hr, ht⟩ := exists_rest (Kind.ne_eof_of_isOpening h)
  rw [← ht] at h
  have hsemicolon : t.kind ≠ .semicolon := fun hk => by simp [hk, Kind.isOpening] at h
  rw [bump_eq hr]
  refine ⟨settled_skip rfl, ?_, fun hc => ne_semicolon_of_mem_taken hc hsemicolon⟩
  simp [skip, passWhile, past, depthAfter, h]

/-- Behind a closing bracket the depth is one less, whether the bracket is there or not. -/
theorem close_of_isClosing {c : Cursor} {k : Kind} (h : k.isClosing) :
    (c.close k).2.Settled ∧ (c.close k).2.depth = c.depth - 1 ∧
      (c.Settled → ∀ w ∈ Forest.yield (c.close k).1, w.1 ≠ .semicolon) := by
  unfold close
  by_cases hk : c.kind = k
  · obtain ⟨t, r, hr, ht⟩ := exists_rest (hk.trans_ne (Kind.ne_eof_of_isClosing h))
    rw [← hk, ← ht] at h
    have hopening : t.kind.isOpening = false := by
      revert h
      cases t.kind <;> decide
    have hsemicolon : t.kind ≠ .semicolon := fun hk => by simp [hk, Kind.isClosing] at h
    rw [if_pos hk, bump_eq hr]
    refine ⟨settled_skip rfl, ?_, fun hc => ne_semicolon_of_mem_taken hc hsemicolon⟩
    simp [skip, passWhile, past, depthAfter, hopening, h]
  · rw [if_neg hk]
    exact ⟨settled_skip rfl, rfl, fun _ => by simp⟩

namespace Keeps

variable {c c₁ c₂ : Cursor} {f g : Forest}

theorem refl (c : Cursor) : Keeps c [] c := ⟨rfl, id, fun _ => .nil⟩

theorem trans (h : Keeps c f c₁) (h' : Keeps c₁ g c₂) : Keeps c (f ++ g) c₂ where
  depth := h'.depth.trans h.depth
  settled hc := h'.settled (h.settled hc)
  contained hc := (h.contained hc).append (h.depth ▸ h'.contained (h.settled hc))

theorem node (h : Keeps c f c₁) (k : Kind) : Keeps c [.node k f] c₁ :=
  ⟨h.depth, h.settled, fun hc => (h.contained hc).node k⟩

theorem missing (h : Keeps c f c₁) : Keeps c (f ++ [.missing]) c₁ :=
  ⟨h.depth, h.settled, fun hc => (h.contained hc).append .missing⟩

theorem flush (c : Cursor) : Keeps c c.flush.1 c.flush.2 :=
  ⟨rfl, fun hc => ⟨by simp [Cursor.flush], hc.current⟩, contained_pending⟩

theorem past_skip {t : Token} (r : List Token) (hsemicolon : t.kind ≠ .semicolon)
    (hnewline : t.kind ≠ .newline) :
    Keeps c (c.pending.map Token.tree ++ [t.tree]) (c.past c.depth r).skip where
  depth := rfl
  settled _ := settled_skip rfl
  contained hc := by
    refine (contained_pending hc).append (.tokens (l := [t]) ?_ fun _ => ?_)
    · simpa using hsemicolon
    · simpa using hnewline

theorem bump (h : c.kind.isPlain) : Keeps c c.bump.1 c.bump.2 := by
  simp only [Kind.isPlain, Bool.and_eq_true, Bool.not_eq_true', bne_iff_ne] at h
  obtain ⟨⟨⟨⟨hopening, hclosing⟩, hnewline⟩, hsemicolon⟩, heof⟩ := h
  obtain ⟨t, r, hr, ht⟩ := exists_rest heof
  rw [← ht] at hopening hclosing hnewline hsemicolon
  rw [bump_eq hr, show depthAfter c.depth t.kind = c.depth by simp [depthAfter, hopening, hclosing]]
  exact past_skip r hsemicolon hnewline

theorem looked (c : Cursor) : Keeps c [] (Expression.looked c) := by
  unfold Expression.looked
  split
  · exact ⟨rfl, fun hc => ⟨hc.pending, hc.current⟩, fun _ => .nil⟩
  · exact refl c

/-- A token that starts no operand does not count as a bracket, even if it is one. -/
theorem unexpected (c : Cursor) :
    Keeps c [(Expression.unexpected c).1] (Expression.unexpected c).2 := by
  unfold Expression.unexpected
  by_cases ha : c.atAnchor
  · rw [if_pos ha]
    exact (refl c).missing
  · rw [if_neg ha]
    cases hr : c.rest with
    | nil => simp [atAnchor, kind_eq_eof hr] at ha
    | cons t r =>
      have hk := kind_eq_of_rest hr
      have hne (k : Kind) (hanchor : k = .semicolon ∨ k = .newline) : t.kind ≠ k := by
        intro ht
        rw [ht] at hk
        rcases hanchor with rfl | rfl <;> simp [atAnchor, hk] at ha
      rw [take_eq hr]
      exact (past_skip r (hne _ (.inl rfl)) (hne _ (.inr rfl))).node .error

theorem field (c : Cursor) : Keeps c (Expression.field c).1 (Expression.field c).2 := by
  unfold Expression.field
  split
  · rename_i hk
    exact bump (by rw [hk]; rfl)
  · split
    · exact (refl c).missing
    · exact (flush c).trans (unexpected _)

theorem bracketed {kind close : Kind} (hkind : kind.isBracketed) (hopen : c.kind.isOpening)
    (hclose : close.isClosing) (h : Keeps c.bump.2 f c₁) :
    Keeps c [.node kind (c.bump.1 ++ f ++ (c₁.close close).1)] (c₁.close close).2 := by
  obtain ⟨hinner, hdepth, hopening⟩ := bump_of_isOpening hopen
  obtain ⟨houter, hdepth', hclosing⟩ := close_of_isClosing (c := c₁) hclose
  refine ⟨?_, fun _ => houter, fun hc => .bracketed hkind fun w hw => ?_⟩
  · rw [hdepth', h.depth, hdepth, Nat.add_sub_cancel]
  · rw [Forest.yield_append, Forest.yield_append, List.mem_append, List.mem_append] at hw
    rcases hw with (hw | hw) | hw
    · exact hopening hc w hw
    · exact (h.contained hinner).semicolon w hw
    · exact hclosing (h.settled hinner) w hw

end Keeps

end Cursor

namespace Expression

open Cursor (Keeps)

/-- Where nothing lies too deep, parsing keeps the depth and passes no end of a statement. -/
theorem Parses.keeps {n : Nat} {g : Goal} {c c' : Cursor} {f : Forest} (h : Parses n g c f c')
    (hg : g.proper) (hlimit : ¬Reaches n g c) : Keeps c f c' := by
  induction h with
  | tooDeep g c =>
    -- Between brackets that are skipped a semicolon ends nothing, and one that is never closed
    -- leaves the depth open.
    exact absurd .here hlimit
  | nested h ih => exact ih hg fun hr => hlimit (.nested hr)
  | operand h ih =>
    exact (Keeps.flush _).trans (ih (Goal.proper_operand hg).2 fun hr => hlimit (.operand hr))
  | unconditional h hif ih => exact ih rfl fun hr => hlimit (.body hr)
  | conditional body hif condition helse alternative ih ih₁ ih₂ =>
    have hbody := ih rfl fun hr => hlimit (.body hr)
    have hcondition := ih₁ rfl fun hr => hlimit (.condition body hif hr)
    have halternative := ih₂ rfl fun hr => hlimit (.alternative body hif condition helse hr)
    have hword : Keeps _ _ _ := .bump (by rw [hif]; rfl)
    have hword' : Keeps _ _ _ := .bump (by rw [helse]; rfl)
    exact ((((hbody.trans hword).trans hcondition).trans hword').trans halternative).node _
  | withoutElse body hif condition helse ih ih₁ =>
    have hbody := ih rfl fun hr => hlimit (.body hr)
    have hcondition := ih₁ rfl fun hr => hlimit (.condition body hif hr)
    have hword : Keeps _ _ _ := .bump (by rw [hif]; rfl)
    exact ((hbody.trans hword).trans hcondition).missing.node _
  | join h hstop ih => exact ih rfl fun hr => hlimit (.join hr)
  | @first n j c t c' h ih =>
    exact ih (Goal.proper_operand j.proper_operand).2 fun hr => hlimit (.first hr)
  | @further n j c t c₁ f c₂ left hop right ih ih₁ =>
    have hleft := ih rfl hlimit
    have hright := ih₁ j.proper_operand fun hr => hlimit (.right left hop hr)
    exact ((hleft.trans (.bump (Kind.isPlain_of_joins hop))).trans hright).node _
  | uncompared h hstop ih => exact ih rfl fun hr => hlimit (.left hr)
  | comparison left hop more ih ih₁ =>
    have hleft := ih rfl fun hr => hlimit (.left hr)
    exact (hleft.trans (ih₁ rfl fun hr => hlimit (.compared left hop hr))).node _
  | comparedEnd hstop => exact .refl _
  | @comparedMore n c f c₁ g c₂ hop right more ih ih₁ =>
    have hoperator : Keeps c.flush.2 _ _ := .bump (Kind.isPlain_of_isComparison hop)
    have hright := ih rfl fun hr => hlimit (.comparedRight hop hr)
    have hmore := ih₁ rfl fun hr => hlimit (.comparedMore hop right hr)
    exact ((Keeps.flush c).trans ((hoperator.node .comparisonOp).trans hright)).trans hmore
  | unary hop h ih =>
    have hoperand := ih rfl fun hr => hlimit (.unary hop hr)
    exact ((Keeps.bump (Kind.isPlain_of_starts hop)).trans hoperand).node _
  | @noUnary n u c t c' hop h ih => exact ih u.proper_below fun hr => hlimit (.noUnary hop hr)
  | noPower h hop ih => exact ih rfl fun hr => hlimit (.base hr)
  | power base hop exponent ih ih₁ =>
    have hbase := ih rfl fun hr => hlimit (.base hr)
    have hexponent := ih₁ rfl fun hr => hlimit (.exponent base hop hr)
    exact ((hbase.trans (.bump (by rw [hop]; rfl))).trans hexponent).node _
  | primary h hparen hdot ih => exact ih rfl fun hr => hlimit (.primary hr)
  | bare h ih => exact ih rfl fun hr => hlimit (.bare hr)
  | call callee hparen arguments ih ih₁ =>
    have hcallee := ih rfl hlimit
    exact (hcallee.trans (ih₁ rfl fun hr => hlimit (.call callee hparen hr))).node _
  | member object hdot ih =>
    have hobject := ih rfl hlimit
    exact ((hobject.trans (.bump (by rw [hdot]; rfl))).trans (.field _)).node _
  | @literal n c t r hpending hrest hkind =>
    rw [← Cursor.kind_eq_of_rest hrest] at hkind
    have hbump : Keeps c _ _ := .bump (Kind.isPlain_of_isLiteral hkind)
    rwa [show c.bump.1 = [t.tree] by rw [Cursor.bump_eq hrest, hpending]; rfl] at hbump
  | @emptyTuple n c hopen hclose =>
    have htuple : Keeps c [.node .tupleLiteral _] _ :=
      .bracketed rfl (by rw [hopen]; rfl) (rfl : Kind.rParen.isClosing) (.refl _)
    rwa [List.append_nil] at htuple
  | group hopen hclose inner hcomma ih =>
    exact .bracketed rfl (by rw [hopen]; rfl) rfl (ih rfl fun hr => hlimit (.inner hopen hclose hr))
  | @tuple n c f c₁ g c₂ hopen hclose inner hcomma more ih ih₁ =>
    have hinner := ih rfl fun hr => hlimit (.inner hopen hclose hr)
    have hmore := ih₁ rfl fun hr => hlimit (.tuple hopen hclose inner hcomma hr)
    have hitems := (hinner.trans (.bump (by rw [hcomma]; rfl))).trans hmore
    have htuple : Keeps c [.node .tupleLiteral _] _ :=
      .bracketed rfl (by rw [hopen]; rfl) (rfl : Kind.rParen.isClosing) hitems
    simpa only [List.append_assoc] using htuple
  | list hopen h ih => exact ih rfl fun hr => hlimit (.list hopen hr)
  | dict hopen h ih => exact ih rfl fun hr => hlimit (.dict hopen hr)
  | unexpected hliteral hopen => exact .unexpected _
  | enclosed hopen hclose h ih =>
    exact .bracketed hg hopen hclose (ih rfl fun hr => hlimit (.enclosed hopen hr))
  | itemsEnd hend => exact .refl _
  | itemsLast hend h hcomma ih => exact ih rfl fun hr => hlimit (.slot hend hr)
  | itemsMore hend h hcomma more ih ih₁ =>
    have hslot := ih rfl fun hr => hlimit (.slot hend hr)
    have hmore := ih₁ rfl fun hr => hlimit (.itemsMore hend h hcomma hr)
    exact (hslot.trans (.bump (by rw [hcomma]; rfl))).trans hmore
  | missingItem hcomma => exact (Keeps.refl _).missing
  | @item n item named c f c' hcomma h ih =>
    exact ih (item.proper_goal named) fun hr => hlimit (.item hcomma hr)
  | pair key hcolon value ih ih₁ =>
    have hkey := ih rfl fun hr => hlimit (.key hr)
    have hvalue := ih₁ rfl fun hr => hlimit (.value key hcolon hr)
    exact ((hkey.trans (.bump (by rw [hcolon]; rfl))).trans hvalue).node _
  | withoutColon key hcolon ih => exact (ih rfl fun hr => hlimit (.key hr)).missing.node _
  | @keyword n named c f c' hname value ih =>
    obtain ⟨hk, heq⟩ := startsNamed_iff.1 hname
    have hvalue := ih rfl fun hr => hlimit (.keyword hname hr)
    have hname' : Keeps c _ _ := .bump (by rw [hk]; rfl)
    exact ((hname'.trans (.bump (by rw [heq]; rfl))).trans hvalue).node _
  | positional hname value ih =>
    exact (Keeps.looked _).trans (ih rfl fun hr => hlimit (.positional hname hr))
  | misplaced hname value ih =>
    exact ((Keeps.looked _).trans (ih rfl fun hr => hlimit (.positional hname hr))).node _
  | targetsEnd hcomma => exact .refl _
  | targetsTrailing hcomma hend => exact .bump (by rw [hcomma]; rfl)
  | targetsMore hcomma hend target more ih ih₁ =>
    have htarget := ih rfl fun hr => hlimit (.target hcomma hend hr)
    have hmore := ih₁ rfl fun hr => hlimit (.targetsMore hcomma hend target hr)
    exact ((Keeps.bump (by rw [hcomma]; rfl)).trans htarget).trans hmore

end Expression

namespace Statement

open Cursor (Keeps Settled)

/-! ### The end of a statement -/

theorem settled_start {tokens : List Token} (h : ¬tokens.all fun t => t.kind.isTrivia) :
    (Cursor.start tokens).flush.2.Settled := by
  obtain ⟨t, r, hr, ht⟩ := Cursor.exists_rest_start h
  refine ⟨by simp [Cursor.flush], fun u l hl => ?_⟩
  obtain ⟨rfl, rfl⟩ := List.cons.inj (hr.symm.trans hl)
  cases hs : Cursor.skips (Cursor.start tokens).flush.2.depth t with
  | true => rw [Cursor.isTrivia_of_skips hs] at ht; exact ht
  | false => rfl

/-- A body that is not empty keeps the depth behind the trivia before it. -/
theorem Body.keeps {c c' : Cursor} {k : Kind} {f : Forest} (h : Body c k f c')
    (hlimit : ¬BodyReaches c) (hc : c.atTerminator = false) :
    ∃ g, f = c.flush.1 ++ g ∧ Keeps c.flush.2 g c' := by
  cases h with
  | empty h => rw [hc] at h; exact absurd h (by decide)
  | expression h expr hcomma heq =>
    cases expr with
    | operand expr => exact ⟨_, rfl, expr.keeps rfl fun hr => hlimit (.target h hr)⟩
  | @assignment t c₁ f c₂ g c₃ h target hmore more heq value =>
    have htarget := target.keeps rfl fun hr => hlimit (.target h hr)
    have htargets := more.keeps rfl fun hr => hlimit (.more h target hmore hr)
    have hvalue := value.keeps rfl fun hr => hlimit (.value h target hmore more heq hr)
    have heq' : Keeps c₂ _ _ := .bump (by rw [heq]; rfl)
    exact ⟨_, rfl, (((htarget.trans htargets).node .assignmentTargets).trans heq').trans hvalue⟩
  | unassigned h target hmore more heq =>
    have htarget := target.keeps rfl fun hr => hlimit (.target h hr)
    have htargets := more.keeps rfl fun hr => hlimit (.more h target hmore hr)
    exact ⟨_, rfl, ((htarget.trans htargets).node .assignmentTargets).missing⟩

theorem skips_eq_false_of_atTerminator {c : Cursor} (h : c.atTerminator) {t : Token}
    {r : List Token} (hr : c.rest = t :: r) : Cursor.skips 0 t = false := by
  unfold Cursor.atTerminator at h
  rw [Cursor.skips, ← Cursor.kind_eq_of_rest hr]
  split at h
  · rename_i hk
    rw [hk]
    rfl
  · rename_i hk
    rw [hk]
    rfl
  · rename_i hk
    rw [hk]
    rfl
  · exact absurd h (by simp)

/-- Outside of brackets the junk ends at the first line break or semicolon. -/
theorem junk_keeps {c : Cursor} (hdepth : c.depth = 0) : Keeps c c.junk.1 c.junk.2 := by
  have hterm := c.atTerminator_junk
  obtain ⟨run, hrun⟩ : ∃ run, (c.rest.takeWhile fun t => !Cursor.ends c.depth t) = run := ⟨_, rfl⟩
  have hinner (t : Token) (ht : t ∈ run) : t.kind ≠ .semicolon ∧ t.kind ≠ .newline := by
    rw [← hrun] at ht
    have hends := List.mem_takeWhile_imp (p := fun t => !Cursor.ends c.depth t) ht
    simp only [Cursor.ends, hdepth, Bool.not_eq_true', Bool.or_eq_false_iff] at hends
    exact ⟨by simpa using hends.1.2, by simpa using hends.2⟩
  obtain ⟨htrail, htrivia⟩ := Cursor.append_drop_dropTrailing run
  have hmem (t : Token) (ht : t ∈ Cursor.dropTrailing run ∨
      t ∈ run.drop (Cursor.dropTrailing run).length) : t ∈ run := by
    rw [← htrail]
    exact List.mem_append.2 ht
  refine ⟨rfl, fun hc => ⟨fun t ht => ?_, fun t r hr => ?_⟩, fun hc => ?_⟩
  · simp only [Cursor.junk, hrun] at ht
    rw [Cursor.skips, if_neg (hinner t (hmem t (.inr ht))).2]
    exact htrivia t ht
  · rw [show c.junk.2.depth = 0 from hdepth]
    exact skips_eq_false_of_atTerminator hterm hr
  · simp only [Cursor.junk, hrun]
    refine (Cursor.contained_pending hc).append (Forest.Contained.node _ (.tokens ?_ fun _ => ?_))
    · exact fun t ht => (hinner t (hmem t (.inl ht))).1
    · exact fun t ht => (hinner t (hmem t (.inl ht))).2

/-- A terminator is taken, or nothing is left to take. -/
theorem ending_cases {c : Cursor} (h : c.atTerminator) (heof : ∀ t ∈ c.rest, t.kind ≠ .eof) :
    (∃ t : Token, (t.kind = .newline ∨ t.kind = .semicolon) ∧
      (ending c).1 = c.pending.map Token.tree ++ [t.tree]) ∨
    (ending c).1 = c.pending.map Token.tree ∧ (ending c).2.rest = [] := by
  rcases kind_or_rest_of_atTerminator h heof with hk | hrest
  · obtain ⟨t, r, -, ht, hending⟩ := exists_ending hk
    rw [← ht] at hk
    exact .inl ⟨t, hk, congrArg Prod.fst hending⟩
  · rw [ending_eq_flush (by rw [Cursor.kind_eq_eof hrest]; decide)]
    exact .inr ⟨rfl, hrest⟩

/-- A line break or a semicolon closes the statement. -/
def Closed (s : Statement) : Prop :=
  ∃ k x, (k = .newline ∨ k = .semicolon) ∧ s.tree.children.getLast? = some (.token k x)

theorem Body.isBracketed {c c' : Cursor} {k : Kind} {f : Forest} (h : Body c k f c') :
    k.isBracketed = false := by
  cases h <;> rfl

/-- Trivia comes first in a statement, then what does not end it, and then the terminator, unless
nothing is left. -/
theorem exists_split {tokens : List Token} (heof : ∀ t ∈ tokens, t.kind ≠ .eof)
    (hlimit : ¬BodyReaches (.start tokens))
    (hall : ¬tokens.all fun t => t.kind.isTrivia) {k : Kind} {f : Forest} {c : Cursor}
    (h : Body (.start tokens) k f c) :
    ∃ (lead : List Token) (g : Forest), (∀ t ∈ lead, t.kind.isTrivia) ∧ Forest.Contained 0 g ∧
      ((∃ t : Token, (t.kind = .newline ∨ t.kind = .semicolon) ∧
          Forest.marked false (f ++ (finish c).1) =
            Forest.marked false (lead.map Token.tree ++ g ++ [t.tree]) ∧
          (f ++ (finish c).1).getLast? = some t.tree) ∨
        Forest.marked false (f ++ (finish c).1) = Forest.marked false (lead.map Token.tree ++ g) ∧
          (finish c).2.rest = []) := by
  have hlead := (Cursor.start_ready tokens).1.trivia
  obtain ⟨j, d, hj, hmoves, hterm, -⟩ := exists_junk c
  have heof' : ∀ t ∈ d.rest, t.kind ≠ .eof := by
    obtain ⟨ts, hts, -⟩ := (h.moves.trans hmoves).ahead
    rw [Cursor.ahead_start] at hts
    intro t ht
    exact heof t (by rw [hts, Cursor.ahead]; simp [ht])
  have hfinish : finish c = (j ++ (ending d).1, (ending d).2) := by
    unfold finish
    simp only [hj]
  have hending := ending_cases hterm heof'
  rw [hfinish]
  by_cases hstart : (Cursor.start tokens).atTerminator
  · -- Nothing stands before the terminator but trivia, which is pending yet.
    obtain ⟨rfl, rfl⟩ : f = [.missing] ∧ c = .start tokens := by
      cases h with
      | empty => exact ⟨rfl, rfl⟩
      | _ h => rw [hstart] at h; exact absurd h (by decide)
    rw [if_pos hstart] at hj
    obtain ⟨rfl, rfl⟩ := Prod.mk.inj hj
    refine ⟨(Cursor.start tokens).pending, [], hlead, .nil, ?_⟩
    rcases hending with ⟨t, ht, htrees⟩ | ⟨htrees, hrest⟩
    · have hlast : (.missing :: (Cursor.start tokens).pending.map Token.tree ++ [t.tree]).getLast? =
          some t.tree := List.getLast?_concat
      exact .inl ⟨t, ht, by simp [htrees, Tree.missing], by rw [htrees]; exact hlast⟩
    · exact .inr ⟨by simp [htrees, Tree.missing], hrest⟩
  · have hstart : (Cursor.start tokens).atTerminator = false := by simpa using hstart
    obtain ⟨g, rfl, hkeeps⟩ := h.keeps hlimit hstart
    have hdepth : c.depth = 0 := hkeeps.depth
    have hjunk : Cursor.Keeps c j d := by
      by_cases hc : c.atTerminator
      · rw [if_pos hc] at hj
        obtain ⟨rfl, rfl⟩ := Prod.mk.inj hj
        exact .refl c
      · rw [if_neg hc] at hj
        have hj' := junk_keeps hdepth
        rwa [hj] at hj'
    have hboth := hkeeps.trans hjunk
    have hsettled := settled_start hall
    have hpending := Cursor.contained_pending (hboth.settled hsettled)
    rw [hboth.depth] at hpending
    refine ⟨(Cursor.start tokens).pending, g ++ j ++ d.pending.map Token.tree, hlead,
      (hboth.contained hsettled).append hpending, ?_⟩
    rcases hending with ⟨t, ht, htrees⟩ | ⟨htrees, hrest⟩
    · exact .inl ⟨t, ht, by simp [htrees, Cursor.flush], by simp [htrees]⟩
    · exact .inr ⟨by simp [htrees, Cursor.flush], hrest⟩

/-- Where the tokens of a statement end it, and where they do not. -/
structure Bounded (s : Statement) (ts : List Token) : Prop where
  semicolon : ∀ i t, ts[i]? = some t → t.kind = .semicolon → i + 1 = ts.length
  /-- A line break stands before the first token that is no trivia, or is the last token, or stands
  inside a bracketed node. -/
  newline : ∀ i t, ts[i]? = some t → t.kind = .newline →
    (∀ u ∈ ts.take (i + 1), u.kind.isTrivia) ∨ i + 1 = ts.length ∨
      (s.tree.marked false)[i]? = some (t.word, true)

theorem cases_of_getElem? {lead mid last : List (Word × Bool)} (hlast : last.length ≤ 1) {i : Nat}
    {w : Word × Bool} (h : (lead ++ mid ++ last)[i]? = some w) :
    (i < lead.length ∧ w ∈ lead) ∨ w ∈ mid ∨ i + 1 = (lead ++ mid ++ last).length := by
  by_cases hmid : i < (lead ++ mid).length
  · rw [List.getElem?_append_left hmid] at h
    by_cases hlead : i < lead.length
    · rw [List.getElem?_append_left hlead] at h
      exact .inl ⟨hlead, List.mem_of_getElem? h⟩
    · rw [List.getElem?_append_right (Nat.le_of_not_lt hlead)] at h
      exact .inr (.inl (List.mem_of_getElem? h))
  · obtain ⟨hlt, -⟩ := List.getElem?_eq_some_iff.1 h
    rw [List.length_append] at hlt ⊢
    exact .inr (.inr (by omega))

theorem bounded_of_marked {s : Statement} {ts lead : List Token} {g : Forest}
    (last : List (Word × Bool)) (hs : s.Owns ts) (hlead : ∀ t ∈ lead, t.kind.isTrivia)
    (hg : Forest.Contained 0 g) (hlast : last.length ≤ 1)
    (hmarked : s.tree.marked false =
      (lead.map fun t => (t.word, false)) ++ Forest.marked false g ++ last) : s.Bounded ts := by
  have hwords : ts.map Token.word = (s.tree.marked false).map Prod.fst := by
    rw [Tree.map_fst_marked, hs.yield]
  have hlen : (s.tree.marked false).length = ts.length := by
    simpa using (congrArg List.length hwords).symm
  have hget (i : Nat) (t : Token) (ht : ts[i]? = some t) :
      ∃ w, (s.tree.marked false)[i]? = some w ∧ w.1 = t.word := by
    have hi := congrArg (·[i]?) hwords
    simp only [List.getElem?_map, ht, Option.map_some] at hi
    exact Option.map_eq_some_iff.1 hi.symm
  have htrivia (w : Word × Bool) (hw : w ∈ lead.map fun t => (t.word, false)) :
      w.1.1.isTrivia := by
    obtain ⟨t, ht, rfl⟩ := List.mem_map.1 hw
    exact hlead t ht
  refine ⟨fun i t ht hk => ?_, fun i t ht hk => ?_⟩
  · obtain ⟨w, hw, hword⟩ := hget i t ht
    have hkind : w.1.1 = .semicolon := by rw [hword, ← hk]; rfl
    rw [hmarked] at hw
    rcases cases_of_getElem? hlast hw with ⟨-, hw⟩ | hw | hi
    · have := htrivia w hw
      rw [hkind] at this
      exact absurd this (by decide)
    · refine absurd hkind (hg.semicolon w.1 ?_)
      rw [← Forest.map_fst_marked false]
      exact List.mem_map_of_mem hw
    · rw [← hmarked, hlen] at hi
      exact hi
  · obtain ⟨w, hw, hword⟩ := hget i t ht
    have hkind : w.1.1 = .newline := by rw [hword, ← hk]; rfl
    rw [hmarked] at hw
    rcases cases_of_getElem? hlast hw with ⟨hi, -⟩ | hmem | hi
    · -- The tokens up to this one are among the leading ones.
      refine .inl fun u hu => ?_
      have hmem := List.mem_map_of_mem (f := Token.word) hu
      rw [List.map_take, hwords, hmarked, ← List.map_take, List.append_assoc,
        List.take_append_of_le_length hi] at hmem
      obtain ⟨v, hv, hword⟩ := List.mem_map.1 hmem
      have := htrivia v (List.mem_of_mem_take hv)
      rwa [hword] at this
    · obtain ⟨v, inside⟩ := w
      obtain rfl : inside = true := hg.newline rfl _ hmem hkind
      obtain rfl : v = t.word := hword
      rw [hmarked]
      exact .inr (.inr hw)
    · rw [← hmarked, hlen] at hi
      exact .inr (.inl hi)

/-- A statement ends as it should, and if it is not closed nothing is left. -/
theorem bounded_of_parse? {tokens rest ts : List Token} {n : Nat} {s : Statement}
    (heof : ∀ t ∈ tokens, t.kind ≠ .eof) (h : parse? tokens n = some (s, rest))
    (hlimit : ¬BodyReaches (.start tokens)) (hs : s.Owns ts) :
    s.Bounded ts ∧ (¬s.Closed → rest = []) := by
  obtain ⟨hall, k, f, c, hbody, rfl, rfl⟩ := exists_of_parse? h
  obtain ⟨lead, g, hlead, hg, hend⟩ := exists_split heof hlimit hall hbody
  have hk := hbody.isBracketed
  rcases hend with ⟨t, ht, hmarked, hlast⟩ | ⟨hmarked, hrest⟩
  · refine ⟨bounded_of_marked [(t.word, false)] hs hlead hg (Nat.le_refl 1) ?_, ?_⟩
    · rw [Tree.marked_node, hk, Bool.or_false, hmarked]
      simp [Token.tree, Tree.marked, Token.word]
    · exact fun hclosed => absurd ⟨t.kind, t.text, ht, hlast⟩ hclosed
  · refine ⟨bounded_of_marked [] hs hlead hg (Nat.zero_le 1) ?_, fun _ => hrest⟩
    rw [Tree.marked_node, hk, Bool.or_false, hmarked]
    simp

theorem Sequence.bounded {tokens tail : List Token} {n : Nat} {ss : List Statement}
    (h : Sequence tokens n ss tail) (heof : ∀ t ∈ tokens, t.kind ≠ .eof) (before : List Token)
    (hn : before.length = n)
    (hlimit : ∀ x ∈ ss, ¬BodyReaches (.start ((before ++ tokens).drop x.first))) :
    ∀ x ∈ ss, x.Bounded (((before ++ tokens).drop x.first).take x.count) ∧
      (¬x.Closed → ss.getLast? = some x ∧ x.first + x.count = (before ++ tokens).length) := by
  induction h generalizing before with
  | done h => simp
  | @step tokens n s rest ss tail h more ih =>
    obtain ⟨hfirst, ts, rfl, hs⟩ := owns_of_parse? heof h
    have hlimit' := hlimit s List.mem_cons_self
    rw [hfirst, ← hn, List.drop_left] at hlimit'
    obtain ⟨hbounded, hunclosed⟩ := bounded_of_parse? heof h hlimit' hs
    intro x hx
    rcases List.mem_cons.1 hx with rfl | hx
    · rw [hfirst, ← hn, List.drop_left, hs.count, List.take_left]
      refine ⟨hbounded, fun hclosed => ?_⟩
      obtain rfl := hunclosed hclosed
      obtain rfl := more.eq_nil
      simp
    · have hrest := (length_rest_lt_of_parse? heof h).2
      have hmore := ih hrest (before ++ ts) (by rw [List.length_append, hs.count, hn])
        (by simpa only [List.append_assoc] using fun y hy => hlimit y (List.mem_cons_of_mem _ hy))
        x hx
      rw [List.append_assoc] at hmore
      refine ⟨hmore.1, fun hclosed => ?_⟩
      obtain ⟨hlast, hlen⟩ := hmore.2 hclosed
      refine ⟨?_, hlen⟩
      rw [List.getLast?_cons, hlast]
      rfl

end Statement

namespace Document

/-- If the statements of a document end as they should, a semicolon ends the statement that it belongs
to. -/
theorem Partitioned.exists_ending {d : Document} (h : d.Partitioned)
    (hbounded : ∀ x ∈ d.statements, x.Bounded ((d.tokens.toList.drop x.first).take x.count))
    {i : Nat} {t : Token} (ht : d.tokens.toList[i]? = some t) (hk : t.kind = .semicolon) :
    ∃ x ∈ d.statements, x.first ≤ i ∧ i + 1 = x.first + x.count := by
  obtain ⟨x, hx, hle, hlt⟩ := h.exists_owner ht (by rw [hk]; rfl)
  refine ⟨x, hx, hle, ?_⟩
  have hcount := (h.owns x hx).count
  have hown : ((d.tokens.toList.drop x.first).take x.count)[i - x.first]? = some t := by
    rw [List.getElem?_take_of_lt (by omega), List.getElem?_drop, Nat.add_sub_of_le hle, ht]
  have hlast := (hbounded x hx).semicolon (i - x.first) t hown hk
  omega

/-- Unless the nesting limit is reached, no error moves the end of a statement. Each semicolon of the
text belongs to a statement, and ends it; each line break that belongs to one ends it too, but for
those before its first token that is no trivia and those inside its bracketed nodes; and a statement
that is closed by neither is the last one and owns all tokens that are left. -/
theorem parse_bounded {s : Text} (h : ¬(parse s).ReachesLimit) :
    (∀ x ∈ (parse s).statements,
      x.Bounded (((parse s).tokens.toList.drop x.first).take x.count) ∧
        (¬x.Closed → (parse s).statements.getLast? = some x ∧
          x.first + x.count = (parse s).tokens.toList.length)) ∧
      ∀ i t, (parse s).tokens.toList[i]? = some t → t.kind = .semicolon →
        ∃ x ∈ (parse s).statements, x.first ≤ i ∧ i + 1 = x.first + x.count := by
  have hcurrent := parse_current s
  obtain ⟨tail, hseq, -⟩ := hcurrent.sequence
  rw [← hcurrent.tokens] at hseq
  have hbounded := hseq.bounded
    (fun t ht => Lexer.kind_ne_eof_of_mem_tokens (hcurrent.tokens ▸ ht)) [] rfl
    fun x hx hr => h ⟨x, hx, hr⟩
  exact ⟨hbounded, fun i t => hcurrent.partitioned.exists_ending fun x hx => (hbounded x hx).1⟩

/-- A call over two lines, a closing bracket too many, and a bracket that is never closed: the first
statement ends at the semicolon behind the call, the second one at the next line break, and the last
one with the text. -/
theorem parse_bounded_unclosed :
    let s := "\na = f(1,\n2); ] b\n(c".toList
    (¬(parse s).ReachesLimit ∧ (parse s).tokens.toList[12]?.map Token.kind = some .semicolon ∧
      (parse s).statements.map (fun x => (x.first, x.count)) = [(0, 13), (13, 5), (18, 2)]) ∧
    (∀ x ∈ (parse s).statements,
      x.Bounded (((parse s).tokens.toList.drop x.first).take x.count) ∧
        (¬x.Closed → (parse s).statements.getLast? = some x ∧
          x.first + x.count = (parse s).tokens.toList.length)) ∧
      ∀ i t, (parse s).tokens.toList[i]? = some t → t.kind = .semicolon →
        ∃ x ∈ (parse s).statements, x.first ≤ i ∧ i + 1 = x.first + x.count := by
  intro s
  have hlimit : ¬(parse s).ReachesLimit := by
    refine not_reachesLimit_of_length ?_
    rw [(parse_current s).tokens]
    show (Lexer.tokens s).length < 256
    decide +kernel
  exact ⟨⟨hlimit, by decide +kernel, by decide +kernel⟩, parse_bounded hlimit⟩

end Document

end ScriptTree
