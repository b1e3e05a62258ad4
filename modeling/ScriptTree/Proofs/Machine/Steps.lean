import ScriptTree.Proofs.Machine.Basic
import ScriptTree.Proofs.Statement.Boundary

namespace ScriptTree

open Expression (maxNesting)

namespace Kind

theorem isTerminator_kind (c : Cursor) : c.kind.isTerminator = c.atTerminator := rfl

theorem isAnchor_kind (c : Cursor) : c.kind.isAnchor = c.atAnchor := rfl

theorem isClosing_eq_false {k : Kind} (h : k.isOpening) : k.isClosing = false := by
  revert h
  cases k <;> decide

end Kind

namespace TreeBuilder

theorem foldl_add (b : TreeBuilder) (f : Forest) :
    f.foldl add b = { b with current := b.current ++ f } := by
  induction f generalizing b with
  | nil => simp
  | cons t f ih => simp [ih, add]

structure Adds (b : TreeBuilder) (f : Forest) (b' : TreeBuilder) : Prop where
  around : b'.around = b.around
  current : b'.current = b.current ++ f
  marks : b.marks <+: b'.marks

structure Opens (b : TreeBuilder) (kind : Kind) (f : Forest) (b' : TreeBuilder) : Prop where
  around : b'.around = ⟨kind, b.current⟩ :: b.around
  current : b'.current = f
  marks : b.marks <+: b'.marks

variable {b b₁ b₂ : TreeBuilder} {f g : Forest} {k : Kind}

theorem Adds.refl (b : TreeBuilder) : b.Adds [] b := ⟨rfl, by simp, List.prefix_rfl⟩

theorem Adds.trans (h : b.Adds f b₁) (h' : b₁.Adds g b₂) : b.Adds (f ++ g) b₂ where
  around := h'.around.trans h.around
  current := by rw [h'.current, h.current, List.append_assoc]
  marks := h.marks.trans h'.marks

theorem add_adds (b : TreeBuilder) (t : Tree) : b.Adds [t] (b.add t) := ⟨rfl, rfl, List.prefix_rfl⟩

theorem foldl_add_adds (b : TreeBuilder) (f : Forest) : b.Adds f (f.foldl add b) := by
  rw [foldl_add]
  exact ⟨rfl, rfl, List.prefix_rfl⟩

theorem openNode_opens (b : TreeBuilder) (k : Kind) : b.Opens k [] (b.openNode k) :=
  ⟨rfl, rfl, List.prefix_rfl⟩

theorem Opens.adds (h : b.Opens k f b₁) (h' : b₁.Adds g b₂) : b.Opens k (f ++ g) b₂ where
  around := h'.around.trans h.around
  current := by rw [h'.current, h.current]
  marks := h.marks.trans h'.marks

theorem Opens.close (h : b.Opens k f b₁) :
    b₁.around.isEmpty = false ∧ b.Adds [.node k f] b₁.closeNode := by
  refine ⟨by rw [h.around]; rfl, ?_, ?_, ?_⟩
  · rw [closeNode, h.around]
  · rw [closeNode, h.around, h.current]
  · rw [closeNode, h.around]
    exact h.marks

/-- A mark that was set right before the last trees of the current node is good to open a node around
them. -/
theorem Adds.openNodeAt (h : b.Adds f b₁) {mark : Nat} (hmark : b.marks[mark]? = some b.size)
    (k : Kind) : b₁.accepts mark ∧ b.Opens k f (b₁.openNodeAt mark k) := by
  have hlt := (List.getElem?_eq_some_iff.1 hmark).1
  have hmark' : b₁.marks[mark]? = some b.size := by
    obtain ⟨more, hmore⟩ := h.marks
    rw [← hmore, List.getElem?_append_left hlt, hmark]
  have houter : b₁.outerCount = b.outerCount := by rw [outerCount, outerCount, h.around]
  refine ⟨?_, ?_, ?_, ?_⟩
  · simp only [accepts, hmark', Option.any_some, size, houter, h.current, List.length_append]
    simp
  · simp [TreeBuilder.openNodeAt, hmark', houter, size, h.current, h.around]
  · simp [TreeBuilder.openNodeAt, hmark', houter, size, h.current]
  · exact h.marks

end TreeBuilder

namespace Machine

/-- A machine that parses the statement at `s`, with `n` levels of nesting to go, has the numbers of a
cursor, and the tokens that are ahead of it. -/
structure Follows (ts : List Token) (s n : Nat) (m : Machine) (c : Cursor) : Prop where
  start : m.start = s
  pos : m.pos = s + c.taken
  pending : m.pending = c.pending.length
  pending_le : c.pending.length ≤ c.taken
  depth : m.depth = c.depth
  levels : m.nesting + n = maxNesting
  examined : m.examined = s + c.examined
  ahead : ts.drop (m.pos - m.pending) = c.ahead

structure At (ts : List Token) (s n : Nat) (m : Machine) (c : Cursor) : Prop extends
    Follows ts s n m c where
  ready : c.Ready

structure Makes (ts : List Token) (s n : Nat) (m : Machine) (f : Forest) (m' : Machine) (c' : Cursor) :
    Prop where
  stands : m'.At ts s n c'
  builder : m.builder.Adds f m'.builder

structure Opens (ts : List Token) (s n : Nat) (m : Machine) (kind : Kind) (f : Forest) (m' : Machine)
    (c' : Cursor) : Prop where
  stands : m'.At ts s n c'
  builder : m.builder.Opens kind f m'.builder

variable {ts : List Token} {s n : Nat} {m m₁ m₂ : Machine} {c c₁ c₂ : Cursor} {f g : Forest}
  {k : Kind}

theorem Makes.trans (h : Makes ts s n m f m₁ c₁) (h' : Makes ts s n m₁ g m₂ c₂) :
    Makes ts s n m (f ++ g) m₂ c₂ := ⟨h'.stands, h.builder.trans h'.builder⟩

theorem Opens.makes (h : Opens ts s n m k f m₁ c₁) (h' : Makes ts s n m₁ g m₂ c₂) :
    Opens ts s n m k (f ++ g) m₂ c₂ := ⟨h'.stands, h.builder.adds h'.builder⟩

namespace Follows

theorem rest (h : Follows ts s n m c) : ts.drop m.pos = c.rest := by
  have hle := h.pending_le
  have hpos := h.pos
  have hpending := h.pending
  have hdrop := congrArg (List.drop m.pending) h.ahead
  rw [List.drop_drop, Nat.sub_add_cancel (by omega), Cursor.ahead, hpending, List.drop_left] at hdrop
  exact hdrop

theorem kind (h : Follows ts s n m c) : m.kind ts = c.kind := by
  rw [Machine.kind, ← Nat.add_zero m.pos, ← List.getElem?_drop, h.rest, Cursor.kind]
  cases c.rest <;> rfl

theorem rebuild (h : Follows ts s n m c) (b : TreeBuilder) :
    Follows ts s n { m with builder := b } c :=
  ⟨h.start, h.pos, h.pending, h.pending_le, h.depth, h.levels, h.examined, h.ahead⟩

theorem skipWhile (h : Follows ts s n m c) (p : Token → Bool) :
    Follows ts s n (m.skipWhile ts p) (c.passWhile p) where
  start := h.start
  pos := by
    simp only [Machine.skipWhile, h.rest, Cursor.passWhile]
    rw [h.pos, Nat.add_assoc]
  pending := by
    simp only [Machine.skipWhile, h.rest, Cursor.passWhile, List.length_append]
    rw [h.pending]
  pending_le := by
    have hle := h.pending_le
    simp only [Cursor.passWhile, List.length_append]
    omega
  depth := h.depth
  levels := h.levels
  examined := by
    simp only [Machine.skipWhile, h.rest, Cursor.passWhile]
    rw [h.pos, h.examined]
    omega
  ahead := by
    rw [Cursor.ahead_passWhile, ← h.ahead]
    simp only [Machine.skipWhile]
    congr 1
    omega

theorem skipTrivia (h : Follows ts s n m c) : Follows ts s n (m.skipTrivia ts) c.skip := by
  rw [Machine.skipTrivia, h.depth]
  exact h.skipWhile _

/-- The pending trivia is added; there is no more of it than was skipped since the start. -/
theorem flush (h : Follows ts s n m c) : ∃ m', m.flush ts = .ok m' ∧
    Follows ts s n m' c.flush.2 ∧ m.builder.Adds c.flush.1 m'.builder := by
  have hle := h.pending_le
  have hpos := h.pos
  have hpending := h.pending
  have hstart := h.start
  have hrest := h.rest
  have hlead : (ts.drop (m.pos - m.pending)).take m.pending = c.pending := by
    rw [h.ahead, Cursor.ahead, hpending, List.take_left]
  rw [Machine.flush, if_pos (by omega), hlead]
  refine ⟨_, rfl, ⟨h.start, h.pos, rfl, Nat.zero_le _, h.depth, h.levels, h.examined, ?_⟩, ?_⟩
  · exact hrest
  · exact TreeBuilder.foldl_add_adds _ _

/-- The current token is added behind the pending trivia. -/
theorem addCurrent (h : Follows ts s n m c) {t : Token} {r : List Token} (hr : c.rest = t :: r) :
    ∃ m', m.addCurrent ts = .ok m' ∧ Follows ts s n m' (c.past c.depth r) ∧
      m.builder.Adds (c.pending.map Token.tree ++ [t.tree]) m'.builder := by
  have hrest := h.rest
  obtain ⟨m', hm, hflush, hadds⟩ := h.flush
  have hget : ts[m.pos]? = some t := by
    rw [← Nat.add_zero m.pos, ← List.getElem?_drop, hrest, hr]
    rfl
  refine ⟨_, by simp only [Machine.addCurrent, hget, hm]; rfl, ?_, hadds.trans (m'.builder.add_adds _)⟩
  have hpos : m'.pos = m.pos := by rw [hflush.pos, h.pos]; rfl
  refine ⟨hflush.start, ?_, hflush.pending, Nat.zero_le _, hflush.depth, hflush.levels,
    hflush.examined, ?_⟩
  · show m'.pos + 1 = s + (c.taken + 1)
    rw [hpos, h.pos]
    omega
  · show ts.drop (m'.pos + 1 - m'.pending) = r
    rw [hflush.pending, hpos]
    show ts.drop (m.pos + 1) = r
    rw [← List.drop_drop, hrest, hr]
    rfl

end Follows

theorem Opens.close (h : Opens ts s n m k f m₁ c₁) :
    ∃ m₂, m₁.closeNode = .ok m₂ ∧ Makes ts s n m [.node k f] m₂ c₁ := by
  obtain ⟨hopen, hadds⟩ := h.builder.close
  refine ⟨_, by rw [closeNode, hopen]; rfl, ⟨h.stands.toFollows.rebuild _, h.stands.ready⟩, hadds⟩

/-- A mark set where the last trees were begun is good for a node around them. -/
theorem Makes.openNodeAt (h : Makes ts s n m f m₁ c₁) {mark : Nat}
    (hmark : m.builder.marks[mark]? = some m.builder.size) (k : Kind) :
    ∃ m₂, m₁.openNodeAt mark k = .ok m₂ ∧ Opens ts s n m k f m₂ c₁ := by
  obtain ⟨haccepts, hopens⟩ := h.builder.openNodeAt hmark k
  exact ⟨_, if_pos haccepts, ⟨h.stands.toFollows.rebuild _, h.stands.ready⟩, hopens⟩

namespace At

theorem refl (h : m.At ts s n c) : Makes ts s n m [] m c := ⟨h, .refl _⟩

theorem ask (h : m.At ts s n c) : m.ask ts = (c.kind, m) := by
  have hlt := h.ready.lt_examined
  have hpos := h.pos
  have hmax : max m.examined (m.pos + 1) = m.examined := by
    rw [h.examined]
    omega
  rw [Machine.ask, h.kind, hmax]

theorem rebuild (h : m.At ts s n c) (b : TreeBuilder) : At ts s n { m with builder := b } c :=
  ⟨h.toFollows.rebuild b, h.ready⟩

theorem missing (h : m.At ts s n c) : Makes ts s n m [.missing] m.missing c :=
  ⟨h.rebuild _, m.builder.add_adds _⟩

theorem flush (h : m.At ts s n c) :
    ∃ m', m.flush ts = .ok m' ∧ Makes ts s n m c.flush.1 m' c.flush.2 := by
  obtain ⟨m', hm, hfollows, hadds⟩ := h.toFollows.flush
  exact ⟨m', hm, ⟨hfollows, (c.flush_moves.ready h.ready).1⟩, hadds⟩

/-- A mark behind the pending trivia is the size of what is built up to there. -/
theorem mark (h : m.At ts s n c) : ∃ m' i, m.mark ts = .ok (i, m') ∧
    Makes ts s n m c.flush.1 m' c.flush.2 ∧ m'.builder.marks[i]? = some m'.builder.size := by
  obtain ⟨m', hm, hflush⟩ := h.flush
  refine ⟨{ m' with builder := m'.builder.mark }, m'.builder.marks.length,
    by simp only [Machine.mark, hm]; rfl, ⟨hflush.stands.rebuild _, ?_⟩, ?_⟩
  · exact ⟨hflush.builder.around, hflush.builder.current,
      hflush.builder.marks.trans (List.prefix_append ..)⟩
  · exact List.getElem?_concat_length

theorem openNode (h : m.At ts s n c) (k : Kind) : ∃ m₁ m₂, m.openNode ts k = .ok m₂ ∧
    Makes ts s n m c.flush.1 m₁ c.flush.2 ∧ Opens ts s n m₁ k [] m₂ c.flush.2 := by
  obtain ⟨m₁, hm, hflush⟩ := h.flush
  refine ⟨m₁, { m₁ with builder := m₁.builder.openNode k },
    by simp only [Machine.openNode, hm]; rfl, hflush, hflush.stands.rebuild _, ?_⟩
  exact m₁.builder.openNode_opens k

/-- To add the current token and skip the trivia after it. -/
theorem addCurrent_skip (h : m.At ts s n c) {t : Token} {r : List Token} (hr : c.rest = t :: r)
    (d : Nat) : ∃ m', Machine.addCurrent ts { m with depth := d } = .ok m' ∧
      Makes ts s n m (c.pending.map Token.tree ++ [t.tree]) (m'.skipTrivia ts) (c.past d r).skip := by
  have hd : Follows ts s n { m with depth := d } { c with depth := d } :=
    ⟨h.start, h.pos, h.pending, h.pending_le, rfl, h.levels, h.examined, h.ahead⟩
  obtain ⟨m', hm, hfollows, hadds⟩ := hd.addCurrent hr
  exact ⟨m', hm, ⟨hfollows.skipTrivia, ((Cursor.past_skip_moves hr d).ready h.ready).1⟩, hadds⟩

theorem count (h : m.At ts s n c) (hclose : k.isClosing → 0 < c.depth) :
    m.count k = .ok { m with depth := Cursor.depthAfter c.depth k } := by
  unfold Machine.count Cursor.depthAfter
  rw [h.depth]
  split
  · rfl
  · split
    · rename_i hk
      rw [if_neg (hclose hk).ne']
    · rw [← h.depth]

theorem bump (h : m.At ts s n c) (hne : c.kind ≠ .eof) (hclose : c.kind.isClosing → 0 < c.depth) :
    ∃ m', m.bump ts = .ok m' ∧ Makes ts s n m c.bump.1 m' c.bump.2 := by
  obtain ⟨t, r, hr, ht⟩ := Cursor.exists_rest hne
  obtain ⟨m', hm, hmakes⟩ := h.addCurrent_skip hr (Cursor.depthAfter c.depth c.kind)
  refine ⟨m'.skipTrivia ts, ?_, ?_⟩
  · simp only [Machine.bump, h.ask, h.count hclose, hm, ok_bind]
  · rw [Cursor.bump_eq hr, ht]
    exact hmakes

/-- The trivia before the current token is given back, to be read at another bracket depth. -/
theorem reread (h : m.At ts s n c) (d : Nat) :
    At ts s n (skipTrivia ts { m with depth := d, pos := m.pos - m.pending, pending := 0 })
      (c.reread d) := by
  have hle := h.pending_le
  have hpos := h.pos
  have hpending := h.pending
  refine ⟨Follows.skipTrivia (c := { c with
    rest := c.pending ++ c.rest
    pending := []
    taken := c.taken - c.pending.length
    depth := d }) ⟨h.start, ?_, rfl, Nat.zero_le _, rfl, h.levels, h.examined, h.ahead⟩,
    ((c.reread_moves d).ready h.ready).1⟩
  dsimp only
  omega

/-- A closing bracket is taken, or marked as missing; then too a bracket must be open. -/
theorem expectClosing (h : m.At ts s n c) (hdepth : 0 < c.depth) (hne : k ≠ .eof) :
    ∃ m', m.expectClosing ts k = .ok m' ∧ Makes ts s n m (c.close k).1 m' (c.close k).2 := by
  unfold Machine.expectClosing Cursor.close
  simp only [h.ask]
  by_cases hk : c.kind = k
  · rw [if_pos hk, if_pos hk]
    exact h.bump (hk.trans_ne hne) fun _ => hdepth
  · have hle := h.pending_le
    have hpos := h.pos
    have hpending := h.pending
    have hstart := h.start
    have hreread := h.missing.stands.reread (c.depth - 1)
    rw [if_neg hk, if_neg hk, if_neg (by rw [h.depth]; omega), if_neg (by omega)]
    rw [← h.depth] at hreread ⊢
    exact ⟨_, rfl, hreread, m.builder.add_adds _⟩

theorem bump_opening (h : m.At ts s n c) (hk : c.kind.isOpening) :
    ∃ m', m.bump ts = .ok m' ∧ Makes ts s n m c.bump.1 m' c.bump.2 := by
  apply h.bump (Kind.ne_eof_of_isOpening hk)
  intro hclose
  exact absurd hclose (by simp [Kind.isClosing_eq_false hk])

theorem bump_plain (h : m.At ts s n c) (hk : c.kind.isPlain) :
    ∃ m', m.bump ts = .ok m' ∧ Makes ts s n m c.bump.1 m' c.bump.2 := by
  apply h.bump (Kind.ne_eof_of_isPlain hk)
  intro hclose
  simp [Kind.isPlain, hclose] at hk

theorem enter (h : m.At ts s (n + 1) c) : m.enter.At ts s n c := by
  refine ⟨⟨h.start, h.pos, h.pending, h.pending_le, h.depth, ?_, h.examined, h.ahead⟩, h.ready⟩
  rw [← h.levels, Machine.enter]
  dsimp only
  omega

theorem leave (h : m.At ts s n c) (hn : n < maxNesting) :
    ∃ m', m.leave = .ok m' ∧ m'.At ts s (n + 1) c ∧ m'.builder = m.builder := by
  have hlevels := h.levels
  refine ⟨{ m with nesting := m.nesting - 1 }, if_neg (by omega), ?_, rfl⟩
  refine ⟨⟨h.start, h.pos, h.pending, h.pending_le, h.depth, ?_, h.examined, h.ahead⟩, h.ready⟩
  dsimp only
  omega

theorem startsNamed (h : m.At ts s n c) : ∃ m', m.startsNamed ts = (Expression.startsNamed c, m') ∧
    Makes ts s n m [] m' (Expression.looked c) := by
  unfold Machine.startsNamed Expression.startsNamed Expression.looked
  simp only [h.ask]
  by_cases hk : c.kind = .identifier
  · have htail : ts.drop (m.pos + 1) = c.rest.tail := by rw [← h.rest, List.tail_drop]
    have hsplit := List.takeWhile_append_dropWhile (p := Cursor.skips c.depth) (l := c.rest.tail)
    rw [if_pos hk, if_pos hk, htail, h.depth]
    unfold Cursor.peek
    dsimp only
    generalize c.rest.tail.takeWhile (Cursor.skips c.depth) = run at hsplit ⊢
    generalize c.rest.tail.dropWhile (Cursor.skips c.depth) = back at hsplit ⊢
    have hnext : ts[m.pos + 1 + run.length]? = back.head? := by
      rw [← List.getElem?_drop, htail, ← hsplit, List.getElem?_append_right (Nat.le_refl _),
        Nat.sub_self, List.head?_eq_getElem?]
    refine ⟨{ m with examined := max m.examined (m.pos + run.length + 2) }, ?_, ⟨⟨⟨h.start, h.pos,
      h.pending, h.pending_le, h.depth, h.levels, ?_, h.ahead⟩, ?_⟩, .refl _⟩⟩
    · simp only [hnext, hk, decide_true, Bool.true_and, h.depth]
    · have hpos := h.pos
      have hexamined := h.examined
      dsimp only
      omega
    · exact ⟨h.ready.pending_le, h.ready.lt_examined.trans_le (Nat.le_max_left ..), h.ready.trivia⟩
  · rw [if_neg hk, if_neg hk]
    simp only [hk, decide_false, Bool.false_and]
    exact ⟨m, rfl, h.refl⟩

theorem unexpected (h : m.At ts s n c) : ∃ m', m.unexpected ts = .ok m' ∧
    Makes ts s n m (if c.atAnchor then ([.missing], c) else c.operand Expression.unexpected).1 m'
      (if c.atAnchor then ([.missing], c) else c.operand Expression.unexpected).2 := by
  unfold Machine.unexpected
  simp only [h.ask, Kind.isAnchor_kind]
  by_cases ha : c.atAnchor
  · rw [if_pos ha, if_pos ha]
    exact ⟨_, rfl, h.missing⟩
  · have hne : c.flush.2.kind ≠ .eof := by
      intro he
      simp [Cursor.atAnchor, show c.kind = .eof from he] at ha
    obtain ⟨t, r, hr, -⟩ := Cursor.exists_rest hne
    obtain ⟨m₁, m₂, hopen, hlead, hnode⟩ := h.openNode .error
    obtain ⟨m₃, hadd, htoken⟩ := hnode.stands.addCurrent_skip hr m₂.depth
    obtain ⟨m₄, hclose, hmakes⟩ := (hnode.makes htoken).close
    have hadd : m₂.addCurrent ts = .ok m₃ := hadd
    have hunexpected : c.operand Expression.unexpected =
        (c.flush.1 ++ [.node .error [t.tree]], (c.flush.2.past m₂.depth r).skip) := by
      show (c.flush.1 ++ [(Expression.unexpected c.flush.2).1], (Expression.unexpected c.flush.2).2) = _
      have ha' : ¬c.flush.2.atAnchor := ha
      rw [Expression.unexpected, if_neg ha', Cursor.take_eq hr, hnode.stands.depth]
      rfl
    rw [if_neg ha, if_neg ha, hunexpected]
    refine ⟨m₄, ?_, hlead.trans hmakes⟩
    simp only [hopen, hadd, hclose, ok_bind]

theorem field (h : m.At ts s n c) : ∃ m', m.field ts = .ok m' ∧
    Makes ts s n m (Expression.field c).1 m' (Expression.field c).2 := by
  unfold Machine.field Expression.field
  simp only [h.ask]
  by_cases hk : c.kind = .identifier
  · rw [if_pos hk, if_pos hk]
    exact h.bump (hk.trans_ne (by decide)) fun hclose => by simp [hk, Kind.isClosing] at hclose
  · rw [if_neg hk, if_neg hk]
    exact h.unexpected

end At

end Machine

end ScriptTree
