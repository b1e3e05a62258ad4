import ScriptTree.Proofs.Tree.Address
import ScriptTree.Tree.Leaf

namespace ScriptTree

/-! ### The walk from leaf to leaf -/

inductive Tree.First : Nat → Tree → Leaf → Prop
  | token {start k s} : First start (.token k s) (.token ⟨k, s, start⟩)
  | childless {start k} : First start (.node k []) .gap
  | node {start k t ts l} (h : First start t l) : First start (.node k (t :: ts)) l

inductive Tree.Last : Nat → Tree → Leaf → Prop
  | token {start k s} : Last start (.token k s) (.token ⟨k, s, start⟩)
  | childless {start k} : Last start (.node k []) .gap
  | node {start k ts t l} (h : Last (start + Forest.bytes ts) t l) : Last start (.node k (ts ++ [t])) l

/-- The walk goes from one leaf to another: they are in siblings that stand side by side, the one at
the end of its sibling and the other at the front. -/
inductive Tree.Next : Nat → Tree → Leaf → Leaf → Prop
  | across {start k f t u g a b} (ha : Last (start + Forest.bytes f) t a)
      (hb : First (start + Forest.bytes f + t.bytes) u b) : Next start (.node k (f ++ t :: u :: g)) a b
  | within {start k f t g a b} (h : Next (start + Forest.bytes f) t a b) :
      Next start (.node k (f ++ t :: g)) a b

namespace Forest

theorem leavesFrom_append (ts us : Forest) (start : Nat) :
    leavesFrom start (ts ++ us) = leavesFrom start ts ++ leavesFrom (start + bytes ts) us := by
  induction ts generalizing start with
  | nil => simp [leavesFrom]
  | cons t ts ih => simp [leavesFrom, ih, Nat.add_assoc]

end Forest

namespace Tree

theorem leavesFrom_node {k : Kind} {ts : Forest} (h : ts ≠ []) (start : Nat) :
    (node k ts).leavesFrom start = Forest.leavesFrom start ts := by
  cases ts with
  | nil => exact absurd rfl h
  | cons t ts => rw [leavesFrom, Forest.leavesFrom]

theorem leavesFrom_ne_nil (t : Tree) (start : Nat) : t.leavesFrom start ≠ [] := by
  match t with
  | token k s => simp [leavesFrom]
  | node k [] => simp [leavesFrom]
  | node k (t :: ts) =>
    rw [leavesFrom]
    exact List.append_ne_nil_of_left_ne_nil (t.leavesFrom_ne_nil start) _

variable {t : Tree} {start : Nat} {a b l : Leaf}

theorem First.head?_eq (h : t.First start l) : (t.leavesFrom start).head? = some l := by
  induction h with
  | token => rw [leavesFrom, List.head?_cons]
  | childless => rw [leavesFrom, List.head?_cons]
  | node h ih => rw [leavesFrom, List.head?_append, ih, Option.some_or]

theorem Last.getLast?_eq (h : t.Last start l) : (t.leavesFrom start).getLast? = some l := by
  induction h with
  | token => rw [leavesFrom, List.getLast?_singleton]
  | childless => rw [leavesFrom, List.getLast?_singleton]
  | @node start k ts t l h ih =>
    rw [leavesFrom_node (List.append_ne_nil_of_right_ne_nil ts (List.cons_ne_nil t [])),
      Forest.leavesFrom_append, Forest.leavesFrom, Forest.leavesFrom, List.append_nil,
      List.getLast?_append, ih, Option.some_or]

theorem exists_first (t : Tree) (start : Nat) : ∃ l, t.First start l := by
  match t with
  | token k s => exact ⟨_, .token⟩
  | node k [] => exact ⟨_, .childless⟩
  | node k (t :: ts) =>
    obtain ⟨l, h⟩ := t.exists_first start
    exact ⟨l, .node h⟩

theorem exists_last (t : Tree) (start : Nat) : ∃ l, t.Last start l := by
  cases t with
  | token k s => exact ⟨_, .token⟩
  | node k ts =>
    rcases List.eq_nil_or_concat' ts with rfl | ⟨us, u, rfl⟩
    · exact ⟨_, .childless⟩
    · have hu : sizeOf u < sizeOf (us ++ [u]) :=
        List.sizeOf_lt_of_mem (List.mem_append_right us List.mem_cons_self)
      obtain ⟨l, h⟩ := u.exists_last (start + Forest.bytes us)
      exact ⟨l, .node h⟩
termination_by sizeOf t
decreasing_by
  subst_vars
  rw [Tree.node.sizeOf_spec]
  omega

theorem first_iff : t.First start l ↔ (t.leavesFrom start).head? = some l := by
  refine ⟨First.head?_eq, fun h => ?_⟩
  obtain ⟨l', hl⟩ := t.exists_first start
  obtain rfl := Option.some.inj (hl.head?_eq.symm.trans h)
  exact hl

theorem last_iff : t.Last start l ↔ (t.leavesFrom start).getLast? = some l := by
  refine ⟨Last.getLast?_eq, fun h => ?_⟩
  obtain ⟨l', hl⟩ := t.exists_last start
  obtain rfl := Option.some.inj (hl.getLast?_eq.symm.trans h)
  exact hl

/-- Two elements stand side by side in one of two lists, or where the lists meet. -/
theorem pair_infix_append {xs ys : List Leaf} :
    [a, b] <:+: xs ++ ys ↔
      [a, b] <:+: xs ∨ (xs.getLast? = some a ∧ ys.head? = some b) ∨ [a, b] <:+: ys := by
  have hsuffix : xs.getLast? = some a ↔ [a] <:+ xs := by
    rw [List.getLast?_eq_some_iff, List.IsSuffix]
    simp only [eq_comm]
  have hprefix : ys.head? = some b ↔ [b] <+: ys := by
    rw [List.head?_eq_some_iff, List.IsPrefix]
    simp only [eq_comm, List.singleton_append]
  rw [List.infix_append_iff_ne_nil, hsuffix, hprefix]
  constructor
  · rintro (h | h | ⟨us, vs, hus, hvs, heq, hxs, hys⟩)
    · exact .inl h
    · exact .inr (.inr h)
    · -- Each of the two parts has one of the two elements.
      obtain ⟨u, us, rfl⟩ := List.exists_cons_of_ne_nil hus
      obtain ⟨rfl, hback⟩ := List.cons.inj heq
      rcases List.append_eq_singleton_iff.1 hback.symm with ⟨rfl, rfl⟩ | ⟨-, hnil⟩
      · exact .inr (.inl ⟨hxs, hys⟩)
      · exact absurd hnil hvs
  · rintro (h | ⟨hxs, hys⟩ | h)
    · exact .inl h
    · exact .inr (.inr ⟨[a], [b], by simp, by simp, rfl, hxs, hys⟩)
    · exact .inr (.inl h)

theorem Next.adjacent (h : t.Next start a b) : [a, b] <:+: t.leavesFrom start := by
  induction h with
  | across ha hb =>
    rw [leavesFrom_node (by simp), Forest.leavesFrom_append, Forest.leavesFrom, Forest.leavesFrom]
    refine pair_infix_append.2 (.inr (.inr (pair_infix_append.2 (.inr (.inl ⟨ha.getLast?_eq, ?_⟩)))))
    rw [List.head?_append, hb.head?_eq, Option.some_or]
  | within h ih =>
    rw [leavesFrom_node (by simp), Forest.leavesFrom_append, Forest.leavesFrom]
    exact pair_infix_append.2 (.inr (.inr (pair_infix_append.2 (.inl ih))))

theorem Next.cons {k : Kind} {ts : Forest} {u : Tree}
    (h : (node k ts).Next (start + u.bytes) a b) : (node k (u :: ts)).Next start a b := by
  cases h with
  | @across _ _ ts t v us _ _ ha hb =>
    refine .across (f := u :: ts) ?_ ?_
    · rwa [Forest.bytes_cons, ← Nat.add_assoc]
    · rwa [Forest.bytes_cons, ← Nat.add_assoc]
  | @within _ _ ts t us _ _ h =>
    refine .within (f := u :: ts) ?_
    rwa [Forest.bytes_cons, ← Nat.add_assoc]

end Tree

mutual

theorem Tree.next_of_adjacent (t : Tree) {start : Nat} {a b : Leaf}
    (h : [a, b] <:+: t.leavesFrom start) : t.Next start a b := by
  match t with
  | .token k s => exact absurd h.length_le (by simp [Tree.leavesFrom])
  | .node k [] => exact absurd h.length_le (by simp [Tree.leavesFrom])
  | .node k (t :: ts) =>
    rw [Tree.leavesFrom_node (List.cons_ne_nil t ts)] at h
    exact Forest.next_of_adjacent (t :: ts) k h

theorem Forest.next_of_adjacent (ts : Forest) (k : Kind) {start : Nat} {a b : Leaf}
    (h : [a, b] <:+: Forest.leavesFrom start ts) : (Tree.node k ts).Next start a b := by
  cases ts with
  | nil => exact absurd h.length_le (by simp [Forest.leavesFrom])
  | cons t ts =>
    rw [Forest.leavesFrom, Tree.pair_infix_append] at h
    rcases h with h | ⟨ha, hb⟩ | h
    · exact .within (f := []) (Tree.next_of_adjacent t h)
    · cases ts with
      | nil => simp [Forest.leavesFrom] at hb
      | cons u us =>
        rw [Forest.leavesFrom, List.head?_append_of_ne_nil _ (u.leavesFrom_ne_nil _)] at hb
        exact .across (f := []) (Tree.last_iff.2 ha) (Tree.first_iff.2 hb)
    · exact .cons (Forest.next_of_adjacent ts k h)

end

/-- The walk goes from a leaf to its neighbour in the list. -/
theorem Tree.next_iff {t : Tree} {start : Nat} {a b : Leaf} :
    t.Next start a b ↔ [a, b] <:+: t.leavesFrom start :=
  ⟨Next.adjacent, t.next_of_adjacent⟩

/-! ### Spots -/

theorem Leaf.map_spotsFrom (before ls : List Leaf) : (spotsFrom before ls).map Spot.leaf = ls := by
  induction ls generalizing before with
  | nil => rfl
  | cons l ls ih => rw [spotsFrom, List.map_cons, ih]

/-- The leaves around a spot are those of the spots around it. -/
theorem Leaf.around_of_spotsFrom {before ls : List Leaf} {xs ys : List Spot} {s : Spot}
    (h : spotsFrom before ls = xs ++ s :: ys) :
    s.before = (xs.map Spot.leaf).reverse ++ before ∧ s.after = ys.map Spot.leaf := by
  induction ls generalizing before xs with
  | nil => simp [spotsFrom] at h
  | cons l ls ih =>
    rw [spotsFrom] at h
    cases xs with
    | nil =>
      obtain ⟨rfl, rfl⟩ := List.cons.inj h
      exact ⟨rfl, (map_spotsFrom _ _).symm⟩
    | cons x xs =>
      obtain ⟨rfl, htail⟩ := List.cons.inj h
      obtain ⟨hbefore, hafter⟩ := ih htail
      refine ⟨?_, hafter⟩
      rw [hbefore, List.map_cons, List.reverse_cons, List.append_assoc]
      rfl

/-- What stands beside a spot of a tree is what the walk goes to from there. -/
structure Spot.Walked (t : Tree) (s : Spot) : Prop where
  next : ∀ b ∈ s.after.head?, t.Next 0 s.leaf b
  last : s.after = [] → t.Last 0 s.leaf
  prev : ∀ a ∈ s.before.head?, t.Next 0 a s.leaf
  first : s.before = [] → t.First 0 s.leaf

namespace Tree

variable {t : Tree}

theorem map_spots (t : Tree) : t.spots.map Spot.leaf = t.leaves := Leaf.map_spotsFrom [] t.leaves

theorem around_of_spots {xs ys : List Spot} {s : Spot} (h : t.spots = xs ++ s :: ys) :
    s.before = (xs.map Spot.leaf).reverse ∧ s.after = ys.map Spot.leaf := by
  have haround := Leaf.around_of_spotsFrom h
  rwa [List.append_nil] at haround

theorem walked_of_mem_spots {s : Spot} (h : s ∈ t.spots) : s.Walked t := by
  obtain ⟨xs, ys, hsplit⟩ := List.append_of_mem h
  obtain ⟨hbefore, hafter⟩ := around_of_spots hsplit
  have hleaves : t.leavesFrom 0 = s.before.reverse ++ s.leaf :: s.after := by
    rw [hbefore, hafter, List.reverse_reverse]
    have hmap := t.map_spots
    rw [hsplit, List.map_append, List.map_cons] at hmap
    exact hmap.symm
  refine ⟨fun b hb => ?_, fun hnil => ?_, fun a ha => ?_, fun hnil => ?_⟩
  · obtain ⟨ls, hls⟩ := List.head?_eq_some_iff.1 hb
    rw [next_iff, hleaves, hls]
    exact ⟨s.before.reverse, ls, by simp⟩
  · rw [last_iff, hleaves, hnil, List.getLast?_concat]
  · obtain ⟨ls, hls⟩ := List.head?_eq_some_iff.1 ha
    rw [next_iff, hleaves, hls]
    exact ⟨ls.reverse, s.after, by simp⟩
  · rw [first_iff, hleaves, hnil]
    rfl

end Tree

/-! ### Nodes without text -/

/-- Each node of a tree has text. -/
def Tree.Filled (t : Tree) : Prop := ∀ x ∈ t.sites, x.tree.isNode → x.start < x.stop

mutual

/-- A leaf that is no token is a node without children. -/
theorem Tree.exists_childless (t : Tree) (start : Nat) (above : List Crumb) (leaves : Nat)
    (h : .gap ∈ t.leavesFrom start) :
    ∃ x ∈ t.sitesFrom start above leaves, ∃ k, x.tree = .node k [] := by
  match t with
  | .token k s => simp [Tree.leavesFrom] at h
  | .node k [] => exact ⟨_, by rw [Tree.sitesFrom]; exact List.mem_cons_self, k, rfl⟩
  | .node k (t :: ts) =>
    rw [Tree.leavesFrom_node (List.cons_ne_nil t ts)] at h
    obtain ⟨x, hx, hk⟩ := Forest.exists_childless (t :: ts) start k above [] leaves h
    exact ⟨x, by rw [Tree.sitesFrom]; exact List.mem_cons_of_mem _ hx, hk⟩

theorem Forest.exists_childless (ts : Forest) (start : Nat) (k : Kind) (above : List Crumb)
    (before : Forest) (leaves : Nat) (h : .gap ∈ Forest.leavesFrom start ts) :
    ∃ x ∈ Forest.sitesFrom start k above before leaves ts, ∃ k, x.tree = .node k [] := by
  cases ts with
  | nil => simp [Forest.leavesFrom] at h
  | cons t ts =>
    rw [Forest.leavesFrom, List.mem_append] at h
    rw [Forest.sitesFrom]
    rcases h with h | h
    · obtain ⟨x, hx, hk⟩ := Tree.exists_childless t start (⟨k, before⟩ :: above) leaves h
      exact ⟨x, List.mem_append_left _ hx, hk⟩
    · obtain ⟨x, hx, hk⟩ := Forest.exists_childless ts _ k above (t :: before) _ h
      exact ⟨x, List.mem_append_right _ hx, hk⟩

end

theorem Tree.Filled.isSome_token? {t : Tree} (h : t.Filled) : ∀ l ∈ t.leaves, l.token?.isSome := by
  intro l hl
  cases l with
  | token p => rfl
  | gap =>
    obtain ⟨x, hx, k, hk⟩ := t.exists_childless 0 [] 0 hl
    have hlt := h x hx (by rw [hk]; rfl)
    rw [Site.stop, hk, Tree.bytes, Forest.bytes_nil] at hlt
    exact absurd hlt (Nat.lt_irrefl _)

end ScriptTree
