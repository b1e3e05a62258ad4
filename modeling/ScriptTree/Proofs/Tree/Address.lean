import Mathlib.Data.List.Lex
import ScriptTree.Proofs.Tree.Yield
import ScriptTree.Tree.Site

namespace ScriptTree

abbrev Address := List Nat

structure Element where
  start : Nat
  tree : Tree

def Tree.at? (t : Tree) (start : Nat) : Address → Option Element
  | [] => some ⟨start, t⟩
  | i :: p =>
    t.children[i]?.bind fun u => u.at? (start + Forest.bytes (t.children.take i)) p

mutual

def Tree.elements (start : Nat) : Tree → List (Address × Element)
  | .token k s => [([], ⟨start, .token k s⟩)]
  | .node k ts => ([], ⟨start, .node k ts⟩) :: Forest.elements start 0 ts

def Forest.elements (start i : Nat) : Forest → List (Address × Element)
  | [] => []
  | t :: ts =>
    (t.elements start).map (fun e => (i :: e.1, e.2)) ++
      Forest.elements (start + t.bytes) (i + 1) ts

end

namespace Forest

@[simp] theorem bytes_nil : bytes [] = 0 := by rw [bytes]

@[simp] theorem bytes_cons (t : Tree) (ts : Forest) : bytes (t :: ts) = t.bytes + bytes ts := by
  rw [bytes]

end Forest

mutual

/-- The sites of a tree are its elements. -/
theorem Tree.map_sitesFrom (t : Tree) (start : Nat) (above : List Crumb) (leaves : Nat) :
    (t.sitesFrom start above leaves).map (fun s => Element.mk s.start s.tree) =
      (t.elements start).map Prod.snd := by
  cases t with
  | token k s => simp [Tree.sitesFrom, Tree.elements]
  | node k ts =>
    rw [Tree.sitesFrom, Tree.elements, List.map_cons, List.map_cons,
      Forest.map_sitesFrom ts _ _ _ _ _ 0]

theorem Forest.map_sitesFrom (ts : Forest) (start : Nat) (k : Kind) (above : List Crumb)
    (before : Forest) (leaves i : Nat) :
    (Forest.sitesFrom start k above before leaves ts).map (fun s => Element.mk s.start s.tree) =
      (Forest.elements start i ts).map Prod.snd := by
  cases ts with
  | nil => simp [Forest.sitesFrom, Forest.elements]
  | cons t ts =>
    simp only [Forest.sitesFrom, Forest.elements, List.map_append, List.map_map]
    rw [Tree.map_sitesFrom t, Forest.map_sitesFrom ts _ _ _ _ _ (i + 1)]
    rfl

end

mutual

/-- An element is listed with its address. -/
theorem Tree.mem_elements_iff (t : Tree) (start : Nat) (p : Address) (e : Element) :
    (p, e) ∈ t.elements start ↔ t.at? start p = some e := by
  cases t with
  | token k s =>
    cases p with
    | nil => simp [Tree.elements, Tree.at?, eq_comm]
    | cons i p => simp [Tree.elements, Tree.at?, Tree.children]
  | node k ts =>
    rw [Tree.elements, List.mem_cons, Forest.mem_elements_iff ts start 0]
    cases p with
    | nil => simp [Tree.at?, eq_comm]
    | cons i p => simp [Tree.at?, Tree.children, Option.bind_eq_some_iff]

theorem Forest.mem_elements_iff (ts : Forest) (start i : Nat) (p : Address) (e : Element) :
    (p, e) ∈ Forest.elements start i ts ↔
      ∃ j q u, p = (i + j) :: q ∧ ts[j]? = some u ∧
        u.at? (start + Forest.bytes (ts.take j)) q = some e := by
  cases ts with
  | nil => simp [Forest.elements]
  | cons t ts =>
    rw [Forest.elements, List.mem_append, Forest.mem_elements_iff ts _ (i + 1)]
    constructor
    · rintro (h | ⟨j, q, u, rfl, hu, he⟩)
      · obtain ⟨⟨q, e'⟩, hq, heq⟩ := List.mem_map.1 h
        obtain ⟨rfl, rfl⟩ := Prod.mk.inj heq
        exact ⟨0, q, t, rfl, rfl, by simpa using (Tree.mem_elements_iff t start q e').1 hq⟩
      · refine ⟨j + 1, q, u, by rw [Nat.add_assoc, Nat.add_comm 1], hu, ?_⟩
        rw [List.take_succ_cons, Forest.bytes_cons, ← Nat.add_assoc]
        exact he
    · rintro ⟨j, q, u, rfl, hu, he⟩
      cases j with
      | zero =>
        obtain rfl : t = u := by simpa using hu
        refine .inl (List.mem_map.2 ⟨(q, e), ?_, rfl⟩)
        exact (Tree.mem_elements_iff t start q e).2 (by simpa using he)
      | succ j =>
        refine .inr ⟨j, q, u, by rw [Nat.add_assoc, Nat.add_comm 1], by simpa using hu, ?_⟩
        rw [List.take_succ_cons, Forest.bytes_cons, ← Nat.add_assoc] at he
        exact he

end

mutual

/-- Preorder is the order of the addresses. -/
theorem Tree.pairwise_elements (t : Tree) (start : Nat) :
    ((t.elements start).map Prod.fst).Pairwise (· < ·) := by
  cases t with
  | token k s => simp [Tree.elements]
  | node k ts =>
    rw [Tree.elements, List.map_cons, List.pairwise_cons]
    refine ⟨fun p hp => ?_, Forest.pairwise_elements ts start 0⟩
    obtain ⟨⟨p, e⟩, hmem, rfl⟩ := List.mem_map.1 hp
    obtain ⟨j, q, u, rfl, -, -⟩ := (Forest.mem_elements_iff ts start 0 p e).1 hmem
    exact List.nil_lt_cons _ _

theorem Forest.pairwise_elements (ts : Forest) (start i : Nat) :
    ((Forest.elements start i ts).map Prod.fst).Pairwise (· < ·) := by
  cases ts with
  | nil => simp [Forest.elements]
  | cons t ts =>
    rw [Forest.elements, List.map_append, List.map_map, List.pairwise_append]
    refine ⟨?_, Forest.pairwise_elements ts _ _, ?_⟩
    · have ht := Tree.pairwise_elements t start
      rw [List.pairwise_map] at ht ⊢
      exact ht.imp fun h => List.cons_lt_cons_iff.2 (.inr ⟨rfl, h⟩)
    · -- All addresses of the trees behind have a greater first index.
      intro p hp q hq
      obtain ⟨e, -, rfl⟩ := List.mem_map.1 hp
      obtain ⟨⟨q, e'⟩, hmem, rfl⟩ := List.mem_map.1 hq
      obtain ⟨j, r, u, rfl, -, -⟩ := (Forest.mem_elements_iff ts _ (i + 1) q e').1 hmem
      exact List.cons_lt_cons_iff.2 (.inl (by omega))

end

mutual

theorem Tree.bounds_of_mem_elements (t : Tree) (start : Nat) :
    ∀ x ∈ t.elements start, start ≤ x.2.start ∧ x.2.start ≤ start + t.bytes := by
  intro x hx
  cases t with
  | token k s =>
    obtain rfl : x = _ := by simpa [Tree.elements] using hx
    exact ⟨Nat.le_refl _, Nat.le_add_right ..⟩
  | node k ts =>
    rw [Tree.elements, List.mem_cons] at hx
    rcases hx with rfl | hx
    · exact ⟨Nat.le_refl _, Nat.le_add_right ..⟩
    · exact Forest.bounds_of_mem_elements ts start 0 x hx

theorem Forest.bounds_of_mem_elements (ts : Forest) (start i : Nat) :
    ∀ x ∈ Forest.elements start i ts, start ≤ x.2.start ∧ x.2.start ≤ start + Forest.bytes ts := by
  intro x hx
  cases ts with
  | nil => simp [Forest.elements] at hx
  | cons t ts =>
    rw [Forest.elements, List.mem_append] at hx
    rw [Forest.bytes_cons]
    rcases hx with hx | hx
    · obtain ⟨y, hy, rfl⟩ := List.mem_map.1 hx
      obtain ⟨hle, hge⟩ := Tree.bounds_of_mem_elements t start y hy
      exact ⟨hle, hge.trans (by omega)⟩
    · have := Forest.bounds_of_mem_elements ts _ _ x hx
      omega

end

mutual

/-- In preorder no element starts before an earlier one. -/
theorem Tree.pairwise_start (t : Tree) (start : Nat) :
    (t.elements start).Pairwise fun x y => x.2.start ≤ y.2.start := by
  cases t with
  | token k s => simp [Tree.elements]
  | node k ts =>
    rw [Tree.elements, List.pairwise_cons]
    exact ⟨fun x hx => (Forest.bounds_of_mem_elements ts start 0 x hx).1,
      Forest.pairwise_start ts start 0⟩

theorem Forest.pairwise_start (ts : Forest) (start i : Nat) :
    (Forest.elements start i ts).Pairwise fun x y => x.2.start ≤ y.2.start := by
  cases ts with
  | nil => simp [Forest.elements]
  | cons t ts =>
    rw [Forest.elements, List.pairwise_append, List.pairwise_map]
    refine ⟨Tree.pairwise_start t start, Forest.pairwise_start ts _ _, fun x hx y hy => ?_⟩
    obtain ⟨z, hz, rfl⟩ := List.mem_map.1 hx
    have hle := (Tree.bounds_of_mem_elements t start z hz).2
    exact hle.trans (Forest.bounds_of_mem_elements ts _ _ y hy).1

end

/-! ### Relations that hold of every node -/

mutual

def Tree.Licensed (R : Kind → Forest → Prop) : Tree → Prop
  | .token _ _ => True
  | .node k ts => R k ts ∧ Forest.Licensed R ts

def Forest.Licensed (R : Kind → Forest → Prop) : Forest → Prop
  | [] => True
  | t :: ts => t.Licensed R ∧ Forest.Licensed R ts

end

namespace Forest

variable {R : Kind → Forest → Prop}

theorem licensed_iff {ts : Forest} : Licensed R ts ↔ ∀ t ∈ ts, t.Licensed R := by
  induction ts with
  | nil => simp [Licensed]
  | cons t ts ih => simp [Licensed, ih]

theorem licensed_append {ts us : Forest} :
    Licensed R (ts ++ us) ↔ Licensed R ts ∧ Licensed R us := by
  simp only [licensed_iff, List.forall_mem_append]

theorem licensed_node {k : Kind} {ts : Forest} :
    Licensed R [.node k ts] ↔ R k ts ∧ Licensed R ts := by
  simp [Licensed, Tree.Licensed]

theorem licensed_tokens {ts : Forest} (h : ∀ t ∈ ts, t.isNode = false) : Licensed R ts := by
  rw [licensed_iff]
  intro t ht
  cases t with
  | token k s => trivial
  | node k us => exact absurd (h _ ht) (by simp [Tree.isNode])

theorem licensed_map_tree (ts : List Token) : Licensed R (ts.map Token.tree) := by
  apply licensed_tokens
  intro t ht
  obtain ⟨u, -, rfl⟩ := List.mem_map.1 ht
  rfl

end Forest

mutual

/-- What holds of every node holds at every site of a node. -/
theorem Tree.licensed_sitesFrom {R : Kind → Forest → Prop} (t : Tree) (h : t.Licensed R)
    (start : Nat) (above : List Crumb) (leaves : Nat) :
    ∀ x ∈ t.sitesFrom start above leaves, x.tree.isNode → R x.kind x.tree.children := by
  intro x hx hnode
  cases t with
  | token k s =>
    obtain rfl := List.mem_singleton.1 (by rwa [Tree.sitesFrom] at hx)
    exact absurd hnode Bool.false_ne_true
  | node k ts =>
    rw [Tree.Licensed] at h
    rw [Tree.sitesFrom, List.mem_cons] at hx
    rcases hx with rfl | hx
    · exact h.1
    · exact Forest.licensed_sitesFrom ts h.2 start k above [] leaves x hx hnode

theorem Forest.licensed_sitesFrom {R : Kind → Forest → Prop} (ts : Forest)
    (h : Forest.Licensed R ts) (start : Nat) (k : Kind) (above : List Crumb) (before : Forest)
    (leaves : Nat) :
    ∀ x ∈ Forest.sitesFrom start k above before leaves ts,
      x.tree.isNode → R x.kind x.tree.children := by
  intro x hx hnode
  cases ts with
  | nil => simp [Forest.sitesFrom] at hx
  | cons t ts =>
    rw [Forest.Licensed] at h
    rw [Forest.sitesFrom, List.mem_append] at hx
    rcases hx with hx | hx
    · exact Tree.licensed_sitesFrom t h.1 start _ leaves x hx hnode
    · exact Forest.licensed_sitesFrom ts h.2 _ k above _ _ x hx hnode

end

end ScriptTree
