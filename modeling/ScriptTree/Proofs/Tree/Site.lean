import ScriptTree.Proofs.Tree.Address

namespace ScriptTree

def Site.sites (x : Site) : List Site := x.tree.sitesFrom x.start x.above x.leavesBefore

def Site.address (x : Site) : Address := (x.above.map fun c => c.before.length).reverse

namespace Forest

variable {k : Kind} {above : List Crumb} {before ts : Forest} {start leaves : Nat}

theorem sitesFrom_eq (ts : Forest) (start : Nat) (k : Kind) (above : List Crumb) (before : Forest)
    (leaves : Nat) :
    sitesFrom start k above before leaves ts =
      (childSites k above before start leaves ts).flatMap Site.sites := by
  induction ts generalizing start before leaves with
  | nil => rw [sitesFrom, childSites, List.flatMap_nil]
  | cons t ts ih => rw [sitesFrom, childSites, List.flatMap_cons, ih, Site.sites]

/-- A child of a node comes after others, which its crumb has in turn. -/
theorem mem_childSites_iff {c : Site} :
    c ∈ childSites k above before start leaves ts ↔
      ∃ fs t gs, ts = fs ++ t :: gs ∧
        c = ⟨t, start + bytes fs, ⟨k, fs.reverse ++ before⟩ :: above, leaves + leafCount fs⟩ := by
  induction ts generalizing before start leaves with
  | nil => simp [childSites]
  | cons u ts ih =>
    rw [childSites, List.mem_cons, ih]
    constructor
    · rintro (rfl | ⟨fs, t, gs, rfl, rfl⟩)
      · exact ⟨[], u, ts, rfl, by simp [leafCount]⟩
      · exact ⟨u :: fs, t, gs, rfl, by simp [leafCount, Nat.add_assoc]⟩
    · rintro ⟨fs, t, gs, hts, rfl⟩
      cases fs with
      | nil =>
        obtain ⟨rfl, rfl⟩ := List.cons.inj hts
        exact .inl (by simp [leafCount])
      | cons f fs =>
        obtain ⟨rfl, rfl⟩ := List.cons.inj hts
        exact .inr ⟨fs, t, gs, rfl, by simp [leafCount, Nat.add_assoc]⟩

theorem map_tree_childSites (ts : Forest) (k : Kind) (above : List Crumb) (before : Forest)
    (start leaves : Nat) : (childSites k above before start leaves ts).map Site.tree = ts := by
  induction ts generalizing before start leaves with
  | nil => rfl
  | cons t ts ih => rw [childSites, List.map_cons, ih]

theorem above_of_childSites {xs ys : List Site} {x : Site}
    (h : childSites k above before start leaves ts = xs ++ x :: ys) :
    x.above = ⟨k, (xs.map Site.tree).reverse ++ before⟩ :: above := by
  induction ts generalizing before start leaves xs with
  | nil => simp [childSites] at h
  | cons t ts ih =>
    rw [childSites] at h
    cases xs with
    | nil =>
      obtain ⟨rfl, -⟩ := List.cons.inj h
      rfl
    | cons z xs =>
      obtain ⟨rfl, htail⟩ := List.cons.inj h
      rw [ih htail, List.map_cons, List.reverse_cons, List.append_assoc]
      rfl

theorem height_le_of_mem {t : Tree} (h : t ∈ ts) : t.height ≤ height ts := by
  induction ts with
  | nil => exact absurd h List.not_mem_nil
  | cons u ts ih =>
    rw [height]
    rcases List.mem_cons.1 h with rfl | h
    · exact Nat.le_max_left ..
    · exact (ih h).trans (Nat.le_max_right ..)

theorem bytes_append (ts us : Forest) : bytes (ts ++ us) = bytes ts + bytes us := by
  induction ts with
  | nil => simp
  | cons t ts ih => simp [ih, Nat.add_assoc]

end Forest

namespace Site

variable {x y c : Site}

theorem mem_children_iff :
    c ∈ x.children ↔
      ∃ fs t gs, x.tree.children = fs ++ t :: gs ∧
        c = ⟨t, x.start + Forest.bytes fs, ⟨x.kind, fs.reverse⟩ :: x.above,
          x.leavesBefore + Forest.leafCount fs⟩ := by
  rw [children, Forest.mem_childSites_iff]
  simp only [List.append_nil]

theorem map_tree_children (x : Site) : x.children.map tree = x.tree.children :=
  Forest.map_tree_childSites ..

theorem above_of_children {xs ys : List Site} (h : y.children = xs ++ x :: ys) :
    x.above = ⟨y.kind, (xs.map tree).reverse⟩ :: y.above := by
  rw [Forest.above_of_childSites h, List.append_nil]

theorem eq_of_children {xs xs' ys ys' : List Site} (h : y.children = xs ++ x :: ys)
    (h' : y.children = xs' ++ x :: ys') : xs = xs' ∧ ys = ys' := by
  have habove := (above_of_children h).symm.trans (above_of_children h')
  have hbefore := (Crumb.mk.inj (List.cons.inj habove).1).2
  have hlength : xs.length = xs'.length := by simpa using congrArg List.length hbefore
  obtain ⟨hxs, hys⟩ := List.append_inj (h.symm.trans h') hlength
  exact ⟨hxs, (List.cons.inj hys).2⟩

theorem not_mem_behind {xs ys : List Site} (h : y.children = xs ++ x :: ys) : x ∉ ys := by
  intro hx
  obtain ⟨us, vs, rfl⟩ := List.append_of_mem hx
  have h' : y.children = (xs ++ x :: us) ++ x :: vs := by simpa using h
  exact absurd (congrArg List.length (eq_of_children h h').1) (by simp)

theorem sites_eq (x : Site) : x.sites = x :: x.children.flatMap sites := by
  obtain ⟨t, start, above, leaves⟩ := x
  cases t with
  | token k s =>
    rw [sites, Tree.sitesFrom, children, Tree.children, Forest.childSites, List.flatMap_nil]
  | node k ts => rw [sites, Tree.sitesFrom, Forest.sitesFrom_eq, children, Tree.children, kind, Tree.kind]

theorem mem_sites_iff : y ∈ x.sites ↔ y = x ∨ ∃ c ∈ x.children, y ∈ c.sites := by
  rw [sites_eq, List.mem_cons, List.mem_flatMap]

theorem self_mem_sites (x : Site) : x ∈ x.sites := mem_sites_iff.2 (.inl rfl)

theorem height_lt_of_mem_children (h : c ∈ x.children) : c.tree.height < x.tree.height := by
  obtain ⟨fs, t, gs, hchildren, rfl⟩ := mem_children_iff.1 h
  obtain ⟨u, start, above, leaves⟩ := x
  cases u with
  | token k s => exact absurd hchildren (by simp [Tree.children])
  | node k ts =>
    obtain rfl : ts = fs ++ t :: gs := hchildren
    rw [Tree.height]
    exact Nat.lt_succ_of_le (Forest.height_le_of_mem (by simp))

/-- What passes from an element to its children holds of all that is below it. -/
theorem forall_mem_sites {P : Site → Prop} (child : ∀ y, P y → ∀ c ∈ y.children, P c) (x : Site)
    (hx : P x) : ∀ y ∈ x.sites, P y := by
  intro y hy
  rcases mem_sites_iff.1 hy with rfl | ⟨c, hc, hy⟩
  · exact hx
  · exact forall_mem_sites child c (child x hx c hc) y hy
termination_by x.tree.height
decreasing_by exact height_lt_of_mem_children hc

/-- What is below a part of an element is below the element. -/
theorem sites_subset_of_mem (hy : y ∈ x.sites) : y.sites ⊆ x.sites := by
  refine forall_mem_sites (P := fun y => y.sites ⊆ x.sites) (fun y hy c hc z hz => ?_) x
    (List.Subset.refl _) y hy
  exact hy (mem_sites_iff.2 (.inr ⟨c, hc, hz⟩))

theorem mem_sites_of_mem_children (hy : y ∈ x.sites) (hc : c ∈ y.children) : c ∈ x.sites :=
  sites_subset_of_mem hy (mem_sites_iff.2 (.inr ⟨c, hc, c.self_mem_sites⟩))

theorem exists_parent (hy : y ∈ x.sites) : y = x ∨ ∃ z ∈ x.sites, y ∈ z.children := by
  refine (forall_mem_sites (P := fun y => y ∈ x.sites ∧ (y = x ∨ ∃ z ∈ x.sites, y ∈ z.children))
    (fun z hz c hc => ?_) x ⟨x.self_mem_sites, .inl rfl⟩ y hy).2
  exact ⟨mem_sites_of_mem_children hz.1 hc, .inr ⟨z, hz.1, hc⟩⟩

/-- The range of a child lies in that of its parent. -/
theorem bounds_of_mem_children (hc : c ∈ x.children) : x.start ≤ c.start ∧ c.stop ≤ x.stop := by
  obtain ⟨fs, t, gs, hchildren, rfl⟩ := mem_children_iff.1 hc
  obtain ⟨u, start, above, leaves⟩ := x
  cases u with
  | token k s => exact absurd hchildren (by simp [Tree.children])
  | node k ts =>
    obtain rfl : ts = fs ++ t :: gs := hchildren
    simp only [stop, Tree.bytes, Forest.bytes_append, Forest.bytes_cons]
    omega

theorem bounds_of_mem_sites (hy : y ∈ x.sites) : x.start ≤ y.start ∧ y.stop ≤ x.stop := by
  refine forall_mem_sites (P := fun y => x.start ≤ y.start ∧ y.stop ≤ x.stop)
    (fun y hy c hc => ?_) x ⟨Nat.le_refl _, Nat.le_refl _⟩ y hy
  obtain ⟨hstart, hstop⟩ := bounds_of_mem_children hc
  exact ⟨hy.1.trans hstart, hstop.trans hy.2⟩

end Site

/-! ### Addresses and paths -/

theorem Tree.at?_append (t : Tree) (start : Nat) (p q : Address) :
    t.at? start (p ++ q) = (t.at? start p).bind fun e => e.tree.at? e.start q := by
  induction p generalizing t start with
  | nil => rfl
  | cons i p ih =>
    simp only [List.cons_append, at?, ih]
    rw [Option.bind_assoc]

/-- At the address of a site stands its element, and its path has the kinds of the elements on the way
there from the root. -/
structure Site.Reached (t : Tree) (x : Site) : Prop where
  element : t.at? 0 x.address = some ⟨x.start, x.tree⟩
  path : x.path.map some = x.address.inits.map fun p => (t.at? 0 p).map fun e => e.tree.kind

namespace Site

variable {t : Tree} {x c : Site}

theorem reached_root (t : Tree) : t.root.Reached t where
  element := rfl
  path := rfl

/-- The address of a child goes on with its index, and its path with its kind. -/
theorem exists_index (hc : c ∈ x.children) :
    ∃ i, c.address = x.address ++ [i] ∧ c.path = x.path ++ [c.kind] ∧
      x.tree.children[i]? = some c.tree ∧
      c.start = x.start + Forest.bytes (x.tree.children.take i) := by
  obtain ⟨fs, u, gs, hchildren, rfl⟩ := mem_children_iff.1 hc
  refine ⟨fs.length, ?_, ?_, ?_, ?_⟩
  · simp [address]
  · simp [path, kind]
  · simp [hchildren]
  · simp [hchildren]

theorem Reached.child (h : x.Reached t) (hc : c ∈ x.children) : c.Reached t := by
  obtain ⟨i, haddress, hpath, hchild, hstart⟩ := exists_index hc
  have hat : t.at? 0 c.address = some ⟨c.start, c.tree⟩ := by
    rw [haddress, Tree.at?_append, h.element, Option.bind_some, Tree.at?, hchild, Option.bind_some,
      ← hstart, Tree.at?]
  refine ⟨hat, ?_⟩
  rw [hpath, List.map_append, h.path]
  rw [haddress] at hat ⊢
  simp [hat, kind]

theorem getLast?_path (x : Site) : x.path.getLast? = some x.kind := by simp [path]

theorem head?_path (hx : x ∈ t.sites) : x.path.head? = some t.kind := by
  refine forall_mem_sites (P := fun x => x.path.head? = some t.kind) (fun y hy c hc => ?_) t.root rfl
    x hx
  obtain ⟨i, -, hpath, -⟩ := exists_index hc
  rw [hpath, List.head?_append, hy, Option.some_or]

theorem reached_of_mem_sites (hx : x ∈ t.sites) : x.Reached t :=
  forall_mem_sites (fun _ hy _ hc => hy.child hc) t.root (reached_root t) x hx

end Site

end ScriptTree
