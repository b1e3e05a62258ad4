import ScriptTree.Proofs.Tree.Leaf
import ScriptTree.Proofs.Tree.Site
import ScriptTree.Tree.Search

namespace ScriptTree

theorem Tree.height_pos (t : Tree) : 0 < t.height := by cases t <;> simp [Tree.height]

namespace Site

/-- Sites one behind the other, from an offset to another one. -/
inductive Abut : Nat → Nat → List Site → Prop
  | nil {n} : Abut n n []
  | cons {x xs stop} (h : Abut x.stop stop xs) : Abut x.start stop (x :: xs)

variable {x y c : Site} {xs ys : List Site} {start mid stop offset : Nat}

/-- An offset is in the text of the element or at one of its ends; without text there is none. -/
def touches (offset : Nat) (x : Site) : Bool := x.start ≠ x.stop && x.covers offset offset

theorem start_le_stop (x : Site) : x.start ≤ x.stop := Nat.le_add_right ..

theorem covers_iff : x.covers start stop ↔ x.start ≤ start ∧ stop ≤ x.stop := by simp [covers]

theorem touches_iff : x.touches offset ↔ x.start < x.stop ∧ x.start ≤ offset ∧ offset ≤ x.stop := by
  have := x.start_le_stop
  simp only [touches, Bool.and_eq_true, decide_eq_true_eq, covers_iff]
  omega

namespace Abut

theorem bounds (h : Abut start stop xs) :
    start ≤ stop ∧ ∀ x ∈ xs, start ≤ x.start ∧ x.stop ≤ stop := by
  induction h with
  | nil => exact ⟨Nat.le_refl _, nofun⟩
  | @cons x xs stop h ih =>
    have hx := x.start_le_stop
    refine ⟨hx.trans ih.1, fun y hy => ?_⟩
    rcases List.mem_cons.1 hy with rfl | hy
    · exact ⟨Nat.le_refl _, ih.1⟩
    · exact ⟨hx.trans (ih.2 y hy).1, (ih.2 y hy).2⟩

theorem append (h : Abut start mid xs) (h' : Abut mid stop ys) : Abut start stop (xs ++ ys) := by
  induction h with
  | nil => exact h'
  | cons h ih => exact .cons (ih h')

theorem flatMap {f : Site → List Site} (h : Abut start stop xs)
    (hf : ∀ x ∈ xs, Abut x.start x.stop (f x)) : Abut start stop (xs.flatMap f) := by
  induction h with
  | nil => exact .nil
  | cons h ih =>
    obtain ⟨hx, hxs⟩ := List.forall_mem_cons.1 hf
    exact hx.append (ih hxs)

/-- No two of the sites cover a range that is not empty. -/
theorem eq_of_covers {s e : Nat} (h : Abut start stop xs) (hx : x ∈ xs) (hy : y ∈ xs)
    (hxs : x.covers s e) (hys : y.covers s e) (hlt : s < e) : x = y := by
  rw [covers_iff] at hxs hys
  induction h with
  | nil => exact absurd hx List.not_mem_nil
  | cons h ih =>
    rcases List.mem_cons.1 hx with rfl | hx'
    · rcases List.mem_cons.1 hy with rfl | hy'
      · rfl
      · have := (h.bounds.2 y hy').1
        omega
    · rcases List.mem_cons.1 hy with rfl | hy'
      · have := (h.bounds.2 x hx').1
        omega
      · exact ih hx' hy'

/-- At an offset stands one of the sites that have text, or two of them meet there. -/
theorem filter_touches (h : Abut start stop xs) (hlt : start < stop) (hstart : start ≤ offset)
    (hstop : offset ≤ stop) :
    (∃ x, xs.filter (touches offset) = [x] ∧ (offset < stop → offset < x.stop)) ∨
      ∃ x y, xs.filter (touches offset) = [x, y] ∧ x.stop = offset ∧ y.start = offset ∧
        start < offset ∧ offset < stop := by
  induction h with
  | nil => exact absurd hlt (Nat.lt_irrefl _)
  | @cons x xs stop h ih =>
    have hle := x.start_le_stop
    by_cases hx : x.touches offset
    · obtain ⟨hxlt, -, hxstop⟩ := touches_iff.1 hx
      rw [List.filter_cons_of_pos hx]
      by_cases hmeet : offset = x.stop ∧ offset < stop
      · -- What stands behind `x` starts at the offset, so just one site of it is there.
        obtain ⟨rfl, hmore⟩ := hmeet
        rcases ih hmore (Nat.le_refl _) hstop with ⟨y, hfilter, hystop⟩ | ⟨y, z, -, -, -, hbefore, -⟩
        · have hy : y ∈ xs.filter (touches x.stop) := by simp [hfilter]
          obtain ⟨hmem, htouches⟩ := List.mem_filter.1 hy
          have hystart := (touches_iff.1 htouches).2.1
          exact .inr ⟨x, y, by rw [hfilter], rfl, Nat.le_antisymm hystart (h.bounds.2 y hmem).1, hxlt,
            hmore⟩
        · exact absurd hbefore (Nat.lt_irrefl _)
      · have hnone : xs.filter (touches offset) = [] := by
          refine List.filter_eq_nil_iff.2 fun y hy htouches => ?_
          have := touches_iff.1 htouches
          have := h.bounds.2 y hy
          omega
        exact .inl ⟨x, by rw [hnone], by omega⟩
    · rw [List.filter_cons_of_neg hx]
      rw [touches_iff] at hx
      rcases ih (by omega) (by omega) hstop with hone | ⟨y, z, hfilter, hy, hz, hbefore, hbehind⟩
      · exact .inl hone
      · exact .inr ⟨y, z, hfilter, hy, hz, hle.trans_lt hbefore, hbehind⟩

end Abut

theorem abut_childSites (k : Kind) (above : List Crumb) (before : Forest) (start leaves : Nat)
    (ts : Forest) :
    Abut start (start + Forest.bytes ts) (Forest.childSites k above before start leaves ts) := by
  induction ts generalizing before start leaves with
  | nil =>
    rw [Forest.childSites, Forest.bytes_nil]
    exact .nil
  | cons t ts ih =>
    rw [Forest.childSites, Forest.bytes_cons, ← Nat.add_assoc]
    exact .cons (x := ⟨t, start, ⟨k, before⟩ :: above, leaves⟩) (ih ..)

theorem abut_children (h : x.tree.isNode) : Abut x.start x.stop x.children := by
  obtain ⟨t, start, above, leaves⟩ := x
  cases t with
  | token k s => exact absurd h Bool.false_ne_true
  | node k ts => exact abut_childSites ..

theorem children_of_isToken (h : x.isToken) : x.children = [] := by
  obtain ⟨t, start, above, leaves⟩ := x
  cases t with
  | token k s => rfl
  | node k ts => exact absurd h Bool.false_ne_true

theorem sites_of_isToken (h : x.isToken) : x.sites = [x] := by
  rw [sites_eq, children_of_isToken h, List.flatMap_nil]

theorem isNode_or_isToken (x : Site) : x.tree.isNode ∨ x.isToken := by
  rw [isToken]
  cases x.tree.isNode <;> simp

/-! ### Tokens at an offset -/

def tokens (x : Site) : List Site := x.sites.filter isToken

def tokensAt (offset : Nat) (x : Site) : List Site := x.tokens.filter (touches offset)

theorem tokens_of_isToken (h : x.isToken) : x.tokens = [x] := by
  rw [tokens, sites_of_isToken h, List.filter_cons_of_pos h, List.filter_nil]

theorem tokens_of_isNode (h : x.tree.isNode) : x.tokens = x.children.flatMap tokens := by
  rw [tokens, sites_eq, List.filter_cons_of_neg (by simp [isToken, h]), List.filter_flatMap]
  rfl

theorem abut_tokens (x : Site) : Abut x.start x.stop x.tokens := by
  rcases x.isNode_or_isToken with h | h
  · rw [tokens_of_isNode h]
    exact (abut_children h).flatMap fun c hc => abut_tokens c
  · rw [tokens_of_isToken h]
    exact .cons .nil
termination_by x.tree.height
decreasing_by exact height_lt_of_mem_children hc

theorem tokensAt_of_not_touches (h : ¬x.touches offset) : x.tokensAt offset = [] := by
  refine List.filter_eq_nil_iff.2 fun y hy htouches => h ?_
  have := touches_iff.1 htouches
  have := bounds_of_mem_sites (List.mem_of_mem_filter hy)
  exact touches_iff.2 (by omega)

theorem tokensAt_of_isNode (h : x.tree.isNode) :
    x.tokensAt offset = (x.children.filter (touches offset)).flatMap (tokensAt offset) := by
  rw [tokensAt, tokens_of_isNode h, List.filter_flatMap]
  generalize x.children = cs
  induction cs with
  | nil => rfl
  | cons c cs ih =>
    rw [List.flatMap_cons, ih]
    by_cases hc : c.touches offset
    · rw [List.filter_cons_of_pos hc, List.flatMap_cons]
      rfl
    · rw [List.filter_cons_of_neg hc]
      exact congrArg (· ++ _) (tokensAt_of_not_touches hc)

/-- At an end of the text of an element stands one token. -/
theorem exists_tokensAt_end (h : x.touches offset) (hend : offset = x.start ∨ offset = x.stop) :
    ∃ y, x.tokensAt offset = [y] := by
  obtain ⟨hlt, hstart, hstop⟩ := touches_iff.1 h
  rcases x.abut_tokens.filter_touches hlt hstart hstop with ⟨y, hy, -⟩ | ⟨y, z, -, -, -, hmid⟩
  · exact ⟨y, hy⟩
  · omega

/-- A search from an element down to the tokens at an offset, of which there are two if they meet
there; it looks no further at children without text. There are `n` levels at most. A search that finds
no child, or more of them than can be there, is stuck. -/
def search? (offset : Nat) : Nat → Site → Option (List Site)
  | 0, _ => none
  | n + 1, x =>
    if x.isToken then some [x]
    else if x.start = x.stop then some []
    else
      match x.children.filter (touches offset) with
      | [c] => search? offset n c
      | [c, d] =>
        match search? offset n c, search? offset n d with
        | some [a], some [b] => some [a, b]
        | _, _ => none
      | _ => none

/-- The search finds the tokens that the offset touches. -/
theorem search?_eq {n : Nat} (hn : x.tree.height ≤ n) (h : x.touches offset) :
    search? offset n x = some (x.tokensAt offset) := by
  induction n generalizing x with
  | zero => exact absurd hn (by have := x.tree.height_pos; omega)
  | succ n ih =>
    have hheight {c : Site} (hc : c ∈ x.children.filter (touches offset)) : c.tree.height ≤ n := by
      have := height_lt_of_mem_children (List.mem_of_mem_filter hc)
      omega
    obtain ⟨hlt, hstart, hstop⟩ := touches_iff.1 h
    rw [search?]
    rcases x.isNode_or_isToken with hnode | htoken
    · rw [if_neg (by simp [isToken, hnode]), if_neg hlt.ne, tokensAt_of_isNode hnode]
      rcases (abut_children hnode).filter_touches hlt hstart hstop with
        ⟨c, hc, -⟩ | ⟨c, d, hcd, hcstop, hdstart, -⟩
      · have hmem : c ∈ x.children.filter (touches offset) := by simp [hc]
        rw [hc, List.flatMap_singleton]
        exact ih (hheight hmem) (List.mem_filter.1 hmem).2
      · have hcmem : c ∈ x.children.filter (touches offset) := by simp [hcd]
        have hdmem : d ∈ x.children.filter (touches offset) := by simp [hcd]
        have hctouches := (List.mem_filter.1 hcmem).2
        have hdtouches := (List.mem_filter.1 hdmem).2
        obtain ⟨a, ha⟩ := exists_tokensAt_end hctouches (.inr hcstop.symm)
        obtain ⟨b, hb⟩ := exists_tokensAt_end hdtouches (.inl hdstart.symm)
        rw [hcd]
        simp only [ih (hheight hcmem) hctouches, ih (hheight hdmem) hdtouches, ha, hb]
        simp [ha, hb]
    · rw [if_pos htoken, tokensAt, tokens_of_isToken htoken, List.filter_cons_of_pos h,
        List.filter_nil]

/-- Of the tokens at an offset the last one goes on behind it, unless the offset is the end of all
text. -/
theorem exists_getLast?_tokensAt (h : x.touches offset) :
    ∃ y ∈ x.tokens, (x.tokensAt offset).getLast? = some y ∧ y.touches offset ∧
      (offset < x.stop → offset < y.stop) := by
  obtain ⟨hlt, hstart, hstop⟩ := touches_iff.1 h
  rcases x.abut_tokens.filter_touches hlt hstart hstop with
    ⟨y, hfilter, hbehind⟩ | ⟨y, z, hfilter, -, hzstart, -⟩
  · obtain ⟨hmem, htouches⟩ := List.mem_filter.1 (show y ∈ x.tokensAt offset by simp [tokensAt, hfilter])
    exact ⟨y, hmem, by simp [tokensAt, hfilter], htouches, hbehind⟩
  · obtain ⟨hmem, htouches⟩ := List.mem_filter.1 (show z ∈ x.tokensAt offset by simp [tokensAt, hfilter])
    refine ⟨z, hmem, by simp [tokensAt, hfilter], htouches, fun _ => ?_⟩
    exact hzstart ▸ (touches_iff.1 htouches).1

/-! ### The smallest node around a range -/

/-- Of the nodes below a site that are around a range, one is the smallest: all others are above it. -/
structure IsSmallest (start stop : Nat) (x z : Site) : Prop where
  mem : z ∈ x.sites
  isNode : z.tree.isNode
  covers : z.covers start stop
  below : ∀ y ∈ x.sites, y.tree.isNode → y.covers start stop → z ∈ y.sites

/-- What is around a part of an element that covers a range covers it too. -/
theorem covers_of_mem_sites (hy : y ∈ x.sites) (h : y.covers start stop) : x.covers start stop := by
  rw [covers_iff] at h ⊢
  have := bounds_of_mem_sites hy
  omega

/-- A node is the smallest one around a range if the range is in none of its children that are
nodes. -/
theorem isSmallest_self (hnode : x.tree.isNode) (hcovers : x.covers start stop)
    (h : ∀ c ∈ x.children, c.tree.isNode → ¬c.covers start stop) : IsSmallest start stop x x := by
  refine ⟨x.self_mem_sites, hnode, hcovers, fun y hy hynode hys => ?_⟩
  rcases mem_sites_iff.1 hy with rfl | ⟨c, hc, hy⟩
  · exact y.self_mem_sites
  · rcases c.isNode_or_isToken with hcnode | hctoken
    · exact absurd (covers_of_mem_sites hy hys) (h c hc hcnode)
    · rw [sites_of_isToken hctoken, List.mem_singleton] at hy
      subst hy
      exact absurd hynode (by simpa [isToken] using hctoken)

/-- The range is in one child at most, so what is smallest below that child is smallest. -/
theorem IsSmallest.of_child {z : Site} (h : IsSmallest start stop c z) (hnode : x.tree.isNode)
    (hc : c ∈ x.children) (hlt : start < stop) : IsSmallest start stop x z := by
  have hmem : z ∈ x.sites := mem_sites_iff.2 (.inr ⟨c, hc, h.mem⟩)
  refine ⟨hmem, h.isNode, h.covers, fun y hy hynode hys => ?_⟩
  rcases mem_sites_iff.1 hy with rfl | ⟨d, hd, hy⟩
  · exact hmem
  · obtain rfl : d = c := (abut_children hnode).eq_of_covers hd hc (covers_of_mem_sites hy hys)
      (covers_of_mem_sites h.mem h.covers) hlt
    exact h.below y hy hynode hys

/-- The search for a range that is not empty comes to the smallest node around it. -/
theorem isSmallest_coverLoop {n : Nat} (hn : x.tree.height ≤ n) (hlt : start < stop)
    (hnode : x.tree.isNode) (hcovers : x.covers start stop) :
    IsSmallest start stop x (coverLoop start stop n x) := by
  induction n generalizing x with
  | zero => exact absurd hn (by have := x.tree.height_pos; omega)
  | succ n ih =>
    rw [coverLoop, candidate?, if_pos hlt]
    cases hfind : x.children.find? fun c => c.covers start stop with
    | none =>
      exact isSmallest_self hnode hcovers fun c hc _ => List.find?_eq_none.1 hfind c hc
    | some c =>
      have hc : c ∈ x.children := List.mem_of_find?_eq_some hfind
      have hcs : c.covers start stop := (List.find?_eq_some_iff_append.1 hfind).1
      rcases c.isNode_or_isToken with hcnode | hctoken
      · simp only [hcnode, hcs, Bool.and_self, if_true]
        have hheight := height_lt_of_mem_children hc
        exact (ih (by omega) hcnode hcs).of_child hnode hc hlt
      · have hcnode : c.tree.isNode = false := by simpa [isToken] using hctoken
        simp only [hcnode, Bool.false_and, Bool.false_eq_true, if_false]
        refine isSmallest_self hnode hcovers fun d hd hdnode hds => ?_
        obtain rfl := (abut_children hnode).eq_of_covers hd hc hds hcs hlt
        exact absurd hdnode (by simp [hcnode])

end Site

namespace Tree

variable {t : Tree} {offset : Nat}

theorem tokenAt?_eq (t : Tree) (offset : Nat) :
    t.tokenAt? offset = (t.root.tokensAt offset).getLast? := by
  have hboth (x : Site) : (x.touches offset && x.isToken) =
      (x.isToken && x.start ≠ x.stop && x.covers offset offset) := by
    rw [Site.touches, Bool.and_comm, Bool.and_assoc]
  rw [tokenAt?, Site.tokensAt, Site.tokens, List.filter_filter]
  simp only [hboth]
  rfl

def searchAt? (t : Tree) (offset : Nat) : Option (Option Site) :=
  if t.bytes < offset then some none
  else (Site.search? offset t.height t.root).map List.getLast?

theorem touches_root (hbytes : t.bytes ≠ 0) (h : offset ≤ t.bytes) : t.root.touches offset := by
  rw [Site.touches_iff]
  simp only [Site.stop, root]
  omega

/-- Behind the end of the text there is no token. -/
theorem tokenAt?_of_lt (h : t.bytes < offset) : t.tokenAt? offset = none := by
  have htouches : ¬t.root.touches offset := by
    rw [Site.touches_iff]
    simp only [Site.stop, root]
    omega
  rw [tokenAt?_eq, Site.tokensAt_of_not_touches htouches, List.getLast?_nil]

/-- Going down from the root finds the token that a look at all tokens finds. -/
theorem searchAt?_eq (hbytes : t.bytes ≠ 0) : t.searchAt? offset = some (t.tokenAt? offset) := by
  unfold searchAt?
  split
  · rename_i hlt
    rw [tokenAt?_of_lt hlt]
  · rename_i hle
    have htouches : t.root.touches offset := touches_root hbytes (Nat.le_of_not_lt hle)
    rw [Site.search?_eq (n := t.height) (Nat.le_refl _) htouches, Option.map_some, tokenAt?_eq]

end Tree

/-! ### The tokens of a tree at their places -/

def Site.placed (x : Site) : PlacedToken := ⟨x.kind, x.tree.text, x.start⟩

theorem Forest.leavesFrom_eq (ts : Forest) (k : Kind) (above : List Crumb) (before : Forest)
    (start leaves : Nat) :
    leavesFrom start ts =
      (childSites k above before start leaves ts).flatMap fun c => c.tree.leavesFrom c.start := by
  induction ts generalizing before start leaves with
  | nil => rw [leavesFrom, childSites, List.flatMap_nil]
  | cons t ts ih => rw [leavesFrom, childSites, List.flatMap_cons, ih]

/-- The tokens below a site are the leaves that are tokens. -/
theorem Site.map_placed_tokens (x : Site) :
    x.tokens.map placed = (x.tree.leavesFrom x.start).filterMap Leaf.token? := by
  rcases x.isNode_or_isToken with h | h
  · have hchildren : x.tokens.map placed =
        (x.children.flatMap fun c => c.tree.leavesFrom c.start).filterMap Leaf.token? := by
      rw [tokens_of_isNode h, List.map_flatMap, List.filterMap_flatMap]
      exact List.flatMap_congr fun c hc => map_placed_tokens c
    rw [hchildren]
    obtain ⟨t, start, above, leaves⟩ := x
    cases t with
    | token k s => exact absurd h Bool.false_ne_true
    | node k ts =>
      cases ts with
      | nil => rfl
      | cons t ts =>
        rw [Tree.leavesFrom_node (List.cons_ne_nil t ts)]
        exact congrArg _ (Forest.leavesFrom_eq ..).symm
  · rw [tokens_of_isToken h]
    obtain ⟨t, start, above, leaves⟩ := x
    cases t with
    | token k s => rfl
    | node k ts => exact absurd h Bool.false_ne_true
termination_by x.tree.height
decreasing_by exact height_lt_of_mem_children hc

theorem Site.tree_eq_token {x : Site} (h : x.isToken) : x.tree = .token x.kind x.tree.text := by
  obtain ⟨t, start, above, leaves⟩ := x
  cases t with
  | token k s => rfl
  | node k ts => exact absurd h Bool.false_ne_true

/-- Each token of a tree stands at an address. -/
theorem Tree.exists_at?_of_mem_tokens {t : Tree} {p : PlacedToken} (hp : p ∈ t.tokens) :
    ∃ q, t.at? 0 q = some ⟨p.start, .token p.kind p.text⟩ := by
  have hmem : p ∈ t.root.tokens.map Site.placed := by
    rw [Site.map_placed_tokens]
    exact hp
  obtain ⟨x, hx, rfl⟩ := List.mem_map.1 hmem
  have helement := (Site.reached_of_mem_sites (List.mem_of_mem_filter hx)).element
  rw [Site.tree_eq_token (List.of_mem_filter hx)] at helement
  exact ⟨x.address, helement⟩

end ScriptTree
