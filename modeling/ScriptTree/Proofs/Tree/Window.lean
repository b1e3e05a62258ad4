import ScriptTree.Proofs.Text.Bytes
import ScriptTree.Proofs.Tree.Leaf

namespace ScriptTree

mutual

theorem Tree.length_leavesFrom (t : Tree) (start : Nat) :
    (t.leavesFrom start).length = t.leafCount := by
  match t with
  | .token k s => simp [Tree.leavesFrom, Tree.leafCount]
  | .node k [] => simp [Tree.leavesFrom, Tree.leafCount]
  | .node k (t :: ts) =>
    rw [Tree.leavesFrom, Tree.leafCount, List.length_append, Tree.length_leavesFrom t,
      Forest.length_leavesFrom ts]

theorem Forest.length_leavesFrom (ts : Forest) (start : Nat) :
    (Forest.leavesFrom start ts).length = Forest.leafCount ts := by
  cases ts with
  | nil => simp [Forest.leavesFrom, Forest.leafCount]
  | cons t ts =>
    rw [Forest.leavesFrom, Forest.leafCount, List.length_append, Tree.length_leavesFrom t,
      Forest.length_leavesFrom ts]

end

/-! ### Where leaves lie -/

theorem PlacedToken.start_lt_stop {p : PlacedToken} (h : p.text ≠ []) : p.start < p.stop :=
  Nat.lt_add_of_pos_right (Text.bytes_pos h)

def Leaf.Within (start stop : Nat) (l : Leaf) : Prop :=
  ∀ p ∈ l.token?, start ≤ p.start ∧ p.stop ≤ stop

theorem Leaf.Within.mono {start stop start' stop' : Nat} {l : Leaf} (h : l.Within start stop)
    (hstart : start' ≤ start) (hstop : stop ≤ stop') : l.Within start' stop' :=
  fun p hp => ⟨hstart.trans (h p hp).1, (h p hp).2.trans hstop⟩

mutual

theorem Tree.within_leavesFrom (t : Tree) (start : Nat) :
    ∀ l ∈ t.leavesFrom start, l.Within start (start + t.bytes) := by
  intro l hl p hp
  match t with
  | .token k s =>
    obtain rfl : l = .token ⟨k, s, start⟩ := by simpa [Tree.leavesFrom] using hl
    obtain rfl : p = ⟨k, s, start⟩ := by simpa [Leaf.token?, eq_comm] using hp
    exact ⟨Nat.le_refl _, Nat.le_refl _⟩
  | .node k [] =>
    obtain rfl : l = .gap := by simpa [Tree.leavesFrom] using hl
    simp [Leaf.token?] at hp
  | .node k (t :: ts) =>
    rw [Tree.leavesFrom_node (List.cons_ne_nil t ts)] at hl
    exact Forest.within_leavesFrom (t :: ts) start l hl p hp

theorem Forest.within_leavesFrom (ts : Forest) (start : Nat) :
    ∀ l ∈ Forest.leavesFrom start ts, l.Within start (start + Forest.bytes ts) := by
  intro l hl
  cases ts with
  | nil => simp [Forest.leavesFrom] at hl
  | cons t ts =>
    rw [Forest.leavesFrom, List.mem_append] at hl
    rw [Forest.bytes_cons]
    rcases hl with hl | hl
    · exact (Tree.within_leavesFrom t start l hl).mono (Nat.le_refl _) (by omega)
    · exact (Forest.within_leavesFrom ts _ l hl).mono (by omega) (by omega)

end

/-! ### The leaves of a site -/

/-- The leaves of the element at a site are a piece of all leaves from an offset to another one. -/
structure Site.Window (start stop leaves : Nat) (ls : List Leaf) (x : Site) : Prop where
  split : ∃ as bs, ls = as ++ x.tree.leavesFrom x.start ++ bs ∧ x.leavesBefore = leaves + as.length ∧
    (∀ l ∈ as, l.Within start x.start) ∧ ∀ l ∈ bs, l.Within x.stop stop

namespace Site.Window

variable {start mid stop leaves : Nat} {ls ms : List Leaf} {x : Site}

theorem whole (t : Tree) (start leaves : Nat) (above : List Crumb) :
    Window start (start + t.bytes) leaves (t.leavesFrom start) ⟨t, start, above, leaves⟩ :=
  ⟨[], [], by simp, rfl, nofun, nofun⟩

theorem append (h : Window start mid leaves ls x) (hms : ∀ l ∈ ms, l.Within mid stop)
    (hstop : x.stop ≤ mid) (hle : mid ≤ stop) : Window start stop leaves (ls ++ ms) x := by
  obtain ⟨as, bs, rfl, hcount, has, hbs⟩ := h.split
  refine ⟨as, bs ++ ms, by simp, hcount, has, fun l hl => ?_⟩
  rcases List.mem_append.1 hl with hl | hl
  · exact (hbs l hl).mono (Nat.le_refl _) hle
  · exact (hms l hl).mono hstop (Nat.le_refl _)

theorem behind (h : Window mid stop (leaves + ls.length) ms x)
    (hls : ∀ l ∈ ls, l.Within start mid) (hstart : mid ≤ x.start) (hle : start ≤ mid) :
    Window start stop leaves (ls ++ ms) x := by
  obtain ⟨as, bs, rfl, hcount, has, hbs⟩ := h.split
  refine ⟨ls ++ as, bs, by simp, by rw [hcount, List.length_append, Nat.add_assoc], ?_, hbs⟩
  intro l hl
  rcases List.mem_append.1 hl with hl | hl
  · exact (hls l hl).mono (Nat.le_refl _) hstart
  · exact (has l hl).mono hle (Nat.le_refl _)

end Site.Window

mutual

theorem Tree.window_of_mem_sitesFrom (t : Tree) (start : Nat) (above : List Crumb) (leaves : Nat) :
    ∀ x ∈ t.sitesFrom start above leaves, start ≤ x.start ∧ x.stop ≤ start + t.bytes ∧
      x.Window start (start + t.bytes) leaves (t.leavesFrom start) := by
  intro x hx
  match t with
  | .token k s =>
    obtain rfl := List.mem_singleton.1 (by rwa [Tree.sitesFrom] at hx)
    exact ⟨Nat.le_refl _, Nat.le_refl _, .whole ..⟩
  | .node k [] =>
    obtain rfl : x = _ := by simpa [Tree.sitesFrom, Forest.sitesFrom] using hx
    exact ⟨Nat.le_refl _, Nat.le_refl _, .whole ..⟩
  | .node k (t :: ts) =>
    rw [Tree.sitesFrom, List.mem_cons] at hx
    rcases hx with rfl | hx
    · exact ⟨Nat.le_refl _, Nat.le_refl _, .whole ..⟩
    · rw [Tree.leavesFrom_node (List.cons_ne_nil t ts), Tree.bytes]
      exact Forest.window_of_mem_sitesFrom (t :: ts) start k above [] leaves x hx

theorem Forest.window_of_mem_sitesFrom (ts : Forest) (start : Nat) (k : Kind) (above : List Crumb)
    (before : Forest) (leaves : Nat) :
    ∀ x ∈ Forest.sitesFrom start k above before leaves ts,
      start ≤ x.start ∧ x.stop ≤ start + Forest.bytes ts ∧
        x.Window start (start + Forest.bytes ts) leaves (Forest.leavesFrom start ts) := by
  intro x hx
  cases ts with
  | nil => simp [Forest.sitesFrom] at hx
  | cons t ts =>
    rw [Forest.sitesFrom, List.mem_append] at hx
    rw [Forest.leavesFrom, Forest.bytes_cons, ← Nat.add_assoc]
    rcases hx with hx | hx
    · obtain ⟨hstart, hstop, hwindow⟩ := Tree.window_of_mem_sitesFrom t start _ leaves x hx
      exact ⟨hstart, hstop.trans (Nat.le_add_right ..),
        hwindow.append (Forest.within_leavesFrom ts _) hstop (Nat.le_add_right ..)⟩
    · obtain ⟨hstart, hstop, hwindow⟩ := Forest.window_of_mem_sitesFrom ts _ k above _ _ x hx
      rw [← Tree.length_leavesFrom t start] at hwindow
      exact ⟨(Nat.le_add_right ..).trans hstart, hstop,
        hwindow.behind (Tree.within_leavesFrom t start) hstart (Nat.le_add_right ..)⟩

end

/-! ### The spots of a site -/

def Site.spots (x : Site) (t : Tree) : List Spot :=
  (t.spots.drop x.leavesBefore).take x.tree.leafCount

def Spot.isWithin (start stop : Nat) (w : Spot) : Bool :=
  w.leaf.token?.any fun p => start ≤ p.start && p.stop ≤ stop

theorem Spot.isWithin_iff {start stop : Nat} {w : Spot} :
    w.isWithin start stop ↔ ∃ p ∈ w.leaf.token?, start ≤ p.start ∧ p.stop ≤ stop := by
  unfold isWithin
  cases w.leaf.token? <;> simp

namespace Tree

variable {t : Tree} {x : Site}

/-- The spots of a site stand between others, and their leaves are those of its element. -/
theorem exists_spots (hx : x ∈ t.sites) :
    ∃ as bs, t.spots = as ++ x.spots t ++ bs ∧ as.length = x.leavesBefore ∧
      (x.spots t).map Spot.leaf = x.tree.leavesFrom x.start ∧
      (∀ w ∈ as, w.leaf.Within 0 x.start) ∧ ∀ w ∈ bs, w.leaf.Within x.stop t.bytes := by
  obtain ⟨-, -, ⟨as, bs, hsplit, hcount, has, hbs⟩⟩ := t.window_of_mem_sitesFrom 0 [] 0 x hx
  rw [Nat.zero_add] at hcount hbs
  obtain ⟨ps, qs, hspots, hps, rfl⟩ := List.map_eq_append_iff.1 (t.map_spots.trans hsplit)
  obtain ⟨ps, ws, rfl, rfl, hws⟩ := List.map_eq_append_iff.1 hps
  have hlength : ws.length = x.tree.leafCount := by
    rw [← x.tree.length_leavesFrom x.start, ← hws, List.length_map]
  have hwindow : x.spots t = ws := by
    rw [Site.spots, hspots, hcount, List.length_map, List.append_assoc, List.drop_left, ← hlength,
      List.take_left]
  refine ⟨ps, qs, by rw [hwindow, hspots], by rw [hcount, List.length_map], by rw [hwindow, hws],
    fun w hw => has _ (List.mem_map_of_mem hw), fun w hw => hbs _ (List.mem_map_of_mem hw)⟩

theorem mem_tokens_of_mem_spots {w : Spot} (hw : w ∈ t.spots) {p : PlacedToken}
    (hp : p ∈ w.leaf.token?) : p ∈ t.tokens := by
  rw [tokens, ← t.map_spots]
  exact List.mem_filterMap.2 ⟨w.leaf, List.mem_map_of_mem hw, hp⟩

/-- Where no token is empty, the tokens of an element are those in its range. -/
theorem filter_spots (htext : ∀ p ∈ t.tokens, p.text ≠ []) (hx : x ∈ t.sites) :
    (x.spots t).filter (fun w => w.leaf.token?.isSome) =
      t.spots.filter (Spot.isWithin x.start x.stop) := by
  obtain ⟨as, bs, hsplit, -, hleaves, has, hbs⟩ := exists_spots hx
  have hlt {w : Spot} (hw : w ∈ t.spots) {p : PlacedToken} (hp : p ∈ w.leaf.token?) :
      p.start < p.stop :=
    PlacedToken.start_lt_stop (htext p (mem_tokens_of_mem_spots hw hp))
  have has' : as.filter (Spot.isWithin x.start x.stop) = [] := by
    refine List.filter_eq_nil_iff.2 fun w hw hin => ?_
    obtain ⟨p, hp, hstart, -⟩ := Spot.isWithin_iff.1 hin
    have := hlt (by simp [hsplit, hw]) hp
    have := (has w hw p hp).2
    omega
  have hbs' : bs.filter (Spot.isWithin x.start x.stop) = [] := by
    refine List.filter_eq_nil_iff.2 fun w hw hin => ?_
    obtain ⟨p, hp, -, hstop⟩ := Spot.isWithin_iff.1 hin
    have := hlt (by simp [hsplit, hw]) hp
    have := (hbs w hw p hp).1
    omega
  have hspots : (x.spots t).filter (Spot.isWithin x.start x.stop) =
      (x.spots t).filter fun w => w.leaf.token?.isSome := by
    refine List.filter_congr fun w hw => Bool.eq_iff_iff.2 ?_
    rw [Spot.isWithin_iff, Option.isSome_iff_exists]
    refine ⟨fun ⟨p, hp, _⟩ => ⟨p, hp⟩, fun ⟨p, hp⟩ => ⟨p, hp, ?_⟩⟩
    exact x.tree.within_leavesFrom x.start _ (hleaves ▸ List.mem_map_of_mem hw) p hp
  rw [hsplit, List.filter_append, List.filter_append, has', hbs', List.nil_append,
    List.append_nil, hspots]

end Tree

end ScriptTree
