import ScriptTree.Proofs.Document.Width
import ScriptTree.Trivia.Attach

namespace ScriptTree

namespace PlacedToken

/-- A list of tokens cut behind its first line break, or at its end if it has none. -/
inductive CutAtBreak : List PlacedToken → List PlacedToken → List PlacedToken → Prop
  | none {run} (h : ∀ t ∈ run, t.isNewline = false) : CutAtBreak run run []
  | behind {line t rest} (h : ∀ u ∈ line, u.isNewline = false) (ht : t.isNewline) :
      CutAtBreak (line ++ t :: rest) (line ++ [t]) rest

theorem CutAtBreak.append_eq {run line rest : List PlacedToken} (h : CutAtBreak run line rest) :
    line ++ rest = run := by
  cases h with
  | none h => exact List.append_nil _
  | behind h ht => exact List.append_assoc ..

theorem cutAtBreak_splitAfterBreak (run : List PlacedToken) :
    CutAtBreak run (splitAfterBreak run).1 (splitAfterBreak run).2 := by
  induction run with
  | nil => exact .none nofun
  | cons t ts ih =>
    cases hsplit : splitAfterBreak ts with
    | mk line rest =>
      rw [hsplit] at ih
      rw [splitAfterBreak, hsplit]
      by_cases ht : t.isNewline
      · rw [if_pos ht]
        have hcut : CutAtBreak ([] ++ t :: ts) ([] ++ [t]) ts := .behind nofun ht
        exact hcut
      · rw [if_neg ht]
        rw [Bool.not_eq_true] at ht
        cases ih with
        | none h => exact .none (List.forall_mem_cons.2 ⟨ht, h⟩)
        | behind h hu => exact .behind (List.forall_mem_cons.2 ⟨ht, h⟩) hu

end PlacedToken

namespace Leaf

variable {ls rest : List Leaf} {t : PlacedToken}

theorem map_token_filterMap (hls : ∀ l ∈ ls, l.token?.isSome) :
    (ls.filterMap token?).map token = ls := by
  have hsome : ∀ l ∈ ls, l.token?.map token = some l := by
    intro l hl
    cases l with
    | token p => rfl
    | gap => exact absurd (hls _ hl) Bool.false_ne_true
  rw [List.map_filterMap, List.filterMap_congr hsome, List.filterMap_some]

theorem trivia?_token (ht : t.isTrivia = false) : (token t).trivia? = none := by
  simp [trivia?, token?, ht]

theorem triviaRun_append (hls : ∀ x ∈ ls, x.trivia?.isSome) (ht : t.isTrivia = false) :
    triviaRun (ls ++ token t :: rest) = ls.filterMap token? := by
  rw [triviaRun, List.takeWhile_append_of_pos hls,
    List.takeWhile_cons_of_neg (by simp [trivia?_token ht]),
    List.append_nil]

theorem triviaRun_eq (hls : ∀ x ∈ ls, x.trivia?.isSome) : triviaRun ls = ls.filterMap token? := by
  rw [triviaRun, List.takeWhile_eq_self_iff.2 hls]

theorem endsRun_append (hls : ∀ x ∈ ls, x.trivia?.isSome) (ht : t.isTrivia = false) :
    endsRun (ls ++ token t :: rest) = false := by
  rw [endsRun, List.dropWhile_append_of_pos hls,
    List.dropWhile_cons_of_neg (by simp [trivia?_token ht])]

theorem endsRun_eq (hls : ∀ x ∈ ls, x.trivia?.isSome) : endsRun ls = true := by
  rw [endsRun, List.dropWhile_eq_nil_iff.2 hls]

end Leaf

namespace Spot

def tokens (ss : List Spot) : List PlacedToken := ss.filterMap fun s => s.leaf.token?

theorem tokens_append (ss us : List Spot) : tokens (ss ++ us) = tokens ss ++ tokens us :=
  List.filterMap_append

theorem tokens_cons {s : Spot} {t : PlacedToken} (h : s.leaf = .token t) (ss : List Spot) :
    tokens (s :: ss) = t :: tokens ss :=
  List.filterMap_cons_some (by rw [h]; rfl)

theorem filterMap_map_leaf (ss : List Spot) :
    (ss.map Spot.leaf).filterMap Leaf.token? = tokens ss := by
  rw [List.filterMap_map]
  rfl

theorem exists_of_significant? {s : Spot} (h : s.significant?.isSome) :
    ∃ t, s.leaf = .token t ∧ t.isTrivia = false := by
  unfold significant? at h
  cases hl : s.leaf with
  | token t => exact ⟨t, rfl, by simpa [hl, Leaf.token?, Option.filter_some] using h⟩
  | gap => simp [hl, Leaf.token?] at h

theorem exists_first {ws : List Spot} (h : ∃ w ∈ ws, w.significant?.isSome) :
    ∃ front w back, ws = front ++ w :: back ∧ w.significant?.isSome ∧
      ∀ x ∈ front, x.significant? = none := by
  obtain ⟨w, hw⟩ := Option.isSome_iff_exists.1 (List.find?_isSome.2 h)
  obtain ⟨hsome, front, back, hws, hfront⟩ := List.find?_eq_some_iff_append.1 hw
  exact ⟨front, w, back, hws, hsome, fun x hx => by simpa using hfront x hx⟩

theorem exists_last {ws : List Spot} (h : ∃ w ∈ ws, w.significant?.isSome) :
    ∃ front w back, ws = front ++ w :: back ∧ w.significant?.isSome ∧
      ∀ x ∈ back, x.significant? = none := by
  have hback : ∃ w ∈ ws.reverse, w.significant?.isSome := by simpa using h
  obtain ⟨back, w, front, hws, hsome, hnone⟩ := exists_first hback
  refine ⟨front.reverse, w, back.reverse, ?_, hsome, fun x hx => hnone x (List.mem_reverse.1 hx)⟩
  rw [List.reverse_eq_iff] at hws
  simp [hws]

theorem isSome_trivia? {s : Spot} (hl : s.leaf.token?.isSome) (h : s.significant? = none) :
    s.leaf.trivia?.isSome := by
  obtain ⟨t, ht⟩ := Option.isSome_iff_exists.1 hl
  unfold significant? at h
  unfold Leaf.trivia?
  rw [ht] at h ⊢
  simpa [Option.filter_some] using h

end Spot

namespace Tree

variable {t : Tree} {xs ys between : List Spot} {u v : Spot}

/-- Where each node has text, what is no significant token is trivia. -/
theorem Filled.isSome_trivia? (h : t.Filled) (hmem : ∀ w ∈ xs, w ∈ t.spots)
    (hxs : ∀ w ∈ xs, w.significant? = none) : ∀ l ∈ xs.map Spot.leaf, l.trivia?.isSome := by
  intro l hl
  obtain ⟨w, hw, rfl⟩ := List.mem_map.1 hl
  refine Spot.isSome_trivia? (h.isSome_token? _ ?_) (hxs w hw)
  rw [← t.map_spots]
  exact List.mem_map_of_mem (hmem w hw)

/-- Where each node has text, the spots are those of the tokens. -/
theorem Filled.map_spots (h : t.Filled) : t.spots.map Spot.leaf = t.tokens.map Leaf.token := by
  rw [Tree.map_spots, Tree.tokens, Leaf.map_token_filterMap h.isSome_token?]

/-- What a walk from each of two tokens finds first is what lies between them, and then the other
token. -/
theorem exists_walks (hs : t.spots = xs ++ u :: between ++ v :: ys) (hu : u.significant?.isSome)
    (hv : v.significant?.isSome) :
    ∃ a b ls rs, a.isTrivia = false ∧ b.isTrivia = false ∧
      u.after = between.map Spot.leaf ++ .token b :: rs ∧
      v.before = (between.map Spot.leaf).reverse ++ .token a :: ls := by
  obtain ⟨a, ha, hatrivia⟩ := Spot.exists_of_significant? hu
  obtain ⟨b, hb, hbtrivia⟩ := Spot.exists_of_significant? hv
  have hbefore := (around_of_spots hs).1
  rw [List.append_assoc, List.cons_append] at hs
  have hafter := (around_of_spots hs).2
  exact ⟨a, b, (xs.map Spot.leaf).reverse, ys.map Spot.leaf, hatrivia, hbtrivia, by simp [hafter, hb],
    by simp [hbefore, ha]⟩

/-- Trivia between two tokens is split between them. -/
theorem Filled.splitAfterBreak (h : t.Filled) (hs : t.spots = xs ++ u :: between ++ v :: ys)
    (hu : u.significant?.isSome) (hv : v.significant?.isSome)
    (hbetween : ∀ w ∈ between, w.significant? = none) :
    (u.trailing, v.leading) = PlacedToken.splitAfterBreak (Spot.tokens between) := by
  obtain ⟨a, b, ls, rs, ha, hb, hafter, hbefore⟩ := exists_walks hs hu hv
  have htrivia := h.isSome_trivia? (fun w hw => by simp [hs, hw]) hbetween
  have htrivia' : ∀ l ∈ (between.map Spot.leaf).reverse, l.trivia?.isSome :=
    fun l hl => htrivia l (List.mem_reverse.1 hl)
  have htrailing : u.trailing = (PlacedToken.splitAfterBreak (Spot.tokens between)).1 := by
    rw [Spot.trailing, hafter, Leaf.triviaRun_append htrivia hb, Spot.filterMap_map_leaf]
  have hleading : v.leading = (PlacedToken.splitAfterBreak (Spot.tokens between)).2 := by
    rw [Spot.leading, hbefore, Leaf.endsRun_append htrivia' ha, if_neg Bool.false_ne_true,
      Leaf.triviaRun_append htrivia' ha, List.filterMap_reverse, List.reverse_reverse,
      Spot.filterMap_map_leaf]
  rw [htrailing, hleading]

theorem Filled.cutAtBreak (h : t.Filled) (hs : t.spots = xs ++ u :: between ++ v :: ys)
    (hu : u.significant?.isSome) (hv : v.significant?.isSome)
    (hbetween : ∀ w ∈ between, w.significant? = none) :
    PlacedToken.CutAtBreak (Spot.tokens between) u.trailing v.leading := by
  obtain ⟨htrailing, hleading⟩ := Prod.mk.inj (h.splitAfterBreak hs hu hv hbetween)
  rw [htrailing, hleading]
  exact PlacedToken.cutAtBreak_splitAfterBreak _

theorem Filled.leading_first (h : t.Filled) (hs : t.spots = xs ++ v :: ys)
    (hxs : ∀ w ∈ xs, w.significant? = none) : v.leading = Spot.tokens xs := by
  have htrivia := h.isSome_trivia? (fun w hw => by simp [hs, hw]) hxs
  have htrivia' : ∀ l ∈ (xs.map Spot.leaf).reverse, l.trivia?.isSome :=
    fun l hl => htrivia l (List.mem_reverse.1 hl)
  rw [Spot.leading, (around_of_spots hs).1, Leaf.endsRun_eq htrivia', if_pos rfl,
    Leaf.triviaRun_eq htrivia', List.filterMap_reverse, List.reverse_reverse,
    Spot.filterMap_map_leaf]

end Tree

namespace Document

/-- Trivia between two tokens is shared out among them, cut behind its first line break, and the first
token has all that stands before it; this holds in a text in whose tree each node has text, and a
text that is not empty and has no errors is one. The spots of the tree are then those of the tokens,
and what stands beside a spot is what a walk by siblings goes to from there. -/
theorem parse_cutAtBreak (s : Text) :
    let t := (parse s).tree
    (s ≠ [] → (parse s).hasErrors = false → t.Filled) ∧
    (∀ w ∈ t.spots, w.Walked t) ∧
    (t.Filled →
      t.spots.map Spot.leaf = (parse s).tokens.toList.map (fun w => .token w.placed) ∧
      (∀ (xs between ys : List Spot) (u v : Spot), t.spots = xs ++ u :: between ++ v :: ys →
        u.significant?.isSome → v.significant?.isSome → (∀ w ∈ between, w.significant? = none) →
          PlacedToken.CutAtBreak (Spot.tokens between) u.trailing v.leading) ∧
      ∀ (xs ys : List Spot) (v : Spot), t.spots = xs ++ v :: ys → v.significant?.isSome →
        (∀ w ∈ xs, w.significant? = none) → v.leading = Spot.tokens xs) := by
  intro t
  have hcurrent := parse_current s
  refine ⟨hcurrent.filled, fun w hw => Tree.walked_of_mem_spots hw, fun h => ⟨?_, ?_, ?_⟩⟩
  · rw [h.map_spots, hcurrent.partitioned.leaves, List.map_map]
    rfl
  · exact fun xs between ys u v hs hu hv hbetween => h.cutAtBreak hs hu hv hbetween
  · exact fun xs ys v hs hv hxs => h.leading_first hs hxs

/-- A comment above the script, one behind a call and one above the second statement. -/
theorem parse_cutAtBreak_comments :
    let s : Text := "# top\nx + g(a) # one\n\n# two\ny = 2".toList
    let t := (parse s).tree
    (∃ (xs between ys : List Spot) (u v : Spot), t.spots = xs ++ u :: between ++ v :: ys ∧
      u.trailing.length = 3 ∧ v.leading.length = 3 ∧
        PlacedToken.CutAtBreak (Spot.tokens between) u.trailing v.leading) ∧
    ∃ (xs ys : List Spot) (v : Spot), t.spots = xs ++ v :: ys ∧ v.leading.length = 2 ∧
      v.leading = Spot.tokens xs := by
  intro s t
  obtain ⟨hlength, ⟨hfront, hw, hfirst⟩, hparts, hu, hv, htrailing, hleading⟩ :
      ∃ _ : 16 < t.spots.length,
        ((∀ x ∈ t.spots.take 2, x.significant? = none) ∧ t.spots[2].significant?.isSome ∧
          t.spots[2].leading.length = 2) ∧
        (∀ x ∈ (t.spots.drop 10).take 6, x.significant? = none) ∧
        t.spots[9].significant?.isSome ∧ t.spots[16].significant?.isSome ∧
        t.spots[9].trailing.length = 3 ∧ t.spots[16].leading.length = 3 := by
    decide +kernel
  have hsplit : t.spots = t.spots.take 9 ++ t.spots[9] :: (t.spots.drop 10).take 6 ++
      t.spots[16] :: t.spots.drop 17 := by
    rw [List.getElem_cons_drop, List.append_assoc, List.cons_append,
      show t.spots.drop 16 = (t.spots.drop 10).drop 6 by rw [List.drop_drop],
      List.take_append_drop, List.getElem_cons_drop, List.take_append_drop]
  have hsplit' : t.spots = t.spots.take 2 ++ t.spots[2] :: t.spots.drop 3 := by
    rw [List.getElem_cons_drop, List.take_append_drop]
  obtain ⟨hfilled, -, htrivia⟩ := parse_cutAtBreak s
  obtain ⟨-, hcut, hlead⟩ := htrivia (hfilled (by decide) (by decide +kernel))
  exact ⟨⟨_, _, _, _, _, hsplit, htrailing, hleading, hcut _ _ _ _ _ hsplit hu hv hparts⟩,
    _, _, _, hsplit', hfirst, hlead _ _ _ hsplit' hw hfront⟩

end Document

end ScriptTree
