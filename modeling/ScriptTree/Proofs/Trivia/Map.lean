import ScriptTree.Proofs.Tree.Window
import ScriptTree.Proofs.Trivia.Attach

namespace ScriptTree

namespace TriviaInfo

/-- Missing parts have no share in the trivia of a node. -/
theorem ofSpots_filter (ws : List Spot) (withInternal : Bool) :
    ofSpots (ws.filter fun w => w.leaf.token?.isSome) withInternal = ofSpots ws withInternal := by
  have htokens (w : Spot) :
      (if w.leaf.token?.isSome then w.leaf.token? else none) = w.leaf.token? := by
    cases w.leaf.token? <;> rfl
  have hmarked (w : Spot) :
      (if w.leaf.token?.isSome then w.significant?.map fun t => (t, w) else none) =
        w.significant?.map fun t => (t, w) := by
    unfold Spot.significant?
    cases w.leaf.token? <;> rfl
  simp only [ofSpots, List.filterMap_filter, htokens, hmarked]

/-- The trivia of a node with the given spots: what leads its first token that is no trivia, what trails
its last one, and, if asked for, what lies between the two. -/
inductive Around (withInternal : Bool) : List Spot → TriviaInfo → Prop
  | bare {ws} (h : ∀ w ∈ ws, w.significant? = none) : Around withInternal ws ⟨Spot.tokens ws, [], []⟩
  | single {front u back} (hu : u.significant?.isSome) (hfront : ∀ w ∈ front, w.significant? = none)
      (hback : ∀ w ∈ back, w.significant? = none) :
      Around withInternal (front ++ u :: back) ⟨u.leading, [], u.trailing⟩
  | between {front u mid v back} (hu : u.significant?.isSome) (hv : v.significant?.isSome)
      (hfront : ∀ w ∈ front, w.significant? = none) (hback : ∀ w ∈ back, w.significant? = none) :
      Around withInternal (front ++ u :: (mid ++ v :: back))
        ⟨u.leading, if withInternal then (Spot.tokens mid).filter PlacedToken.isTrivia else [],
          v.trailing⟩

variable {front mid back : List Spot} {u v : Spot} {a b : PlacedToken}

def mark? (w : Spot) : Option (PlacedToken × Spot) := w.significant?.map fun t => (t, w)

theorem filterMap_mark? (h : ∀ w ∈ front, w.significant? = none) : front.filterMap mark? = [] :=
  List.filterMap_eq_nil_iff.2 fun w hw => by rw [mark?, h w hw, Option.map_none]

theorem mark?_eq (hu : u.leaf = .token a) (ha : a.isTrivia = false) : mark? u = some (a, u) := by
  simp [mark?, Spot.significant?, hu, ha, Leaf.token?, Option.filter_some]

theorem ofSpots_bare (h : ∀ w ∈ front, w.significant? = none) (withInternal : Bool) :
    ofSpots front withInternal = ⟨Spot.tokens front, [], []⟩ := by
  have hmarked := filterMap_mark? h
  unfold mark? at hmarked
  rw [ofSpots, hmarked]
  rfl

theorem ofSpots_single (hu : u.leaf = .token a) (ha : a.isTrivia = false)
    (hfront : ∀ w ∈ front, w.significant? = none) (hback : ∀ w ∈ back, w.significant? = none)
    (withInternal : Bool) :
    ofSpots (front ++ u :: back) withInternal = ⟨u.leading, [], u.trailing⟩ := by
  have hmarked : (front ++ u :: back).filterMap mark? = [(a, u)] := by
    rw [List.filterMap_append, filterMap_mark? hfront, List.nil_append,
      List.filterMap_cons_some (mark?_eq hu ha), filterMap_mark? hback]
  unfold mark? at hmarked
  rw [ofSpots, hmarked]
  simp

/-- Between two tokens of a list in order lie those that stand between them. -/
theorem filter_between {before inside after : List PlacedToken}
    (hordered : (before ++ a :: (inside ++ b :: after)).Pairwise fun p q => p.stop ≤ q.start)
    (ha : a.isTrivia = false) (hb : b.isTrivia = false) (halt : a.start < a.stop)
    (hblt : b.start < b.stop) :
    (before ++ a :: (inside ++ b :: after)).filter
        (fun p => p.isTrivia && a.stop ≤ p.start && p.stop ≤ b.start) =
      inside.filter PlacedToken.isTrivia := by
  obtain ⟨-, hrest, hbefore⟩ := List.pairwise_append.1 hordered
  obtain ⟨hfirst, hrest⟩ := List.pairwise_cons.1 hrest
  obtain ⟨-, hlast, hinside⟩ := List.pairwise_append.1 hrest
  have hafter := (List.pairwise_cons.1 hlast).1
  have hle (p : PlacedToken) : p.start ≤ p.stop := Nat.le_add_right ..
  have hout (p : PlacedToken) (h : p.stop ≤ a.start ∨ b.stop ≤ p.start) :
      ¬(p.isTrivia && a.stop ≤ p.start && p.stop ≤ b.start) := by
    have := hle p
    simp only [Bool.and_eq_true, decide_eq_true_eq]
    omega
  have hfront := List.filter_eq_nil_iff.2 fun p hp => hout p (.inl (hbefore p hp a List.mem_cons_self))
  have hback := List.filter_eq_nil_iff.2 fun p hp => hout p (.inr (hafter p hp))
  rw [List.filter_append, hfront, List.nil_append, List.filter_cons_of_neg (by simp [ha]),
    List.filter_append, List.filter_cons_of_neg (by simp [hb]), hback, List.append_nil]
  refine List.filter_congr fun p hp => ?_
  have hstart : a.stop ≤ p.start := hfirst p (List.mem_append_left _ hp)
  have hstop : p.stop ≤ b.start := hinside p hp b List.mem_cons_self
  simp [hstart, hstop]

theorem ofSpots_between (hu : u.leaf = .token a) (ha : a.isTrivia = false)
    (hv : v.leaf = .token b) (hb : b.isTrivia = false)
    (hfront : ∀ w ∈ front, w.significant? = none) (hback : ∀ w ∈ back, w.significant? = none)
    (hordered : (Spot.tokens (front ++ u :: (mid ++ v :: back))).Pairwise
      fun p q => p.stop ≤ q.start)
    (halt : a.start < a.stop) (hblt : b.start < b.stop) (withInternal : Bool) :
    ofSpots (front ++ u :: (mid ++ v :: back)) withInternal =
      ⟨u.leading, if withInternal then (Spot.tokens mid).filter PlacedToken.isTrivia else [],
        v.trailing⟩ := by
  have hmarked : (front ++ u :: (mid ++ v :: back)).filterMap mark? =
      (a, u) :: (mid.filterMap mark? ++ [(b, v)]) := by
    rw [List.filterMap_append, filterMap_mark? hfront, List.nil_append,
      List.filterMap_cons_some (mark?_eq hu ha), List.filterMap_append,
      List.filterMap_cons_some (mark?_eq hv hb), filterMap_mark? hback]
  have htokens : Spot.tokens (front ++ u :: (mid ++ v :: back)) =
      Spot.tokens front ++ a :: (Spot.tokens mid ++ b :: Spot.tokens back) := by
    rw [Spot.tokens_append, Spot.tokens_cons hu, Spot.tokens_append, Spot.tokens_cons hv]
  rw [htokens] at hordered
  have hbetween := filter_between hordered ha hb halt hblt
  rw [← htokens] at hbetween
  unfold mark? at hmarked
  unfold Spot.tokens at hbetween
  rw [ofSpots, hmarked, List.head?_cons, List.getLast?_cons, List.getLast?_concat]
  cases withInternal with
  | false => rfl
  | true =>
    show TriviaInfo.mk u.leading _ v.trailing = TriviaInfo.mk u.leading _ v.trailing
    rw [if_pos (by simp), if_pos rfl, hbetween]
    rfl

/-- The trivia of spots whose tokens are in order and have text. -/
theorem around_ofSpots {ws : List Spot}
    (hordered : (Spot.tokens ws).Pairwise fun p q => p.stop ≤ q.start)
    (htext : ∀ p ∈ Spot.tokens ws, p.text ≠ []) (withInternal : Bool) :
    Around withInternal ws (ofSpots ws withInternal) := by
  by_cases hnone : ∀ w ∈ ws, w.significant? = none
  · rw [ofSpots_bare hnone]
    exact .bare hnone
  have hsome : ∃ w ∈ ws, w.significant?.isSome := by
    simpa [Option.isSome_iff_ne_none] using hnone
  obtain ⟨front, u, rest, rfl, hu, hfront⟩ := Spot.exists_first hsome
  obtain ⟨a, hua, ha⟩ := Spot.exists_of_significant? hu
  by_cases hrest : ∀ w ∈ rest, w.significant? = none
  · rw [ofSpots_single hua ha hfront hrest]
    exact .single hu hfront hrest
  have hmore : ∃ w ∈ rest, w.significant?.isSome := by
    simpa [Option.isSome_iff_ne_none] using hrest
  obtain ⟨mid, v, back, rfl, hv, hback⟩ := Spot.exists_last hmore
  obtain ⟨b, hvb, hb⟩ := Spot.exists_of_significant? hv
  have hat : a ∈ Spot.tokens (front ++ u :: (mid ++ v :: back)) := by
    simp [Spot.tokens_append, Spot.tokens_cons hua]
  have hbt : b ∈ Spot.tokens (front ++ u :: (mid ++ v :: back)) := by
    simp [Spot.tokens_append, Spot.tokens_cons hua, Spot.tokens_cons hvb]
  rw [ofSpots_between hua ha hvb hb hfront hback hordered (PlacedToken.start_lt_stop (htext a hat))
    (PlacedToken.start_lt_stop (htext b hbt))]
  exact .between hu hv hfront hback

end TriviaInfo

namespace Tree

variable {t : Tree} {x y : Site}

/-- The spots of a node are those of its leaves, and its trivia is what stands around them. -/
theorem around_ofSite (htext : ∀ p ∈ t.tokens, p.text ≠ []) (withInternal : Bool)
    (hx : x ∈ t.sites) :
    (x.spots t).map Spot.leaf = x.tree.leavesFrom x.start ∧
      TriviaInfo.Around withInternal (x.spots t) (TriviaInfo.ofSite t.spots withInternal x) := by
  obtain ⟨as, bs, hsplit, -, hleaves, -⟩ := exists_spots hx
  have hsub : (Spot.tokens (x.spots t)).Sublist t.tokens := by
    rw [tokens, ← t.map_spots, Spot.filterMap_map_leaf, hsplit, Spot.tokens_append,
      Spot.tokens_append]
    exact (List.sublist_append_right ..).trans (List.sublist_append_left ..)
  exact ⟨hleaves, TriviaInfo.around_ofSpots (t.pairwise_tokens.sublist hsub)
    (fun p hp => htext p (hsub.subset hp)) withInternal⟩

/-- The trivia of a node is that of the tokens in its range. -/
theorem ofSite_eq (htext : ∀ p ∈ t.tokens, p.text ≠ []) (withInternal : Bool) (hx : x ∈ t.sites) :
    TriviaInfo.ofSite t.spots withInternal x =
      TriviaInfo.ofSpots (t.spots.filter (Spot.isWithin x.start x.stop)) withInternal := by
  rw [← filter_spots htext hx, TriviaInfo.ofSpots_filter]
  rfl

/-- Nodes that share a range have the same trivia. -/
theorem ofSite_congr (htext : ∀ p ∈ t.tokens, p.text ≠ []) (withInternal : Bool)
    (hx : x ∈ t.sites) (hy : y ∈ t.sites) (hstart : x.start = y.start) (hstop : x.stop = y.stop) :
    TriviaInfo.ofSite t.spots withInternal x = TriviaInfo.ofSite t.spots withInternal y := by
  rw [ofSite_eq htext withInternal hx, ofSite_eq htext withInternal hy, hstart, hstop]

end Tree

namespace TriviaEntry

variable {e : TriviaEntry} {acc es : List TriviaEntry}

def SameRange (a b : TriviaEntry) : Prop := a.start = b.start ∧ a.stop = b.stop

abbrev Distinct (es : List TriviaEntry) : Prop := es.Pairwise fun a b => ¬a.SameRange b

theorem any_sameRange_iff :
    (es.any fun x => x.start = e.start && x.stop = e.stop) ↔ ∃ x ∈ es, x.SameRange e := by
  simp [SameRange]

theorem Distinct.insertNew (h : Distinct acc) (e : TriviaEntry) : Distinct (insertNew acc e) := by
  unfold TriviaEntry.insertNew
  split
  · exact h
  · rename_i hnew
    rw [any_sameRange_iff] at hnew
    refine List.pairwise_append.2 ⟨h, List.pairwise_singleton _ _, fun a ha b hb hsame => ?_⟩
    obtain rfl := List.mem_singleton.1 hb
    exact hnew ⟨a, ha, hsame⟩

/-- An entry is added unless it is there, if entries for the same range are equal. -/
theorem mem_insertNew {a : TriviaEntry} (h : ∀ x ∈ acc, x.SameRange e → x = e) :
    a ∈ insertNew acc e ↔ a ∈ acc ∨ a = e := by
  unfold insertNew
  split
  · rename_i hold
    obtain ⟨x, hx, hsame⟩ := any_sameRange_iff.1 hold
    obtain rfl := h x hx hsame
    refine ⟨.inl, ?_⟩
    rintro (ha | rfl)
    · exact ha
    · exact hx
  · simp

theorem distinct_foldl (h : Distinct acc) (es : List TriviaEntry) :
    Distinct (es.foldl insertNew acc) := by
  induction es generalizing acc with
  | nil => exact h
  | cons e es ih => exact ih (h.insertNew e)

theorem mem_foldl {a : TriviaEntry}
    (h : ∀ x ∈ acc ++ es, ∀ y ∈ acc ++ es, x.SameRange y → x = y) :
    a ∈ es.foldl insertNew acc ↔ a ∈ acc ∨ a ∈ es := by
  induction es generalizing acc with
  | nil => simp
  | cons e es ih =>
    have hinsert {b : TriviaEntry} : b ∈ insertNew acc e ↔ b ∈ acc ∨ b = e :=
      mem_insertNew fun x hx => h x (by simp [hx]) e (by simp)
    have hmem {b : TriviaEntry} (hb : b ∈ insertNew acc e ++ es) : b ∈ acc ++ e :: es := by
      rw [List.mem_append, hinsert, or_assoc] at hb
      simpa using hb
    rw [List.foldl_cons, ih fun x hx y hy => h x (hmem hx) y (hmem hy), hinsert, or_assoc,
      List.mem_cons]

end TriviaEntry

namespace Tree

/-- The map has the trivia of each node that has some, and nothing else, if no token is empty. -/
theorem mem_triviaMap_iff {t : Tree} (htext : ∀ p ∈ t.tokens, p.text ≠ []) (withInternal : Bool)
    (e : TriviaEntry) :
    e ∈ t.triviaMap withInternal ↔
      ∃ x ∈ t.sites, x.tree.isNode ∧ (TriviaInfo.ofSite t.spots withInternal x).isEmpty = false ∧
        e = ⟨x.start, x.stop, TriviaInfo.ofSite t.spots withInternal x⟩ := by
  unfold triviaMap
  rw [List.mem_mergeSort, TriviaEntry.mem_foldl]
  · simp only [List.not_mem_nil, false_or, List.mem_filter, List.mem_map, Bool.not_eq_true']
    constructor
    · rintro ⟨⟨x, ⟨hx, hnode⟩, rfl⟩, hsome⟩
      exact ⟨x, hx, hnode, hsome, rfl⟩
    · rintro ⟨x, hx, hnode, hsome, rfl⟩
      exact ⟨⟨x, ⟨hx, hnode⟩, rfl⟩, hsome⟩
  · simp only [List.nil_append, List.mem_filter, List.mem_map]
    rintro _ ⟨⟨x, ⟨hx, -⟩, rfl⟩, -⟩ _ ⟨⟨y, ⟨hy, -⟩, rfl⟩, -⟩ ⟨hstart, hstop⟩
    rw [ofSite_congr htext withInternal hx hy hstart hstop]
    exact congrArg₂ (fun a b => TriviaEntry.mk a b _) hstart hstop

theorem distinct_triviaMap (t : Tree) (withInternal : Bool) :
    TriviaEntry.Distinct (t.triviaMap withInternal) := by
  have hsymm {a b : TriviaEntry} (h : ¬a.SameRange b) : ¬b.SameRange a :=
    fun hba => h ⟨hba.1.symm, hba.2.symm⟩
  exact ((List.mergeSort_perm _ _).pairwise_iff hsymm).2 (TriviaEntry.distinct_foldl .nil _)

end Tree

namespace Document

theorem Current.text_ne_nil {d : Document} (h : d.Current) : ∀ p ∈ d.tree.tokens, p.text ≠ [] := by
  rw [h.partitioned.leaves]
  intro p hp
  obtain ⟨t, ht, rfl⟩ := List.mem_map.1 hp
  refine h.words t.word ?_
  rw [h.yield]
  exact List.mem_map_of_mem ht

/-- Whether a text has errors or not, and whether what lies between the tokens of a node is asked for
or not: the map has no two entries for one range, and its entries are the ranges of those nodes that
have some trivia, each with the trivia of that node, whichever of the nodes with this range it is. The
trivia of a node leads the first of its tokens that are no trivia, trails the last one, and lies
between them. -/
theorem parse_triviaMap (s : Text) (withInternal : Bool) :
    let t := (parse s).tree
    TriviaEntry.Distinct (t.triviaMap withInternal) ∧
      (∀ e, e ∈ t.triviaMap withInternal ↔
        ∃ x ∈ t.sites, x.tree.isNode ∧ (TriviaInfo.ofSite t.spots withInternal x).isEmpty = false ∧
          e = ⟨x.start, x.stop, TriviaInfo.ofSite t.spots withInternal x⟩) ∧
      ∀ x ∈ t.sites, (x.spots t).map Spot.leaf = x.tree.leavesFrom x.start ∧
        TriviaInfo.Around withInternal (x.spots t) (TriviaInfo.ofSite t.spots withInternal x) := by
  intro t
  have htext := (parse_current s).text_ne_nil
  exact ⟨Tree.distinct_triviaMap _ _, Tree.mem_triviaMap_iff htext withInternal,
    fun x hx => Tree.around_ofSite htext withInternal hx⟩

end Document

end ScriptTree
