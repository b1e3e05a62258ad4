import ScriptTree.Proofs.Trivia.Attach
import ScriptTree.Proofs.Trivia.Map

namespace ScriptTree

namespace PlacedToken

variable {t : PlacedToken} {ps qs : List PlacedToken}

theorem mem_of_mem_fst (h : t ∈ (splitAfterBreak ps).1) : t ∈ ps := by
  have hmem := List.mem_append_left (splitAfterBreak ps).2 h
  rwa [(cutAtBreak_splitAfterBreak ps).append_eq] at hmem

theorem mem_of_mem_snd (h : t ∈ (splitAfterBreak ps).2) : t ∈ ps := by
  have hmem := List.mem_append_right (splitAfterBreak ps).1 h
  rwa [(cutAtBreak_splitAfterBreak ps).append_eq] at hmem

/-- A token comes before the cut unless there is a line break in front of it. -/
theorem mem_fst_splitAfterBreak (ht : t ∉ ps) :
    t ∈ (splitAfterBreak (ps ++ t :: qs)).1 ↔ ∀ p ∈ ps, p.isNewline = false := by
  induction ps with
  | nil =>
    rw [List.nil_append, splitAfterBreak]
    split <;> simp
  | cons p ps ih =>
    rw [List.mem_cons, not_or] at ht
    rw [List.cons_append, splitAfterBreak]
    by_cases hp : p.isNewline
    · simp [hp, ht.1]
    · simp [hp, ht.1, ih ht.2]

/-- A token comes behind the cut if there is a line break in front of it. -/
theorem mem_snd_splitAfterBreak (ht : t ∉ qs) :
    t ∈ (splitAfterBreak (ps ++ t :: qs)).2 ↔ ∃ p ∈ ps, p.isNewline := by
  induction ps with
  | nil =>
    have hrest : t ∉ (splitAfterBreak qs).2 := fun hmem => ht (mem_of_mem_snd hmem)
    rw [List.nil_append, splitAfterBreak]
    split <;> simp [ht, hrest]
  | cons p ps ih =>
    rw [List.cons_append, splitAfterBreak]
    by_cases hp : p.isNewline
    · simp [hp]
    · simp [hp, ih]

end PlacedToken

namespace Leaf

def isGap : Leaf → Bool
  | token _ => false
  | gap => true

/-- A missing part, or a line break. -/
def cuts : Leaf → Bool
  | token t => t.isNewline
  | gap => true

variable {l : Leaf} {ls rest : List Leaf}

theorem exists_token (h : l.isGap = false) : ∃ p, l = token p := by
  cases l with
  | token p => exact ⟨p, rfl⟩
  | gap => exact absurd h (by decide)

theorem triviaRun_append_trivia (hls : ∀ x ∈ ls, x.trivia?.isSome) :
    triviaRun (ls ++ rest) = ls.filterMap token? ++ triviaRun rest := by
  rw [triviaRun, List.takeWhile_append_of_pos hls, List.filterMap_append, triviaRun]

theorem endsRun_append_trivia (hls : ∀ x ∈ ls, x.trivia?.isSome) :
    endsRun (ls ++ rest) = endsRun rest := by
  rw [endsRun, List.dropWhile_append_of_pos hls, endsRun]

/-- The trivia in front of a missing part goes no further. -/
theorem mem_of_mem_triviaRun (hgap : gap ∈ ls) {p : PlacedToken}
    (hp : p ∈ triviaRun (ls ++ rest)) : p ∈ ls.filterMap token? := by
  induction ls with
  | nil => exact absurd hgap List.not_mem_nil
  | cons l ls ih =>
    cases l with
    | gap => simp [triviaRun, trivia?, token?] at hp
    | token q =>
      have hgap : gap ∈ ls := by simpa using hgap
      by_cases hq : q.isTrivia
      · have hrun : triviaRun (token q :: (ls ++ rest)) = q :: triviaRun (ls ++ rest) := by
          simp [triviaRun, trivia?, token?, hq]
        rw [List.cons_append, hrun, List.mem_cons] at hp
        rw [List.filterMap_cons_some (show (token q).token? = some q from rfl), List.mem_cons]
        exact hp.imp id (ih hgap)
      · simp [triviaRun, trivia?, token?, hq] at hp

/-- A run of trivia ends at a token just when there is no missing part before the token. -/
theorem endsRun_eq_any (hls : ∀ x ∈ ls, x.isGap ∨ x.trivia?.isSome) {p : PlacedToken}
    (hp : p.isTrivia = false) : endsRun (ls ++ token p :: rest) = ls.any isGap := by
  induction ls with
  | nil => simp [endsRun, trivia?, token?, hp]
  | cons l ls ih =>
    have ih := ih fun x hx => hls x (List.mem_cons_of_mem _ hx)
    cases l with
    | gap => simp [endsRun, trivia?, token?, isGap]
    | token q =>
      have hq : (token q).trivia?.isSome := (hls _ List.mem_cons_self).resolve_left (by simp [isGap])
      have hcons : endsRun ([token q] ++ (ls ++ token p :: rest)) = endsRun (ls ++ token p :: rest) :=
        endsRun_append_trivia (by simpa using hq)
      rw [List.singleton_append] at hcons
      rw [List.cons_append, hcons, ih, List.any_cons]
      rfl

end Leaf

/-- A spot between two others that are the nearest ones before and after it with a token that is no
trivia; `before` and `after` are what lies between. -/
structure Tree.Between (t : Tree) (u : Spot) (before : List Spot) (c : Spot) (after : List Spot)
    (v : Spot) : Prop where
  split : ∃ xs ys, t.spots = xs ++ u :: before ++ c :: after ++ v :: ys
  left : u.significant?.isSome
  right : v.significant?.isSome
  before : ∀ w ∈ before, w.significant? = none
  after : ∀ w ∈ after, w.significant? = none

namespace Tree.Between

variable {t : Tree} {u c v : Spot} {before after : List Spot} {p : PlacedToken}

theorem gap_or_trivia {ws : List Spot} (h : ∀ w ∈ ws, w.significant? = none) :
    ∀ l ∈ ws.map Spot.leaf, l.isGap ∨ l.trivia?.isSome := by
  intro l hl
  obtain ⟨w, hw, rfl⟩ := List.mem_map.1 hl
  cases hgap : w.leaf.isGap with
  | true => exact .inl rfl
  | false =>
    obtain ⟨q, hq⟩ := Leaf.exists_token hgap
    exact .inr (Spot.isSome_trivia? (by rw [hq]; rfl) (h w hw))

theorem trivia_of_no_gap {ws : List Spot} (h : ∀ w ∈ ws, w.significant? = none)
    (hgap : ∀ w ∈ ws, w.leaf.isGap = false) : ∀ l ∈ ws.map Spot.leaf, l.trivia?.isSome := by
  intro l hl
  refine (gap_or_trivia h l hl).resolve_left ?_
  obtain ⟨w, hw, rfl⟩ := List.mem_map.1 hl
  rw [hgap w hw]
  exact Bool.false_ne_true

theorem exists_cuts_iff {ws : List Spot} (hgap : ∀ w ∈ ws, w.leaf.isGap = false) :
    (∃ w ∈ ws, w.leaf.cuts) ↔ ∃ q ∈ Spot.tokens ws, q.isNewline := by
  constructor
  · rintro ⟨w, hw, hcuts⟩
    obtain ⟨q, hq⟩ := Leaf.exists_token (hgap w hw)
    rw [hq] at hcuts
    exact ⟨q, List.mem_filterMap.2 ⟨w, hw, by rw [hq]; rfl⟩, hcuts⟩
  · rintro ⟨q, hq, hnewline⟩
    obtain ⟨w, hw, hleaf⟩ := List.mem_filterMap.1 hq
    obtain ⟨r, hr⟩ := Leaf.exists_token (hgap w hw)
    rw [hr] at hleaf
    obtain rfl := Option.some.inj hleaf
    exact ⟨w, hw, by rw [hr]; exact hnewline⟩

theorem exists_gap {ws : List Spot} (h : ¬∀ w ∈ ws, w.leaf.isGap = false) :
    .gap ∈ ws.map Spot.leaf ∧ ∃ w ∈ ws, w.leaf.isGap ∧ w.leaf.cuts := by
  push Not at h
  obtain ⟨w, hw, hgap⟩ := h
  cases hl : w.leaf with
  | token q => simp [hl, Leaf.isGap] at hgap
  | gap => exact ⟨List.mem_map.2 ⟨w, hw, hl⟩, w, hw, by rw [hl]; exact ⟨rfl, rfl⟩⟩

/-- What a walk from each of the two tokens finds. -/
theorem walks (h : t.Between u before c after v) (hc : c.leaf = .token p) :
    ∃ a ls rs, a.isTrivia = false ∧
      u.after = before.map Spot.leaf ++ .token p :: rs ∧
      v.before = (after.map Spot.leaf).reverse ++
        .token p :: ((before.map Spot.leaf).reverse ++ .token a :: ls) := by
  obtain ⟨xs, ys, hs⟩ := h.split
  have hs' : t.spots = xs ++ u :: (before ++ c :: after) ++ v :: ys := by simp [hs]
  obtain ⟨a, b, ls, rs, ha, -, hafter, hbefore⟩ := exists_walks hs' h.left h.right
  exact ⟨a, ls, after.map Spot.leaf ++ .token b :: rs, ha, by simp [hafter, hc],
    by simp [hbefore, hc]⟩

/-- Where each token comes once, the token is none of those around it. -/
theorem not_mem (h : t.Between u before c after v) (hc : c.leaf = .token p)
    (hnodup : t.tokens.Nodup) : p ∉ Spot.tokens before ∧ p ∉ Spot.tokens after := by
  obtain ⟨xs, ys, hs⟩ := h.split
  have htokens : t.tokens = Spot.tokens (xs ++ u :: before) ++
      p :: Spot.tokens (after ++ v :: ys) := by
    rw [tokens, ← t.map_spots, Spot.filterMap_map_leaf, hs, ← Spot.tokens_cons hc,
      ← Spot.tokens_append]
    simp
  rw [htokens, List.nodup_middle, List.nodup_cons, List.mem_append, not_or] at hnodup
  obtain ⟨⟨hbefore, hafter⟩, -⟩ := hnodup
  refine ⟨fun hp => hbefore ?_, fun hp => hafter ?_⟩
  · obtain ⟨a, ha, -⟩ := Spot.exists_of_significant? h.left
    rw [Spot.tokens_append, Spot.tokens_cons ha]
    exact List.mem_append_right _ (List.mem_cons_of_mem _ hp)
  · rw [Spot.tokens_append]
    exact List.mem_append_left _ hp

/-- The token before has what stands on its line, up to a missing part. -/
theorem mem_trailing_iff (h : t.Between u before c after v) (hc : c.leaf = .token p)
    (hp : p.isTrivia) (hnodup : t.tokens.Nodup) :
    p ∈ u.trailing ↔ ∀ w ∈ before, w.leaf.cuts = false := by
  obtain ⟨-, -, rs, -, hafter, -⟩ := h.walks hc
  obtain ⟨hnot, -⟩ := h.not_mem hc hnodup
  rw [Spot.trailing, hafter]
  by_cases hgap : ∀ w ∈ before, w.leaf.isGap = false
  · have htrivia := trivia_of_no_gap h.before hgap
    have hrun : Leaf.triviaRun (.token p :: rs) = p :: Leaf.triviaRun rs := by
      simp [Leaf.triviaRun, Leaf.trivia?, Leaf.token?, hp]
    rw [Leaf.triviaRun_append_trivia htrivia, Spot.filterMap_map_leaf, hrun,
      PlacedToken.mem_fst_splitAfterBreak hnot]
    have hcuts := not_congr (exists_cuts_iff hgap)
    push Not at hcuts
    simpa using hcuts.symm
  · obtain ⟨hmem, w, hw, -, hcuts⟩ := exists_gap hgap
    refine iff_of_false (fun hp => hnot ?_) fun hall => by simp [hall w hw] at hcuts
    rw [← Spot.filterMap_map_leaf]
    exact Leaf.mem_of_mem_triviaRun hmem (PlacedToken.mem_of_mem_fst hp)

/-- If no missing part is in between, the walk back from the token behind comes to the trivia and goes
on from there. If it then ends at a missing part, nothing is split off. -/
theorem exists_leading (h : t.Between u before c after v) (hc : c.leaf = .token p)
    (hp : p.isTrivia) (hgap : ∀ w ∈ after, w.leaf.isGap = false) :
    ∃ run, ((∃ w ∈ before, w.leaf.isGap) → v.leading = run ++ p :: Spot.tokens after) ∧
      ((∀ w ∈ before, w.leaf.isGap = false) → v.leading =
        (PlacedToken.splitAfterBreak (Spot.tokens before ++ p :: Spot.tokens after)).2) := by
  obtain ⟨a, ls, -, ha, -, hbefore⟩ := h.walks hc
  have htrivia : ∀ l ∈ (after.map Spot.leaf).reverse ++ [.token p], l.trivia?.isSome := by
    intro l hl
    rw [List.mem_append, List.mem_reverse, List.mem_singleton] at hl
    rcases hl with hl | rfl
    · exact trivia_of_no_gap h.after hgap l hl
    · simp [Leaf.trivia?, Leaf.token?, hp]
  have hbefore' : v.before = (after.map Spot.leaf).reverse ++ [.token p] ++
      ((before.map Spot.leaf).reverse ++ .token a :: ls) := by simp [hbefore]
  have hends : Leaf.endsRun v.before = (before.map Spot.leaf).any Leaf.isGap := by
    rw [hbefore', Leaf.endsRun_append_trivia htrivia, ← List.any_reverse]
    exact Leaf.endsRun_eq_any (fun l hl => gap_or_trivia h.before l (List.mem_reverse.1 hl)) ha
  have hrun : (Leaf.triviaRun v.before).reverse =
      (Leaf.triviaRun ((before.map Spot.leaf).reverse ++ .token a :: ls)).reverse ++
        p :: Spot.tokens after := by
    rw [hbefore', Leaf.triviaRun_append_trivia htrivia, List.filterMap_append,
      List.filterMap_reverse, Spot.filterMap_map_leaf]
    simp [Leaf.token?]
  rw [Spot.leading, hrun, hends]
  refine ⟨_, fun hsome => if_pos ?_, fun hnone => ?_⟩
  · rw [List.any_map]
    exact List.any_eq_true.2 hsome
  · have hnone' : (before.map Spot.leaf).any Leaf.isGap = false := by simpa using hnone
    have hback : ∀ l ∈ (before.map Spot.leaf).reverse, l.trivia?.isSome :=
      fun l hl => trivia_of_no_gap h.before hnone l (List.mem_reverse.1 hl)
    rw [hnone', if_neg Bool.false_ne_true, Leaf.triviaRun_append hback ha, List.filterMap_reverse,
      List.reverse_reverse, Spot.filterMap_map_leaf]

/-- The walk back from the token behind goes no further than a missing part. -/
theorem not_gap_of_mem_leading (h : t.Between u before c after v) (hc : c.leaf = .token p)
    (hnot : p ∉ Spot.tokens after) (hlead : p ∈ v.leading) :
    ∀ w ∈ after, w.leaf.isGap = false := by
  by_contra hgap
  obtain ⟨a, ls, -, -, -, hbefore⟩ := h.walks hc
  obtain ⟨hmem, -⟩ := exists_gap hgap
  have hrun : p ∈ Leaf.triviaRun v.before := by
    rw [← List.mem_reverse]
    unfold Spot.leading at hlead
    split at hlead
    · exact hlead
    · exact PlacedToken.mem_of_mem_snd hlead
  rw [hbefore] at hrun
  have hback := Leaf.mem_of_mem_triviaRun (List.mem_reverse.2 hmem) hrun
  rw [List.filterMap_reverse, List.mem_reverse, Spot.filterMap_map_leaf] at hback
  exact hnot hback

/-- The token behind has what stands behind a line break or a missing part, with no further missing
part. -/
theorem mem_leading_iff (h : t.Between u before c after v) (hc : c.leaf = .token p)
    (hp : p.isTrivia) (hnodup : t.tokens.Nodup) :
    p ∈ v.leading ↔ (∃ w ∈ before, w.leaf.cuts) ∧ ∀ w ∈ after, w.leaf.isGap = false := by
  obtain ⟨-, hnot⟩ := h.not_mem hc hnodup
  rw [← and_iff_left_of_imp (h.not_gap_of_mem_leading hc hnot)]
  refine and_congr_left fun hgap => ?_
  obtain ⟨run, hsome, hnone⟩ := h.exists_leading hc hp hgap
  by_cases hgap' : ∀ w ∈ before, w.leaf.isGap = false
  · rw [hnone hgap', PlacedToken.mem_snd_splitAfterBreak hnot, exists_cuts_iff hgap']
  · obtain ⟨-, w, hw, hwgap, hcuts⟩ := exists_gap hgap'
    rw [hsome ⟨w, hw, hwgap⟩]
    exact iff_of_true (by simp) ⟨w, hw, hcuts⟩

end Tree.Between

namespace Tree

variable {t : Tree}

/-- What has a significant token before it and one behind it has a nearest one on each side. -/
theorem exists_between {xs ys : List Spot} {c : Spot} (hs : t.spots = xs ++ c :: ys)
    (hxs : ∃ w ∈ xs, w.significant?.isSome) (hys : ∃ w ∈ ys, w.significant?.isSome) :
    ∃ u before after v, t.Between u before c after v := by
  obtain ⟨after, v, back, rfl, hright, hafter⟩ := Spot.exists_first hys
  obtain ⟨front, u, before, rfl, hleft, hbefore⟩ := Spot.exists_last hxs
  exact ⟨u, before, after, v, ⟨front, back, by simp [hs]⟩, hleft, hright, hbefore, hafter⟩

theorem between_of_lt {i j k : Nat} (hij : i < j) (hjk : j < k) (hk : k < t.spots.length)
    (left : t.spots[i].significant?.isSome) (right : t.spots[k].significant?.isSome)
    (before : ∀ w ∈ (t.spots.take j).drop (i + 1), w.significant? = none)
    (after : ∀ w ∈ (t.spots.take k).drop (j + 1), w.significant? = none) :
    t.Between t.spots[i] ((t.spots.take j).drop (i + 1)) t.spots[j]
      ((t.spots.take k).drop (j + 1)) t.spots[k] := by
  have hsplit (l : List Spot) {n : Nat} (hn : n < l.length) :
      l = l.take n ++ l[n] :: l.drop (n + 1) := by
    rw [List.getElem_cons_drop, List.take_append_drop]
  have hfront := hsplit (t.spots.take j) (n := i) (by rw [List.length_take]; omega)
  have hmiddle := hsplit (t.spots.take k) (n := j) (by rw [List.length_take]; omega)
  rw [List.take_take, Nat.min_eq_left hjk.le, List.getElem_take] at hmiddle
  rw [List.take_take, Nat.min_eq_left hij.le, List.getElem_take] at hfront
  refine ⟨⟨t.spots.take i, t.spots.drop (k + 1), ?_⟩, left, right, before, after⟩
  rw [← hfront, ← hmiddle]
  exact hsplit t.spots hk

end Tree

namespace Document

/-- No two tokens of a tree are equal, for no two stand at one place. -/
theorem Current.nodup_tokens {d : Document} (h : d.Current) : d.tree.tokens.Nodup := by
  refine d.tree.pairwise_tokens.imp_of_mem fun {p q} hp _ hle heq => ?_
  rw [← heq] at hle
  exact absurd hle (PlacedToken.start_lt_stop (h.text_ne_nil p hp)).not_ge

/-- Whether a text has errors or not: trivia with a token before it and one behind it that are none
trails the nearest one before it if no line break and no missing part comes in between. Otherwise it
leads the nearest one behind it, but only if no missing part is on the way there; if one is, the
trivia is attached to neither. Nothing is attached to both. -/
theorem parse_attached (s : Text) :
    let t := (parse s).tree
    (∀ (xs ys : List Spot) (c : Spot), t.spots = xs ++ c :: ys →
      (∃ w ∈ xs, w.significant?.isSome) → (∃ w ∈ ys, w.significant?.isSome) →
        ∃ u before after v, t.Between u before c after v) ∧
    ∀ (u c v : Spot) (before after : List Spot) (p : PlacedToken), t.Between u before c after v →
      c.leaf = .token p → p.isTrivia →
        (p ∈ u.trailing ↔ ∀ w ∈ before, w.leaf.cuts = false) ∧
        (p ∈ v.leading ↔ (∃ w ∈ before, w.leaf.cuts) ∧ ∀ w ∈ after, w.leaf.isGap = false) ∧
        ¬(p ∈ u.trailing ∧ p ∈ v.leading) ∧
        ((p ∉ u.trailing ∧ p ∉ v.leading) ↔
          (∃ w ∈ before, w.leaf.cuts) ∧ ∃ w ∈ after, w.leaf.isGap) := by
  intro t
  refine ⟨fun xs ys c hs hxs hys => Tree.exists_between hs hxs hys, ?_⟩
  intro u c v before after p h hc hp
  have hnodup := (parse_current s).nodup_tokens
  have htrailing := h.mem_trailing_iff hc hp hnodup
  have hleading := h.mem_leading_iff hc hp hnodup
  have hcuts : (¬∀ w ∈ before, w.leaf.cuts = false) ↔ ∃ w ∈ before, w.leaf.cuts := by
    simp
  have hgap : (¬∀ w ∈ after, w.leaf.isGap = false) ↔ ∃ w ∈ after, w.leaf.isGap := by
    simp
  refine ⟨htrailing, hleading, ?_, ?_⟩
  · rw [htrailing, hleading, ← hcuts]
    exact fun hboth => hboth.2.1 hboth.1
  · rw [htrailing, hleading, ← hcuts, ← hgap, not_and]
    exact and_congr_right fun hnot => ⟨fun h => h hnot, fun h _ => h⟩

/-- Of two comments between two names the one on the first line trails the first name, and the other
one leads the second name. -/
theorem parse_attached_names :
    let t := (parse "a # one\n# two\nb".toList).tree
    let one : PlacedToken := ⟨.comment, "# one".toList, 2⟩
    let two : PlacedToken := ⟨.comment, "# two".toList, 8⟩
    ∃ u v, (∃ before c after, t.Between u before c after v ∧ c.leaf = .token one) ∧
      (∃ before c after, t.Between u before c after v ∧ c.leaf = .token two) ∧
      (one ∈ u.trailing ∧ one ∉ v.leading) ∧ two ∈ v.leading ∧ two ∉ u.trailing := by
  intro t one two
  obtain ⟨hk, left, right, ⟨hfirst, hfront, hback⟩, hsecond, hfront', hback'⟩ :
      ∃ _ : 6 < t.spots.length, t.spots[0].significant?.isSome ∧ t.spots[6].significant?.isSome ∧
        (t.spots[2].leaf = .token one ∧
          (∀ w ∈ (t.spots.take 2).drop 1, w.significant? = none ∧ w.leaf.cuts = false) ∧
          ∀ w ∈ (t.spots.take 6).drop 3, w.significant? = none) ∧
        t.spots[4].leaf = .token two ∧
        ((∀ w ∈ (t.spots.take 4).drop 1, w.significant? = none) ∧
          ∃ w ∈ (t.spots.take 4).drop 1, w.leaf.cuts) ∧
        ∀ w ∈ (t.spots.take 6).drop 5, w.significant? = none ∧ w.leaf.isGap = false := by
    decide +kernel
  have hone := Tree.between_of_lt (i := 0) (j := 2) (by decide) (by decide) hk left right
    (fun w hw => (hfront w hw).1) hback
  have htwo := Tree.between_of_lt (i := 0) (j := 4) (by decide) (by decide) hk left right hfront'.1
    fun w hw => (hback' w hw).1
  obtain ⟨htrails, -, honce, -⟩ := (parse_attached _).2 _ _ _ _ _ _ hone hfirst (by decide)
  obtain ⟨-, hleads, honce', -⟩ := (parse_attached _).2 _ _ _ _ _ _ htwo hsecond (by decide)
  have htrailing := htrails.2 fun w hw => (hfront w hw).2
  have hleading := hleads.2 ⟨hfront'.2, fun w hw => (hback' w hw).2⟩
  exact ⟨_, _, ⟨_, _, _, hone, hfirst⟩, ⟨_, _, _, htwo, hsecond⟩,
    ⟨htrailing, fun h => honce ⟨htrailing, h⟩⟩, hleading, fun h => honce' ⟨h, hleading⟩⟩

/-- A comment on its own line behind an operator without an operand is attached to neither of the
tokens around it. -/
theorem parse_not_attached :
    let t := (parse "(a +\n# c\n)".toList).tree
    let p : PlacedToken := ⟨.comment, "# c".toList, 5⟩
    ∃ u before c after v, t.Between u before c after v ∧ c.leaf = .token p ∧
      p ∉ u.trailing ∧ p ∉ v.leading := by
  intro t p
  obtain ⟨hk, left, right, hfront, hback, hc, htrailing, hleading⟩ :
      ∃ _ : 8 < t.spots.length, t.spots[3].significant?.isSome ∧ t.spots[8].significant?.isSome ∧
        (∀ w ∈ (t.spots.take 5).drop 4, w.significant? = none) ∧
        (∀ w ∈ (t.spots.take 8).drop 6, w.significant? = none) ∧
        t.spots[5].leaf = .token p ∧ p ∉ t.spots[3].trailing ∧ p ∉ t.spots[8].leading := by
    decide +kernel
  exact ⟨_, _, _, _, _, Tree.between_of_lt (by decide) (by decide) hk left right hfront hback, hc,
    htrailing, hleading⟩

end Document

end ScriptTree
