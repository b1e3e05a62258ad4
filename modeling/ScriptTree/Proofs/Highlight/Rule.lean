import Mathlib.Data.List.Infix
import Mathlib.Data.List.Nodup
import Mathlib.Data.List.Sort
import ScriptTree.Highlight.Rule

namespace ScriptTree.TagRule

variable {path : List Kind} {k : Kind} {r q : TagRule}

/-- The rule has the longest pattern that ends a path; all others that do are shorter. -/
structure IsLongest (path : List Kind) (r : TagRule) : Prop where
  mem : r ∈ all
  suffix : r.pattern <:+ path
  longer : ∀ q ∈ all, q.pattern <:+ path → q ≠ r → q.pattern.length < r.pattern.length

theorem IsLongest.unique (h : IsLongest path r) (h' : IsLongest path q) : r = q := by
  by_contra hne
  exact Nat.lt_asymm (h.longer q h'.mem h'.suffix (Ne.symm hne)) (h'.longer r h.mem h.suffix hne)

theorem applies_iff : r.applies path ↔ r.pattern <:+ path := List.isSuffixOf_iff_suffix

theorem pattern_ne_nil : ∀ r ∈ all, r.pattern ≠ [] := by decide

theorem nodup_patterns : (all.map pattern).Nodup := by decide

theorem eq_of_pattern_eq (hr : r ∈ all) (hq : q ∈ all) (h : r.pattern = q.pattern) : r = q :=
  List.inj_on_of_nodup_map nodup_patterns hr hq h

theorem mem_forKind_iff : r ∈ forKind k ↔ r ∈ all ∧ r.pattern.getLast? = some k := by
  simp [forKind]

theorem pairwise_forKind (k : Kind) :
    (forKind k).Pairwise fun r q => q.pattern.length ≤ r.pattern.length := by
  have hsorted : (forKind k).Pairwise fun r q =>
      decide (q.pattern.length ≤ r.pattern.length) = true :=
    List.pairwise_mergeSort (by simp; omega) (by simp; omega) _
  simpa only [decide_eq_true_eq] using hsorted

/-- A rule whose pattern ends a path is among those for the last kind of the path. -/
theorem mem_forKind_of_suffix (hr : r ∈ all) (h : r.pattern <:+ path)
    (hk : path.getLast? = some k) : r ∈ forKind k := by
  obtain ⟨front, rfl⟩ := h
  rw [List.getLast?_append_of_ne_nil _ (pattern_ne_nil r hr)] at hk
  exact mem_forKind_iff.2 ⟨hr, hk⟩

theorem isLongest_of_ofPath? (h : ofPath? path = some r) : IsLongest path r := by
  unfold ofPath? at h
  split at h
  · exact absurd h (by simp)
  rename_i k hk
  obtain ⟨happlies, before, behind, hsplit, hbefore⟩ := List.find?_eq_some_iff_append.1 h
  have hmem : r ∈ forKind k := by simp [hsplit]
  refine ⟨(mem_forKind_iff.1 hmem).1, applies_iff.1 happlies, fun q hq hsuffix hne => ?_⟩
  -- The other rule is tried too, and not before this one.
  have hq' := mem_forKind_of_suffix hq hsuffix hk
  rw [hsplit, List.mem_append, List.mem_cons] at hq'
  rcases hq' with hq' | rfl | hq'
  · exact absurd (applies_iff.2 hsuffix) (by simpa using hbefore q hq')
  · exact absurd rfl hne
  · have hsorted := pairwise_forKind k
    rw [hsplit, List.pairwise_append, List.pairwise_cons] at hsorted
    have hle := hsorted.2.1.1 q hq'
    refine lt_of_le_of_ne hle fun hlength => hne (eq_of_pattern_eq hq (mem_forKind_iff.1 hmem).1 ?_)
    exact (List.suffix_of_suffix_length_le hsuffix (applies_iff.1 happlies) hle).eq_of_length hlength

theorem not_suffix_of_ofPath? (h : ofPath? path = none) : ∀ r ∈ all, ¬r.pattern <:+ path := by
  intro r hr hsuffix
  unfold ofPath? at h
  split at h
  · rename_i hnil
    rw [List.getLast?_eq_none_iff] at hnil
    subst hnil
    exact pattern_ne_nil r hr (List.suffix_nil.1 hsuffix)
  · rename_i k hk
    exact List.find?_eq_none.1 h r (mem_forKind_of_suffix hr hsuffix hk) (applies_iff.2 hsuffix)

/-- A kind with a pattern of its own has a rule wherever it ends a path. -/
theorem exists_ofPath? (hk : ∃ r ∈ all, r.pattern = [k]) (front : List Kind) :
    ∃ r, ofPath? (front ++ [k]) = some r ∧ IsLongest (front ++ [k]) r := by
  obtain ⟨q, hq, hpattern⟩ := hk
  cases hfound : ofPath? (front ++ [k]) with
  | none => exact absurd (hpattern ▸ List.suffix_append ..) (not_suffix_of_ofPath? hfound q hq)
  | some r => exact ⟨r, rfl, isLongest_of_ofPath? hfound⟩

theorem IsLongest.getLast?_pattern {front : List Kind} (h : IsLongest (front ++ [k]) r) :
    r.pattern.getLast? = some k := by
  obtain ⟨rest, hrest⟩ := h.suffix
  rw [← List.getLast?_append_of_ne_nil rest (pattern_ne_nil r h.mem), hrest,
    List.getLast?_concat]

/-- A tag that the rules for one kind have, and no others, is the tag of the paths that end in it. -/
theorem tag_ofPath?_iff {tag : Tag} (hk : ∃ r ∈ all, r.pattern = [k])
    (htag : ∀ r ∈ all, r.tag = tag ↔ r.pattern.getLast? = some k) (front : List Kind) (l : Kind) :
    (ofPath? (front ++ [l])).map TagRule.tag = some tag ↔ l = k := by
  constructor
  · intro h
    obtain ⟨r, hfound, hr⟩ := Option.map_eq_some_iff.1 h
    have hlongest := isLongest_of_ofPath? hfound
    exact Option.some.inj (hlongest.getLast?_pattern.symm.trans ((htag r hlongest.mem).1 hr))
  · rintro rfl
    obtain ⟨r, hfound, hlongest⟩ := exists_ofPath? hk front
    rw [hfound, Option.map_some, (htag r hlongest.mem).2 hlongest.getLast?_pattern]

/-- The rule that is found for a path is the one with the longest pattern that ends it, and none is
found just when no pattern ends the path. -/
theorem ofPath?_longest (path : List Kind) :
    (∀ r, ofPath? path = some r ↔ IsLongest path r) ∧
      (ofPath? path = none ↔ ∀ r ∈ all, ¬r.pattern <:+ path) := by
  have hnone : ofPath? path = none ↔ ∀ r ∈ all, ¬r.pattern <:+ path := by
    refine ⟨not_suffix_of_ofPath?, fun h => ?_⟩
    by_contra hsome
    obtain ⟨r, hr⟩ := Option.ne_none_iff_exists'.1 hsome
    have hlongest := isLongest_of_ofPath? hr
    exact h r hlongest.mem hlongest.suffix
  refine ⟨fun r => ⟨isLongest_of_ofPath?, fun h => ?_⟩, hnone⟩
  cases hfound : ofPath? path with
  | none => exact absurd h.suffix (hnone.1 hfound r h.mem)
  | some q => rw [(isLongest_of_ofPath? hfound).unique h]

end ScriptTree.TagRule
