import Mathlib.Data.List.ReduceOption
import ScriptTree.Proofs.Update.Reparse

namespace ScriptTree

/-- A statement wherever it stands. -/
def Statement.placeless (s : Statement) : Statement := { s with first := 0 }

/-- In statements one behind the other, each starts behind the tokens of those before it. -/
theorem Statement.Contiguous.first_eq {n k : Nat} {ss : List Statement} {s : Statement}
    (h : Contiguous n ss) (hk : ss[k]? = some s) : s.first = n + tokenCount (ss.take k) := by
  induction ss generalizing n k with
  | nil => simp at hk
  | cons t ss ih =>
    cases k with
    | zero =>
      obtain rfl : t = s := by simpa using hk
      exact h.1
    | succ k =>
      have := ih h.2 (by simpa using hk)
      rw [this, List.take_succ_cons, tokenCount, tokenCount, List.map_cons, List.sum_cons,
        Nat.add_assoc]

namespace Reparse

def Step.taken? (s : Step) : Option (Statement × Nat) :=
  s.origin.map fun i => (s.statement.placeless, i)

theorem Step.map_snd_taken? (s : Step) : s.taken?.map Prod.snd = s.origin := by
  simp [taken?, Function.comp_def]

def Candidates.placeless (cs : Candidates) : List (Statement × Nat) :=
  cs.map fun c => (c.1.placeless, c.2)

theorem Candidates.placeless_append (cs ds : Candidates) :
    placeless (cs ++ ds) = placeless cs ++ placeless ds := List.map_append

theorem reusable_prefix (cs : Candidates) (index : Nat) (run : Run) :
    reusable cs index run <+: cs := by
  unfold reusable
  split
  · exact List.nil_prefix
  · split
    · exact List.takeWhile_prefix _
    · exact List.nil_prefix

theorem filterMap_taken?_moved (kept : Candidates) (delta : Int) :
    (kept.map fun c => (⟨moved c.1 delta, some c.2⟩ : Step)).filterMap Step.taken? =
      kept.placeless := by
  rw [List.filterMap_map, Candidates.placeless, ← List.filterMap_eq_map]
  rfl

/-- The steps of a walk take candidates over in their order, each at most once. -/
theorem steps_sublist (limit fuel : Nat) (w : Walk) :
    ((steps limit fuel w).1.filterMap Step.taken?).Sublist w.candidates.placeless := by
  induction fuel generalizing w with
  | zero => exact List.nil_sublist _
  | succ fuel ih =>
    -- A statement that is parsed leaves the candidates as they are.
    have hparse (w : Walk) :
        ((parseStep limit fuel w).1.filterMap Step.taken?).Sublist w.candidates.placeless := by
      unfold parseStep
      split
      · exact List.nil_sublist _
      · rename_i s rest _
        exact ih (w.afterParse s rest limit)
    cases hrun : if w.advance.reuse then w.advance.run? else none with
    | none =>
      rw [steps_of_no_run hrun]
      exact hparse w.advance
    | some run =>
      have halign : (w.advance.align run).candidates.placeless.Sublist w.candidates.placeless :=
        (List.dropWhile_sublist _).map _
      rw [steps_of_run hrun rfl]
      split
      · exact (hparse (w.advance.align run)).trans halign
      · generalize hkept : reusable (w.advance.align run).candidates
          ((w.advance.align run).oldIndex run) run = kept
        -- What is taken over is a front of the candidates, and the walk goes on behind it.
        obtain ⟨behind, hbehind⟩ := hkept ▸ reusable_prefix (w.advance.align run).candidates _ run
        have hnext := ih ((w.advance.align run).afterReuse kept)
        have hdrop : ((w.advance.align run).afterReuse kept).candidates = behind := by
          show (w.advance.align run).candidates.drop kept.length = behind
          rw [← hbehind, List.drop_left]
        rw [hdrop] at hnext
        refine List.Sublist.trans ?_ halign
        rw [← hbehind, List.filterMap_append, filterMap_taken?_moved, Candidates.placeless_append]
        exact (List.Sublist.refl _).append hnext

end Reparse

open Reparse

variable (old : List Statement) (relexed : Relexed) (limit : Nat)

theorem reparse_sublist :
    ((reparse old relexed limit).1.filterMap Step.taken?).Sublist
      (Candidates.placeless old.zipIdx) :=
  steps_sublist limit _ _

/-- Among the old statements, those that are taken over follow one another. -/
theorem pairwise_origins_reparse :
    ((reparse old relexed limit).1.map Step.origin).reduceOption.Pairwise (· < ·) := by
  have h := (reparse_sublist old relexed limit).map Prod.snd
  have hrange : (Candidates.placeless old.zipIdx).map Prod.snd = List.range old.length := by
    rw [Candidates.placeless, List.map_map, List.range_eq_range', ← List.zipIdx_map_snd 0 old]
    rfl
  have horigins : ((reparse old relexed limit).1.filterMap Step.taken?).map Prod.snd =
      ((reparse old relexed limit).1.map Step.origin).reduceOption := by
    rw [List.map_filterMap, List.reduceOption, List.filterMap_map]
    congr 1
    funext s
    exact s.map_snd_taken?
  rw [hrange, horigins] at h
  exact List.pairwise_lt_range.sublist h

/-- A step that took an old statement over has that statement. -/
theorem placeless_of_mem_reparse {s : Step} (hs : s ∈ (reparse old relexed limit).1) {i : Nat}
    (hi : s.origin = some i) :
    ∃ o, old[i]? = some o ∧ s.statement.placeless = o.placeless := by
  have hmem : (s.statement.placeless, i) ∈ (reparse old relexed limit).1.filterMap Step.taken? :=
    List.mem_filterMap.2 ⟨s, hs, by rw [Step.taken?, hi, Option.map_some]⟩
  obtain ⟨⟨o, j⟩, ho, heq⟩ := List.mem_map.1 ((reparse_sublist old relexed limit).mem hmem)
  obtain ⟨hplaceless, rfl⟩ := Prod.mk.inj heq
  exact ⟨o, List.mem_zipIdx_iff_getElem?.1 ho, hplaceless.symm⟩

/-- A statement that was taken over is the old one, and starts behind the tokens of those before it. -/
theorem kept_of_contiguous
    (h : Statement.Contiguous 0 ((reparse old relexed limit).1.map Step.statement)) {k i : Nat}
    (hi : ((reparse old relexed limit).1.map Step.origin)[k]? = some (some i)) :
    ∃ o s, old[i]? = some o ∧ ((reparse old relexed limit).1.map Step.statement)[k]? = some s ∧
      s.tree = o.tree ∧ s.count = o.count ∧ s.examined = o.examined ∧
      s.first = Statement.tokenCount
        (((reparse old relexed limit).1.map Step.statement).take k) := by
  rw [List.getElem?_map] at hi
  obtain ⟨step, hstep, horigin⟩ := Option.map_eq_some_iff.1 hi
  obtain ⟨o, ho, hplaceless⟩ :=
    placeless_of_mem_reparse old relexed limit (List.mem_of_getElem? hstep) horigin
  obtain ⟨-, hcount, hexamined, htree⟩ := Statement.mk.inj hplaceless
  have hs : ((reparse old relexed limit).1.map Step.statement)[k]? = some step.statement := by
    rw [List.getElem?_map, hstep, Option.map_some]
  have hfirst := h.first_eq hs
  rw [Nat.zero_add] at hfirst
  exact ⟨o, step.statement, ho, hs, htree, hcount, hexamined, hfirst⟩

end ScriptTree
