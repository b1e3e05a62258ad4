import ScriptTree.Proofs.Update.Relex

namespace ScriptTree

def Run.Before (run other : Run) : Prop :=
  run.newEnd ≤ other.newFirst ∧ run.oldEnd ≤ other.oldFirst

def Run.total (runs : List Run) : Nat := (runs.map Run.count).sum

namespace Relex

/-- Old tokens are not met again before a given one. -/
theorem le_of_resume (old : TokenStream) (least limit : Nat) (text : Text) (place : Nat)
    (ahead : Ahead) (misses : Nat) :
    ∀ i ∈ (seek old least limit text place ahead misses).resume, least ≤ i := by
  fun_induction seek old least limit text place ahead misses with
  | case1 text place ahead misses ahead' index hi =>
    rintro i hi'
    obtain rfl := Option.some.inj hi'
    unfold Ahead.oldToken? at hi
    split at hi
    · simpa using (Option.filter_eq_some_iff.1 hi).2
    · simp at hi
  | case2 | case3 => exact fun i hi => absurd hi (Option.not_mem_none i)
  | case4 place ahead misses ahead' hn misses' hm c s l more ih => exact ih

/-- The runs so far come one behind the other and end before the draft does and before an old token;
together with what was lexed they are the draft. -/
structure Progress.Accounted (p : Progress) (index : Nat) : Prop where
  ordered : p.runs.Pairwise Run.Before
  positive : ∀ run ∈ p.runs, 0 < run.count
  behind : ∀ run ∈ p.runs, run.newEnd ≤ p.draft.length ∧ run.oldEnd ≤ index
  counted : p.relexed + Run.total p.runs = p.draft.length

variable {p : Progress} {index : Nat}

theorem Progress.Accounted.takeOver {old : TokenStream} (hold : old.Sound) (h : p.Accounted index)
    (bound : Option Nat) (delta : Int) :
    (p.takeOver old index bound delta).1.Accounted (p.takeOver old index bound delta).2 := by
  obtain ⟨ts, hts⟩ := hold.copyInto_copied index bound delta p.draft
  have hlength : (old.copyInto index bound delta p.draft).1.length = p.draft.length + ts.length := by
    rw [← Draft.length_flat, hts.flat, List.length_append, List.length_map, Draft.length_flat]
  have hbehind : ∀ run ∈ p.runs, run.newEnd ≤ p.draft.length + ts.length ∧
      run.oldEnd ≤ index + ts.length := by
    intro run hrun
    have := h.behind run hrun
    omega
  unfold Progress.takeOver
  simp only [hts.index, Nat.add_sub_cancel_left]
  by_cases hpos : index < index + ts.length
  · rw [if_pos hpos]
    refine ⟨?_, fun run hrun => ?_, fun run hrun => ?_, ?_⟩
    · refine List.pairwise_append.2 ⟨h.ordered, List.pairwise_singleton .., fun run hrun r hr => ?_⟩
      obtain rfl := List.mem_singleton.1 hr
      exact h.behind run hrun
    · rcases List.mem_append.1 hrun with hrun | hrun
      · exact h.positive run hrun
      · obtain rfl := List.mem_singleton.1 hrun
        show 0 < ts.length
        omega
    · rw [hlength]
      rcases List.mem_append.1 hrun with hrun | hrun
      · exact hbehind run hrun
      · obtain rfl := List.mem_singleton.1 hrun
        exact ⟨Nat.le_refl _, Nat.le_refl _⟩
    · have := h.counted
      simp only [Run.total, List.map_append, List.sum_append, List.map_cons, List.map_nil,
        List.sum_singleton, hlength] at this ⊢
      omega
  · rw [if_neg hpos]
    have hnil : ts.length = 0 := by omega
    refine ⟨h.ordered, h.positive, fun run hrun => hlength ▸ hbehind run hrun, ?_⟩
    rw [hlength, hnil]
    exact h.counted

/-- New tokens are lexed, and old ones are met again no earlier. -/
theorem Progress.Accounted.push (h : p.Accounted index) (ts : List Token) {next : Nat}
    (hnext : index ≤ next) :
    Progress.Accounted { p with
      draft := p.draft.pushAll ts, relexed := p.relexed + ts.length } next := by
  have hlength : (p.draft.pushAll ts).length = p.draft.length + ts.length := by
    rw [← Draft.length_flat, Draft.flat_pushAll, List.length_append, Draft.length_flat]
  refine ⟨h.ordered, h.positive, fun run hrun => ?_, ?_⟩
  · have := h.behind run hrun
    rw [hlength]
    omega
  · have := h.counted
    simp only [hlength]
    omega

/-- The account is kept up to the end of the loop. -/
theorem loop_accounted {old : TokenStream} (hold : old.Sound) (text : Text) (limit : Nat)
    (h : p.Accounted index) (cs : List Change) (delta : Int) :
    ∃ next, (loop old text limit p index cs delta).Accounted next := by
  fun_induction loop old text limit p index cs delta with
  | case1 p index delta => exact ⟨_, h.takeOver hold none delta⟩
  | case2 p index delta c cs p' index' htake place stretch =>
    have htaken := h.takeOver hold (some c.oldStart) delta
    rw [htake] at htaken
    exact ⟨_, htaken.push stretch.fresh (Nat.le_refl _)⟩
  | case3 p index delta c cs p' index' htake place stretch q i hres ih =>
    have htaken := h.takeOver hold (some c.oldStart) delta
    rw [htake] at htaken
    exact ih (htaken.push stretch.fresh (le_of_resume _ _ _ _ _ _ _ i hres))

end Relex

/-- The runs of a changed text come one behind the other, and all tokens in none of them were
lexed. -/
theorem relex_accounted {old : TokenStream} (hold : old.Sound) (text : Text)
    (changes : List Change) (limit : Nat) :
    (relex old text changes limit).runs.Pairwise Run.Before ∧
      (∀ run ∈ (relex old text changes limit).runs, 0 < run.count) ∧
      (relex old text changes limit).relexed + Run.total (relex old text changes limit).runs =
        (relex old text changes limit).tokens.length := by
  have hstart : Relex.Progress.Accounted ⟨.empty, [], 0⟩ 0 := ⟨.nil, nofun, nofun, rfl⟩
  obtain ⟨next, h⟩ := Relex.loop_accounted hold text limit hstart changes 0
  refine ⟨h.ordered, h.positive, ?_⟩
  rw [← TokenStream.length_flat, relex, Draft.flat_finish, Draft.length_flat]
  exact h.counted

end ScriptTree
