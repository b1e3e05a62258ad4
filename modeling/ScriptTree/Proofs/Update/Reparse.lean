import ScriptTree.Proofs.Statement.Locality
import ScriptTree.Proofs.Update.Relex
import ScriptTree.Update.Reparse

namespace ScriptTree

namespace Statement

/-- The tokens after a statement in a list of tokens. -/
theorem rest_eq_drop {all rest : List Token} {n : Nat} {s : Statement}
    (heof : ∀ t ∈ all, t.kind ≠ .eof) (h : parse? (all.drop n) n = some (s, rest)) :
    rest = all.drop (n + s.count) := by
  obtain ⟨-, ts, hts, hs⟩ := owns_of_parse? (fun t ht => heof t (List.mem_of_mem_drop ht)) h
  rw [← List.drop_drop, hts, hs.count, List.drop_left]

theorem count_pos {all rest : List Token} {n : Nat} {s : Statement}
    (heof : ∀ t ∈ all, t.kind ≠ .eof) (h : parse? (all.drop n) n = some (s, rest)) :
    0 < s.count ∧ n + s.count ≤ all.length := by
  obtain ⟨-, ts, hts, hs⟩ := owns_of_parse? (fun t ht => heof t (List.mem_of_mem_drop ht)) h
  obtain ⟨t, ht, -⟩ := hs.significant
  have hpos := List.length_pos_of_mem ht
  have hlen := congrArg List.length hts
  rw [List.length_drop, List.length_append, ← hs.count] at hlen
  rw [hs.count] at hlen ⊢
  omega

end Statement

/-- Tokens of a run are the same as the old ones, as far as the run goes. -/
theorem Run.Copies.sameFront {olds news : List Token} {run : Run} (h : run.Copies olds news)
    {n k m : Nat} (hn : run.oldFirst ≤ n) (hm : n + m ≤ run.oldEnd)
    (hk : k + run.oldFirst = n + run.newFirst) : SameFront m (olds.drop n) (news.drop k) := by
  obtain ⟨d, hd⟩ := h.copied
  have hcut (l : List Token) (first : Nat) (i : Nat) (hi : i + m ≤ run.count) :
      (((l.drop first).take run.count).drop i).take m = (l.drop (first + i)).take m := by
    rw [List.drop_take, List.take_take, List.drop_drop, Nat.min_eq_left (by omega)]
  have hi : n - run.oldFirst + m ≤ run.count := by
    unfold Run.oldEnd at hm
    omega
  have hold := hcut olds run.oldFirst (n - run.oldFirst) hi
  have hnew := hcut news run.newFirst (n - run.oldFirst) hi
  rw [show run.oldFirst + (n - run.oldFirst) = n by omega] at hold
  rw [show run.newFirst + (n - run.oldFirst) = k by omega] at hnew
  unfold SameFront
  rw [← hold, ← hnew, hd]
  simp only [List.map_take, List.map_drop, List.map_map]
  congr 1

namespace Reparse

open Statement (Sequence)

def Candidates.Sound (olds : List Token) (cs : Candidates) : Prop :=
  ∃ n tail, Sequence (olds.drop n) n (cs.map Prod.fst) tail

theorem Candidates.Sound.tail {olds : List Token} {c : Statement × Nat} {cs : Candidates}
    (heof : ∀ t ∈ olds, t.kind ≠ .eof) (h : Candidates.Sound olds (c :: cs)) :
    Candidates.Sound olds cs := by
  obtain ⟨n, tail, h⟩ := h
  cases h with
  | step h more =>
    rw [Statement.rest_eq_drop heof h] at more
    exact ⟨_, tail, more⟩

theorem Candidates.Sound.suffix {olds : List Token} {cs ds : Candidates}
    (heof : ∀ t ∈ olds, t.kind ≠ .eof) (h : Candidates.Sound olds (cs ++ ds)) :
    Candidates.Sound olds ds := by
  induction cs with
  | nil => exact h
  | cons c cs ih => exact ih (h.tail heof)

/-- Statements whose examined tokens all lie in a run are statements at the copies. -/
theorem sequence_moved {olds news : List Token} (hold : ∀ t ∈ olds, t.kind ≠ .eof) {run : Run}
    (hrun : run.Copies olds news)
    {kept : Candidates} {others : List Statement} {tail : List Token} {n k : Nat}
    (h : Sequence (olds.drop n) n (kept.map Prod.fst ++ others) tail) (hn : run.oldFirst ≤ n)
    (hkept : ∀ c ∈ kept, c.1.first + c.1.examined ≤ run.oldEnd)
    (hk : k + run.oldFirst = n + run.newFirst) {more : List Statement} {tail' : List Token}
    (hmore : Sequence (news.drop (k + kept.tokenCount)) (k + kept.tokenCount) more tail') :
    Sequence (news.drop k) k (kept.map (fun c => moved c.1 ((k : Int) - n)) ++ more) tail' := by
  induction kept generalizing n k with
  | nil => exact hmore
  | cons c kept ih =>
    rw [List.map_cons, List.cons_append] at h
    cases h with
    | step h rest =>
      have hfirst : c.1.first = n :=
        (Statement.owns_of_parse? (fun t ht => hold t (List.mem_of_mem_drop ht)) h).1
      have hle := hkept c List.mem_cons_self
      rw [hfirst] at hle
      have hparse := Statement.parse?_of_sameFront h (hrun.sameFront hn hle hk) k
      have hmoved : { c.1 with first := k } = moved c.1 ((k : Int) - n) := by
        have hshift : ((n : Int) + ((k : Int) - n)).toNat = k := by omega
        simp only [moved, Token.shift, hfirst, hshift]
      rw [hmoved] at hparse
      rw [List.map_cons, List.cons_append]
      refine .step hparse ?_
      rw [List.drop_drop]
      rw [Statement.rest_eq_drop hold h] at rest
      have hδ : ((k + c.1.count : Nat) : Int) - (n + c.1.count : Nat) = k - n := by omega
      have hseq := ih rest (by omega) (fun d hd => hkept d (List.mem_cons_of_mem _ hd))
        (k := k + c.1.count) (by omega) (by simpa [Candidates.tokenCount, Nat.add_assoc] using hmore)
      rwa [hδ] at hseq

structure Walk.Sound (olds news : List Token) (w : Walk) : Prop where
  tokens : w.tokens = news.drop w.index
  candidates : Candidates.Sound olds w.candidates
  runs : ∀ run ∈ w.runs, run.Copies olds news

theorem Walk.Sound.advance {olds news : List Token} {w : Walk} (h : w.Sound olds news) :
    w.advance.Sound olds news :=
  ⟨h.tokens, h.candidates, fun run hrun => h.runs run ((List.dropWhile_sublist _).mem hrun)⟩

theorem Walk.Sound.align {olds news : List Token} (heof : ∀ t ∈ olds, t.kind ≠ .eof) {w : Walk}
    (h : w.Sound olds news) (run : Run) : (w.align run).Sound olds news := by
  refine ⟨h.tokens, ?_, h.runs⟩
  have hall := h.candidates
  rw [← List.takeWhile_append_dropWhile (p := fun c => c.1.first < w.oldIndex run)
    (l := w.candidates)] at hall
  exact hall.suffix heof

theorem Walk.Sound.afterParse {olds news : List Token} (heof : ∀ t ∈ news, t.kind ≠ .eof) {w : Walk}
    (h : w.Sound olds news) {s : Statement} {rest : List Token}
    (hparse : Statement.parse? w.tokens w.index = some (s, rest)) (limit : Nat) :
    (w.afterParse s rest limit).Sound olds news := by
  refine ⟨?_, h.candidates, h.runs⟩
  rw [h.tokens] at hparse
  exact Statement.rest_eq_drop heof hparse

/-- Where statements are taken over, the first starts at the old token that the current one is. -/
theorem exists_of_reusable {cs : Candidates} {index : Nat} {run : Run}
    (h : reusable cs index run ≠ []) :
    reusable cs index run = cs.takeWhile (fun c => c.1.first + c.1.examined ≤ run.oldEnd) ∧
      ∃ c ds, cs = c :: ds ∧ c.1.first = index := by
  unfold reusable at h ⊢
  split at h
  · exact absurd rfl h
  · rename_i s i ds
    split at h
    · rename_i hs
      exact ⟨if_pos hs, (s, i), ds, rfl, hs⟩
    · exact absurd rfl h

theorem Walk.exists_of_run? {w : Walk} {run : Run} (h : w.run? = some run) :
    run ∈ w.runs ∧ run.newFirst ≤ w.index := by
  obtain ⟨hhead, hle⟩ := Option.filter_eq_some_iff.1 h
  exact ⟨List.mem_of_mem_head? hhead, by simpa using hle⟩

theorem Walk.length_tokens_afterReuse (w : Walk) (kept : Candidates) :
    (w.afterReuse kept).tokens.length = w.tokens.length - kept.tokenCount :=
  List.length_drop

/-- Statements that are taken over, and those after them. -/
theorem Walk.Sound.reuse {olds news : List Token} (hold : ∀ t ∈ olds, t.kind ≠ .eof) {w : Walk}
    (h : w.Sound olds news) {run : Run} (hrun : w.run? = some run) {kept : Candidates}
    (hkept : reusable w.candidates (w.oldIndex run) run = kept) (hne : kept ≠ []) :
    (w.afterReuse kept).Sound olds news ∧ 0 < kept.tokenCount ∧
      ∀ {more : List Statement} {tail : List Token},
        Sequence (w.afterReuse kept).tokens (w.afterReuse kept).index more tail →
        Sequence w.tokens w.index
          (kept.map (fun c => moved c.1 ((w.index : Int) - w.oldIndex run)) ++ more) tail := by
  obtain ⟨hmem, hle⟩ := w.exists_of_run? hrun
  obtain ⟨htake, c, ds, hcs, hfirst⟩ := exists_of_reusable (hkept ▸ hne)
  rw [hkept] at htake
  have hsplit := List.takeWhile_append_dropWhile (l := w.candidates)
    (p := fun c => c.1.first + c.1.examined ≤ run.oldEnd)
  rw [← htake] at hsplit
  have htokens : w.tokens.drop kept.tokenCount = news.drop (w.index + kept.tokenCount) := by
    rw [h.tokens, List.drop_drop]
  -- The candidates start at the old token that the current one is.
  obtain ⟨n, tail, hseq⟩ := h.candidates
  obtain ⟨hn, hpos⟩ : w.oldIndex run = n ∧ 0 < c.1.count := by
    rw [hcs, List.map_cons] at hseq
    cases hseq with
    | step hparse more =>
      have hn := (Statement.owns_of_parse? (fun t ht => hold t (List.mem_of_mem_drop ht)) hparse).1
      exact ⟨hfirst.symm.trans hn, (Statement.count_pos hold hparse).1⟩
  have hindex : w.index + run.oldFirst = n + run.newFirst := by
    rw [← hn, Walk.oldIndex]
    omega
  refine ⟨⟨htokens, ?_, h.runs⟩, ?_, fun hmore => ?_⟩
  · have hall := h.candidates
    rw [← hsplit] at hall
    show Candidates.Sound olds (w.candidates.drop kept.length)
    rw [← hsplit, List.drop_left]
    exact hall.suffix hold
  · cases kept with
    | nil => exact absurd rfl hne
    | cons d kept =>
      rw [hcs, List.cons_append] at hsplit
      rw [Candidates.tokenCount, (List.cons.inj hsplit).1]
      omega
  · rw [← hsplit, List.map_append] at hseq
    rw [h.tokens, hn]
    refine sequence_moved hold (h.runs run hmem) hseq (by omega) (fun d hd => ?_) hindex ?_
    · rw [htake] at hd
      simpa using List.mem_takeWhile_imp hd
    · have hmore' : Sequence (w.tokens.drop kept.tokenCount) (w.index + kept.tokenCount) _ _ := hmore
      rwa [htokens] at hmore'

def parseStep (limit fuel : Nat) (w : Walk) : List Step × List Token :=
  match Statement.parse? w.tokens w.index with
  | none => ([], w.tokens)
  | some (s, rest) =>
    (⟨s, none⟩ :: (steps limit fuel (w.afterParse s rest limit)).1,
      (steps limit fuel (w.afterParse s rest limit)).2)

theorem steps_of_no_run {limit fuel : Nat} {w : Walk}
    (h : (if w.advance.reuse then w.advance.run? else none) = none) :
    steps limit (fuel + 1) w = parseStep limit fuel w.advance := by
  rw [steps]
  simp only [h, List.isEmpty_nil, Bool.not_true, Bool.false_eq_true, if_false]
  rfl

theorem steps_of_run {limit fuel : Nat} {w : Walk} {run : Run}
    (h : (if w.advance.reuse then w.advance.run? else none) = some run) {kept : Candidates}
    (hkept : reusable (w.advance.align run).candidates ((w.advance.align run).oldIndex run) run =
      kept) :
    steps limit (fuel + 1) w =
      if kept = [] then parseStep limit fuel (w.advance.align run)
      else
        (kept.map (fun c => ⟨moved c.1 ((w.advance.index : Int) -
            (w.advance.align run).oldIndex run), some c.2⟩) ++
          (steps limit fuel ((w.advance.align run).afterReuse kept)).1,
          (steps limit fuel ((w.advance.align run).afterReuse kept)).2) := by
  rw [steps]
  simp only [h, hkept, Bool.not_eq_true', List.isEmpty_eq_false_iff]
  by_cases hne : kept = []
  · simp only [hne, ne_eq, not_true_eq_false, if_false, if_true]
    rfl
  · simp only [hne, ne_eq, not_false_eq_true, if_true, if_false]
    rfl

/-- The walk finds the statements of the tokens ahead. -/
theorem steps_sequence {olds news : List Token} (hold : ∀ t ∈ olds, t.kind ≠ .eof)
    (hnew : ∀ t ∈ news, t.kind ≠ .eof) (limit fuel : Nat) {w : Walk} (h : w.Sound olds news)
    (hfuel : w.tokens.length ≤ fuel) :
    Sequence w.tokens w.index ((steps limit fuel w).1.map Step.statement)
      (steps limit fuel w).2 := by
  induction fuel generalizing w with
  | zero =>
    have hnil := List.length_eq_zero_iff.1 (Nat.le_zero.1 hfuel)
    rw [steps, hnil]
    exact .done rfl
  | succ fuel ih =>
    have hparse {w : Walk} (h : w.Sound olds news) (hfuel : w.tokens.length ≤ fuel + 1) :
        Sequence w.tokens w.index ((parseStep limit fuel w).1.map Step.statement)
          (parseStep limit fuel w).2 := by
      unfold parseStep
      split
      · rename_i hnone
        exact .done hnone
      · rename_i s rest hsome
        have heof : ∀ t ∈ w.tokens, t.kind ≠ .eof := by
          rw [h.tokens]
          exact fun t ht => hnew t (List.mem_of_mem_drop ht)
        have hlt := (Statement.length_rest_lt_of_parse? heof hsome).1
        exact .step hsome (ih (h.afterParse hnew hsome limit) (by show rest.length ≤ fuel; omega))
    cases hrun : if w.advance.reuse then w.advance.run? else none with
    | none =>
      rw [steps_of_no_run hrun]
      exact hparse h.advance hfuel
    | some run =>
      have hsound := h.advance.align hold run
      have hrun' : (w.advance.align run).run? = some run := by
        split at hrun
        · exact hrun
        · exact absurd hrun (by simp)
      rw [steps_of_run hrun rfl]
      split
      · exact hparse hsound hfuel
      · rename_i hne
        obtain ⟨hreuse, hpos, hseq⟩ := hsound.reuse hold hrun' rfl hne
        rw [List.map_append, List.map_map]
        refine hseq (ih hreuse ?_)
        rw [Walk.length_tokens_afterReuse]
        exact Nat.sub_le_of_le_add (hfuel.trans (Nat.add_le_add_left hpos fuel))

end Reparse

open Statement in
/-- Statements that are taken over or parsed are those that the new tokens have by themselves. -/
theorem reparse_eq {olds tail : List Token} {old : List Statement} {relexed : Relexed}
    (hold : ∀ t ∈ olds, t.kind ≠ .eof) (hnew : ∀ t ∈ relexed.tokens.toList, t.kind ≠ .eof)
    (hseq : Sequence olds 0 old tail)
    (hruns : ∀ run ∈ relexed.runs, run.Copies olds relexed.tokens.toList) (limit : Nat) :
    ((reparse old relexed limit).1.map Reparse.Step.statement, (reparse old relexed limit).2) =
      parseAll relexed.tokens.toList := by
  have hsound : Reparse.Walk.Sound olds relexed.tokens.toList
      ⟨relexed.tokens.toList, 0, old.zipIdx, relexed.runs, 0, true⟩ :=
    ⟨rfl, ⟨0, tail, by simpa using hseq⟩, hruns⟩
  have h := Reparse.steps_sequence hold hnew limit _ hsound (Nat.le_refl _)
  exact (h.parseAllLoop_eq hnew (Nat.le_refl _)).symm

end ScriptTree
