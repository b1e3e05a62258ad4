import ScriptTree.Proofs.Document.Partition
import ScriptTree.Proofs.Statement.Lookahead
import ScriptTree.Proofs.Update.Reuse
import ScriptTree.Proofs.Update.Runs

namespace ScriptTree

namespace Reached

theorem take_ofTokens (n m : Nat) (ts : List Token) :
    (ofTokens n ts).take m = ofTokens n (ts.take m) := by
  induction ts generalizing n m with
  | nil => simp [ofTokens]
  | cons t ts ih =>
    cases m with
    | zero => rfl
    | succ m => simp [ofTokens, ih]

/-- Tokens that looked no further than a bound have not reached past it together. -/
theorem reach_le {n a : Nat} {ts : List Token} (hn : n ≤ a) (h : ∀ t ∈ ts, t.lookahead ≤ a) :
    ∀ e ∈ ofTokens n ts, e.reach ≤ a := by
  induction ts generalizing n with
  | nil => simp [ofTokens]
  | cons t ts ih =>
    obtain ⟨ht, hts⟩ := List.forall_mem_cons.1 h
    have hmax : max t.lookahead n ≤ a := Nat.max_le.2 ⟨ht, hn⟩
    exact List.forall_mem_cons.2 ⟨hmax, ih hmax hts⟩

end Reached

/-- Of a single pass all tokens are taken over before the first one that looked past the bound. -/
theorem Chunk.le_endWithin_whole {ts : Array Token} (h : 0 < ts.size) {m a : Nat} (hm : m ≤ ts.size)
    (hts : ∀ t ∈ ts.toList.take m, t.lookahead ≤ a) :
    m ≤ (whole ts 0 h).endWithin 0 (some a) := by
  obtain ⟨c, hc⟩ : ∃ c, whole ts 0 h = c := ⟨_, rfl⟩
  have hentries : (c.pass.entries.extract 0 c.hi).toList = Reached.ofTokens 0 ts.toList := by
    rw [← hc]
    exact entries_whole ts 0 h
  have hdelta : c.delta = 0 := by rw [← hc]; rfl
  have hsize : c.hi ≤ c.pass.entries.size := c.hi_le_size
  -- The furthest lookahead grows along the pass, so bisection stops where a scan would.
  have hpair : (c.pass.entries.extract 0 c.hi).toList.Pairwise fun x y =>
      decide (Token.shift y.reach c.delta ≤ a) → decide (Token.shift x.reach c.delta ≤ a) := by
    rw [hentries]
    refine (Reached.pairwise_ofTokens 0 ts.toList).imp fun {x y} hxy hy => ?_
    simp only [hdelta, Token.shift_zero, decide_eq_true_eq] at hy ⊢
    exact hxy.trans hy
  rw [hc, endWithin, bisectArray_eq_takeWhile (Nat.zero_le _) hsize hpair, Nat.zero_add, hentries]
  have hall : ∀ e ∈ (Reached.ofTokens 0 ts.toList).take m, decide (Token.shift e.reach c.delta ≤ a) := by
    intro e he
    rw [Reached.take_ofTokens] at he
    have hreach := Reached.reach_le (Nat.zero_le a) hts e he
    simpa only [hdelta, Token.shift_zero, decide_eq_true_eq] using hreach
  have hlength : (Reached.ofTokens 0 ts.toList).length = ts.size := by
    rw [← List.length_map Reached.token, Reached.map_token_ofTokens, Array.length_toList]
  have hkept := List.take_takeWhile (i := m) (l := Reached.ofTokens 0 ts.toList)
    (p := fun e => decide (Token.shift e.reach c.delta ≤ a))
  rw [List.takeWhile_eq_self_iff.2 hall] at hkept
  have hkept := congrArg List.length hkept
  rw [List.length_take, List.length_take, hlength, Nat.min_eq_left hm] at hkept
  exact hkept.ge.trans (Nat.min_le_right ..)

/-- From a single chunk as much is taken over as lies within the bound. -/
theorem Chunk.snd_copyAll_singleton (c : Chunk) (bound : Option Nat) (delta : Int) (d : Draft) :
    (copyAll bound delta [c] c.first d).2 = c.first + (c.endWithin c.lo bound - c.lo) := by
  have hlo : c.lo + (c.first - c.first) = c.lo := by omega
  rw [copyAll_cons d hlo rfl]
  split
  · split <;> rfl
  · split
    · simp only
      omega
    · simp only [copyAll]
      omega

/-- A copy from the start of the tokens of a text takes all before the first one that looked past the
bound. -/
theorem TokenStream.le_copyInto_ofList {ts : List Token} {m a : Nat} (hm : m ≤ ts.length)
    (hts : ∀ t ∈ ts.take m, t.lookahead ≤ a) (delta : Int) (d : Draft) :
    m ≤ ((ofList ts).copyInto 0 (some a) delta d).2 := by
  unfold ofList ofArray
  split
  · rename_i h
    have hend := Chunk.le_endWithin_whole h hm hts
    have hpast : 0 < (Chunk.whole ts.toArray 0 h).past := by
      rw [Chunk.past]
      exact Nat.add_pos_right _ (Chunk.length_pos _)
    have hindex : bisectArray #[Chunk.whole ts.toArray 0 h] (fun c => c.past ≤ 0) 0 1 = 0 := by
      apply bisect_eq (Nat.le_refl 0) (Nat.zero_le 1)
      · intro i _ hi
        exact absurd hi (Nat.not_lt_zero i)
      · intro i _ hi
        obtain rfl : i = 0 := by omega
        simpa using hpast.ne'
    have hcopy := Chunk.snd_copyAll_singleton (Chunk.whole ts.toArray 0 h) (some a) delta d
    rw [copyInto, chunkIndex]
    simp only [List.size_toArray, List.length_singleton, hindex, List.drop_zero]
    rw [show (Chunk.whole ts.toArray 0 h).first = 0 from rfl,
      show (Chunk.whole ts.toArray 0 h).lo = 0 from rfl] at hcopy
    omega
  · rename_i h
    simp only [List.size_toArray] at h
    omega

namespace Relex

theorem prefix_runs_takeOver (p : Progress) (old : TokenStream) (oldIndex : Nat)
    (bound : Option Nat) (delta : Int) :
    p.runs <+: (p.takeOver old oldIndex bound delta).1.runs := by
  unfold Progress.takeOver
  dsimp only
  split
  · exact List.prefix_append ..
  · exact List.prefix_rfl

theorem prefix_runs_loop (old : TokenStream) (text : Text) (limit : Nat) (p : Progress)
    (oldIndex : Nat) (changes : List Change) (delta : Int) :
    p.runs <+: (loop old text limit p oldIndex changes delta).runs := by
  fun_induction loop old text limit p oldIndex changes delta with
  | case1 p oldIndex delta => exact prefix_runs_takeOver ..
  | case2 p oldIndex delta c cs q index hq place stretch q' hresume =>
    have hprefix := prefix_runs_takeOver p old oldIndex (some c.oldStart) delta
    rwa [hq] at hprefix
  | case3 p oldIndex delta c cs q index hq place stretch q' i hresume ih =>
    have hprefix := prefix_runs_takeOver p old oldIndex (some c.oldStart) delta
    rw [hq] at hprefix
    exact hprefix.trans ih

theorem prefix_runs_loop_cons (old : TokenStream) (text : Text) (limit : Nat) (p : Progress)
    (oldIndex : Nat) (c : Change) (cs : List Change) (delta : Int) :
    (p.takeOver old oldIndex (some c.oldStart) delta).1.runs <+:
      (loop old text limit p oldIndex (c :: cs) delta).runs := by
  rw [loop]
  dsimp only
  split
  · exact List.prefix_rfl
  · refine List.IsPrefix.trans ?_ (prefix_runs_loop ..)
    exact List.prefix_rfl

/-- The first run has all tokens before the first one that looked past the first change. -/
theorem exists_run (ts : List Token) (text : Text) (c : Change) (cs : List Change) (limit : Nat)
    {m : Nat} (hpos : 0 < m) (hm : m ≤ ts.length)
    (hts : ∀ t ∈ ts.take m, t.lookahead ≤ c.oldStart) :
    ∃ n runs, (relex (.ofList ts) text (c :: cs) limit).runs = ⟨0, 0, n⟩ :: runs ∧ m ≤ n := by
  have hcopy := TokenStream.le_copyInto_ofList hm hts 0 .empty
  obtain ⟨runs, hruns⟩ :=
    prefix_runs_loop_cons (.ofList ts) text limit ⟨.empty, [], 0⟩ 0 c cs 0
  have htake : (Progress.takeOver ⟨.empty, [], 0⟩ (.ofList ts) 0 (some c.oldStart) 0).1.runs =
      [⟨0, 0, ((TokenStream.ofList ts).copyInto 0 (some c.oldStart) 0 .empty).2⟩] :=
    if_pos (hpos.trans_le hcopy)
  rw [htake] at hruns
  exact ⟨_, runs, hruns.symm, hcopy⟩

end Relex

namespace Reparse

/-- Statements whose examined ends are in order are taken over up to any one that the run holds. -/
theorem getElem?_reusable {olds : List Statement} {n i : Nat} {x : Statement}
    (hfirst : ∀ s ∈ olds.head?, s.first = 0)
    (hmono : olds.Pairwise fun s s' => s.first + s.examined ≤ s'.first + s'.examined)
    (hi : olds[i]? = some x) (hx : x.first + x.examined ≤ n) :
    (reusable olds.zipIdx 0 ⟨0, 0, n⟩)[i]? = some (x, i) := by
  have hall : ∀ c ∈ olds.zipIdx.take (i + 1), decide (c.1.first + c.1.examined ≤ n) := by
    intro c hc
    obtain ⟨j, hj, rfl⟩ := List.mem_iff_getElem.1 hc
    rw [List.length_take, List.length_zipIdx] at hj
    obtain ⟨hlt, rfl⟩ := List.getElem?_eq_some_iff.1 hi
    simp only [List.getElem_take, List.getElem_zipIdx, decide_eq_true_eq]
    rcases Nat.lt_or_eq_of_le (show j ≤ i by omega) with hji | rfl
    · exact (List.pairwise_iff_getElem.1 hmono j i (by omega) hlt hji).trans hx
    · exact hx
  have hget : olds.zipIdx[i]? = some (x, i) := by
    rw [List.getElem?_zipIdx, hi, Option.map_some, Nat.zero_add]
  cases olds with
  | nil => simp at hi
  | cons s ss =>
    have hs : s.first = 0 := hfirst s rfl
    rw [List.zipIdx_cons, reusable, if_pos hs, Run.oldEnd, Nat.zero_add, ← List.zipIdx_cons]
    rw [← List.getElem?_take_of_lt (Nat.lt_succ_self i), List.take_takeWhile,
      List.takeWhile_eq_self_iff.2 hall, List.getElem?_take_of_lt (Nat.lt_succ_self i)]
    exact hget

/-- Where the first run holds all that a statement and those before it examined, they are the first
steps. -/
theorem getElem?_steps {olds : List Statement} {news : List Token} {runs : List Run} {n i : Nat}
    {x : Statement} (limit fuel : Nat) (hpos : 0 < n)
    (hkept : (reusable olds.zipIdx 0 ⟨0, 0, n⟩)[i]? = some (x, i)) :
    (steps limit (fuel + 1) ⟨news, 0, olds.zipIdx, ⟨0, 0, n⟩ :: runs, 0, true⟩).1[i]? =
      some ⟨x, some i⟩ := by
  obtain ⟨w, hw⟩ : ∃ w : Walk, ⟨news, 0, olds.zipIdx, ⟨0, 0, n⟩ :: runs, 0, true⟩ = w := ⟨_, rfl⟩
  have hadvance : w.advance = w := by simp [← hw, Walk.advance, Run.newEnd, hpos.ne']
  have hrun : (if w.advance.reuse then w.advance.run? else none) = some ⟨0, 0, n⟩ := by
    rw [hadvance]
    simp [← hw, Walk.run?]
  have halign : w.advance.align ⟨0, 0, n⟩ = w := by
    rw [hadvance]
    simp [← hw, Walk.align, Walk.oldIndex]
  have hreuse : reusable (w.advance.align ⟨0, 0, n⟩).candidates
      ((w.advance.align ⟨0, 0, n⟩).oldIndex ⟨0, 0, n⟩) ⟨0, 0, n⟩ =
        reusable olds.zipIdx 0 ⟨0, 0, n⟩ := by
    rw [halign, ← hw]
    rfl
  obtain ⟨hlt, hget⟩ := List.getElem?_eq_some_iff.1 hkept
  rw [hw, steps_of_run hrun hreuse, if_neg (List.ne_nil_of_length_pos (Nat.zero_lt_of_lt hlt)),
    List.getElem?_append_left (by rwa [List.length_map]), List.getElem?_map, hkept, halign, hadvance,
    ← hw]
  simp [moved, Token.shift, Walk.oldIndex]

end Reparse

/-- What the first run holds is taken over at the same place. -/
theorem getElem?_reparse {olds : List Statement} {relexed : Relexed} {runs : List Run} {n i : Nat}
    {x : Statement} (limit : Nat) (hpos : 0 < n) (hruns : relexed.runs = ⟨0, 0, n⟩ :: runs)
    (htokens : 0 < relexed.tokens.length) (hfirst : ∀ s ∈ olds.head?, s.first = 0)
    (hmono : olds.Pairwise fun s s' => s.first + s.examined ≤ s'.first + s'.examined)
    (hi : olds[i]? = some x) (hx : x.first + x.examined ≤ n) :
    (reparse olds relexed limit).1[i]? = some ⟨x, some i⟩ := by
  obtain ⟨fuel, hfuel⟩ : ∃ fuel, relexed.tokens.toList.length = fuel + 1 :=
    Nat.exists_eq_add_one_of_ne_zero (by rw [TokenStream.length_toList]; omega)
  have hkept := Reparse.getElem?_reusable hfirst hmono hi hx
  rw [reparse, hruns, hfuel]
  exact Reparse.getElem?_steps limit fuel hpos hkept

namespace Update

/-- The incremental update of a text keeps the statements for which no token that looked past the first
change was examined, nor is there one before. -/
theorem incremental_front (s : Text) (settings : Settings) (text : Text) (c : Change)
    (cs : List Change) {i : Nat} {x : Statement} (hi : (Document.parse s).statements[i]? = some x)
    (hx : x.first + x.examined ≤ (Lexer.tokens s).length)
    (hlook : ∀ t ∈ (Lexer.tokens s).take (x.first + x.examined), t.lookahead ≤ c.oldStart) :
    (incremental settings (Document.parse s) text (c :: cs)).origins[i]? = some (some i) ∧
      (incremental settings (Document.parse s) text (c :: cs)).document.statements[i]? = some x := by
  have hcurrent := Document.parse_current s
  have hpartitioned := hcurrent.partitioned
  have hpos : 0 < x.first + x.examined := by
    have howns := hpartitioned.owns x (List.mem_of_getElem? hi)
    obtain ⟨t, ht, -⟩ := howns.significant
    have hcount := howns.count
    have hexamined := howns.examined
    have hlength := List.length_pos_of_mem ht
    omega
  have hfirst : ∀ y ∈ (Document.parse s).statements.head?, y.first = 0 := by
    intro y hy
    rw [List.head?_eq_getElem?] at hy
    exact hpartitioned.contiguous.first_eq hy
  obtain ⟨n, runs, hruns, hle⟩ : ∃ n runs,
      (relex (Document.parse s).tokens text (c :: cs) (max settings.maxResyncLookahead 1)).runs =
        ⟨0, 0, n⟩ :: runs ∧ x.first + x.examined ≤ n :=
    Relex.exists_run (Lexer.tokens s) text c cs _ hpos hx hlook
  obtain ⟨-, -, htotal⟩ := relex_accounted hcurrent.stored.invariant.2.1 text (c :: cs)
    (max settings.maxResyncLookahead 1)
  rw [hruns, Run.total, List.map_cons, List.sum_cons] at htotal
  have htokens : 0 < (relex (Document.parse s).tokens text (c :: cs)
      (max settings.maxResyncLookahead 1)).tokens.length := by
    dsimp only at htotal
    omega
  have hstep := getElem?_reparse (max settings.maxResyncLookahead 1) (hpos.trans_le hle) hruns htokens
    hfirst hcurrent.examined_pairwise hi hle
  simp only [incremental, Document.assemble, List.getElem?_map]
  rw [hstep]
  exact ⟨rfl, rfl⟩

end Update

/-- After the first parse of a text, an accepted batch that is not answered by a full parse takes over,
at its own place, every statement before the damage: one for which all tokens up to the last examined
one exist and looked no further than the start of the first edit. -/
theorem Document.parse_reuse_front (s : Text) (settings : Settings) {e : Edit} {es : List Edit}
    (hv : Edit.validate s (e :: es) = .ok ()) :
    ∃ update, Update.apply settings (parse s) (e :: es) = .ok update ∧
      update.full = Update.needsFullParse settings (e :: es) ∧
      (update.full = false → ∀ (i : Nat) (x : Statement), (parse s).statements[i]? = some x →
        x.first + x.examined ≤ (parse s).tokens.toList.length →
        (∀ t ∈ (parse s).tokens.toList.take (x.first + x.examined), t.lookahead ≤ e.start) →
        update.origins[i]? = some (some i) ∧ update.document.statements[i]? = some x) := by
  refine ⟨_, Update.apply_eq_ok (List.cons_ne_nil e es) hv settings, ?_⟩
  have htokens := (parse_current s).tokens
  cases hfull : Update.needsFullParse settings (e :: es) with
  | true => exact ⟨rfl, fun h => Bool.noConfusion (show true = false from h)⟩
  | false =>
    refine ⟨rfl, fun _ i x hi hx hlook => ?_⟩
    rw [htokens] at hx hlook
    exact Update.incremental_front s settings _ _ _ hi hx hlook

/-- The number on the second line is replaced: the first statement is taken over. -/
theorem Document.parse_reuse_front_line :
    let s := "a = 1\nb = 2\nc = 3\n".toList
    let e : Edit := .replace 10 11 "4".toList
    let x : Statement := ⟨0, 6, 6, .node .assignment
      [.node .assignmentTargets [.token .identifier ['a']], .token .whitespace [' '],
        .token .eq ['='], .token .whitespace [' '], .token .number ['1'],
        .token .newline ['\n']]⟩
    Edit.validate s [e] = .ok () ∧ ∃ update, Update.apply {} (parse s) [e] = .ok update ∧
      update.origins[0]? = some (some 0) ∧ update.document.statements[0]? = some x := by
  intro s e x
  have hv : Edit.validate s [e] = .ok () := by decide +kernel
  obtain ⟨update, happly, hfull, hreuse⟩ := parse_reuse_front s {} hv
  have hi : (parse s).statements[0]? = some x := by decide +kernel
  have hexists : x.first + x.examined ≤ (parse s).tokens.toList.length := by decide +kernel
  have hlook : ∀ t ∈ (parse s).tokens.toList.take (x.first + x.examined), t.lookahead ≤ e.start := by
    decide +kernel
  exact ⟨hv, update, happly, hreuse (hfull.trans (by decide +kernel)) 0 x hi hexists hlook⟩

end ScriptTree
