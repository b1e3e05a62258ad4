import ScriptTree.Proofs.Token.Stream

namespace ScriptTree

namespace Draft

open Chunk (Consecutive)

variable {d : Draft}

@[simp] theorem length_flat (d : Draft) : d.flat.length = d.length := by
  have htotal := d.consecutive.total
  rw [Nat.zero_add] at htotal
  rw [flat, List.length_append, htotal, Array.length_toList, Nat.sub_add_cancel d.size_fresh_le]

@[simp] theorem flat_push (d : Draft) (t : Token) : (d.push t).flat = d.flat ++ [t] := by
  simp [flat, push]

@[simp] theorem flat_pushAll (d : Draft) (ts : List Token) :
    (d.pushAll ts).flat = d.flat ++ ts := by
  induction ts generalizing d with
  | nil => simp [pushAll]
  | cons t ts ih =>
    rw [pushAll, List.foldl_cons]
    exact (ih (d.push t)).trans (by simp)

@[simp] theorem flat_flush (d : Draft) : d.flush.flat = d.flat := by
  unfold flush
  split
  · simp [flat]
  · rfl

theorem flatMap_flush (d : Draft) : d.flush.chunks.toList.flatMap Chunk.tokens = d.flat := by
  have hnil : d.flush.fresh.toList = [] := by
    rw [← List.length_eq_zero_iff, Array.length_toList, size_fresh_flush]
  rw [← flat_flush d, flat, hnil, List.append_nil]

theorem flat_pushWindow {c : Chunk} {lo hi : Nat} (delta : Int) (hlo : lo < hi)
    (hhi : hi ≤ c.pass.entries.size) :
    (d.pushWindow c lo hi delta hlo hhi).flat =
      d.flat ++ (c.window lo hi d.flush.length delta hlo hhi).tokens := by
  rw [flat, pushWindow]
  simp [flatMap_flush]

@[simp] theorem flat_finish (d : Draft) : d.finish.flat = d.flat := by
  have h : (⟨d.flush.chunks, d.flush.length, d.consecutive_flush⟩ : TokenStream).flat = d.flat :=
    flatMap_flush d
  unfold finish
  dsimp only
  split
  · rw [TokenStream.flat_ofList, TokenStream.toList_eq, h]
  · exact h

@[simp] theorem toList_finish (d : Draft) : d.finish.toList = d.flat := by
  rw [TokenStream.toList_eq, flat_finish]

structure Sound (d : Draft) : Prop where
  chunks : ∀ c ∈ d.chunks.toList, c.Sound
  fresh : ∀ t ∈ d.fresh.toList, t.start ≤ t.lookahead
  stop_eq : d.stop = Token.endOf d.flat

theorem empty_sound : empty.Sound := ⟨nofun, nofun, rfl⟩

theorem Sound.push (h : d.Sound) {t : Token} (ht : t.start ≤ t.lookahead) : (d.push t).Sound where
  chunks := h.chunks
  fresh u hu := by
    simp only [Draft.push, Array.toList_push, List.mem_append, List.mem_singleton] at hu
    rcases hu with hu | rfl
    · exact h.fresh u hu
    · exact ht
  stop_eq := by
    rw [flat_push, Token.endOf, List.getLast?_concat]
    rfl

theorem Sound.flush (h : d.Sound) : ∀ c ∈ d.flush.chunks.toList, c.Sound := by
  unfold Draft.flush
  split
  · intro c hc
    simp only [Array.toList_push, List.mem_append, List.mem_singleton] at hc
    rcases hc with hc | rfl
    · exact h.chunks c hc
    · exact Chunk.whole_sound _ _ h.fresh
  · exact h.chunks

theorem Sound.pushWindow (h : d.Sound) {c : Chunk} {lo hi : Nat} (delta : Int) (hlo : lo < hi)
    (hhi : hi ≤ c.pass.entries.size)
    (hw : (c.window lo hi d.flush.length delta hlo hhi).Sound) :
    (d.pushWindow c lo hi delta hlo hhi).Sound where
  chunks e he := by
    simp only [Draft.pushWindow, Array.toList_push, List.mem_append, List.mem_singleton] at he
    rcases he with he | rfl
    · exact h.flush e he
    · exact hw
  fresh := nofun
  stop_eq := by
    obtain ⟨last, hlast, hstop⟩ := hw.stop_eq
    rw [flat_pushWindow, Token.endOf, List.getLast?_append, hlast]
    exact hstop

theorem Sound.start_le_lookahead (h : d.Sound) {t : Token} (ht : t ∈ d.flat) :
    t.start ≤ t.lookahead := by
  rcases List.mem_append.1 ht with ht | ht
  · obtain ⟨c, hc, ht⟩ := List.mem_flatMap.1 ht
    exact (h.chunks c hc).start_le_lookahead ht
  · exact h.fresh t ht

end Draft

theorem TokenStream.ofList_sound {ts : List Token} (h : ∀ t ∈ ts, t.start ≤ t.lookahead) :
    (ofList ts).Sound := by
  unfold ofList ofArray
  split
  · rename_i hpos
    intro c hc
    obtain rfl := List.mem_singleton.1 hc
    exact Chunk.whole_sound 0 hpos h
  · exact fun c hc => absurd hc List.not_mem_nil

theorem Draft.Sound.finish {d : Draft} (h : d.Sound) : d.finish.Sound := by
  have hflat : (⟨d.flush.chunks, d.flush.length, d.consecutive_flush⟩ : TokenStream).flat = d.flat :=
    flatMap_flush d
  unfold Draft.finish
  dsimp only
  split
  · apply TokenStream.ofList_sound
    rw [TokenStream.toList_eq, hflat]
    exact fun t ht => h.start_le_lookahead ht
  · exact h.flush

/-! ### Taking tokens over -/

/-- What taking tokens over does: of the tokens ahead those at the front are moved behind the draft;
all of them if there is no bound, and none that looked further than it. -/
structure Copied (ahead : List Token) (bound : Option Nat) (delta : Int) (d : Draft) (i : Nat)
    (result : Draft × Nat) (ts : List Token) : Prop where
  front : ts <+: ahead
  flat : result.1.flat = d.flat ++ ts.map (Token.moved · delta)
  index : result.2 = i + ts.length
  all : bound = none → ts = ahead
  within : ∀ b ∈ bound, ∀ t ∈ ts, t.lookahead ≤ b
  sound : d.Sound → (∀ t ∈ ts, 0 ≤ (t.start : Int) + delta) → result.1.Sound

/-- How many tokens were taken is told by the indices. -/
theorem Copied.take_eq {ahead ts : List Token} {bound : Option Nat} {delta : Int} {d : Draft} {i : Nat}
    {result : Draft × Nat} (h : Copied ahead bound delta d i result ts) :
    ahead.take (result.2 - i) = ts := by
  rw [h.index, Nat.add_sub_cancel_left]
  exact (List.prefix_iff_eq_take.1 h.front).symm

/-- After all of a part, more is taken of what lies behind it. -/
theorem Copied.append {part behind us : List Token} {bound : Option Nat} {delta : Int} {d d' : Draft}
    {i i' : Nat} {result : Draft × Nat}
    (h : Copied part bound delta d i (d', i') part)
    (h' : Copied behind bound delta d' i' result us) :
    Copied (part ++ behind) bound delta d i result (part ++ us) where
  front := (List.prefix_append_right_inj part).2 h'.front
  flat := by rw [h'.flat, h.flat, List.map_append, List.append_assoc]
  index := by
    have hi : i' = i + part.length := h.index
    rw [h'.index, hi, List.length_append, Nat.add_assoc]
  all hnone := by rw [h'.all hnone]
  within b hb t ht := by
    rcases List.mem_append.1 ht with ht | ht
    · exact h.within b hb t ht
    · exact h'.within b hb t ht
  sound hd hplaced :=
    h'.sound (h.sound hd fun t ht => hplaced t (List.mem_append_left _ ht))
      fun t ht => hplaced t (List.mem_append_right _ ht)

namespace Chunk

variable {bound : Option Nat} {delta : Int}

/-- A window takes a front of what a chunk has ahead. -/
theorem copied_pushWindow {c : Chunk} (hs : c.Sound) {lo hi : Nat} (d : Draft) (i : Nat) (delta : Int)
    (hlo : c.lo ≤ lo) (hlt : lo < hi) (hhi : hi ≤ c.hi) (hsize : hi ≤ c.pass.entries.size)
    (hend : hi = c.endWithin lo bound) (more : List Token) (hall : bound = none → more = []) :
    Copied (c.tokens.drop (lo - c.lo) ++ more) bound delta d i
      (d.pushWindow c lo hi delta hlt hsize, i + (hi - lo))
      ((c.tokens.drop (lo - c.lo)).take (hi - lo)) := by
  have hlength : (c.tokens.drop (lo - c.lo)).length = c.hi - lo := by
    rw [List.length_drop, length_tokens, length]
    omega
  refine ⟨(List.take_prefix ..).trans (List.prefix_append ..), ?_, ?_, fun hnone => ?_, ?_, ?_⟩
  · rw [Draft.flat_pushWindow, hs.tokens_window _ _ hlt hsize hlo hhi]
  · rw [List.length_take, hlength, Nat.min_eq_left (by omega)]
  · rw [hall hnone, List.append_nil, List.take_of_length_le]
    rw [hlength, hend, hnone]
    exact Nat.le_refl _
  · intro b hb t ht
    rw [hend, Option.mem_def.1 hb] at ht
    exact lookahead_le_of_endWithin hlo (by omega) ht
  · exact fun hd hplaced => hd.pushWindow _ _ _ (hs.window _ hlt hsize hlo hhi hplaced)

theorem copyAll_cons {c : Chunk} {cs : List Chunk} {i lo hi : Nat} (d : Draft)
    (hlo : c.lo + (i - c.first) = lo) (hend : c.endWithin lo bound = hi) :
    copyAll bound delta (c :: cs) i d =
      if h : lo < hi then
        if hi < c.hi then
          (d.pushWindow c lo hi delta h (hend ▸ endWithin_le_size (hend ▸ h)), i + (hi - lo))
        else
          copyAll bound delta cs (i + (hi - lo))
            (d.pushWindow c lo hi delta h (hend ▸ endWithin_le_size (hend ▸ h)))
      else if hi < c.hi then (d, i)
      else copyAll bound delta cs i d := by
  subst hlo hend
  rw [copyAll]

/-- Tokens are taken over chunk by chunk. -/
theorem copyAll_copied {n m : Nat} {cs : List Chunk} (h : Consecutive n cs m)
    (hs : ∀ c ∈ cs, c.Sound) {i : Nat} (hn : n ≤ i) (hpast : ∀ c ∈ cs.head?, i < c.past)
    (d : Draft) :
    ∃ ts, Copied ((cs.flatMap tokens).drop (i - n)) bound delta d i (copyAll bound delta cs i d) ts := by
  induction cs generalizing n i d with
  | nil =>
    refine ⟨[], List.nil_prefix, by simp [copyAll], rfl, fun _ => by simp, ?_, fun hd _ => hd⟩
    exact fun _ _ _ => nofun
  | cons c cs ih =>
    obtain ⟨rfl, hcons⟩ := h
    have hc := hs c List.mem_cons_self
    have hi : i < c.past := hpast c rfl
    have hlt := c.lo_lt_hi
    rw [past, length] at hi
    -- The rest of the chunk lies in its pass from `lo` on.
    generalize hlo : c.lo + (i - c.first) = lo
    have hdiff : i - c.first = lo - c.lo := by omega
    rw [List.flatMap_cons, hdiff,
      List.drop_append_of_le_length (by rw [length_tokens, length]; omega)]
    generalize hend : c.endWithin lo bound = stop
    have hle : stop ≤ c.hi := hend ▸ endWithin_le (by omega) bound
    have hnone : bound = none → stop = c.hi := by
      rintro rfl
      exact hend.symm
    have hlength : (c.tokens.drop (lo - c.lo)).length = c.hi - lo := by
      rw [List.length_drop, length_tokens, length]
      omega
    rw [copyAll_cons d hlo hend]
    by_cases hcopy : lo < stop
    · rw [dif_pos hcopy]
      by_cases hcut : stop < c.hi
      · rw [if_pos hcut]
        exact ⟨_, copied_pushWindow hc d i delta (by omega) hcopy hle _ hend.symm _
          fun hb => absurd (hnone hb) hcut.ne⟩
      · rw [if_neg hcut]
        -- The chunk is used up, and the induction hypothesis goes on at the start of the next one.
        have hall : stop - lo = (c.tokens.drop (lo - c.lo)).length := by omega
        have hnext : ∀ e ∈ cs.head?, i + (stop - lo) < e.past := by
          intro e he
          cases cs with
          | nil => simp at he
          | cons e' cs =>
            obtain rfl := Option.some.inj he
            have := e'.length_pos
            have := hcons.1
            rw [past, length] at this
            rw [past]
            omega
        have hplace : i + (stop - lo) = c.past := by
          rw [past, length]
          omega
        obtain ⟨us, hus⟩ := ih hcons (fun e he => hs e (List.mem_cons_of_mem c he)) hplace.ge hnext
          (d.pushWindow c lo stop delta hcopy (hend ▸ endWithin_le_size (hend ▸ hcopy)))
        rw [hplace, Nat.sub_self, List.drop_zero, ← hplace] at hus
        have hwindow := copied_pushWindow hc d i delta (by omega) hcopy hle
          (hle.trans c.hi_le_size) hend.symm [] fun _ => rfl
        rw [List.append_nil, hall, List.take_length, ← hall] at hwindow
        exact ⟨_, hwindow.append hus⟩
    · have hcut : stop < c.hi := by omega
      rw [dif_neg hcopy, if_pos hcut]
      refine ⟨[], List.nil_prefix, by simp, rfl, fun hb => absurd (hnone hb) hcut.ne, ?_,
        fun hd _ => hd⟩
      exact fun _ _ _ => nofun

end Chunk

/-- What a stream has ahead is taken over from the chunk on that has the index. -/
theorem TokenStream.Sound.copyInto_copied {s : TokenStream} (hs : s.Sound) (i : Nat)
    (bound : Option Nat) (delta : Int) (d : Draft) :
    ∃ ts, Copied (s.flat.drop i) bound delta d i (s.copyInto i bound delta d) ts := by
  rw [copyInto]
  rcases s.exists_chunk i with ⟨hle, hk⟩ | ⟨front, c, back, hcs, hk, hfirst, hpast⟩
  · have hnil : s.flat.drop i = (([] : List Chunk).flatMap Chunk.tokens).drop (i - i) := by
      rw [List.drop_eq_nil_of_le (by rwa [length_flat])]
      simp
    rw [hk, List.drop_length, hnil]
    have hcons : Chunk.Consecutive i [] i := rfl
    exact Chunk.copyAll_copied hcons nofun (Nat.le_refl i) nofun d
  · have hahead : s.flat.drop i = ((c :: back).flatMap Chunk.tokens).drop (i - c.first) := by
      rw [drop_flat hcs hfirst hpast, List.flatMap_cons, List.drop_append_of_le_length]
      rw [Chunk.length_tokens]
      rw [Chunk.past] at hpast
      omega
    rw [hk, hcs, List.drop_left, hahead]
    have hcons : Chunk.Consecutive c.first (c :: back) s.length := ⟨rfl, (split_at hcs).2⟩
    refine Chunk.copyAll_copied hcons (fun e he => hs e ?_) hfirst (fun e he => ?_) d
    · rw [hcs]
      exact List.mem_append_right front he
    · obtain rfl := Option.some.inj he
      exact hpast

end ScriptTree
