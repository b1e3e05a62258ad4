import Mathlib.Data.List.TakeWhile
import Mathlib.Tactic
import ScriptTree.Token.Stream

namespace ScriptTree

theorem Token.moved_moved (t : Token) {a b : Int} (hs : 0 ≤ (t.start : Int) + a)
    (hl : t.start ≤ t.lookahead) : (t.moved a).moved b = t.moved (a + b) := by
  simp only [moved, shift, Token.mk.injEq, true_and]
  omega

/-- Where the elements between two bounds are some of which a test holds and then some of which it
does not, bisection finds the place between them. -/
theorem bisectArray_eq {α : Type} {as : Array α} {p : α → Bool} {lo hi : Nat} {front back : List α}
    (hlo : lo ≤ hi) (hhi : hi ≤ as.size) (h : (as.extract lo hi).toList = front ++ back)
    (hfront : ∀ a ∈ front, p a) (hback : ∀ a ∈ back, ¬p a) :
    bisectArray as p lo hi = lo + front.length := by
  have hlen := congrArg List.length h
  simp only [Array.length_toList, Array.size_extract, List.length_append] at hlen
  have hget (i : Nat) (hi' : lo ≤ i) (hlt : i < hi) : as[i]? = (front ++ back)[i - lo]? := by
    rw [← h, Array.getElem?_toList, Array.getElem?_extract, if_pos (by omega)]
    congr 1
    omega
  apply bisect_eq (Nat.le_add_right ..) (by omega)
  · intro i hi' hlt
    have hf : i - lo < front.length := by omega
    rw [hget i hi' (by omega), List.getElem?_append_left hf, List.getElem?_eq_getElem hf]
    exact hfront _ (List.getElem_mem hf)
  · intro i hi' hlt
    have hb : i - lo - front.length < back.length := by omega
    rw [hget i (by omega) hlt, List.getElem?_append_right (by omega), List.getElem?_eq_getElem hb]
    exact hback _ (List.getElem_mem hb)

/-- Where a test holds of an element only if it holds of those before it, bisection finds what a scan
from the front does. -/
theorem bisectArray_eq_takeWhile {α : Type} {as : Array α} {p : α → Bool} {lo hi : Nat}
    (hlo : lo ≤ hi) (hhi : hi ≤ as.size)
    (h : (as.extract lo hi).toList.Pairwise fun a b => p b → p a) :
    bisectArray as p lo hi = lo + ((as.extract lo hi).toList.takeWhile p).length := by
  apply bisectArray_eq hlo hhi List.takeWhile_append_dropWhile.symm
  · exact fun a ha => List.mem_takeWhile_imp ha
  · generalize (as.extract lo hi).toList = l at h
    intro a ha hp
    cases hd : l.dropWhile p with
    | nil => simp [hd] at ha
    | cons b r =>
      have hb : ¬p b := by
        have := List.head_dropWhile_not p (l := l) (by simp [hd])
        simpa [hd] using this
      have hsub := (List.dropWhile_sublist (l := l) p)
      rw [hd] at ha hsub
      rcases List.mem_cons.1 ha with rfl | ha
      · exact hb hp
      · exact hb ((List.pairwise_cons.1 (h.sublist hsub)).1 a ha hp)

namespace Reached

theorem of_mem_ofTokens {n : Nat} {ts : List Token} {e : Reached} (h : e ∈ ofTokens n ts) :
    e.token.lookahead ≤ e.reach ∧ n ≤ e.reach := by
  induction ts generalizing n with
  | nil => simp [ofTokens] at h
  | cons t ts ih =>
    rcases List.mem_cons.1 h with rfl | h
    · exact ⟨Nat.le_max_left .., Nat.le_max_right ..⟩
    · have := ih h
      exact ⟨this.1, by omega⟩

theorem pairwise_ofTokens (n : Nat) (ts : List Token) :
    (ofTokens n ts).Pairwise fun a b => a.reach ≤ b.reach := by
  induction ts generalizing n with
  | nil => exact .nil
  | cons t ts ih => exact .cons (fun e he => (of_mem_ofTokens he).2) (ih _)

end Reached

theorem Pass.pairwise_reach (p : Pass) :
    p.entries.toList.Pairwise fun a b => a.reach ≤ b.reach := by
  have h := Reached.pairwise_ofTokens 0 (p.entries.toList.map Reached.token)
  rwa [← p.reached] at h

theorem Pass.lookahead_le_reach (p : Pass) {e : Reached} (h : e ∈ p.entries) :
    e.token.lookahead ≤ e.reach := by
  rw [← Array.mem_toList_iff, p.reached] at h
  exact (Reached.of_mem_ofTokens h).1

namespace Chunk

variable {c : Chunk} {i : Nat}

@[simp] theorem length_entries (c : Chunk) : c.entries.length = c.length := by
  have := c.hi_le_size
  simp only [entries, length, Array.length_toList, Array.size_extract]
  omega

@[simp] theorem length_tokens (c : Chunk) : c.tokens.length = c.length := by
  rw [tokens, List.length_map, length_entries]

theorem length_pos (c : Chunk) : 0 < c.length := Nat.sub_pos_of_lt c.lo_lt_hi

theorem mem_pass_of_mem_entries {e : Reached} (h : e ∈ c.entries) : e ∈ c.pass.entries := by
  rw [entries, Array.mem_toList_iff] at h
  obtain ⟨k, hk, rfl⟩ := Array.mem_extract_iff_getElem.1 h
  exact Array.getElem_mem _

theorem original?_eq (h : i < c.past) : c.original? i = c.entries[i - c.first]? := by
  have := c.hi_le_size
  have := c.lo_lt_hi
  rw [past, length] at h
  rw [original?, entries, Array.getElem?_toList, Array.getElem?_extract, if_pos (by omega)]

/-- What a chunk answers for an index that it has is the token of its window. -/
theorem token?_eq (h : i < c.past) : c.token? i = c.tokens[i - c.first]? := by
  rw [token?, original?_eq h, tokens, List.getElem?_map]

theorem filterMap_token?_add (c : Chunk) (k : Nat) :
    (List.range' (c.first + k) (c.length - k)).filterMap c.token? = c.tokens.drop k := by
  generalize hm : c.length - k = m
  induction m generalizing k with
  | zero =>
    rw [List.drop_eq_nil_of_le (by rw [length_tokens]; omega), List.range'_zero, List.filterMap_nil]
  | succ m ih =>
    have hk : k < c.tokens.length := by
      rw [length_tokens]
      omega
    have htoken : c.token? (c.first + k) = some c.tokens[k] := by
      rw [token?_eq (by rw [past]; omega), Nat.add_sub_cancel_left, List.getElem?_eq_getElem hk]
    rw [List.range'_succ, List.filterMap_cons_some htoken, Nat.add_assoc, ih (k + 1) (by omega),
      List.drop_eq_getElem_cons hk]

/-- The tokens that a chunk answers for the indices from one on. -/
theorem filterMap_token?_range' (c : Chunk) (i : Nat) :
    (List.range' (max i c.first) (c.past - max i c.first)).filterMap c.token? =
      c.tokens.drop (i - c.first) := by
  have hrange : List.range' (max i c.first) (c.past - max i c.first) =
      List.range' (c.first + (i - c.first)) (c.length - (i - c.first)) := by
    rw [past]
    congr 1 <;> omega
  rw [hrange, filterMap_token?_add]

/-! ### Sound chunks -/

/-- The tokens of a window stand at places that exist, and looked at least as far as they start. -/
structure Sound (c : Chunk) : Prop where
  placed : ∀ e ∈ c.entries, 0 ≤ (e.token.start : Int) + c.delta
  start_le : ∀ e ∈ c.entries, e.token.start ≤ e.token.lookahead

theorem entries_whole (ts : Array Token) (first : Nat) (h : 0 < ts.size) :
    (whole ts first h).entries = Reached.ofTokens 0 ts.toList := by
  show ((Pass.ofTokens ts).entries.extract 0 ts.size).toList = _
  rw [Array.extract_eq_self_of_le (Pass.size_ofTokens ts).le]
  rfl

@[simp] theorem tokens_whole (ts : Array Token) (first : Nat) (h : 0 < ts.size) :
    (whole ts first h).tokens = ts.toList := by
  have hdelta : (whole ts first h).delta = 0 := rfl
  rw [tokens, entries_whole, hdelta]
  simp only [Token.moved_zero]
  exact Reached.map_token_ofTokens 0 ts.toList

theorem whole_sound {ts : Array Token} (first : Nat) (h : 0 < ts.size)
    (hl : ∀ t ∈ ts.toList, t.start ≤ t.lookahead) : (whole ts first h).Sound where
  placed e _ := by
    have hdelta : (whole ts first h).delta = 0 := rfl
    omega
  start_le e he := by
    rw [entries_whole] at he
    apply hl
    rw [← Reached.map_token_ofTokens 0 ts.toList]
    exact List.mem_map_of_mem he

theorem getLast?_entries (c : Chunk) : ∃ e, c.entries.getLast? = some e ∧
    c.stop = Token.shift e.token.stop c.delta := by
  have hsize := c.hi_le_size
  have hlt := c.lo_lt_hi
  have hlast : c.entries.getLast? = c.pass.entries[c.hi - 1]? := by
    rw [List.getLast?_eq_getElem?, length_entries, entries, length, Array.getElem?_toList,
      Array.getElem?_extract, if_pos (by omega)]
    congr 1
    omega
  rw [Array.getElem?_eq_getElem (by omega)] at hlast
  exact ⟨_, hlast, rfl⟩

theorem Sound.stop_eq (h : c.Sound) : ∃ t, c.tokens.getLast? = some t ∧ c.stop = t.stop := by
  obtain ⟨e, he, hstop⟩ := c.getLast?_entries
  refine ⟨e.token.moved c.delta, by rw [tokens, List.getLast?_map, he, Option.map_some], ?_⟩
  have := h.placed e (List.mem_of_getLast? he)
  rw [hstop]
  simp only [Token.moved, Token.stop, Token.shift]
  omega

theorem Sound.start_le_lookahead (h : c.Sound) {t : Token} (ht : t ∈ c.tokens) :
    t.start ≤ t.lookahead := by
  obtain ⟨e, he, rfl⟩ := List.mem_map.1 ht
  have := h.start_le e he
  simp only [Token.moved, Token.shift]
  omega

theorem drop_entries {start : Nat} (h : c.lo ≤ start) :
    c.entries.drop (start - c.lo) = (c.pass.entries.extract start c.hi).toList := by
  rw [entries, Array.toList_extract, Array.toList_extract, List.extract_eq_take_drop,
    List.extract_eq_take_drop, List.drop_take, List.drop_drop, Nat.add_sub_cancel' h]
  congr 1
  omega

theorem entries_window {lo hi : Nat} (first : Nat) (delta : Int) (hlt : lo < hi)
    (hsize : hi ≤ c.pass.entries.size) (hlo : c.lo ≤ lo) (hhi : hi ≤ c.hi) :
    (c.window lo hi first delta hlt hsize).entries =
      (c.entries.drop (lo - c.lo)).take (hi - lo) := by
  rw [drop_entries hlo, Array.toList_extract, List.extract_eq_take_drop, List.take_take,
    Nat.min_eq_left (by omega), ← List.extract_eq_take_drop, ← Array.toList_extract]
  rfl

/-- The tokens of a window into the same pass are tokens of the chunk that have moved. -/
theorem Sound.tokens_window (h : c.Sound) {lo hi : Nat} (first : Nat) (delta : Int) (hlt : lo < hi)
    (hsize : hi ≤ c.pass.entries.size) (hlo : c.lo ≤ lo) (hhi : hi ≤ c.hi) :
    (c.window lo hi first delta hlt hsize).tokens =
      ((c.tokens.drop (lo - c.lo)).take (hi - lo)).map (Token.moved · delta) := by
  have hdelta : (c.window lo hi first delta hlt hsize).delta = c.delta + delta := rfl
  rw [tokens, entries_window first delta hlt hsize hlo hhi, hdelta, tokens, List.map_take,
    List.map_drop, List.map_take, List.map_drop, List.map_map]
  congr 2
  apply List.map_congr_left
  intro e he
  exact (e.token.moved_moved (h.placed e he) (h.start_le e he)).symm

/-- A window of a sound chunk is sound if its tokens have moved to places that exist. -/
theorem Sound.window (h : c.Sound) {lo hi : Nat} (first : Nat) {delta : Int} (hlt : lo < hi)
    (hsize : hi ≤ c.pass.entries.size) (hlo : c.lo ≤ lo) (hhi : hi ≤ c.hi)
    (hplaced : ∀ t ∈ (c.tokens.drop (lo - c.lo)).take (hi - lo), 0 ≤ (t.start : Int) + delta) :
    (c.window lo hi first delta hlt hsize).Sound := by
  have hsub : ∀ e ∈ (c.window lo hi first delta hlt hsize).entries,
      e ∈ c.entries ∧ 0 ≤ ((e.token.moved c.delta).start : Int) + delta := by
    intro e he
    rw [entries_window first delta hlt hsize hlo hhi] at he
    refine ⟨List.mem_of_mem_drop (List.mem_of_mem_take he), hplaced _ ?_⟩
    rw [tokens, ← List.map_drop, ← List.map_take]
    exact List.mem_map_of_mem he
  refine ⟨fun e he => ?_, fun e he => h.start_le e (hsub e he).1⟩
  obtain ⟨hmem, hp⟩ := hsub e he
  have := h.placed e hmem
  have hdelta : (c.window lo hi first delta hlt hsize).delta = c.delta + delta := rfl
  simp only [Token.moved, Token.shift] at hp
  omega

theorem endWithin_le {start : Nat} (h : start ≤ c.hi) (bound : Option Nat) :
    c.endWithin start bound ≤ c.hi := by
  cases bound with
  | none => exact Nat.le_refl _
  | some bound => exact bisect_le h

/-- Up to where tokens may be taken over, none looked further than the bound. -/
theorem lookahead_le_of_endWithin {start bound : Nat} (hlo : c.lo ≤ start) (hhi : start ≤ c.hi)
    {t : Token} (ht : t ∈ (c.tokens.drop (start - c.lo)).take (c.endWithin start (some bound) - start)) :
    t.lookahead ≤ bound := by
  -- The furthest lookahead only grows along the pass, so bisection stops where a scan would.
  have hpair : (c.pass.entries.extract start c.hi).toList.Pairwise fun a b =>
      decide (Token.shift b.reach c.delta ≤ bound) → decide (Token.shift a.reach c.delta ≤ bound) := by
    rw [Array.toList_extract, List.extract_eq_take_drop]
    refine (c.pass.pairwise_reach.sublist ((List.take_sublist ..).trans (List.drop_sublist ..))).imp
      fun {a b} hab hb => ?_
    have hb := of_decide_eq_true hb
    apply decide_eq_true
    simp only [Token.shift] at hb ⊢
    omega
  rw [endWithin, bisectArray_eq_takeWhile hhi c.hi_le_size hpair, Nat.add_sub_cancel_left, tokens,
    ← List.map_drop, drop_entries hlo, ← List.map_take,
    ← List.prefix_iff_eq_take.1 (List.takeWhile_prefix _)] at ht
  obtain ⟨e, he, rfl⟩ := List.mem_map.1 ht
  have hwithin : Token.shift e.reach c.delta ≤ bound := by
    simpa using List.mem_takeWhile_imp he
  -- That is the furthest lookahead of all tokens of the pass up to this one.
  have hmem : e ∈ c.pass.entries := by
    have := (List.takeWhile_sublist _).mem he
    rw [← drop_entries hlo] at this
    exact mem_pass_of_mem_entries (List.mem_of_mem_drop this)
  have := c.pass.lookahead_le_reach hmem
  simp only [Token.moved, Token.shift] at hwithin ⊢
  omega

theorem start_of_indexAt? {offset : Nat} (h : c.indexAt? offset = some i) :
    c.first ≤ i ∧ i < c.past ∧ ∃ t, c.tokens[i - c.first]? = some t ∧ t.start = offset := by
  unfold indexAt? at h
  split at h
  · rename_i hdelta
    dsimp only at h
    generalize hk : bisectArray c.pass.entries _ c.lo c.hi = k at h
    have hlo : c.lo ≤ k := hk ▸ le_bisect ..
    have hsize := c.hi_le_size
    split at h
    · rename_i hin
      obtain ⟨hhi, hstart⟩ := hin
      obtain rfl := Option.some.inj h
      rw [Array.getElem?_eq_getElem (by omega), Option.any_some, decide_eq_true_eq] at hstart
      have hentry : c.entries[k - c.lo]? = some c.pass.entries[k] := by
        rw [entries, Array.getElem?_toList, Array.getElem?_extract, if_pos (by omega),
          Nat.add_sub_cancel' hlo, Array.getElem?_eq_getElem (by omega)]
      refine ⟨Nat.le_add_right .., by rw [past, length]; omega,
        c.pass.entries[k].token.moved c.delta, ?_, ?_⟩
      · rw [tokens, List.getElem?_map, Nat.add_sub_cancel_left, hentry, Option.map_some]
      · simp only [Token.moved, Token.shift, hstart]
        omega
    · simp at h
  · simp at h

namespace Consecutive

variable {n m : Nat} {cs ds : List Chunk}

theorem total (h : Consecutive n cs m) : n + (cs.flatMap tokens).length = m := by
  induction cs generalizing n with
  | nil => exact h
  | cons c cs ih =>
    have hm := ih h.2
    rw [List.flatMap_cons, List.length_append, length_tokens]
    rw [past, h.1] at hm
    omega

theorem split (h : Consecutive n (cs ++ ds) m) :
    ∃ k, Consecutive n cs k ∧ Consecutive k ds m := by
  induction cs generalizing n with
  | nil => exact ⟨n, rfl, h⟩
  | cons c cs ih =>
    obtain ⟨k, hk, hd⟩ := ih h.2
    exact ⟨k, ⟨h.1, hk⟩, hd⟩

theorem first_of_mem (h : Consecutive n cs m) {c : Chunk} (hc : c ∈ cs) : n ≤ c.first := by
  induction cs generalizing n with
  | nil => simp at hc
  | cons d cs ih =>
    rcases List.mem_cons.1 hc with rfl | hc
    · exact h.1.ge
    · have hle := ih h.2 hc
      rw [past, h.1] at hle
      omega

theorem pairwise (h : Consecutive n cs m) : cs.Pairwise fun c d => c.past ≤ d.first := by
  induction cs generalizing n with
  | nil => exact .nil
  | cons c cs ih => exact .cons (fun d hd => h.2.first_of_mem hd) (ih h.2)

end Consecutive

end Chunk

end ScriptTree
