import ScriptTree.Proofs.Token.Chunk

namespace ScriptTree

namespace TokenStream

open Chunk (Consecutive)

variable {s : TokenStream} {i : Nat}

theorem exists_chunk_of_lt {n m : Nat} {cs : List Chunk} (h : Consecutive n cs m) (hn : n ≤ i)
    (hm : i < m) :
    ∃ front c back, cs = front ++ c :: back ∧ c.first ≤ i ∧ i < c.past := by
  induction cs generalizing n with
  | nil =>
    have : n = m := h
    omega
  | cons c cs ih =>
    by_cases hi : i < c.past
    · exact ⟨[], c, cs, rfl, h.1.trans_le hn, hi⟩
    · obtain ⟨front, d, back, rfl, hfirst, hpast⟩ := ih h.2 (by omega)
      exact ⟨c :: front, d, back, rfl, hfirst, hpast⟩

/-- The tokens in front of a chunk are as many as its index, and those behind it follow it. -/
theorem split_at {front back : List Chunk} {c : Chunk} (h : s.chunks.toList = front ++ c :: back) :
    (front.flatMap Chunk.tokens).length = c.first ∧ Consecutive c.past back s.length := by
  have hcons := s.consecutive
  rw [h] at hcons
  obtain ⟨k, hfront, rfl, hback⟩ := hcons.split
  have htotal := hfront.total
  rw [Nat.zero_add] at htotal
  exact ⟨htotal, hback⟩

theorem chunkIndex_eq {front back : List Chunk} (h : s.chunks.toList = front ++ back)
    (hfront : ∀ c ∈ front, c.past ≤ i) (hback : ∀ c ∈ back, i < c.past) :
    s.chunkIndex i = front.length := by
  have hall : (s.chunks.extract 0 s.chunks.size).toList = front ++ back := by
    rw [Array.extract_eq_self_of_le (Nat.le_refl _), h]
  have hk := bisectArray_eq (p := fun c : Chunk => c.past ≤ i) (Nat.zero_le _) (Nat.le_refl _) hall
    (fun c hc => decide_eq_true (hfront c hc)) (fun c hc => by simpa using hback c hc)
  rw [chunkIndex, hk, Nat.zero_add]

@[simp] theorem length_flat (s : TokenStream) : s.flat.length = s.length := by
  have := s.consecutive.total
  rwa [Nat.zero_add] at this

/-- Where a stream looks for an index: behind the end nowhere, else in the chunk that has it. -/
theorem exists_chunk (s : TokenStream) (i : Nat) :
    (s.length ≤ i ∧ s.chunkIndex i = s.chunks.toList.length) ∨
      ∃ front c back, s.chunks.toList = front ++ c :: back ∧ s.chunkIndex i = front.length ∧
        c.first ≤ i ∧ i < c.past := by
  have hpair := s.consecutive.pairwise
  by_cases hi : i < s.length
  · obtain ⟨front, c, back, hcs, hfirst, hpast⟩ :=
      exists_chunk_of_lt s.consecutive (Nat.zero_le i) hi
    rw [hcs] at hpair
    obtain ⟨-, hc, hcross⟩ := List.pairwise_append.1 hpair
    refine .inr ⟨front, c, back, hcs, chunkIndex_eq hcs (fun d hd => ?_) (fun d hd => ?_), hfirst,
      hpast⟩
    · exact (hcross d hd c List.mem_cons_self).trans hfirst
    · rcases List.mem_cons.1 hd with rfl | hd
      · exact hpast
      · have := (List.pairwise_cons.1 hc).1 d hd
        rw [Chunk.past]
        omega
  · refine .inl ⟨by omega, chunkIndex_eq (List.append_nil _).symm (fun c hc => ?_)
      fun c hc => absurd hc List.not_mem_nil⟩
    obtain ⟨front, back, hcs⟩ := List.append_of_mem hc
    have := (split_at hcs).2.total
    omega

theorem flat_eq {front back : List Chunk} {c : Chunk} (h : s.chunks.toList = front ++ c :: back) :
    s.flat = front.flatMap Chunk.tokens ++ (c.tokens ++ back.flatMap Chunk.tokens) := by
  rw [flat, h, List.flatMap_append, List.flatMap_cons]

/-- What the list has behind an index begins in the chunk that has the index. -/
theorem drop_flat {front back : List Chunk} {c : Chunk} (h : s.chunks.toList = front ++ c :: back)
    (hfirst : c.first ≤ i) (hpast : i < c.past) :
    s.flat.drop i = c.tokens.drop (i - c.first) ++ back.flatMap Chunk.tokens := by
  have htotal := (split_at h).1
  rw [Chunk.past] at hpast
  rw [flat_eq h, List.drop_append, List.drop_eq_nil_of_le (by omega), List.nil_append, htotal,
    List.drop_append_of_le_length (by rw [Chunk.length_tokens]; omega)]

theorem getElem?_flat {front back : List Chunk} {c : Chunk}
    (h : s.chunks.toList = front ++ c :: back) (hfirst : c.first ≤ i) (hpast : i < c.past) :
    s.flat[i]? = c.tokens[i - c.first]? := by
  have htotal := (split_at h).1
  rw [Chunk.past] at hpast
  rw [flat_eq h, List.getElem?_append_right (by omega), htotal,
    List.getElem?_append_left (by rw [Chunk.length_tokens]; omega)]

theorem toListFrom_eq (s : TokenStream) (i : Nat) : s.toListFrom i = s.flat.drop i := by
  rw [toListFrom]
  simp only [Chunk.filterMap_token?_range']
  rcases s.exists_chunk i with ⟨hle, hk⟩ | ⟨front, c, back, hcs, hk, hfirst, hpast⟩
  · rw [hk, List.drop_length, List.flatMap_nil, List.drop_eq_nil_of_le (by rwa [length_flat])]
  · rw [hk, drop_flat hcs hfirst hpast, hcs, List.drop_left, List.flatMap_cons]
    congr 1
    apply List.flatMap_congr
    intro d hd
    have := (split_at hcs).2.first_of_mem hd
    rw [Nat.sub_eq_zero_of_le (by omega), List.drop_zero]

theorem toList_eq (s : TokenStream) : s.toList = s.flat := by
  rw [toList, toListFrom_eq, List.drop_zero]

@[simp] theorem length_toList (s : TokenStream) : s.toList.length = s.length := by
  rw [toList_eq, length_flat]

@[simp] theorem flat_ofList (ts : List Token) : (ofList ts).flat = ts := by
  unfold ofList ofArray
  split
  · simp [flat]
  · rename_i h
    have : ts = [] := by simpa using h
    rw [this]
    rfl

@[simp] theorem toList_ofList (ts : List Token) : (ofList ts).toList = ts := by
  rw [toList_eq, flat_ofList]

def Sound (s : TokenStream) : Prop := ∀ c ∈ s.chunks.toList, c.Sound

theorem start_of_indexAt? {offset : Nat} (h : s.indexAt? offset = some i) :
    ∃ t, s.flat[i]? = some t ∧ t.start = offset := by
  obtain ⟨c, hc, hi⟩ := Option.bind_eq_some_iff.1 h
  obtain ⟨hfirst, hpast, t, ht, hstart⟩ := Chunk.start_of_indexAt? hi
  rw [← Array.getElem?_toList] at hc
  obtain ⟨front, back, hcs⟩ := List.append_of_mem (List.mem_of_getElem? hc)
  exact ⟨t, (getElem?_flat hcs hfirst hpast).trans ht, hstart⟩

end TokenStream

namespace Token

/-- Tokens with texts that stand one after another without a gap, from a place on. -/
def Contiguous : Nat → List Token → Prop
  | _, [] => True
  | n, t :: ts => t.start = n ∧ t.text ≠ [] ∧ Contiguous t.stop ts

def Covers (t : Token) (n : Nat) : Prop := t.start ≤ n ∧ n < t.stop

def endOf (ts : List Token) : Nat := (ts.getLast?.map stop).getD 0

namespace Contiguous

variable {n : Nat} {ts us : List Token}

theorem start_lt_stop {t : Token} (h : t.text ≠ []) : t.start < t.stop := by
  have : 0 < t.text.bytes := by
    cases ht : t.text with
    | nil => exact absurd ht h
    | cons c s =>
      have := c.utf8Size_pos
      rw [Text.bytes_cons]
      omega
  rw [stop]
  omega

theorem bounds_of_mem (h : Contiguous n ts) {t : Token} (ht : t ∈ ts) :
    n ≤ t.start ∧ t.start < t.stop := by
  induction ts generalizing n with
  | nil => simp at ht
  | cons u ts ih =>
    obtain ⟨hstart, htext, hrest⟩ := h
    have hlt := start_lt_stop htext
    rcases List.mem_cons.1 ht with rfl | ht
    · exact ⟨hstart.ge, hlt⟩
    · have := ih hrest ht
      omega

theorem pairwise (h : Contiguous n ts) : ts.Pairwise fun t u => t.stop ≤ u.start := by
  induction ts generalizing n with
  | nil => exact .nil
  | cons t ts ih => exact .cons (fun u hu => (h.2.2.bounds_of_mem hu).1) (ih h.2.2)

/-- Of tokens that stand one after another, only one has a byte. -/
theorem eq_of_covers (h : Contiguous n ts) {t u : Token} (ht : t ∈ ts) (hu : u ∈ ts) {k : Nat}
    (htk : t.Covers k) (huk : u.Covers k) : t = u := by
  have hpair := h.pairwise
  induction hpair generalizing n with
  | nil => exact absurd ht List.not_mem_nil
  | cons hhead _ ih =>
    rcases List.mem_cons.1 ht with rfl | ht'
    · rcases List.mem_cons.1 hu with rfl | hu'
      · rfl
      · have := hhead u hu'
        rw [Covers] at htk huk
        omega
    · rcases List.mem_cons.1 hu with rfl | hu'
      · have := hhead t ht'
        rw [Covers] at htk huk
        omega
      · exact ih h.2.2 ht' hu'

theorem append_iff : Contiguous n (ts ++ us) ↔
    Contiguous n ts ∧ Contiguous ((ts.getLast?.map stop).getD n) us := by
  induction ts generalizing n with
  | nil => simp [Contiguous]
  | cons t ts ih =>
    rw [List.cons_append, Contiguous, Contiguous, ih, List.getLast?_cons]
    cases ts.getLast? <;> simp [and_assoc]

theorem moved (h : Contiguous n ts) {d : Int} (hd : 0 ≤ (n : Int) + d) :
    Contiguous (shift n d) (ts.map (Token.moved · d)) := by
  induction ts generalizing n with
  | nil => trivial
  | cons t ts ih =>
    obtain ⟨rfl, htext, hrest⟩ := h
    have hstop : (t.moved d).stop = shift t.stop d := by
      simp only [Token.moved, stop, shift]
      omega
    refine ⟨rfl, htext, ?_⟩
    rw [hstop]
    apply ih hrest
    rw [stop]
    omega

end Contiguous

end Token

namespace TokenStream

variable {s : TokenStream} {i : Nat}

end TokenStream

end ScriptTree
