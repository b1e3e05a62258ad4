import ScriptTree.Proofs.Edit.Batch

namespace ScriptTree

/-- The old text, whose first byte has the offset `n`, becomes the new text, whose first byte has the
offset `k`, by the changes in order: before, between and after them both texts are the same. -/
inductive Aligned : Text → Text → Nat → Nat → List Change → Prop
  | same (s : Text) (n k : Nat) : Aligned s s n k []
  | change {s t : Text} {n k : Nat} {cs : List Change} (m removed added : Text) :
      Aligned s t (n + m.bytes + removed.bytes) (k + m.bytes + added.bytes) cs →
      Aligned (m ++ (removed ++ s)) (m ++ (added ++ t)) n k
        (⟨n + m.bytes, n + m.bytes + removed.bytes, k + m.bytes, k + m.bytes + added.bytes⟩ :: cs)

namespace Aligned

variable {s t : Text} {n k : Nat} {c : Change} {cs : List Change}

theorem split_change (h : Aligned s t n k (c :: cs)) :
    ∃ m removed added s' t', s = m ++ (removed ++ s') ∧ t = m ++ (added ++ t') ∧
      c = ⟨n + m.bytes, n + m.bytes + removed.bytes, k + m.bytes, k + m.bytes + added.bytes⟩ ∧
      Aligned s' t' c.oldStop c.newStop cs := by
  generalize hl : c :: cs = l at h
  cases h with
  | same => simp at hl
  | change m removed added h' =>
    obtain ⟨rfl, rfl⟩ := List.cons.inj hl
    exact ⟨m, removed, added, _, _, rfl, rfl, rfl, h'⟩

theorem eq_of_nil (h : Aligned s t n k []) : s = t := by
  cases h
  rfl

/-- A part that both texts start with, and that ends before the first change, can be passed. -/
theorem drop_front {f : Text} (h : Aligned s (f ++ t) n k cs)
    (hc : ∀ c ∈ cs.head?, k + f.bytes ≤ c.newStart) :
    ∃ s', s = f ++ s' ∧ Aligned s' t (n + f.bytes) (k + f.bytes) cs := by
  cases cs with
  | nil =>
    obtain rfl := h.eq_of_nil
    exact ⟨t, rfl, .same t _ _⟩
  | cons c cs =>
    obtain ⟨m, removed, added, s', t', rfl, ht, rfl, h'⟩ := h.split_change
    have hle : f.bytes ≤ m.bytes := by
      have := hc _ rfl
      simp only at this
      omega
    obtain ⟨u, rfl, rfl⟩ := Text.append_eq_of_bytes_le ht hle
    refine ⟨u ++ (removed ++ s'), by simp, ?_⟩
    have ha (a : Nat) : a + (f ++ u).bytes = a + f.bytes + u.bytes := by
      rw [Text.bytes_append, Nat.add_assoc]
    simp only [ha] at h' ⊢
    exact .change u removed added h'

end Aligned

/-- The change that an edit makes some bytes further on, after `k - n` bytes were gained. -/
theorem Change.ofEditsFrom_cons {e : Edit} {n k m : Nat} (h : e.start = n + m) (es : List Edit) :
    ofEditsFrom ((k : Int) - n) (e :: es) =
      ⟨e.start, e.stop, k + m, k + m + e.text.bytes⟩ ::
        ofEditsFrom (((k + m + e.text.bytes : Nat) : Int) - e.stop) es := by
  have hk : ((e.start : Int) + ((k : Int) - n)).toNat = k + m := by omega
  simp only [ofEditsFrom, delta, hk]

namespace Edit

/-- The changes that edits make are where the text is spliced. -/
theorem Splices.aligned {n : Nat} {es : List Edit} {s t : Text} (h : Splices n es s t) (k : Nat) :
    Aligned s t n k (Change.ofEditsFrom ((k : Int) - n) es) := by
  induction h generalizing k with
  | done n s => exact .same s n k
  | @edit n e es s t m removed hstart hstop h ih =>
    have hnext := ih (k + m.bytes + e.text.bytes)
    rw [hstop] at hnext
    rw [Change.ofEditsFrom_cons hstart, hstart, hstop]
    exact .change m removed e.text hnext

/-- An accepted batch makes the text into one that is aligned with it. -/
theorem aligned_applyAll {s : Text} {es : List Edit} (h : validate s es = .ok ()) :
    Aligned s (applyAll s es) 0 0 (Change.ofEdits es) := by
  have := (validate_eq_ok_iff.1 h).splices.aligned 0
  simpa [Change.ofEdits] using this

end Edit

end ScriptTree
