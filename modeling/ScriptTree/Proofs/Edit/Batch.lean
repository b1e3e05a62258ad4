import Mathlib.Order.Bounds.Defs
import ScriptTree.Edit
import ScriptTree.Proofs.Text.Bytes

namespace ScriptTree.Edit

variable {s t : Text} {es : List Edit} {e : Edit} {n : Nat}

/-! ### What is accepted -/

/-- Edits that can be made in a text together. Edits that replace nothing may share their offset with
each other, and with what starts there after them. -/
structure Batch (s : Text) (es : List Edit) : Prop where
  inBounds : ∀ e ∈ es, e.stop ≤ s.bytes
  boundaries : ∀ e ∈ es, s.isBoundary e.start ∧ s.isBoundary e.stop
  ordered : es.Pairwise fun p q => p.stop ≤ q.start

theorem Batch.nil (s : Text) : Batch s [] := ⟨nofun, nofun, .nil⟩

theorem Batch.sublist {us : List Edit} (h : Batch s es) (hus : us.Sublist es) : Batch s us where
  inBounds e he := h.inBounds e (hus.mem he)
  boundaries e he := h.boundaries e (hus.mem he)
  ordered := h.ordered.sublist hus

theorem batch_cons_iff : Batch s (e :: es) ↔
    (e.stop ≤ s.bytes ∧ s.isBoundary e.start ∧ s.isBoundary e.stop) ∧
      (∀ q ∈ es, e.stop ≤ q.start) ∧ Batch s es := by
  constructor
  · intro h
    obtain ⟨hlater, -⟩ := List.pairwise_cons.1 h.ordered
    have he := List.mem_cons_self (a := e) (l := es)
    exact ⟨⟨h.inBounds e he, h.boundaries e he⟩, hlater, h.sublist (List.sublist_cons_self e es)⟩
  · rintro ⟨⟨hin, hcut⟩, hlater, h⟩
    exact ⟨List.forall_mem_cons.2 ⟨hin, h.inBounds⟩, List.forall_mem_cons.2 ⟨hcut, h.boundaries⟩,
      List.pairwise_cons.2 ⟨hlater, h.ordered⟩⟩

theorem violation?_eq_none_iff {previous : Option Edit} : violation? s previous e = none ↔
    (e.stop ≤ s.bytes ∧ s.isBoundary e.start ∧ s.isBoundary e.stop) ∧
      ∀ p ∈ previous, p.stop ≤ e.start := by
  have hp : (∀ p ∈ previous, p.stop ≤ e.start) ↔
      ¬(previous.any fun p => e.start < p.start) ∧ ¬(previous.any fun p => e.start < p.stop) := by
    cases previous with
    | none => simp
    | some p =>
      have := p.start_le_stop
      simp only [Option.mem_def, Option.some.injEq, forall_eq', Option.any_some, decide_eq_true_eq]
      omega
  have hcase (c : Prop) [Decidable c] (v : Violation) (x : Option Violation) :
      (if c then some v else x) = none ↔ ¬c ∧ x = none := by
    split <;> simp [*]
  rw [hp, violation?]
  simp only [hcase, Nat.not_lt, Bool.not_eq_true', Bool.not_eq_false, Bool.and_eq_true, and_assoc,
    and_true]

/-- Only neighbours are compared; the edits between two of a batch carry their order over. -/
theorem validateFrom_eq_ok_iff {previous : Option Edit} {index : Nat} :
    validateFrom s previous index es = .ok () ↔
      (∀ p ∈ previous, ∀ q ∈ es, p.stop ≤ q.start) ∧ Batch s es := by
  induction es generalizing previous index with
  | nil => simp [validateFrom, Batch.nil]
  | cons e es ih =>
    rw [validateFrom, batch_cons_iff]
    cases hv : violation? s previous e with
    | some v =>
      have hno : ¬violation? s previous e = none := by simp [hv]
      rw [violation?_eq_none_iff] at hno
      simp only [reduceCtorEq, false_iff]
      rintro ⟨hprevious, hfits, -⟩
      exact hno ⟨hfits, fun p hp => hprevious p hp e List.mem_cons_self⟩
    | none =>
      obtain ⟨hfits, hprevious⟩ := violation?_eq_none_iff.1 hv
      simp only [ih, Option.mem_def, Option.some.injEq, forall_eq']
      refine ⟨fun ⟨hlater, h⟩ => ⟨fun p hp q hq => ?_, hfits, hlater, h⟩, fun h => h.2.2⟩
      -- From the previous edit to a later one by way of the edit between them.
      have hpe := hprevious p hp
      have hle := e.start_le_stop
      rcases List.mem_cons.1 hq with rfl | hq
      · exact hpe
      · have := hlater q hq
        omega

theorem validate_eq_ok_iff : validate s es = .ok () ↔ Batch s es := by
  rw [validate, validateFrom_eq_ok_iff]
  simp

/-- The edits before the one that is named are accepted, and with it they are not. -/
theorem exists_of_validateFrom_error {previous : Option Edit} {index : Nat} {b : BatchError}
    (h : validateFrom s previous index es = .error b) :
    ∃ k, b.index = index + k ∧ validateFrom s previous index (es.take k) = .ok () ∧
      validateFrom s previous index (es.take (k + 1)) = .error b := by
  induction es generalizing previous index with
  | nil => simp [validateFrom] at h
  | cons e es ih =>
    rw [validateFrom] at h
    cases hv : violation? s previous e with
    | some v =>
      simp only [hv] at h
      obtain rfl := Except.error.inj h
      exact ⟨0, rfl, rfl, by simp [validateFrom, hv]⟩
    | none =>
      simp only [hv] at h
      obtain ⟨k, hk, hok, herror⟩ := ih h
      refine ⟨k + 1, by omega, ?_, ?_⟩
      · simpa [validateFrom, hv] using hok
      · simpa [validateFrom, hv] using herror

theorem isLeast_of_validate_error {b : BatchError} (h : validate s es = .error b) :
    IsLeast {i | ¬Batch s (es.take (i + 1))} b.index := by
  obtain ⟨k, hk, hok, herror⟩ := exists_of_validateFrom_error h
  obtain rfl : b.index = k := hk.trans (Nat.zero_add k)
  constructor
  · intro hbatch
    have := validate_eq_ok_iff.2 hbatch
    rw [validate, herror] at this
    simp at this
  · intro i hi
    by_contra hlt
    -- A shorter front lies within the one that was accepted.
    have hsub : (es.take (i + 1)).Sublist (es.take b.index) :=
      (List.take_prefix_take_left (by omega)).sublist
    exact hi ((validate_eq_ok_iff.1 hok).sublist hsub)

/-! ### What a batch does -/

/-- A text whose first byte has the offset `n` becomes another by edits: up to each edit it is kept,
what the edit covers is taken away, and the edit's text takes its place. -/
inductive Splices : Nat → List Edit → Text → Text → Prop
  | done (n : Nat) (s : Text) : Splices n [] s s
  | edit {n : Nat} {e : Edit} {es : List Edit} {s t : Text} (m removed : Text) :
      e.start = n + m.bytes → e.stop = n + m.bytes + removed.bytes → Splices e.stop es s t →
      Splices n (e :: es) (m ++ (removed ++ s)) (m ++ (e.text ++ t))

theorem Batch.splices_applyFrom (h : Batch s es) {f r : Text} (hs : s = f ++ r)
    (hf : ∀ e ∈ es, f.bytes ≤ e.start) : Splices f.bytes es r (applyFrom s f.bytes es) := by
  induction es generalizing f r with
  | nil =>
    rw [applyFrom, hs, Text.dropBytes?_append, Option.getD_some]
    exact .done _ r
  | cons e es ih =>
    obtain ⟨⟨-, hstart, hstop⟩, hlater, h⟩ := batch_cons_iff.1 h
    have hfe := hf e List.mem_cons_self
    have hle := e.start_le_stop
    -- The two boundaries of the edit cut the rest into three.
    obtain ⟨p, q, hpq, hpb⟩ := Text.exists_of_isBoundary hstart
    obtain ⟨m, rfl, rfl⟩ := Text.append_eq_of_bytes_le (hs.symm.trans hpq) (by omega)
    obtain ⟨p', q', hpq', hpb'⟩ := Text.exists_of_isBoundary hstop
    obtain ⟨removed, rfl, rfl⟩ := Text.append_eq_of_bytes_le (hpq.symm.trans hpq') (by omega)
    have hm : e.start = f.bytes + m.bytes := by rw [← hpb, Text.bytes_append]
    have hr : e.stop = f.bytes + m.bytes + removed.bytes := by
      rw [← hpb', Text.bytes_append, Text.bytes_append]
    have hslice : s.slice f.bytes e.start = m := by rw [hs, hm, Text.slice_append]
    have hnext := ih h hpq' (by rwa [hpb'])
    rw [hpb'] at hnext
    rw [applyFrom, hslice, List.append_assoc]
    exact .edit m removed hm hr hnext

/-- An accepted batch splices the text. -/
theorem Batch.splices (h : Batch s es) : Splices 0 es s (applyAll s es) :=
  h.splices_applyFrom (f := []) rfl fun _ _ => Nat.zero_le _

def spliceFrom? (s : Text) (from_ : Nat) : List Edit → Option Text
  | [] => s.slice? from_ s.bytes
  | e :: es => do
    let kept ← s.slice? from_ e.start
    let rest ← spliceFrom? s e.stop es
    return kept ++ e.text ++ rest

/-- The text after edits, made with cuts that can fail. -/
def splice? (s : Text) (es : List Edit) : Option Text := spliceFrom? s 0 es

/-- Check a single edit and make it. -/
def applyOne (e : Edit) (s : Text) : Except BatchError Text := do
  validate s [e]
  return applyAll s [e]

namespace Splices

theorem spliceFrom?_eq (h : Splices n es s t) {f : Text} (hf : f.bytes = n) :
    spliceFrom? (f ++ s) n es = some t := by
  induction h generalizing f with
  | done n s =>
    rw [spliceFrom?, ← hf]
    exact Text.slice?_to_end f s
  | @edit n e es s t m removed hstart hstop h ih =>
    have hnext := ih (f := f ++ m ++ removed) (by simp only [Text.bytes_append]; omega)
    rw [List.append_assoc, List.append_assoc] at hnext
    rw [spliceFrom?, hnext, hstart, ← hf, Text.slice?_append]
    simp

theorem le_start (h : Splices n es s t) : ∀ e ∈ es, n ≤ e.start := by
  induction h with
  | done => exact fun e he => absurd he List.not_mem_nil
  | @edit n e es s t m removed hstart hstop h ih =>
    intro q hq
    rcases List.mem_cons.1 hq with rfl | hq
    · omega
    · have := ih q hq
      omega

/-- Only the edits of a batch can splice a text. -/
theorem batch (h : Splices n es s t) {f : Text} (hf : f.bytes = n) : Batch (f ++ s) es := by
  induction h generalizing f with
  | done n s => exact .nil _
  | @edit n e es s t m removed hstart hstop h ih =>
    have hm : e.start = Text.bytes (f ++ m) := by rw [Text.bytes_append, hf, hstart]
    have hr : e.stop = Text.bytes (f ++ m ++ removed) := by
      rw [Text.bytes_append, Text.bytes_append, hf, hstop]
    have hnext := ih hr.symm
    have hin : e.stop ≤ Text.bytes (f ++ m ++ removed ++ s) := by
      rw [hr, Text.bytes_append (f ++ m ++ removed)]
      exact Nat.le_add_right ..
    have hstart' := Text.isBoundary_append (f ++ m) (removed ++ s)
    have hstop' := Text.isBoundary_append (f ++ m ++ removed) s
    rw [← hm] at hstart'
    rw [← hr] at hstop'
    simp only [List.append_assoc] at hnext hin hstart' hstop' ⊢
    exact batch_cons_iff.2 ⟨⟨hin, hstart', hstop'⟩, h.le_start, hnext⟩

theorem splice?_eq (h : Splices 0 es s t) : splice? s es = some t := h.spliceFrom?_eq (f := []) rfl

theorem validate_eq (h : Splices 0 es s t) : validate s es = .ok () :=
  validate_eq_ok_iff.2 (h.batch (f := []) rfl)

theorem applyAll_eq (h : Splices 0 es s t) : applyAll s es = t := by
  have happly := (validate_eq_ok_iff.1 h.validate_eq).splices.splice?_eq
  exact Option.some.inj (happly.symm.trans h.splice?_eq)

theorem applyOne_eq {m removed : Text} (hstart : e.start = n + m.bytes)
    (hstop : e.stop = n + m.bytes + removed.bytes) {f : Text} (hf : f.bytes = n) (u : Text) :
    applyOne e (f ++ (m ++ (removed ++ u))) = .ok (f ++ (m ++ (e.text ++ u))) := by
  have h : Splices 0 [e] (f ++ m ++ (removed ++ u)) (f ++ m ++ (e.text ++ u)) :=
    .edit (f ++ m) removed (by rw [hstart, ← hf, Text.bytes_append, Nat.zero_add])
      (by rw [hstop, ← hf, Text.bytes_append, Nat.zero_add]) (.done _ u)
  rw [List.append_assoc, List.append_assoc] at h
  rw [applyOne, h.validate_eq, h.applyAll_eq]
  rfl

/-- An edit can be made after those that lie behind it. -/
theorem foldrM_applyOne (h : Splices n es s t) {f : Text} (hf : f.bytes = n) :
    es.foldrM applyOne (f ++ s) = .ok (f ++ t) := by
  induction h generalizing f with
  | done n s => rfl
  | @edit n e es s t m removed hstart hstop h ih =>
    -- To the edits behind it, what this edit covers is a part of the front.
    have hlater := ih (f := f ++ m ++ removed) (by simp only [Text.bytes_append]; omega)
    simp only [List.append_assoc] at hlater
    rw [List.foldrM_cons, hlater]
    exact applyOne_eq hstart hstop hf t

theorem bytes_eq (h : Splices n es s t) : (t.bytes : Int) = s.bytes + (es.map lengthDelta).sum := by
  induction h with
  | done n s => simp
  | @edit n e es s t m removed hstart hstop h ih =>
    simp only [Text.bytes_append, List.map_cons, List.sum_cons, lengthDelta]
    omega

end Splices

/-- A batch is accepted just when its edits can be made together, and otherwise the first edit is named
with which they cannot. The text after an accepted batch is put together by cuts of which none fails;
it is what the edits make one at a time, from the last to the first, and each lengthens it by as much
as its text is longer than what it replaces. -/
theorem validate_and_apply (s : Text) (es : List Edit) :
    (validate s es = .ok () ↔ Batch s es) ∧
      (¬Batch s es → ∃ b, validate s es = .error b ∧
        IsLeast {i | ¬Batch s (es.take (i + 1))} b.index) ∧
      (validate s es = .ok () → splice? s es = some (applyAll s es) ∧
        es.foldrM applyOne s = .ok (applyAll s es) ∧
        ((applyAll s es).bytes : Int) = s.bytes + (es.map lengthDelta).sum) := by
  refine ⟨validate_eq_ok_iff, fun hbatch => ?_, fun hok => ?_⟩
  · cases hv : validate s es with
    | ok u => exact absurd (validate_eq_ok_iff.1 hv) hbatch
    | error b => exact ⟨b, rfl, isLeast_of_validate_error hv⟩
  · have h := (validate_eq_ok_iff.1 hok).splices
    exact ⟨h.splice?_eq, h.foldrM_applyOne (f := []) rfl, h.bytes_eq⟩

/-- Two insertions, a deletion and a replacement that meet one another are a batch; with an edit that
starts within a letter of two bytes there is none. -/
theorem validate_and_apply_meeting :
    let s : Text := "x = 'é'".toList
    let es : List Edit := [insert 1 ['a'], insert 1 ['b'], delete 1 3, replace 3 4 ['+']]
    let us : List Edit := [insert 4 ['a'], delete 6 8]
    validate s es = .ok () ∧ applyAll s es = "xab+'é'".toList ∧
      splice? s es = some (applyAll s es) ∧ es.foldrM applyOne s = .ok (applyAll s es) ∧
      ((applyAll s es).bytes : Int) = s.bytes + (es.map lengthDelta).sum ∧
      ¬Batch s us ∧ ∃ b, validate s us = .error b ∧
        IsLeast {i | ¬Batch s (us.take (i + 1))} b.index := by
  intro s es us
  have hv : validate s es = .ok () := by decide +kernel
  have hno : ¬Batch s us := by
    rw [← validate_eq_ok_iff]
    decide +kernel
  obtain ⟨hsplice, hsingle, hbytes⟩ := (validate_and_apply s es).2.2 hv
  exact ⟨hv, by decide +kernel, hsplice, hsingle, hbytes, hno, (validate_and_apply s us).2.1 hno⟩

end ScriptTree.Edit
