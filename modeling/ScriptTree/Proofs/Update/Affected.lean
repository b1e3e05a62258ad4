import ScriptTree.Proofs.Edit.Alignment
import ScriptTree.Update.Basic

namespace ScriptTree

namespace Text

/-- The ranges that other ranges leave of a text of some length: before the first, from each one to the
next, and after the last. -/
def gaps (length : Nat) : Nat → List (Nat × Nat) → List (Nat × Nat)
  | start, [] => [(start, length)]
  | start, r :: rs => (start, r.1) :: gaps length r.2 rs

theorem head?_gaps (length start : Nat) (rs : List (Nat × Nat)) :
    (gaps length start rs).head? = some (start, (rs.head?.map Prod.fst).getD length) := by
  cases rs <;> rfl

theorem getLast?_gaps (length start : Nat) (rs : List (Nat × Nat)) :
    (gaps length start rs).getLast? = some ((rs.getLast?.map Prod.snd).getD start, length) := by
  induction rs generalizing start with
  | nil => rfl
  | cons r rs ih =>
    rw [gaps, List.getLast?_cons, ih, List.getLast?_cons]
    cases rs.getLast? <;> rfl

def cuts (s : Text) (rs : List (Nat × Nat)) : List (Option Text) := rs.map fun r => s.slice? r.1 r.2

end Text

def Edit.range (e : Edit) : Nat × Nat := (e.start, e.stop)

namespace Change

def oldRange (c : Change) : Nat × Nat := (c.oldStart, c.oldStop)

def newRange (c : Change) : Nat × Nat := (c.newStart, c.newStop)

/-- Each change starts by as many bytes further on as were gained before it; what was lost never takes
it below zero. -/
def Exact (gained : Int) : List Change → Prop
  | [] => True
  | c :: cs => (c.newStart : Int) = c.oldStart + gained ∧ Exact c.delta cs

/-- Changes lie in an old and a new text where edits of the old one were made. -/
structure Locates (s t : Text) (es : List Edit) (cs : List Change) : Prop where
  old : cs.map oldRange = es.map Edit.range
  exact : Exact 0 cs
  inserted : t.cuts (cs.map newRange) = es.map fun e => some e.text
  /-- The texts before, between and after the edits are those around the changes. -/
  kept : ∃ ms : List Text, s.cuts (Text.gaps s.bytes 0 (cs.map oldRange)) = ms.map some ∧
    t.cuts (Text.gaps t.bytes 0 (cs.map newRange)) = ms.map some

end Change

namespace Aligned

variable {s t : Text} {n k : Nat} {c : Change} {cs : List Change}

theorem exact (h : Aligned s t n k cs) : Change.Exact ((k : Int) - n) cs := by
  induction h with
  | same => trivial
  | @change s t n k cs m removed added _ ih =>
    refine ⟨?_, ih⟩
    simp only
    omega

/-- A change lies within the two texts. -/
theorem bounds_of_mem (h : Aligned s t n k cs) (hc : c ∈ cs) :
    k ≤ c.newStart ∧ c.newStart ≤ c.newStop ∧ c.newStop ≤ k + t.bytes := by
  induction h with
  | same => exact absurd hc List.not_mem_nil
  | @change s t n k cs m removed added _ ih =>
    simp only [Text.bytes_append]
    rcases List.mem_cons.1 hc with rfl | hc
    · simp only
      omega
    · have := ih hc
      omega

theorem newStart_le_newStop (h : Aligned s t n k cs) {first last : Change}
    (hfirst : first ∈ cs.head?) (hlast : last ∈ cs.getLast?) : first.newStart ≤ last.newStop := by
  obtain ⟨ds, rfl⟩ := List.head?_eq_some_iff.1 hfirst
  obtain ⟨m, removed, added, s', t', rfl, rfl, hc, h'⟩ := h.split_change
  rcases List.mem_cons.1 (List.mem_of_getLast? hlast) with rfl | hmem
  · exact (h.bounds_of_mem List.mem_cons_self).2.1
  · -- The last change lies in what is behind the first.
    have hle := (h.bounds_of_mem List.mem_cons_self).2.1
    have := h'.bounds_of_mem hmem
    omega

/-- Behind fronts of any kind, both texts have the same parts around the changes. -/
theorem exists_kept (h : Aligned s t n k cs) {f g : Text} (hf : f.bytes = n) (hg : g.bytes = k) :
    ∃ ms : List Text,
      (f ++ s).cuts (Text.gaps (f ++ s).bytes n (cs.map Change.oldRange)) = ms.map some ∧
      (g ++ t).cuts (Text.gaps (g ++ t).bytes k (cs.map Change.newRange)) = ms.map some := by
  induction h generalizing f g with
  | same s n k =>
    refine ⟨[s], ?_, ?_⟩
    · rw [← hf]
      exact congrArg (fun x => [x]) (Text.slice?_to_end f s)
    · rw [← hg]
      exact congrArg (fun x => [x]) (Text.slice?_to_end g s)
  | @change s t n k cs m removed added h ih =>
    obtain ⟨ms, hold, hnew⟩ := ih (f := f ++ m ++ removed) (g := g ++ m ++ added)
      (by rw [Text.bytes_append, Text.bytes_append, hf])
      (by rw [Text.bytes_append, Text.bytes_append, hg])
    simp only [List.append_assoc] at hold hnew
    have holdFirst := Text.slice?_append f m (removed ++ s)
    have hnewFirst := Text.slice?_append g m (added ++ t)
    rw [hf] at holdFirst
    rw [hg] at hnewFirst
    exact ⟨m :: ms, congrArg₂ List.cons holdFirst hold, congrArg₂ List.cons hnewFirst hnew⟩

end Aligned

namespace Edit

variable {s t : Text} {es : List Edit}

theorem map_oldRange_ofEditsFrom (gained : Int) (es : List Edit) :
    (Change.ofEditsFrom gained es).map Change.oldRange = es.map Edit.range := by
  induction es generalizing gained with
  | nil => rfl
  | cons e es ih => exact congrArg₂ List.cons rfl (ih _)

/-- Behind a front of any kind, each change has the text of its edit. -/
theorem Splices.cuts_newRange {n : Nat} (h : Splices n es s t) {g : Text} {k : Nat}
    (hg : g.bytes = k) :
    (g ++ t).cuts ((Change.ofEditsFrom ((k : Int) - n) es).map Change.newRange) =
      es.map fun e => some e.text := by
  induction h generalizing g k with
  | done => rfl
  | @edit n e es s t m removed hstart hstop h ih =>
    have hnext := ih (g := g ++ m ++ e.text) (by rw [Text.bytes_append, Text.bytes_append, hg])
    have hfirst := Text.slice?_append (g ++ m) e.text t
    simp only [List.append_assoc, Text.bytes_append, hg] at hnext hfirst
    rw [Change.ofEditsFrom_cons hstart]
    exact congrArg₂ List.cons hfirst hnext

theorem locates_ofEdits (hv : validate s es = .ok ()) :
    Change.Locates s (applyAll s es) es (Change.ofEdits es) := by
  have haligned := aligned_applyAll hv
  exact {
    old := map_oldRange_ofEditsFrom 0 es
    exact := haligned.exact
    inserted := (validate_eq_ok_iff.1 hv).splices.cuts_newRange (g := []) rfl
    kept := haligned.exists_kept (f := []) (g := []) rfl rfl }

end Edit

/-- Before the first change and behind the last one the new text is the old one. -/
theorem Change.Locates.outside {s t : Text} {es : List Edit} {cs : List Change}
    (h : Locates s t es cs) {first last : Change} (hfirst : first ∈ cs.head?)
    (hlast : last ∈ cs.getLast?) :
    (∃ front, s.slice? 0 first.oldStart = some front ∧ t.slice? 0 first.newStart = some front) ∧
      ∃ back, s.slice? last.oldStop s.bytes = some back ∧
        t.slice? last.newStop t.bytes = some back := by
  obtain ⟨ms, hold, hnew⟩ := h.kept
  have hsame {o : Option Text} {x y : Option Text} (hx : some x = o.map some)
      (hy : some y = o.map some) : ∃ m, x = some m ∧ y = some m := by
    cases o with
    | none => simp at hx
    | some m => exact ⟨m, Option.some.inj hx, Option.some.inj hy⟩
  rw [Option.mem_def] at hfirst hlast
  constructor
  · have hs := congrArg List.head? hold
    have ht := congrArg List.head? hnew
    simp only [Text.cuts, List.head?_map, Text.head?_gaps, hfirst, Option.map_some,
      Option.getD_some] at hs ht
    exact hsame hs ht
  · have hs := congrArg List.getLast? hold
    have ht := congrArg List.getLast? hnew
    simp only [Text.cuts, List.getLast?_map, Text.getLast?_gaps, hlast, Option.map_some,
      Option.getD_some] at hs ht
    exact hsame hs ht

namespace Update

theorem affected_eq_some {cs : List Change} (hne : cs ≠ []) :
    ∃ first ∈ cs.head?, ∃ last ∈ cs.getLast?,
      affected cs = some (first.newStart, last.newStop) := by
  refine ⟨cs.head hne, List.head_mem_head? hne, cs.getLast hne, List.getLast_mem_getLast? hne, ?_⟩
  rw [affected, List.head?_eq_some_head hne, List.getLast?_eq_some_getLast hne]

/-- A batch that is not empty and keeps the rules is applied, and the range of its changes is
reported, whatever part of the document is made anew. -/
theorem apply_eq_ok {d : Document} {es : List Edit} (hne : es ≠ [])
    (hv : Edit.validate d.text es = .ok ()) (settings : Settings) :
    apply settings d es = .ok
      (let update :=
        if needsFullParse settings es then fromScratch (Edit.applyAll d.text es)
        else incremental settings d (Edit.applyAll d.text es) (Change.ofEdits es)
      { update with
        metrics := { update.metrics with affected := affected (Change.ofEdits es) } }) := by
  have hempty : es.isEmpty = false := by simpa using hne
  rw [apply, hv]
  simp only [hempty, Bool.false_eq_true, if_false]
  rfl

/-- The changes of an accepted batch lie in the new text where its edits were made in the old one, and
the update reports a range of the new text from the first to the last of them, outside of which it is
the old text. -/
theorem apply_affected {d : Document} {es : List Edit} (hne : es ≠ [])
    (hv : Edit.validate d.text es = .ok ()) (settings : Settings) :
    let text := Edit.applyAll d.text es
    let changes := Change.ofEdits es
    Change.Locates d.text text es changes ∧
      ∃ update, apply settings d es = .ok update ∧ update.document.text = text ∧
        ∃ first ∈ changes.head?, ∃ last ∈ changes.getLast?,
          update.metrics.affected = some (first.newStart, last.newStop) ∧
          first.newStart ≤ last.newStop ∧ last.newStop ≤ text.bytes ∧
          (∃ front, d.text.slice? 0 first.oldStart = some front ∧
            text.slice? 0 first.newStart = some front) ∧
          ∃ back, d.text.slice? last.oldStop d.text.bytes = some back ∧
            text.slice? last.newStop text.bytes = some back := by
  intro text changes
  have hlocates := Edit.locates_ofEdits hv
  have haligned := Edit.aligned_applyAll hv
  have hchanges : changes ≠ [] := by
    intro hnil
    have := congrArg List.length hlocates.old
    rw [List.length_map, List.length_map, List.length_eq_zero_iff.2 hnil] at this
    exact hne (List.length_eq_zero_iff.1 this.symm)
  obtain ⟨first, hfirst, last, hlast, hrange⟩ := affected_eq_some hchanges
  obtain ⟨hfront, hback⟩ := hlocates.outside hfirst hlast
  have hlastLe := (haligned.bounds_of_mem (List.mem_of_getLast? hlast)).2.2
  rw [Nat.zero_add] at hlastLe
  refine ⟨hlocates, _, apply_eq_ok hne hv settings, ?_, first, hfirst, last, hlast, hrange,
    haligned.newStart_le_newStop hfirst hlast, hlastLe, hfront, hback⟩
  show (if needsFullParse settings es then fromScratch text
    else incremental settings d text changes).document.text = text
  split
  · rfl
  · rfl

/-- A name is put before a text and a letter of two bytes is replaced; what was gained is lost again
before the last edit, which removes the rest of the line. -/
theorem apply_affected_accented :
    let d := Document.parse "x = 'é' + y\n".toList
    let es : List Edit := [.insert 0 "ab".toList, .replace 5 7 [], .delete 8 12]
    let text := Edit.applyAll d.text es
    let changes := Change.ofEdits es
    es ≠ [] ∧ Edit.validate d.text es = .ok () ∧ text = "abx = ''\n".toList ∧
      changes = [⟨0, 0, 0, 2⟩, ⟨5, 7, 7, 7⟩, ⟨8, 12, 8, 8⟩] ∧
      Change.Locates d.text text es changes ∧
      ∃ update, apply {} d es = .ok update ∧ update.metrics.affected = some (0, 8) := by
  intro d es text changes
  have hne : es ≠ [] := List.cons_ne_nil _ _
  have hv : Edit.validate d.text es = .ok () := by decide +kernel
  have hchanges : changes = [⟨0, 0, 0, 2⟩, ⟨5, 7, 7, 7⟩, ⟨8, 12, 8, 8⟩] := by decide +kernel
  obtain ⟨hlocates, update, hupdate, -, first, hfirst, last, hlast, haffected, -⟩ :=
    apply_affected hne hv {}
  obtain rfl := Option.some.inj ((congrArg List.head? hchanges).symm.trans hfirst)
  obtain rfl := Option.some.inj ((congrArg List.getLast? hchanges).symm.trans hlast)
  exact ⟨hne, hv, by decide +kernel, hchanges, hlocates, update, hupdate, haffected⟩

end Update

end ScriptTree
