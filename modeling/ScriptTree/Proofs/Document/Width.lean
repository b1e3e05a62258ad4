import ScriptTree.Proofs.Document.Errors
import ScriptTree.Proofs.Tree.Leaf

namespace ScriptTree

theorem Shape.ne_nil {k : Kind} {ts : Forest} (h : Shape k ts) (herror : k ≠ .error)
    (hprogram : k ≠ .program) : ts ≠ [] := by
  cases h with
  | argumentList hts | tuple hts | list hts | dict hts =>
    obtain ⟨x, us, t, rfl, -, -⟩ := hts
    exact List.cons_ne_nil _ _
  | program hts => exact absurd rfl hprogram
  | tokens hts | misplaced ha => exact absurd rfl herror
  | _ => exact List.cons_ne_nil _ _

namespace Tree

/-- A part of a script without errors: it is no script itself, and its tokens have text. -/
structure Sound (t : Tree) : Prop where
  shaped : t.Shaped
  hasError : t.hasError = false
  isStray : t.isStray = false
  words : ∀ w ∈ t.yield, w.2 ≠ []

theorem sound_children {k : Kind} {ts : Forest} (hshaped : (node k ts).Shaped)
    (herror : (node k ts).hasError = false) (hwords : ∀ w ∈ (node k ts).yield, w.2 ≠ []) :
    ∀ t ∈ ts, t.Sound := by
  obtain ⟨hshape, hts⟩ := shaped_node.1 hshaped
  rw [hasError_node, Bool.or_eq_false_iff, Forest.hasError_eq_false_iff] at herror
  obtain ⟨hk, herrors⟩ := herror
  intro t ht
  refine ⟨Forest.shaped_significant.1 hts t ht, herrors t ht, ?_, fun w hw => hwords w ?_⟩
  · cases t with
    | token l s => exact herrors _ ht
    | node l us => exact hshape.isStray (by simpa using hk) _ (List.mem_filter.2 ⟨ht, rfl⟩)
  · obtain ⟨us, vs, rfl⟩ := List.append_of_mem ht
    simp [hw]

end Tree

mutual

theorem Tree.Sound.filled {t : Tree} (h : t.Sound) :
    t.bytes ≠ 0 ∧ t.Licensed fun _ ts => Forest.bytes ts ≠ 0 := by
  cases t with
  | token k s =>
    have hs := h.words (k, s) (by simp [Tree.yield])
    exact ⟨(Text.bytes_pos hs).ne', trivial⟩
  | node k ts =>
    obtain ⟨hts, hlicensed⟩ :=
      Forest.filled_of_sound ts (Tree.sound_children h.shaped h.hasError h.words)
    have hne : ts ≠ [] := by
      rintro rfl
      have herror := h.hasError
      rw [Tree.hasError_node, Bool.or_eq_false_iff] at herror
      exact (Tree.shaped_node.1 h.shaped).1.ne_nil (by simpa using herror.1)
        (by simpa using h.isStray) rfl
    exact ⟨hts hne, hts hne, hlicensed⟩

theorem Forest.filled_of_sound (ts : Forest) (h : ∀ t ∈ ts, t.Sound) :
    (ts ≠ [] → Forest.bytes ts ≠ 0) ∧ Forest.Licensed (fun _ ts => Forest.bytes ts ≠ 0) ts := by
  cases ts with
  | nil => exact ⟨fun hne => absurd rfl hne, trivial⟩
  | cons t ts =>
    obtain ⟨ht, htl⟩ := (h t List.mem_cons_self).filled
    obtain ⟨-, htsl⟩ := Forest.filled_of_sound ts fun u hu => h u (List.mem_cons_of_mem t hu)
    refine ⟨fun _ => ?_, htl, htsl⟩
    rw [Forest.bytes_cons]
    omega

end

namespace Document

theorem Current.words {d : Document} (h : d.Current) : ∀ w ∈ d.tree.yield, w.2 ≠ [] := by
  intro w hw
  rw [h.yield, h.tokens] at hw
  obtain ⟨t, ht, rfl⟩ := List.mem_map.1 hw
  obtain ⟨p, c, r, -, rfl⟩ := Lexer.exists_of_mem_scan ht
  exact Lexer.lexeme_text_ne_nil c r

/-- Where a text that is not empty has no errors, each node of its tree has text. -/
theorem Current.filled {d : Document} (h : d.Current) (hne : d.text ≠ [])
    (herror : d.hasErrors = false) : d.tree.Filled := by
  have htree : d.tree = .node .program _ := h.partitioned.tree
  have hshaped := h.shaped
  have hwords := h.words
  have hnone : d.tree.hasError = false := by
    rw [← Bool.not_eq_true, ← h.hasErrors_iff_hasError, herror]
    exact Bool.false_ne_true
  have hbytes : d.tree.bytes ≠ 0 := by
    rw [← Tree.bytes_text, h.partitioned.text]
    exact (Text.bytes_pos hne).ne'
  have hlicensed : d.tree.Licensed fun _ ts => Forest.bytes ts ≠ 0 := by
    rw [htree] at hshaped hwords hnone hbytes ⊢
    have hchildren := Tree.sound_children hshaped hnone hwords
    exact ⟨hbytes, (Forest.filled_of_sound _ hchildren).2⟩
  intro x hx hnode
  have htext := d.tree.licensed_sitesFrom hlicensed 0 [] 0 x hx hnode
  obtain ⟨t, start, above, leaves⟩ := x
  cases t with
  | token k s => exact absurd hnode Bool.false_ne_true
  | node k ts => exact Nat.lt_add_of_pos_right (Nat.pos_of_ne_zero htext)

end Document

end ScriptTree
