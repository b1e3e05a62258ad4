import ScriptTree.Proofs.Document.Partition
import ScriptTree.Proofs.Update.Reuse
import ScriptTree.Proofs.Update.Runs

namespace ScriptTree

/-- The numbers of an update are those of its document. -/
structure Update.Counted (u : Update) : Prop where
  tokens : u.metrics.tokensRelexed + u.metrics.tokensReused = u.document.tokens.toList.length
  statements :
    u.metrics.statementsReparsed + u.metrics.statementsReused = u.document.statements.length

/-- What an update counts as taken over from a document was taken over from it. -/
structure Update.Reuses (u : Update) (d : Document) : Prop where
  tokens : ∃ runs : List Run, runs.Pairwise Run.Before ∧
    (∀ run ∈ runs, run.Copies d.tokens.toList u.document.tokens.toList) ∧
    u.metrics.tokensReused = Run.total runs
  length : u.origins.length = u.document.statements.length
  increasing : u.origins.reduceOption.Pairwise (· < ·)
  counted : u.metrics.statementsReused = u.origins.reduceOption.length
  /-- A statement that was taken over is the old one, and owns the new tokens behind those of the
  statements before it. -/
  kept : ∀ k i, u.origins[k]? = some (some i) → ∃ old new, d.statements[i]? = some old ∧
    u.document.statements[k]? = some new ∧ new.tree = old.tree ∧ new.count = old.count ∧
    new.examined = old.examined ∧
    new.first = Statement.tokenCount (u.document.statements.take k) ∧
    new.Owns ((u.document.tokens.toList.drop new.first).take new.count)

namespace Update

variable {u : Update} {d : Document} {es : List Edit}

theorem Counted.withAffected (h : u.Counted) (range : Option (Nat × Nat)) :
    Counted { u with metrics := { u.metrics with affected := range } } :=
  ⟨h.tokens, h.statements⟩

theorem Reuses.withAffected (h : u.Reuses d) (range : Option (Nat × Nat)) :
    Reuses { u with metrics := { u.metrics with affected := range } } d :=
  ⟨h.tokens, h.length, h.increasing, h.counted, h.kept⟩

theorem fromScratch_counted (s : Text) : (fromScratch s).Counted where
  tokens := (TokenStream.length_toList _).symm
  statements := rfl

theorem incremental_counted (h : d.Current) (settings : Settings) (text : Text)
    (changes : List Change) : (incremental settings d text changes).Counted where
  tokens := by
    obtain ⟨-, -, htotal⟩ := relex_accounted h.stored.invariant.2.1 text changes
      (max settings.maxResyncLookahead 1)
    simp only [incremental, Document.assemble, TokenStream.length_toList]
    omega
  statements := by
    have hsplit (origins : List (Option Nat)) :
        (origins.filter Option.isNone).length + (origins.filter Option.isSome).length =
          origins.length := by
      have h := List.length_eq_length_filter_add (l := origins) Option.isNone
      simpa only [Option.not_isNone] using h.symm
    simp only [incremental, Document.assemble, hsplit, List.length_map]

theorem incremental_reuses (h : d.Current) (settings : Settings)
    (hv : Edit.validate d.text es = .ok ()) :
    (incremental settings d (Edit.applyAll d.text es) (Change.ofEdits es)).Reuses d := by
  have hpartitioned := (Document.incremental_current h settings hv).partitioned
  have hcontiguous := hpartitioned.contiguous
  have howns := hpartitioned.owns
  obtain ⟨-, hcopies⟩ := relex_sound h.stored hv (max settings.maxResyncLookahead 1) rfl
  obtain ⟨hordered, -, htotal⟩ := relex_accounted h.stored.invariant.2.1 (Edit.applyAll d.text es)
    (Change.ofEdits es) (max settings.maxResyncLookahead 1)
  simp only [incremental, Document.assemble] at hcontiguous howns ⊢
  exact {
    tokens := ⟨_, hordered, hcopies, Nat.sub_eq_of_eq_add' htotal.symm⟩
    length := by simp only [List.length_map]
    increasing := pairwise_origins_reparse ..
    counted := List.reduceOption_length_eq.symm
    kept := fun k i hi => by
      obtain ⟨old, new, hold, hnew, htree, hcount, hexamined, hfirst⟩ :=
        kept_of_contiguous _ _ _ hcontiguous hi
      exact ⟨old, new, hold, hnew, htree, hcount, hexamined, hfirst,
        howns new (List.mem_of_getElem? hnew)⟩ }

end Update

/-- After any history, an accepted batch counts every token and every statement of the new document
once, as made anew or as taken over. Nothing is taken over if the whole text is parsed; else the
statements taken over are old ones in their order, each at most once, and each as it was but for its
place. -/
theorem Document.afterHistory_reuse (s : Text) (history : List (Settings × List Edit))
    (settings : Settings) {es : List Edit} (hne : es ≠ [])
    (hv : Edit.validate (afterHistory s history).text es = .ok ()) :
    ∃ update, Update.apply settings (afterHistory s history) es = .ok update ∧
      update.Counted ∧ update.full = Update.needsFullParse settings es ∧
      (update.full = true →
        update.metrics.tokensReused = 0 ∧ update.metrics.statementsReused = 0) ∧
      (update.full = false → update.Reuses (afterHistory s history)) := by
  have hcurrent := afterHistory_current s history
  refine ⟨_, Update.apply_eq_ok hne hv settings, ?_⟩
  cases hfull : Update.needsFullParse settings es with
  | true =>
    have hcounted := Update.fromScratch_counted (Edit.applyAll (afterHistory s history).text es)
    simp only [reduceIte]
    refine ⟨hcounted.withAffected _, rfl, fun _ => ⟨rfl, rfl⟩, fun h => ?_⟩
    exact Bool.noConfusion (show true = false from h)
  | false =>
    have hcounted := Update.incremental_counted hcurrent settings
      (Edit.applyAll (afterHistory s history).text es) (Change.ofEdits es)
    have hreuses := Update.incremental_reuses hcurrent settings hv
    simp only [Bool.false_eq_true, reduceIte]
    refine ⟨hcounted.withAffected _, rfl, fun h => ?_, fun _ => hreuses.withAffected _⟩
    exact Bool.noConfusion (show false = true from h)

/-- After a first edit the number in the middle is replaced: the statements on both sides are taken
over, the one behind it with its tokens further on. -/
theorem Document.afterHistory_reuse_around :
    let d := afterHistory "a = 1\nb = 2\nc = 3\n".toList [({}, [.replace 4 5 "42 + x".toList])]
    let es : List Edit := [.replace 15 16 "(2)".toList]
    es ≠ [] ∧ Edit.validate d.text es = .ok () ∧
      ∃ update, Update.apply {} d es = .ok update ∧ update.Counted ∧
        update.origins = [some 0, none, some 2] ∧ update.Reuses d := by
  intro d es
  have hne : es ≠ [] := List.cons_ne_nil _ _
  have hv : Edit.validate d.text es = .ok () := by decide +kernel
  have horigins : (Update.apply {} d es).toOption.map Update.origins =
      some [some 0, none, some 2] := by decide +kernel
  obtain ⟨update, happly, hcounted, hfull, -, hreuses⟩ := afterHistory_reuse _ _ {} hne hv
  rw [happly] at horigins
  exact ⟨hne, hv, update, happly, hcounted, Option.some.inj horigins,
    hreuses (hfull.trans (by decide +kernel))⟩

end ScriptTree
