import ScriptTree.Proofs.Lexer.Spelling
import ScriptTree.Proofs.Update.Affected
import ScriptTree.Proofs.Update.Reparse

namespace ScriptTree

/-- The text after a batch of edits; a batch that breaks the rules leaves it as it is. -/
def Edit.applyBatch (s : Text) (es : List Edit) : Text :=
  match validate s es with
  | .ok () => applyAll s es
  | .error _ => s

namespace Document

/-- The document after a batch of edits under some settings; a batch that breaks the rules leaves it
as it is. -/
def afterBatch (d : Document) (batch : Settings × List Edit) : Document :=
  match Update.apply batch.1 d batch.2 with
  | .ok update => update.document
  | .error _ => d

def afterHistory (s : Text) (history : List (Settings × List Edit)) : Document :=
  history.foldl afterBatch (parse s)

/-- The parts of a document are those that its text has. -/
structure Current (d : Document) : Prop where
  stored : d.tokens.Stored (Lexer.tokens d.text)
  parsed : ∃ tail, Statement.parseAll (Lexer.tokens d.text) = (d.statements, tail) ∧
    d.tree = programTree (d.statements.map Statement.tree) tail

theorem Current.tokens {d : Document} (h : d.Current) : d.tokens.toList = Lexer.tokens d.text :=
  h.stored.toList_eq

theorem parse_current (s : Text) : (parse s).Current where
  stored := .lexed s
  parsed := ⟨_, rfl, rfl⟩

theorem Current.sequence {d : Document} (h : d.Current) :
    ∃ tail, Statement.Sequence (Lexer.tokens d.text) 0 d.statements tail ∧
      d.tree = programTree (d.statements.map Statement.tree) tail := by
  obtain ⟨tail, hparse, htree⟩ := h.parsed
  have hseq := Statement.sequence_parseAllLoop _ 0
    (fun t ht => Lexer.kind_ne_eof_of_mem_tokens (s := d.text) ht) (Nat.le_refl _)
  rw [show Statement.parseAllLoop _ (Lexer.tokens d.text) 0 = _ from hparse] at hseq
  exact ⟨tail, hseq, htree⟩

/-- What is taken over or made anew fits together to the document of the new text. -/
theorem incremental_current {d : Document} (h : d.Current) (settings : Settings) {es : List Edit}
    (hv : Edit.validate d.text es = .ok ()) :
    (Update.incremental settings d (Edit.applyAll d.text es) (Change.ofEdits es)).document.Current := by
  obtain ⟨tail, hseq, -⟩ := h.sequence
  obtain ⟨hstored, hruns⟩ := relex_sound h.stored hv (max settings.maxResyncLookahead 1) rfl
  have htokens := hstored.toList_eq
  rw [h.tokens] at hruns
  have hnew : ∀ t ∈ (relex d.tokens (Edit.applyAll d.text es) (Change.ofEdits es)
      (max settings.maxResyncLookahead 1)).tokens.toList, t.kind ≠ .eof := by
    rw [htokens]
    exact fun t ht => Lexer.kind_ne_eof_of_mem_tokens ht
  have hparse := reparse_eq (fun t ht => Lexer.kind_ne_eof_of_mem_tokens ht) hnew hseq hruns
    (max settings.maxResyncLookahead 1)
  rw [htokens] at hparse
  exact ⟨hstored, _, hparse.symm, rfl⟩

theorem apply_of_error {d : Document} {settings : Settings} {es : List Edit} {e : Edit.BatchError}
    (h : Edit.validate d.text es = .error e) : Update.apply settings d es = .error e := by
  unfold Update.apply
  rw [h]
  rfl

/-- A batch that keeps the rules is applied, and gives the document of the new text. -/
theorem exists_apply {d : Document} (h : d.Current) (settings : Settings) {es : List Edit}
    (hv : Edit.validate d.text es = .ok ()) :
    ∃ update, Update.apply settings d es = .ok update ∧
      update.document.text = Edit.applyAll d.text es ∧ update.document.Current := by
  by_cases hnil : es = []
  · subst hnil
    refine ⟨.unchanged d, rfl, ?_, h⟩
    simp [Update.unchanged, Edit.applyAll, Edit.applyFrom]
  · refine ⟨_, Update.apply_eq_ok hnil hv settings, ?_⟩
    split
    · exact ⟨rfl, parse_current _⟩
    · exact ⟨rfl, incremental_current h settings hv⟩

/-- Each batch leaves the document the one that its text has. -/
theorem afterBatch_current {d : Document} (h : d.Current) (batch : Settings × List Edit) :
    (d.afterBatch batch).Current ∧
      (d.afterBatch batch).text = Edit.applyBatch d.text batch.2 := by
  unfold afterBatch Edit.applyBatch
  cases hv : Edit.validate d.text batch.2 with
  | error e =>
    rw [apply_of_error hv]
    exact ⟨h, rfl⟩
  | ok u =>
    obtain ⟨update, hu, htext, hcurrent⟩ := exists_apply h batch.1 hv
    rw [hu]
    exact ⟨hcurrent, htext⟩

theorem foldl_afterBatch_current {d : Document} (h : d.Current)
    (history : List (Settings × List Edit)) :
    (history.foldl afterBatch d).Current ∧
      (history.foldl afterBatch d).text = (history.map Prod.snd).foldl Edit.applyBatch d.text := by
  induction history generalizing d with
  | nil => exact ⟨h, rfl⟩
  | cons batch history ih =>
    obtain ⟨hcurrent, htext⟩ := afterBatch_current h batch
    rw [List.foldl_cons, List.map_cons, List.foldl_cons, ← htext]
    exact ih hcurrent

theorem afterHistory_current (s : Text) (history : List (Settings × List Edit)) :
    (afterHistory s history).Current := (foldl_afterBatch_current (parse_current s) history).1

/-- After any history of edits under any settings the text is the edited one, and the document is the
one that this text has by itself: the same tree, the same tokens with all that was looked at for each,
and the same statements with their places and what was examined for each. -/
theorem afterHistory_eq_parse (s : Text) (history : List (Settings × List Edit)) :
    (afterHistory s history).text = (history.map Prod.snd).foldl Edit.applyBatch s ∧
      (afterHistory s history).tree = (parse (afterHistory s history).text).tree ∧
      (afterHistory s history).tokens.toList =
        (parse (afterHistory s history).text).tokens.toList ∧
      (afterHistory s history).statements = (parse (afterHistory s history).text).statements := by
  obtain ⟨hcurrent, htext⟩ := foldl_afterBatch_current (parse_current s) history
  obtain ⟨tail, hparse, htree⟩ := (afterHistory_current s history).parsed
  refine ⟨htext, ?_, ?_, ?_⟩
  · rw [htree]
    simp only [parse, hparse, assemble]
  · exact hcurrent.tokens.trans (parse_current _).tokens.symm
  · simp only [parse, hparse, assemble]

end Document

end ScriptTree
