import ScriptTree.Proofs.Document.History
import ScriptTree.Proofs.Update.Runs

namespace ScriptTree

namespace Document

/-- After any history the tokens of a changed text, made from the stored ones, are those that the text
has by itself, with all that was looked at for each. The runs come one behind the other in the new
tokens and in the old ones; the tokens of each have moved by one number of bytes; and all tokens in
none of them were lexed. -/
theorem relex_afterHistory (s : Text) (history : List (Settings × List Edit)) {es : List Edit}
    (hv : Edit.validate (afterHistory s history).text es = .ok ()) (limit : Nat) :
    let d := afterHistory s history
    let r := relex d.tokens (Edit.applyAll d.text es) (Change.ofEdits es) limit
    r.tokens.toList = Lexer.tokens (Edit.applyAll d.text es) ∧
      (∀ run ∈ r.runs, 0 < run.count ∧ run.Copies d.tokens.toList r.tokens.toList) ∧
      r.runs.Pairwise Run.Before ∧ r.relexed + Run.total r.runs = r.tokens.length := by
  intro d r
  have hstored := (afterHistory_current s history).stored
  obtain ⟨htokens, hcopies⟩ := relex_sound hstored hv limit rfl
  obtain ⟨hordered, hpositive, hcounted⟩ :=
    relex_accounted hstored.invariant.2.1 (Edit.applyAll d.text es) (Change.ofEdits es) limit
  exact ⟨htokens.toList_eq, fun run hrun => ⟨hpositive run hrun, hcopies run hrun⟩, hordered,
    hcounted⟩

/-- A name becomes longer and a number is replaced, with an earlier change between them: all the rest
is taken over in two runs. -/
theorem relex_afterHistory_twice :
    let d := afterHistory "a = 1\nb = 2\n".toList [({}, [.replace 4 5 "42".toList])]
    let es : List Edit := [.replace 0 1 "ab".toList, .replace 11 12 "20".toList]
    let r := relex d.tokens (Edit.applyAll d.text es) (Change.ofEdits es) 1
    Edit.validate d.text es = .ok () ∧ r.runs = [⟨1, 1, 8⟩, ⟨11, 11, 1⟩] ∧
      r.tokens.toList = Lexer.tokens (Edit.applyAll d.text es) ∧
      (∀ run ∈ r.runs, 0 < run.count ∧ run.Copies d.tokens.toList r.tokens.toList) ∧
      r.runs.Pairwise Run.Before ∧ r.relexed + Run.total r.runs = r.tokens.length := by
  intro d es r
  have hv : Edit.validate d.text es = .ok () := by decide +kernel
  exact ⟨hv, by decide +kernel, relex_afterHistory _ _ hv 1⟩

end Document

end ScriptTree
