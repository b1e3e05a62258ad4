import ScriptTree.Proofs.Document.History
import ScriptTree.Proofs.Lexer.Tiling

namespace ScriptTree

/-- A token at its place, without what was looked at for it. -/
def Token.placed (t : Token) : PlacedToken := ⟨t.kind, t.text, t.start⟩

namespace Lexer

/-- Each token starts where the one before it ends. -/
theorem placedFrom_scan (s : Text) (n : Nat) :
    Word.placedFrom n ((scan s n).map Token.word) = (scan s n).map Token.placed := by
  fun_induction scan s n with
  | case1 => rfl
  | case2 start c r l ih =>
    simp only [List.map_cons, Word.placedFrom]
    exact congrArg₂ _ rfl ih

theorem textOf_scan (s : Text) (n : Nat) : Word.textOf ((scan s n).map Token.word) = s := by
  rw [Word.textOf, List.flatMap_map]
  exact flatMap_text_scan s n

end Lexer

namespace Document

def tail (d : Document) : List Token :=
  d.tokens.toList.drop (Statement.tokenCount d.statements)

structure Partitioned (d : Document) : Prop where
  contiguous : Statement.Contiguous 0 d.statements
  /-- A statement owns the tokens from its first one on, as many as it counts. -/
  owns : ∀ s ∈ d.statements, s.Owns ((d.tokens.toList.drop s.first).take s.count)
  tree : d.tree = .node .program (d.statements.map Statement.tree ++ d.tail.map Token.tree)
  trivia : ∀ t ∈ d.tail, t.kind.isTrivia
  leaves : d.tree.tokens = d.tokens.toList.map Token.placed
  text : d.tree.text = d.text

/-- The tree of a document has its tokens as leaves. -/
theorem Current.yield {d : Document} (h : d.Current) :
    d.tree.yield = d.tokens.toList.map Token.word := by
  obtain ⟨tail, hseq, htree⟩ := h.sequence
  rw [htree, h.tokens]
  exact hseq.yield fun t ht => Lexer.kind_ne_eof_of_mem_tokens ht

theorem Current.partitioned {d : Document} (h : d.Current) : d.Partitioned := by
  obtain ⟨tail, hseq, htree⟩ := h.sequence
  have heof : ∀ t ∈ Lexer.tokens d.text, t.kind ≠ .eof :=
    fun t ht => Lexer.kind_ne_eof_of_mem_tokens ht
  have htail : d.tail = tail := by
    rw [Document.tail, h.tokens]
    exact hseq.drop_tokenCount heof
  refine ⟨hseq.contiguous heof, ?_, ?_, ?_, ?_, ?_⟩
  · rw [h.tokens]
    exact hseq.owns heof [] rfl
  · rw [htail]
    exact htree
  · rw [htail]
    exact hseq.tail_trivia
  · rw [Tree.tokens_eq_yield, h.yield, h.tokens]
    exact Lexer.placedFrom_scan d.text 0
  · rw [Tree.text_eq_yield, h.yield, h.tokens]
    exact Lexer.textOf_scan d.text 0

/-- A token that is no trivia belongs to a statement. -/
theorem Partitioned.exists_owner {d : Document} (h : d.Partitioned) {i : Nat} {t : Token}
    (ht : d.tokens.toList[i]? = some t) (htrivia : t.kind.isTrivia = false) :
    ∃ s ∈ d.statements, s.first ≤ i ∧ i < s.first + s.count := by
  refine h.contiguous.exists_owner (Nat.zero_le i) ?_
  rw [Nat.zero_add]
  by_contra hle
  have htail : t ∈ d.tail := by
    rw [tail]
    refine List.mem_of_getElem? (i := i - Statement.tokenCount d.statements) ?_
    rw [List.getElem?_drop, Nat.add_sub_of_le (Nat.le_of_not_lt hle)]
    exact ht
  rw [h.trivia t htail] at htrivia
  exact absurd htrivia (by decide)

/-- Over any history of edits the statements own the tokens one after another, each at least one that
is no trivia, the tail is trivia, and the leaves of the tree are the tokens and its text the edited
text. -/
theorem afterHistory_partitioned (s : Text) (history : List (Settings × List Edit)) :
    (afterHistory s history).Partitioned ∧
      (afterHistory s history).tree.text = (history.map Prod.snd).foldl Edit.applyBatch s := by
  obtain ⟨hcurrent, htext⟩ := foldl_afterBatch_current (parse_current s) history
  have hpartitioned := hcurrent.partitioned
  exact ⟨hpartitioned, hpartitioned.text.trans htext⟩

end Document

end ScriptTree
