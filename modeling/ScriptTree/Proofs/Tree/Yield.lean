import Mathlib.Tactic
import ScriptTree.Tree.Leaf

namespace ScriptTree

/-- What a token shows of itself in a tree. -/
abbrev Word := Kind × Text

def Token.word (t : Token) : Word := (t.kind, t.text)

@[simp] theorem Token.word_fst (t : Token) : t.word.1 = t.kind := rfl

mutual

def Tree.yield : Tree → List Word
  | .token k s => [(k, s)]
  | .node _ ts => Forest.yield ts

def Forest.yield : Forest → List Word
  | [] => []
  | t :: ts => t.yield ++ Forest.yield ts

end

namespace Forest

@[simp] theorem yield_nil : yield [] = [] := by rw [yield]

@[simp] theorem yield_cons (t : Tree) (ts : Forest) : yield (t :: ts) = t.yield ++ yield ts := by
  rw [yield]

@[simp] theorem yield_append (ts us : Forest) : yield (ts ++ us) = yield ts ++ yield us := by
  induction ts with
  | nil => simp
  | cons t ts ih => simp [ih]

@[simp] theorem yield_map_tree (ts : List Token) : yield (ts.map Token.tree) = ts.map Token.word := by
  induction ts with
  | nil => simp
  | cons t ts ih => simp [ih, Token.tree, Tree.yield, Token.word]

end Forest

@[simp] theorem Tree.yield_node (k : Kind) (ts : Forest) : (Tree.node k ts).yield = Forest.yield ts := by
  rw [Tree.yield]

@[simp] theorem Tree.yield_missing : Tree.missing.yield = [] := by simp [Tree.missing]

@[simp] theorem Token.yield_tree (t : Token) : t.tree.yield = [t.word] := by
  simp [Token.tree, Tree.yield, Token.word]

def Word.textOf (ws : List Word) : Text := ws.flatMap Prod.snd

def Word.placedFrom (start : Nat) : List Word → List PlacedToken
  | [] => []
  | w :: ws => ⟨w.1, w.2, start⟩ :: placedFrom (start + w.2.bytes) ws

theorem Word.placedFrom_append (start : Nat) (ws vs : List Word) :
    placedFrom start (ws ++ vs) =
      placedFrom start ws ++ placedFrom (start + (textOf ws).bytes) vs := by
  induction ws generalizing start with
  | nil => simp [placedFrom, textOf]
  | cons w ws ih => simp [placedFrom, textOf, ih, Nat.add_assoc]

theorem Word.le_of_mem_placedFrom {start : Nat} {ws : List Word} :
    ∀ p ∈ placedFrom start ws, start ≤ p.start := by
  induction ws generalizing start with
  | nil => simp [placedFrom]
  | cons w ws ih =>
    rw [placedFrom]
    exact List.forall_mem_cons.2
      ⟨Nat.le_refl _, fun p hp => (Nat.le_add_right ..).trans (ih p hp)⟩

theorem Word.pairwise_placedFrom (start : Nat) (ws : List Word) :
    (placedFrom start ws).Pairwise fun p q => p.stop ≤ q.start := by
  induction ws generalizing start with
  | nil => exact .nil
  | cons w ws ih =>
    rw [placedFrom]
    exact .cons (fun q hq => le_of_mem_placedFrom q hq) (ih _)

mutual

theorem Tree.text_eq_yield (t : Tree) : t.text = Word.textOf t.yield := by
  cases t with
  | token k s => simp [Tree.text, Tree.yield, Word.textOf]
  | node k ts =>
    rw [Tree.text, Tree.yield]
    exact Forest.text_eq_yield ts

theorem Forest.text_eq_yield (ts : Forest) : Forest.text ts = Word.textOf (Forest.yield ts) := by
  cases ts with
  | nil => simp [Forest.text, Word.textOf]
  | cons t ts =>
    have ht := Tree.text_eq_yield t
    have hts := Forest.text_eq_yield ts
    simp only [Word.textOf] at ht hts
    rw [Forest.text, Forest.yield_cons, Word.textOf, List.flatMap_append, ht, hts]

end

mutual

/-- The placed tokens of a tree are its yield at its places. -/
theorem Tree.tokens_leavesFrom (t : Tree) (start : Nat) :
    (t.leavesFrom start).filterMap Leaf.token? = Word.placedFrom start t.yield := by
  cases t with
  | token k s => simp [Tree.leavesFrom, Tree.yield, Leaf.token?, Word.placedFrom]
  | node k ts =>
    cases ts with
    | nil => simp [Tree.leavesFrom, Leaf.token?, Word.placedFrom]
    | cons t ts =>
      rw [Tree.leavesFrom, Tree.yield_node, ← Forest.tokens_leavesFrom (t :: ts), Forest.leavesFrom]

theorem Forest.tokens_leavesFrom (ts : Forest) (start : Nat) :
    (Forest.leavesFrom start ts).filterMap Leaf.token? = Word.placedFrom start (Forest.yield ts) := by
  cases ts with
  | nil => simp [Forest.leavesFrom, Word.placedFrom]
  | cons t ts =>
    rw [Forest.leavesFrom, List.filterMap_append, Tree.tokens_leavesFrom t,
      Forest.tokens_leavesFrom ts, Forest.yield_cons, Word.placedFrom_append, ← Tree.text_eq_yield,
      Tree.bytes_text]

end

theorem Tree.tokens_eq_yield (t : Tree) : t.tokens = Word.placedFrom 0 t.yield :=
  t.tokens_leavesFrom 0

/-- No token of a tree starts before an earlier one ends. -/
theorem Tree.pairwise_tokens (t : Tree) : t.tokens.Pairwise fun p q => p.stop ≤ q.start := by
  rw [t.tokens_eq_yield]
  exact Word.pairwise_placedFrom 0 t.yield

/-! ### Errors -/

namespace Forest

@[simp] theorem hasError_nil : hasError [] = false := by rw [hasError]

@[simp] theorem hasError_cons (t : Tree) (ts : Forest) :
    hasError (t :: ts) = (t.hasError || hasError ts) := by
  rw [hasError]

@[simp] theorem hasError_append (ts us : Forest) :
    hasError (ts ++ us) = (hasError ts || hasError us) := by
  induction ts with
  | nil => simp
  | cons t ts ih => simp [ih, Bool.or_assoc]

theorem hasError_eq_false_iff {ts : Forest} :
    hasError ts = false ↔ ∀ t ∈ ts, t.hasError = false := by
  induction ts with
  | nil => simp
  | cons t ts ih => simp [ih]

end Forest

@[simp] theorem Tree.hasError_node (k : Kind) (ts : Forest) :
    (Tree.node k ts).hasError = (k == .error || Forest.hasError ts) := by
  rw [Tree.hasError]

@[simp] theorem Tree.hasError_missing : Tree.missing.hasError = true := by simp [Tree.missing]

mutual

/-- An error among the leaves is an error of the tree. -/
theorem Tree.hasError_of_mem_yield (t : Tree) {w : Word} (h : w ∈ t.yield) (hw : w.1 = .error) :
    t.hasError := by
  cases t with
  | token k s =>
    rw [Tree.yield, List.mem_singleton] at h
    subst h
    simpa [Tree.hasError] using hw
  | node k ts =>
    rw [Tree.yield_node] at h
    rw [Tree.hasError_node, Forest.hasError_of_mem_yield ts h hw, Bool.or_true]

theorem Forest.hasError_of_mem_yield (ts : Forest) {w : Word} (h : w ∈ Forest.yield ts)
    (hw : w.1 = .error) : Forest.hasError ts := by
  cases ts with
  | nil => simp at h
  | cons t ts =>
    rw [Forest.yield_cons] at h
    rw [Forest.hasError_cons, Bool.or_eq_true]
    rcases List.mem_append.1 h with h | h
    · exact .inl (Tree.hasError_of_mem_yield t h hw)
    · exact .inr (Forest.hasError_of_mem_yield ts h hw)

end

end ScriptTree
