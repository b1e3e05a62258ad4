import Mathlib.Data.List.TakeWhile
import ScriptTree.Proofs.Tree.Yield
import ScriptTree.Statement.Expression

namespace ScriptTree

namespace Cursor

/-- The tokens that are not in the tree yet. -/
def ahead (c : Cursor) : List Token := c.pending ++ c.rest

/-- The cursor has examined its current token, and the trivia that it keeps back lies among the
tokens that it has passed. -/
structure Ready (c : Cursor) : Prop where
  pending_le : c.pending.length ≤ c.taken
  lt_examined : c.taken < c.examined
  trivia : ∀ t ∈ c.pending, t.kind.isTrivia

/-- On the way from one cursor to the other the trees were made of exactly the tokens that were
passed, pending ones not counted. -/
structure Moves (c : Cursor) (f : Forest) (c' : Cursor) : Prop where
  ahead : ∃ ts, c.ahead = ts ++ c'.ahead ∧ Forest.yield f = ts.map Token.word
  examined : c.examined ≤ c'.examined
  ready : c.Ready → c'.Ready ∧ c'.taken + c'.rest.length = c.taken + c.rest.length

namespace Moves

variable {c c₁ c₂ : Cursor} {f g : Forest}

theorem refl (c : Cursor) : Moves c [] c := ⟨⟨[], rfl, by simp⟩, Nat.le_refl _, fun h => ⟨h, rfl⟩⟩

theorem trans (h : Moves c f c₁) (h' : Moves c₁ g c₂) : Moves c (f ++ g) c₂ where
  ahead := by
    obtain ⟨ts, ha, hf⟩ := h.ahead
    obtain ⟨us, ha', hg⟩ := h'.ahead
    exact ⟨ts ++ us, by rw [ha, ha', List.append_assoc], by simp [hf, hg]⟩
  examined := h.examined.trans h'.examined
  ready hr := by
    obtain ⟨hr₁, ht₁⟩ := h.ready hr
    obtain ⟨hr₂, ht₂⟩ := h'.ready hr₁
    exact ⟨hr₂, ht₂.trans ht₁⟩

theorem of_yield (h : Moves c f c₁) (hg : Forest.yield g = Forest.yield f) : Moves c g c₁ where
  ahead := by
    obtain ⟨ts, ha, hf⟩ := h.ahead
    exact ⟨ts, ha, hg.trans hf⟩
  examined := h.examined
  ready := h.ready

theorem node (h : Moves c f c₁) (k : Kind) : Moves c [.node k f] c₁ := h.of_yield (by simp)

theorem missing (h : Moves c f c₁) : Moves c (f ++ [.missing]) c₁ := h.of_yield (by simp)

theorem length_ahead_le (h : Moves c f c₁) : c₁.ahead.length ≤ c.ahead.length := by
  obtain ⟨ts, ha, -⟩ := h.ahead
  rw [ha, List.length_append]
  omega

end Moves

theorem isTrivia_of_skips {d : Nat} {t : Token} (h : skips d t) : t.kind.isTrivia := by
  unfold skips at h
  split at h
  · rename_i hk
    rw [hk]
    rfl
  · exact h

theorem length_rest_le_ahead (c : Cursor) : c.rest.length ≤ c.ahead.length := by
  rw [ahead, List.length_append]
  omega

theorem exists_rest {c : Cursor} (h : c.kind ≠ .eof) : ∃ t r, c.rest = t :: r ∧ t.kind = c.kind := by
  unfold kind at h ⊢
  split at h
  · exact absurd rfl h
  · rename_i t r hr
    rw [hr]
    exact ⟨t, r, rfl, rfl⟩

theorem kind_eq_of_rest {c : Cursor} {t : Token} {r : List Token} (h : c.rest = t :: r) :
    c.kind = t.kind := by
  unfold kind
  rw [h]

theorem kind_eq_eof {c : Cursor} (h : c.rest = []) : c.kind = .eof := by
  unfold kind
  rw [h]

/-! ### Single steps -/

@[simp] theorem ahead_passWhile (p : Token → Bool) (c : Cursor) : (c.passWhile p).ahead = c.ahead := by
  simp [ahead, passWhile]

@[simp] theorem ahead_skip (c : Cursor) : c.skip.ahead = c.ahead := ahead_passWhile _ c

theorem flush_moves (c : Cursor) : Moves c c.flush.1 c.flush.2 where
  ahead := ⟨c.pending, rfl, by simp [flush]⟩
  examined := Nat.le_refl _
  ready h := ⟨⟨Nat.zero_le _, h.lt_examined, nofun⟩, rfl⟩

theorem peek_moves (c : Cursor) : Moves c [] c.peek.2 where
  ahead := ⟨[], rfl, by simp⟩
  examined := Nat.le_max_left ..
  ready h := ⟨⟨h.pending_le, Nat.lt_of_lt_of_le h.lt_examined (Nat.le_max_left ..), h.trivia⟩, rfl⟩

theorem flush_eq {c : Cursor} (h : c.pending = []) : c.flush = ([], c) := by
  cases c
  cases h
  rfl

@[simp] theorem kind_flush (c : Cursor) : c.flush.2.kind = c.kind := rfl

def past (c : Cursor) (depth : Nat) (r : List Token) : Cursor :=
  ⟨r, [], c.taken + 1, c.examined, depth⟩

theorem take_eq {c : Cursor} {t : Token} {r : List Token} (h : c.rest = t :: r) :
    c.take = (c.pending.map Token.tree ++ [t.tree], c.past c.depth r) := by
  unfold take
  rw [h]
  rfl

theorem bump_eq {c : Cursor} {t : Token} {r : List Token} (h : c.rest = t :: r) :
    c.bump = (c.pending.map Token.tree ++ [t.tree], (c.past (depthAfter c.depth t.kind) r).skip) := by
  have hk := kind_eq_of_rest h
  have ht := take_eq (c := { c with depth := depthAfter c.depth c.kind }) h
  unfold bump
  rw [ht, hk]
  rfl

theorem past_skip_moves {c : Cursor} {t : Token} {r : List Token} (h : c.rest = t :: r) (d : Nat) :
    Moves c (c.pending.map Token.tree ++ [t.tree]) (c.past d r).skip where
  ahead := by
    refine ⟨c.pending ++ [t], ?_, by simp⟩
    rw [ahead_skip]
    simp [ahead, past, h]
  examined := Nat.le_max_left ..
  ready hr := by
    have hlen := congrArg List.length (List.takeWhile_append_dropWhile (p := skips d) (l := r))
    rw [List.length_append] at hlen
    refine ⟨⟨?_, ?_, ?_⟩, ?_⟩
    · simp only [skip, passWhile, past, List.nil_append]
      omega
    · simp only [skip, passWhile, past]
      omega
    · intro x hx
      simp only [skip, passWhile, past, List.nil_append] at hx
      exact isTrivia_of_skips (List.mem_takeWhile_imp hx)
    · simp only [skip, passWhile, past, h, List.length_cons]
      omega

theorem bump_moves {c : Cursor} (h : c.kind ≠ .eof) : Moves c c.bump.1 c.bump.2 := by
  obtain ⟨t, r, hr, -⟩ := exists_rest h
  rw [bump_eq hr]
  exact past_skip_moves hr _

theorem Ready.flush {c : Cursor} (h : c.Ready) : c.flush.2.Ready := (c.flush_moves.ready h).1

theorem Ready.bump {c : Cursor} (h : c.Ready) (hne : c.kind ≠ .eof) : c.bump.2.Ready :=
  ((bump_moves hne).ready h).1

/-- Behind the current token less is ahead than there was from it on. -/
theorem length_ahead_bump_lt {c : Cursor} (h : c.kind ≠ .eof) :
    c.bump.2.ahead.length < c.rest.length := by
  obtain ⟨t, r, hr, -⟩ := exists_rest h
  rw [bump_eq hr, ahead_skip]
  simp [ahead, past, hr]

theorem reread_moves (c : Cursor) (d : Nat) : Moves c [] (c.reread d) where
  ahead := ⟨[], by rw [reread, ahead_skip]; rfl, by simp⟩
  examined := Nat.le_max_left ..
  ready h := by
    have hp := h.pending_le
    have hlen := congrArg List.length
      (List.takeWhile_append_dropWhile (p := skips d) (l := c.pending ++ c.rest))
    simp only [List.length_append] at hlen
    refine ⟨⟨?_, ?_, ?_⟩, ?_⟩
    · simp only [reread, skip, passWhile, List.nil_append]
      omega
    · simp only [reread, skip, passWhile]
      omega
    · intro x hx
      simp only [reread, skip, passWhile, List.nil_append] at hx
      exact isTrivia_of_skips (List.mem_takeWhile_imp hx)
    · simp only [reread, skip, passWhile]
      omega

theorem close_moves (c : Cursor) {k : Kind} (hk : k ≠ .eof) : Moves c (c.close k).1 (c.close k).2 := by
  unfold close
  split
  · rename_i h
    exact bump_moves (by rw [h]; exact hk)
  · exact (reread_moves c _).missing

end Cursor

namespace Expression

open Cursor (Moves)

theorem unexpected_moves (c : Cursor) : Moves c [(unexpected c).1] (unexpected c).2 := by
  unfold unexpected
  split
  · exact (Moves.refl c).missing
  · rename_i h
    have hk : c.kind ≠ .eof := by
      intro he
      simp [Cursor.atAnchor, he] at h
    obtain ⟨t, r, hr, -⟩ := Cursor.exists_rest hk
    rw [Cursor.take_eq hr]
    exact (Cursor.past_skip_moves hr _).node .error

theorem skipNested_moves (fuel opened : Nat) (c : Cursor) :
    Moves c (skipNested fuel opened c).1 (skipNested fuel opened c).2 := by
  fun_induction skipNested fuel opened c with
  | case1 => exact .refl _
  | case2 => exact .refl _
  | case3 fuel opened c k hk trees c₁ hb more c₂ hs ih =>
    have hne : c.kind ≠ .eof := by
      intro he
      simp [k, he] at hk
    have := Cursor.bump_moves hne
    rw [hb] at this
    rw [hs] at ih
    exact this.trans ih

theorem tooDeep_moves (c : Cursor) : Moves c [(tooDeep c).1] (tooDeep c).2 :=
  (skipNested_moves _ _ c).node .error

end Expression

end ScriptTree
