import ScriptTree.Proofs.Statement.Simulation
import ScriptTree.Token.Lexer

namespace ScriptTree

def SameFront (m : Nat) (l l' : List Token) : Prop :=
  (l.take m).map Token.word = (l'.take m).map Token.word

namespace SameFront

variable {m : Nat} {l l' : List Token}

theorem of_getElem? (h : ∀ k < m, l[k]?.map Token.word = l'[k]?.map Token.word) :
    SameFront m l l' := by
  refine List.ext_getElem? fun k => ?_
  simp only [List.getElem?_map, List.getElem?_take]
  by_cases hk : k < m
  · simpa only [hk, if_true] using h k hk
  · simp only [hk, if_false]

theorem exists_cons {t : Token} (h : SameFront (m + 1) (t :: l) l') :
    ∃ t' r, l' = t' :: r ∧ t'.word = t.word ∧ SameFront m l r := by
  cases l' with
  | nil => simp [SameFront] at h
  | cons t' r =>
    simp only [SameFront, List.take_succ_cons, List.map_cons, List.cons.injEq] at h
    exact ⟨t', r, rfl, h.1.symm, h.2⟩

theorem eq_nil (h : SameFront m [] l') (hm : 0 < m) : l' = [] := by
  cases l' with
  | nil => rfl
  | cons t' r =>
    obtain ⟨m, rfl⟩ : ∃ k, m = k + 1 := ⟨m - 1, by omega⟩
    simp [SameFront] at h

theorem takeWhile {p : Token → Bool} (hp : ∀ {t u : Token}, t.word = u.word → p t = p u)
    (h : SameFront m l l') (hm : (l.takeWhile p).length < m) :
    (l'.takeWhile p).map Token.word = (l.takeWhile p).map Token.word ∧
      SameFront (m - (l.takeWhile p).length) (l.dropWhile p) (l'.dropWhile p) := by
  induction l generalizing m l' with
  | nil =>
    obtain rfl := h.eq_nil (by omega)
    exact ⟨rfl, h⟩
  | cons t l ih =>
    obtain ⟨m, rfl⟩ : ∃ k, m = k + 1 := ⟨m - 1, by omega⟩
    obtain ⟨t', r, rfl, ht, hr⟩ := h.exists_cons
    rw [List.takeWhile_cons] at hm ⊢
    rw [List.takeWhile_cons, List.dropWhile_cons, List.dropWhile_cons, hp ht]
    by_cases hpt : p t
    · simp only [hpt, if_true, List.length_cons, List.map_cons, ht] at hm ⊢
      obtain ⟨htake, hdrop⟩ := ih hr (by omega)
      exact ⟨by rw [htake], by rwa [Nat.add_sub_add_right]⟩
    · simp only [hpt, Bool.false_eq_true, if_false]
      exact ⟨trivial, h⟩

theorem append {p p' : List Token} (hp : p.map Token.word = p'.map Token.word)
    (h : SameFront m l l') : SameFront (p.length + m) (p ++ l) (p' ++ l') := by
  have hlen := congrArg List.length hp
  simp only [List.length_map] at hlen
  unfold SameFront at h ⊢
  rw [List.take_length_add_append, List.map_append, hp, h, hlen, List.take_length_add_append,
    List.map_append]

end SameFront

namespace Cursor

/-- Two cursors at the same place that see the same words before a bound. -/
structure Agrees (bound : Nat) (c d : Cursor) : Prop where
  pending : c.pending.map Token.word = d.pending.map Token.word
  taken : d.taken = c.taken
  examined : d.examined = c.examined
  depth : d.depth = c.depth
  rest : SameFront (bound - c.taken) c.rest d.rest

def Follows (bound : Nat) (r s : Forest × Cursor) : Prop := s.1 = r.1 ∧ Agrees bound r.2 s.2

theorem map_tree_eq {ts us : List Token} (h : ts.map Token.word = us.map Token.word) :
    us.map Token.tree = ts.map Token.tree := by
  have htree : Token.tree = (fun w : Word => Tree.token w.1 w.2) ∘ Token.word := rfl
  rw [htree, ← List.map_map, ← List.map_map, h]

theorem length_eq_of_map_word {ts us : List Token} (h : ts.map Token.word = us.map Token.word) :
    us.length = ts.length := by
  have := congrArg List.length h
  simpa using this.symm

namespace Agrees

variable {bound : Nat} {c d : Cursor}

theorem exists_rest (h : Agrees bound c d) (hb : c.taken < bound) {t : Token} {r : List Token}
    (hr : c.rest = t :: r) :
    ∃ t' r', d.rest = t' :: r' ∧ t'.word = t.word ∧ SameFront (bound - (c.taken + 1)) r r' := by
  have hrest := h.rest
  rw [hr, show bound - c.taken = bound - (c.taken + 1) + 1 by omega] at hrest
  exact hrest.exists_cons

theorem kind (h : Agrees bound c d) (hb : c.taken < bound) : d.kind = c.kind := by
  cases hr : c.rest with
  | nil =>
    have hrest := h.rest
    rw [hr] at hrest
    rw [kind_eq_eof hr, kind_eq_eof (hrest.eq_nil (by omega))]
  | cons t r =>
    obtain ⟨t', r', hr', ht, -⟩ := h.exists_rest hb hr
    rw [kind_eq_of_rest hr, kind_eq_of_rest hr']
    exact congrArg Prod.fst ht

theorem passWhile {p : Token → Bool} (hp : ∀ {t u : Token}, t.word = u.word → p t = p u)
    (h : Agrees bound c d) (hb : (c.passWhile p).examined ≤ bound) :
    Agrees bound (c.passWhile p) (d.passWhile p) := by
  have hle := (Nat.le_max_right c.examined (c.taken + (c.rest.takeWhile p).length + 1)).trans hb
  obtain ⟨htake, hdrop⟩ := h.rest.takeWhile hp (by omega)
  have hlen := length_eq_of_map_word htake.symm
  refine ⟨?_, ?_, ?_, h.depth, ?_⟩
  · simp only [Cursor.passWhile, List.map_append, h.pending, htake]
  · simp only [Cursor.passWhile, h.taken, hlen]
  · simp only [Cursor.passWhile, h.taken, hlen, h.examined]
  · simp only [Cursor.passWhile]
    rwa [Nat.sub_sub] at hdrop

theorem skips_congr {n : Nat} {t u : Token} (h : t.word = u.word) : skips n t = skips n u := by
  have hk : t.kind = u.kind := congrArg Prod.fst h
  unfold skips
  rw [hk]

theorem skip (h : Agrees bound c d) (hb : c.skip.examined ≤ bound) : Agrees bound c.skip d.skip := by
  have := h.passWhile (p := skips c.depth) skips_congr hb
  unfold Cursor.skip
  rwa [h.depth]

theorem flush (h : Agrees bound c d) : Follows bound c.flush d.flush :=
  ⟨map_tree_eq h.pending, rfl, h.taken, h.examined, h.depth, h.rest⟩

theorem past (h : Agrees bound c d) (n : Nat) {r r' : List Token}
    (hr : SameFront (bound - (c.taken + 1)) r r') : Agrees bound (c.past n r) (d.past n r') :=
  ⟨rfl, by simp [Cursor.past, h.taken], h.examined, rfl, hr⟩

theorem past_skip (h : Agrees bound c d) (n : Nat) {t : Token} {r : List Token}
    (hr : c.rest = t :: r) (hb : (c.past n r).skip.examined ≤ bound) :
    ∃ t' r', d.rest = t' :: r' ∧ t'.word = t.word ∧
      Follows bound (c.pending.map Token.tree ++ [t.tree], (c.past n r).skip)
        (d.pending.map Token.tree ++ [t'.tree], (d.past n r').skip) := by
  have hlt : c.taken < bound := by
    have := (Nat.le_max_right c.examined _).trans hb
    simp only [Cursor.past] at this
    omega
  obtain ⟨t', r', hr', ht, hsame⟩ := h.exists_rest hlt hr
  refine ⟨t', r', hr', ht, ?_, (h.past n hsame).skip hb⟩
  have htree : t'.tree = t.tree := congrArg (fun w : Word => Tree.token w.1 w.2) ht
  rw [map_tree_eq h.pending, htree]

theorem peek (h : Agrees bound c d) (hb : c.peek.2.examined ≤ bound) (hne : c.kind ≠ .eof) :
    d.peek.1 = c.peek.1 ∧ Agrees bound c.peek.2 d.peek.2 := by
  obtain ⟨t, r, hr, -⟩ := Cursor.exists_rest hne
  have hle := (Nat.le_max_right c.examined _).trans hb
  simp only [hr, List.tail_cons] at hle
  obtain ⟨t', r', hr', ht, hsame⟩ := h.exists_rest (by omega) hr
  obtain ⟨htake, hdrop⟩ := hsame.takeWhile (p := skips c.depth) skips_congr (by omega)
  have hlen := length_eq_of_map_word htake.symm
  refine ⟨?_, h.pending, h.taken, ?_, h.depth, h.rest⟩
  · simp only [Cursor.peek, hr, hr', List.tail_cons, h.depth]
    cases hx : r.dropWhile (skips c.depth) with
    | nil =>
      rw [hx] at hdrop
      rw [hdrop.eq_nil (by omega)]
    | cons u us =>
      rw [hx, show bound - (c.taken + 1) - (r.takeWhile (skips c.depth)).length =
        bound - (c.taken + 1) - (r.takeWhile (skips c.depth)).length - 1 + 1 by omega] at hdrop
      obtain ⟨u', us', hx', hu, -⟩ := hdrop.exists_cons
      rw [hx']
      exact congrArg Prod.fst hu
  · simp only [Cursor.peek, hr, hr', List.tail_cons, h.depth, h.taken, h.examined, hlen]

theorem reread (h : Agrees bound c d) (hready : c.Ready) (n : Nat)
    (hb : (c.reread n).examined ≤ bound) : Agrees bound (c.reread n) (d.reread n) := by
  have hlen := length_eq_of_map_word h.pending
  have hp := hready.pending_le
  have hlt := hready.lt_examined.trans_le ((Nat.le_max_left c.examined _).trans hb)
  refine skip ⟨rfl, ?_, h.examined, rfl, ?_⟩ hb
  · simp only [h.taken, hlen]
  · have happ := h.rest.append h.pending
    rwa [show c.pending.length + (bound - c.taken) = bound - (c.taken - c.pending.length) by omega]
      at happ

theorem kind_of_ready (h : Agrees bound c d) (hready : c.Ready) (hb : c.examined ≤ bound) :
    d.kind = c.kind := h.kind (hready.lt_examined.trans_le hb)

end Agrees

end Cursor

namespace Expression

open Cursor (Agrees)

variable {bound : Nat} {c d : Cursor}

theorem looked_follows (h : Agrees bound c d) (hready : c.Ready)
    (hb : (looked c).examined ≤ bound) :
    startsNamed d = startsNamed c ∧ Agrees bound (looked c) (looked d) := by
  have hkind := h.kind_of_ready hready ((looked_moves c).examined.trans hb)
  unfold looked startsNamed at *
  rw [hkind]
  by_cases hk : c.kind = .identifier
  · simp only [hk, if_true] at hb ⊢
    obtain ⟨hpeek, hagrees⟩ := h.peek hb (hk.trans_ne (by decide))
    exact ⟨by rw [hpeek], hagrees⟩
  · simp only [hk, if_false, decide_false, Bool.false_and] at hb ⊢
    exact ⟨trivial, h⟩

/-- Cursors that agree, of which the first has not examined anything beyond the bound. -/
structure InStep (bound : Nat) (c d : Cursor) : Prop where
  agrees : Agrees bound c d
  ready : c.Ready
  le : c.examined ≤ bound

namespace InStep

theorem kind (h : InStep bound c d) : d.kind = c.kind := h.agrees.kind_of_ready h.ready h.le

theorem of_moves {c' d' : Cursor} {f : Forest} (h : InStep bound c d) (hm : Cursor.Moves c f c')
    (hb : c'.examined ≤ bound) (ha : Agrees bound c' d') : InStep bound c' d' :=
  ⟨ha, (hm.ready h.ready).1, hb⟩

/-- Steps that examine nothing beyond the bound are the same for a cursor that agrees. -/
theorem simulation (bound : Nat) :
    Simulation (InStep bound) (fun f f' => f' = f) (fun c => c.examined ≤ bound) where
  back h hb := h.examined.trans hb
  kind h := h.kind
  depth h := h.agrees.depth
  flush h := ⟨h.agrees.flush.1, h.of_moves (Cursor.flush_moves _) h.le h.agrees.flush.2⟩
  take n h hr hb := by
    obtain ⟨u, l, hl, -, htrees, hagrees⟩ := h.agrees.past_skip n hr hb
    exact ⟨u, l, hl, htrees, h.of_moves (Cursor.past_skip_moves hr n) hb hagrees⟩
  reread n h hb :=
    h.of_moves (Cursor.reread_moves _ n) hb (h.agrees.reread h.ready n hb)
  looked h hb := by
    obtain ⟨hsame, hagrees⟩ := looked_follows h.agrees h.ready hb
    exact ⟨hsame, h.of_moves (looked_moves _) hb hagrees⟩
  nil := rfl
  append hf hg := by rw [hf, hg]
  node k hf := by rw [hf]
  named hf := by rw [hf]

end InStep

end Expression

namespace Statement

open Expression (InStep)

variable {bound : Nat} {c d : Cursor}

theorem ends_congr {n : Nat} {t u : Token} (h : t.word = u.word) :
    Cursor.ends n t = Cursor.ends n u := by
  have hk : t.kind = u.kind := congrArg Prod.fst h
  unfold Cursor.ends
  rw [hk]

/-- The last token that is no trivia is told by the words. -/
theorem dropTrailing_congr {ts us : List Token} (h : ts.map Token.word = us.map Token.word) :
    (Cursor.dropTrailing ts).map Token.word = (Cursor.dropTrailing us).map Token.word := by
  have hrev (l : List Token) : (Cursor.dropTrailing l).map Token.word =
      ((l.map Token.word).reverse.dropWhile fun w => w.1.isTrivia).reverse := by
    simp only [Cursor.dropTrailing, ← List.map_reverse, List.dropWhile_map]
    rfl
  rw [hrev, hrev, h]

theorem junk_inStep (h : InStep bound c d) (hb : c.junk.2.examined ≤ bound) :
    d.junk.1 = c.junk.1 ∧ InStep bound c.junk.2 d.junk.2 := by
  have hle := (Nat.le_max_right c.examined _).trans hb
  have hends (n : Nat) {t u : Token} (htu : t.word = u.word) :
      (!Cursor.ends n t) = !Cursor.ends n u := by rw [ends_congr htu]
  obtain ⟨htake, hdrop⟩ := h.agrees.rest.takeWhile (p := fun t => !Cursor.ends c.depth t)
    (hends c.depth) (by omega)
  have hlen := Cursor.length_eq_of_map_word htake.symm
  have hbody := dropTrailing_congr htake
  have hbodyLen := Cursor.length_eq_of_map_word hbody.symm
  have hagrees : Cursor.Agrees bound c.junk.2 d.junk.2 := by
    refine ⟨?_, ?_, ?_, h.agrees.depth, ?_⟩
    · simp only [Cursor.junk, h.agrees.depth, List.map_drop, htake, hbodyLen]
    · simp only [Cursor.junk, h.agrees.depth, h.agrees.taken, hlen]
    · simp only [Cursor.junk, h.agrees.depth, h.agrees.taken, h.agrees.examined, hlen]
    · simp only [Cursor.junk, h.agrees.depth]
      rwa [Nat.sub_sub] at hdrop
  refine ⟨?_, h.of_moves c.junk_moves hb hagrees⟩
  simp only [Cursor.junk, h.agrees.depth, Cursor.map_tree_eq h.agrees.pending,
    Cursor.map_tree_eq hbody.symm]

theorem ending_follows (h : InStep bound c d) : Cursor.Follows bound (ending c) (ending d) := by
  by_cases hk : c.kind = .newline ∨ c.kind = .semicolon
  · obtain ⟨t, r, hr, -, hending⟩ := exists_ending hk
    obtain ⟨t', r', hr', ht, hsame⟩ :=
      h.agrees.exists_rest (h.ready.lt_examined.trans_le h.le) hr
    obtain ⟨u, l, hl, -, hending'⟩ := exists_ending (c := d) (h.kind ▸ hk)
    obtain ⟨rfl, rfl⟩ := List.cons.inj (hr'.symm.trans hl)
    have htree : t'.tree = t.tree := congrArg (fun w : Word => Tree.token w.1 w.2) ht
    rw [hending, hending', h.agrees.depth]
    refine ⟨?_, h.agrees.past _ hsame⟩
    rw [Cursor.map_tree_eq h.agrees.pending, htree]
  · rw [ending_eq_flush hk, ending_eq_flush (h.kind ▸ hk)]
    exact h.agrees.flush

theorem examined_ending (c : Cursor) : (ending c).2.examined = c.examined := by
  by_cases hk : c.kind = .newline ∨ c.kind = .semicolon
  · obtain ⟨t, r, -, -, hending⟩ := exists_ending hk
    rw [hending]
    rfl
  · rw [ending_eq_flush hk]
    rfl

theorem examined_le_finish (c : Cursor) : c.examined ≤ (finish c).2.examined := by
  obtain ⟨f, c', hj, hmoves, -, -⟩ := exists_junk c
  unfold finish
  simp only [hj, examined_ending]
  exact hmoves.examined

theorem finish_follows (h : InStep bound c d) (hb : (finish c).2.examined ≤ bound) :
    Cursor.Follows bound (finish c) (finish d) := by
  unfold finish at hb ⊢
  rw [(InStep.simulation bound).atTerminator h]
  simp only [examined_ending] at hb
  by_cases ht : c.atTerminator
  · simp only [ht, if_true, List.nil_append]
    exact ending_follows h
  · simp only [ht, Bool.false_eq_true, if_false] at hb ⊢
    obtain ⟨htrees, hjunk⟩ := junk_inStep h hb
    obtain ⟨htrees', hagrees⟩ := ending_follows hjunk
    exact ⟨by simp only [htrees, htrees'], hagrees⟩

theorem start_inStep {tokens us : List Token} (h : SameFront bound tokens us)
    (hb : (Cursor.start tokens).examined ≤ bound) :
    InStep bound (.start tokens) (.start us) := by
  have hkind {t u : Token} (htu : t.word = u.word) : t.kind.isTrivia = u.kind.isTrivia := by
    rw [show t.kind = u.kind from congrArg Prod.fst htu]
  have hzero : Cursor.Agrees bound ⟨tokens, [], 0, 0, 0⟩ ⟨us, [], 0, 0, 0⟩ :=
    ⟨rfl, rfl, rfl, rfl, h⟩
  exact ⟨hzero.passWhile hkind hb, (Cursor.start_ready tokens).1, hb⟩

/-- Tokens with the same words as far as a statement was examined start with the same statement. -/
theorem parse?_of_sameFront {tokens us rest : List Token} {first : Nat} {s : Statement}
    (h : parse? tokens first = some (s, rest)) (hsame : SameFront s.examined tokens us)
    (first' : Nat) :
    parse? us first' = some ({ s with first := first' }, us.drop s.count) := by
  obtain ⟨hall, k, f, c, hbody, rfl, rfl⟩ := exists_of_parse? h
  have hb := Nat.le_max_left (finish c).2.examined (finish c).2.taken
  have hbc := (examined_le_finish c).trans hb
  have hstart := start_inStep hsame (hbody.moves.examined.trans hbc)
  obtain ⟨f', d, hbody', rfl, hd⟩ := hbody.simulated (InStep.simulation _) hstart hbc
  obtain ⟨htrees, hagrees⟩ := finish_follows hd hb
  -- The first token that is no trivia is among the tokens that are the same.
  have hall' : ¬us.all fun t => t.kind.isTrivia := by
    obtain ⟨t, r, hr, ht⟩ := Cursor.exists_rest_start hall
    obtain ⟨t', r', hr', hword, -⟩ :=
      hstart.agrees.exists_rest (hstart.ready.lt_examined.trans_le hstart.le) hr
    have hmem : t' ∈ us := by
      rw [← Cursor.ahead_start us, Cursor.ahead, hr']
      simp
    intro hus
    have htrivia := List.all_eq_true.1 hus t' hmem
    rw [show t'.kind = t.kind from congrArg Prod.fst hword, ht] at htrivia
    exact absurd htrivia (by simp)
  obtain ⟨hready, hlen⟩ := Cursor.start_ready us
  obtain ⟨ts, hts, -⟩ := hbody'.moves.ahead
  obtain ⟨hready', hlen'⟩ := hbody'.moves.ready hready
  obtain ⟨⟨vs, hvs, -⟩, hlen''⟩ := finish_split hready'
  rw [Cursor.ahead_start] at hts
  have hus : us = (ts ++ vs) ++ (finish d).2.rest := by rw [hts, hvs, List.append_assoc]
  have hcount : (finish c).2.taken = (ts ++ vs).length := by
    have := congrArg List.length hus
    rw [List.length_append] at this
    have := hagrees.taken
    omega
  rw [parse?_eq hall' first' hbody', htrees, hagrees.taken, hagrees.examined]
  have hdrop : us.drop (finish c).2.taken = (finish d).2.rest := by
    rw [hcount, hus, List.drop_left]
  rw [hdrop]

/-- A statement depends on no tokens but those that were examined for it: wherever the same words
stand, and the tokens end where they ended, the same statement is parsed. -/
theorem parse_of_examined {ts us rest : List Token} {i j : Nat} {s : Statement}
    (h : parse? (ts.drop i) i = some (s, rest))
    (hsame : ∀ k < s.examined, ts[i + k]?.map Token.word = us[j + k]?.map Token.word) :
    ∃ s' rest', parse? (us.drop j) j = some (s', rest') ∧ s'.tree = s.tree ∧ s'.count = s.count ∧
      s'.examined = s.examined ∧ s'.first = j ∧ rest' = us.drop (j + s.count) := by
  have hfront : SameFront s.examined (ts.drop i) (us.drop j) := by
    refine .of_getElem? fun k hk => ?_
    rw [List.getElem?_drop, List.getElem?_drop]
    exact hsame k hk
  exact ⟨_, _, parse?_of_sameFront h hfront j, rfl, rfl, rfl, rfl, List.drop_drop⟩

/-- A statement before another one is found again before an open bracket. -/
theorem parse_of_examined_line :
    let ts := Lexer.tokens "a\nb".toList
    let us := Lexer.tokens "x = 1\na\n# c\n(".toList
    let s : Statement := ⟨0, 2, 2, .node .expressionStatement
      [.token .identifier ['a'], .token .newline ['\n']]⟩
    parse? (ts.drop 0) 0 = some (s, ts.drop 2) ∧
      (∀ k < s.examined, ts[0 + k]?.map Token.word = us[6 + k]?.map Token.word) ∧
      ∃ s' rest', parse? (us.drop 6) 6 = some (s', rest') ∧ s'.tree = s.tree ∧ s'.count = s.count ∧
        s'.examined = s.examined ∧ s'.first = 6 ∧ rest' = us.drop (6 + s.count) := by
  intro ts us s
  have h : parse? (ts.drop 0) 0 = some (s, ts.drop 2) := by decide +kernel
  have hsame : ∀ k < s.examined, ts[0 + k]?.map Token.word = us[6 + k]?.map Token.word := by
    decide +kernel
  exact ⟨h, hsame, parse_of_examined h hsame⟩

end Statement

end ScriptTree
