import ScriptTree.Proofs.Document.History
import ScriptTree.Proofs.Statement.Simulation

namespace ScriptTree

def Kind.isBlank : Kind → Bool
  | .whitespace | .comment => true
  | _ => false

theorem Kind.isTrivia_of_isBlank {k : Kind} (h : k.isBlank) : k.isTrivia := by
  cases k <;> simp [isBlank, isTrivia] at *

def Tree.isBlank : Tree → Bool
  | .token k _ => k.isBlank
  | .node _ _ => false

mutual

/-- A tree without the white space and the comments in it. -/
def Tree.bare : Tree → Tree
  | .token k s => .token k s
  | .node k ts => .node k (Forest.bare ts)

def Forest.bare : Forest → Forest
  | [] => []
  | t :: ts => if t.isBlank then Forest.bare ts else t.bare :: Forest.bare ts

end

/-- The words of tokens that are no white space and no comments. -/
def bareWords (ts : List Token) : List Word := (ts.filter fun t => !t.kind.isBlank).map Token.word

/-! ### Words -/

@[simp] theorem bareWords_append (ts us : List Token) :
    bareWords (ts ++ us) = bareWords ts ++ bareWords us := by
  simp [bareWords]

theorem bareWords_reverse (ts : List Token) : bareWords ts.reverse = (bareWords ts).reverse := by
  simp [bareWords, List.filter_reverse]

theorem bareWords_cons_of_not {t : Token} (h : t.kind.isBlank = false) (ts : List Token) :
    bareWords (t :: ts) = t.word :: bareWords ts := by
  simp [bareWords, h]

section Passing

variable {p : Kind → Bool} (hp : ∀ k : Kind, k.isBlank → p k)

include hp

theorem blank_or_eq : (fun t : Token => !!t.kind.isBlank || p t.kind) = fun t => p t.kind := by
  funext t
  cases hb : t.kind.isBlank with
  | true => simp [hp _ hb]
  | false => simp

theorem bareWords_takeWhile (ts : List Token) :
    bareWords (ts.takeWhile fun t => p t.kind) = (bareWords ts).takeWhile fun w => p w.1 := by
  rw [bareWords, bareWords, List.takeWhile_map, ← blank_or_eq hp, ← List.takeWhile_filter]
  rfl

theorem bareWords_dropWhile (ts : List Token) :
    bareWords (ts.dropWhile fun t => p t.kind) = (bareWords ts).dropWhile fun w => p w.1 := by
  rw [bareWords, bareWords, List.dropWhile_map, ← blank_or_eq hp, ← List.dropWhile_filter]
  rfl

end Passing

theorem all_isTrivia_eq (ts : List Token) :
    (ts.all fun t => t.kind.isTrivia) = (bareWords ts).all fun w => w.1.isTrivia := by
  induction ts with
  | nil => rfl
  | cons t ts ih =>
    cases hb : t.kind.isBlank with
    | true => simpa [bareWords, hb, Kind.isTrivia_of_isBlank hb] using ih
    | false => rw [bareWords_cons_of_not hb, List.all_cons, List.all_cons, ih]; rfl

namespace Forest

@[simp] theorem bare_nil : bare [] = [] := by rw [bare]

theorem bare_cons (t : Tree) (ts : Forest) :
    bare (t :: ts) = if t.isBlank then bare ts else t.bare :: bare ts := by
  rw [bare]

@[simp] theorem bare_append (ts us : Forest) : bare (ts ++ us) = bare ts ++ bare us := by
  induction ts with
  | nil => simp
  | cons t ts ih =>
    rw [List.cons_append, bare_cons, bare_cons, ih]
    split <;> rfl

@[simp] theorem bare_node (k : Kind) (ts : Forest) : bare [.node k ts] = [.node k (bare ts)] := by
  simp [bare, Tree.bare, Tree.isBlank]

theorem bare_map_tree (ts : List Token) :
    bare (ts.map Token.tree) = (bareWords ts).map fun w => .token w.1 w.2 := by
  induction ts with
  | nil => simp [bareWords]
  | cons t ts ih =>
    rw [List.map_cons, bare_cons, ih]
    cases hb : t.kind.isBlank with
    | true => simp [bareWords, Token.tree, Tree.isBlank, hb]
    | false => simp [bareWords_cons_of_not hb, Token.tree, Tree.isBlank, Tree.bare, hb, Token.word]

theorem any_bare (ts : Forest) :
    (bare ts).any (·.kind == .keywordArgument) = ts.any (·.kind == .keywordArgument) := by
  have hkind (t : Tree) : t.bare.kind = t.kind := by cases t <;> simp [Tree.bare, Tree.kind]
  induction ts with
  | nil => simp
  | cons t ts ih =>
    rw [bare_cons, List.any_cons]
    split
    · rename_i hb
      have hk : t.kind ≠ .keywordArgument := by
        intro hk
        cases t with
        | token k s => simp_all [Tree.isBlank, Tree.kind, Kind.isBlank]
        | node k us => simp [Tree.isBlank] at hb
      simp [ih, hk]
    · rw [List.any_cons, ih, hkind]

end Forest

namespace Cursor

/-- Cursors at the same token or at the end. But for blanks the same lies before them, and the same is
kept back. -/
structure Alike (c d : Cursor) : Prop where
  pending : bareWords c.pending = bareWords d.pending
  rest : bareWords c.rest = bareWords d.rest
  depth : d.depth = c.depth
  left : c.kind.isBlank = false
  right : d.kind.isBlank = false

section Passing

variable {p : Kind → Bool} (hp : ∀ k : Kind, k.isBlank → p k)

include hp

theorem isBlank_kind_passWhile (c : Cursor) :
    (c.passWhile fun t => p t.kind).kind.isBlank = false := by
  cases hr : (c.passWhile fun t => p t.kind).rest with
  | nil => rw [kind_eq_eof hr]; rfl
  | cons t r =>
    rw [kind_eq_of_rest hr]
    have hr' : c.rest.dropWhile (fun t => p t.kind) = t :: r := hr
    -- The token that stops the run is not in the class, hence no blank.
    have hhead := List.head_dropWhile_not (fun t : Token => p t.kind) (by rw [hr']; simp)
    simp only [hr', List.head_cons] at hhead
    cases hb : t.kind.isBlank with
    | true => rw [hp _ hb] at hhead; exact absurd hhead (by simp)
    | false => rfl

/-- To pass over a class of tokens that blanks are in leads to the same token. -/
theorem alike_passWhile {c d : Cursor} (hpending : bareWords c.pending = bareWords d.pending)
    (hrest : bareWords c.rest = bareWords d.rest) (hdepth : d.depth = c.depth) :
    Alike (c.passWhile fun t => p t.kind) (d.passWhile fun t => p t.kind) where
  pending := by
    simp only [passWhile, bareWords_append, bareWords_takeWhile hp, hpending, hrest]
  rest := by simp only [passWhile, bareWords_dropWhile hp, hrest]
  depth := hdepth
  left := isBlank_kind_passWhile hp c
  right := isBlank_kind_passWhile hp d

end Passing

/-- At each depth blanks are passed over. -/
theorem alike_skip {c d : Cursor} (hpending : bareWords c.pending = bareWords d.pending)
    (hrest : bareWords c.rest = bareWords d.rest) (hdepth : d.depth = c.depth) :
    Alike c.skip d.skip := by
  have hp (k : Kind) (hk : k.isBlank) :
      (if k = .newline then decide (0 < c.depth) else k.isTrivia) = true := by
    rw [if_neg (by rintro rfl; simp [Kind.isBlank] at hk), Kind.isTrivia_of_isBlank hk]
  have halike := alike_passWhile hp hpending hrest hdepth
  unfold skip
  rwa [hdepth]

namespace Alike

variable {c d : Cursor}

theorem exists_rest (h : Alike c d) {t : Token} {r : List Token} (hr : c.rest = t :: r) :
    ∃ u l, d.rest = u :: l ∧ u.word = t.word ∧ bareWords r = bareWords l := by
  have hrest := h.rest
  have ht := h.left
  rw [kind_eq_of_rest hr] at ht
  rw [hr, bareWords_cons_of_not ht] at hrest
  cases hl : d.rest with
  | nil => simp [hl, bareWords] at hrest
  | cons u l =>
    have hu := h.right
    rw [kind_eq_of_rest hl] at hu
    rw [hl, bareWords_cons_of_not hu] at hrest
    obtain ⟨hword, hmore⟩ := List.cons.inj hrest
    exact ⟨u, l, rfl, hword.symm, hmore⟩

theorem kind (h : Alike c d) : d.kind = c.kind := by
  cases hr : c.rest with
  | cons t r =>
    obtain ⟨u, l, hl, hword, -⟩ := h.exists_rest hr
    rw [kind_eq_of_rest hr, kind_eq_of_rest hl]
    exact congrArg Prod.fst hword
  | nil =>
    have hrest := h.rest
    rw [kind_eq_eof hr]
    cases hl : d.rest with
    | nil => exact kind_eq_eof hl
    | cons u l =>
      have hu := h.right
      rw [kind_eq_of_rest hl] at hu
      rw [hr, hl, bareWords_cons_of_not hu] at hrest
      simp [bareWords] at hrest

theorem flush (h : Alike c d) :
    Forest.bare c.flush.1 = Forest.bare d.flush.1 ∧ Alike c.flush.2 d.flush.2 := by
  refine ⟨?_, rfl, h.rest, h.depth, h.left, h.right⟩
  simp only [Cursor.flush, Forest.bare_map_tree, h.pending]

theorem take (h : Alike c d) (n : Nat) {t : Token} {r : List Token} (hr : c.rest = t :: r) :
    ∃ u l, d.rest = u :: l ∧
      Forest.bare (c.pending.map Token.tree ++ [t.tree]) =
        Forest.bare (d.pending.map Token.tree ++ [u.tree]) ∧
      bareWords r = bareWords l ∧ Alike (c.past n r).skip (d.past n l).skip := by
  obtain ⟨u, l, hl, hword, hmore⟩ := h.exists_rest hr
  have htree : t.tree = u.tree := (congrArg (fun w : Word => Tree.token w.1 w.2) hword).symm
  refine ⟨u, l, hl, ?_, hmore, alike_skip rfl hmore rfl⟩
  simp only [Forest.bare_append, Forest.bare_map_tree, h.pending, htree]

theorem reread (h : Alike c d) (n : Nat) : Alike (c.reread n) (d.reread n) :=
  alike_skip rfl (by simp only [bareWords_append, h.pending, h.rest]) rfl

theorem startsNamed (h : Alike c d) : Expression.startsNamed d = Expression.startsNamed c := by
  rw [Bool.eq_iff_iff, Expression.startsNamed_iff, Expression.startsNamed_iff, h.kind]
  refine and_congr_right fun hk => ?_
  obtain ⟨t, r, hr, ht⟩ := Cursor.exists_rest (hk.trans_ne (by decide) : c.kind ≠ .eof)
  obtain ⟨u, l, hl, -, -, hnext⟩ := h.take (depthAfter c.depth t.kind) hr
  have hu : u.kind = t.kind := by rw [← kind_eq_of_rest hl, h.kind, ht]
  rw [bump_eq hr, bump_eq hl, hu, h.depth, hnext.kind]

theorem looked (h : Alike c d) : Alike (Expression.looked c) (Expression.looked d) := by
  unfold Expression.looked
  rw [h.kind]
  split
  · exact ⟨h.pending, h.rest, h.depth, h.left, h.right⟩
  · exact h

/-- All steps are the same but for blanks. -/
theorem simulation :
    Simulation Alike (fun f f' => Forest.bare f = Forest.bare f') (fun _ => True) where
  back _ _ := trivial
  kind h := h.kind
  depth h := h.depth
  flush h := h.flush
  take n h hr _ := by
    obtain ⟨u, l, hl, htrees, -, hnext⟩ := h.take n hr
    exact ⟨u, l, hl, htrees, hnext⟩
  reread n h _ := h.reread n
  looked h _ := ⟨h.startsNamed, h.looked⟩
  nil := rfl
  append hf hg := by simp only [Forest.bare_append, hf, hg]
  node k hf := by simp only [Forest.bare_node, hf]
  named {f f'} hf := by rw [← Forest.any_bare, ← hf, Forest.any_bare]

end Alike

/-! ### The end of a statement -/

theorem bareWords_dropTrailing (ts : List Token) :
    bareWords (dropTrailing ts) =
      ((bareWords ts).reverse.dropWhile fun w => w.1.isTrivia).reverse := by
  rw [dropTrailing, bareWords_reverse, bareWords_dropWhile fun k => Kind.isTrivia_of_isBlank,
    bareWords_reverse]

/-- What is left out at the end of tokens is the same but for blanks. -/
theorem bareWords_drop_dropTrailing {ts us : List Token} (h : bareWords ts = bareWords us) :
    bareWords (ts.drop (dropTrailing ts).length) =
      bareWords (us.drop (dropTrailing us).length) := by
  have hsplit (ts : List Token) :
      bareWords ts =
        bareWords (dropTrailing ts) ++ bareWords (ts.drop (dropTrailing ts).length) := by
    rw [← bareWords_append, (append_drop_dropTrailing ts).1]
  have hbody : bareWords (dropTrailing ts) = bareWords (dropTrailing us) := by
    rw [bareWords_dropTrailing, bareWords_dropTrailing, h]
  have heq := h
  rw [hsplit ts, hsplit us, hbody] at heq
  exact List.append_cancel_left heq

theorem Alike.junk {c d : Cursor} (h : Alike c d) :
    Forest.bare c.junk.1 = Forest.bare d.junk.1 ∧ Alike c.junk.2 d.junk.2 := by
  -- No blank ends the junk, so the run is the same but for blanks, and so is what it leaves out.
  have hp (n : Nat) (k : Kind) (hk : k.isBlank) :
      (!(k = .eof || k = .semicolon || (k = .newline && n = 0))) = true := by
    cases k <;> simp [Kind.isBlank] at *
  have hrun : bareWords (c.rest.takeWhile fun t => !ends c.depth t) =
      bareWords (d.rest.takeWhile fun t => !ends c.depth t) := by
    refine (bareWords_takeWhile (hp c.depth) c.rest).trans ?_
    rw [h.rest]
    exact (bareWords_takeWhile (hp c.depth) d.rest).symm
  have hrest : bareWords (c.rest.dropWhile fun t => !ends c.depth t) =
      bareWords (d.rest.dropWhile fun t => !ends c.depth t) := by
    refine (bareWords_dropWhile (hp c.depth) c.rest).trans ?_
    rw [h.rest]
    exact (bareWords_dropWhile (hp c.depth) d.rest).symm
  refine ⟨?_, ?_, ?_, h.depth, ?_, ?_⟩
  · simp only [Cursor.junk, Forest.bare_append, Forest.bare_map_tree, Forest.bare_node, h.pending,
      h.depth, bareWords_dropTrailing, hrun]
  · simp only [Cursor.junk, h.depth]
    exact bareWords_drop_dropTrailing hrun
  · simpa only [Cursor.junk, h.depth] using hrest
  · exact isBlank_kind_passWhile (hp c.depth) c
  · exact isBlank_kind_passWhile (hp d.depth) d

end Cursor

namespace Statement

open Cursor (Alike)

theorem ending_alike {c d : Cursor} (h : Alike c d) :
    Forest.bare (ending c).1 = Forest.bare (ending d).1 ∧
      bareWords (ending c).2.rest = bareWords (ending d).2.rest := by
  by_cases hk : c.kind = .newline ∨ c.kind = .semicolon
  · obtain ⟨t, r, hr, -, hending⟩ := exists_ending hk
    obtain ⟨u, l, hl, -, hending'⟩ := exists_ending (c := d) (h.kind ▸ hk)
    obtain ⟨u', l', hl', htrees, hmore, -⟩ := h.take c.depth hr
    obtain ⟨rfl, rfl⟩ := List.cons.inj (hl'.symm.trans hl)
    rw [hending, hending']
    exact ⟨htrees, hmore⟩
  · rw [ending_eq_flush hk, ending_eq_flush (h.kind ▸ hk)]
    exact ⟨h.flush.1, h.rest⟩

theorem finish_alike {c d : Cursor} (h : Alike c d) :
    Forest.bare (finish c).1 = Forest.bare (finish d).1 ∧
      bareWords (finish c).2.rest = bareWords (finish d).2.rest := by
  unfold finish
  rw [Alike.simulation.atTerminator h]
  by_cases ht : c.atTerminator
  · simp only [ht, if_true, List.nil_append]
    exact ending_alike h
  · simp only [ht, Bool.false_eq_true, if_false]
    obtain ⟨htrees, hjunk⟩ := h.junk
    obtain ⟨htrees', hrest⟩ := ending_alike hjunk
    exact ⟨by simp only [Forest.bare_append, htrees, htrees'], hrest⟩

/-- Tokens that are the same but for blanks start with statements that are the same but for blanks. -/
theorem parse?_alike {ts us rest : List Token} {n : Nat} {s : Statement}
    (h : parse? ts n = some (s, rest)) (hus : bareWords ts = bareWords us) (m : Nat) :
    ∃ s' rest', parse? us m = some (s', rest') ∧
      Forest.bare [s.tree] = Forest.bare [s'.tree] ∧ bareWords rest = bareWords rest' := by
  obtain ⟨hall, k, f, c, hbody, rfl, rfl⟩ := exists_of_parse? h
  rw [all_isTrivia_eq, hus, ← all_isTrivia_eq] at hall
  have hstart : Alike (.start ts) (.start us) :=
    Cursor.alike_passWhile (fun k => Kind.isTrivia_of_isBlank) rfl hus rfl
  obtain ⟨f', d, hbody', hf, hd⟩ := hbody.simulated Alike.simulation hstart trivial
  obtain ⟨htrees, hrest⟩ := finish_alike hd
  refine ⟨_, _, parse?_eq hall m hbody', ?_, hrest⟩
  simp only [Forest.bare_node, Forest.bare_append, hf, htrees]

theorem Sequence.alike {ts us tail : List Token} {n : Nat} {ss : List Statement}
    (h : Sequence ts n ss tail) (hus : bareWords ts = bareWords us) (m : Nat) :
    ∃ ss' tail', Sequence us m ss' tail' ∧
      Forest.bare (ss.map Statement.tree) = Forest.bare (ss'.map Statement.tree) ∧
      bareWords tail = bareWords tail' := by
  induction h generalizing us m with
  | @done ts n h =>
    refine ⟨[], us, .done ?_, rfl, hus⟩
    have hall : ts.all fun t => t.kind.isTrivia := by
      by_contra hall
      rw [parse?, if_neg hall] at h
      simp at h
    rw [all_isTrivia_eq, hus, ← all_isTrivia_eq] at hall
    rw [parse?, if_pos hall]
  | @step ts n s rest ss tail h more ih =>
    obtain ⟨s', rest', h', htree, hrest⟩ := parse?_alike h hus m
    obtain ⟨ss', tail', more', htrees, htail⟩ := ih hrest (m + s'.count)
    refine ⟨s' :: ss', tail', .step h' more', ?_, htail⟩
    have happend := congrArg₂ (· ++ ·) htree htrees
    simpa only [← Forest.bare_append, List.singleton_append, List.map_cons] using happend

end Statement

namespace Document

theorem tree_parse {s : Text} {ss : List Statement} {tail : List Token}
    (h : Statement.Sequence (Lexer.tokens s) 0 ss tail) :
    (parse s).tree = programTree (ss.map Statement.tree) tail := by
  have hparse : Statement.parseAll (Lexer.tokens s) = (ss, tail) :=
    h.parseAllLoop_eq (fun t ht => Lexer.kind_ne_eof_of_mem_tokens ht) (Nat.le_refl _)
  simp only [parse, hparse, assemble]

/-- White space and comments never change structure: texts whose tokens are the same without them
have trees that are the same without them, errors included. -/
theorem bare_parse {s s' : Text} (h : bareWords (Lexer.tokens s) = bareWords (Lexer.tokens s')) :
    (parse s).tree.bare = (parse s').tree.bare := by
  obtain ⟨tail, hseq, htree⟩ := (parse_current s).sequence
  obtain ⟨ss, tail', hseq', htrees, htail⟩ := hseq.alike h 0
  rw [htree, tree_parse hseq']
  simp only [programTree, Tree.bare, Forest.bare_append, Forest.bare_map_tree, htrees, htail]

/-- A call over two lines, a bracket too many and characters that start no token, with blanks and
without them. -/
theorem bare_parse_malformed :
    let s := "f( a, # one\n  b\n) ] ; x  =  ? ! # two".toList
    let s' := "f(a,\nb\n)];x=?!".toList
    bareWords (Lexer.tokens s) = bareWords (Lexer.tokens s') ∧
      (parse s).tree.bare = (parse s').tree.bare := by
  intro s s'
  have h : bareWords (Lexer.tokens s) = bareWords (Lexer.tokens s') := by decide +kernel
  exact ⟨h, bare_parse h⟩

end Document

end ScriptTree
