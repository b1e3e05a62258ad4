import ScriptTree.Proofs.Ast.Reading
import ScriptTree.Proofs.Grammar.Binding

namespace ScriptTree

namespace Grammar

open Cursor (Spells)
open Expression (Join Unary Item Goal Parses)

/-! ### Single words -/

def isMark (k : Kind) : Bool := !k.isLiteral && k != .error && k != .eof

theorem isMark_of_isOperator {k : Kind} (h : k.isOperator || k.isKeyword) : isMark k := by
  revert h
  cases k <;> decide

theorem isOperator_of_joins {j : Join} {k : Kind} (h : j.joins k) : k.isOperator || k.isKeyword := by
  cases j <;> simp only [Join.joins, Bool.or_eq_true, decide_eq_true_eq] at h <;>
    rcases h with (rfl | rfl) | rfl <;> rfl

theorem isOperator_of_starts {u : Unary} {k : Kind} (h : u.starts k) :
    k.isOperator || k.isKeyword := by
  cases u <;> simp only [Unary.starts, Bool.or_eq_true, decide_eq_true_eq] at h
  · rw [h]
    rfl
  · rcases h with rfl | rfl <;> rfl

theorem isOperator_of_isComparison {k : Kind} (h : k.isComparison) : k.isOperator || k.isKeyword := by
  revert h
  cases k <;> decide

theorem isMark_of_bracket {k : Kind} (h : k.isOpening ∨ k.isClosing) : isMark k := by
  revert h
  cases k <;> decide

theorem bump_fst {c : Cursor} {w : Word} (h : c.rest.head?.map Token.word = some w) :
    c.bump.1 = c.pending.map Token.tree ++ [.token w.1 w.2] := by
  obtain ⟨t, r, hr, rfl⟩ := Cursor.exists_rest_of_head? h
  rw [Cursor.bump_eq hr]
  rfl

theorem ready_bump {c : Cursor} (hr : c.Ready) (hne : c.kind ≠ .eof) : c.bump.2.Ready :=
  ((Cursor.bump_moves hne).ready hr).1

theorem ready_flush {c : Cursor} (hr : c.Ready) : c.flush.2.Ready := (c.flush_moves.ready hr).1

structure Marks (k : Kind) (ws : List Word) (c c' : Cursor) : Prop where
  kind : c.kind = k
  ready : c.bump.2.Ready
  shows : Shows c.bump.1 {}
  spells : Spells ws c.bump.2 c'
  eq : c.bump.1 = c.pending.map Token.tree ++ [.token k.word.1 k.word.2]

theorem marks_of_spells {k : Kind} {ws : List Word} {c c' : Cursor} (hr : c.Ready) (hk : isMark k)
    (h : Spells (k.word :: ws) c c') : Marks k ws c c' := by
  simp only [isMark, Bool.and_eq_true, Bool.not_eq_true', bne_iff_ne] at hk
  have hkind : c.kind = k := Cursor.kind_of_head? h.1
  have heq := bump_fst h.1
  refine ⟨hkind, ready_bump hr (hkind.trans_ne hk.2), ?_, h.2, heq⟩
  rw [heq]
  exact (shows_trivia hr.trivia).append (shows_token hk.1.1 hk.1.2 _)

theorem Marks.operator? {k : Kind} {ws : List Word} {c c' : Cursor} (h : Marks k ws c c')
    (hr : c.Ready) (hk : k.isOperator || k.isKeyword) (g : Forest) :
    Forest.operator? (c.bump.1 ++ g) = some k.word := by
  rw [h.eq]
  exact operator?_trivia hr.trivia (w := k.word) hk g

theorem close_of_spells {k : Kind} {c c' : Cursor} (h : Spells [k.word] c c') :
    c.close k = c.bump ∧ c' = c.bump.2 :=
  ⟨if_pos (Cursor.kind_of_head? h.1), h.2⟩

/-! ### Phrases -/

/-- Words are parsed as a phrase, unless what stands behind them takes hold of them. -/
def Complete : Nat → PhraseSort → List Word → Phrase → Prop
  | 0, _, _, _ => False
  | n + 1, s, ws, p => ∀ ⦃c c' : Cursor⦄, c.Ready → c.pending = [] → Spells ws c c' →
      grip c'.kind < openLimit s → ∃ t, Parses n (openGoal s) c [t] c' ∧ Shows [t] { phrases := [p] }

section Complete

variable {n : Nat} {s : PhraseSort} {ws : List Word} {p : Phrase} {c c' : Cursor}

/-- Where no nesting is left, no words are a phrase. -/
theorem Complete.exists_level (h : Complete n s ws p) : ∃ m, n = m + 1 := by
  cases n with
  | zero => exact h.elim
  | succ m => exact ⟨m, rfl⟩

theorem Complete.closed (h : Complete (n + 1) s ws p) (hr : c.Ready) (hp : c.pending = [])
    (hs : Spells ws c c') (hk : grip c'.kind < closedLimit s) :
    ∃ t, Parses n (closedGoal s) c [t] c' ∧ Shows [t] { phrases := [p] } := by
  obtain ⟨t, ht, hshows⟩ := h hr hp hs (hk.trans_le (closedLimit_le_openLimit s))
  exact ⟨t, parses_closed ht hk, hshows⟩

theorem Complete.nested (h : Complete n s ws p) (hr : c.Ready) (hp : c.pending = [])
    (hs : Spells ws c c') (hk : grip c'.kind < closedLimit s) :
    ∃ t, Parses n (.nested (closedGoal s)) c [t] c' ∧ Shows [t] { phrases := [p] } := by
  obtain ⟨n, rfl⟩ := h.exists_level
  obtain ⟨t, ht, hshows⟩ := h.closed hr hp hs hk
  exact ⟨t, .nested ht, hshows⟩

theorem exists_operand {g : Goal} (hr : c.Ready)
    (h : ∃ t, Parses n g c.flush.2 [t] c' ∧ Shows [t] { phrases := [p] }) :
    ∃ f, Parses n (.operand g) c f c' ∧ Shows f { phrases := [p] } := by
  obtain ⟨t, ht, hshows⟩ := h
  exact ⟨_, .operand ht, (shows_trivia hr.trivia).append hshows⟩

theorem Complete.operand (h : Complete (n + 1) s ws p) (hne : ws ≠ []) (hr : c.Ready)
    (hs : Spells ws c c') (hk : grip c'.kind < closedLimit s) :
    ∃ f, Parses n (.operand (closedGoal s)) c f c' ∧ Shows f { phrases := [p] } :=
  exists_operand hr (h.closed (ready_flush hr) rfl ((Cursor.spells_flush hne).2 hs) hk)

theorem Complete.nestedOperand (h : Complete n s ws p) (hne : ws ≠ []) (hr : c.Ready)
    (hs : Spells ws c c') (hk : grip c'.kind < closedLimit s) :
    ∃ f, Parses n (.operand (.nested (closedGoal s))) c f c' ∧ Shows f { phrases := [p] } :=
  exists_operand hr (h.nested (ready_flush hr) rfl ((Cursor.spells_flush hne).2 hs) hk)

end Complete

/-! ### Items -/

structure Part where
  words : List Word
  keyword : Bool
  content : Content

def contentOf : List Part → Content
  | [] => {}
  | x :: xs => x.content ++ contentOf xs

/-- An item is parsed between commas, unless it has no name and comes after one that has. -/
structure Part.Fits (n : Nat) (item : Item) (x : Part) : Prop where
  ne_nil : x.words ≠ []
  parses : ∀ ⦃named : Bool⦄ ⦃c c' : Cursor⦄, (named → x.keyword) → c.Ready → c.pending = [] →
    Spells x.words c c' → Ends c'.kind → Opens .conditional c.kind ∧
      ∃ t, Parses n (item.goal named) c [t] c' ∧ Shows [t] x.content ∧
        (t.kind == .keywordArgument) = x.keyword

theorem Content.append_empty (x : Content) : x ++ {} = x := by
  show Content.mk _ _ _ _ = x
  simp

theorem listed_comma {w : List Word} {parts : List (List Word)} {trailing : Bool}
    (h : parts = [] → trailing) :
    listed (w :: parts) trailing = w ++ Kind.comma.word :: listed parts trailing := by
  cases parts with
  | nil => simp [listed, h rfl]
  | cons v parts => rfl

theorem Part.Fits.slot {n : Nat} {item : Item} {x : Part} (h : x.Fits n item) {named : Bool}
    (hnamed : named → x.keyword) {c c' : Cursor} (hr : c.Ready) (hs : Spells x.words c c')
    (hend : Ends c'.kind) :
    Opens .conditional c.kind ∧ ∃ f, Parses n (.slot item named) c f c' ∧ Shows f x.content ∧
      (f.any (·.kind == .keywordArgument)) = x.keyword := by
  obtain ⟨hopens, t, ht, hshows, hkind⟩ := h.parses hnamed (ready_flush hr) rfl
    ((Cursor.spells_flush h.ne_nil).2 hs) hend
  rw [Cursor.kind_flush] at hopens
  refine ⟨hopens, _, .item (hopens.ne (by decide)) (.operand ht),
    (shows_trivia hr.trivia).append hshows, ?_⟩
  have htrivia : (c.flush.1.any (·.kind == .keywordArgument)) = false := by
    rw [List.any_eq_false]
    intro u hu
    obtain ⟨v, hv, rfl⟩ := List.mem_map.1 hu
    have hv' := hr.trivia v hv
    intro hk
    rw [show v.kind = .keywordArgument from beq_iff_eq.1 hk] at hv'
    exact absurd hv' (by decide)
  rw [List.any_append, htrivia, List.any_cons, List.any_nil, hkind, Bool.or_false, Bool.false_or]

theorem parses_items {n : Nat} {close : Kind} (hclose : close.isClosing) {item : Item}
    {xs : List Part} (hfits : ∀ x ∈ xs, x.Fits n item)
    (hsorted : xs.Pairwise fun x y => x.keyword → y.keyword) (named : Bool)
    (hnamed : named → ∀ x ∈ xs, x.keyword) {trailing : Bool} {c c' : Cursor} (hr : c.Ready)
    (hs : Spells (listed (xs.map Part.words) trailing) c c') (hk : c'.kind = close) :
    ∃ f, Parses n (.items close item named) c f c' ∧ Shows f (contentOf xs) := by
  induction xs generalizing named c with
  | nil =>
    obtain rfl : c' = c := hs
    exact ⟨[], .itemsEnd (.inl hk), shows_nil⟩
  | cons x xs ih =>
    have hx := hfits x List.mem_cons_self
    have hxs : ∀ y ∈ xs, y.Fits n item := fun y hy => hfits y (List.mem_cons_of_mem _ hy)
    have hnamed' : named → x.keyword := fun h => hnamed h x List.mem_cons_self
    rw [List.pairwise_cons] at hsorted
    have hbegin {d : Cursor} (h : Opens .conditional d.kind) :
        ¬(d.kind = close ∨ d.kind = .eof) :=
      not_or.2 ⟨h.ne (not_opens_of_isClosing hclose), h.ne (by decide)⟩
    by_cases hlast : xs = [] ∧ trailing = false
    · -- The last item, with no comma behind it.
      obtain ⟨rfl, rfl⟩ := hlast
      rw [List.map_cons, List.map_nil, listed_single] at hs
      have hcomma : c'.kind ≠ .comma := by
        rw [hk]
        rintro rfl
        exact absurd hclose (by decide)
      obtain ⟨hopens, f, hf, hshows, -⟩ := hx.slot hnamed' hr hs (.inr (hk ▸ hclose))
      refine ⟨f, .itemsLast (hbegin hopens) hf hcomma, ?_⟩
      rw [contentOf, contentOf, Content.append_empty]
      exact hshows
    · rw [List.map_cons, listed_comma (fun h => by
        cases trailing with
        | true => rfl
        | false => exact absurd ⟨List.map_eq_nil_iff.1 h, rfl⟩ hlast)] at hs
      obtain ⟨c₁, hw, hrest⟩ := hs.split
      have hcomma : c₁.kind = .comma := Cursor.kind_of_head? hrest.1
      obtain ⟨hopens, f, hf, hshows, hany⟩ := hx.slot hnamed' hr hw (.inl hcomma)
      have hmark := marks_of_spells (hf.moves.ready hr).1 rfl hrest
      obtain ⟨g, hg, hshows'⟩ := ih hxs hsorted.2
        (named || f.any (·.kind == .keywordArgument))
        (fun h y hy => by
          rw [hany, Bool.or_eq_true] at h
          rcases h with h | h
          · exact hnamed h y (List.mem_cons_of_mem _ hy)
          · exact hsorted.1 y hy h)
        hmark.ready hmark.spells
      refine ⟨_, .itemsMore (hbegin hopens) hf hcomma hg, ?_⟩
      have hall := (hshows.append hmark.shows).append hshows'
      rw [Content.append_empty] at hall
      exact hall

theorem parses_enclosed {n : Nat} (kind : Kind) {opening close : Kind} (hopen : opening.isOpening)
    (hclose : close.isClosing) {item : Item} {xs : List Part} (hfits : ∀ x ∈ xs, x.Fits n item)
    (hsorted : xs.Pairwise fun x y => x.keyword → y.keyword) {trailing : Bool} {c c' : Cursor}
    (hr : c.Ready) (hs : Spells (bracketed opening close (listed (xs.map Part.words) trailing)) c c') :
    ∃ f, Parses n (.enclosed kind close item) c [.node kind f] c' ∧ Shows f (contentOf xs) := by
  have hmark := marks_of_spells hr (isMark_of_bracket (.inl hopen)) hs
  obtain ⟨c₁, hitems, hend⟩ := hmark.spells.split
  have hkind : c₁.kind = close := Cursor.kind_of_head? hend.1
  obtain ⟨f, hf, hshows⟩ := parses_items hclose hfits hsorted false (by simp)
    hmark.ready hitems hkind
  have hmark' := marks_of_spells (hf.moves.ready hmark.ready).1 (isMark_of_bracket (.inr hclose)) hend
  obtain ⟨hbump, rfl⟩ := close_of_spells hend
  have hparse : Parses n (.enclosed kind close item) c _ _ :=
    .enclosed (hmark.kind ▸ hopen) hclose hf
  rw [hbump] at hparse
  refine ⟨_, hparse, ?_⟩
  have hall := (hmark.shows.append hshows).append hmark'.shows
  rw [Content.append_empty] at hall
  exact hall

theorem Shows.kind_ne {t : Tree} {p : Phrase} (h : Shows [t] { phrases := [p] }) :
    (t.kind == .keywordArgument) = false := by
  rw [beq_eq_false_iff_ne]
  intro hk
  cases t with
  | token k x =>
    obtain rfl : k = .keywordArgument := hk
    exact absurd h.isLiteral (by decide)
  | node k f =>
    obtain rfl : k = .keywordArgument := hk
    exact h.ne_part rfl f rfl

def plainPart (x : List Word × Phrase) : Part := ⟨x.1, false, { phrases := [x.2] }⟩

def entryPart (e : Entry) : Part := ⟨e.text, false, { pairs := [(e.key, e.value)] }⟩

def namedPart (a : NamedArgument) : Part := ⟨a.text, true, { named := [(a.name, a.value)] }⟩

section Parts

variable {n : Nat}

theorem plainPart_fits {x : List Word × Phrase} (hd : Derives n .conditional x.1 x.2)
    (h : Complete n .conditional x.1 x.2) : (plainPart x).Fits n .plain where
  ne_nil := hd.words.ne_nil
  parses named c c' _ hr hp hs hend := by
    obtain ⟨t, ht, hshows⟩ := h.nested hr hp hs (by rw [hend.grip]; decide)
    exact ⟨hd.opens_kind hs, t, ht, hshows, hshows.kind_ne⟩

theorem entryPart_fits {e : Entry} (hkey : Derives n .conditional e.keyWords e.key)
    (hvalue : Derives n .conditional e.valueWords e.value)
    (h : Complete n .conditional e.keyWords e.key)
    (h' : Complete n .conditional e.valueWords e.value) : (entryPart e).Fits n .pair where
  ne_nil := by simp [entryPart, Entry.text]
  parses named c c' _ hr hp hs hend := by
    obtain ⟨c₁, hs₁, hs₂⟩ := Spells.split hs
    have hcolon : c₁.kind = .colon := Cursor.kind_of_head? hs₂.1
    obtain ⟨t, ht, hshows⟩ := h.nested hr hp hs₁ (by rw [hcolon]; decide)
    have hmark := marks_of_spells (ht.moves.ready hr).1 rfl hs₂
    obtain ⟨f, hf, hshows'⟩ := h'.nestedOperand hvalue.words.ne_nil hmark.ready hmark.spells
      (by rw [hend.grip]; decide)
    have hall := (hshows.append hmark.shows).append hshows'
    exact ⟨hkey.opens_kind hs₁, _, .pair ht hcolon hf, shows_pair hall, rfl⟩

/-- A name with an equals sign behind it starts no phrase. -/
theorem not_startsNamed {ws : List Word} (h : Whole ws) {c c' : Cursor} (hs : Spells ws c c')
    (hend : Ends c'.kind) : Expression.startsNamed c = false := by
  rw [Bool.eq_false_iff]
  intro hnamed
  obtain ⟨-, heq⟩ := Expression.startsNamed_iff.1 hnamed
  match ws, hs with
  | [w], hs =>
    obtain rfl : c' = c.bump.2 := hs.2
    rw [heq] at hend
    rcases hend with hend | hend
    · cases hend
    · exact absurd hend (by decide)
  | w :: v :: ws, hs =>
    have hv : c.bump.2.kind = v.1 := Cursor.kind_of_head? hs.2.1
    exact h.front v (by simp) (hv ▸ heq)
  | [], _ => exact h.ne_nil rfl

theorem positional_fits {x : List Word × Phrase} (hd : Derives n .conditional x.1 x.2)
    (h : Complete n .conditional x.1 x.2) : (plainPart x).Fits n .argument where
  ne_nil := hd.words.ne_nil
  parses named c c' hnamed hr hp hs hend := by
    obtain rfl : named = false := by simpa [plainPart] using hnamed
    have hlooked : (Expression.looked c).pending = [] := by
      unfold Expression.looked
      split <;> exact hp
    obtain ⟨t, ht, hshows⟩ := h.nested ((Expression.looked_moves c).ready hr).1 hlooked
      ((Cursor.spells_looked hd.words.ne_nil).2 hs) (by rw [hend.grip]; decide)
    exact ⟨hd.opens_kind hs, t, .positional (not_startsNamed hd.words hs hend) ht, hshows,
      hshows.kind_ne⟩

theorem namedPart_fits {a : NamedArgument} (hd : Derives n .conditional a.words a.value)
    (h : Complete n .conditional a.words a.value) : (namedPart a).Fits n .argument where
  ne_nil := by simp [namedPart, NamedArgument.text]
  parses named c c' _ hr hp hs hend := by
    have hname : c.kind = .identifier := Cursor.kind_of_head? hs.1
    have hr₁ := ready_bump hr (hname.trans_ne (by decide))
    have hmark := marks_of_spells hr₁ rfl hs.2
    obtain ⟨f, hf, hshows⟩ := h.nestedOperand hd.words.ne_nil hmark.ready hmark.spells
      (by rw [hend.grip]; decide)
    have hbump : c.bump.1 = [.token .identifier a.name] := by
      rw [bump_fst hs.1, hp]
      rfl
    have hparse : Parses n (.argument named) c _ c' :=
      .keyword (Expression.startsNamed_iff.2 ⟨hname, hmark.kind⟩) hf
    rw [hbump] at hparse
    have hall := ((shows_name a.name).append hmark.shows).append hshows
    exact ⟨.inl (by rw [hname]; rfl), _, hparse, shows_keyword hall rfl, rfl⟩

end Parts

/-! ### What items show together -/

theorem Content.append_assoc (x y z : Content) : x ++ y ++ z = x ++ (y ++ z) := by
  show Content.mk _ _ _ _ = Content.mk _ _ _ _
  simp only [HAppend.hAppend, Append.append, Content.mk.injEq]
  exact ⟨List.append_assoc .., List.append_assoc .., List.append_assoc .., List.append_assoc ..⟩

theorem contentOf_append (xs ys : List Part) :
    contentOf (xs ++ ys) = contentOf xs ++ contentOf ys := by
  induction xs with
  | nil => rfl
  | cons x xs ih => rw [List.cons_append, contentOf, ih, contentOf, Content.append_assoc]

theorem contentOf_plain (xs : List (List Word × Phrase)) :
    contentOf (xs.map plainPart) = { phrases := xs.map Prod.snd } := by
  induction xs with
  | nil => rfl
  | cons x xs ih =>
    rw [List.map_cons, contentOf, ih]
    rfl

theorem contentOf_entries (es : List Entry) :
    contentOf (es.map entryPart) = { pairs := es.map fun e => (e.key, e.value) } := by
  induction es with
  | nil => rfl
  | cons e es ih =>
    rw [List.map_cons, contentOf, ih]
    rfl

theorem contentOf_named (as : List NamedArgument) :
    contentOf (as.map namedPart) = { named := as.map fun a => (a.name, a.value) } := by
  induction as with
  | nil => rfl
  | cons a as ih =>
    rw [List.map_cons, contentOf, ih]
    rfl

/-! ### Phrases of each sort -/

theorem parses_compared {n : Nat} {more : List (Kind × List Word × Phrase)}
    (hop : ∀ m ∈ more, m.1.isComparison) (hne : ∀ m ∈ more, m.2.1 ≠ [])
    (h : ∀ m ∈ more, Complete (n + 1) (.join .pipeline) m.2.1 m.2.2) {c c' : Cursor} (hr : c.Ready)
    (hs : Spells (more.flatMap fun m => m.1.word :: m.2.1) c c') (hk : grip c'.kind < 4) :
    ∃ f, Parses n .compared c f c' ∧
      Shows f { phrases := more.map fun m => m.2.2, comparisons := more.map Prod.fst } := by
  induction more generalizing c with
  | nil =>
    obtain rfl : c' = c := hs
    refine ⟨[], .comparedEnd (Bool.eq_false_iff.2 fun hcomparison => ?_), shows_nil⟩
    have := grip_of_isComparison hcomparison
    omega
  | cons m more ih =>
    have hm := hop m List.mem_cons_self
    have hoperator := isOperator_of_isComparison hm
    have hop' : ∀ x ∈ more, x.1.isComparison := fun x hx => hop x (List.mem_cons_of_mem _ hx)
    rw [List.flatMap_cons, List.cons_append] at hs
    have hs' : Spells (m.1.word :: (m.2.1 ++ _)) c.flush.2 c' :=
      (Cursor.spells_flush (by simp)).2 hs
    have hmark := marks_of_spells (ready_flush hr) (isMark_of_isOperator hoperator) hs'
    obtain ⟨c₁, hs₁, hs₂⟩ := hmark.spells.split
    have hk₁ : grip c₁.kind < 5 := by
      cases more with
      | nil =>
        obtain rfl : c' = c₁ := hs₂
        omega
      | cons x more =>
        have hkind : c₁.kind = x.1 := Cursor.kind_of_head? hs₂.1
        rw [hkind, grip_of_isComparison (hop' x List.mem_cons_self)]
        decide
    obtain ⟨f, hf, hshows⟩ := (h m List.mem_cons_self).operand (hne m List.mem_cons_self)
      hmark.ready hs₁ hk₁
    obtain ⟨g, hg, hshows'⟩ := ih hop' (fun x hx => hne x (List.mem_cons_of_mem _ hx))
      (fun x hx => h x (List.mem_cons_of_mem _ hx)) (hf.moves.ready hmark.ready).1 hs₂
    refine ⟨_, .comparedMore ?_ hf hg, ?_⟩
    · rw [show c.kind = m.1 from hmark.kind]
      exact hm
    · have hoperator' := hmark.operator? (ready_flush hr) hoperator []
      rw [List.append_nil] at hoperator'
      have hop := shows_comparisonOp hmark.shows.clean hoperator'
      exact ((shows_trivia hr.trivia).append (hop.append hshows)).append hshows'

theorem shows_joined {j : Join} {k : Kind} {p q : Phrase} {f : Forest}
    (h : Shows f { phrases := [p, q] }) (hop : Forest.operator? f = some k.word) :
    Shows [.node j.node f] { phrases := [joinPhrase j k p q] } := by
  cases j with
  | pipeline => exact shows_pipeline h
  | _ => exact shows_binary h hop

theorem sorted_arguments (positional : List (List Word × Phrase)) (named : List NamedArgument) :
    (positional.map plainPart ++ named.map namedPart).Pairwise
      fun x y => x.keyword → y.keyword := by
  rw [List.pairwise_append]
  refine ⟨?_, ?_, ?_⟩
  · rw [List.pairwise_map]
    exact List.pairwise_of_forall fun x y h => absurd h (by simp [plainPart])
  · rw [List.pairwise_map]
    exact List.pairwise_of_forall fun x y _ => rfl
  · intro x _ y hy _
    obtain ⟨a, -, rfl⟩ := List.mem_map.1 hy
    rfl

theorem sorted_of_not_keyword {α : Type} {part : α → Part} (h : ∀ x, (part x).keyword = false)
    (xs : List α) : (xs.map part).Pairwise fun x y => x.keyword → y.keyword := by
  rw [List.pairwise_map]
  exact List.pairwise_of_forall fun x y hx => absurd hx (by simp [h])

section Brackets

variable {n : Nat}

theorem complete_call {w : List Word} {p : Phrase} {positional : List (List Word × Phrase)}
    {named : List NamedArgument} (h : Complete (n + 1) .postfixed w p)
    (hd : ∀ a ∈ positional, Derives n .conditional a.1 a.2)
    (hd' : ∀ a ∈ named, Derives n .conditional a.words a.value)
    (hpositional : ∀ a ∈ positional, Complete n .conditional a.1 a.2)
    (hnamed : ∀ a ∈ named, Complete n .conditional a.words a.value) (trailing : Bool) :
    Complete (n + 1) .postfixed
      (w ++ bracketed .lParen .rParen
        (listed (positional.map Prod.fst ++ named.map NamedArgument.text) trailing))
      (.call p (positional.map Prod.snd) (named.map fun a => (a.name, a.value))) := by
  intro c c' hr hp hs hk
  obtain ⟨c₁, hs₁, hs₂⟩ := hs.split
  have hparen : c₁.kind = .lParen := Cursor.kind_of_head? hs₂.1
  obtain ⟨t, ht, hshows⟩ := h hr hp hs₁ (grip_lt_eleven _)
  have hr₁ := (ht.moves.ready hr).1
  have hwords : (positional.map plainPart ++ named.map namedPart).map Part.words =
      positional.map Prod.fst ++ named.map NamedArgument.text := by
    rw [List.map_append, List.map_map, List.map_map]
    rfl
  rw [← hwords] at hs₂
  obtain ⟨f, hf, hshows'⟩ := parses_enclosed .argumentList rfl rfl
    (fun x hx => by
      rcases List.mem_append.1 hx with hx | hx
      · obtain ⟨a, ha, rfl⟩ := List.mem_map.1 hx
        exact positional_fits (hd a ha) (hpositional a ha)
      · obtain ⟨a, ha, rfl⟩ := List.mem_map.1 hx
        exact namedPart_fits (hd' a ha) (hnamed a ha))
    (sorted_arguments positional named) (ready_flush hr₁)
    ((Cursor.spells_flush (by simp [bracketed])).2 hs₂)
  rw [contentOf_append, contentOf_plain, contentOf_named] at hshows'
  have hcontent : ({ phrases := positional.map Prod.snd } : Content) ++
      { named := named.map fun a => (a.name, a.value) } =
        { phrases := positional.map Prod.snd, named := named.map fun a => (a.name, a.value) } := by
    show Content.mk _ _ _ _ = _
    simp
  rw [hcontent] at hshows'
  exact ⟨_, .call ht hparen (.operand hf), shows_call hshows hr₁.trivia hshows'⟩

theorem complete_paren {w : List Word} {p : Phrase} (hd : Derives n .conditional w p)
    (h : Complete n .conditional w p) :
    Complete (n + 1) .atom (bracketed .lParen .rParen w) (.paren p) := by
  intro c c' hr hp hs hk
  have hmark := marks_of_spells hr rfl hs
  obtain ⟨c₁, hs₁, hend⟩ := hmark.spells.split
  have hkind : c₁.kind = .rParen := Cursor.kind_of_head? hend.1
  have hopens := hd.opens_kind hs₁
  obtain ⟨f, hf, hshows⟩ := h.nestedOperand hd.words.ne_nil hmark.ready hs₁
    (by rw [hkind]; decide)
  have hmark' := marks_of_spells (hf.moves.ready hmark.ready).1 rfl hend
  obtain ⟨hbump, rfl⟩ := close_of_spells hend
  have hparse := Parses.group hmark.kind (hopens.ne (by decide)) hf (hkind.trans_ne (by decide))
  rw [hbump] at hparse
  exact ⟨_, hparse, shows_paren ((hmark.shows.append hshows).append hmark'.shows)⟩

theorem words_plain (parts : List (List Word × Phrase)) :
    (parts.map plainPart).map Part.words = parts.map Prod.fst := by
  rw [List.map_map]
  rfl

theorem complete_tuple {parts : List (List Word × Phrase)}
    (hd : ∀ x ∈ parts, Derives n .conditional x.1 x.2)
    (h : ∀ x ∈ parts, Complete n .conditional x.1 x.2) {trailing : Bool}
    (hone : parts.length = 1 → trailing) :
    Complete (n + 1) .atom (bracketed .lParen .rParen (listed (parts.map Prod.fst) trailing))
      (.tuple (parts.map Prod.snd)) := by
  intro c c' hr hp hs hk
  have hmark := marks_of_spells hr rfl hs
  obtain ⟨c₁, hs₁, hend⟩ := hmark.spells.split
  have hkind : c₁.kind = .rParen := Cursor.kind_of_head? hend.1
  obtain ⟨hbump, rfl⟩ := close_of_spells hend
  cases parts with
  | nil =>
    obtain rfl : c₁ = c.bump.2 := hs₁
    have hmark' := marks_of_spells hmark.ready rfl hend
    have hparse := Parses.emptyTuple (n := n) hmark.kind hkind
    rw [hbump] at hparse
    exact ⟨_, hparse, shows_tuple (hmark.shows.append hmark'.shows)⟩
  | cons x parts =>
    rw [List.map_cons, listed_comma (fun hnil => hone (by
      rw [List.map_eq_nil_iff.1 hnil]
      rfl))] at hs₁
    obtain ⟨c₂, hs₂, hs₃⟩ := hs₁.split
    have hcomma : c₂.kind = .comma := Cursor.kind_of_head? hs₃.1
    have hx := hd x List.mem_cons_self
    obtain ⟨f, hf, hshows⟩ := (h x List.mem_cons_self).nestedOperand hx.words.ne_nil hmark.ready
      hs₂ (by rw [hcomma]; decide)
    have hmark₂ := marks_of_spells (hf.moves.ready hmark.ready).1 rfl hs₃
    rw [← words_plain] at hs₃
    obtain ⟨g, hg, hshows'⟩ := parses_items rfl
      (fun y hy => by
        obtain ⟨z, hz, rfl⟩ := List.mem_map.1 hy
        exact plainPart_fits (hd z (List.mem_cons_of_mem _ hz)) (h z (List.mem_cons_of_mem _ hz)))
      (sorted_of_not_keyword (fun _ => rfl) parts) false (by simp) hmark₂.ready hs₃.2 hkind
    have hmark₁ := marks_of_spells (hg.moves.ready hmark₂.ready).1 rfl hend
    have hparse := Parses.tuple hmark.kind ((hx.opens_kind hs₂).ne (by decide)) hf hcomma hg
    rw [hbump] at hparse
    rw [contentOf_plain] at hshows'
    have hall := (((hmark.shows.append hshows).append hmark₂.shows).append hshows').append
      hmark₁.shows
    rw [Content.append_empty] at hall
    exact ⟨_, hparse, shows_tuple hall⟩

theorem complete_list {parts : List (List Word × Phrase)}
    (hd : ∀ x ∈ parts, Derives n .conditional x.1 x.2)
    (h : ∀ x ∈ parts, Complete n .conditional x.1 x.2) (trailing : Bool) :
    Complete (n + 1) .atom (bracketed .lBracket .rBracket (listed (parts.map Prod.fst) trailing))
      (.list (parts.map Prod.snd)) := by
  intro c c' hr hp hs hk
  have hkind : c.kind = .lBracket := Cursor.kind_of_head? hs.1
  rw [← words_plain] at hs
  obtain ⟨f, hf, hshows⟩ := parses_enclosed .listLiteral rfl rfl
    (fun y hy => by
      obtain ⟨z, hz, rfl⟩ := List.mem_map.1 hy
      exact plainPart_fits (hd z hz) (h z hz))
    (sorted_of_not_keyword (fun _ => rfl) parts) hr hs
  rw [contentOf_plain] at hshows
  exact ⟨_, .list hkind hf, shows_list hshows⟩

theorem complete_dict {entries : List Entry}
    (hd : ∀ e ∈ entries, Derives n .conditional e.keyWords e.key)
    (hd' : ∀ e ∈ entries, Derives n .conditional e.valueWords e.value)
    (h : ∀ e ∈ entries, Complete n .conditional e.keyWords e.key)
    (h' : ∀ e ∈ entries, Complete n .conditional e.valueWords e.value) (trailing : Bool) :
    Complete (n + 1) .atom (bracketed .lBrace .rBrace (listed (entries.map Entry.text) trailing))
      (.dict (entries.map fun e => (e.key, e.value))) := by
  intro c c' hr hp hs hk
  have hkind : c.kind = .lBrace := Cursor.kind_of_head? hs.1
  have hwords : (entries.map entryPart).map Part.words = entries.map Entry.text := by
    rw [List.map_map]
    rfl
  rw [← hwords] at hs
  obtain ⟨f, hf, hshows⟩ := parses_enclosed .dictLiteral rfl rfl
    (fun y hy => by
      obtain ⟨e, he, rfl⟩ := List.mem_map.1 hy
      exact entryPart_fits (hd e he) (hd' e he) (h e he) (h' e he))
    (sorted_of_not_keyword (fun _ => rfl) entries) hr hs
  rw [contentOf_entries] at hshows
  exact ⟨_, .dict hkind hf, shows_dict hshows⟩

end Brackets

theorem parses_literal {n : Nat} {w : Word} {c c' : Cursor} (hp : c.pending = [])
    (hs : Spells [w] c c') (hw : w.1.isLiteral) : Parses n .atom c [.token w.1 w.2] c' := by
  obtain ⟨t, r, hrest, rfl⟩ := Cursor.exists_rest_of_head? hs.1
  obtain rfl : c' = c.bump.2 := hs.2
  exact .literal hp hrest hw

/-- The words of every phrase are parsed as that phrase. -/
theorem Derives.complete {m : Nat} {s : PhraseSort} {ws : List Word} {p : Phrase}
    (h : Derives m s ws p) : Complete m s ws p := by
  induction h with
  | @unconditional n w p h ih =>
    obtain ⟨n, rfl⟩ := ih.exists_level
    intro c c' hr hp hs (hk : grip c'.kind < 1)
    have hk' : grip c'.kind < 2 := by omega
    obtain ⟨t, ht, hshows⟩ := ih.closed hr hp hs hk'
    exact ⟨t, .unconditional ht (ne_of_grip hk (by decide)), hshows⟩
  | @conditional n w p v q u r body condition alternative ih ih₁ ih₂ =>
    obtain ⟨n, rfl⟩ := ih.exists_level
    intro c c' hr hp hs (hk : grip c'.kind < 1)
    have hk' : grip c'.kind < 2 := by omega
    obtain ⟨c₂, hs₁, hs₂⟩ := hs.split
    obtain ⟨c₁, hs₀, hs₁⟩ := hs₁.split
    have hif : c₁.kind = .ifKw := Cursor.kind_of_head? hs₁.1
    have helse : c₂.kind = .elseKw := Cursor.kind_of_head? hs₂.1
    obtain ⟨t, ht, hshows⟩ := ih.closed hr hp hs₀ (by rw [hif]; decide)
    have hmark := marks_of_spells (ht.moves.ready hr).1 rfl hs₁
    obtain ⟨f, hf, hshows₁⟩ := ih₁.operand condition.words.ne_nil hmark.ready hmark.spells
      (by rw [helse]; decide)
    have hmark₂ := marks_of_spells (hf.moves.ready hmark.ready).1 rfl hs₂
    obtain ⟨g, hg, hshows₂⟩ := ih₂.operand alternative.words.ne_nil hmark₂.ready hmark₂.spells hk'
    have hall := (((hshows.append hmark.shows).append hshows₁).append hmark₂.shows).append hshows₂
    exact ⟨_, .conditional ht hif hf helse hg, shows_conditional hall⟩
  | @unjoined n j w p h ih =>
    obtain ⟨n, rfl⟩ := ih.exists_level
    intro c c' hr hp hs hk
    obtain ⟨t, ht, hshows⟩ := ih.closed hr hp hs hk
    rw [closedGoal_operandSort] at ht
    exact ⟨t, .first ht, hshows⟩
  | @joined n j w p k v q left hop right ih ih₁ =>
    obtain ⟨n, rfl⟩ := ih.exists_level
    intro c c' hr hp hs hk
    obtain ⟨c₁, hs₁, hs₂⟩ := hs.split
    have hoperator := isOperator_of_joins hop
    have hkind : c₁.kind = k := Cursor.kind_of_head? hs₂.1
    have hk₁ : grip c₁.kind < openLimit (.join j) := by
      rw [hkind, grip_of_joins hop]
      exact closedLimit_lt_openLimit j
    obtain ⟨t, ht, hshows⟩ := ih hr hp hs₁ hk₁
    have hr₁ := (ht.moves.ready hr).1
    have hmark := marks_of_spells hr₁ (isMark_of_isOperator hoperator) hs₂
    obtain ⟨f, hf, hshows₁⟩ := ih₁.operand right.words.ne_nil hmark.ready hmark.spells hk
    rw [closedGoal_operandSort] at hf
    have hfirst := (hshows.operator?_cons _).trans (hmark.operator? hr₁ hoperator f)
    exact ⟨_, .further ht (hkind ▸ hop) hf,
      shows_joined ((hshows.append hmark.shows).append hshows₁) hfirst⟩
  | @uncompared n w p h ih =>
    obtain ⟨n, rfl⟩ := ih.exists_level
    intro c c' hr hp hs (hk : grip c'.kind < 4)
    have hk' : grip c'.kind < 5 := by omega
    obtain ⟨t, ht, hshows⟩ := ih.closed hr hp hs hk'
    refine ⟨t, .uncompared ht (Bool.eq_false_iff.2 fun hcomparison => ?_), hshows⟩
    have := grip_of_isComparison hcomparison
    omega
  | @compared n w p more first hne hop operands ih ih₁ =>
    obtain ⟨n, rfl⟩ := ih.exists_level
    intro c c' hr hp hs hk
    obtain ⟨c₁, hs₁, hs₂⟩ := hs.split
    have hcomparison : c₁.kind.isComparison := by
      cases more with
      | nil => exact absurd rfl hne
      | cons m more =>
        have hkind : c₁.kind = m.1 := Cursor.kind_of_head? hs₂.1
        rw [hkind]
        exact hop m List.mem_cons_self
    have hk₁ : grip c₁.kind < 5 := by
      rw [grip_of_isComparison hcomparison]
      decide
    obtain ⟨t, ht, hshows⟩ := ih.closed hr hp hs₁ hk₁
    obtain ⟨f, hf, hshows₁⟩ := parses_compared hop
      (fun m hm => (operands m hm).words.ne_nil) ih₁ (ht.moves.ready hr).1 hs₂ hk
    exact ⟨_, .comparison ht hcomparison hf, shows_comparison (hshows.append hshows₁)⟩
  | @plain n u w p h ih =>
    obtain ⟨n, rfl⟩ := ih.exists_level
    intro c c' hr hp hs hk
    rw [← closedLimit_plainSort] at hk
    obtain ⟨t, ht, hshows⟩ := ih.closed hr hp hs hk
    rw [closedGoal_plainSort] at ht
    exact ⟨t, .noUnary (h.opens_kind hs).starts_eq_false ht, hshows⟩
  | @unary n u k w p hop operand ih =>
    intro c c' hr hp hs hk
    have hoperator := isOperator_of_starts hop
    have hmark := marks_of_spells hr (isMark_of_isOperator hoperator) hs
    have hk' : grip c'.kind < closedLimit (.unary u) := hk
    obtain ⟨f, hf, hshows⟩ := ih.nestedOperand operand.words.ne_nil hmark.ready hmark.spells hk'
    exact ⟨_, .unary (hmark.kind ▸ hop) hf,
      shows_unary (w := k.word) (hmark.shows.append hshows) (hmark.operator? hr hoperator f)⟩
  | @base n w p h ih =>
    obtain ⟨n, rfl⟩ := ih.exists_level
    intro c c' hr hp hs (hk : grip c'.kind < 9)
    have hk' : grip c'.kind < 10 := by omega
    obtain ⟨t, ht, hshows⟩ := ih.closed hr hp hs hk'
    exact ⟨t, .noPower ht (ne_of_grip hk (by decide)), hshows⟩
  | @power n w p v q base exponent ih ih₁ =>
    intro c c' hr hp hs hk
    obtain ⟨c₁, hs₁, hs₂⟩ := hs.split
    have hstar : c₁.kind = .starStar := Cursor.kind_of_head? hs₂.1
    obtain ⟨t, ht, hshows⟩ := ih.closed hr hp hs₁ (by rw [hstar]; decide)
    have hr₁ := (ht.moves.ready hr).1
    have hmark := marks_of_spells hr₁ rfl hs₂
    obtain ⟨f, hf, hshows₁⟩ := ih₁.nestedOperand exponent.words.ne_nil hmark.ready hmark.spells hk
    have hfirst := (hshows.operator?_cons _).trans (hmark.operator? hr₁ rfl f)
    exact ⟨_, .power ht hstar hf,
      shows_binary ((hshows.append hmark.shows).append hshows₁) hfirst⟩
  | @bare n w p h ih =>
    obtain ⟨n, rfl⟩ := ih.exists_level
    intro c c' hr hp hs hk
    obtain ⟨t, ht, hshows⟩ := ih hr hp hs (grip_lt_eleven _)
    exact ⟨t, .bare ht, hshows⟩
  | call callee hpositional hnamed trailing ih ih₁ ih₂ =>
    exact complete_call ih hpositional hnamed ih₁ ih₂ trailing
  | @member n w p object field ih =>
    obtain ⟨n, rfl⟩ := ih.exists_level
    intro c c' hr hp hs hk
    obtain ⟨c₁, hs₁, hs₂⟩ := hs.split
    obtain ⟨t, ht, hshows⟩ := ih hr hp hs₁ (grip_lt_eleven _)
    have hr₁ := (ht.moves.ready hr).1
    have hmark := marks_of_spells hr₁ rfl hs₂
    have hname : c₁.bump.2.kind = .identifier := Cursor.kind_of_head? hmark.spells.1
    have hfield : Expression.field c₁.bump.2 = c₁.bump.2.bump := if_pos hname
    obtain rfl : c' = c₁.bump.2.bump.2 := hmark.spells.2
    have hparse := Parses.member ht hmark.kind
    have hbump := bump_fst hmark.spells.1
    have hnames := (shows_trivia hmark.ready.trivia).append (shows_name field)
    rw [hfield, hbump, hmark.eq] at hparse
    have hdot := hmark.shows
    rw [hmark.eq] at hdot
    exact ⟨_, hparse, shows_member ((hshows.append hdot).append hnames)
      (hshows.member?_eq hr₁.trivia hmark.ready.trivia _ field)⟩
  | @name n x =>
    intro c c' hr hp hs hk
    exact ⟨_, parses_literal hp hs rfl, shows_name x⟩
  | @literal n k h hname x =>
    intro c c' hr hp hs hk
    exact ⟨_, parses_literal hp hs h, shows_literal h hname x⟩
  | paren h ih => exact complete_paren h ih
  | tuple h hone ih => exact complete_tuple h ih hone
  | list h trailing ih => exact complete_list h ih trailing
  | dict hkey hvalue trailing ih ih₁ => exact complete_dict hkey hvalue ih ih₁ trailing

end Grammar

end ScriptTree
