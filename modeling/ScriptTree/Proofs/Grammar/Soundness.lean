import ScriptTree.Proofs.Document.History
import ScriptTree.Proofs.Grammar.Words

namespace ScriptTree

namespace Cursor

/-- The tokens ahead have the texts that their kinds allow. -/
def Spelled (c : Cursor) : Prop := ∀ t ∈ c.ahead, t.word.Spelled

theorem Spelled.of_moves {c c' : Cursor} {f : Forest} (h : c.Spelled) (hm : Moves c f c') :
    c'.Spelled := by
  obtain ⟨ts, hts, -⟩ := hm.ahead
  intro t ht
  apply h t
  rw [hts]
  exact List.mem_append_right _ ht

/-- The current token is the word of its kind, if the kind has only one spelling. -/
theorem Spelled.spells {c : Cursor} (h : c.Spelled) {k : Kind} (hk : c.kind = k)
    (hfixed : k.spelling?.isSome) : Spells [k.word] c c.bump.2 := by
  have hne : c.kind ≠ .eof := by
    rintro he
    rw [hk] at he
    rw [he] at hfixed
    exact absurd hfixed (by decide)
  obtain ⟨t, r, hr, ht⟩ := exists_rest hne
  obtain ⟨s, hs⟩ := Option.isSome_iff_exists.1 hfixed
  have hkind : t.kind = k := ht.trans hk
  have htext : t.text = s := (h t (by simp [ahead, hr])).text s (by simpa [hkind] using hs)
  refine ⟨?_, rfl⟩
  simp [hr, Token.word, Kind.word, hkind, hs, htext]

/-- A closing bracket that is not missing. -/
theorem close_eq_of_no_error {c : Cursor} {k : Kind} (h : Forest.hasError (c.close k).1 = false) :
    c.kind = k ∧ c.close k = c.bump := by
  unfold close at h ⊢
  split at h
  · rename_i hk
    exact ⟨hk, if_pos hk⟩
  · simp at h

end Cursor

namespace Grammar

open Cursor (Spells)
open Expression (Join Unary Item Goal Parses)

theorem spelling?_of_joins {j : Join} {k : Kind} (h : j.joins k) : k.spelling?.isSome := by
  cases j <;> simp only [Join.joins, Bool.or_eq_true, decide_eq_true_eq] at h <;>
    rcases h with (rfl | rfl) | rfl <;> rfl

theorem spelling?_of_starts {u : Unary} {k : Kind} (h : u.starts k) : k.spelling?.isSome := by
  cases u <;> simp only [Unary.starts, Bool.or_eq_true, decide_eq_true_eq] at h
  · rw [h]
    rfl
  · rcases h with rfl | rfl <;> rfl

theorem spelling?_of_isComparison {k : Kind} (h : k.isComparison) : k.spelling?.isSome := by
  revert h
  cases k <;> decide

theorem spelling?_of_bracket {k : Kind} (h : k.isOpening ∨ k.isClosing) : k.spelling?.isSome := by
  revert h
  cases k <;> decide

/-- Words that the cursor takes are a phrase of a sort. -/
def IsPhrase (n : Nat) (s : PhraseSort) (c c' : Cursor) : Prop :=
  ∃ ws p, Derives n s ws p ∧ Spells ws c c'

def IsItems (n : Nat) : Item → Bool → List Word → Prop
  | .plain, _, ws => ∃ (parts : List (List Word × Phrase)) (trailing : Bool),
      (∀ x ∈ parts, Derives n .conditional x.1 x.2) ∧ ws = listed (parts.map Prod.fst) trailing
  | .pair, _, ws => ∃ (entries : List Entry) (trailing : Bool),
      (∀ e ∈ entries, Derives n .conditional e.keyWords e.key) ∧
      (∀ e ∈ entries, Derives n .conditional e.valueWords e.value) ∧
      ws = listed (entries.map Entry.text) trailing
  | .argument, after, ws => ∃ (positional : List (List Word × Phrase)) (named : List NamedArgument)
      (trailing : Bool), (after → positional = []) ∧
      (∀ a ∈ positional, Derives n .conditional a.1 a.2) ∧
      (∀ a ∈ named, Derives n .conditional a.words a.value) ∧
      ws = listed (positional.map Prod.fst ++ named.map NamedArgument.text) trailing

def IsItem (n : Nat) : Item → Bool → Cursor → Forest → Cursor → Prop
  | .plain, _, c, _, c' => IsPhrase n .conditional c c'
  | .pair, _, c, _, c' => ∃ e : Entry, Derives n .conditional e.keyWords e.key ∧
      Derives n .conditional e.valueWords e.value ∧ Spells e.text c c'
  | .argument, after, c, f, c' => (after = false ∧ IsPhrase n .conditional c c') ∨
      ∃ a : NamedArgument, Derives n .conditional a.words a.value ∧ Spells a.text c c' ∧
        f.any (·.kind == .keywordArgument)

/-- What it means that trees were made for a goal, if there is no error in them. -/
def Meaning : Goal → Nat → Cursor → Forest → Cursor → Prop
  | .nested _, 0, _, _, _ => False
  | .nested g, n + 1, c, f, c' => Meaning g n c f c'
  | .operand g, n, c, f, c' => ∃ t, f = c.flush.1 ++ [t] ∧ Meaning g n c.flush.2 [t] c'
  | .whole, n, c, _, c' => IsPhrase (n + 1) .conditional c c'
  | .join j, n, c, _, c' => IsPhrase (n + 1) (.join j) c c'
  | .chain j, n, c, _, c' => IsPhrase (n + 1) (.join j) c c'
  | .comparison, n, c, _, c' => IsPhrase (n + 1) .comparison c c'
  | .compared, n, c, _, c' => ∃ more : List (Kind × List Word × Phrase),
      (∀ m ∈ more, m.1.isComparison) ∧
      (∀ m ∈ more, Derives (n + 1) (.join .pipeline) m.2.1 m.2.2) ∧
      Spells (more.flatMap fun m => m.1.word :: m.2.1) c c' ∧ (c.kind.isComparison → more ≠ [])
  | .unary u, n, c, _, c' => IsPhrase (n + 1) (.unary u) c c'
  | .power, n, c, _, c' => IsPhrase (n + 1) .power c c'
  | .primary, n, c, _, c' => IsPhrase (n + 1) .postfixed c c'
  | .suffixed, n, c, _, c' => IsPhrase (n + 1) .postfixed c c'
  | .atom, n, c, _, c' => IsPhrase (n + 1) .atom c c'
  | .enclosed _ close item, n, c, _, c' => ∃ ws, IsItems n item false ws ∧
      Spells (bracketed c.kind close ws) c c'
  | .items _ item named, n, c, _, c' => ∃ ws, IsItems n item named ws ∧ Spells ws c c'
  | .slot item named, n, c, f, c' => IsItem n item named c f c'
  | .pair, n, c, f, c' => IsItem n .pair false c f c'
  | .argument named, n, c, f, c' => IsItem n .argument named c f c'
  | .targets, n, c, _, c' => ∃ (parts : List (List Word × Phrase)) (trailing : Bool),
      (∀ x ∈ parts, Derives n .conditional x.1 x.2) ∧
      ∃ ws, Spells ws c c' ∧ ∀ w, w ++ ws = listed (w :: parts.map Prod.fst) trailing

theorem IsPhrase.of_flush {n : Nat} {s : PhraseSort} {c c' : Cursor}
    (h : IsPhrase n s c.flush.2 c') : IsPhrase n s c c' := by
  obtain ⟨ws, p, hd, hs⟩ := h
  exact ⟨ws, p, hd, (Cursor.spells_flush hd.words.ne_nil).1 hs⟩

theorem isPhrase_of_nested {n : Nat} {c c' : Cursor} {f : Forest}
    (h : Meaning (.nested .whole) n c f c') : IsPhrase n .conditional c c' := by
  cases n with
  | zero => exact h.elim
  | succ n => exact h

theorem isPhrase_of_nested_unary {n : Nat} {u : Unary} {c c' : Cursor} {f : Forest}
    (h : Meaning (.nested (.unary u)) n c f c') : IsPhrase n (.unary u) c c' := by
  cases n with
  | zero => exact h.elim
  | succ n => exact h

theorem isPhrase_of_operand {j : Join} {n : Nat} {c c' : Cursor} {f : Forest}
    (h : Meaning j.operand n c f c') : IsPhrase (n + 1) (operandSort j) c c' := by
  cases j <;> exact h

theorem isPhrase_of_below {u : Unary} {n : Nat} {c c' : Cursor} {f : Forest}
    (h : Meaning u.below n c f c') : IsPhrase (n + 1) (plainSort u) c c' := by
  cases u <;> exact h

/-- An operand is a phrase if it is one behind the trivia before it. -/
theorem isPhrase_of_part {g : Goal} {s : PhraseSort} {m n : Nat} {c c' : Cursor} {f : Forest}
    (hg : ∀ {c : Cursor} {t : Tree}, Meaning g n c [t] c' → IsPhrase m s c c')
    (h : Meaning (.operand g) n c f c') : IsPhrase m s c c' := by
  obtain ⟨t, -, ht⟩ := h
  exact (hg ht).of_flush

theorem isItem_of_goal {item : Item} {named : Bool} {n : Nat} {c c' : Cursor} {f : Forest}
    (h : Meaning (item.goal named) n c f c') : IsItem n item named c f c' := by
  cases item with
  | plain => exact isPhrase_of_nested h
  | pair => exact h
  | argument => exact h

theorem IsItem.of_flush {item : Item} {named : Bool} {n : Nat} {c c' : Cursor} {t : Tree}
    (h : IsItem n item named c.flush.2 [t] c') :
    IsItem n item named c (c.flush.1 ++ [t]) c' := by
  cases item with
  | plain => exact IsPhrase.of_flush h
  | pair =>
    obtain ⟨e, hkey, hvalue, hs⟩ := h
    exact ⟨e, hkey, hvalue, (Cursor.spells_flush (by simp [Entry.text])).1 hs⟩
  | argument =>
    rcases h with ⟨hnamed, h⟩ | ⟨a, ha, hs, hany⟩
    · exact .inl ⟨hnamed, h.of_flush⟩
    · refine .inr ⟨a, ha, (Cursor.spells_flush (by simp [NamedArgument.text])).1 hs, ?_⟩
      rw [List.any_append, hany, Bool.or_true]

theorem IsItem.items {item : Item} {named : Bool} {n : Nat} {c c' : Cursor} {f : Forest}
    (h : IsItem n item named c f c') : ∃ ws, IsItems n item named ws ∧ Spells ws c c' := by
  cases item with
  | plain =>
    obtain ⟨ws, p, hd, hs⟩ := h
    exact ⟨ws, ⟨[(ws, p)], false, by simpa using hd, (listed_single ws).symm⟩, hs⟩
  | pair =>
    obtain ⟨e, hkey, hvalue, hs⟩ := h
    exact ⟨e.text, ⟨[e], false, by simpa using hkey, by simpa using hvalue,
      (listed_single _).symm⟩, hs⟩
  | argument =>
    rcases h with ⟨hnamed, ws, p, hd, hs⟩ | ⟨a, ha, hs, hany⟩
    · exact ⟨ws, ⟨[(ws, p)], [], false, by simp [hnamed], by simpa using hd, by simp,
        (listed_single ws).symm⟩, hs⟩
    · exact ⟨a.text, ⟨[], [a], false, by simp, by simp, by simpa using ha,
        (listed_single _).symm⟩, hs⟩

theorem IsItem.cons {item : Item} {named : Bool} {n : Nat} {c c₁ c₂ : Cursor} {f : Forest}
    (h : IsItem n item named c f c₁) (hcomma : Spells [Kind.comma.word] c₁ c₁.bump.2)
    {ws : List Word}
    (hmore : IsItems n item (named || f.any (·.kind == .keywordArgument)) ws)
    (hs : Spells ws c₁.bump.2 c₂) : ∃ vs, IsItems n item named vs ∧ Spells vs c c₂ := by
  have happend {w : List Word} (hw : Spells w c c₁) :
      Spells (w ++ Kind.comma.word :: ws) c c₂ := hw.append (hcomma.append hs)
  cases item with
  | plain =>
    obtain ⟨w, p, hd, hw⟩ := h
    obtain ⟨parts, trailing, hparts, rfl⟩ := hmore
    exact ⟨_, ⟨(w, p) :: parts, _, List.forall_mem_cons.2 ⟨hd, hparts⟩,
      (listed_cons w _ trailing).symm⟩, happend hw⟩
  | pair =>
    obtain ⟨e, hkey, hvalue, hw⟩ := h
    obtain ⟨entries, trailing, hkeys, hvalues, rfl⟩ := hmore
    exact ⟨_, ⟨e :: entries, _, List.forall_mem_cons.2 ⟨hkey, hkeys⟩,
      List.forall_mem_cons.2 ⟨hvalue, hvalues⟩, (listed_cons e.text _ trailing).symm⟩, happend hw⟩
  | argument =>
    obtain ⟨positional, nameds, trailing, hafter, hpositional, hnameds, rfl⟩ := hmore
    rcases h with ⟨rfl, w, p, hd, hw⟩ | ⟨a, ha, hw, hany⟩
    · exact ⟨_, ⟨(w, p) :: positional, nameds, _, by simp,
        List.forall_mem_cons.2 ⟨hd, hpositional⟩, hnameds,
        (listed_cons w _ trailing).symm⟩, happend hw⟩
    · obtain rfl := hafter (by simp [hany])
      exact ⟨_, ⟨[], a :: nameds, _, by simp, by simp, List.forall_mem_cons.2 ⟨ha, hnameds⟩,
        (listed_cons a.text _ trailing).symm⟩, happend hw⟩

theorem spells_bump {c c' : Cursor} {ws : List Word} {k : Kind} (hs : c.Spelled) (hk : c.kind = k)
    (hfixed : k.spelling?.isSome) (h : Spells ws c.bump.2 c') : Spells (k.word :: ws) c c' :=
  (hs.spells hk hfixed).append h

theorem spelled_bump {c : Cursor} (hs : c.Spelled) (hne : c.kind ≠ .eof) : c.bump.2.Spelled :=
  hs.of_moves (Cursor.bump_moves hne)

theorem field_eq_of_no_error {c : Cursor} (h : Forest.hasError (Expression.field c).1 = false) :
    c.kind = .identifier ∧ Expression.field c = c.bump := by
  unfold Expression.field at h ⊢
  split at h
  · rename_i hk
    exact ⟨hk, if_pos hk⟩
  · split at h
    · simp at h
    · simp only [Cursor.operand, Expression.unexpected, Forest.hasError_append] at h
      split at h <;> simp at h

/-- Trees without an error were made of a phrase. -/
theorem meaning_of_parses {n : Nat} {g : Goal} {c c' : Cursor} {f : Forest} (h : Parses n g c f c')
    (hs : c.Spelled) (herr : Forest.hasError f = false) : Meaning g n c f c' := by
  induction h with
  | tooDeep g c => simp [Expression.tooDeep] at herr
  | nested h ih => exact ih hs herr
  | @operand n g c t c' h ih =>
    refine ⟨t, rfl, ih (hs.of_moves c.flush_moves) ?_⟩
    simp only [Forest.hasError_append, Bool.or_eq_false_iff] at herr
    exact herr.2
  | unconditional h hif ih =>
    obtain ⟨ws, p, hd, hw⟩ := ih hs herr
    exact ⟨ws, p, .unconditional hd, hw⟩
  | conditional body hif condition helse alternative ih ih₁ ih₂ =>
    simp only [Forest.hasError_cons, Forest.hasError_nil, Tree.hasError_node,
      Forest.hasError_append, Bool.or_false, Bool.or_eq_false_iff] at herr
    have hs₁ := hs.of_moves body.moves
    have hs₁' := spelled_bump hs₁ (hif.trans_ne (by decide))
    have hs₂ := hs₁'.of_moves condition.moves
    have hs₂' := spelled_bump hs₂ (helse.trans_ne (by decide))
    obtain ⟨w, p, hd, hw⟩ := ih hs (by simp [herr])
    obtain ⟨v, q, hd₁, hv⟩ := isPhrase_of_part id (ih₁ hs₁' (by simp [herr]))
    obtain ⟨u, r, hd₂, hu⟩ := isPhrase_of_part id (ih₂ hs₂' (by simp [herr]))
    refine ⟨_, _, .conditional hd hd₁ hd₂, ?_⟩
    exact (hw.append (spells_bump hs₁ hif rfl hv)).append (spells_bump hs₂ helse rfl hu)
  | withoutElse body hif condition helse ih ih₁ => simp at herr
  | join h hstop ih => exact ih hs herr
  | first h ih =>
    obtain ⟨ws, p, hd, hw⟩ := isPhrase_of_operand (ih hs herr)
    exact ⟨ws, p, .unjoined hd, hw⟩
  | further left hop right ih ih₁ =>
    simp only [Forest.hasError_cons, Forest.hasError_nil, Tree.hasError_node,
      Forest.hasError_append, Bool.or_false, Bool.or_eq_false_iff] at herr
    have hs₁ := hs.of_moves left.moves
    obtain ⟨w, p, hd, hw⟩ := ih hs (by simp [herr])
    obtain ⟨v, q, hd₁, hv⟩ := isPhrase_of_part isPhrase_of_operand
      (ih₁ (spelled_bump hs₁ (Join.ne_eof hop)) (by simp [herr]))
    exact ⟨_, _, .joined hd hop hd₁, hw.append (spells_bump hs₁ rfl (spelling?_of_joins hop) hv)⟩
  | uncompared h hstop ih =>
    obtain ⟨ws, p, hd, hw⟩ := ih hs herr
    exact ⟨ws, p, .uncompared hd, hw⟩
  | comparison left hop more ih ih₁ =>
    simp only [Forest.hasError_cons, Forest.hasError_nil, Tree.hasError_node,
      Bool.or_false, Bool.or_eq_false_iff] at herr
    obtain ⟨w, p, hd, hw⟩ := ih hs (by simp [herr])
    obtain ⟨ms, hops, hds, hms, hne⟩ := ih₁ (hs.of_moves left.moves) (by simp [herr])
    exact ⟨_, _, .compared hd (hne hop) hops hds, hw.append hms⟩
  | comparedEnd hstop => exact ⟨[], by simp, by simp, rfl, by simp [hstop]⟩
  | @comparedMore n c f c₁ g c₂ hop right more ih ih₁ =>
    have hne := Kind.ne_eof_of_isComparison hop
    have hs' : c.flush.2.Spelled := hs.of_moves c.flush_moves
    have hs₁ := spelled_bump (c := c.flush.2) hs' hne
    simp only [Forest.hasError_cons, Tree.hasError_node, Forest.hasError_append,
      Bool.or_eq_false_iff] at herr
    obtain ⟨v, q, hd, hv⟩ := isPhrase_of_part id (ih hs₁ (by simp [herr]))
    obtain ⟨ms, hops, hds, hms, -⟩ := ih₁ (hs₁.of_moves right.moves) (by simp [herr])
    refine ⟨(c.kind, v, q) :: ms, List.forall_mem_cons.2 ⟨hop, hops⟩,
      List.forall_mem_cons.2 ⟨hd, hds⟩, ?_, by simp⟩
    have hword := spells_bump (c := c.flush.2) hs' rfl (spelling?_of_isComparison hop) hv
    exact ((Cursor.spells_flush (by simp)).1 hword).append hms
  | unary hop h ih =>
    simp only [Forest.hasError_cons, Forest.hasError_nil, Tree.hasError_node,
      Forest.hasError_append, Bool.or_false, Bool.or_eq_false_iff] at herr
    obtain ⟨v, q, hd, hv⟩ := isPhrase_of_part isPhrase_of_nested_unary
      (ih (spelled_bump hs (Unary.ne_eof hop)) (by simp [herr]))
    exact ⟨_, _, .unary hop hd, spells_bump hs rfl (spelling?_of_starts hop) hv⟩
  | noUnary hop h ih =>
    obtain ⟨ws, p, hd, hw⟩ := isPhrase_of_below (ih hs herr)
    exact ⟨ws, p, .plain hd, hw⟩
  | noPower h hop ih =>
    obtain ⟨ws, p, hd, hw⟩ := ih hs herr
    exact ⟨ws, p, .base hd, hw⟩
  | power base hop exponent ih ih₁ =>
    simp only [Forest.hasError_cons, Forest.hasError_nil, Tree.hasError_node,
      Forest.hasError_append, Bool.or_false, Bool.or_eq_false_iff] at herr
    have hs₁ := hs.of_moves base.moves
    obtain ⟨w, p, hd, hw⟩ := ih hs (by simp [herr])
    obtain ⟨v, q, hd₁, hv⟩ := isPhrase_of_part isPhrase_of_nested_unary
      (ih₁ (spelled_bump hs₁ (hop.trans_ne (by decide))) (by simp [herr]))
    exact ⟨_, _, .power hd hd₁, hw.append (spells_bump hs₁ hop rfl hv)⟩
  | primary h hparen hdot ih => exact ih hs herr
  | bare h ih =>
    obtain ⟨ws, p, hd, hw⟩ := ih hs herr
    exact ⟨ws, p, .bare hd, hw⟩
  | call callee hparen arguments ih ih₁ =>
    simp only [Forest.hasError_cons, Forest.hasError_nil, Tree.hasError_node,
      Bool.or_false, Bool.or_eq_false_iff] at herr
    obtain ⟨w, p, hd, hw⟩ := ih hs (by simp [herr])
    obtain ⟨t, -, vs, ⟨positional, named, trailing, -, hpositional, hnamed, rfl⟩, hvs⟩ :=
      ih₁ (hs.of_moves callee.moves) (by simp [herr])
    rw [Cursor.kind_flush, hparen] at hvs
    exact ⟨_, _, .call hd hpositional hnamed trailing,
      hw.append ((Cursor.spells_flush (by simp [bracketed])).1 hvs)⟩
  | @member n c t c₁ object hdot ih =>
    simp only [Forest.hasError_cons, Forest.hasError_nil, Tree.hasError_node,
      Forest.hasError_append, Bool.or_false, Bool.or_eq_false_iff] at herr
    have hs₁ := hs.of_moves object.moves
    obtain ⟨w, p, hd, hw⟩ := ih hs (by simp [herr])
    obtain ⟨hk, hfield⟩ := field_eq_of_no_error herr.2.2
    obtain ⟨x, r, hr, hx⟩ := Cursor.exists_rest (hk.trans_ne (by decide))
    refine ⟨_, _, .member hd x.text, hw.append (spells_bump hs₁ hdot rfl ⟨?_, ?_⟩)⟩
    · simp [hr, Token.word, hx, hk]
    · rw [hfield]
      rfl
  | @literal n c t r hpending hrest hkind =>
    have hspells : Spells [t.word] c c.bump.2 := ⟨by simp [hrest], rfl⟩
    by_cases hname : t.kind = .identifier
    · rw [Token.word, hname] at hspells
      exact ⟨_, _, .name t.text, hspells⟩
    · exact ⟨_, _, .literal hkind hname t.text, hspells⟩
  | @emptyTuple n c hopen hclose =>
    simp only [Forest.hasError_cons, Forest.hasError_nil, Tree.hasError_node,
      Forest.hasError_append, Bool.or_false, Bool.or_eq_false_iff] at herr
    obtain ⟨-, hbump⟩ := Cursor.close_eq_of_no_error herr.2.2
    have hs₁ := spelled_bump hs (hopen.trans_ne (by decide))
    refine ⟨_, _, @Derives.tuple n [] (by simp) false (by simp), ?_⟩
    rw [hbump]
    exact spells_bump hs hopen rfl (spells_bump hs₁ hclose rfl rfl)
  | group hopen hclose inner hcomma ih =>
    simp only [Forest.hasError_cons, Forest.hasError_nil, Tree.hasError_node,
      Forest.hasError_append, Bool.or_false, Bool.or_eq_false_iff] at herr
    obtain ⟨hk, hbump⟩ := Cursor.close_eq_of_no_error herr.2.2
    have hs₁ := spelled_bump hs (hopen.trans_ne (by decide))
    obtain ⟨v, q, hd, hv⟩ := isPhrase_of_part isPhrase_of_nested (ih hs₁ (by simp [herr]))
    refine ⟨_, _, .paren hd, ?_⟩
    rw [hbump]
    exact (spells_bump hs hopen rfl hv).append
      (spells_bump (hs₁.of_moves inner.moves) hk rfl rfl)
  | @tuple n c f c₁ g c₂ hopen hclose inner hcomma more ih ih₁ =>
    simp only [Forest.hasError_cons, Forest.hasError_nil, Tree.hasError_node,
      Forest.hasError_append, Bool.or_false, Bool.or_eq_false_iff] at herr
    obtain ⟨hk, hbump⟩ := Cursor.close_eq_of_no_error herr.2.2
    have hs₁ := spelled_bump hs (hopen.trans_ne (by decide))
    have hs₂ := hs₁.of_moves inner.moves
    have hs₃ := spelled_bump hs₂ (hcomma.trans_ne (by decide))
    obtain ⟨v, q, hd, hv⟩ := isPhrase_of_part isPhrase_of_nested (ih hs₁ (by simp [herr]))
    obtain ⟨ws, ⟨parts, trailing, hparts, rfl⟩, hws⟩ := ih₁ hs₃ (by simp [herr])
    have htuple := @Derives.tuple n ((v, q) :: parts) (List.forall_mem_cons.2 ⟨hd, hparts⟩)
      ((parts.map Prod.fst).isEmpty || trailing) (by cases parts <;> simp)
    refine ⟨_, _, htuple, ?_⟩
    rw [List.map_cons, listed_cons, hbump]
    exact (spells_bump hs hopen rfl (hv.append (spells_bump hs₂ hcomma rfl hws))).append
      (spells_bump (hs₃.of_moves more.moves) hk rfl rfl)
  | list hopen h ih =>
    obtain ⟨ws, ⟨parts, trailing, hparts, rfl⟩, hws⟩ := ih hs herr
    rw [hopen] at hws
    exact ⟨_, _, .list hparts trailing, hws⟩
  | dict hopen h ih =>
    obtain ⟨ws, ⟨entries, trailing, hkeys, hvalues, rfl⟩, hws⟩ := ih hs herr
    rw [hopen] at hws
    exact ⟨_, _, .dict hkeys hvalues trailing, hws⟩
  | unexpected hliteral hopen =>
    unfold Expression.unexpected at herr
    split at herr <;> simp at herr
  | @enclosed n kind close item c f c₁ hopen hclose h ih =>
    simp only [Forest.hasError_cons, Forest.hasError_nil, Tree.hasError_node,
      Forest.hasError_append, Bool.or_false, Bool.or_eq_false_iff] at herr
    obtain ⟨hk, hbump⟩ := Cursor.close_eq_of_no_error herr.2.2
    have hs₁ := spelled_bump hs (Kind.ne_eof_of_isOpening hopen)
    obtain ⟨ws, hitems, hws⟩ := ih hs₁ (by simp [herr])
    refine ⟨ws, hitems, ?_⟩
    rw [hbump]
    exact (spells_bump hs rfl (spelling?_of_bracket (.inl hopen)) hws).append
      (spells_bump (hs₁.of_moves h.moves) hk (spelling?_of_bracket (.inr hclose)) rfl)
  | @itemsEnd n close item named c hend =>
    refine ⟨[], ?_, rfl⟩
    cases item with
    | plain => exact ⟨[], false, by simp, rfl⟩
    | pair => exact ⟨[], false, by simp, by simp, rfl⟩
    | argument => exact ⟨[], [], false, by simp, by simp, by simp, rfl⟩
  | itemsLast hend h hcomma ih => exact (ih hs herr).items
  | itemsMore hend h hcomma more ih ih₁ =>
    simp only [Forest.hasError_append, Bool.or_eq_false_iff] at herr
    have hs₁ := hs.of_moves h.moves
    have hitem := ih hs (by simp [herr])
    obtain ⟨ws, hitems, hws⟩ := ih₁ (spelled_bump hs₁ (hcomma.trans_ne (by decide)))
      (by simp [herr])
    exact hitem.cons (hs₁.spells hcomma rfl) hitems hws
  | missingItem hcomma => simp at herr
  | item hcomma h ih =>
    obtain ⟨t, rfl, hq⟩ := ih hs herr
    exact (isItem_of_goal hq).of_flush
  | pair key hcolon value ih ih₁ =>
    simp only [Forest.hasError_cons, Forest.hasError_nil, Tree.hasError_node,
      Forest.hasError_append, Bool.or_false, Bool.or_eq_false_iff] at herr
    have hs₁ := hs.of_moves key.moves
    obtain ⟨w, p, hd, hw⟩ := isPhrase_of_nested (ih hs (by simp [herr]))
    obtain ⟨v, q, hd₁, hv⟩ := isPhrase_of_part isPhrase_of_nested
      (ih₁ (spelled_bump hs₁ (hcolon.trans_ne (by decide))) (by simp [herr]))
    exact ⟨⟨w, p, v, q⟩, hd, hd₁, hw.append (spells_bump hs₁ hcolon rfl hv)⟩
  | withoutColon key hcolon ih => simp at herr
  | @keyword n named c f c' hname value ih =>
    simp only [Forest.hasError_cons, Forest.hasError_nil, Tree.hasError_node,
      Forest.hasError_append, Bool.or_false, Bool.or_eq_false_iff] at herr
    obtain ⟨hk, heq⟩ := Expression.startsNamed_iff.1 hname
    have hs₁ := spelled_bump hs (hk.trans_ne (by decide))
    have hs₂ := spelled_bump hs₁ (heq.trans_ne (by decide))
    obtain ⟨v, q, hd, hv⟩ := isPhrase_of_part isPhrase_of_nested (ih hs₂ (by simp [herr]))
    obtain ⟨x, r, hr, hx⟩ := Cursor.exists_rest (hk.trans_ne (by decide))
    refine .inr ⟨⟨x.text, v, q⟩, hd, ⟨?_, spells_bump hs₁ heq rfl hv⟩, by simp [Tree.kind]⟩
    simp [hr, Token.word, hx, hk]
  | positional hname value ih =>
    obtain ⟨w, p, hd, hw⟩ := isPhrase_of_nested (ih (hs.of_moves (Expression.looked_moves _)) herr)
    exact .inl ⟨rfl, w, p, hd, (Cursor.spells_looked hd.words.ne_nil).1 hw⟩
  | misplaced hname value ih => simp at herr
  | targetsEnd hcomma => exact ⟨[], false, by simp, [], rfl, fun w => rfl⟩
  | targetsTrailing hcomma hend =>
    exact ⟨[], true, by simp, _, hs.spells hcomma rfl, fun w => rfl⟩
  | targetsMore hcomma hend target more ih ih₁ =>
    simp only [Forest.hasError_append, Bool.or_eq_false_iff] at herr
    have hs₁ := spelled_bump hs (hcomma.trans_ne (by decide))
    obtain ⟨v, q, hd, hv⟩ := isPhrase_of_part isPhrase_of_nested (ih hs₁ (by simp [herr]))
    obtain ⟨parts, trailing, hparts, ws, hws, hlisted⟩ := ih₁ (hs₁.of_moves target.moves)
      (by simp [herr])
    refine ⟨(v, q) :: parts, trailing, List.forall_mem_cons.2 ⟨hd, hparts⟩, _,
      spells_bump hs hcomma rfl (hv.append hws), fun w => ?_⟩
    rw [hlisted v]
    rfl

/-! ### Sentences -/

open Statement (Body Sequence)

theorem sentence_of_body {c c' : Cursor} {k : Kind} {f : Forest} (h : Body c k f c')
    (hs : c.Spelled) (herr : Forest.hasError f = false) :
    ∃ ws s, Sentence.Derives ws s ∧ Spells ws c c' := by
  cases h with
  | empty h => simp at herr
  | expression h expr hcomma heq =>
    obtain ⟨w, p, hd, hw⟩ := isPhrase_of_part isPhrase_of_nested (meaning_of_parses expr hs herr)
    exact ⟨w, _, .expression hd, hw⟩
  | assignment h target hmore more heq value =>
    simp only [Forest.hasError_cons, Tree.hasError_node, Forest.hasError_append,
      Bool.or_eq_false_iff] at herr
    have hs₁ := (hs.of_moves c.flush_moves).of_moves target.moves
    have hs₂ := hs₁.of_moves more.moves
    have hs₃ := spelled_bump hs₂ (heq.trans_ne (by decide))
    have hq := meaning_of_parses target (hs.of_moves c.flush_moves) (by simp [herr])
    obtain ⟨v, q, hd, hv⟩ := (isPhrase_of_nested hq).of_flush
    obtain ⟨parts, trailing, hparts, ws, hws, hlisted⟩ := meaning_of_parses more hs₁ (by simp [herr])
    obtain ⟨u, r, hd', hu⟩ := isPhrase_of_part isPhrase_of_nested
      (meaning_of_parses value hs₃ (by simp [herr]))
    have hsentence := @Sentence.Derives.assignment ((v, q) :: parts) _ _ (by simp)
      (List.forall_mem_cons.2 ⟨hd, hparts⟩) trailing hd'
    refine ⟨_, _, hsentence, ?_⟩
    rw [List.map_cons, ← hlisted v]
    exact (hv.append hws).append (spells_bump hs₂ heq rfl hu)
  | unassigned h target hmore more heq => simp at herr

/-- Without an error nothing stands between a sentence and its terminator. -/
theorem atTerminator_of_no_error {c : Cursor}
    (h : Forest.hasError (Statement.finish c).1 = false) :
    c.atTerminator ∧ Statement.finish c = Statement.ending c := by
  unfold Statement.finish at h ⊢
  by_cases ht : c.atTerminator
  · simp [ht]
  · simp [ht, Cursor.junk] at h

/-- What a statement without errors takes behind the trivia at the front is a sentence and its
terminator, and without a terminator nothing is left. -/
theorem sentence_of_parse? {tokens rest : List Token} {n : Nat} {x : Statement}
    (h : Statement.parse? tokens n = some (x, rest)) (hs : ∀ t ∈ tokens, t.word.Spelled)
    (herr : x.tree.hasError = false) :
    ∃ ws p ts, Sentence.Derives ws p ∧ Spaced 0 ws ts 0 ∧
      (((Cursor.start tokens).rest = ts ∧ rest = []) ∨
        ∃ t : Token, (t.kind = .newline ∨ t.kind = .semicolon) ∧
          (Cursor.start tokens).rest = ts ++ t :: rest) := by
  obtain ⟨hall, k, f, c, hb, rfl, rfl⟩ := Statement.exists_of_parse? h
  simp only [Tree.hasError_node, Forest.hasError_append, Bool.or_eq_false_iff] at herr
  obtain ⟨hterm, hfinish⟩ := atTerminator_of_no_error herr.2.2
  have hstart : (Cursor.start tokens).Spelled := by
    rw [Cursor.Spelled, Cursor.ahead_start]
    exact hs
  obtain ⟨ws, p, hd, hws⟩ := sentence_of_body hb hstart (by simp [herr])
  obtain ⟨ts, hts, hspaced⟩ := hws.spaced hd.words.2.1
  rw [hws.depth, hd.words.2.2] at hspaced
  refine ⟨ws, p, ts, hd, hspaced, ?_⟩
  rw [hfinish, hts]
  cases hr : c.rest with
  | nil =>
    refine .inl ⟨List.append_nil _, ?_⟩
    rw [Statement.ending_eq_flush (by rw [Cursor.kind_eq_eof hr]; decide)]
    exact hr
  | cons t r =>
    have hkind := Cursor.kind_eq_of_rest hr
    have hmem : t ∈ tokens := by
      rw [← Cursor.ahead_start tokens, Cursor.ahead, hts, hr]
      simp
    have hk := Cursor.kind_of_atTerminator hterm (hkind ▸ (hs t hmem).ne_eof)
    refine .inr ⟨t, hkind ▸ hk, ?_⟩
    rw [Statement.ending, if_pos (by simpa using hk), Cursor.take_eq hr]
    rfl

/-- Statements without errors are sentences, laid out in their tokens. -/
theorem laid_of_sequence {tokens tail : List Token} {n : Nat} {ss : List Statement}
    (h : Sequence tokens n ss tail) (hs : ∀ t ∈ tokens, t.word.Spelled)
    (herr : ∀ s ∈ ss, s.tree.hasError = false) :
    ∃ program : List (List Word × Sentence), (∀ x ∈ program, Sentence.Derives x.1 x.2) ∧
      Laid (program.map Prod.fst) tokens := by
  induction h with
  | done h => exact ⟨[], by simp, .done (Sequence.done h).tail_trivia⟩
  | @step tokens n s rest ss tail h more ih =>
    obtain ⟨ws, p, ts, hd, hspaced, hend⟩ := sentence_of_parse? h hs (herr s List.mem_cons_self)
    have htokens : (Cursor.start tokens).pending ++ (Cursor.start tokens).rest = tokens :=
      Cursor.ahead_start tokens
    have hlead := (Cursor.start_ready tokens).1.trivia
    rcases hend with ⟨hrest, -⟩ | ⟨t, ht, hrest⟩
    · refine ⟨[(ws, p)], by simpa using hd, ?_⟩
      rw [← htokens, hrest]
      exact .last hlead hspaced
    · obtain ⟨program, hprogram, hlaid⟩ := ih
        (fun u hu => hs u (by rw [← htokens, hrest]; simp [hu]))
        (fun x hx => herr x (List.mem_cons_of_mem _ hx))
      refine ⟨(ws, p) :: program, List.forall_mem_cons.2 ⟨hd, hprogram⟩, ?_⟩
      rw [← htokens, hrest]
      exact .ended hlead hspaced ht hlaid

theorem hasError_of_programTree {ts : Forest} {tail : List Token}
    (h : (programTree ts tail).hasError = false) : ∀ t ∈ ts, t.hasError = false := by
  rw [programTree, Tree.hasError_node, Bool.or_eq_false_iff, Forest.hasError_append,
    Bool.or_eq_false_iff] at h
  exact Forest.hasError_eq_false_iff.1 h.2.1

/-- The whole text is a script of the grammar if its tree has no error: its tokens are sentences one
after another, each within the levels of nesting, and trivia. -/
theorem exists_program_of_no_error {s : Text} (h : (Document.parse s).tree.hasError = false) :
    ∃ program : List (List Word × Sentence), (∀ x ∈ program, Sentence.Derives x.1 x.2) ∧
      Laid (program.map Prod.fst) (Lexer.tokens s) := by
  obtain ⟨tail, hseq, htree⟩ := (Document.parse_current s).sequence
  rw [htree] at h
  exact laid_of_sequence hseq (fun t ht => Lexer.spelled_of_mem_scan ht)
    fun x hx => hasError_of_programTree h _ (List.mem_map_of_mem hx)

theorem exists_program_of_two_sentences :
    let s : Text := "x, y = f(a,\n k=-b ** 2) if not u < v <= w else {p: q | r,}; z.m\n".toList
    (Document.parse s).tree.hasError = false ∧
      ∃ program : List (List Word × Sentence), (∀ x ∈ program, Sentence.Derives x.1 x.2) ∧
        Laid (program.map Prod.fst) (Lexer.tokens s) :=
  have h : (Document.parse
      "x, y = f(a,\n k=-b ** 2) if not u < v <= w else {p: q | r,}; z.m\n".toList).tree.hasError =
        false := by decide +kernel
  ⟨h, exists_program_of_no_error h⟩

end Grammar

end ScriptTree
