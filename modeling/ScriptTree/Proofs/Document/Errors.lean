import ScriptTree.Proofs.Document.Partition
import ScriptTree.Proofs.Statement.Shape
import ScriptTree.Proofs.Tree.Search

namespace ScriptTree

def Element.error? (e : Element) : Option ErrorSpan :=
  match e.tree with
  | .token .error s => some ⟨.lexer (LexError.ofText s), e.start, e.start + s.bytes⟩
  | .node .error ts => some ⟨.parser, e.start, e.start + Forest.bytes ts⟩
  | _ => none

theorem Element.isSome_error? (e : Element) : e.error?.isSome = (e.tree.kind == .error) := by
  obtain ⟨start, t⟩ := e
  cases t with
  | token k s => cases k <;> rfl
  | node k ts => cases k <;> rfl

theorem Element.start_of_error? {e : Element} {x : ErrorSpan} (h : e.error? = some x) :
    x.start = e.start := by
  unfold error? at h
  split at h
  · rw [← Option.some.inj h]
  · rw [← Option.some.inj h]
  · simp at h

theorem Site.error?_eq (s : Site) : s.error? = (Element.mk s.start s.tree).error? := by
  unfold Site.error? Element.error? Site.stop
  obtain ⟨t, start, above, leaves⟩ := s
  cases t with
  | token k s => cases k <;> rfl
  | node k ts => cases k <;> rfl

/-! ### Error tokens stand in error nodes -/

/-- What is no part of an expression or a statement: a token that the lexer could not read, and a
whole script. -/
def Tree.isStray : Tree → Bool
  | .token k _ => k == .error
  | .node k _ => k == .program

@[simp] theorem Tree.isStray_token (k : Kind) (s : Text) :
    (Tree.token k s).isStray = (k == .error) := rfl

@[simp] theorem Tree.isStray_node (k : Kind) (ts : Forest) :
    (Tree.node k ts).isStray = (k == .program) := rfl

theorem Tree.isStray_of_isOperand {t : Tree} (h : t.isOperand) : t.isStray = false := by
  cases t with
  | token k s =>
    rw [isStray_token, beq_eq_false_iff_ne]
    rintro rfl
    simp [isOperand, Kind.isLiteral] at h
  | node k ts =>
    rw [isStray_node, beq_eq_false_iff_ne]
    rintro rfl
    simp [isOperand, Kind.isExpression] at h

theorem Tree.isStray_of_isNodeOf {t : Tree} {k : Kind} (h : t.isNodeOf k) (hk : k ≠ .program) :
    t.isStray = false := by
  cases t with
  | token l s => simp [isNodeOf] at h
  | node l ts =>
    obtain rfl : l = k := by simpa [isNodeOf] using h
    simpa using hk

theorem Expression.Item.isStray_of_fits {item : Expression.Item} {named : Bool} {t : Tree}
    (h : item.fits named t) : t.isStray = false := by
  cases item with
  | plain => exact Tree.isStray_of_isOperand h
  | pair =>
    rcases (Bool.or_eq_true _ _).mp h with h | h
    · exact Tree.isStray_of_isNodeOf h (by decide)
    · exact Tree.isStray_of_isNodeOf h (by decide)
  | argument =>
    rcases (Bool.or_eq_true _ _).mp h with h | h
    · exact Tree.isStray_of_isNodeOf h (by decide)
    · cases named with
      | true => exact Tree.isStray_of_isNodeOf h (by decide)
      | false => exact Tree.isStray_of_isOperand h

theorem Listed.isStray {item : Expression.Item} {named : Bool} {ts : Forest}
    (h : Listed item named ts) : ∀ t ∈ ts, t.isStray = false := by
  induction h with
  | nil => simp
  | last ht => simpa using Expression.Item.isStray_of_fits ht
  | more ht hts ih => simpa [Expression.Item.isStray_of_fits ht] using ih

theorem Compared.isStray {ts : Forest} (h : Compared ts) : ∀ t ∈ ts, t.isStray = false := by
  induction h with
  | nil => simp
  | more ht hts ih => simpa [Tree.isStray_of_isOperand ht] using ih

theorem Enclosed.isStray {opening closing : Kind} {item : Expression.Item} {ts : Forest}
    (h : Enclosed opening closing item ts) (hopening : opening ≠ .error)
    (hclosing : closing ≠ .error) : ∀ t ∈ ts, t.isStray = false := by
  obtain ⟨x, us, t, rfl, hus, ht⟩ := h
  have hlast : t.isStray = false := by
    rcases ht with ⟨y, rfl⟩ | rfl
    · simpa using hclosing
    · rfl
  simpa [hopening, hlast, or_imp, forall_and] using hus.isStray

theorem Followed.isStray {ts : Forest} (h : Followed ts) : ∀ t ∈ ts, t.isStray = false := by
  cases h <;> simp

/-- Only an error has a stray part. -/
theorem Shape.isStray {k : Kind} {ts : Forest} (h : Shape k ts) (hk : k ≠ .error) :
    ∀ t ∈ ts, t.isStray = false := by
  cases h with
  | tokens hts => exact absurd rfl hk
  | misplaced ha => exact absurd rfl hk
  | @binary a l x b ha hl hb =>
    have hne : l ≠ .error := by
      rintro rfl
      simp [Kind.isBinaryOperator] at hl
    simp [Tree.isStray_of_isOperand, ha, hb, hne]
  | @unary l x a hl ha =>
    have hne : l ≠ .error := by
      rintro rfl
      simp [Kind.isUnaryOperator] at hl
    simp [Tree.isStray_of_isOperand, ha, hne]
  | @comparisonOp l x hl =>
    have hne : l ≠ .error := by
      rintro rfl
      simp [Kind.isComparison] at hl
    simpa using hne
  | comparison ha hb hts => simpa [Tree.isStray_of_isOperand, ha, hb] using hts.isStray
  | argumentList hts => exact hts.isStray (by decide) (by decide)
  | tuple hts => exact hts.isStray (by decide) (by decide)
  | list hts => exact hts.isStray (by decide) (by decide)
  | dict hts => exact hts.isStray (by decide) (by decide)
  | targets hts => exact hts.isStray
  | assignment ha hts => simpa [Tree.isStray_of_isOperand, ha] using hts.isStray
  | unassigned hts => simpa [Tree.missing] using hts.isStray
  | expression ha hts => simpa [Tree.isStray_of_isOperand, ha] using hts.isStray
  | program hts =>
    intro t ht
    rcases hts t ht with ht | ht
    · exact Tree.isStray_of_isNodeOf ht (by decide)
    · exact Tree.isStray_of_isNodeOf ht (by decide)
  | _ => simp [Tree.isStray_of_isOperand, Tree.missing, *]

/-- No part of an expression or a statement is an error token. -/
theorem Shape.eq_error {k : Kind} {ts : Forest} (h : Shape k ts) {x : Text}
    (hx : Tree.token .error x ∈ ts) : k = .error := by
  by_contra hk
  exact absurd (h.isStray hk _ hx) (by simp)

theorem Tree.Shaped.error_at {t : Tree} (h : t.Shaped) {start : Nat} {p : Address} {o : Nat}
    {x : Text} (hp : t.at? start p = some ⟨o, .token .error x⟩) :
    p = [] ∨ ∃ q i o' us, p = q ++ [i] ∧ t.at? start q = some ⟨o', .node .error us⟩ := by
  induction p generalizing t start with
  | nil => exact .inl rfl
  | cons i p ih =>
    right
    rw [Tree.at?, Option.bind_eq_some_iff] at hp
    obtain ⟨u, hu, hp⟩ := hp
    cases t with
    | token k s => simp [Tree.children] at hu
    | node k ts =>
      obtain ⟨hshape, hts⟩ := Tree.shaped_node.1 h
      have hmem : u ∈ ts := List.mem_of_getElem? hu
      rcases ih (Forest.shaped_significant.1 hts u hmem) hp with rfl | ⟨q, j, o', us, rfl, hq⟩
      · -- The token is a child of this node, whose shape has no place for it but in an error.
        obtain ⟨rfl, rfl⟩ : _ = o ∧ u = .token .error x := by simpa [Tree.at?] using hp
        obtain rfl := hshape.eq_error (List.mem_filter.2 ⟨hmem, rfl⟩)
        exact ⟨[], i, start, ts, rfl, rfl⟩
      · refine ⟨i :: q, j, o', us, rfl, ?_⟩
        rw [Tree.at?, hu]
        exact hq

/-! ### Trees with errors -/

mutual

theorem Tree.hasError_iff_mem_elements (t : Tree) (start : Nat) :
    t.hasError ↔ ∃ x ∈ t.elements start, x.2.tree.kind = .error := by
  cases t with
  | token k s => simp [Tree.hasError, Tree.elements, Tree.kind]
  | node k ts =>
    rw [Tree.hasError_node, Bool.or_eq_true, Forest.hasError_iff_mem_elements ts start 0]
    simp [Tree.elements, Tree.kind]

theorem Forest.hasError_iff_mem_elements (ts : Forest) (start i : Nat) :
    Forest.hasError ts ↔ ∃ x ∈ Forest.elements start i ts, x.2.tree.kind = .error := by
  cases ts with
  | nil => simp [Forest.elements]
  | cons t ts =>
    rw [Forest.hasError_cons, Bool.or_eq_true, Tree.hasError_iff_mem_elements t start,
      Forest.hasError_iff_mem_elements ts (start + t.bytes) (i + 1)]
    simp [Forest.elements, or_and_right, exists_or]

end

theorem Tree.hasError_iff_at? {t : Tree} :
    t.hasError ↔ ∃ p e, t.at? 0 p = some e ∧ e.tree.kind = .error := by
  simp only [t.hasError_iff_mem_elements 0, Prod.exists, Tree.mem_elements_iff]

namespace Document

theorem errors_eq (d : Document) :
    d.errors = (d.tree.elements 0).filterMap fun x => x.2.error? := by
  have hsites := congrArg (List.filterMap Element.error?) (d.tree.map_sitesFrom 0 [] 0)
  rw [List.filterMap_map, List.filterMap_map] at hsites
  rw [errors, Tree.sites, funext Site.error?_eq]
  exact hsites

/-- The errors are those of the addresses at which an error stands, each of which comes once. -/
theorem exists_addresses (d : Document) :
    ∃ ps : List Address, ps.Pairwise (· < ·) ∧
      (∀ p, p ∈ ps ↔ ∃ e, d.tree.at? 0 p = some e ∧ e.tree.kind = .error) ∧
      d.errors.map some = ps.map fun p => (d.tree.at? 0 p).bind Element.error? := by
  have hat (x : Address × Element) (hx : x ∈ d.tree.elements 0) : d.tree.at? 0 x.1 = some x.2 :=
    (d.tree.mem_elements_iff 0 x.1 x.2).1 hx
  refine ⟨((d.tree.elements 0).filter fun x => x.2.tree.kind == .error).map Prod.fst, ?_, ?_, ?_⟩
  · exact (d.tree.pairwise_elements 0).sublist (List.filter_sublist.map _)
  · intro p
    simp [Tree.mem_elements_iff]
  · rw [errors_eq, List.map_map]
    -- An element is listed exactly if its address is, so the two lists grow together.
    generalize d.tree.elements 0 = xs at hat
    induction xs with
    | nil => rfl
    | cons x xs ih =>
      have hx := hat x List.mem_cons_self
      have hsome := x.2.isSome_error?
      have ih := ih fun y hy => hat y (List.mem_cons_of_mem _ hy)
      by_cases hk : x.2.tree.kind = .error
      · obtain ⟨y, hy⟩ := Option.isSome_iff_exists.1 (hsome.trans (by simp [hk]))
        simp [hk, hy, hx, ih]
      · have hfalse := Option.isSome_eq_false_iff.1 (hsome.trans (by simp [hk]))
        have hnone : x.2.error? = none := Option.isNone_iff_eq_none.1 hfalse
        simp [hk, hnone, ih]

theorem errors_pairwise_start (d : Document) :
    d.errors.Pairwise fun x y => x.start ≤ y.start := by
  rw [errors_eq, List.pairwise_filterMap]
  refine (d.tree.pairwise_start 0).imp fun hle x hx y hy => ?_
  rw [Element.start_of_error? hx, Element.start_of_error? hy]
  exact hle

theorem errors_ne_nil_iff (d : Document) : d.errors ≠ [] ↔ d.tree.hasError := by
  rw [errors_eq, d.tree.hasError_iff_mem_elements 0, Ne, List.filterMap_eq_nil_iff]
  simp only [← Option.isNone_iff_eq_none, ← Option.not_isSome, Element.isSome_error?]
  simp

/-- A token that the lexer could not read stands directly in an error node. -/
theorem Current.error_at {d : Document} (h : d.Current) {p : Address} {o : Nat} {x : Text}
    (hp : d.tree.at? 0 p = some ⟨o, .token .error x⟩) :
    ∃ q i o' us, p = q ++ [i] ∧ d.tree.at? 0 q = some ⟨o', .node .error us⟩ := by
  rcases h.shaped.error_at hp with rfl | hparent
  · obtain ⟨tail, -, htree⟩ := h.sequence
    rw [htree] at hp
    simp [Tree.at?, programTree] at hp
  · exact hparent

/-- Each token that the lexer could not read has a place in the tree, directly in an error node. -/
theorem Current.exists_error_around {d : Document} (h : d.Current) {w : Token}
    (hw : w ∈ d.tokens.toList) (hk : w.kind = .error) :
    ∃ q i o us, d.tree.at? 0 (q ++ [i]) = some ⟨w.start, w.tree⟩ ∧
      d.tree.at? 0 q = some ⟨o, .node .error us⟩ := by
  have hplaced : w.placed ∈ d.tree.tokens := by
    rw [h.partitioned.leaves]
    exact List.mem_map_of_mem hw
  obtain ⟨p, hp⟩ : ∃ p, d.tree.at? 0 p = some ⟨w.start, w.tree⟩ :=
    Tree.exists_at?_of_mem_tokens hplaced
  have herror : d.tree.at? 0 p = some ⟨w.start, .token .error w.text⟩ := by rw [hp, Token.tree, hk]
  obtain ⟨q, i, o, us, rfl, hq⟩ := h.error_at herror
  exact ⟨q, i, o, us, hp, hq⟩

theorem Current.exists_error_node {d : Document} (h : d.Current) (herror : d.tree.hasError) :
    ∃ p o us, d.tree.at? 0 p = some ⟨o, .node .error us⟩ := by
  -- The error that is found may be a token, but then its parent is an error node.
  obtain ⟨p, ⟨o, t⟩, hp, hk⟩ := Tree.hasError_iff_at?.1 herror
  cases t with
  | token k x =>
    obtain rfl : k = .error := hk
    obtain ⟨q, -, o', us, -, hq⟩ := h.error_at hp
    exact ⟨q, o', us, hq⟩
  | node k us =>
    obtain rfl : k = .error := hk
    exact ⟨p, o, us, hp⟩

theorem hasErrors_iff (d : Document) :
    d.hasErrors ↔ (∃ t ∈ d.tokens.toList, t.kind = .error) ∨
      ∃ p o us, d.tree.at? 0 p = some ⟨o, .node .error us⟩ := by
  have hsites := congrArg (List.any · fun e => e.tree.isNode && e.tree.kind == .error)
    (d.tree.map_sitesFrom 0 [] 0)
  simp only [List.any_map] at hsites
  have hnode : (d.tree.sites.any fun s => s.tree.isNode && s.kind == .error) ↔
      ∃ p o us, d.tree.at? 0 p = some ⟨o, .node .error us⟩ := by
    refine (Bool.eq_iff_iff.1 hsites).trans ?_
    simp only [List.any_eq_true, Prod.exists, Tree.mem_elements_iff]
    constructor
    · rintro ⟨p, ⟨o, t⟩, hp, ht⟩
      cases t with
      | token k x => simp [Tree.isNode] at ht
      | node k us =>
        obtain rfl : k = .error := by simpa [Tree.isNode, Tree.kind] using ht
        exact ⟨p, o, us, hp⟩
    · rintro ⟨p, o, us, hp⟩
      exact ⟨p, _, hp, rfl⟩
  rw [hasErrors, Bool.or_eq_true, hnode, List.any_eq_true]
  simp

/-- What the stream and the nodes of the tree know of errors is what the tree knows. -/
theorem Current.hasErrors_iff_hasError {d : Document} (h : d.Current) :
    d.hasErrors ↔ d.tree.hasError := by
  rw [d.hasErrors_iff]
  constructor
  · rintro (⟨t, ht, hk⟩ | ⟨p, o, us, hp⟩)
    · refine d.tree.hasError_of_mem_yield (w := t.word) ?_ hk
      rw [h.yield]
      exact List.mem_map_of_mem ht
    · exact Tree.hasError_iff_at?.2 ⟨p, _, hp, rfl⟩
  · exact fun herror => .inr (h.exists_error_node herror)

/-- After any history of edits every token that the lexer could not read, in the tree as in the stream,
stands directly in an error node. The errors of the document are those of the error nodes and error
tokens of its tree, each once and in the order of the text, and none starts before an earlier one.
There are errors just when the document, or its tree, is said to have one, and just when there is an
error node. -/
theorem afterHistory_errors (s : Text) (history : List (Settings × List Edit)) :
    let d := afterHistory s history
    (∀ p o x, d.tree.at? 0 p = some ⟨o, .token .error x⟩ →
      ∃ q i o' us, p = q ++ [i] ∧ d.tree.at? 0 q = some ⟨o', .node .error us⟩) ∧
    (∀ w ∈ d.tokens.toList, w.kind = .error →
      ∃ q i o us, d.tree.at? 0 (q ++ [i]) = some ⟨w.start, w.tree⟩ ∧
        d.tree.at? 0 q = some ⟨o, .node .error us⟩) ∧
    (∃ ps : List Address, ps.Pairwise (· < ·) ∧
      (∀ p, p ∈ ps ↔ ∃ e, d.tree.at? 0 p = some e ∧ e.tree.kind = .error) ∧
      d.errors.map some = ps.map fun p => (d.tree.at? 0 p).bind Element.error?) ∧
    d.errors.Pairwise (fun x y => x.start ≤ y.start) ∧
    List.TFAE [d.hasErrors = true, d.errors ≠ [], d.tree.hasError = true,
      ∃ p o us, d.tree.at? 0 p = some ⟨o, .node .error us⟩] := by
  intro d
  have hcurrent : d.Current := afterHistory_current s history
  refine ⟨fun p o x hp => hcurrent.error_at hp, fun w hw hk => hcurrent.exists_error_around hw hk,
    d.exists_addresses, d.errors_pairwise_start, ?_⟩
  tfae_have 1 ↔ 3 := hcurrent.hasErrors_iff_hasError
  tfae_have 2 ↔ 3 := d.errors_ne_nil_iff
  tfae_have 3 → 4 := hcurrent.exists_error_node
  tfae_have 4 → 3 := by
    rintro ⟨p, o, us, hp⟩
    exact Tree.hasError_iff_at?.2 ⟨p, _, hp, rfl⟩
  tfae_finish

end Document

end ScriptTree
