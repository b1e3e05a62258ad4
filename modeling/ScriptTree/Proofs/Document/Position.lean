import ScriptTree.Proofs.Document.Width
import ScriptTree.Proofs.Tree.Search

namespace ScriptTree

/-- At an offset of a script a token is found: its element, and the way down to it. -/
structure Tree.Finds (t : Tree) (offset : Nat) (u : Token) : Prop where
  token : ∃ x ∈ t.sites, t.tokenAt? offset = some x ∧ x.kind = u.kind ∧ x.start = u.start ∧
    x.stop = u.stop
  path : ∃ p, t.at? 0 p = some ⟨u.start, u.tree⟩ ∧
    (t.pathAt offset).map some = p.inits.map fun q => (t.at? 0 q).map fun e => e.tree.kind
  head : (t.pathAt offset).head? = some .program
  last : (t.pathAt offset).getLast? = some u.kind

namespace Document

variable {d : Document} {offset : Nat}

theorem Current.tree_bytes (h : d.Current) : d.tree.bytes = d.text.bytes := by
  rw [← Tree.bytes_text, h.partitioned.text]

theorem Current.contiguous (h : d.Current) : Token.Contiguous 0 d.tokens.toList := by
  rw [h.tokens]
  exact Lexer.contiguous_scan d.text 0

/-- The tokens of the tree at their places are those of the text. -/
theorem Current.exists_token (h : d.Current) {x : Site} (hx : x ∈ d.tree.root.tokens) :
    ∃ u ∈ d.tokens.toList, x.tree = u.tree ∧ x.start = u.start ∧ x.stop = u.stop := by
  have hplaced : x.placed ∈ d.tokens.toList.map Token.placed := by
    rw [← h.partitioned.leaves]
    have hmem := List.mem_map_of_mem (f := Site.placed) hx
    rwa [Site.map_placed_tokens] at hmem
  obtain ⟨u, hu, heq⟩ := List.mem_map.1 hplaced
  obtain ⟨hkind, htext, hstart⟩ := PlacedToken.mk.inj heq
  have htree : x.tree = u.tree := by
    rw [Site.tree_eq_token (List.of_mem_filter hx), Token.tree, hkind, htext]
  refine ⟨u, hu, htree, hstart.symm, ?_⟩
  rw [Site.stop, htree, ← hstart]
  rfl

theorem Current.getLast?_of_covers (h : d.Current) (hne : d.text ≠ []) {u : Token}
    (hu : u ∈ d.tokens.toList) (hcovers : u.Covers (d.text.bytes - 1)) :
    d.tokens.toList.getLast? = some u := by
  have hpos := Text.bytes_pos hne
  have hend := Lexer.endOf_tokens d.text
  rw [← h.tokens, Token.endOf] at hend
  cases hlast : d.tokens.toList.getLast? with
  | none =>
    rw [hlast] at hend
    exact absurd hend hpos.ne
  | some v =>
    rw [hlast, Option.map_some, Option.getD_some] at hend
    have hv := List.mem_of_getLast? hlast
    have hvcovers : v.Covers (d.text.bytes - 1) := by
      have := (h.contiguous.bounds_of_mem hv).2
      rw [Token.Covers]
      omega
    rw [h.contiguous.eq_of_covers hv hu hvcovers hcovers]

/-- Up to the end of a text that is not empty a token is found at each offset. It has the offset, or
it has the last byte of the text. -/
theorem Current.exists_finds (h : d.Current) (hne : d.text ≠ []) (hle : offset ≤ d.text.bytes) :
    ∃ u ∈ d.tokens.toList, u.Covers (min offset (d.text.bytes - 1)) ∧ d.tree.Finds offset u := by
  have hbytes : d.tree.bytes ≠ 0 := by
    rw [h.tree_bytes]
    exact (Text.bytes_pos hne).ne'
  have htouches := Tree.touches_root hbytes (h.tree_bytes ▸ hle)
  obtain ⟨x, hx, hlast, hxtouches, hbehind⟩ := Site.exists_getLast?_tokensAt htouches
  rw [← Tree.tokenAt?_eq] at hlast
  obtain ⟨u, hu, htree, hstart, hstop⟩ := h.exists_token hx
  have hsite : x ∈ d.tree.sites := List.mem_of_mem_filter hx
  have hreached := Site.reached_of_mem_sites hsite
  have hkind : x.kind = u.kind := congrArg Tree.kind htree
  have hpath : d.tree.pathAt offset = x.path := by rw [Tree.pathAt, hlast]; rfl
  have hroot : d.tree.kind = .program := by rw [h.partitioned.tree]; rfl
  refine ⟨u, hu, ?_, ⟨x, hsite, hlast, hkind, hstart, hstop⟩,
    ⟨x.address, by rw [hreached.element, hstart, htree], by rw [hpath, hreached.path]⟩, ?_, ?_⟩
  · have hend : d.tree.root.stop = d.text.bytes := by
      rw [Site.stop, Tree.root, Nat.zero_add]
      exact h.tree_bytes
    have := Site.touches_iff.1 hxtouches
    have := (Site.bounds_of_mem_sites (x := d.tree.root) hsite).2
    have := Text.bytes_pos hne
    rw [Token.Covers, ← hstart, ← hstop]
    omega
  · rw [hpath, Site.head?_path hsite, hroot]
  · rw [hpath, x.getLast?_path, hkind]

/-- In a text that is not empty the search from the root finds what a look at all tokens finds: behind
the end of the text nothing; before it the one token that has the offset; and at the end the last
token. The path starts at the script, has the kinds of all nodes on the way, and ends with the kind of
the token. -/
theorem parse_tokenAt? {s : Text} (hs : s ≠ []) (offset : Nat) :
    let d := parse s
    d.tree.searchAt? offset = some (d.tree.tokenAt? offset) ∧
      (d.tree.tokenAt? offset = none ↔ s.bytes < offset) ∧
      (offset < s.bytes → ∃ u ∈ d.tokens.toList, u.Covers offset ∧
        (∀ v ∈ d.tokens.toList, v.Covers offset → v = u) ∧ d.tree.Finds offset u) ∧
      (offset = s.bytes → ∃ u, d.tokens.toList.getLast? = some u ∧ d.tree.Finds offset u) := by
  intro d
  have hcurrent : d.Current := parse_current s
  have htext : d.text = s := rfl
  have hpos := Text.bytes_pos hs
  have hbytes : d.tree.bytes = s.bytes := hcurrent.tree_bytes
  refine ⟨Tree.searchAt?_eq (by omega), ⟨fun hnone => ?_, fun hlt => ?_⟩, fun hlt => ?_, fun heq => ?_⟩
  · by_contra hle
    obtain ⟨u, -, -, hfinds⟩ := hcurrent.exists_finds hs (Nat.le_of_not_lt hle)
    obtain ⟨x, -, hsome, -⟩ := hfinds.token
    rw [hnone] at hsome
    exact absurd hsome (Option.some_ne_none x).symm
  · exact Tree.tokenAt?_of_lt (hbytes ▸ hlt)
  · obtain ⟨u, hu, hcovers, hfinds⟩ := hcurrent.exists_finds hs hlt.le
    rw [htext, Nat.min_eq_left (by omega)] at hcovers
    exact ⟨u, hu, hcovers, fun v hv hvc => hcurrent.contiguous.eq_of_covers hv hu hvc hcovers, hfinds⟩
  · obtain ⟨u, hu, hcovers, hfinds⟩ := hcurrent.exists_finds hs heq.le
    rw [htext, heq, Nat.min_eq_right (Nat.sub_le ..)] at hcovers
    exact ⟨u, hcurrent.getLast?_of_covers hs hu hcovers, hfinds⟩

/-- A missing operand is marked right in front of a bracket, where nothing of it can be found. -/
theorem parse_tokenAt?_missing :
    let s : Text := "(a +)".toList
    let d := parse s
    s ≠ [] ∧ (∃ x ∈ d.tree.sites, x.tree = .missing ∧ x.start = 4) ∧
      d.tree.pathAt 4 = [.program, .expressionStatement, .parenthesizedExpression, .rParen] ∧
      d.tree.searchAt? 4 = some (d.tree.tokenAt? 4) ∧
      (d.tree.tokenAt? 4 = none ↔ s.bytes < 4) ∧
      (4 < s.bytes → ∃ u ∈ d.tokens.toList, u.Covers 4 ∧
        (∀ v ∈ d.tokens.toList, v.Covers 4 → v = u) ∧ d.tree.Finds 4 u) ∧
      (4 = s.bytes → ∃ u, d.tokens.toList.getLast? = some u ∧ d.tree.Finds 4 u) := by
  intro s d
  have hs : s ≠ [] := by decide
  exact ⟨hs, by decide +kernel, by decide +kernel, parse_tokenAt? hs 4⟩

/-- For a range of the text that is not empty the smallest node around it is found, and all other nodes
around it are above that one; for a range that runs backwards or past the end nothing is found. -/
theorem parse_covering? (s : Text) (start stop : Nat) :
    let t := (parse s).tree
    (start < stop → stop ≤ s.bytes →
        ∃ x, t.covering? start stop = some x ∧ t.root.IsSmallest start stop x) ∧
      (stop < start ∨ s.bytes < stop → t.covering? start stop = none) := by
  intro t
  have hcurrent := parse_current s
  have hbytes : t.bytes = s.bytes := hcurrent.tree_bytes
  refine ⟨fun hlt hle => ?_, fun hout => ?_⟩
  · have hnode : t.root.tree.isNode := by
      rw [Tree.root, show t = .node .program _ from hcurrent.partitioned.tree, Tree.isNode]
    have hcovers : t.root.covers start stop := by
      rw [Site.covers_iff]
      simp only [Tree.root, Site.stop]
      omega
    refine ⟨_, if_neg ?_, Site.isSmallest_coverLoop (n := t.height) (Nat.le_refl _) hlt hnode hcovers⟩
    simp only [Bool.or_eq_true, decide_eq_true_eq]
    omega
  · refine if_pos ?_
    simp only [Bool.or_eq_true, decide_eq_true_eq]
    omega

/-- Three nodes are around the same text, one in the other; the innermost is found. -/
theorem parse_covering?_member :
    let t := (parse "a.b".toList).tree
    ∃ x, t.covering? 0 3 = some x ∧ x.path = [.program, .expressionStatement, .attributeExpression] ∧
      t.root.IsSmallest 0 3 x := by
  intro t
  obtain ⟨x, hx, hsmallest⟩ := (parse_covering? "a.b".toList 0 3).1 (by decide) (by decide)
  have hpath : (t.covering? 0 3).map Site.path =
      some [.program, .expressionStatement, .attributeExpression] := by
    decide +kernel
  rw [hx] at hpath
  exact ⟨x, hx, Option.some.inj hpath, hsmallest⟩

end Document

end ScriptTree
