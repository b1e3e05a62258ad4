import ScriptTree.Proofs.Grammar.Layout
import ScriptTree.Proofs.Trivia.Attach
import ScriptTree.Proofs.Tree.Site
import ScriptTree.Proofs.Tree.Window

/-!
The comments above a statement and the trivia that leads its first token. The ones are read off the
front of the statement, and the others are found by a walk back from its first token, which goes on
into the statement before. Both are the same where that statement ends with a line break. A semicolon
ends a statement in the middle of a line: what follows it on the line stands at the front of the next
statement, but it trails the semicolon.
-/

namespace ScriptTree

namespace PlacedToken

def word (t : PlacedToken) : Word := (t.kind, t.text)

theorem map_word_placedFrom (start : Nat) (ws : List Word) :
    (Word.placedFrom start ws).map word = ws := by
  induction ws generalizing start with
  | nil => rfl
  | cons w ws ih => rw [Word.placedFrom, List.map_cons, ih, word]

theorem commentContent?_eq (t : PlacedToken) : t.commentContent? = t.word.commentContent? := by
  unfold commentContent? Word.commentContent?
  exact if_congr beq_iff_eq rfl rfl

theorem splitAfterBreak_append {line rest : List PlacedToken} {t : PlacedToken}
    (hline : ∀ u ∈ line, u.isNewline = false) (ht : t.isNewline) :
    splitAfterBreak (line ++ t :: rest) = (line ++ [t], rest) := by
  induction line with
  | nil => rw [List.nil_append, splitAfterBreak, if_pos ht, List.nil_append]
  | cons u line ih =>
    rw [List.cons_append, splitAfterBreak, ih fun x hx => hline x (List.mem_cons_of_mem u hx),
      if_neg (by simp [hline u List.mem_cons_self]), List.cons_append]

end PlacedToken

namespace Spot

def word? (w : Spot) : Option Word := w.leaf.token?.map PlacedToken.word

variable {w : Spot} {v : Word} {ws : List Spot} {vs : List Word}

theorem exists_token (h : w.word? = some v) : ∃ p, w.leaf = .token p ∧ p.word = v := by
  cases hl : w.leaf with
  | token p => exact ⟨p, rfl, by simpa [word?, hl, Leaf.token?] using h⟩
  | gap => simp [word?, hl, Leaf.token?] at h

theorem significant?_of_word? (h : w.word? = some v) :
    w.significant?.isSome = !v.1.isTrivia := by
  obtain ⟨p, hp, rfl⟩ := exists_token h
  simp [significant?, hp, Leaf.token?, PlacedToken.word, PlacedToken.isTrivia, Option.filter_some,
    apply_ite Option.isSome]

theorem significant?_eq_none (h : ws.map word? = vs.map some) (hvs : ∀ v ∈ vs, v.1.isTrivia) :
    ∀ w ∈ ws, w.significant? = none := by
  intro w hw
  obtain ⟨v, hv, hword⟩ := List.mem_map.1 (h ▸ List.mem_map_of_mem (f := word?) hw)
  have := significant?_of_word? hword.symm
  rw [hvs v hv] at this
  simpa using this

theorem map_word?_of_leaves {ls : List Leaf} {n : Nat} (h : ws.map leaf = ls)
    (hls : ∀ l ∈ ls, l.token?.isSome) (htokens : ls.filterMap Leaf.token? = Word.placedFrom n vs) :
    ws.map word? = vs.map some := by
  calc ws.map word?
    _ = ls.map fun l => l.token?.map PlacedToken.word := by
      rw [← h, List.map_map]
      rfl
    _ = (Word.placedFrom n vs).map fun p => some p.word := by
      rw [← Leaf.map_token_filterMap hls, htokens, List.map_map]
      rfl
    _ = vs.map some := by
      conv_rhs => rw [← PlacedToken.map_word_placedFrom n vs, List.map_map]
      rfl

theorem split_words {us : List Word} (h : ws.map word? = (vs ++ v :: us).map some) :
    ∃ as w bs, ws = as ++ w :: bs ∧ as.map word? = vs.map some ∧ w.word? = some v ∧
      bs.map word? = us.map some := by
  rw [List.map_append, List.map_cons] at h
  obtain ⟨as, rest, rfl, has, hrest⟩ := List.map_eq_append_iff.1 h
  obtain ⟨w, bs, rfl, hw, hbs⟩ := List.map_eq_cons_iff.1 hrest
  exact ⟨as, w, bs, rfl, has, hw, hbs⟩

/-- The tokens at some spots show the words there. -/
theorem map_word_tokens (h : ws.map word? = vs.map some) :
    (tokens ws).map PlacedToken.word = vs := by
  calc (tokens ws).map PlacedToken.word
    _ = (ws.map word?).filterMap id := by
      rw [tokens, List.map_filterMap, List.filterMap_map]
      rfl
    _ = vs := by rw [h, List.filterMap_map, Function.id_comp, List.filterMap_some]

/-- The comments at some spots are those of the words there. -/
theorem comments_tokens (h : ws.map word? = vs.map some) :
    (tokens ws).filterMap PlacedToken.commentContent? = vs.filterMap Word.commentContent? := by
  rw [← map_word_tokens h, List.filterMap_map]
  exact List.filterMap_congr fun p _ => p.commentContent?_eq

end Spot

def Site.spotBefore? (x : Site) (t : Tree) : Option Spot := (t.spots.take x.leavesBefore).getLast?

namespace Tree

variable {t : Tree}

/-- Where each node has text, the spots in front of a child of the root show the words in front of the
child, and those of the child its words. -/
theorem Filled.exists_spots {k : Kind} {fs gs : Forest} {x : Site} (h : t.Filled)
    (ht : t = .node k (fs ++ x.tree :: gs)) (hleaves : x.leavesBefore = Forest.leafCount fs) :
    ∃ as bs, t.spots = as ++ x.spots t ++ bs ∧ as.length = x.leavesBefore ∧
      as.map Spot.word? = (Forest.yield fs).map some ∧
      (x.spots t).map Spot.word? = x.tree.yield.map some := by
  have hsplit : t.leaves = Forest.leavesFrom 0 fs ++ (x.tree.leavesFrom (0 + Forest.bytes fs) ++
      Forest.leavesFrom (0 + Forest.bytes fs + x.tree.bytes) gs) := by
    rw [leaves, ht, leavesFrom_node (by simp), Forest.leavesFrom_append, Forest.leavesFrom]
  have hsome := h.isSome_token?
  simp only [hsplit, List.mem_append] at hsome
  obtain ⟨as, rest, hspots, has, hrest⟩ := List.map_eq_append_iff.1 (t.map_spots.trans hsplit)
  obtain ⟨xs, bs, rfl, hxs, -⟩ := List.map_eq_append_iff.1 hrest
  have hlength : as.length = x.leavesBefore := by
    rw [hleaves, ← Forest.length_leavesFrom fs 0, ← has, List.length_map]
  have hlength' : xs.length = x.tree.leafCount := by
    rw [← x.tree.length_leavesFrom (0 + Forest.bytes fs), ← hxs, List.length_map]
  have hwindow : x.spots t = xs := by
    rw [Site.spots, hspots, ← hlength, List.drop_left, ← hlength', List.take_left]
  refine ⟨as, bs, by rw [hwindow, hspots, List.append_assoc], hlength, ?_, ?_⟩
  · exact Spot.map_word?_of_leaves has (fun l hl => hsome l (.inl hl)) (Forest.tokens_leavesFrom fs 0)
  · rw [hwindow]
    exact Spot.map_word?_of_leaves hxs (fun l hl => hsome l (.inr (.inl hl)))
      (x.tree.tokens_leavesFrom _)

/-- The first token of a statement that is no trivia stands behind the comments of the statement. -/
theorem Filled.exists_first {k : Kind} {fs gs : Forest} {x : Site} {lead : List Token}
    (h : t.Filled) (ht : t = .node k (fs ++ x.tree :: gs))
    (hleaves : x.leavesBefore = Forest.leafCount fs) (hfront : Statement.Front x.tree lead) :
    ∃ as ls u us, t.spots = as ++ (ls ++ u :: us) ∧ x.spotBefore? t = as.getLast? ∧
      as.map Spot.word? = (Forest.yield fs).map some ∧
      (x.spots t).find? (fun w => w.significant?.isSome) = some u ∧ u.significant?.isSome ∧
      (∀ w ∈ ls, w.significant? = none) ∧
      Ast.frontComments x.tree.children = (Spot.tokens ls).filterMap PlacedToken.commentContent? := by
  obtain ⟨v, ws, hyield, hv⟩ := hfront.yield
  obtain ⟨as, bs, hspots, hlength, has, hwords⟩ := h.exists_spots ht hleaves
  rw [hyield] at hwords
  obtain ⟨ls, u, us, hsplit, hls, hu, -⟩ := Spot.split_words hwords
  have htrivia : ∀ w ∈ ls, w.significant? = none := by
    refine Spot.significant?_eq_none hls fun w hw => ?_
    obtain ⟨c, hc, rfl⟩ := List.mem_map.1 hw
    exact hfront.trivia c hc
  have hsome : u.significant?.isSome := by
    rw [Spot.significant?_of_word? hu, hv]
    rfl
  refine ⟨as, ls, u, us ++ bs, by simp [hspots, hsplit], ?_, has, ?_, hsome, htrivia, ?_⟩
  · rw [Site.spotBefore?, hspots, ← hlength, List.append_assoc, List.take_left]
  · rw [hsplit]
    exact List.find?_eq_some_iff_append.2 ⟨hsome, ls, us, rfl, fun w hw => by simp [htrivia w hw]⟩
  · rw [Spot.comments_tokens hls, List.filterMap_map, hfront.frontComments_eq]
    rfl

/-- What leads a token behind a terminator: what comes in between, but the part of it that trails the
terminator if that is a semicolon. -/
theorem Filled.leading_of_ended (h : t.Filled) {as lead bs : List Spot} {u : Spot}
    (hs : t.spots = as ++ (lead ++ u :: bs)) (hlead : ∀ w ∈ lead, w.significant? = none)
    (hu : u.significant?.isSome) {ws : List Word} (has : as.map Spot.word? = ws.map some)
    (hended : Statement.Ended ws) :
    ∃ v p, as.getLast? = some v ∧ v.leaf = .token p ∧
      ((p.kind = .newline ∧ u.leading = Spot.tokens lead) ∨
        (p.kind = .semicolon ∧ v.trailing ++ u.leading = Spot.tokens lead)) := by
  cases hended with
  | @semicolon ws w hw =>
    obtain ⟨front, v, last, rfl, -, hv, hlast⟩ := Spot.split_words has
    obtain rfl : last = [] := by simpa using hlast
    obtain ⟨p, hp, rfl⟩ := Spot.exists_token hv
    have hk : p.kind = .semicolon := hw
    have hsignificant : v.significant?.isSome := by
      rw [Spot.significant?_of_word? hv, hw]
      rfl
    have hcut := h.cutAtBreak (by simpa using hs) hsignificant hu hlead
    exact ⟨v, p, by simp, hp, .inr ⟨hk, hcut.append_eq⟩⟩
  | @newline ws a line w ha hline hw =>
    obtain ⟨front, v, rest, rfl, -, hv, hrest⟩ := Spot.split_words has
    obtain ⟨line', b, last, rfl, hline', hb, hlast⟩ := Spot.split_words hrest
    obtain rfl : last = [] := by simpa using hlast
    obtain ⟨p, hp, rfl⟩ := Spot.exists_token hb
    have hk : p.kind = .newline := hw
    have hsignificant : v.significant?.isSome := by
      rw [Spot.significant?_of_word? hv, ha]
      rfl
    have hbetween : ∀ x ∈ (line' ++ [b]) ++ lead, x.significant? = none := by
      have htrivia : ∀ w ∈ line ++ [p.word], w.1.isTrivia := by
        refine List.forall_mem_append.2 ⟨fun w hw => (hline w hw).1, List.forall_mem_singleton.2 ?_⟩
        rw [hw]
        rfl
      exact List.forall_mem_append.2 ⟨Spot.significant?_eq_none hrest htrivia, hlead⟩
    have hbreak : ∀ q ∈ Spot.tokens line', q.isNewline = false := by
      intro q hq
      have hmem := List.mem_map_of_mem (f := PlacedToken.word) hq
      rw [Spot.map_word_tokens hline'] at hmem
      exact beq_eq_false_iff_ne.2 (hline _ hmem).2
    have hsplit := h.splitAfterBreak (by simpa using hs) hsignificant hu hbetween
    rw [List.append_assoc, Spot.tokens_append, List.singleton_append, Spot.tokens_cons hp,
      PlacedToken.splitAfterBreak_append hbreak (beq_iff_eq.2 hk)] at hsplit
    have hlast : (front ++ v :: (line' ++ [b])).getLast? = some b :=
      List.getLast?_eq_some_iff.2 ⟨front ++ v :: line', by simp⟩
    exact ⟨b, p, hlast, hp, .inl ⟨hk, (Prod.mk.inj hsplit).2⟩⟩

end Tree

namespace Ast.Statement

def heading : Statement → Heading
  | assignment h .. => h
  | expression h .. => h

theorem heading_of_ofSite? {x : Site} {st : Statement} (h : ofSite? x = some st) :
    st.heading = Ast.heading x ∧ x.tree.isNode := by
  unfold ofSite? at h
  split at h
  · rename_i ts htree
    obtain rfl := Option.some.inj h
    exact ⟨rfl, by rw [htree]; rfl⟩
  · rename_i ts htree
    obtain rfl := Option.some.inj h
    exact ⟨rfl, by rw [htree]; rfl⟩
  · exact absurd h (by simp)

end Ast.Statement

/-- A node among the children of a script is a statement of it. -/
theorem Statement.exists_of_children {ss : List Statement} {tail : List Token} {fs gs : Forest}
    {t : Tree} (h : ss.map Statement.tree ++ tail.map Token.tree = fs ++ t :: gs)
    (ht : t.isNode) :
    ∃ front x back, ss = front ++ x :: back ∧ front.map Statement.tree = fs ∧ x.tree = t := by
  have htail : t ∉ tail.map Token.tree := by
    intro hmem
    obtain ⟨u, -, rfl⟩ := List.mem_map.1 hmem
    exact absurd ht (by simp [Token.tree, Tree.isNode])
  rcases List.append_eq_append_iff.1 h with ⟨us, -, hus⟩ | ⟨us, hss, hus⟩
  · exact absurd (hus ▸ List.mem_append_right us List.mem_cons_self) htail
  · cases us with
    | nil =>
      rw [List.nil_append] at hus
      exact absurd (hus ▸ List.mem_cons_self) htail
    | cons u us =>
      obtain ⟨rfl, -⟩ := List.cons.inj hus
      obtain ⟨front, rest, rfl, hfront, hrest⟩ := List.map_eq_append_iff.1 hss
      obtain ⟨x, back, rfl, hx, -⟩ := List.map_eq_cons_iff.1 hrest
      exact ⟨front, x, back, rfl, hfront, hx⟩

namespace Document

variable {d : Document}

/-- The place of a statement in the tree of a text. -/
theorem Current.exists_statement (h : d.Current) {x : Site} (hx : x ∈ d.tree.root.children)
    (hnode : x.tree.isNode) :
    ∃ front y back gs, d.statements = front ++ y :: back ∧ y.tree = x.tree ∧
      d.tree = .node .program (front.map Statement.tree ++ x.tree :: gs) ∧
      x.leavesBefore = Forest.leafCount (front.map Statement.tree) := by
  obtain ⟨fs, u, gs, hchildren, rfl⟩ := Site.mem_children_iff.1 hx
  have htree := h.partitioned.tree
  rw [show d.tree.root.tree = d.tree from rfl, htree, Tree.children] at hchildren
  obtain ⟨front, y, back, hss, rfl, hy⟩ := Statement.exists_of_children hchildren hnode
  exact ⟨front, y, back, gs, hss, hy, by rw [htree, hchildren], Nat.zero_add _⟩

theorem Current.ne_nil_of_statement (h : d.Current) {y : Statement} (hy : y ∈ d.statements) :
    d.text ≠ [] := by
  intro hnil
  obtain ⟨tail, hseq, -⟩ := h.sequence
  have htokens : Lexer.tokens [] = [] := by simp [Lexer.tokens, Lexer.scan]
  rw [hnil, htokens] at hseq
  simp [hseq.eq_nil] at hy

theorem Current.fronts (h : d.Current) (herror : d.hasErrors = false) :
    (∀ x ∈ d.statements, ∃ lead, Statement.Front x.tree lead) ∧
      ∀ front x back, d.statements = front ++ x :: back → back ≠ [] →
        Statement.Ended x.tree.yield := by
  obtain ⟨tail, hseq, htree⟩ := h.sequence
  have herr : (programTree (d.statements.map Statement.tree) tail).hasError = false := by
    rw [← htree, ← Bool.not_eq_true, ← h.hasErrors_iff_hasError, herror]
    exact Bool.false_ne_true
  exact hseq.fronts (fun t ht => Lexer.spelled_of_mem_scan ht)
    fun x hx => Grammar.hasError_of_programTree herr _ (List.mem_map_of_mem hx)

/-- In a text without errors each statement has a first token that is no trivia. If the statement is
the first one or stands behind a line break, the comments above it are those that lead this token; if
it stands behind a semicolon, they are those that trail the semicolon and then those that lead this
token. Nothing else stands in front of a statement. -/
theorem parse_comments {s : Text} (h : (parse s).hasErrors = false) :
    let t := (parse s).tree
    ∀ x ∈ t.root.children, ∀ st, Ast.Statement.ofSite? x = some st →
      ∃ u, (x.spots t).find? (fun w => w.significant?.isSome) = some u ∧
        ((x.spotBefore? t = none ∧
            st.heading.comments = u.leading.filterMap PlacedToken.commentContent?) ∨
          ∃ v p, x.spotBefore? t = some v ∧ v.leaf = .token p ∧
            ((p.kind = .newline ∧
                st.heading.comments = u.leading.filterMap PlacedToken.commentContent?) ∨
              (p.kind = .semicolon ∧ st.heading.comments =
                (v.trailing ++ u.leading).filterMap PlacedToken.commentContent?))) := by
  intro t x hx st hst
  have hcurrent := parse_current s
  obtain ⟨hheading, hnode⟩ := Ast.Statement.heading_of_ofSite? hst
  obtain ⟨front, y, back, gs, hss, hy, htree, hleaves⟩ := hcurrent.exists_statement hx hnode
  have hfilled : t.Filled :=
    hcurrent.filled (hcurrent.ne_nil_of_statement (y := y) (by simp [hss])) h
  obtain ⟨hfronts, hends⟩ := hcurrent.fronts h
  obtain ⟨lead, hlead⟩ := hfronts y (by simp [hss])
  rw [hy] at hlead
  obtain ⟨as, ls, u, us, hspots, hbefore, has, hfirst, hu, hls, hcomments⟩ :=
    hfilled.exists_first htree hleaves hlead
  have hcomments : st.heading.comments = (Spot.tokens ls).filterMap PlacedToken.commentContent? := by
    rw [hheading]
    exact hcomments
  refine ⟨u, hfirst, ?_⟩
  rw [hbefore, hcomments]
  rcases List.eq_nil_or_concat' front with rfl | ⟨front, z, rfl⟩
  · -- Nothing stands in front of the first statement.
    obtain rfl : as = [] := by simpa using has
    exact .inl ⟨rfl, by rw [hfilled.leading_first hspots hls]⟩
  · have hz := hends front z (y :: back) (by simp [hss]) (List.cons_ne_nil y back)
    rw [List.map_append, Forest.yield_append] at has
    obtain ⟨v, p, hlast, hp, hleading⟩ :=
      hfilled.leading_of_ended hspots hls hu has (by simpa using hz.behind _)
    refine .inr ⟨v, p, hlast, hp, hleading.imp ?_ ?_⟩
    · rintro ⟨hk, hleading⟩
      exact ⟨hk, by rw [hleading]⟩
    · rintro ⟨hk, hleading⟩
      exact ⟨hk, by rw [hleading]⟩

/-- The second of three statements stands behind a semicolon: one of the two comments above it trails
the semicolon, and the other one leads it. -/
theorem parse_comments_semicolon :
    let s : Text := "x; # one\n# two\ny\n# three\nz".toList
    let t := (parse s).tree
    (parse s).hasErrors = false ∧ ∃ x ∈ t.root.children, ∃ st u v,
      Ast.Statement.ofSite? x = some st ∧
      (x.spots t).find? (fun w => w.significant?.isSome) = some u ∧ x.spotBefore? t = some v ∧
      v.trailing.filterMap PlacedToken.commentContent? = ["one".toList] ∧
      u.leading.filterMap PlacedToken.commentContent? = ["two".toList] ∧
      st.heading.comments = ["one".toList, "two".toList] := by
  intro s t
  obtain ⟨hlength, hsome, hbefore, hfirst⟩ : ∃ _ : 1 < t.root.children.length,
      (Ast.Statement.ofSite? t.root.children[1]).isSome ∧
      (∃ v ∈ t.root.children[1].spotBefore? t, v.leaf = .token ⟨.semicolon, [';'], 1⟩ ∧
        v.trailing.filterMap PlacedToken.commentContent? = ["one".toList]) ∧
      ∃ u ∈ (t.root.children[1].spots t).find? fun w => w.significant?.isSome,
        u.leading.filterMap PlacedToken.commentContent? = ["two".toList] := by
    decide +kernel
  obtain ⟨st, hst⟩ := Option.isSome_iff_exists.1 hsome
  obtain ⟨v, hv, hleaf, htrailing⟩ := hbefore
  obtain ⟨u, hu, hleading⟩ := hfirst
  have hclean : (parse s).hasErrors = false := by decide +kernel
  have hmem := List.getElem_mem hlength
  obtain ⟨u', hu', hcomments⟩ := parse_comments hclean _ hmem st hst
  obtain rfl := Option.some.inj (hu.symm.trans hu')
  refine ⟨hclean, _, hmem, st, u, v, hst, hu, hv, htrailing, hleading, ?_⟩
  rcases hcomments with ⟨hnone, -⟩ | ⟨v', p, hv', hp, hends⟩
  · exact absurd (hnone.symm.trans hv) (by simp)
  · obtain rfl := Option.some.inj (hv.symm.trans hv')
    obtain rfl := Leaf.token.inj (hleaf.symm.trans hp)
    rcases hends with ⟨hk, -⟩ | ⟨-, hcomments⟩
    · exact absurd hk (by decide)
    · rw [hcomments, List.filterMap_append, htrailing, hleading]
      rfl

/-- A comment on the line of a semicolon is one of those above the next statement, though it does not
lead the first token there. -/
theorem parse_comments_ne_leading :
    let s : Text := "x; # c\ny".toList
    let t := (parse s).tree
    (parse s).hasErrors = false ∧ ∃ x ∈ t.root.children, ∃ st u,
      Ast.Statement.ofSite? x = some st ∧
      (x.spots t).find? (fun w => w.significant?.isSome) = some u ∧
      st.heading.comments = ["c".toList] ∧
      u.leading.filterMap PlacedToken.commentContent? = [] := by
  intro s t
  obtain ⟨hclean, x, hx, ⟨st, hst, hcomments⟩, u, hu, hleading⟩ : (parse s).hasErrors = false ∧
      ∃ x ∈ t.root.children,
        (∃ st ∈ Ast.Statement.ofSite? x, st.heading.comments = ["c".toList]) ∧
        ∃ u ∈ (x.spots t).find? fun w => w.significant?.isSome,
          u.leading.filterMap PlacedToken.commentContent? = [] := by
    decide +kernel
  exact ⟨hclean, x, hx, st, u, hst, hu, hcomments, hleading⟩

end Document

end ScriptTree
