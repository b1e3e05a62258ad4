import ScriptTree.Ast.Expr
import ScriptTree.Highlight.Project
import ScriptTree.Proofs.Highlight.Rule
import ScriptTree.Proofs.Statement.Shape
import ScriptTree.Proofs.Tree.Site

namespace ScriptTree

namespace Site

variable {x y : Site} {xs ys : List Site}

def argumentName? (y : Site) : Option Site :=
  y.children.find? fun c => c.isToken && c.kind == .identifier

/-- The first identifier among the children that are tokens, from the first dot on. -/
def member? (y : Site) : Option Site :=
  ((y.children.filter isToken).dropWhile fun c => c.kind != .dot).find? fun c =>
    c.kind == .identifier

/-- A keyword argument is named by its first identifier, and a member by the identifier behind the
dot. -/
inductive Names (y x : Site) : Prop
  | argument (hkind : y.kind = .keywordArgument) (h : y.argumentName? = some x)
  | member (hkind : y.kind = .attributeExpression) (h : y.member? = some x)

/-! ### What is read off a node -/

theorem map_find?_childSites (p : Kind → Bool) (ts : Forest) (k : Kind) (above : List Crumb)
    (before : Forest) (start leaves : Nat) :
    ((Forest.childSites k above before start leaves ts).find? fun c => c.isToken && p c.kind).map
      (fun c => (c.kind, c.tree.text)) = Forest.token? p ts := by
  induction ts generalizing before start leaves with
  | nil => rfl
  | cons t ts ih =>
    rw [Forest.childSites]
    cases t with
    | token l s =>
      by_cases hp : p l
      · rw [List.find?_cons_of_pos (by simpa [isToken, Tree.isNode, kind, Tree.kind] using hp),
          Forest.token?, if_pos hp]
        rfl
      · rw [List.find?_cons_of_neg (by simpa [isToken, Tree.isNode, kind, Tree.kind] using hp),
          Forest.token?, if_neg hp, ih]
    | node l us =>
      rw [List.find?_cons_of_neg (by simp [isToken, Tree.isNode]), Forest.token?, ih]

theorem text_argumentName? (y : Site) :
    y.argumentName?.map (fun c => c.tree.text) =
      (Forest.token? (· == .identifier) y.tree.children).map Prod.snd := by
  rw [← map_find?_childSites _ _ y.kind y.above [] y.start y.leavesBefore, Option.map_map]
  rfl

theorem map_member_childSites (ts : Forest) (k : Kind) (above : List Crumb) (before : Forest)
    (start leaves : Nat) :
    ((((Forest.childSites k above before start leaves ts).filter isToken).dropWhile fun c =>
      c.kind != .dot).find? fun c => c.kind == .identifier).map (fun c => c.tree.text) =
      Forest.member? ts := by
  induction ts generalizing before start leaves with
  | nil => rfl
  | cons t ts ih =>
    rw [Forest.childSites]
    cases t with
    | node l us =>
      rw [List.filter_cons_of_neg (by simp [isToken, Tree.isNode]), ih, Forest.member?]
      exact fun _ heq => absurd heq (by simp)
    | token l s =>
      rw [List.filter_cons_of_pos rfl]
      by_cases hdot : l = .dot
      · have hfilter (xs : List Site) : (xs.filter isToken).find? (fun c => c.kind == .identifier) =
            xs.find? fun c => c.isToken && c.kind == .identifier := by
          simp only [List.find?_filter, Bool.decide_and, Bool.decide_eq_true]
        subst hdot
        rw [List.dropWhile_cons_of_neg (by simp [kind, Tree.kind]),
          List.find?_cons_of_neg (by simp [kind, Tree.kind]), hfilter, Forest.member?,
          ← map_find?_childSites _ ts k above (.token .dot s :: before), Option.map_map]
        rfl
      · rw [List.dropWhile_cons_of_pos (by simpa [kind, Tree.kind] using hdot), ih, Forest.member?]
        rintro s' heq
        exact hdot (Tree.token.inj heq).1

theorem text_member? (y : Site) :
    y.member?.map (fun c => c.tree.text) = Forest.member? y.tree.children :=
  map_member_childSites ..

/-! ### What stands before a name -/

/-- A child is found just when it is looked for and nothing in front of it is. -/
theorem find?_children_iff {p : Site → Bool} (h : y.children = xs ++ x :: ys) :
    y.children.find? p = some x ↔ p x ∧ ∀ c ∈ xs, p c = false := by
  rw [List.find?_eq_some_iff_append]
  constructor
  · rintro ⟨hp, us, vs, hsplit, hus⟩
    obtain ⟨rfl, -⟩ := eq_of_children hsplit h
    exact ⟨hp, fun c hc => by simpa using hus c hc⟩
  · rintro ⟨hp, hxs⟩
    exact ⟨hp, xs, ys, h, fun c hc => by simpa using hxs c hc⟩

theorem inNameSlot_of_keywordArgument (hkind : y.kind = .keywordArgument)
    (h : y.children = xs ++ x :: ys) :
    x.inNameSlot = ((xs.map tree).reverse.find? fun t => !t.kind.isTrivia).isNone := by
  simp only [inNameSlot, above_of_children h, hkind]

theorem inNameSlot_of_attributeExpression (hkind : y.kind = .attributeExpression)
    (h : y.children = xs ++ x :: ys) :
    x.inNameSlot =
      ((xs.map tree).reverse.find? fun t => !t.kind.isTrivia).any fun t => t.kind == .dot := by
  simp only [inNameSlot, above_of_children h, hkind]

theorem shape_of_children (hy : y.tree.Shaped) (h : y.children = xs ++ x :: ys) :
    Shape y.kind (Forest.significant (xs.map tree ++ x.tree :: ys.map tree)) := by
  have htrees : y.tree.children = xs.map tree ++ x.tree :: ys.map tree := by
    rw [← map_tree_children, h, List.map_append, List.map_cons]
  obtain ⟨t, start, above, leaves⟩ := y
  cases t with
  | token k s => simp [Tree.children] at htrees
  | node k ts =>
    obtain rfl : ts = _ := htrees
    exact (Tree.shaped_node.1 hy).1

end Site

theorem Tree.kind_ne_of_isTrivia {t : Tree} {k : Kind} (h : t.isTrivia) (hk : k.isTrivia = false) :
    t.kind ≠ k := by
  rintro rfl
  cases t with
  | token k s => exact absurd (hk.symm.trans h) Bool.false_ne_true
  | node k ts => exact absurd h Bool.false_ne_true

theorem Forest.isTrivia_of_significant {ts : Forest} (h : significant ts = []) :
    ∀ t ∈ ts, t.isTrivia := by
  simpa [significant] using h

/-- From behind, the first tree that is not trivia is the last significant one. -/
theorem Forest.find?_reverse {ts : Forest}
    (h : ∀ t ∈ significant ts, t.kind.isTrivia = false) :
    (ts.reverse.find? fun t => !t.kind.isTrivia) = (significant ts).getLast? := by
  rw [← List.head?_filter, List.filter_reverse, List.head?_reverse, significant]
  congr 1
  refine List.filter_congr fun t ht => ?_
  cases t with
  | token k s => rfl
  | node k us => simp [Tree.isTrivia, h _ (List.mem_filter.2 ⟨ht, rfl⟩)]

/-- What stands before one of three significant trees. -/
theorem Forest.front_of_significant {fs gs : Forest} {t u v w : Tree} (ht : t.isTrivia = false)
    (h : significant (fs ++ t :: gs) = [u, v, w]) :
    significant fs = [] ∨ significant fs = [u] ∧ t = v ∨ significant fs = [u, v] := by
  rw [significant_append, significant_cons ht] at h
  match hfs : significant fs with
  | [] => exact .inl rfl
  | [a] =>
    rw [hfs, List.singleton_append, List.cons.injEq, List.cons.injEq] at h
    exact .inr (.inl ⟨by rw [h.1], h.2.1⟩)
  | [a, b] =>
    rw [hfs, List.cons_append, List.singleton_append, List.cons.injEq, List.cons.injEq] at h
    exact .inr (.inr (by rw [h.1, h.2.1]))
  | a :: b :: c :: us => simp [hfs] at h

/-- An identifier in a keyword argument has nothing in front of it, or the name and the sign behind
it. -/
theorem Shape.front_keywordArgument {fs gs : Forest} {name : Text}
    (h : Shape .keywordArgument (Forest.significant (fs ++ .token .identifier name :: gs))) :
    Forest.significant fs = [] ∨
      ∃ a b, Forest.significant fs = [.token .identifier a, .token .eq b] := by
  have hshape {ts : Forest} (h : Shape .keywordArgument ts) :
      ∃ x y a, ts = [.token .identifier x, .token .eq y, a] := by
    cases h
    exact ⟨_, _, _, rfl⟩
  obtain ⟨x, y, a, heq⟩ := hshape h
  rcases Forest.front_of_significant rfl heq with hnil | ⟨-, hsign⟩ | hfront
  · exact .inl hnil
  · exact absurd hsign (by simp)
  · exact .inr ⟨x, y, hfront⟩

/-- An identifier in an attribute expression has nothing in front of it, or an operand and the dot. -/
theorem Shape.front_attributeExpression {fs gs : Forest} {name : Text}
    (h : Shape .attributeExpression (Forest.significant (fs ++ .token .identifier name :: gs))) :
    Forest.significant fs = [] ∨
      ∃ a b, a.isOperand ∧ Forest.significant fs = [a, .token .dot b] := by
  have hshape {ts : Forest} (h : Shape .attributeExpression ts) :
      ∃ a x t, a.isOperand ∧ ts = [a, .token .dot x, t] := by
    cases h with
    | member ha => exact ⟨_, _, _, ha, rfl⟩
    | wrongMember ha => exact ⟨_, _, _, ha, rfl⟩
  obtain ⟨a, x, t, ha, heq⟩ := hshape h
  rcases Forest.front_of_significant rfl heq with hnil | ⟨-, hdot⟩ | hfront
  · exact .inl hnil
  · exact absurd hdot (by simp)
  · exact .inr ⟨a, x, ha, hfront⟩

theorem Tree.kind_of_isOperand {t : Tree} (h : t.isOperand) :
    t.kind.isTrivia = false ∧ t.kind ≠ .dot := by
  cases t with
  | token k s => cases k <;> simp_all [isOperand, kind, Kind.isLiteral, Kind.isTrivia]
  | node k ts => cases k <;> simp_all [isOperand, kind, Kind.isExpression, Kind.isTrivia]

namespace Site

variable {x y : Site} {xs ys : List Site} {name : Text}

theorem of_tree_eq_token {k : Kind} (h : x.tree = .token k name) : x.isToken ∧ x.kind = k := by
  simp [isToken, kind, h, Tree.isNode, Tree.kind]

theorem inNameSlot_iff_argumentName? (hy : y.tree.Shaped) (hkind : y.kind = .keywordArgument)
    (h : y.children = xs ++ x :: ys) (hx : x.tree = .token .identifier name) :
    x.inNameSlot ↔ y.argumentName? = some x := by
  have hshape := shape_of_children hy h
  rw [hkind, hx] at hshape
  rw [argumentName?, find?_children_iff h, inNameSlot_of_keywordArgument hkind h]
  rcases hshape.front_keywordArgument with hnil | ⟨a, b, hfront⟩
  · rw [Forest.find?_reverse (by simp [hnil]), hnil]
    have htrivia := Forest.isTrivia_of_significant hnil
    refine iff_of_true rfl ⟨by simp [of_tree_eq_token hx], fun c hc => ?_⟩
    rw [Bool.and_eq_false_iff, beq_eq_false_iff_ne]
    exact .inr (Tree.kind_ne_of_isTrivia (htrivia _ (List.mem_map_of_mem hc)) rfl)
  · -- The name stands in front.
    have hkinds : ∀ t ∈ Forest.significant (xs.map tree), t.kind.isTrivia = false := by
      rw [hfront]
      simp only [List.forall_mem_cons]
      exact ⟨rfl, rfl, List.forall_mem_nil _⟩
    rw [Forest.find?_reverse hkinds, hfront]
    refine iff_of_false (by simp) fun hall => ?_
    have hmem : Tree.token .identifier a ∈ Forest.significant (xs.map tree) := by simp [hfront]
    obtain ⟨c, hc, hname⟩ := List.mem_map.1 (List.mem_of_mem_filter hmem)
    exact absurd (hall.2 c hc) (by simp [of_tree_eq_token hname])

/-- The children up to the first dot are passed over. -/
theorem member?_of_children {us vs : List Site} {d : Site} (h : y.children = us ++ d :: vs)
    (hd : d.tree = .token .dot name) (hus : ∀ c ∈ us, c.kind ≠ .dot) :
    y.member? = vs.find? fun c => c.isToken && c.kind == .identifier := by
  have hpass : ∀ c ∈ us.filter isToken, c.kind != .dot :=
    fun c hc => bne_iff_ne.2 (hus c (List.mem_of_mem_filter hc))
  obtain ⟨htoken, hkind⟩ := of_tree_eq_token hd
  rw [member?, h, List.filter_append, List.dropWhile_append_of_pos hpass,
    List.filter_cons_of_pos htoken, List.dropWhile_cons_of_neg (by simp [hkind]),
    List.find?_cons_of_neg (by simp [hkind]), List.find?_filter]
  simp only [Bool.decide_and, Bool.decide_eq_true]

/-- Before the dot of a member stands no other dot, and behind it there is only trivia. -/
theorem exists_dot {a : Tree} {b : Text} (ha : a.isOperand)
    (hfront : Forest.significant (xs.map tree) = [a, .token .dot b]) :
    ∃ us d vs, xs = us ++ d :: vs ∧ d.tree = .token .dot b ∧ (∀ c ∈ us, c.kind ≠ .dot) ∧
      ∀ c ∈ vs, c.tree.isTrivia := by
  rw [Forest.significant, List.filter_map, List.map_eq_cons_iff] at hfront
  obtain ⟨c, cs, hfilter, rfl, hdot⟩ := hfront
  obtain ⟨d, rfl, hd⟩ := List.map_eq_singleton_iff.1 hdot
  obtain ⟨us, ws, rfl, hus, hws⟩ :=
    List.filter_eq_append_iff.1 (hfilter.trans List.singleton_append.symm)
  obtain ⟨vs, vs', rfl, hvs, -, hvs'⟩ := List.filter_eq_cons_iff.1 hws
  refine ⟨us ++ vs, d, vs', by simp, hd, fun e he => ?_, ?_⟩
  · rcases List.mem_append.1 he with he | he
    · by_cases htrivia : e.tree.isTrivia
      · exact Tree.kind_ne_of_isTrivia htrivia rfl
      · have hmem : e ∈ [c] := hus ▸ List.mem_filter.2 ⟨he, by simpa using htrivia⟩
        rw [List.mem_singleton.1 hmem]
        exact (Tree.kind_of_isOperand ha).2
    · exact Tree.kind_ne_of_isTrivia (by simpa using hvs e he) rfl
  · simpa using hvs'

theorem inNameSlot_iff_member? (hy : y.tree.Shaped) (hkind : y.kind = .attributeExpression)
    (h : y.children = xs ++ x :: ys) (hx : x.tree = .token .identifier name) :
    x.inNameSlot ↔ y.member? = some x := by
  have hshape := shape_of_children hy h
  rw [hkind, hx] at hshape
  rw [inNameSlot_of_attributeExpression hkind h]
  rcases hshape.front_attributeExpression with hnil | ⟨a, b, ha, hfront⟩
  · -- No dot is in front, so what is found stands behind.
    rw [Forest.find?_reverse (by simp [hnil]), hnil]
    refine iff_of_false (by simp) fun hfound => not_mem_behind h ?_
    have htrivia := Forest.isTrivia_of_significant hnil
    have hpass : ∀ c ∈ (xs ++ [x]).filter isToken, c.kind != .dot := by
      intro c hc
      rw [bne_iff_ne]
      rcases List.mem_append.1 (List.mem_of_mem_filter hc) with hc | hc
      · exact Tree.kind_ne_of_isTrivia (htrivia _ (List.mem_map_of_mem hc)) rfl
      · rw [List.mem_singleton.1 hc, (of_tree_eq_token hx).2]
        decide
    rw [member?, h, List.append_cons, List.filter_append,
      List.dropWhile_append_of_pos hpass] at hfound
    exact List.mem_of_mem_filter ((List.dropWhile_sublist _).mem (List.mem_of_find?_eq_some hfound))
  · -- The dot is in front, and there is only trivia between.
    have hkinds : ∀ t ∈ Forest.significant (xs.map tree), t.kind.isTrivia = false := by
      rw [hfront]
      simp only [List.forall_mem_cons]
      exact ⟨(Tree.kind_of_isOperand ha).1, rfl, List.forall_mem_nil _⟩
    rw [Forest.find?_reverse hkinds, hfront]
    refine iff_of_true rfl ?_
    obtain ⟨us, d, vs, rfl, hd, hus, hvs⟩ := exists_dot ha hfront
    have h' : y.children = us ++ d :: (vs ++ x :: ys) := by simpa using h
    rw [member?_of_children h' hd hus, List.find?_append, List.find?_eq_none.2 ?_, Option.none_or,
      List.find?_cons_of_pos (by simp [of_tree_eq_token hx])]
    intro c hc
    rw [Bool.and_eq_true, beq_iff_eq]
    exact fun hfound => Tree.kind_ne_of_isTrivia (hvs c hc) rfl hfound.2

/-- What stands before a child tells the same as reading its parent from the front. -/
theorem inNameSlot_iff_names (hy : y.tree.Shaped) (hmem : x ∈ y.children)
    (hx : x.tree = .token .identifier name) : x.inNameSlot ↔ y.Names x := by
  obtain ⟨xs, ys, h⟩ := List.append_of_mem hmem
  by_cases hargument : y.kind = .keywordArgument
  · rw [inNameSlot_iff_argumentName? hy hargument h hx]
    refine ⟨.argument hargument, fun hnames => ?_⟩
    cases hnames with
    | argument _ hname => exact hname
    | member hkind _ => exact absurd (hargument.symm.trans hkind) (by decide)
  by_cases hmember : y.kind = .attributeExpression
  · rw [inNameSlot_iff_member? hy hmember h hx]
    refine ⟨.member hmember, fun hnames => ?_⟩
    cases hnames with
    | argument hkind _ => exact absurd hkind hargument
    | member _ hname => exact hname
  refine iff_of_false ?_ fun hnames => ?_
  · rw [inNameSlot, above_of_children h]
    simp
  · cases hnames with
    | argument hkind _ => exact hargument hkind
    | member hkind _ => exact hmember hkind

theorem shaped_of_mem_sites (hx : x.tree.Shaped) : ∀ y ∈ x.sites, y.tree.Shaped := by
  refine forall_mem_sites (P := fun y => y.tree.Shaped) (fun y hy c hc => ?_) x hx
  have hmem : c.tree ∈ y.tree.children := y.map_tree_children ▸ List.mem_map_of_mem hc
  cases htree : y.tree with
  | token k s => simp [htree, Tree.children] at hmem
  | node k ts =>
    rw [htree] at hy hmem
    exact Forest.shaped_significant.1 (Tree.shaped_node.1 hy).2 _ hmem

/-! ### Tags of names -/

theorem classified_eq (hx : x.tree = .token .identifier name) :
    x.classified =
      if x.inNameSlot then .identifier
      else if name ∈ builtinTypes then .builtinType
      else if name ∈ builtinFunctions then .builtinFunction
      else .identifier := by
  have hkind : x.classified =
      if x.inNameSlot then .identifier else (builtinKind? name).getD .identifier := by
    rw [classified, hx]
  rw [hkind, builtinKind?]
  simp only [List.contains_iff_mem]
  repeat' split
  all_goals rfl

theorem not_mem_builtinFunctions : ∀ name ∈ builtinTypes, name ∉ builtinFunctions := by decide

theorem classified_eq_builtinType_iff (hx : x.tree = .token .identifier name) :
    x.classified = .builtinType ↔ name ∈ builtinTypes ∧ ¬x.inNameSlot := by
  rw [classified_eq hx]
  split_ifs <;> simp [*]

theorem classified_eq_builtinFunction_iff (hx : x.tree = .token .identifier name) :
    x.classified = .builtinFunction ↔ name ∈ builtinFunctions ∧ ¬x.inNameSlot := by
  have hdisjoint := not_mem_builtinFunctions name
  rw [classified_eq hx]
  split_ifs <;> simp_all

theorem classified_eq_identifier (hx : x.tree = .token .identifier name)
    (h : x.inNameSlot ∨ name ∉ builtinTypes ∧ name ∉ builtinFunctions) :
    x.classified = .identifier := by
  rw [classified_eq hx]
  split_ifs <;> simp_all

theorem tag?_eq_typeName_iff (x : Site) :
    x.tag? = some ⟨.typeName, []⟩ ↔ x.classified = .builtinType :=
  TagRule.tag_ofPath?_iff (by decide) (by decide) _ _

theorem tag?_eq_standard_iff (x : Site) :
    x.tag? = some ⟨.variableName, [.function, .standard]⟩ ↔ x.classified = .builtinFunction :=
  TagRule.tag_ofPath?_iff (by decide) (by decide) _ _

/-- A name that is not classified has the tag of its plain path. -/
theorem exists_tag?_of_plain (hx : x.tree = .token .identifier name)
    (hplain : x.classified = .identifier) :
    ∃ r, TagRule.IsLongest x.path r ∧ x.tag? = some r.tag := by
  have hpath : x.path = (x.above.map Crumb.kind).reverse ++ [.identifier] := by
    rw [path, (of_tree_eq_token hx).2]
  obtain ⟨r, hfound, hlongest⟩ :=
    TagRule.exists_ofPath? (k := .identifier) (by decide) (x.above.map Crumb.kind).reverse
  exact ⟨r, hpath ▸ hlongest, by rw [tag?, hplain, hfound, Option.map_some]⟩

end Site

/-- In a shaped tree an identifier is in the slot of a name just when a node is named by it. -/
theorem Tree.inNameSlot_iff {t : Tree} {x : Site} {name : Text} (ht : t.Shaped) (hx : x ∈ t.sites)
    (hname : x.tree = .token .identifier name) :
    x.inNameSlot ↔ ∃ y ∈ t.sites, x ∈ y.children ∧ y.Names x := by
  have hshaped := Site.shaped_of_mem_sites (x := t.root) ht
  constructor
  · intro hslot
    rcases Site.exists_parent (x := t.root) hx with rfl | ⟨y, hy, hmem⟩
    · exact absurd hslot Bool.false_ne_true
    · exact ⟨y, hy, hmem, (Site.inNameSlot_iff_names (hshaped y hy) hmem hname).1 hslot⟩
  · rintro ⟨y, hy, hmem, hnames⟩
    exact (Site.inNameSlot_iff_names (hshaped y hy) hmem hname).2 hnames

/-- The name of an argument and the name of a member are those that are read off the tree, and an
identifier is in the slot of a name just when it is one of them. It has the tag of a known type or
function just when it is one and is not in such a slot, and else the tag of the longest pattern that
ends its plain path. -/
theorem Document.parse_tag?_identifier {s name : Text} {x : Site} (hx : x ∈ (parse s).tree.sites)
    (hname : x.tree = .token .identifier name) :
    let t := (parse s).tree
    let named := ∃ y ∈ t.sites, x ∈ y.children ∧ y.Names x
    (∀ y ∈ t.sites,
        y.argumentName?.map (fun c => c.tree.text) =
            (Forest.token? (· == .identifier) y.tree.children).map Prod.snd ∧
          y.member?.map (fun c => c.tree.text) = Forest.member? y.tree.children) ∧
      (x.inNameSlot ↔ named) ∧
      (x.tag? = some ⟨.typeName, []⟩ ↔ name ∈ builtinTypes ∧ ¬named) ∧
      (x.tag? = some ⟨.variableName, [.function, .standard]⟩ ↔ name ∈ builtinFunctions ∧ ¬named) ∧
      (named ∨ name ∉ builtinTypes ∧ name ∉ builtinFunctions →
        ∃ r, TagRule.IsLongest x.path r ∧ x.tag? = some r.tag) := by
  intro t named
  have hslot : x.inNameSlot ↔ named := Tree.inNameSlot_iff (parse_current s).shaped hx hname
  refine ⟨fun y _ => ⟨y.text_argumentName?, y.text_member?⟩, hslot, ?_, ?_, fun hplain => ?_⟩
  · rw [Site.tag?_eq_typeName_iff, Site.classified_eq_builtinType_iff hname, hslot]
  · rw [Site.tag?_eq_standard_iff, Site.classified_eq_builtinFunction_iff hname, hslot]
  · rw [← hslot] at hplain
    exact Site.exists_tag?_of_plain hname (Site.classified_eq_identifier hname hplain)

/-- The value of an argument is no name, so a known function is told there. -/
theorem Document.parse_tag?_identifier_value :
    let t := (parse "f(abs = max).min".toList).tree
    ∃ x ∈ t.sites, x.tree = .token .identifier "max".toList ∧
      x.tag? = some ⟨.variableName, [.function, .standard]⟩ ∧
      ¬∃ y ∈ t.sites, x ∈ y.children ∧ y.Names x := by
  intro t
  obtain ⟨x, hx, hname, htag⟩ : ∃ x ∈ t.sites, x.tree = .token .identifier "max".toList ∧
      x.tag? = some ⟨.variableName, [.function, .standard]⟩ := by decide +kernel
  obtain ⟨-, -, -, hfunction, -⟩ := parse_tag?_identifier hx hname
  exact ⟨x, hx, hname, htag, (hfunction.1 htag).2⟩

end ScriptTree
