import ScriptTree.Proofs.Statement.Shape
import ScriptTree.Tree.Site

namespace ScriptTree

/-- Nodes that take a level of nesting. -/
def Kind.nests (k : Kind) : Bool := k == .unaryExpression || k.isBracketed

def Site.nodes (s : Site) : List Kind :=
  (s.above.map Crumb.kind).reverse ++ if s.tree.isNode then [s.kind] else []

mutual

def Tree.nesting : Tree → Nat
  | .token _ _ => 0
  | .node k ts => Forest.nesting ts + if k.nests then 1 else 0

def Forest.nesting : Forest → Nat
  | [] => 0
  | t :: ts => max t.nesting (Forest.nesting ts)

end

mutual

theorem Tree.countP_nodes_le (t : Tree) (start : Nat) (above : List Crumb) (leaves : Nat) :
    ∀ s ∈ t.sitesFrom start above leaves,
      s.nodes.countP Kind.nests ≤ (above.map Crumb.kind).countP Kind.nests + t.nesting := by
  intro s hs
  cases t with
  | token k x =>
    obtain rfl := List.mem_singleton.1 (by rwa [Tree.sitesFrom] at hs)
    simp [Site.nodes, Tree.isNode, Tree.nesting]
  | node k ts =>
    rw [Tree.sitesFrom, List.mem_cons] at hs
    rw [Tree.nesting]
    rcases hs with rfl | hs
    · simp only [Site.nodes, Site.kind, Tree.isNode, Tree.kind, if_true, List.countP_append,
        List.countP_reverse, List.countP_singleton]
      omega
    · have h := Forest.countP_nodes_le ts start k above [] leaves s hs
      omega

theorem Forest.countP_nodes_le (ts : Forest) (start : Nat) (k : Kind) (above : List Crumb)
    (before : Forest) (leaves : Nat) :
    ∀ s ∈ Forest.sitesFrom start k above before leaves ts,
      s.nodes.countP Kind.nests ≤
        (above.map Crumb.kind).countP Kind.nests + (Forest.nesting ts + if k.nests then 1 else 0) := by
  intro s hs
  cases ts with
  | nil => simp [Forest.sitesFrom] at hs
  | cons t ts =>
    rw [Forest.sitesFrom, List.mem_append] at hs
    rw [Forest.nesting]
    rcases hs with hs | hs
    · have h := Tree.countP_nodes_le t start (⟨k, before⟩ :: above) leaves s hs
      simp only [List.map_cons, List.countP_cons] at h
      omega
    · have h := Forest.countP_nodes_le ts _ k above (t :: before) _ s hs
      omega

end

namespace Forest

@[simp] theorem nesting_nil : nesting [] = 0 := by rw [nesting]

@[simp] theorem nesting_cons (t : Tree) (ts : Forest) :
    nesting (t :: ts) = max t.nesting (nesting ts) := by
  rw [nesting]

@[simp] theorem nesting_append (ts us : Forest) :
    nesting (ts ++ us) = max (nesting ts) (nesting us) := by
  induction ts with
  | nil => simp
  | cons t ts ih => simp [ih, Nat.max_assoc]

@[simp] theorem nesting_missing : Tree.missing.nesting = 0 := by
  simp [Tree.missing, Tree.nesting, Kind.nests, Kind.isBracketed]

theorem nesting_eq_zero {ts : Forest} (h : ∀ t ∈ ts, t.isNode = false) : nesting ts = 0 := by
  induction ts with
  | nil => rfl
  | cons t ts ih =>
    obtain ⟨ht, hts⟩ := List.forall_mem_cons.1 h
    cases t with
    | token k x => simp [Tree.nesting, ih hts]
    | node k us => cases ht

theorem nesting_map_tree (ts : List Token) : nesting (ts.map Token.tree) = 0 := by
  apply nesting_eq_zero
  intro t ht
  obtain ⟨u, -, rfl⟩ := List.mem_map.1 ht
  rfl

/-- A node takes at most one level more than what is in it. -/
theorem nesting_node_le_succ {ts : Forest} {m : Nat} (h : nesting ts ≤ m) (k : Kind) :
    nesting [.node k ts] ≤ m + 1 := by
  simp only [nesting_cons, nesting_nil, Tree.nesting]
  split <;> omega

theorem nesting_node_le {ts : Forest} {m : Nat} (h : nesting ts ≤ m) {k : Kind}
    (hk : k.nests = false) : nesting [.node k ts] ≤ m := by
  simp only [nesting_cons, nesting_nil, Tree.nesting, hk]
  simpa using h

end Forest

namespace Cursor

@[simp] theorem nesting_flush (c : Cursor) : Forest.nesting c.flush.1 = 0 :=
  Forest.nesting_map_tree c.pending

@[simp] theorem nesting_bump (c : Cursor) : Forest.nesting c.bump.1 = 0 :=
  Forest.nesting_eq_zero c.isNode_bump

@[simp] theorem nesting_close (c : Cursor) (k : Kind) : Forest.nesting (c.close k).1 = 0 := by
  unfold close
  split <;> simp

end Cursor

namespace Expression

theorem nesting_tooDeep (c : Cursor) : Forest.nesting [(tooDeep c).1] = 0 := by
  apply Nat.le_zero.1
  refine Forest.nesting_node_le (k := .error) ?_ rfl
  exact (Forest.nesting_eq_zero (isNode_skipNested _ _ c)).le

theorem nesting_unexpected (c : Cursor) : Forest.nesting [(unexpected c).1] = 0 := by
  apply Nat.le_zero.1
  unfold unexpected
  split
  · simp
  · refine Forest.nesting_node_le (k := .error) ?_ rfl
    unfold Cursor.take
    split
    · simp
    · simp [Forest.nesting_map_tree, Token.tree, Tree.nesting]

theorem nesting_field (c : Cursor) : Forest.nesting (field c).1 = 0 := by
  unfold field
  split
  · simp
  · split
    · simp
    · have h := nesting_unexpected c.flush.2
      simp only [Cursor.operand, Forest.nesting_append, Cursor.nesting_flush, h, Nat.max_self]

/-- How many nodes that take a level of nesting may lie in one another in what is parsed for a goal, with
`n` levels to go. -/
def Goal.room : Goal → Nat → Nat
  | nested _, 0 => 0
  | nested g, n + 1 => g.room n
  | operand g, n => g.room n
  | items .., n => n
  | slot .., n => n
  | pair, n => n
  | argument _, n => n
  | targets, n => n
  | _, n => n + 1

theorem Join.room_operand (j : Join) (n : Nat) : j.operand.room n = n + 1 := by cases j <;> rfl

theorem Unary.room_below (u : Unary) (n : Nat) : u.below.room n = n + 1 := by cases u <;> rfl

theorem Join.nests_node (j : Join) : j.node.nests = false := by cases j <;> rfl

theorem Goal.room_nested_whole (n : Nat) : (nested whole).room n = n := by cases n <;> rfl

theorem Goal.room_nested_unary (u : Unary) (n : Nat) : (nested (unary u)).room n = n := by
  cases n <;> rfl

theorem Item.room_goal (item : Item) (named : Bool) (n : Nat) : (item.goal named).room n = n := by
  cases item
  · exact Goal.room_nested_whole n
  · rfl
  · rfl

/-- Parsing nests no deeper than there is room. -/
theorem Parses.nesting_le {n : Nat} {g : Goal} {c c' : Cursor} {f : Forest}
    (h : Parses n g c f c') : Forest.nesting f ≤ g.room n := by
  induction h with
  | tooDeep g c => exact (nesting_tooDeep c).le
  | nested h ih => exact ih
  | operand h ih => simpa [Goal.room] using ih
  | unconditional h hif ih => exact ih
  | conditional body hif condition helse alternative ih ih₁ ih₂ =>
    exact Forest.nesting_node_le (by simpa [Goal.room] using And.intro ih (And.intro ih₁ ih₂)) rfl
  | withoutElse body hif condition helse ih ih₁ =>
    exact Forest.nesting_node_le (by simpa [Goal.room] using And.intro ih ih₁) rfl
  | join h hstop ih => exact ih
  | first h ih => exact ih.trans_eq (Join.room_operand ..)
  | @further n j c t c₁ f c₂ left hop right ih ih₁ =>
    have hright := ih₁.trans_eq (j.room_operand n)
    exact Forest.nesting_node_le (by simpa [Goal.room] using And.intro ih hright) j.nests_node
  | uncompared h hstop ih => exact ih
  | comparison left hop more ih ih₁ =>
    exact Forest.nesting_node_le (by simpa [Goal.room] using And.intro ih ih₁) rfl
  | comparedEnd hstop => exact Nat.zero_le _
  | @comparedMore n c f c₁ g c₂ hop right more ih ih₁ =>
    have hoperator : (Tree.node .comparisonOp c.flush.2.bump.1).nesting = 0 := by
      simp [Tree.nesting, Kind.nests, Kind.isBracketed]
    simpa [Goal.room, hoperator] using And.intro ih ih₁
  | @unary n u c f c' hop h ih =>
    have hinner := ih.trans_eq (Goal.room_nested_unary u n)
    exact Forest.nesting_node_le_succ (by simpa using hinner) _
  | noUnary hop h ih => exact ih.trans_eq (Unary.room_below ..)
  | noPower h hop ih => exact ih
  | @power n c t c₁ f c₂ base hop exponent ih ih₁ =>
    have hexponent := (ih₁.trans_eq (Goal.room_nested_unary .sign n)).trans (Nat.le_succ n)
    exact Forest.nesting_node_le (by simpa [Goal.room] using And.intro ih hexponent) rfl
  | primary h hparen hdot ih => exact ih
  | bare h ih => exact ih
  | call callee hparen arguments ih ih₁ =>
    exact Forest.nesting_node_le (by simpa [Goal.room] using And.intro ih ih₁) rfl
  | member object hdot ih =>
    exact Forest.nesting_node_le (by simpa [Goal.room, nesting_field] using ih) rfl
  | literal hpending hrest hkind => simp [Token.tree, Tree.nesting]
  | emptyTuple hopen hclose => exact Forest.nesting_node_le_succ (by simp) _
  | @group n c f c₁ hopen hclose inner hcomma ih =>
    have hinner := ih.trans_eq (Goal.room_nested_whole n)
    exact Forest.nesting_node_le_succ (by simpa using hinner) _
  | @tuple n c f c₁ g c₂ hopen hclose inner hcomma more ih ih₁ =>
    have hinner := ih.trans_eq (Goal.room_nested_whole n)
    exact Forest.nesting_node_le_succ (by simpa [Goal.room] using And.intro hinner ih₁) _
  | list hopen h ih => exact ih
  | dict hopen h ih => exact ih
  | unexpected hliteral hopen => exact (nesting_unexpected _).trans_le (Nat.zero_le _)
  | enclosed hopen hclose h ih => exact Forest.nesting_node_le_succ (by simpa [Goal.room] using ih) _
  | itemsEnd hend => exact Nat.zero_le _
  | itemsLast hend h hcomma ih => exact ih
  | itemsMore hend h hcomma more ih ih₁ => simpa [Goal.room] using And.intro ih ih₁
  | missingItem hcomma => simp
  | item hcomma h ih => exact ih.trans_eq (Item.room_goal ..)
  | @pair n c t c₁ f c₂ key hcolon value ih ih₁ =>
    have hkey := ih.trans_eq (Goal.room_nested_whole n)
    have hvalue := ih₁.trans_eq (Goal.room_nested_whole n)
    exact Forest.nesting_node_le (by simpa [Goal.room] using And.intro hkey hvalue) rfl
  | @withoutColon n c t c' key hcolon ih =>
    have hkey := ih.trans_eq (Goal.room_nested_whole n)
    exact Forest.nesting_node_le (by simpa [Goal.room] using hkey) rfl
  | @keyword n named c f c' hname value ih =>
    have hvalue := ih.trans_eq (Goal.room_nested_whole n)
    exact Forest.nesting_node_le (by simpa [Goal.room] using hvalue) rfl
  | positional hname value ih => exact ih.trans_eq (Goal.room_nested_whole _)
  | misplaced hname value ih =>
    exact Forest.nesting_node_le (ih.trans_eq (Goal.room_nested_whole _)) rfl
  | targetsEnd hcomma => exact Nat.zero_le _
  | targetsTrailing hcomma hend => simp
  | @targetsMore n c f c₁ g c₂ hcomma hend target more ih ih₁ =>
    have htarget := ih.trans_eq (Goal.room_nested_whole n)
    simpa [Goal.room] using And.intro htarget ih₁

end Expression

namespace Statement

open Expression (Parses Goal maxNesting)

theorem Body.nesting_le {c c' : Cursor} {k : Kind} {f : Forest} (h : Body c k f c') :
    Forest.nesting f ≤ maxNesting := by
  have htargets {t : Tree} {f : Forest} (ht : Forest.nesting [t] ≤ maxNesting)
      (hf : Forest.nesting f ≤ maxNesting) :
      (Tree.node .assignmentTargets (t :: f)).nesting ≤ maxNesting := by
    have hnode : Forest.nesting [.node .assignmentTargets (t :: f)] ≤ maxNesting :=
      Forest.nesting_node_le (by simpa using And.intro ht hf) rfl
    simpa using hnode
  cases h with
  | empty h => simp
  | expression h expr hcomma heq => exact expr.nesting_le
  | assignment h target hmore more heq value =>
    have hvalue := value.nesting_le.trans_eq (Goal.room_nested_whole maxNesting)
    simpa using And.intro (htargets target.nesting_le more.nesting_le) hvalue
  | unassigned h target hmore more heq =>
    simpa using htargets target.nesting_le more.nesting_le

theorem nesting_finish (c : Cursor) : Forest.nesting (finish c).1 = 0 := by
  have hending (c : Cursor) : Forest.nesting (ending c).1 = 0 := by
    by_cases hk : c.kind = .newline ∨ c.kind = .semicolon
    · obtain ⟨t, r, -, -, hending⟩ := exists_ending hk
      simp [hending, Forest.nesting_map_tree, Token.tree, Tree.nesting]
    · simp [ending_eq_flush hk]
  unfold finish
  split
  · simp [hending]
  · simp [hending, Cursor.junk, Forest.nesting_map_tree, Tree.nesting, Kind.nests,
      Kind.isBracketed]

theorem nesting_le_of_parse? {tokens rest : List Token} {first : Nat} {s : Statement}
    (h : parse? tokens first = some (s, rest)) : s.tree.nesting ≤ maxNesting := by
  obtain ⟨-, k, f, c, hb, rfl, rfl⟩ := exists_of_parse? h
  have hk : k.nests = false := by
    rcases hb.isStatement with rfl | rfl <;> rfl
  have hnode : Forest.nesting [.node k (f ++ (finish c).1)] ≤ maxNesting :=
    Forest.nesting_node_le (by simpa [nesting_finish] using hb.nesting_le) hk
  simpa using hnode

theorem Sequence.nesting_le {tokens tail : List Token} {n : Nat} {ss : List Statement}
    (h : Sequence tokens n ss tail) :
    (programTree (ss.map Statement.tree) tail).nesting ≤ maxNesting := by
  have hss : Forest.nesting (ss.map Statement.tree) ≤ maxNesting := by
    induction h with
    | done h => simp
    | step h more ih => simpa using And.intro (nesting_le_of_parse? h) ih
  have hnode : Forest.nesting [programTree (ss.map Statement.tree) tail] ≤ maxNesting :=
    Forest.nesting_node_le (by simpa [Forest.nesting_map_tree] using hss) rfl
  simpa using hnode

end Statement

namespace Document

/-- On every way down the tree of a text, at most as many nodes take a level of nesting as there are
levels. -/
theorem Current.countP_nodes_le {d : Document} (h : d.Current) :
    ∀ s ∈ d.tree.sites, s.nodes.countP Kind.nests ≤ Expression.maxNesting := by
  intro s hs
  obtain ⟨tail, hseq, htree⟩ := h.sequence
  have hle := Tree.countP_nodes_le d.tree 0 [] 0 s hs
  have hnesting := hseq.nesting_le
  rw [← htree] at hnesting
  simp only [List.map_nil, List.countP_nil, Nat.zero_add] at hle
  exact hle.trans hnesting

end Document

end ScriptTree
