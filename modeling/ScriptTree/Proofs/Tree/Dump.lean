import Mathlib.Tactic
import ScriptTree.Proofs.Text.Quoted
import ScriptTree.Tree.Dump

namespace ScriptTree

/-! ### The names of kinds -/

namespace Kind

theorem ofName?_name (k : Kind) : ofName? k.name = some k := by
  have hall : ∀ k ∈ all, ofName? k.name = some k := by decide +kernel
  exact hall k k.mem_all

theorem name_injective : Function.Injective name := by
  intro k l h
  have hk := ofName?_name k
  rw [h, ofName?_name] at hk
  exact (Option.some.inj hk).symm

theorem all_isAlpha_name (k : Kind) : k.name.toList.all Char.isAlpha := by
  have hall : ∀ k ∈ all, k.name.toList.all Char.isAlpha := by decide +kernel
  exact hall k k.mem_all

theorem not_mem_name {c : Char} (hc : ¬c.isAlpha) (k : Kind) : c ∉ k.name.toList :=
  fun hmem => hc (List.all_eq_true.1 k.all_isAlpha_name c hmem)

end Kind

/-! ### Parts of a line -/

namespace Text

theorem not_mem_range {c : Char} (hdot : c ≠ '.') (hc : Digit.value? c = none) (start stop : Nat) :
    c ∉ range start stop := by
  have hdigits (n : Nat) : c ∉ decimal n := Digit.not_mem_toDigits (by decide) (by decide) n hc
  simp [range, hdigits, hdot]

def note (text? : Option Text) : Text := text?.elim [] fun s => ' ' :: quote s

theorem note_injective : Function.Injective note := by
  rintro (_ | s) (_ | t) h
  · rfl
  · exact absurd h (List.cons_ne_nil _ _).symm
  · exact absurd h (List.cons_ne_nil _ _)
  · rw [quote_injective (List.cons.inj h).2]

theorem newline_not_mem_note (text? : Option Text) : '\n' ∉ note text? := by
  cases text? with
  | none => exact List.not_mem_nil
  | some s => simp [note, newline_not_mem_quote]

/-- Lines that have no line break in them are told by the text that they make. -/
theorem eq_of_lines {ls ks : List Text} (hls : ∀ s ∈ ls, '\n' ∉ s) (hks : ∀ s ∈ ks, '\n' ∉ s)
    (h : (ls.flatMap fun s => s ++ ['\n']) = ks.flatMap fun s => s ++ ['\n']) : ls = ks := by
  induction ls generalizing ks with
  | nil =>
    cases ks with
    | nil => rfl
    | cons k ks => simp at h
  | cons l ls ih =>
    cases ks with
    | nil => simp at h
    | cons k ks =>
      obtain ⟨hl, hls⟩ := List.forall_mem_cons.1 hls
      obtain ⟨hk, hks⟩ := List.forall_mem_cons.1 hks
      simp only [List.flatMap_cons, List.append_assoc, List.singleton_append] at h
      obtain ⟨hline, hrest⟩ :=
        (isRun_of_not_mem hl (by simp)).append_inj (isRun_of_not_mem hk (by simp)) h
      rw [hline, ih hls hks (List.cons.inj hrest).2]

end Text

/-! ### Rows -/

structure Row where
  depth : Nat
  kind : Kind
  text? : Option Text

namespace Row

def line (x : Row) (range : Text) : Text :=
  List.replicate (2 * x.depth) ' ' ++ (x.kind.name.toList ++ '@' :: (range ++ Text.note x.text?))

variable {x y : Row} {r q : Text}

/-- The indentation of a line ends where the name of its kind starts. -/
theorem isRun_indent (n : Nat) (k : Kind) (s : Text) :
    Text.IsRun (· == ' ') (List.replicate n ' ') (k.name.toList ++ '@' :: s) where
  all c hc := by simp [List.eq_of_mem_replicate hc]
  stops c hc hblank := by
    obtain rfl : c = ' ' := beq_iff_eq.1 hblank
    rw [Option.mem_def, List.head?_append, Option.or_eq_some_iff] at hc
    rcases hc with hc | ⟨-, hc⟩
    · exact k.not_mem_name (by decide) (List.mem_of_mem_head? hc)
    · exact absurd (Option.some.inj hc) (by decide)

/-- A line is cut in one way only: its indentation ends at a letter, the name of its kind at a sign, and
its range at a blank, unless the line ends there. -/
theorem eq_of_line (hr : ' ' ∉ r) (hq : ' ' ∉ q) (h : x.line r = y.line q) : x = y := by
  have hname (k : Kind) (s : Text) : Text.IsRun (· != '@') k.name.toList ('@' :: s) :=
    Text.isRun_of_not_mem (k.not_mem_name (by decide)) (by simp)
  have hrange {s : Text} (hs : ' ' ∉ s) (text? : Option Text) :
      Text.IsRun (· != ' ') s (Text.note text?) :=
    Text.isRun_of_not_mem hs (by cases text? <;> simp [Text.note])
  obtain ⟨hindent, h⟩ := (isRun_indent _ _ _).append_inj (isRun_indent _ _ _) h
  obtain ⟨hkind, h⟩ := (hname _ _).append_inj (hname _ _) h
  obtain ⟨-, hnote⟩ := (hrange hr _).append_inj (hrange hq _) (List.cons.inj h).2
  have hdepth : 2 * x.depth = 2 * y.depth := by simpa using congrArg List.length hindent
  obtain ⟨depth, kind, text?⟩ := x
  obtain ⟨depth', kind', text?'⟩ := y
  rw [mk.injEq]
  exact ⟨Nat.eq_of_mul_eq_mul_left two_pos hdepth, Kind.name_injective (String.toList_inj.1 hkind),
    Text.note_injective hnote⟩

theorem newline_not_mem_line (hr : '\n' ∉ r) : '\n' ∉ x.line r := by
  have hname : '\n' ∉ x.kind.name.toList := x.kind.not_mem_name (by decide)
  simp [line, hname, hr, Text.newline_not_mem_note]

end Row

def Tree.tokenText? : Tree → Option Text
  | .token _ s => some s
  | .node _ _ => none

namespace Site

def row (x : Site) : Row := ⟨x.depth, x.kind, x.tree.tokenText?⟩

theorem line_eq (x : Site) : x.line = x.row.line (Text.range x.start x.stop) := by
  obtain ⟨t, start, above, leaves⟩ := x
  cases t <;> simp [line, Row.line, Text.placed, Text.note, row, Tree.tokenText?]

theorem newline_not_mem_line (x : Site) : '\n' ∉ x.line := by
  rw [line_eq]
  exact Row.newline_not_mem_line (Text.not_mem_range (by decide) (by decide) _ _)

theorem row_eq_of_line {x y : Site} (h : x.line = y.line) : x.row = y.row := by
  rw [line_eq, line_eq] at h
  have hblank (start stop : Nat) : ' ' ∉ Text.range start stop :=
    Text.not_mem_range (by decide) (by decide) start stop
  exact Row.eq_of_line (hblank _ _) (hblank _ _) h

theorem map_row_eq_of_lines {xs ys : List Site} (h : xs.map line = ys.map line) :
    xs.map row = ys.map row := by
  rw [← List.forall₂_eq_eq_eq, List.forall₂_map_left_iff, List.forall₂_map_right_iff] at h ⊢
  exact h.imp fun _ _ => row_eq_of_line

end Site

/-! ### Rows in preorder -/

mutual

def Tree.rows (depth : Nat) : Tree → List Row
  | .token k s => [⟨depth, k, some s⟩]
  | .node k ts => ⟨depth, k, none⟩ :: Forest.rows (depth + 1) ts

def Forest.rows (depth : Nat) : Forest → List Row
  | [] => []
  | t :: ts => t.rows depth ++ Forest.rows depth ts

end

mutual

theorem Tree.map_row_sitesFrom (t : Tree) (start : Nat) (above : List Crumb) (leaves : Nat) :
    (t.sitesFrom start above leaves).map Site.row = t.rows above.length := by
  cases t with
  | token k s => rfl
  | node k ts =>
    rw [Tree.sitesFrom, List.map_cons, Forest.map_row_sitesFrom, Tree.rows]
    rfl

theorem Forest.map_row_sitesFrom (ts : Forest) (start : Nat) (k : Kind) (above : List Crumb)
    (before : Forest) (leaves : Nat) :
    (Forest.sitesFrom start k above before leaves ts).map Site.row =
      Forest.rows (above.length + 1) ts := by
  cases ts with
  | nil => rw [Forest.sitesFrom, List.map_nil, Forest.rows]
  | cons t ts =>
    rw [Forest.sitesFrom, List.map_append, Tree.map_row_sitesFrom, Forest.map_row_sitesFrom,
      List.length_cons, Forest.rows]

end

theorem Tree.head?_rows (t : Tree) (depth : Nat) :
    (t.rows depth).head? = some ⟨depth, t.kind, t.tokenText?⟩ := by
  cases t <;> rfl

theorem Forest.head?_rows_cons (t : Tree) (ts : Forest) (depth : Nat) (r : List Row) :
    (Forest.rows depth (t :: ts) ++ r).head? = some ⟨depth, t.kind, t.tokenText?⟩ := by
  rw [Forest.rows, List.append_assoc, List.head?_append, t.head?_rows, Option.some_or]

/-- Rows that do not go on at a depth: the first of them, if any, is less deep. -/
def Shallow (depth : Nat) (r : List Row) : Prop := ∀ x ∈ r.head?, x.depth < depth

namespace Shallow

variable {depth : Nat} {r : List Row}

/-- Behind a tree of a forest come its siblings and what follows the forest, nothing that is deeper. -/
theorem forest (h : Shallow depth r) (ts : Forest) :
    Shallow (depth + 1) (Forest.rows depth ts ++ r) := by
  cases ts with
  | nil => exact fun x hx => Nat.lt_succ_of_lt (h x hx)
  | cons t ts =>
    intro x hx
    rw [Forest.head?_rows_cons, Option.mem_some_iff] at hx
    exact hx ▸ Nat.lt_succ_self depth

theorem ne_forest (h : Shallow depth r) (t : Tree) (ts : Forest) (q : List Row) :
    r ≠ Forest.rows depth (t :: ts) ++ q := by
  rintro rfl
  exact Nat.lt_irrefl depth (h _ (Forest.head?_rows_cons t ts depth q))

end Shallow

-- By induction on the first tree. What stands behind the two of them is arbitrary, as a tree is read
-- with its siblings still to come; that it is not deeper tells where a node ends.
mutual

/-- Rows that start with those of a tree tell the tree and where it ends. -/
theorem Tree.rows_append_inj {t u : Tree} {depth : Nat} {r q : List Row}
    (hr : Shallow (depth + 1) r) (hq : Shallow (depth + 1) q)
    (h : t.rows depth ++ r = u.rows depth ++ q) : t = u ∧ r = q := by
  cases t with
  | token k s =>
    cases u with
    | token l x =>
      simp only [Tree.rows, List.singleton_append, List.cons.injEq, Row.mk.injEq, true_and,
        Option.some.injEq] at h
      obtain ⟨⟨rfl, rfl⟩, rfl⟩ := h
      exact ⟨rfl, rfl⟩
    | node l us => simp [Tree.rows] at h
  | node k ts =>
    cases u with
    | token l x => simp [Tree.rows] at h
    | node l us =>
      simp only [Tree.rows, List.cons_append, List.cons.injEq, Row.mk.injEq, true_and,
        and_true] at h
      obtain ⟨rfl, hbelow⟩ := h
      obtain ⟨rfl, rfl⟩ := Forest.rows_append_inj hr hq hbelow
      exact ⟨rfl, rfl⟩

theorem Forest.rows_append_inj {ts us : Forest} {depth : Nat} {r q : List Row}
    (hr : Shallow depth r) (hq : Shallow depth q)
    (h : Forest.rows depth ts ++ r = Forest.rows depth us ++ q) : ts = us ∧ r = q := by
  cases ts with
  | nil =>
    cases us with
    | nil => exact ⟨rfl, h⟩
    | cons u us => exact absurd h (hr.ne_forest u us q)
  | cons t ts =>
    cases us with
    | nil => exact absurd h.symm (hq.ne_forest t ts r)
    | cons u us =>
      rw [Forest.rows, Forest.rows, List.append_assoc, List.append_assoc] at h
      obtain ⟨rfl, hrest⟩ := Tree.rows_append_inj (hr.forest ts) (hq.forest us) h
      obtain ⟨rfl, rfl⟩ := Forest.rows_append_inj hr hq hrest
      exact ⟨rfl, rfl⟩

end

/-! ### Dumps -/

namespace Tree

variable {t u : Tree}

theorem rows_injective (depth : Nat) : Function.Injective (rows depth) := by
  intro t u h
  have hend : Shallow (depth + 1) [] := fun _ hx => absurd hx (by simp)
  exact (rows_append_inj hend hend (congrArg (· ++ []) h)).1

theorem lines_eq_of_dump (h : t.dump = u.dump) :
    t.sites.map Site.line = u.sites.map Site.line := by
  have hlines (t : Tree) : t.dump = (t.sites.map Site.line).flatMap fun s => s ++ ['\n'] := by
    rw [dump, List.flatMap_map]
  have hbreak (t : Tree) : ∀ s ∈ t.sites.map Site.line, '\n' ∉ s := by
    rw [List.forall_mem_map]
    exact fun x _ => x.newline_not_mem_line
  rw [hlines, hlines] at h
  exact Text.eq_of_lines (hbreak t) (hbreak u) h

theorem rows_eq_of_dump (h : t.dump = u.dump) : t.rows 0 = u.rows 0 := by
  have hrows (t : Tree) : t.sites.map Site.row = t.rows 0 := t.map_row_sitesFrom 0 [] 0
  rw [← hrows, ← hrows, Site.map_row_eq_of_lines (lines_eq_of_dump h)]

/-- Two trees have one dump just when they are equal: when they have the same kinds, nodes, tokens,
children and texts throughout. -/
theorem dump_inj (t u : Tree) : t.dump = u.dump ↔ t = u := by
  constructor
  · intro h
    exact rows_injective 0 (rows_eq_of_dump h)
  · rintro rfl
    rfl

/-- Blanks and a line break in a token's text start no line of their own. -/
example : (node .program [missing, token .comment ['#', '\n', ' ']]).dump =
    "Program@0..3\n  Error@0..0\n  Comment@0..3 \"#\\n \"\n".toList := by
  decide

end Tree

end ScriptTree
