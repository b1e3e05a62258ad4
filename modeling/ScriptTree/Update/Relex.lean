import ScriptTree.Edit
import ScriptTree.Token.Lexer
import ScriptTree.Token.Stream

/-!
The tokens of a changed text, made from the tokens of the old one. Tokens that looked no further
than the next change are taken over. After a change the text is lexed again until a token starts,
past the inserted text, where an old token started; then tokens are taken over again. If that does
not happen soon, all the rest is lexed.
-/

namespace ScriptTree

/-- A stretch of tokens taken over from the old stream. -/
structure Run where
  newFirst : Nat
  oldFirst : Nat
  count : Nat
  deriving DecidableEq, Repr

def Run.newEnd (r : Run) : Nat := r.newFirst + r.count

def Run.oldEnd (r : Run) : Nat := r.oldFirst + r.count

namespace Relex

/-- The changes that lie ahead of a place, and what those before it mean there. -/
structure Ahead where
  changes : List Change
  /-- By how many bytes the old text has moved. -/
  delta : Int
  insertedEnd : Nat

/-- Pass the changes that begin before a place. -/
def absorb (place : Nat) : List Change → Int → Nat → Ahead
  | [], delta, insertedEnd => ⟨[], delta, insertedEnd⟩
  | c :: cs, delta, insertedEnd =>
    if c.newStart < place then absorb place cs c.delta (max insertedEnd c.newStop)
    else ⟨c :: cs, delta, insertedEnd⟩

def Ahead.absorb (a : Ahead) (place : Nat) : Ahead :=
  Relex.absorb place a.changes a.delta a.insertedEnd

/-- The old token, not before a given one, that starts at a place past the inserted text. -/
def Ahead.oldToken? (a : Ahead) (old : TokenStream) (least place : Nat) : Option Nat :=
  if a.insertedEnd ≤ place ∧ a.delta ≤ place then
    (old.indexAt? (place - a.delta).toNat).filter (least ≤ ·)
  else none

structure Stretch where
  fresh : List Token
  ahead : Ahead
  /-- The old token at which tokens are taken over again, if there is one. -/
  resume : Option Nat

/-- Lex the text that starts at a place until an old token starts there. `misses` counts the places
past the inserted text where none did; there may be `limit` of them. -/
def seek (old : TokenStream) (least limit : Nat) (text : Text) (place : Nat) (ahead : Ahead)
    (misses : Nat) : Stretch :=
  let ahead := ahead.absorb place
  match ahead.oldToken? old least place with
  | some index => ⟨[], ahead, some index⟩
  | none =>
    let misses := if ahead.insertedEnd ≤ place then misses + 1 else misses
    if limit < misses then ⟨Lexer.scan text place, ahead, none⟩
    else
      match text with
      | [] => ⟨[], ahead, none⟩
      | c :: s =>
        let l := Lexer.lexeme c s
        let more := seek old least limit l.rest (place + l.text.bytes) ahead misses
        { more with fresh := l.token place :: more.fresh }
termination_by text.length
decreasing_by exact Lexer.lexeme_rest_length_lt c s

theorem absorb_length_le (place : Nat) (cs : List Change) (delta : Int) (insertedEnd : Nat) :
    (absorb place cs delta insertedEnd).changes.length ≤ cs.length := by
  fun_induction absorb place cs delta insertedEnd with
  | case1 => simp
  | case2 c cs delta insertedEnd h ih =>
    simp only [List.length_cons]
    omega
  | case3 => simp

theorem seek_length_le (old : TokenStream) (least limit : Nat) (text : Text) (place : Nat)
    (ahead : Ahead) (misses : Nat) :
    (seek old least limit text place ahead misses).ahead.changes.length ≤ ahead.changes.length := by
  have h (a : Ahead) (n : Nat) : (a.absorb n).changes.length ≤ a.changes.length :=
    absorb_length_le ..
  fun_induction seek old least limit text place ahead misses with
  | case1 | case2 | case3 => exact h ..
  | case4 place ahead misses ahead' hn misses' hm c s l more ih => exact Nat.le_trans ih (h ..)

structure Progress where
  draft : Draft
  runs : List Run
  relexed : Nat

/-- Take tokens over from an old token on, as far as the next change lets them stand. -/
def Progress.takeOver (p : Progress) (old : TokenStream) (oldIndex : Nat) (bound : Option Nat)
    (delta : Int) : Progress × Nat :=
  let (draft, copiedTo) := old.copyInto oldIndex bound delta p.draft
  let runs :=
    if oldIndex < copiedTo then p.runs ++ [⟨p.draft.length, oldIndex, copiedTo - oldIndex⟩]
    else p.runs
  ({ p with draft := draft, runs := runs }, copiedTo)

/-- Take tokens over and lex past changes in turn. -/
def loop (old : TokenStream) (text : Text) (limit : Nat) (p : Progress) (oldIndex : Nat)
    (changes : List Change) (delta : Int) : Progress :=
  match changes with
  | [] => (p.takeOver old oldIndex none delta).1
  | c :: cs =>
    let (p, oldIndex) := p.takeOver old oldIndex (some c.oldStart) delta
    let place := p.draft.stop
    let stretch := seek old oldIndex limit ((text.dropBytes? place).getD []) place
      ⟨cs, c.delta, c.newStop⟩ 0
    let p := { p with
      draft := p.draft.pushAll stretch.fresh
      relexed := p.relexed + stretch.fresh.length }
    match stretch.resume with
    | none => p
    | some index => loop old text limit p index stretch.ahead.changes stretch.ahead.delta
termination_by changes.length
decreasing_by
  have := seek_length_le old oldIndex limit ((text.dropBytes? place).getD []) place
    ⟨cs, c.delta, c.newStop⟩ 0
  simp only [List.length_cons]
  exact Nat.lt_succ_of_le this

end Relex

structure Relexed where
  tokens : TokenStream
  runs : List Run
  relexed : Nat

def relex (old : TokenStream) (text : Text) (changes : List Change) (limit : Nat) : Relexed :=
  let p := Relex.loop old text limit ⟨.empty, [], 0⟩ 0 changes 0
  ⟨p.draft.finish, p.runs, p.relexed⟩

end ScriptTree
