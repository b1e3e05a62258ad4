import ScriptTree.Statement.Basic
import ScriptTree.Update.Relex

/-!
The statements of a changed text. A statement is taken over if it starts on a token that was taken
over and started the statement before, and all tokens that were examined for it were taken over
with it. Other statements are parsed. If old statements are not met again soon, all the rest is
parsed.
-/

namespace ScriptTree

namespace Reparse

/-- A statement of the new text, and the index of the old statement that it is, if it is one. -/
structure Step where
  statement : Statement
  origin : Option Nat

/-- The old statements from the current one on, with their indices. -/
abbrev Candidates := List (Statement × Nat)

def Candidates.tokenCount : Candidates → Nat
  | [] => 0
  | c :: cs => c.1.count + tokenCount cs

/-- The old statements at the front that can be taken over when the first must start at a token. -/
def reusable (candidates : Candidates) (oldIndex : Nat) (run : Run) : Candidates :=
  match candidates with
  | [] => []
  | (s, _) :: _ =>
    if s.first = oldIndex then
      candidates.takeWhile fun c => c.1.first + c.1.examined ≤ run.oldEnd
    else []

def moved (s : Statement) (delta : Int) : Statement := { s with first := Token.shift s.first delta }

/-- Where the walk over the new tokens stands. -/
structure Walk where
  /-- The tokens ahead, of which the first has the index `index`. -/
  tokens : List Token
  index : Nat
  candidates : Candidates
  runs : List Run
  /-- How many statements in a row were parsed on tokens that were taken over. -/
  misses : Nat
  reuse : Bool

def Walk.advance (w : Walk) : Walk :=
  { w with runs := w.runs.dropWhile fun r => r.newEnd ≤ w.index }

def Walk.run? (w : Walk) : Option Run := w.runs.head?.filter fun r => r.newFirst ≤ w.index

def Walk.oldIndex (w : Walk) (run : Run) : Nat := run.oldFirst + (w.index - run.newFirst)

def Walk.align (w : Walk) (run : Run) : Walk :=
  { w with candidates := w.candidates.dropWhile fun c => c.1.first < w.oldIndex run }

def Walk.afterReuse (w : Walk) (kept : Candidates) : Walk :=
  let count := Candidates.tokenCount kept
  { w with
    tokens := w.tokens.drop count
    index := w.index + count
    candidates := w.candidates.drop kept.length
    misses := 0 }

/-- The walk after a statement that was parsed. If its tokens were all taken over, it started where
no old statement did. -/
def Walk.afterParse (w : Walk) (s : Statement) (rest : List Token) (limit : Nat) : Walk :=
  let index := w.index + s.count
  let missed := w.reuse && w.run?.any fun r => index ≤ r.newEnd
  let misses := if missed then w.misses + 1 else 0
  { w with
    tokens := rest
    index := index
    misses := misses
    reuse := w.reuse && !(missed && limit ≤ misses) }

/-- The steps of the walk, and the tokens after the last statement. -/
def steps (limit : Nat) : Nat → Walk → List Step × List Token
  | 0, w => ([], w.tokens)
  | fuel + 1, w =>
    let w := w.advance
    let found : Walk × List Step × Candidates :=
      match if w.reuse then w.run? else none with
      | none => (w, [], [])
      | some run =>
        let w := w.align run
        let kept := reusable w.candidates (w.oldIndex run) run
        let delta : Int := (w.index : Int) - w.oldIndex run
        (w, kept.map fun c => ⟨moved c.1 delta, some c.2⟩, kept)
    let (w, taken, kept) := found
    if !kept.isEmpty then
      let (more, tail) := steps limit fuel (w.afterReuse kept)
      (taken ++ more, tail)
    else
      match Statement.parse? w.tokens w.index with
      | none => ([], w.tokens)
      | some (s, rest) =>
        let (more, tail) := steps limit fuel (w.afterParse s rest limit)
        (⟨s, none⟩ :: more, tail)

end Reparse

def reparse (old : List Statement) (relexed : Relexed) (limit : Nat) :
    List Reparse.Step × List Token :=
  let tokens := relexed.tokens.toList
  Reparse.steps limit tokens.length ⟨tokens, 0, old.zipIdx, relexed.runs, 0, true⟩

end ScriptTree
