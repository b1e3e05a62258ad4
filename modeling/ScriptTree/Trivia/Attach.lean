import ScriptTree.Trivia.Comment
import ScriptTree.Tree.Site

namespace ScriptTree

def Leaf.triviaRun (ls : List Leaf) : List PlacedToken :=
  (ls.takeWhile fun l => l.trivia?.isSome).filterMap Leaf.token?

/-- Whether no token comes after the trivia at the front of a list of leaves. -/
def Leaf.endsRun (ls : List Leaf) : Bool :=
  match ls.dropWhile fun l => l.trivia?.isSome with
  | .token _ :: _ => false
  | _ => true

/-- The list up to its first line break, which is the last of the first part, and the rest. -/
def PlacedToken.splitAfterBreak : List PlacedToken → List PlacedToken × List PlacedToken
  | [] => ([], [])
  | t :: ts =>
    if t.isNewline then ([t], ts)
    else
      let (line, rest) := splitAfterBreak ts
      (t :: line, rest)

namespace Spot

/-- The trivia that leads a token: what follows the first line break before it, or all of it where
no token comes before. -/
def leading (s : Spot) : List PlacedToken :=
  let run := (Leaf.triviaRun s.before).reverse
  if Leaf.endsRun s.before then run else (PlacedToken.splitAfterBreak run).2

/-- The trivia that trails a token, up to the first line break. -/
def trailing (s : Spot) : List PlacedToken :=
  (PlacedToken.splitAfterBreak (Leaf.triviaRun s.after)).1

def significant? (s : Spot) : Option PlacedToken := s.leaf.token?.filter fun t => !t.isTrivia

end Spot

structure TriviaInfo where
  leading : List PlacedToken
  internal : List PlacedToken
  trailing : List PlacedToken
  deriving DecidableEq, Repr

namespace TriviaInfo

def all (i : TriviaInfo) : List PlacedToken := i.leading ++ i.internal ++ i.trailing

def isEmpty (i : TriviaInfo) : Bool := i.all.isEmpty

def hasComments (i : TriviaInfo) : Bool := i.all.any PlacedToken.isComment

def hasSpace (i : TriviaInfo) : Bool := i.all.any PlacedToken.isSpace

def comments (i : TriviaInfo) : List Text := i.all.filterMap PlacedToken.commentContent?

/-- The trivia of a node given by its leaves among those of the tree: what leads its first token and
trails its last one, and, if asked for, what lies between them. A node without such tokens has all
its trivia as leading. -/
def ofSpots (spots : List Spot) (withInternal : Bool) : TriviaInfo :=
  let tokens := spots.filterMap fun s => s.leaf.token?
  let marked := spots.filterMap fun s => s.significant?.map fun t => (t, s)
  match marked.head?, marked.getLast? with
  | some (first, firstSpot), some (last, lastSpot) =>
    let between :=
      if withInternal && 1 < marked.length then
        tokens.filter fun t => t.isTrivia && first.stop ≤ t.start && t.stop ≤ last.start
      else []
    ⟨firstSpot.leading, between, lastSpot.trailing⟩
  | _, _ => ⟨tokens, [], []⟩

def ofSite (spots : List Spot) (withInternal : Bool) (s : Site) : TriviaInfo :=
  ofSpots ((spots.drop s.leavesBefore).take s.tree.leafCount) withInternal

end TriviaInfo

structure TriviaEntry where
  start : Nat
  stop : Nat
  info : TriviaInfo
  deriving DecidableEq, Repr

namespace TriviaEntry

def le (a b : TriviaEntry) : Bool := a.start < b.start || (a.start = b.start && a.stop ≤ b.stop)

/-- Add an entry unless its range has one. -/
def insertNew (es : List TriviaEntry) (e : TriviaEntry) : List TriviaEntry :=
  if es.any fun x => x.start = e.start && x.stop = e.stop then es else es ++ [e]

end TriviaEntry

/-- The trivia of every node that has some, by the range of the node. Of nodes with one range the
outermost counts. -/
def Tree.triviaMap (t : Tree) (withInternal : Bool) : List TriviaEntry :=
  let spots := t.spots
  let entries := (t.sites.filter fun s => s.tree.isNode).map fun s =>
    (⟨s.start, s.stop, TriviaInfo.ofSite spots withInternal s⟩ : TriviaEntry)
  ((entries.filter fun e => !e.info.isEmpty).foldl TriviaEntry.insertNew []).mergeSort
    TriviaEntry.le

end ScriptTree
