import ScriptTree.Bisection
import ScriptTree.Token.Basic

namespace ScriptTree

/-- A token with the furthest lookahead of all tokens of its lexing pass up to it. -/
structure Reached where
  token : Token
  reach : Nat
  deriving DecidableEq, Repr

def Reached.ofTokens (furthest : Nat) : List Token → List Reached
  | [] => []
  | t :: ts => ⟨t, max t.lookahead furthest⟩ :: ofTokens (max t.lookahead furthest) ts

theorem Reached.map_token_ofTokens (furthest : Nat) (ts : List Token) :
    (ofTokens furthest ts).map Reached.token = ts := by
  induction ts generalizing furthest with
  | nil => rfl
  | cons t ts ih => simp [ofTokens, ih]

/-- The tokens of one lexing pass, where they stood in the text of that pass. -/
structure Pass where
  entries : Array Reached
  reached : entries.toList = Reached.ofTokens 0 (entries.toList.map Reached.token)

namespace Pass

def ofTokens (ts : Array Token) : Pass where
  entries := (Reached.ofTokens 0 ts.toList).toArray
  reached := by simp [Reached.map_token_ofTokens]

@[simp] theorem size_ofTokens (ts : Array Token) : (ofTokens ts).entries.size = ts.size := by
  have h := congrArg List.length (Reached.map_token_ofTokens 0 ts.toList)
  simpa [ofTokens] using h

end Pass

/-- A window into the tokens of a lexing pass. -/
structure Chunk where
  pass : Pass
  /-- The index in the pass of the first token of the window. -/
  lo : Nat
  hi : Nat
  /-- The index in the stream of the first token of the window. -/
  first : Nat
  /-- By how many bytes the tokens have moved since the pass. -/
  delta : Int
  lo_lt_hi : lo < hi
  hi_le_size : hi ≤ pass.entries.size

namespace Chunk

def whole (ts : Array Token) (first : Nat) (h : 0 < ts.size) : Chunk where
  pass := Pass.ofTokens ts
  lo := 0
  hi := ts.size
  first := first
  delta := 0
  lo_lt_hi := h
  hi_le_size := Nat.le_of_eq (Pass.size_ofTokens ts).symm

def length (c : Chunk) : Nat := c.hi - c.lo

def past (c : Chunk) : Nat := c.first + c.length

/-- A window into the same pass, which has moved by some more bytes. -/
def window (c : Chunk) (lo hi first : Nat) (delta : Int) (hlo : lo < hi)
    (hhi : hi ≤ c.pass.entries.size) : Chunk :=
  ⟨c.pass, lo, hi, first, c.delta + delta, hlo, hhi⟩

def original? (c : Chunk) (i : Nat) : Option Reached := c.pass.entries[c.lo + (i - c.first)]?

def token? (c : Chunk) (i : Nat) : Option Token := (c.original? i).map fun e => e.token.moved c.delta

def kind? (c : Chunk) (i : Nat) : Option Kind := (c.original? i).map fun e => e.token.kind

def stop (c : Chunk) : Nat :=
  have : c.hi - 1 < c.pass.entries.size := by
    have := c.lo_lt_hi
    have := c.hi_le_size
    omega
  Token.shift c.pass.entries[c.hi - 1].token.stop c.delta

def entries (c : Chunk) : List Reached := (c.pass.entries.extract c.lo c.hi).toList

def tokens (c : Chunk) : List Token := c.entries.map fun e => e.token.moved c.delta

/-- The index in the stream of the token of the window that starts exactly at an offset. -/
def indexAt? (c : Chunk) (offset : Nat) : Option Nat :=
  if c.delta ≤ offset then
    let start := ((offset : Int) - c.delta).toNat
    let i := bisectArray c.pass.entries (fun e => e.token.start < start) c.lo c.hi
    if i < c.hi ∧ c.pass.entries[i]?.any fun e => e.token.start = start then
      some (c.first + (i - c.lo))
    else none
  else none

/-- Chunks whose windows follow one another in a stream, from an index on and up to another. -/
def Consecutive : Nat → List Chunk → Nat → Prop
  | n, [], m => n = m
  | n, c :: cs, m => c.first = n ∧ Consecutive c.past cs m

theorem Consecutive.append {n m k : Nat} {cs ds : List Chunk} (h : Consecutive n cs m)
    (h' : Consecutive m ds k) : Consecutive n (cs ++ ds) k := by
  induction cs generalizing n with
  | nil => exact (show n = m from h) ▸ h'
  | cons c cs ih => exact ⟨h.1, ih h.2⟩

end Chunk

/-- The tokens of a document, stored so that a changed document can take stretches of tokens over
from an older one. What a stream answers it finds by bisection of its chunks. -/
structure TokenStream where
  chunks : Array Chunk
  length : Nat
  consecutive : Chunk.Consecutive 0 chunks.toList length

namespace TokenStream

def flat (s : TokenStream) : List Token := s.chunks.toList.flatMap Chunk.tokens

def ofArray (ts : Array Token) : TokenStream :=
  if h : 0 < ts.size then ⟨#[Chunk.whole ts 0 h], ts.size, rfl, Nat.zero_add _⟩ else ⟨#[], 0, rfl⟩

def ofList (ts : List Token) : TokenStream := ofArray ts.toArray

def chunkIndex (s : TokenStream) (i : Nat) : Nat :=
  bisectArray s.chunks (fun c => c.past ≤ i) 0 s.chunks.size

def get? (s : TokenStream) (i : Nat) : Option Token := s.chunks[s.chunkIndex i]?.bind (·.token? i)

def kind? (s : TokenStream) (i : Nat) : Option Kind := s.chunks[s.chunkIndex i]?.bind (·.kind? i)

def toListFrom (s : TokenStream) (i : Nat) : List Token :=
  (s.chunks.toList.drop (s.chunkIndex i)).flatMap fun c =>
    (List.range' (max i c.first) (c.past - max i c.first)).filterMap c.token?

def toList (s : TokenStream) : List Token := s.toListFrom 0

/-- Streams are the same if their tokens are, however they are stored. -/
def same (s t : TokenStream) : Bool := s.length == t.length && s.toList == t.toList

/-- The index of the token that starts exactly at an offset. It can only be in the first chunk that
ends behind the offset. -/
def indexAt? (s : TokenStream) (offset : Nat) : Option Nat :=
  s.chunks[bisectArray s.chunks (fun c => c.stop ≤ offset) 0 s.chunks.size]?.bind
    (·.indexAt? offset)

end TokenStream

/-- A stream in the making: windows into older passes, and new tokens after them that will be a pass
of their own. -/
structure Draft where
  chunks : Array Chunk
  fresh : Array Token
  length : Nat
  stop : Nat
  size_fresh_le : fresh.size ≤ length
  consecutive : Chunk.Consecutive 0 chunks.toList (length - fresh.size)

namespace Draft

def empty : Draft := ⟨#[], #[], 0, 0, Nat.le_refl 0, rfl⟩

def flat (d : Draft) : List Token := d.chunks.toList.flatMap Chunk.tokens ++ d.fresh.toList

def push (d : Draft) (t : Token) : Draft where
  chunks := d.chunks
  fresh := d.fresh.push t
  length := d.length + 1
  stop := t.stop
  size_fresh_le := by
    have := d.size_fresh_le
    simp only [Array.size_push]
    omega
  consecutive := by
    rw [Array.size_push, Nat.add_sub_add_right]
    exact d.consecutive

def pushAll (d : Draft) (ts : List Token) : Draft := ts.foldl push d

def flush (d : Draft) : Draft :=
  if h : 0 < d.fresh.size then
    { chunks := d.chunks.push (Chunk.whole d.fresh (d.length - d.fresh.size) h)
      fresh := #[]
      length := d.length
      stop := d.stop
      size_fresh_le := Nat.zero_le _
      consecutive := by
        have hlast : Chunk.Consecutive (d.length - d.fresh.size)
            [Chunk.whole d.fresh (d.length - d.fresh.size) h] d.length :=
          ⟨rfl, Nat.sub_add_cancel d.size_fresh_le⟩
        simpa using d.consecutive.append hlast }
  else d

theorem size_fresh_flush (d : Draft) : d.flush.fresh.size = 0 := by
  unfold flush
  split
  · rfl
  · omega

theorem consecutive_flush (d : Draft) :
    Chunk.Consecutive 0 d.flush.chunks.toList d.flush.length := by
  have h := d.flush.consecutive
  rwa [size_fresh_flush, Nat.sub_zero] at h

/-- Take a part of the pass of a chunk over, moved by a number of bytes. -/
def pushWindow (d : Draft) (c : Chunk) (lo hi : Nat) (delta : Int) (hlo : lo < hi)
    (hhi : hi ≤ c.pass.entries.size) : Draft :=
  let window := c.window lo hi d.flush.length delta hlo hhi
  { chunks := d.flush.chunks.push window
    fresh := #[]
    length := window.past
    stop := window.stop
    size_fresh_le := Nat.zero_le _
    consecutive := by
      have hlast : Chunk.Consecutive d.flush.length [window] window.past := ⟨rfl, rfl⟩
      simpa using d.consecutive_flush.append hlast }

/-- How many chunks a stream may have beyond one for every `compactStride` tokens. -/
def maxExtraChunks : Nat := 32

def compactStride : Nat := 1024

/-- The finished stream; one with too many chunks is stored anew as a single one. -/
def finish (d : Draft) : TokenStream :=
  let s : TokenStream := ⟨d.flush.chunks, d.flush.length, d.consecutive_flush⟩
  if maxExtraChunks + s.length / compactStride < s.chunks.size then .ofList s.toList else s

end Draft

namespace Chunk

/-- Up to which index of the pass the tokens from an index on may be taken over: none of them, and
none before them in the pass, looked further than a bound. -/
def endWithin (c : Chunk) (start : Nat) : Option Nat → Nat
  | none => c.hi
  | some bound =>
    bisectArray c.pass.entries (fun e => Token.shift e.reach c.delta ≤ bound) start c.hi

theorem endWithin_le_size {c : Chunk} {start : Nat} {bound : Option Nat}
    (h : start < c.endWithin start bound) : c.endWithin start bound ≤ c.pass.entries.size := by
  cases bound with
  | none => exact c.hi_le_size
  | some bound => exact Nat.le_trans (bisect_le_of_lt h) c.hi_le_size

/-- Take tokens of chunks over from an index of the stream on, until a token may have looked further
than a bound, and tell the index of the first token that was not taken. -/
def copyAll (bound : Option Nat) (delta : Int) : List Chunk → Nat → Draft → Draft × Nat
  | [], i, d => (d, i)
  | c :: cs, i, d =>
    let lo := c.lo + (i - c.first)
    let hi := c.endWithin lo bound
    if h : lo < hi then
      let d := d.pushWindow c lo hi delta h (endWithin_le_size h)
      let i := i + (hi - lo)
      if hi < c.hi then (d, i) else copyAll bound delta cs i d
    else if hi < c.hi then (d, i)
    else copyAll bound delta cs i d

end Chunk

def TokenStream.copyInto (s : TokenStream) (i : Nat) (bound : Option Nat) (delta : Int) (d : Draft) :
    Draft × Nat :=
  Chunk.copyAll bound delta (s.chunks.toList.drop (s.chunkIndex i)) i d

end ScriptTree
