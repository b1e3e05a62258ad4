namespace ScriptTree

structure Settings where
  /-- How many tokens are lexed past an edit, and how many statements are parsed without meeting an
  old boundary, before nothing further is taken over. -/
  maxResyncLookahead : Nat := 64
  /-- Batches that insert more bytes than this are followed by a full parse. -/
  maxIncrementalSize : Nat := 10000
  incremental : Bool := true
  deriving DecidableEq, Repr

namespace Settings

/-- The settings with a limit on looking ahead, which is at least one. -/
def withMaxResyncLookahead (s : Settings) (n : Nat) : Settings :=
  { s with maxResyncLookahead := max n 1 }

end Settings

end ScriptTree
