import ScriptTree.Document
import ScriptTree.Number.Binary64
import ScriptTree.Settings.Basic
import ScriptTree.Update.Reparse

namespace ScriptTree

/-- How much of a document was made anew by an update, and how much was taken over. -/
structure Metrics where
  tokensRelexed : Nat := 0
  tokensReused : Nat := 0
  statementsReparsed : Nat := 0
  statementsReused : Nat := 0
  affected : Option (Nat × Nat) := none
  deriving DecidableEq, Repr

namespace Metrics

/-- The part of the statements that was taken over; none if there are no statements. -/
def reuseRatio (m : Metrics) : Binary64 :=
  let total := m.statementsReparsed + m.statementsReused
  if total = 0 then .ofNat 0 else (Binary64.ofNat m.statementsReused).div (.ofNat total)

def isEfficient (m : Metrics) : Bool := (Binary64.ofRatio false 7 10).lt m.reuseRatio

end Metrics

structure Update where
  document : Document
  full : Bool
  metrics : Metrics
  /-- For each statement the index of the old one that it is, if it was taken over. -/
  origins : List (Option Nat)

namespace Update

def unchanged (d : Document) : Update where
  document := d
  full := false
  metrics := {}
  origins := (List.range d.statements.length).map some

def fromScratch (text : Text) : Update :=
  let d := Document.parse text
  { document := d
    full := true
    metrics :=
      { tokensRelexed := d.tokens.length, statementsReparsed := d.statements.length }
    origins := d.statements.map fun _ => none }

/-- The update that takes over what the changes left as it was. -/
def incremental (settings : Settings) (d : Document) (text : Text) (changes : List Change) :
    Update :=
  let limit := max settings.maxResyncLookahead 1
  let relexed := relex d.tokens text changes limit
  let (steps, tail) := reparse d.statements relexed limit
  let origins := steps.map fun s => s.origin
  { document := .assemble text relexed.tokens (steps.map fun s => s.statement) tail
    full := false
    metrics :=
      { tokensRelexed := relexed.relexed
        tokensReused := relexed.tokens.length - relexed.relexed
        statementsReparsed := (origins.filter Option.isNone).length
        statementsReused := (origins.filter Option.isSome).length }
    origins := origins }

def affected (changes : List Change) : Option (Nat × Nat) :=
  match changes.head?, changes.getLast? with
  | some first, some last => some (first.newStart, last.newStop)
  | _, _ => none

/-- Whether a batch inserts too much for anything to be taken over, or nothing is to be. -/
def needsFullParse (settings : Settings) (edits : List Edit) : Bool :=
  !settings.incremental || settings.maxIncrementalSize < Edit.inserted edits

def apply (settings : Settings) (d : Document) (edits : List Edit) :
    Except Edit.BatchError Update := do
  Edit.validate d.text edits
  if edits.isEmpty then return unchanged d
  let text := Edit.applyAll d.text edits
  let changes := Change.ofEdits edits
  let update :=
    if needsFullParse settings edits then fromScratch text
    else incremental settings d text changes
  return { update with metrics := { update.metrics with affected := affected changes } }

end Update

end ScriptTree
