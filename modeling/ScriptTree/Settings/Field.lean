import ScriptTree.Settings.Basic
import ScriptTree.Text.Basic

namespace ScriptTree

/-- A value as far as a setting can tell it. -/
inductive FieldValue
  | integer (n : Int)
  | boolean (b : Bool)
  | other
  deriving DecidableEq, Repr

abbrev Field := Text × FieldValue

namespace FieldValue

def maxSize : Nat := 0xffffffffffffffff

def size? : FieldValue → Option Nat
  | integer n => if 0 ≤ n ∧ n ≤ maxSize then some n.toNat else none
  | _ => none

def flag? : FieldValue → Option Bool
  | boolean b => some b
  | _ => none

end FieldValue

namespace Settings

def lookaheadName : Text := "maxResyncLookahead".toList

def sizeName : Text := "maxIncrementalSize".toList

def incrementalName : Text := "incremental".toList

def fieldNames : List Text := [lookaheadName, sizeName, incrementalName]

def setField? (s : Settings) (f : Field) : Option Settings :=
  if f.1 = lookaheadName then f.2.size?.map fun n => { s with maxResyncLookahead := n }
  else if f.1 = sizeName then f.2.size?.map fun n => { s with maxIncrementalSize := n }
  else if f.1 = incrementalName then f.2.flag?.map fun b => { s with incremental := b }
  else some s

/-- The settings that fields make, if each known one is given once and has a value of its type. -/
def ofFields? (fs : List Field) : Option Settings :=
  let known := (fs.map Prod.fst).filter fieldNames.contains
  if decide known.Nodup then fs.foldlM setField? {} else none

end Settings

end ScriptTree
