import ScriptTree.Highlight.Tag
import ScriptTree.Kind
import ScriptTree.Text.Basic

namespace ScriptTree

/-- A tag for the elements whose path from the root ends in a pattern. -/
structure TagRule where
  pattern : List Kind
  tag : Tag
  deriving DecidableEq, Repr

namespace TagRule

def all : List TagRule :=
  [⟨[.identifier], ⟨.variableName, []⟩⟩,
   ⟨[.callExpression, .attributeExpression, .identifier], ⟨.variableName, [.function]⟩⟩,
   ⟨[.callExpression, .identifier], ⟨.variableName, [.function]⟩⟩,
   ⟨[.keywordArgument, .identifier], ⟨.propertyName, []⟩⟩,
   ⟨[.attributeExpression, .identifier], ⟨.propertyName, []⟩⟩,
   ⟨[.assignmentTargets, .identifier], ⟨.variableName, [.definition]⟩⟩,
   ⟨[.builtinType], ⟨.typeName, []⟩⟩,
   ⟨[.builtinFunction], ⟨.variableName, [.function, .standard]⟩⟩,
   ⟨[.number], ⟨.number, []⟩⟩,
   ⟨[.string], ⟨.string, []⟩⟩,
   ⟨[.boolean], ⟨.bool, []⟩⟩,
   ⟨[.none], ⟨.null, []⟩⟩,
   ⟨[.timeframe], ⟨.literal, [.special]⟩⟩,
   ⟨[.ifKw], ⟨.keyword, []⟩⟩,
   ⟨[.elseKw], ⟨.keyword, []⟩⟩,
   ⟨[.andKw], ⟨.keyword, []⟩⟩,
   ⟨[.orKw], ⟨.keyword, []⟩⟩,
   ⟨[.notKw], ⟨.keyword, []⟩⟩,
   ⟨[.comparisonOp], ⟨.compareOperator, []⟩⟩,
   ⟨[.comment], ⟨.lineComment, []⟩⟩,
   ⟨[.listLiteral], ⟨.list, []⟩⟩,
   ⟨[.tupleLiteral], ⟨.list, []⟩⟩,
   ⟨[.dictLiteral], ⟨.list, []⟩⟩,
   ⟨[.dictPair], ⟨.propertyName, [.definition]⟩⟩]

def applies (r : TagRule) (path : List Kind) : Bool := r.pattern.isSuffixOf path

def forKind (k : Kind) : List TagRule :=
  (all.filter fun r => r.pattern.getLast? == some k).mergeSort fun r s =>
    s.pattern.length ≤ r.pattern.length

def ofPath? (path : List Kind) : Option TagRule :=
  match path.getLast? with
  | none => none
  | some k => (forKind k).find? fun r => r.applies path

end TagRule

def builtinTypes : List Text :=
  ["Time".toList, "Duration".toList, "Session".toList, "SessionAnchor".toList,
   "EventMarkerSchema".toList]

def builtinFunctions : List Text :=
  ["abs".toList, "sqrt".toList, "log".toList, "exp".toList, "pow".toList, "min".toList,
   "max".toList, "round".toList, "floor".toList, "ceil".toList, "crossover".toList,
   "crossunder".toList]

def builtinKind? (name : Text) : Option Kind :=
  if builtinTypes.contains name then some .builtinType
  else if builtinFunctions.contains name then some .builtinFunction
  else none

end ScriptTree
