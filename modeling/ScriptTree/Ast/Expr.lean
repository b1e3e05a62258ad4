import ScriptTree.Literal
import ScriptTree.Tree.Basic

namespace ScriptTree

structure Span where
  start : Nat
  stop : Nat
  deriving DecidableEq, Repr

inductive Expr
  | name (span : Span) (text : Text)
  | literal (span : Span) (kind : Kind) (text : Text)
  | conditional (span : Span) (body condition alternative : Option Expr)
  | binary (span : Span) (operator : Option (Kind × Text)) (left right : Option Expr)
  | unary (span : Span) (operator : Option Kind) (operand : Option Expr)
  | comparison (span : Span) (operands : List Expr) (operators : List Kind)
  | pipeline (span : Span) (source stage : Option Expr)
  | call (span : Span) (callee : Option Expr)
      (arguments : Option (List Expr × List (Option Text × Option Expr)))
  | member (span : Span) (object : Option Expr) (field : Option Text)
  | paren (span : Span) (inner : Option Expr)
  | tuple (span : Span) (elements : List Expr)
  | list (span : Span) (elements : List Expr)
  | dict (span : Span) (pairs : List (Option Expr × Option Expr))
  | error (span : Span) (text : Text)
  deriving Repr

namespace Forest

def token? (p : Kind → Bool) : Forest → Option (Kind × Text)
  | [] => none
  | .token k s :: ts => if p k then some (k, s) else token? p ts
  | .node _ _ :: ts => token? p ts

def operator? (ts : Forest) : Option (Kind × Text) :=
  token? (fun k => k.isOperator || k.isKeyword) ts

def comparisonOperators (ts : Forest) : List Kind :=
  ts.filterMap fun t =>
    match t with
    | .node .comparisonOp us => (operator? us).map Prod.fst
    | _ => none

def member? : Forest → Option Text
  | [] => none
  | .token .dot _ :: ts => (token? (· == .identifier) ts).map Prod.snd
  | _ :: ts => member? ts

end Forest

namespace Expr

def span : Expr → Span
  | name s _ | literal s _ _ | conditional s _ _ _ | binary s _ _ _ | unary s _ _
  | comparison s _ _ | pipeline s _ _ | call s _ _ | member s _ _ | paren s _ | tuple s _
  | list s _ | dict s _ | error s _ => s

def name? : Expr → Option Text
  | name _ s => some s
  | _ => none

def value? : Expr → Option Literal
  | literal _ k s => Literal.decode? k s
  | _ => none

def isCall : Expr → Bool
  | call _ _ _ => true
  | _ => false

/-- An error without text marks a missing part. -/
def isMissing : Expr → Bool
  | error s _ => s.start = s.stop
  | _ => false

end Expr

mutual

def Expr.ofTree? (start : Nat) : Tree → Option Expr
  | .token k s =>
    let span : Span := ⟨start, start + s.bytes⟩
    if k = .identifier then some (.name span s)
    else if k.isLiteral then some (.literal span k s)
    else none
  | .node k ts =>
    let span : Span := ⟨start, start + Forest.bytes ts⟩
    match k with
    | .conditionalExpression =>
      let parts := Expr.ofForest start ts
      some (.conditional span parts[0]? parts[1]? parts[2]?)
    | .binaryExpression =>
      let parts := Expr.ofForest start ts
      some (.binary span (Forest.operator? ts) parts[0]? parts[1]?)
    | .unaryExpression =>
      let parts := Expr.ofForest start ts
      some (.unary span ((Forest.operator? ts).map Prod.fst) parts[0]?)
    | .comparisonExpression =>
      some (.comparison span (Expr.ofForest start ts) (Forest.comparisonOperators ts))
    | .pipelineExpression =>
      let parts := Expr.ofForest start ts
      some (.pipeline span parts[0]? parts[1]?)
    | .callExpression =>
      let parts := Expr.ofForest start ts
      some (.call span parts[0]? (Expr.argumentsOf? start ts))
    | .attributeExpression =>
      let parts := Expr.ofForest start ts
      some (.member span parts[0]? (Forest.member? ts))
    | .parenthesizedExpression =>
      let parts := Expr.ofForest start ts
      some (.paren span parts[0]?)
    | .tupleLiteral => some (.tuple span (Expr.ofForest start ts))
    | .listLiteral => some (.list span (Expr.ofForest start ts))
    | .dictLiteral => some (.dict span (Expr.pairsOf start ts))
    | .error => some (.error span (Forest.text ts))
    | _ => none

def Expr.ofForest (start : Nat) : Forest → List Expr
  | [] => []
  | t :: ts =>
    match Expr.ofTree? start t with
    | some e => e :: Expr.ofForest (start + t.bytes) ts
    | none => Expr.ofForest (start + t.bytes) ts

/-- The arguments in the first argument list among the children of a call. -/
def Expr.argumentsOf? (start : Nat) :
    Forest → Option (List Expr × List (Option Text × Option Expr))
  | [] => none
  | .node .argumentList us :: _ => some (Expr.ofForest start us, Expr.namedOf start us)
  | t :: ts => Expr.argumentsOf? (start + t.bytes) ts

/-- The arguments with names in an argument list. The name is itself read as an expression, so the
value is the second one. -/
def Expr.namedOf (start : Nat) : Forest → List (Option Text × Option Expr)
  | [] => []
  | .node .keywordArgument us :: ts =>
    ((Forest.token? (· == .identifier) us).map Prod.snd, (Expr.ofForest start us)[1]?) ::
      Expr.namedOf (start + Forest.bytes us) ts
  | t :: ts => Expr.namedOf (start + t.bytes) ts

def Expr.pairsOf (start : Nat) : Forest → List (Option Expr × Option Expr)
  | [] => []
  | .node .dictPair us :: ts =>
    let parts := Expr.ofForest start us
    (parts[0]?, parts[1]?) :: Expr.pairsOf (start + Forest.bytes us) ts
  | t :: ts => Expr.pairsOf (start + t.bytes) ts

end

end ScriptTree
