import ScriptTree.Ast.Expr
import ScriptTree.Tree.Site
import ScriptTree.Trivia.Comment

namespace ScriptTree.Ast

/-- What every statement has: its range, the comments above it, and whether an error is in it. -/
structure Heading where
  span : Span
  comments : List Text
  hasError : Bool
  deriving DecidableEq, Repr

inductive Statement
  | assignment (heading : Heading) (targets : Option (List Expr)) (equals : Option Nat)
      (value : Option Expr)
  | expression (heading : Heading) (expr : Option Expr)
  deriving Repr

/-- The comments among the trivia at the front of a statement. -/
def frontComments (ts : Forest) : List Text :=
  (ts.takeWhile Tree.isTrivia).filterMap fun t =>
    match t with
    | .token .comment s => some (Text.commentContent s)
    | _ => none

def heading (s : Site) : Heading :=
  ⟨⟨s.start, s.stop⟩, frontComments s.tree.children, s.tree.hasError⟩

def Statement.ofSite? (s : Site) : Option Statement :=
  match s.tree with
  | .node .assignment ts =>
    let targets := s.children.find? fun c => c.tree.isNode && c.kind == .assignmentTargets
    let equals := s.children.find? fun c => c.isToken && c.kind == .eq
    some (.assignment (heading s)
      (targets.map fun c => Expr.ofForest c.start c.tree.children)
      (equals.map Site.start)
      (Expr.ofForest s.start ts).head?)
  | .node .expressionStatement ts =>
    some (.expression (heading s) (Expr.ofForest s.start ts).head?)
  | _ => none

def boundNames (targets : Option (List Expr)) : List Text := (targets.getD []).filterMap Expr.name?

/-- Whether an assignment takes a value apart. -/
def isUnpacking (targets : List Expr) : Bool := 1 < targets.length

def statements? (t : Tree) : Option (List Statement) :=
  match t with
  | .node .program _ => some (t.root.children.filterMap Statement.ofSite?)
  | _ => none

end ScriptTree.Ast
