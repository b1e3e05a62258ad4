import ScriptTree.Kind
import ScriptTree.Text.Basic
import ScriptTree.Token.Basic

namespace ScriptTree

/-- A node may have no children: recovery marks a missing part of a script by an empty node. -/
inductive Tree
  | token (kind : Kind) (text : Text)
  | node (kind : Kind) (children : List Tree)
  deriving Repr, Inhabited

abbrev Forest := List Tree

def Token.tree (t : Token) : Tree := .token t.kind t.text

namespace Tree

def kind : Tree → Kind
  | token k _ => k
  | node k _ => k

def children : Tree → Forest
  | token _ _ => []
  | node _ ts => ts

def isNode : Tree → Bool
  | token _ _ => false
  | node _ _ => true

def isTrivia : Tree → Bool
  | token k _ => k.isTrivia
  | node _ _ => false

/-- The mark of a missing part. -/
def missing : Tree := .node .error []

end Tree

mutual

def Tree.text : Tree → Text
  | .token _ s => s
  | .node _ ts => Forest.text ts

def Forest.text : Forest → Text
  | [] => []
  | t :: ts => t.text ++ Forest.text ts

end

mutual

def Tree.bytes : Tree → Nat
  | .token _ s => s.bytes
  | .node _ ts => Forest.bytes ts

def Forest.bytes : Forest → Nat
  | [] => 0
  | t :: ts => t.bytes + Forest.bytes ts

end

mutual

def Tree.hasError : Tree → Bool
  | .token k _ => k == .error
  | .node k ts => k == .error || Forest.hasError ts

def Forest.hasError : Forest → Bool
  | [] => false
  | t :: ts => t.hasError || Forest.hasError ts

end

mutual

def Tree.height : Tree → Nat
  | .token _ _ => 1
  | .node _ ts => Forest.height ts + 1

def Forest.height : Forest → Nat
  | [] => 0
  | t :: ts => max t.height (Forest.height ts)

end

mutual

def Tree.count (k : Kind) : Tree → Nat
  | .token l _ => if l = k then 1 else 0
  | .node l ts => (if l = k then 1 else 0) + Forest.count k ts

def Forest.count (k : Kind) : Forest → Nat
  | [] => 0
  | t :: ts => t.count k + Forest.count k ts

end

mutual

def Tree.decEq : (s t : Tree) → Decidable (s = t)
  | .token k x, .token l y =>
    if h : k = l ∧ x = y then .isTrue (by rw [h.1, h.2])
    else .isFalse fun e => h (by injection e with h₁ h₂; exact ⟨h₁, h₂⟩)
  | .token _ _, .node _ _ => .isFalse nofun
  | .node _ _, .token _ _ => .isFalse nofun
  | .node k ss, .node l ts =>
    if h : k = l then
      match Forest.decEq ss ts with
      | .isTrue e => .isTrue (by rw [h, e])
      | .isFalse n => .isFalse fun e => n (by injection e)
    else .isFalse fun e => h (by injection e)

def Forest.decEq : (ss ts : List Tree) → Decidable (ss = ts)
  | [], [] => .isTrue rfl
  | [], _ :: _ => .isFalse nofun
  | _ :: _, [] => .isFalse nofun
  | s :: ss, t :: ts =>
    match Tree.decEq s t with
    | .isFalse n => .isFalse fun e => n (by injection e)
    | .isTrue h =>
      match Forest.decEq ss ts with
      | .isTrue e => .isTrue (by rw [h, e])
      | .isFalse n => .isFalse fun e => n (by injection e)

end

instance : DecidableEq Tree := Tree.decEq

mutual

theorem Tree.bytes_text (t : Tree) : t.text.bytes = t.bytes := by
  cases t with
  | token k s => rfl
  | node k ts => exact Forest.bytes_text ts

theorem Forest.bytes_text (ts : Forest) : (Forest.text ts).bytes = Forest.bytes ts := by
  cases ts with
  | nil => rfl
  | cons t ts => simp [Forest.text, Forest.bytes, Tree.bytes_text t, Forest.bytes_text ts]

end

end ScriptTree
