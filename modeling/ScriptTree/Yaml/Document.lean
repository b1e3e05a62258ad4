import ScriptTree.Yaml.Event
import ScriptTree.Yaml.Lexer

namespace ScriptTree.Yaml

def isKnownVersion (major minor : Nat) : Bool := major == 1 && (minor == 1 || minor == 2)

/-- The handles that directives at the front define, and the tokens after them. The version is told
at most once, and so is each handle. -/
def directives? (versioned : Bool) (hs : Handles) : List Token → Option (Handles × List Token)
  | .version major minor :: ts =>
    if versioned || !isKnownVersion major minor then none else directives? true hs ts
  | .tagHandle handle expansion :: ts =>
    if (List.lookup handle hs).isSome then none
    else directives? versioned (hs ++ [(handle, expansion)]) ts
  | ts => some (hs, ts)

def isOutside : Token → Bool
  | .version _ _ | .tagHandle _ _ | .documentStart | .documentEnd => true
  | _ => false

/-- As many steps as goals can take from tokens: few steps in a row take no token. -/
def stepLimit (ts : List Token) : Nat := 16 * (ts.length + 1)

def root? (hs : Handles) (ts : List Token) : Option (List Event × List Token) :=
  events? (hs ++ Handles.default) (stepLimit ts) [.node true false] ts

def marked? (hs : Handles) (ts : List Token) : Option (List Event × List Token) :=
  match ts with
  | [] => some ([.empty], [])
  | t :: _ => if isOutside t then some ([.empty], ts) else root? hs ts

def first? (ts : List Token) : Option (List Event × List Token) :=
  match ts with
  | [] => some ([], [])
  | .version _ _ :: _ | .tagHandle _ _ :: _ | .documentStart :: _ => do
    let (hs, ts) ← directives? false [] ts
    match ts with
    | .documentStart :: ts => marked? hs ts
    | _ => none
  | ts => root? [] ts

def document? (s : Text) : Option (List Event) := do
  let ts ← tokens? s
  let (es, rest) ← first? ts
  if rest.all (· = .documentEnd) then return es else none

end ScriptTree.Yaml
