import ScriptTree.Proofs.Lexer.Spelling
import ScriptTree.Proofs.Statement.Parses

namespace ScriptTree

def Kind.word (k : Kind) : Word := (k, k.spelling?.getD [])

@[simp] theorem Kind.word_fst (k : Kind) : k.word.1 = k := rfl

namespace Grammar

open Expression (Join Unary)

/-- What an expression says, without the places of its words. -/
inductive Phrase
  | name (text : Text)
  | literal (kind : Kind) (text : Text)
  | conditional (body condition alternative : Phrase)
  | binary (operator : Word) (left right : Phrase)
  | unary (operator : Kind) (operand : Phrase)
  | comparison (operands : List Phrase) (operators : List Kind)
  | pipeline (source stage : Phrase)
  | call (callee : Phrase) (positional : List Phrase) (named : List (Text × Phrase))
  | member (object : Phrase) (field : Text)
  | paren (inner : Phrase)
  | tuple (elements : List Phrase)
  | list (elements : List Phrase)
  | dict (pairs : List (Phrase × Phrase))

/-- The sorts of phrases, from the loosest to the tightest. -/
inductive PhraseSort
  | conditional
  | join (j : Join)
  | comparison
  | unary (u : Unary)
  | power
  | postfixed
  | atom
  deriving DecidableEq

def operandSort : Join → PhraseSort
  | .product => .unary .sign
  | .sum => .join .product
  | .lag => .join .sum
  | .pipeline => .join .lag
  | .conjunction => .unary .negation
  | .disjunction => .join .conjunction

def plainSort : Unary → PhraseSort
  | .negation => .comparison
  | .sign => .power

def joinPhrase (j : Join) (k : Kind) (left right : Phrase) : Phrase :=
  match j with
  | .pipeline => .pipeline left right
  | _ => .binary k.word left right

/-- Parts between commas, of which the last may be followed by one more comma. -/
def listed : List (List Word) → Bool → List Word
  | [], _ => []
  | [w], trailing => w ++ if trailing then [Kind.comma.word] else []
  | w :: v :: ws, trailing => w ++ Kind.comma.word :: listed (v :: ws) trailing

def bracketed (opening closing : Kind) (ws : List Word) : List Word :=
  opening.word :: ws ++ [closing.word]

structure NamedArgument where
  name : Text
  words : List Word
  value : Phrase

def NamedArgument.text (a : NamedArgument) : List Word :=
  (.identifier, a.name) :: Kind.eq.word :: a.words

structure Entry where
  keyWords : List Word
  key : Phrase
  valueWords : List Word
  value : Phrase

def Entry.text (e : Entry) : List Word := e.keyWords ++ Kind.colon.word :: e.valueWords

/-- The words are a phrase of the sort, with the structure `p`, within `n` levels of nesting, of
which its own is the first. Brackets, the operands of `not` and of signs, and exponents are one level
deeper than what they stand in. -/
inductive Derives : Nat → PhraseSort → List Word → Phrase → Prop
  | unconditional {n w p} (h : Derives n (.join .disjunction) w p) : Derives n .conditional w p
  | conditional {n w p v q u r} (body : Derives n (.join .disjunction) w p)
      (condition : Derives n (.join .disjunction) v q)
      (alternative : Derives n (.join .disjunction) u r) :
      Derives n .conditional (w ++ Kind.ifKw.word :: v ++ Kind.elseKw.word :: u)
        (.conditional p q r)
  | unjoined {n j w p} (h : Derives n (operandSort j) w p) : Derives n (.join j) w p
  | joined {n j w p k v q} (left : Derives n (.join j) w p) (hop : j.joins k)
      (right : Derives n (operandSort j) v q) :
      Derives n (.join j) (w ++ k.word :: v) (joinPhrase j k p q)
  | uncompared {n w p} (h : Derives n (.join .pipeline) w p) : Derives n .comparison w p
  | compared {n w p} {more : List (Kind × List Word × Phrase)}
      (first : Derives n (.join .pipeline) w p) (hne : more ≠ [])
      (hop : ∀ m ∈ more, m.1.isComparison)
      (operands : ∀ m ∈ more, Derives n (.join .pipeline) m.2.1 m.2.2) :
      Derives n .comparison (w ++ more.flatMap fun m => m.1.word :: m.2.1)
        (.comparison (p :: more.map fun m => m.2.2) (more.map Prod.fst))
  | plain {n u w p} (h : Derives n (plainSort u) w p) : Derives n (.unary u) w p
  | unary {n u k w p} (hop : u.starts k) (operand : Derives n (.unary u) w p) :
      Derives (n + 1) (.unary u) (k.word :: w) (.unary k p)
  | base {n w p} (h : Derives n .postfixed w p) : Derives n .power w p
  | power {n w p v q} (base : Derives (n + 1) .postfixed w p)
      (exponent : Derives n (.unary .sign) v q) :
      Derives (n + 1) .power (w ++ Kind.starStar.word :: v) (.binary Kind.starStar.word p q)
  | bare {n w p} (h : Derives n .atom w p) : Derives n .postfixed w p
  | call {n w p} {positional : List (List Word × Phrase)} {named : List NamedArgument}
      (callee : Derives (n + 1) .postfixed w p)
      (hpositional : ∀ a ∈ positional, Derives n .conditional a.1 a.2)
      (hnamed : ∀ a ∈ named, Derives n .conditional a.words a.value) (trailing : Bool) :
      Derives (n + 1) .postfixed
        (w ++ bracketed .lParen .rParen
          (listed (positional.map Prod.fst ++ named.map NamedArgument.text) trailing))
        (.call p (positional.map Prod.snd) (named.map fun a => (a.name, a.value)))
  | member {n w p} (object : Derives n .postfixed w p) (field : Text) :
      Derives n .postfixed (w ++ [Kind.dot.word, (.identifier, field)]) (.member p field)
  | name {n} (x : Text) : Derives (n + 1) .atom [(.identifier, x)] (.name x)
  | literal {n} {k : Kind} (h : k.isLiteral) (hname : k ≠ .identifier) (x : Text) :
      Derives (n + 1) .atom [(k, x)] (.literal k x)
  | paren {n w p} (h : Derives n .conditional w p) :
      Derives (n + 1) .atom (bracketed .lParen .rParen w) (.paren p)
  | tuple {n} {parts : List (List Word × Phrase)}
      (h : ∀ x ∈ parts, Derives n .conditional x.1 x.2) {trailing : Bool}
      (hone : parts.length = 1 → trailing) :
      Derives (n + 1) .atom (bracketed .lParen .rParen (listed (parts.map Prod.fst) trailing))
        (.tuple (parts.map Prod.snd))
  | list {n} {parts : List (List Word × Phrase)}
      (h : ∀ x ∈ parts, Derives n .conditional x.1 x.2) (trailing : Bool) :
      Derives (n + 1) .atom
        (bracketed .lBracket .rBracket (listed (parts.map Prod.fst) trailing))
        (.list (parts.map Prod.snd))
  | dict {n} {entries : List Entry}
      (hkey : ∀ e ∈ entries, Derives n .conditional e.keyWords e.key)
      (hvalue : ∀ e ∈ entries, Derives n .conditional e.valueWords e.value) (trailing : Bool) :
      Derives (n + 1) .atom
        (bracketed .lBrace .rBrace (listed (entries.map Entry.text) trailing))
        (.dict (entries.map fun e => (e.key, e.value)))

inductive Sentence
  | expression (p : Phrase)
  | assignment (targets : List Phrase) (value : Phrase)

/-- The words of a sentence; its own expressions are on the first level of nesting. -/
inductive Sentence.Derives : List Word → Sentence → Prop
  | expression {w p} (h : Grammar.Derives Expression.maxNesting .conditional w p) :
      Sentence.Derives w (.expression p)
  | assignment {targets : List (List Word × Phrase)} {w p} (hne : targets ≠ [])
      (htargets : ∀ x ∈ targets, Grammar.Derives Expression.maxNesting .conditional x.1 x.2)
      (trailing : Bool) (value : Grammar.Derives Expression.maxNesting .conditional w p) :
      Sentence.Derives (listed (targets.map Prod.fst) trailing ++ Kind.eq.word :: w)
        (.assignment (targets.map Prod.snd) p)

/-- Words in tokens, from one bracket depth to another: trivia may stand anywhere, but a line break
only where a bracket is open. -/
inductive Spaced : Nat → List Word → List Token → Nat → Prop
  | nil {d} : Spaced d [] [] d
  | trivia {d ws t ts e} (h : t.kind.isTrivia) (hbreak : t.kind = .newline → 0 < d)
      (more : Spaced d ws ts e) : Spaced d ws (t :: ts) e
  | word {d ws t ts e} (h : t.kind.isTrivia = false)
      (more : Spaced (Cursor.depthAfter d t.kind) ws ts e) : Spaced d (t.word :: ws) (t :: ts) e

/-- Sentences in tokens: each after trivia, and ended, with no bracket open, by a line break or a
semicolon, or by the end of the tokens. After the last one there is only trivia. -/
inductive Laid : List (List Word) → List Token → Prop
  | done {tail} (h : ∀ t ∈ tail, t.kind.isTrivia) : Laid [] tail
  | last {lead ws ts} (hlead : ∀ t ∈ lead, t.kind.isTrivia) (body : Spaced 0 ws ts 0) :
      Laid [ws] (lead ++ ts)
  | ended {lead ws ts t wss rest} (hlead : ∀ t ∈ lead, t.kind.isTrivia) (body : Spaced 0 ws ts 0)
      (hend : t.kind = .newline ∨ t.kind = .semicolon) (more : Laid wss rest) :
      Laid (ws :: wss) (lead ++ (ts ++ t :: rest))

end Grammar

end ScriptTree
