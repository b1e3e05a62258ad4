import ScriptTree.Statement.Cursor

/-!
Expressions. A parser gets a cursor without pending trivia and gives exactly one tree, whatever the
tokens are: a missing operand is an empty error node, a token that starts no operand an error node
around it. From loosest to tightest the levels are

* conditional `a if c else b`, `or`, `and`, `not`;
* comparisons, which do not nest: `a < b <= c` is one node;
* `|`, then `>>` and `<<`, then `+` and `-`, then `*`, `/` and `%`, all to the left;
* signs, `**` to the right, calls and members, and the atoms.

Brackets, `not`, signs and exponents nest. Each level of nesting is a set of parsers made from the
level below it, and at the bottom the rest of the nested part becomes one error node.
-/

namespace ScriptTree

abbrev Parser := Cursor → Tree × Cursor

/-- Parse an operand; the trivia before it goes in front of it. -/
def Cursor.operand (c : Cursor) (parser : Parser) : Forest × Cursor :=
  let (lead, c) := c.flush
  let (tree, c) := parser c
  (lead ++ [tree], c)

namespace Expression

/-- The parsers of one nesting level. -/
structure Level where
  whole : Parser
  negated : Parser
  signed : Parser

/-- Tokens up to the bracket or terminator that ends the current nesting level. -/
def skipNested : Nat → Nat → Cursor → Forest × Cursor
  | 0, _, c => ([], c)
  | fuel + 1, opened, c =>
    let k := c.kind
    if k = .eof || (opened = 0 && (k.isClosing || k = .newline || k = .semicolon)) then ([], c)
    else
      let (trees, c) := c.bump
      let (more, c) := skipNested fuel (Cursor.depthAfter opened k) c
      (trees ++ more, c)

/-- What lies too deep is kept without structure. -/
def tooDeep : Parser := fun c =>
  let (trees, c) := skipNested c.rest.length 0 c
  (.node .error trees, c)

/-- Where no operand starts: a mark before a token that others wait for, or a node around any other
token. -/
def unexpected : Parser := fun c =>
  if c.atAnchor then (.missing, c)
  else
    let (trees, c) := c.take
    (.node .error trees, c.skip)

/-- Items between commas up to a closing bracket. An item is missing where a comma stands in its
place; the last comma may be followed by none. An item knows whether a keyword argument came
before it. -/
def itemsLoop (close : Kind) (item : Bool → Parser) : Nat → Bool → Cursor → Forest × Cursor
  | 0, _, c => ([], c)
  | fuel + 1, named, c =>
    if c.kind = close || c.kind = .eof then ([], c)
    else
      let (trees, c) := if c.kind = .comma then ([.missing], c) else c.operand (item named)
      if c.kind = .comma then
        let named := named || trees.any (·.kind == .keywordArgument)
        let (comma, c) := c.bump
        let (more, c) := itemsLoop close item fuel named c
        (trees ++ comma ++ more, c)
      else (trees, c)

def items (close : Kind) (item : Bool → Parser) (c : Cursor) : Forest × Cursor :=
  itemsLoop close item c.rest.length false c

def enclosed (kind close : Kind) (item : Bool → Parser) : Parser := fun c =>
  let (opening, c) := c.bump
  let (trees, c) := items close item c
  let (closing, c) := c.close close
  (.node kind (opening ++ trees ++ closing), c)

/-- `(a)` groups; `()`, `(a,)` and `(a, b)` are tuples. -/
def parenthesized (inner : Level) : Parser := fun c =>
  let (opening, c) := c.bump
  if c.kind = .rParen then
    let (closing, c) := c.close .rParen
    (.node .tupleLiteral (opening ++ closing), c)
  else
    let (first, c) := c.operand inner.whole
    if c.kind = .comma then
      let (comma, c) := c.bump
      let (more, c) := items .rParen (fun _ => inner.whole) c
      let (closing, c) := c.close .rParen
      (.node .tupleLiteral (opening ++ first ++ comma ++ more ++ closing), c)
    else
      let (closing, c) := c.close .rParen
      (.node .parenthesizedExpression (opening ++ first ++ closing), c)

def dictPair (inner : Level) : Parser := fun c =>
  let (key, c) := inner.whole c
  if c.kind = .colon then
    let (colon, c) := c.bump
    let (value, c) := c.operand inner.whole
    (.node .dictPair (key :: colon ++ value), c)
  else (.node .dictPair [key, .missing], c)

/-- An argument of a call. A name with an equals sign after it starts a keyword argument; any other
argument after one of these is an error. -/
def argument (inner : Level) (named : Bool) : Parser := fun c =>
  let positional (c : Cursor) : Tree × Cursor :=
    let (value, c) := inner.whole c
    if named then (.node .error [value], c) else (value, c)
  if c.kind = .identifier then
    let (next, c) := c.peek
    if next = .eq then
      let (name, c) := c.bump
      let (eq, c) := c.bump
      let (value, c) := c.operand inner.whole
      (.node .keywordArgument (name ++ eq ++ value), c)
    else positional c
  else positional c

def atom (inner : Level) : Parser := fun c =>
  match c.rest with
  | [] => (.missing, c)
  | t :: _ =>
    if t.kind.isLiteral then (t.tree, c.bump.2)
    else
      match t.kind with
      | .lParen => parenthesized inner c
      | .lBracket => enclosed .listLiteral .rBracket (fun _ => inner.whole) c
      | .lBrace => enclosed .dictLiteral .rBrace (fun _ => dictPair inner) c
      | _ => unexpected c

/-- Calls and members of an operand; in `f(a)(b)` the first call is the callee of the second. -/
def suffixes (inner : Level) : Nat → Tree → Cursor → Tree × Cursor
  | 0, tree, c => (tree, c)
  | fuel + 1, tree, c =>
    match c.kind with
    | .lParen =>
      let (arguments, c) := c.operand (enclosed .argumentList .rParen (argument inner))
      suffixes inner fuel (.node .callExpression (tree :: arguments)) c
    | .dot =>
      let (dot, c) := c.bump
      let (member, c) :=
        if c.kind = .identifier then c.bump
        else if c.atAnchor then ([.missing], c)
        else c.operand unexpected
      suffixes inner fuel (.node .attributeExpression (tree :: dot ++ member)) c
    | _ => (tree, c)

def primary (inner : Level) : Parser := fun c =>
  let (tree, c) := atom inner c
  if c.kind = .lParen || c.kind = .dot then suffixes inner c.rest.length tree c else (tree, c)

/-- `**` binds tighter than a sign before it, and takes a sign after it. -/
def power (inner : Level) : Parser := fun c =>
  let (base, c) := primary inner c
  if c.kind = .starStar then
    let (star, c) := c.bump
    let (exponent, c) := c.operand inner.signed
    (.node .binaryExpression (base :: star ++ exponent), c)
  else (base, c)

def signed (inner : Level) : Parser := fun c =>
  if c.kind = .minus || c.kind = .plus then
    let (sign, c) := c.bump
    let (operand, c) := c.operand inner.signed
    (.node .unaryExpression (sign ++ operand), c)
  else power inner c

def joinLoop (kind : Kind) (joins : Kind → Bool) (operand : Parser) :
    Nat → Tree → Cursor → Tree × Cursor
  | 0, tree, c => (tree, c)
  | fuel + 1, tree, c =>
    if joins c.kind then
      let (operator, c) := c.bump
      let (right, c) := c.operand operand
      joinLoop kind joins operand fuel (.node kind (tree :: operator ++ right)) c
    else (tree, c)

def joined (kind : Kind) (joins : Kind → Bool) (operand : Parser) : Parser := fun c =>
  let (tree, c) := operand c
  if joins c.kind then joinLoop kind joins operand c.rest.length tree c else (tree, c)

def product (inner : Level) : Parser :=
  joined .binaryExpression (fun k => k = .star || k = .slash || k = .percent) (signed inner)

def sum (inner : Level) : Parser :=
  joined .binaryExpression (fun k => k = .plus || k = .minus) (product inner)

def lag (inner : Level) : Parser :=
  joined .binaryExpression (fun k => k = .shiftRight || k = .shiftLeft) (sum inner)

def pipeline (inner : Level) : Parser :=
  joined .pipelineExpression (fun k => k = .pipe) (lag inner)

def compareLoop (operand : Parser) : Nat → Cursor → Forest × Cursor
  | 0, c => ([], c)
  | fuel + 1, c =>
    if c.kind.isComparison then
      let (lead, c) := c.flush
      let (operator, c) := c.bump
      let (right, c) := c.operand operand
      let (more, c) := compareLoop operand fuel c
      (lead ++ .node .comparisonOp operator :: right ++ more, c)
    else ([], c)

def comparison (inner : Level) : Parser := fun c =>
  let (left, c) := pipeline inner c
  if c.kind.isComparison then
    let (more, c) := compareLoop (pipeline inner) c.rest.length c
    (.node .comparisonExpression (left :: more), c)
  else (left, c)

def negated (inner : Level) : Parser := fun c =>
  if c.kind = .notKw then
    let (operator, c) := c.bump
    let (operand, c) := c.operand inner.negated
    (.node .unaryExpression (operator ++ operand), c)
  else comparison inner c

def conjunction (inner : Level) : Parser :=
  joined .binaryExpression (fun k => k = .andKw) (negated inner)

def disjunction (inner : Level) : Parser :=
  joined .binaryExpression (fun k => k = .orKw) (conjunction inner)

def conditional (inner : Level) : Parser := fun c =>
  let (body, c) := disjunction inner c
  if c.kind = .ifKw then
    let (ifWord, c) := c.bump
    let (condition, c) := c.operand (disjunction inner)
    if c.kind = .elseKw then
      let (elseWord, c) := c.bump
      let (alternative, c) := c.operand (disjunction inner)
      (.node .conditionalExpression (body :: ifWord ++ condition ++ elseWord ++ alternative), c)
    else (.node .conditionalExpression (body :: ifWord ++ condition ++ [.missing]), c)
  else (body, c)

def level : Nat → Level
  | 0 => ⟨tooDeep, tooDeep, tooDeep⟩
  | n + 1 =>
    let inner := level n
    ⟨conditional inner, negated inner, signed inner⟩

/-- How many levels of brackets, `not`, signs and exponents are parsed as structure. -/
def maxNesting : Nat := 256

def parse : Parser := (level maxNesting).whole

end Expression

end ScriptTree
