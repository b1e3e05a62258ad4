namespace ScriptTree

/-- Tokens, tree nodes, and two kinds that only highlighting gives to plain identifiers. Their order
is part of the format. -/
inductive Kind
  -- Trivia.
  | whitespace | newline | comment
  -- Literals and identifiers.
  | identifier | number | timeframe | string | boolean | none
  -- Keywords.
  | ifKw | elseKw | andKw | orKw | notKw
  -- Operators.
  | plus | minus | star | starStar | slash | percent | pipe | shiftRight | shiftLeft | lt | gt
  | ltEq | gtEq | eqEq | notEq | eq
  -- Punctuation.
  | dot | comma | colon | semicolon | lParen | rParen | lBracket | rBracket | lBrace | rBrace
  -- Errors, and the end of the input.
  | error | eof
  -- Program and statements.
  | program | assignment | assignmentTargets | expressionStatement
  -- Expressions.
  | conditionalExpression | binaryExpression | unaryExpression | comparisonExpression
  | comparisonOp | pipelineExpression | callExpression | argumentList | keywordArgument
  | attributeExpression | parenthesizedExpression
  -- Containers.
  | tupleLiteral | listLiteral | dictLiteral | dictPair
  -- Given to identifiers by highlighting alone.
  | builtinType | builtinFunction
  deriving DecidableEq, Repr, Inhabited

namespace Kind

def all : List Kind :=
  [.whitespace, .newline, .comment, .identifier, .number, .timeframe, .string, .boolean, .none,
   .ifKw, .elseKw, .andKw, .orKw, .notKw, .plus, .minus, .star, .starStar, .slash, .percent,
   .pipe, .shiftRight, .shiftLeft, .lt, .gt, .ltEq, .gtEq, .eqEq, .notEq, .eq, .dot, .comma,
   .colon, .semicolon, .lParen, .rParen, .lBracket, .rBracket, .lBrace, .rBrace, .error, .eof,
   .program, .assignment, .assignmentTargets, .expressionStatement, .conditionalExpression,
   .binaryExpression, .unaryExpression, .comparisonExpression, .comparisonOp,
   .pipelineExpression, .callExpression, .argumentList, .keywordArgument, .attributeExpression,
   .parenthesizedExpression, .tupleLiteral, .listLiteral, .dictLiteral, .dictPair,
   .builtinType, .builtinFunction]

def code (k : Kind) : Nat := k.ctorIdx

def ofCode? (n : Nat) : Option Kind := all[n]?

/-- The kind stored under a number; a number without a kind stands for an error. -/
def ofCode (n : Nat) : Kind := (ofCode? n).getD .error

def name : Kind → String
  | .whitespace => "Whitespace"
  | .newline => "Newline"
  | .comment => "Comment"
  | .identifier => "Identifier"
  | .number => "Number"
  | .timeframe => "Timeframe"
  | .string => "String"
  | .boolean => "Boolean"
  | .none => "None"
  | .ifKw => "IfKw"
  | .elseKw => "ElseKw"
  | .andKw => "AndKw"
  | .orKw => "OrKw"
  | .notKw => "NotKw"
  | .plus => "Plus"
  | .minus => "Minus"
  | .star => "Star"
  | .starStar => "StarStar"
  | .slash => "Slash"
  | .percent => "Percent"
  | .pipe => "Pipe"
  | .shiftRight => "ShiftRight"
  | .shiftLeft => "ShiftLeft"
  | .lt => "Lt"
  | .gt => "Gt"
  | .ltEq => "LtEq"
  | .gtEq => "GtEq"
  | .eqEq => "EqEq"
  | .notEq => "NotEq"
  | .eq => "Eq"
  | .dot => "Dot"
  | .comma => "Comma"
  | .colon => "Colon"
  | .semicolon => "Semicolon"
  | .lParen => "LParen"
  | .rParen => "RParen"
  | .lBracket => "LBracket"
  | .rBracket => "RBracket"
  | .lBrace => "LBrace"
  | .rBrace => "RBrace"
  | .error => "Error"
  | .eof => "Eof"
  | .program => "Program"
  | .assignment => "Assignment"
  | .assignmentTargets => "AssignmentTargets"
  | .expressionStatement => "ExpressionStatement"
  | .conditionalExpression => "ConditionalExpression"
  | .binaryExpression => "BinaryExpression"
  | .unaryExpression => "UnaryExpression"
  | .comparisonExpression => "ComparisonExpression"
  | .comparisonOp => "ComparisonOp"
  | .pipelineExpression => "PipelineExpression"
  | .callExpression => "CallExpression"
  | .argumentList => "ArgumentList"
  | .keywordArgument => "KeywordArgument"
  | .attributeExpression => "AttributeExpression"
  | .parenthesizedExpression => "ParenthesizedExpression"
  | .tupleLiteral => "TupleLiteral"
  | .listLiteral => "ListLiteral"
  | .dictLiteral => "DictLiteral"
  | .dictPair => "DictPair"
  | .builtinType => "BuiltinType"
  | .builtinFunction => "BuiltinFunction"

def ofName? (s : String) : Option Kind := all.find? (·.name == s)

def isTrivia : Kind → Bool
  | .whitespace | .newline | .comment => true
  | _ => false

def isKeyword : Kind → Bool
  | .ifKw | .elseKw | .andKw | .orKw | .notKw => true
  | _ => false

def isLiteral : Kind → Bool
  | .identifier | .number | .timeframe | .string | .boolean | .none => true
  | _ => false

def isComparison : Kind → Bool
  | .lt | .gt | .ltEq | .gtEq | .eqEq | .notEq => true
  | _ => false

def isOperator (k : Kind) : Bool := Kind.plus.code ≤ k.code && k.code ≤ Kind.eq.code

def isPunctuation (k : Kind) : Bool := Kind.dot.code ≤ k.code && k.code ≤ Kind.rBrace.code

def isToken (k : Kind) : Bool := k.code ≤ Kind.error.code

/-- Kinds that the parser gives to nodes; `error` is both a token's and a node's. -/
def isNode (k : Kind) : Bool :=
  (Kind.program.code ≤ k.code && k.code ≤ Kind.dictPair.code) || k == .error

def isOpening : Kind → Bool
  | .lParen | .lBracket | .lBrace => true
  | _ => false

def isClosing : Kind → Bool
  | .rParen | .rBracket | .rBrace => true
  | _ => false

theorem all_getElem?_code (k : Kind) : all[k.code]? = some k := by cases k <;> rfl

theorem ofCode?_code (k : Kind) : ofCode? k.code = some k := all_getElem?_code k

theorem mem_all (k : Kind) : k ∈ all := List.mem_of_getElem? (all_getElem?_code k)

end Kind

end ScriptTree
