import ScriptTree.Text.Blank
import ScriptTree.Text.Letter
import ScriptTree.Timeframe.Words
import ScriptTree.Token.Basic

namespace ScriptTree

/-- The first token of a text, before it is given a place. -/
structure Lexeme where
  kind : Kind
  text : Text
  rest : Text
  /-- How many bytes were looked at from the first one on; the end of the text counts as one. -/
  reach : Nat

def Lexeme.token (l : Lexeme) (start : Nat) : Token := ⟨l.kind, l.text, start, start + l.reach⟩

namespace Lexer

def isDigit (c : Char) : Bool := c.isDigit

def isBreak (c : Char) : Bool := c == '\n' || c == '\r'

def isWordStart (c : Char) : Bool := c == '_' || Text.isLetter c

def isWordPart (c : Char) : Bool := c == '_' || Text.isLetter c || Text.isNumber c

/-- The kind of a word: a keyword, a literal word or an identifier. -/
def keyword? (w : Text) : Option Kind :=
  if w = "if".toList then some .ifKw
  else if w = "else".toList then some .elseKw
  else if w = "and".toList then some .andKw
  else if w = "or".toList then some .orKw
  else if w = "not".toList then some .notKw
  else if w = "True".toList ∨ w = "False".toList then some .boolean
  else if w = "None".toList then some .none
  else none

/-- A character and all that follow it within a class; the character after them is looked at. -/
def run (kind : Kind) (c : Char) (s : Text) (p : Char → Bool) : Lexeme :=
  ⟨kind, c :: s.takeWhile p, s.dropWhile p, Text.bytes (c :: s.takeWhile p) + 1⟩

/-- A one-byte character that joins the next character to one token if the table has it. -/
def joined (c : Char) (s : Text) (table : List (Char × Kind)) (alone : Kind) : Lexeme :=
  match s with
  | [] => ⟨alone, [c], [], 2⟩
  | d :: r =>
    match table.lookup d with
    | some kind => ⟨kind, [c, d], r, 2⟩
    | none => ⟨alone, [c], d :: r, 2⟩

/-- A part of a text at its front, and the rest. -/
structure Cut where
  taken : Text
  rest : Text

/-- A string on one line after its opening quote: up to and including the closing one, or up to the
line break or end of text that leaves it open. An escape never covers a line break. -/
def lineString (quote : Char) : Text → Cut × Bool
  | [] => (⟨[], []⟩, false)
  | c :: s =>
    if isBreak c then (⟨[], c :: s⟩, false)
    else if c = '\\' then
      match s with
      | [] => (⟨[c], []⟩, false)
      | d :: r =>
        if isBreak d then (⟨[c], d :: r⟩, false)
        else
          let (cut, closed) := lineString quote r
          (⟨c :: d :: cut.taken, cut.rest⟩, closed)
    else if c = quote then (⟨[c], s⟩, true)
    else
      let (cut, closed) := lineString quote s
      (⟨c :: cut.taken, cut.rest⟩, closed)

def blockString : Text → Cut × Bool
  | '\x22' :: '\x22' :: '\x22' :: s => (⟨['\x22', '\x22', '\x22'], s⟩, true)
  | [] => (⟨[], []⟩, false)
  | c :: s =>
    let (cut, closed) := blockString s
    (⟨c :: cut.taken, cut.rest⟩, closed)

/-- The lexeme of a string from its opening and its body: a closed string looks no further than its
end, an open one sees what stopped it. -/
def string (opening : Text) (body : Cut × Bool) : Lexeme :=
  let text := opening ++ body.1.taken
  if body.2 then ⟨.string, text, body.1.rest, text.bytes⟩
  else ⟨.error, text, body.1.rest, text.bytes + 1⟩

/-- A string that starts with a double quote. Two quotes look for a third. -/
def doubleQuoted : Text → Lexeme
  | '\x22' :: '\x22' :: s => string ['\x22', '\x22', '\x22'] (blockString s)
  | '\x22' :: s => ⟨.string, ['\x22', '\x22'], s, 3⟩
  | s => string ['\x22'] (lineString '\x22' s)

/-- A piece of a number or timeframe: what was taken, the rest, and the bytes looked at. -/
structure Piece extends Cut where
  seen : Nat

def fraction : Text → Piece
  | '.' :: d :: s =>
    if isDigit d then
      ⟨⟨'.' :: d :: s.takeWhile isDigit, s.dropWhile isDigit⟩,
        Text.bytes ('.' :: d :: s.takeWhile isDigit) + 1⟩
    else ⟨⟨[], '.' :: d :: s⟩, 2⟩
  | '.' :: [] => ⟨⟨[], ['.']⟩, 2⟩
  | s => ⟨⟨[], s⟩, 1⟩

def exponentMark : Text → Text
  | e :: '+' :: _ => if e = 'e' ∨ e = 'E' then [e, '+'] else []
  | e :: '-' :: _ => if e = 'e' ∨ e = 'E' then [e, '-'] else []
  | e :: _ => if e = 'e' ∨ e = 'E' then [e] else []
  | [] => []

def exponent (s : Text) : Piece :=
  let mark := exponentMark s
  if mark = [] then ⟨⟨[], s⟩, 1⟩
  else
    match s.drop mark.length with
    | [] => ⟨⟨[], s⟩, mark.length + 1⟩
    | d :: r =>
      if isDigit d then
        ⟨⟨mark ++ d :: r.takeWhile isDigit, r.dropWhile isDigit⟩,
          Text.bytes (mark ++ d :: r.takeWhile isDigit) + 1⟩
      else ⟨⟨[], s⟩, mark.length + 1⟩

def dashWord (accept : Text → Bool) : Text → Piece
  | '-' :: c :: s =>
    if isWordStart c then
      let word := c :: s.takeWhile isWordPart
      if accept word then ⟨⟨'-' :: word, s.dropWhile isWordPart⟩, Text.bytes ('-' :: word) + 1⟩
      else ⟨⟨[], '-' :: c :: s⟩, Text.bytes ('-' :: word) + 1⟩
    else ⟨⟨[], '-' :: c :: s⟩, 2⟩
  | '-' :: [] => ⟨⟨[], ['-']⟩, 2⟩
  | s => ⟨⟨[], s⟩, 1⟩

/-- The piece after another one: what is taken follows it, and the further look counts. -/
def Piece.andThen (p : Piece) (next : Text → Piece) : Piece :=
  let q := next p.rest
  ⟨⟨p.taken ++ q.taken, q.rest⟩, max p.seen (p.taken.bytes + q.seen)⟩

/-- The anchor of a timeframe, and the last mark that only an anchor can have. -/
def anchor (s : Text) : Piece :=
  let p := dashWord (fun w => (Anchor.ofWord? w).isSome) s
  if p.taken = [] then p else p.andThen (dashWord (· == lastWord))

/-- A number, or a timeframe if the digits are directly followed by a unit. -/
def number (c : Char) (s : Text) : Lexeme :=
  let digits : Piece := ⟨⟨c :: s.takeWhile isDigit, s.dropWhile isDigit⟩,
    Text.bytes (c :: s.takeWhile isDigit) + 1⟩
  let decimal := (digits.andThen fraction).andThen exponent
  let plain : Lexeme := ⟨.number, decimal.taken, decimal.rest, decimal.seen⟩
  if decimal.taken ≠ digits.taken then plain
  else
    match decimal.rest with
    | [] => plain
    | d :: r =>
      if isWordStart d then
        let unit : Piece := ⟨⟨d :: r.takeWhile isWordPart, r.dropWhile isWordPart⟩,
          Text.bytes (d :: r.takeWhile isWordPart) + 1⟩
        let whole := decimal.andThen fun _ => unit
        if (TimeUnit.ofSuffix? unit.taken).isSome then
          let full := whole.andThen anchor
          ⟨.timeframe, full.taken, full.rest, full.seen⟩
        else { plain with reach := whole.seen }
      else plain

def mark? : Char → Option Kind
  | '+' => some .plus
  | '-' => some .minus
  | '/' => some .slash
  | '%' => some .percent
  | '|' => some .pipe
  | '.' => some .dot
  | ',' => some .comma
  | ':' => some .colon
  | ';' => some .semicolon
  | '(' => some .lParen
  | ')' => some .rParen
  | '[' => some .lBracket
  | ']' => some .rBracket
  | '\x7b' => some .lBrace
  | '\x7d' => some .rBrace
  | _ => none

/-- Operators that may join a second character. -/
def operator? : Char → Option (List (Char × Kind) × Kind)
  | '*' => some ([('*', .starStar)], .star)
  | '>' => some ([('>', .shiftRight), ('=', .gtEq)], .gt)
  | '<' => some ([('<', .shiftLeft), ('=', .ltEq)], .lt)
  | '=' => some ([('=', .eqEq)], .eq)
  | '!' => some ([('=', .notEq)], .error)
  | _ => none

def lexeme (c : Char) (s : Text) : Lexeme :=
  if c = '\n' then ⟨.newline, [c], s, 1⟩
  else if c = '\r' then joined c s [('\n', .newline)] .newline
  else if Text.isBlank c then run .whitespace c s fun d => Text.isBlank d && !isBreak d
  else if c = '#' then run .comment c s fun d => !isBreak d
  else if c = '\x22' then doubleQuoted s
  else if c = '\x27' then string [c] (lineString c s)
  else if isDigit c then number c s
  else if isWordStart c then
    let word := run .identifier c s isWordPart
    { word with kind := (keyword? word.text).getD .identifier }
  else
    match operator? c with
    | some (table, alone) => joined c s table alone
    | none => ⟨(mark? c).getD .error, [c], s, 1⟩

/-! ### A lexeme and what follows it are the text -/

theorem lineString_taken_append_rest (quote : Char) (s : Text) :
    (lineString quote s).1.taken ++ (lineString quote s).1.rest = s := by
  fun_induction lineString quote s <;> simp_all

theorem blockString_taken_append_rest (s : Text) :
    (blockString s).1.taken ++ (blockString s).1.rest = s := by
  fun_induction blockString s <;> simp_all

theorem string_text_append_rest (opening : Text) (body : Cut × Bool) :
    (string opening body).text ++ (string opening body).rest =
      opening ++ (body.1.taken ++ body.1.rest) := by
  simp only [string]
  split <;> simp

theorem doubleQuoted_text_append_rest (s : Text) :
    (doubleQuoted s).text ++ (doubleQuoted s).rest = '\x22' :: s := by
  unfold doubleQuoted
  split
  · simp [string_text_append_rest, blockString_taken_append_rest]
  · simp
  · simp [string_text_append_rest, lineString_taken_append_rest]

theorem joined_text_append_rest (c : Char) (s : Text) (table : List (Char × Kind)) (alone : Kind) :
    (joined c s table alone).text ++ (joined c s table alone).rest = c :: s := by
  unfold joined
  split
  · rfl
  · split <;> rfl

theorem run_text_append_rest (kind : Kind) (c : Char) (s : Text) (p : Char → Bool) :
    (run kind c s p).text ++ (run kind c s p).rest = c :: s := by
  simp [run]

theorem fraction_taken_append_rest (s : Text) :
    (fraction s).taken ++ (fraction s).rest = s := by
  unfold fraction
  split
  · split <;> simp
  · rfl
  · rfl

theorem exponentMark_append_drop (s : Text) :
    exponentMark s ++ s.drop (exponentMark s).length = s := by
  unfold exponentMark
  split <;> (try split) <;> simp

theorem exponent_taken_append_rest (s : Text) :
    (exponent s).taken ++ (exponent s).rest = s := by
  unfold exponent
  have h := exponentMark_append_drop s
  dsimp only
  split
  · rfl
  · split
    · rfl
    · rename_i d r hd
      split
      · rw [hd] at h
        simpa using h
      · rfl

theorem dashWord_taken_append_rest (accept : Text → Bool) (s : Text) :
    (dashWord accept s).taken ++ (dashWord accept s).rest = s := by
  unfold dashWord
  split
  · split
    · dsimp only
      split <;> simp
    · rfl
  · rfl
  · rfl

theorem andThen_taken_append_rest {p : Piece} {next : Text → Piece}
    (h : (next p.rest).taken ++ (next p.rest).rest = p.rest) :
    (p.andThen next).taken ++ (p.andThen next).rest = p.taken ++ p.rest := by
  simp [Piece.andThen, h]

theorem anchor_taken_append_rest (s : Text) : (anchor s).taken ++ (anchor s).rest = s := by
  unfold anchor
  dsimp only
  split
  · exact dashWord_taken_append_rest _ s
  · rw [andThen_taken_append_rest (dashWord_taken_append_rest _ _)]
    exact dashWord_taken_append_rest _ s

theorem number_text_append_rest (c : Char) (s : Text) :
    (number c s).text ++ (number c s).rest = c :: s := by
  unfold number
  extract_lets digits decimal plain
  have hd : decimal.taken ++ decimal.rest = c :: s := by
    simp only [decimal]
    rw [andThen_taken_append_rest (exponent_taken_append_rest _),
      andThen_taken_append_rest (fraction_taken_append_rest _)]
    simp [digits]
  split
  · exact hd
  · split
    · exact hd
    · rename_i d r hr
      split
      · extract_lets unit whole full
        have hw : whole.taken ++ whole.rest = c :: s := by
          simp only [whole]
          rw [andThen_taken_append_rest (by simp [unit, hr])]
          exact hd
        split
        · simp only [full]
          rw [andThen_taken_append_rest (anchor_taken_append_rest _)]
          exact hw
        · exact hd
      · exact hd

theorem lexeme_text_append_rest (c : Char) (s : Text) :
    (lexeme c s).text ++ (lexeme c s).rest = c :: s := by
  unfold lexeme
  split
  · rfl
  split
  · exact joined_text_append_rest ..
  split
  · exact run_text_append_rest ..
  split
  · exact run_text_append_rest ..
  split
  · rename_i h
    rw [h]
    exact doubleQuoted_text_append_rest s
  split
  · simp [string_text_append_rest, lineString_taken_append_rest]
  split
  · exact number_text_append_rest c s
  split
  · exact run_text_append_rest .identifier c s isWordPart
  split
  · exact joined_text_append_rest ..
  · rfl

theorem string_text_ne_nil (c : Char) (opening : Text) (body : Cut × Bool) :
    (string (c :: opening) body).text ≠ [] := by
  simp only [string]
  split <;> simp

theorem number_text_ne_nil (c : Char) (s : Text) : (number c s).text ≠ [] := by
  unfold number
  extract_lets digits decimal plain
  have hd : decimal.taken ≠ [] := by simp [decimal, digits, Piece.andThen]
  split
  · exact hd
  · split
    · exact hd
    · split
      · extract_lets unit whole full
        split
        · simp [full, whole, Piece.andThen, hd]
        · exact hd
      · exact hd

theorem lexeme_text_ne_nil (c : Char) (s : Text) : (lexeme c s).text ≠ [] := by
  unfold lexeme
  split
  · simp
  split
  · unfold joined
    split
    · simp
    · split <;> simp
  split
  · simp [run]
  split
  · simp [run]
  split
  · unfold doubleQuoted
    split
    · exact string_text_ne_nil _ _ _
    · simp
    · exact string_text_ne_nil _ _ _
  split
  · exact string_text_ne_nil _ _ _
  split
  · exact number_text_ne_nil c s
  split
  · simp [run]
  split
  · unfold joined
    split
    · simp
    · split <;> simp
  · simp

theorem lexeme_rest_length_lt (c : Char) (s : Text) :
    (lexeme c s).rest.length < (c :: s).length := by
  have h := congrArg List.length (lexeme_text_append_rest c s)
  have hne := List.length_pos_iff.2 (lexeme_text_ne_nil c s)
  simp only [List.length_append] at h
  omega

/-- The tokens of a text whose first byte has the offset `start`. -/
def scan (s : Text) (start : Nat) : List Token :=
  match s with
  | [] => []
  | c :: r =>
    let l := lexeme c r
    l.token start :: scan l.rest (start + l.text.bytes)
termination_by s.length
decreasing_by exact lexeme_rest_length_lt c r

/-- The tokens of a text: every character is in one of them. -/
def tokens (s : Text) : List Token := scan s 0

/-- The token that the text has at an offset, if the text goes on there. Inside a character there is
only an empty token, the end of what can be read. -/
def tokenAt? (s : Text) (offset : Nat) : Option Token :=
  if s.bytes ≤ offset then none
  else
    match s.dropBytes? offset with
    | some (c :: r) => some ((lexeme c r).token offset)
    | _ => some ⟨.eof, [], offset, offset + 1⟩

end Lexer

end ScriptTree
