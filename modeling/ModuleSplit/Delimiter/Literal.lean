import ModuleSplit.Delimiter.Summary

-- A lexer that knows strings, template literals and comments. It reads one line at a time and
-- carries its cursor from line to line; only plain code outside template expressions is counted.
-- Regular expression literals are not known to it.

namespace ModuleSplit

inductive LexState where
  | code
  | singleQuote
  | doubleQuote
  | template
  | lineComment
  | blockComment
  deriving DecidableEq, Repr

def LexState.name : LexState → String
  | .code => "code"
  | .singleQuote => "single_quote"
  | .doubleQuote => "double_quote"
  | .template => "template"
  | .lineComment => "line_comment"
  | .blockComment => "block_comment"

-- `expressions` has one entry for each open template expression, innermost first: the number of
-- braces open inside it.
structure Cursor where
  state : LexState := .code
  expressions : List Int := []
  deriving DecidableEq, Repr

namespace Cursor

def inStructuralCode (s : Cursor) : Bool := s.state == .code && s.expressions.isEmpty

@[grind] def enter (s : Cursor) (state : LexState) : Cursor := {s with state := state}

-- A character that delimits a literal is shown only outside template expressions.
@[grind] def shown (s : Cursor) (c : Char) : Char := if s.expressions.isEmpty then c else ' '

end Cursor

-- What reading at one character does: take it alone, take it blanked together with the next one,
-- or blank the rest of the line. `counted` marks a character of structural code.
inductive Move where
  | one (shown : Char) (counted : Bool) (next : Cursor)
  | pair (next : Cursor)
  | restOfLine
  deriving DecidableEq, Repr

namespace Cursor

@[grind] def skip (s : Cursor) : Move := .one ' ' false s

def moveQuoted (s : Cursor) (quote c : Char) : Move :=
  if c = '\\' then .pair s
  else if c = quote then .one (s.shown c) false (s.enter .code)
  else s.skip

def moveTemplate (s : Cursor) (c : Char) (next : Option Char) : Move :=
  if c = '\\' then .pair s
  else if c = '`' then .one (s.shown c) false (s.enter .code)
  else if c = '$' ∧ next = some '{' then .pair {state := .code, expressions := 0 :: s.expressions}
  else s.skip

def moveBlockComment (s : Cursor) (c : Char) (next : Option Char) : Move :=
  if c = '*' ∧ next = some '/' then .pair (s.enter .code) else s.skip

-- Code inside the innermost template expression: only its own braces matter.
def moveExpression (s : Cursor) (depth : Int) (outer : List Int) (c : Char) : Move :=
  if c = '{' then .one ' ' false {s with expressions := (depth + 1) :: outer}
  else if c = '}' then
    if depth = 0 then .one ' ' false {state := .template, expressions := outer}
    else .one ' ' false {s with expressions := (depth - 1) :: outer}
  else s.skip

def moveCode (s : Cursor) (c : Char) (next : Option Char) : Move :=
  if c = '/' ∧ next = some '/' then .restOfLine
  else if c = '/' ∧ next = some '*' then .pair (s.enter .blockComment)
  else if c = '\'' then .one (s.shown c) false (s.enter .singleQuote)
  else if c = '"' then .one (s.shown c) false (s.enter .doubleQuote)
  else if c = '`' then .one (s.shown c) false (s.enter .template)
  else match s.expressions with
    | depth :: outer => s.moveExpression depth outer c
    | [] => .one c true s

def move (s : Cursor) (c : Char) (next : Option Char) : Move :=
  match s.state with
  | .lineComment => .restOfLine
  | .blockComment => s.moveBlockComment c next
  | .singleQuote => s.moveQuoted '\'' c
  | .doubleQuote => s.moveQuoted '"' c
  | .template => s.moveTemplate c next
  | .code => s.moveCode c next

end Cursor

structure Rendering where
  code : Text
  cursor : Cursor
  tally : Tally
  deriving DecidableEq, Repr

namespace Rendering

def lead (c : Char) (r : Rendering) : Rendering := {r with code := c :: r.code}

end Rendering

namespace Cursor

def render (s : Cursor) (tally : Tally) : Text → Rendering
  | [] => ⟨[], s, tally⟩
  | [c] =>
    match s.move c none with
    | .one shown counted next => ⟨[shown], next, if counted then tally.count c else tally⟩
    | .pair next => ⟨[' '], next, tally⟩
    | .restOfLine => ⟨[' '], s.enter .lineComment, tally⟩
  | c :: d :: rest =>
    match s.move c (some d) with
    | .one shown counted next =>
      (next.render (if counted then tally.count c else tally) (d :: rest)).lead shown
    | .pair next => ((next.render tally rest).lead ' ').lead ' '
    | .restOfLine => ⟨List.replicate (rest.length + 2) ' ', s.enter .lineComment, tally⟩

-- Quoted strings and line comments never continue on the next line.
def atLineStart (s : Cursor) : Cursor :=
  match s.state with
  | .singleQuote | .doubleQuote | .lineComment => s.enter .code
  | _ => s

-- A line comment is over with its line; an open string is still reported as open.
def atLineEnd (s : Cursor) : Cursor :=
  match s.state with
  | .lineComment => s.enter .code
  | _ => s

def feed (s : Cursor) (line : Text) : LineSummary × Cursor :=
  let start := s.atLineStart
  let r := start.render {} line
  let last := r.cursor.atLineEnd
  (LineSummary.ofTally line r.code r.tally start.inStructuralCode
    (last.state == .template || !last.expressions.isEmpty), last)

end Cursor

end ModuleSplit
