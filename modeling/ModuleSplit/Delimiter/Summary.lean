import ModuleSplit.Text.Class

-- What one source line contributes to the search for declaration boundaries: its delimiters, and
-- the line with literals and comments blanked out.

namespace ModuleSplit

-- How delimiters inside literals and comments are treated.
inductive DelimiterMode where
  | raw
  | literalAware
  deriving DecidableEq, Repr

def DelimiterMode.name : DelimiterMode → String
  | .raw => "raw"
  | .literalAware => "literal_aware"

def DelimiterMode.all : List DelimiterMode := [.raw, .literalAware]

-- Running count over the delimiters met so far.
structure Tally where
  braces : Int := 0
  brackets : Int := 0
  low : Int := 0
  opened : Bool := false
  terminated : Bool := false
  deriving DecidableEq, Repr

namespace Tally

def depth (t : Tally) : Int := t.braces + t.brackets

def lowered (t : Tally) : Tally := {t with low := min t.low t.depth}

def count (t : Tally) (c : Char) : Tally :=
  if c = '{' then lowered {t with braces := t.braces + 1, opened := true}
  else if c = '}' then lowered {t with braces := t.braces - 1}
  else if c = '(' ∨ c = '[' then lowered {t with brackets := t.brackets + 1}
  else if c = ')' ∨ c = ']' then lowered {t with brackets := t.brackets - 1}
  else if c = ';' then {t with terminated := true}
  else t

def ofText (t : Text) : Tally := t.foldl count {}

end Tally

-- Summary of one line. `code` is the line with literal contents and comments blanked;
-- `minDepth` is the lowest combined depth reached within the line, zero at its start.
structure LineSummary where
  text : Text
  code : Text
  braceDelta : Int
  bracketDelta : Int
  openedBrace : Bool
  hasTerminator : Bool
  startsInCode : Bool
  minDepth : Int
  endsInLiteral : Bool := false
  deriving DecidableEq, Repr

namespace LineSummary

def depthDelta (s : LineSummary) : Int := s.braceDelta + s.bracketDelta

def isBlankCode (s : LineSummary) : Bool := Text.isBlankText s.code

def ofTally (text code : Text) (t : Tally) (startsInCode endsInLiteral : Bool) : LineSummary where
  text := text
  code := code
  braceDelta := t.braces
  bracketDelta := t.brackets
  openedBrace := t.opened
  hasTerminator := t.terminated
  startsInCode := startsInCode
  minDepth := t.low
  endsInLiteral := endsInLiteral

end LineSummary

end ModuleSplit
