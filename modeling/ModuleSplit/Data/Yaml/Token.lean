import ModuleSplit.Failure

namespace ModuleSplit.Yaml

inductive Token where
  | yamlDirective (major : Nat)
  | tagDirective (handle lead : Text)
  | otherDirective
  | documentStart
  | documentEnd
  | blockSequence
  | blockMapping
  | blockEnd
  | openSequence
  | closeSequence
  | openMapping
  | closeMapping
  | comma
  | entry
  | key
  | value
  | reference (name : Text)
  | anchor (name : Text)
  | tag (handle : Option Text) (suffix : Text)
  | scalar (text : Text) (plain : Bool)
  deriving DecidableEq, Repr

def isBreak (c : Char) : Bool := c == '\n' || c == '\x85' || c == '\u2028' || c == '\u2029'

def isGap : Option Char → Bool
  | none => true
  | some c => c == ' ' || c == '\t' || isBreak c

def isLineEnd : Option Char → Bool
  | none => true
  | some c => isBreak c

def isSpaceOrLineEnd (c : Option Char) : Bool := c == some ' ' || isLineEnd c

def isNameChar (c : Char) : Bool :=
  Text.isAsciiLetter c || Text.isAsciiDigit c || c == '-' || c == '_'

structure Place where
  rest : Text
  index : Nat := 0
  line : Nat := 0
  column : Nat := 0
  deriving DecidableEq, Repr

namespace Place

def advance (p : Place) : Place :=
  match p.rest with
  | [] => p
  | c :: rest =>
    if isBreak c then ⟨rest, p.index + 1, p.line + 1, 0⟩
    else ⟨rest, p.index + 1, p.line, if c = '\ufeff' then p.column else p.column + 1⟩

def forward : Nat → Place → Place
  | 0, p => p
  | n + 1, p => forward n p.advance

end Place

-- A place where a mapping key may have started without a sign of it. `number` is that of the token
-- that would follow the sign.
structure PossibleKey where
  number : Nat
  required : Bool
  index : Nat
  line : Nat
  column : Nat
  deriving DecidableEq, Repr

structure Lexer where
  place : Place
  tokens : Array Token := #[]
  -- depth of brackets and braces
  flow : Nat := 0
  indent : Int := -1
  indents : List Int := []
  keyAllowed : Bool := true
  -- at most one for each depth
  keys : List (Nat × PossibleKey) := []

abbrev Lex := EStateM Failure Lexer

namespace Lex

def refuse {α : Type} : Lex α := throw .malformed

def peekAt (n : Nat) : Lex (Option Char) := do return (← get).place.rest[n]?

def peek : Lex (Option Char) := peekAt 0

def column : Lex Nat := do return (← get).place.column

def forward (n : Nat) : Lex PUnit := modify fun s => {s with place := s.place.forward n}

def takeRun (p : Char → Bool) : Lex Text := do
  let run := (← get).place.rest.takeWhile p
  forward run.length
  return run

def skipSpaces : Lex PUnit := do let _ ← takeRun (· == ' ')

def skipLine : Lex PUnit := do let _ ← takeRun (!isBreak ·)

def lineBreak : Lex Text := do
  match ← peek with
  | some c =>
    if c = '\n' ∨ c = '\x85' then forward 1; return ['\n']
    else if isBreak c then forward 1; return [c]
    else return []
  | none => return []

def atSeparator : Lex Bool := do
  let rest := (← get).place.rest
  return (Text.startsWith rest "---" || Text.startsWith rest "...") && isGap rest[3]?

def emit (t : Token) : Lex PUnit := modify fun s => {s with tokens := s.tokens.push t}

def allowKey (allowed : Bool) : Lex PUnit := modify fun s => {s with keyAllowed := allowed}

end Lex

end ModuleSplit.Yaml
