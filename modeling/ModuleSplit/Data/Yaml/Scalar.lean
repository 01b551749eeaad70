import ModuleSplit.Data.Yaml.Token
import ModuleSplit.Text.Integer

namespace ModuleSplit.Yaml.Lex

def folded (break_ : Text) (breaks : Text) : Text :=
  (if break_ ≠ ['\n'] then break_ else if breaks.isEmpty then [' '] else []) ++ breaks

def endsPlain (inFlow : Bool) (c : Char) (next : Option Char) : Bool :=
  isGap (some c) ||
    (c == ':' && (isGap next || (inFlow && next.any ",[]\x7b\x7d".toList.contains))) ||
    (inFlow && ",?[]\x7b\x7d".toList.contains c)

def plainLength (inFlow : Bool) : Text → Nat
  | [] => 0
  | c :: rest => if endsPlain inFlow c rest.head? then 0 else plainLength inFlow rest + 1

def plainBreaks (fuel : Nat) (breaks : Text) : Lex (Option Text) := do
  match fuel with
  | 0 => refuse
  | fuel + 1 =>
    match ← peek with
    | some ' ' =>
      forward 1
      plainBreaks fuel breaks
    | c =>
      if c.any isBreak then
        let breaks := breaks ++ (← lineBreak)
        if ← atSeparator then return none
        plainBreaks fuel breaks
      else return some breaks

def plainSpaces (fuel : Nat) : Lex (Option Text) := do
  let blanks ← takeRun (· == ' ')
  if (← peek).any isBreak then
    let first ← lineBreak
    allowKey true
    if ← atSeparator then return none
    match ← plainBreaks fuel [] with
    | some breaks => return some (folded first breaks)
    | none => return none
  else return if blanks.isEmpty then none else some blanks

def plainRest (fuel : Nat) (indent : Int) (read spaces : Text) : Lex Text := do
  match fuel with
  | 0 => refuse
  | fuel + 1 =>
    let s ← get
    let length := if s.place.rest.head? = some '#' then 0 else plainLength (s.flow > 0) s.place.rest
    if length = 0 then return read
    allowKey false
    let read := read ++ spaces ++ s.place.rest.take length
    forward length
    match ← plainSpaces fuel with
    | none => return read
    | some spaces =>
      let s ← get
      if (← peek) = some '#' ∨ (s.flow = 0 ∧ s.place.column < indent) then return read
      plainRest fuel indent read spaces

def plain (fuel : Nat) : Lex Text := do plainRest fuel ((← get).indent + 1) [] []

def namedEscapes : List (Char × Char) :=
  [('0', '\x00'), ('a', '\x07'), ('b', '\x08'), ('t', '\t'), ('\t', '\t'), ('n', '\n'), ('v', '\x0b'),
    ('f', '\x0c'), ('r', '\r'), ('e', '\x1b'), (' ', ' '), ('"', '"'), ('\\', '\\'), ('/', '/'),
    ('N', '\x85'), ('_', '\xa0'), ('L', '\u2028'), ('P', '\u2029')]

def escapeWidth? : Char → Option Nat
  | 'x' => some 2
  | 'u' => some 4
  | 'U' => some 8
  | _ => none

def hexNumber? (t : Text) : Option Nat :=
  t.foldlM (fun n c => (Text.hexValue? c).map (n * 16 + ·)) 0

def quotedBreaks (fuel : Nat) (breaks : Text) : Lex Text := do
  match fuel with
  | 0 => refuse
  | fuel + 1 =>
    if ← atSeparator then refuse
    let _ ← takeRun fun c => c == ' ' || c == '\t'
    if (← peek).any isBreak then quotedBreaks fuel (breaks ++ (← lineBreak))
    else return breaks

def escape (fuel : Nat) : Lex Text := do
  match ← peek with
  | none => refuse
  | some c =>
    match namedEscapes.lookup c, escapeWidth? c with
    | some meant, _ =>
      forward 1
      return [meant]
    | none, some width =>
      forward 1
      let digits := (← get).place.rest.take width
      match hexNumber? digits with
      | some n =>
        if digits.length < width then refuse
        if n > 0x7fffffff then throw .numberTooLarge
        if n > 0x10ffff then throw .noSuchCharacter
        forward width
        return [Char.ofNat n]
      | none => refuse
    | none, none =>
      if isBreak c then
        let _ ← lineBreak
        quotedBreaks fuel []
      else refuse

def isQuotedPlain (c : Char) : Bool :=
  !(c == '\'' || c == '"' || c == '\\' || isGap (some c))

def quotedWords (fuel : Nat) (double : Bool) (read : Text) : Lex Text := do
  match fuel with
  | 0 => refuse
  | fuel + 1 =>
    let read := read ++ (← takeRun isQuotedPlain)
    match ← peek, ← peekAt 1 with
    | some '\'', next =>
      if double then
        forward 1
        quotedWords fuel double (read ++ ['\''])
      else if next = some '\'' then
        forward 2
        quotedWords fuel double (read ++ ['\''])
      else return read
    | some c, _ =>
      if !double ∧ (c = '"' ∨ c = '\\') then
        forward 1
        quotedWords fuel double (read ++ [c])
      else if double ∧ c = '\\' then
        forward 1
        let meant ← escape fuel
        quotedWords fuel double (read ++ meant)
      else return read
    | none, _ => return read

def quotedSpaces (fuel : Nat) : Lex Text := do
  let blanks ← takeRun fun c => c == ' ' || c == '\t'
  match ← peek with
  | none => refuse
  | some c =>
    if isBreak c then
      let first ← lineBreak
      return folded first (← quotedBreaks fuel [])
    else return blanks

def quotedRest (fuel : Nat) (quote : Char) (read : Text) : Lex Text := do
  match fuel with
  | 0 => refuse
  | fuel + 1 =>
    let read ← quotedWords fuel (quote == '"') read
    if (← peek) = some quote then
      forward 1
      return read
    let spaces ← quotedSpaces fuel
    quotedRest fuel quote (read ++ spaces)

def quoted (fuel : Nat) (quote : Char) : Lex Text := do
  forward 1
  quotedRest fuel quote []

inductive Chomping where
  | strip
  | clip
  | keep
  deriving DecidableEq, Repr

def chomping : Lex (Option Chomping) := do
  match ← peek with
  | some '+' =>
    forward 1
    return some .keep
  | some '-' =>
    forward 1
    return some .strip
  | _ => return none

def increment : Lex (Option Nat) := do
  match ← peek with
  | some c =>
    if !Text.isAsciiDigit c then return none
    if c = '0' then refuse
    forward 1
    return some (c.toNat - '0'.toNat)
  | none => return none

def blockIndicators : Lex (Chomping × Option Nat) := do
  let first ← chomping
  let inc ← increment
  let chomp ← match first, inc with
    | none, some _ => chomping
    | _, _ => pure first
  if !isSpaceOrLineEnd (← peek) then refuse
  return (chomp.getD .clip, inc)

def ignoredLine : Lex PUnit := do
  skipSpaces
  if (← peek) = some '#' then skipLine
  if !isLineEnd (← peek) then refuse
  let _ ← lineBreak

def spacesUpTo (indent : Int) : Lex PUnit := do
  let s ← get
  let room := (indent - s.place.column).toNat
  forward (min room (s.place.rest.takeWhile (· == ' ')).length)

def blockBreaks (fuel : Nat) (indent : Int) (breaks : Text) : Lex Text := do
  match fuel with
  | 0 => refuse
  | fuel + 1 =>
    spacesUpTo indent
    if (← peek).any isBreak then blockBreaks fuel indent (breaks ++ (← lineBreak))
    else return breaks

def detectIndent (fuel : Nat) (breaks : Text) (widest : Nat) : Lex (Text × Nat) := do
  match fuel with
  | 0 => refuse
  | fuel + 1 =>
    match ← peek with
    | some ' ' =>
      forward 1
      detectIndent fuel breaks (max widest (← column))
    | c =>
      if c.any isBreak then
        let b ← lineBreak
        detectIndent fuel (breaks ++ b) widest
      else return (breaks, widest)

def isInset (c : Option Char) : Bool := c == some ' ' || c == some '\t'

def blockLines (fuel : Nat) (fold : Bool) (indent : Int) (read breaks : Text) :
    Lex (Text × Text × Text) := do
  match fuel with
  | 0 => refuse
  | fuel + 1 =>
    let inset := isInset (← peek)
    let line ← takeRun (!isBreak ·)
    let read := read ++ breaks ++ line
    let last ← lineBreak
    let breaks ← blockBreaks fuel indent []
    if (← column) = indent ∧ (← peek).isSome then
      let joined :=
        if fold ∧ last = ['\n'] ∧ !inset ∧ !isInset (← peek) then
          (if breaks.isEmpty then [' '] else [])
        else last
      blockLines fuel fold indent (read ++ joined) breaks
    else return (read, last, breaks)

def block (fuel : Nat) (fold : Bool) : Lex Text := do
  forward 1
  let (chomp, inc) ← blockIndicators
  ignoredLine
  let least := max ((← get).indent + 1) 1
  let (indent, breaks) ← match inc with
    | none => do
      let (breaks, widest) ← detectIndent fuel [] 0
      pure (max least widest, breaks)
    | some n => do
      let indent := least + n - 1
      pure (indent, ← blockBreaks fuel indent [])
  let (read, last, breaks) ←
    if (← column) = indent ∧ (← peek).isSome then blockLines fuel fold indent [] breaks
    else pure ([], [], breaks)
  return read ++ (if chomp = .strip then [] else last) ++ if chomp = .keep then breaks else []

end ModuleSplit.Yaml.Lex
