import ModuleSplit.Data.Yaml.Scalar
import ModuleSplit.Text.Codec

namespace ModuleSplit.Yaml.Lex

-- A key must be on one line and not too long.
def keyLimit : Nat := 1024

def isStale (p : Place) (k : PossibleKey) : Bool :=
  k.line != p.line || p.index - k.index > keyLimit

def dropStaleKeys : Lex PUnit := do
  let s ← get
  if s.keys.any fun (_, k) => isStale s.place k && k.required then refuse
  set {s with keys := s.keys.filter fun (_, k) => !isStale s.place k}

def dropKey : Lex PUnit := do
  let s ← get
  if (s.keys.lookup s.flow).any (·.required) then refuse
  set {s with keys := s.keys.filter (·.1 ≠ s.flow)}

def noteKey : Lex PUnit := do
  let s ← get
  if s.keyAllowed then
    dropKey
    let key : PossibleKey :=
      { number := s.tokens.size
        required := s.flow = 0 && s.indent = s.place.column
        index := s.place.index
        line := s.place.line
        column := s.place.column }
    modify fun s => {s with keys := (s.flow, key) :: s.keys}

def unwind (fuel : Nat) (column : Int) : Lex PUnit := do
  match fuel with
  | 0 => pure ⟨⟩
  | fuel + 1 =>
    let s ← get
    if s.flow = 0 ∧ s.indent > column then
      set {s with indent := s.indents.head?.getD (-1), indents := s.indents.tail}
      emit .blockEnd
      unwind fuel column

def unwindTo (column : Int) : Lex PUnit := do unwind ((← get).indents.length + 1) column

def deepen (column : Int) : Lex Bool := do
  let s ← get
  if s.indent < column then
    set {s with indent := column, indents := s.indent :: s.indents}
    return true
  return false

def openBlock (t : Token) : Lex PUnit := do if ← deepen (← column) then emit t

def nameRun : Lex Text := do
  let name ← takeRun isNameChar
  if name.isEmpty then refuse
  return name

def number : Lex Nat := do
  let digits ← takeRun Text.isAsciiDigit
  if digits.isEmpty then refuse
  if digits.length > Text.digitLimit then throw (.tooManyDigits digits.length)
  return Text.digitsValue digits

def require (ok : Option Char → Bool) : Lex PUnit := do if !ok (← peek) then refuse

def tagHandle : Lex Text := do
  require (· == some '!')
  forward 1
  if (← peek) = some ' ' then return ['!']
  let name ← takeRun isNameChar
  if (← peek) = some '!' then
    forward 1
    return '!' :: name ++ ['!']
  refuse

def isUriChar (c : Char) : Bool :=
  isNameChar c || ";/?:@&=+$,.!~*'()[]".toList.contains c

def uriBytes (fuel : Nat) (read : Bytes) : Lex Bytes := do
  match fuel with
  | 0 => refuse
  | fuel + 1 =>
    if (← peek) ≠ some '%' then return read
    forward 1
    let digits := (← get).place.rest.take 2
    match hexNumber? digits with
    | some n =>
      if digits.length < 2 then refuse
      forward 2
      uriBytes fuel (read ++ [n.toUInt8])
    | none => refuse

def uri (fuel : Nat) (read : Text) : Lex Text := do
  match fuel with
  | 0 => refuse
  | fuel + 1 =>
    let read := read ++ (← takeRun isUriChar)
    if (← peek) = some '%' then
      match Encoding.utf8.decode (← uriBytes fuel []) with
      | .ok t => uri fuel (read ++ t)
      | .error _ => refuse
    else if read.isEmpty then refuse
    else return read

def directive (fuel : Nat) : Lex Token := do
  forward 1
  let name ← nameRun
  require isSpaceOrLineEnd
  let token ←
    if name = "YAML".toList then do
      skipSpaces
      let major ← number
      require (· == some '.')
      forward 1
      let _ ← number
      require isSpaceOrLineEnd
      pure (Token.yamlDirective major)
    else if name = "TAG".toList then do
      skipSpaces
      let handle ← tagHandle
      require (· == some ' ')
      skipSpaces
      let lead ← uri fuel []
      require isSpaceOrLineEnd
      pure (Token.tagDirective handle lead)
    else do
      skipLine
      pure Token.otherDirective
  ignoredLine
  return token

def endsName (c : Option Char) : Bool := isGap c || c.any "?:,]\x7d%@`".toList.contains

def anchorName : Lex Text := do
  forward 1
  let name ← nameRun
  require endsName
  return name

def hasSecondMark (t : Text) : Bool :=
  (t.takeWhile fun c => c != ' ' && !isBreak c).contains '!'

def tag (fuel : Nat) : Lex Token := do
  let token ← match ← peekAt 1 with
    | some '<' => do
      forward 2
      let suffix ← uri fuel []
      require (· == some '>')
      forward 1
      pure (Token.tag none suffix)
    | next => do
      if isGap next then
        forward 1
        pure (Token.tag none ['!'])
      else if hasSecondMark ((← get).place.rest.drop 1) then do
        let handle ← tagHandle
        pure (Token.tag (some handle) (← uri fuel []))
      else do
        forward 1
        pure (Token.tag (some ['!']) (← uri fuel []))
  require isSpaceOrLineEnd
  return token

def toNextToken (fuel : Nat) : Lex PUnit := do
  match fuel with
  | 0 => refuse
  | fuel + 1 =>
    skipSpaces
    if (← peek) = some '#' then skipLine
    if (← lineBreak).isEmpty then return
    if (← get).flow = 0 then allowKey true
    toNextToken fuel

def skipMark : Lex PUnit := do
  let s ← get
  if s.place.index = 0 ∧ s.place.rest.head? = some '\ufeff' then forward 1

def closeBlocks : Lex PUnit := do
  unwindTo (-1)
  dropKey
  allowKey false

def openFlow (t : Token) : Lex PUnit := do
  noteKey
  modify fun s => {s with flow := s.flow + 1}
  allowKey true
  forward 1
  emit t

def closeFlow (t : Token) : Lex PUnit := do
  dropKey
  if (← get).flow = 0 then refuse
  modify fun s => {s with flow := s.flow - 1}
  allowKey false
  forward 1
  emit t

def blockSign (t opening : Token) : Lex PUnit := do
  let s ← get
  if s.flow = 0 then
    if !s.keyAllowed then refuse
    openBlock opening
  allowKey (t = .entry || s.flow = 0)
  dropKey
  forward 1
  emit t

def valueSign : Lex PUnit := do
  let s ← get
  match s.keys.lookup s.flow with
  | some key =>
    set {s with keys := s.keys.filter (·.1 ≠ s.flow)}
    let starts ← if s.flow = 0 then deepen key.column else pure false
    modify fun s => {s with
      tokens := s.tokens.extract 0 key.number ++
        (if starts then #[.blockMapping, .key] else #[.key]) ++
        s.tokens.extract key.number s.tokens.size}
    allowKey false
    forward 1
    emit .value
  | none => blockSign .value .blockMapping

def withKey (read : Lex Token) : Lex PUnit := do
  noteKey
  allowKey false
  emit (← read)

def startsPlain (inFlow : Bool) (c : Char) (next : Option Char) : Bool :=
  !(isGap (some c) || "-?:,[]\x7b\x7d#&*!|>'\"%@`".toList.contains c) ||
    (!isGap next && (c == '-' || (!inFlow && (c == '?' || c == ':'))))

def separator (t : Token) : Lex PUnit := do
  closeBlocks
  forward 3
  emit t

def blockScalar (fuel : Nat) (fold : Bool) : Lex PUnit := do
  allowKey true
  dropKey
  emit (.scalar (← block fuel fold) false)

def token (fuel : Nat) (c : Char) : Lex PUnit := do
  let s ← get
  let next := s.place.rest[1]?
  let inFlow := s.flow > 0
  let atStart := s.place.column = 0
  if atStart ∧ c = '%' then
    closeBlocks
    emit (← directive fuel)
  else if atStart ∧ c = '-' ∧ (← atSeparator) then separator .documentStart
  else if atStart ∧ c = '.' ∧ (← atSeparator) then separator .documentEnd
  else if c = '[' then openFlow .openSequence
  else if c = '{' then openFlow .openMapping
  else if c = ']' then closeFlow .closeSequence
  else if c = '}' then closeFlow .closeMapping
  else if c = ',' then
    allowKey true
    dropKey
    forward 1
    emit .comma
  else if c = '-' ∧ isGap next then blockSign .entry .blockSequence
  else if c = '?' ∧ (inFlow ∨ isGap next) then blockSign .key .blockMapping
  else if c = ':' ∧ (inFlow ∨ isGap next) then valueSign
  else if c = '*' then withKey do return .reference (← anchorName)
  else if c = '&' then withKey do return .anchor (← anchorName)
  else if c = '!' then withKey (tag fuel)
  else if c = '|' ∧ !inFlow then blockScalar fuel false
  else if c = '>' ∧ !inFlow then blockScalar fuel true
  else if c = '\'' ∨ c = '"' then withKey do return .scalar (← quoted fuel c) false
  else if startsPlain inFlow c next then withKey do return .scalar (← plain fuel) true
  else refuse

def round (fuel : Nat) : Lex Bool := do
  skipMark
  toNextToken fuel
  dropStaleKeys
  unwindTo (← column)
  match ← peek with
  | none =>
    closeBlocks
    return false
  | some c =>
    token fuel c
    return true

end Lex

def Lexer.settled (s : Lexer) : List Token :=
  let waiting := s.keys.filter fun (_, k) => !Lex.isStale s.place k
  (s.tokens.extract 0 (waiting.foldl (fun n (_, k) => min n k.number) s.tokens.size)).toList

-- `ending` tells why the text breaks off, and nobody gets beyond that place.
def tokensFrom (rounds fuel : Nat) (ending : Option Failure) (s : Lexer) :
    List Token × Option Failure :=
  match rounds with
  | 0 => (s.settled, some .malformed)
  | rounds + 1 =>
    let stopped (found : Option Failure) (next : Lexer) : Option Failure :=
      if next.place.rest.isEmpty then ending.or found else found
    match (Lex.round fuel).run s with
    | .error f next => (s.settled, stopped (some f) next)
    | .ok more next =>
      match stopped none next with
      | some f => (s.settled, some f)
      | none => if more then tokensFrom rounds fuel ending next else (next.tokens.toList, none)

def isAllowed (c : Char) : Bool :=
  let n := c.toNat
  n == 9 || n == 10 || n == 13 || (0x20 ≤ n && n ≤ 0x7e) || n == 0x85 ||
    (0xa0 ≤ n && n ≤ 0xfffd) || 0x10000 ≤ n

def readable (t : Text) (ending : Option Failure) : Text × Option Failure :=
  let first := 2 * Utf8.readingSize
  if ending.isSome ∧ t.length < first then ([], ending)
  else match t.findIdx? (!isAllowed ·) with
    | none => (t, ending)
    | some i =>
      (if i < first then [] else t.take (i / Utf8.readingSize * Utf8.readingSize), some .malformed)

-- The tokens of a text. If it cannot be read to its end, they are followed by the reason.
def tokensOf (t : Text) (ending : Option Failure) : List Token × Option Failure :=
  let (t, ending) := readable t ending
  tokensFrom (t.length + 2) (t.length + 2) ending {place := {rest := t}}

end ModuleSplit.Yaml
