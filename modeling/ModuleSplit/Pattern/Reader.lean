import ModuleSplit.Failure
import ModuleSplit.Pattern.Syntax
import ModuleSplit.Text.CharName
import ModuleSplit.Text.Class
import ModuleSplit.Text.Integer

namespace ModuleSplit.Pattern

inductive Token where
  | plain (c : Char)
  | escaped (c : Char)
  deriving DecidableEq, Repr

def Token.text : Token → Text
  | .plain c => [c]
  | .escaped c => ['\\', c]

structure Flags where
  foldCase : Bool := false
  multiLine : Bool := false
  dotAll : Bool := false
  verbose : Bool := false
  ascii : Bool := false
  -- the classes of every script have been asked for
  everyScript : Bool := false
  -- repetitions are not allowed
  plainOnly : Bool := false
  deriving DecidableEq, Repr

def Flags.charset (f : Flags) : Charset := if f.ascii then .ascii else .unicode

structure Width where
  least : Nat
  most : Option Nat
  deriving DecidableEq, Repr

namespace Width

def zero : Width := ⟨0, some 0⟩

def one : Width := ⟨1, some 1⟩

def add (a b : Width) : Width :=
  ⟨a.least + b.least, match a.most, b.most with
    | some x, some y => some (x + y)
    | _, _ => none⟩

def either (a b : Width) : Width :=
  ⟨min a.least b.least, match a.most, b.most with
    | some x, some y => some (max x y)
    | _, _ => none⟩

def times (a : Width) (least : Nat) (most : Option Nat) : Width :=
  ⟨a.least * least, match a.most, most with
    | some 0, _ => some 0
    | some x, some m => some (x * m)
    | none, some 0 => some 0
    | _, _ => none⟩

def limit : Nat := 0xffffffff

def isFixed (w : Width) : Bool := w.most == some w.least && w.least ≤ limit

end Width

inductive ItemKind where
  | plain
  | anchor
  | repeated
  deriving DecidableEq, Repr

structure Item where
  parts : List Regex
  width : Width
  kind : ItemKind := .plain

def Item.single (r : Regex) (width : Width) (kind : ItemKind := .plain) : Item := ⟨[r], width, kind⟩

structure Phrase where
  parts : List Regex
  width : Width

namespace Phrase

def empty : Phrase := ⟨[], .zero⟩

def regex (p : Phrase) : Regex := .ofParts p.parts

def add (p : Phrase) (item : Item) : Phrase := ⟨p.parts ++ item.parts, p.width.add item.width⟩

def ofItems (items : List Item) : Phrase := items.foldl add empty

end Phrase

structure GroupInfo where
  name : Option Text
  width : Option Width
  deriving Repr

structure Reading where
  rest : Text
  flags : Flags
  groups : List GroupInfo := []
  -- the number of groups when the outermost look-behind began
  behindFrom : Option Nat := none
  conditions : List Nat := []
  -- something is wrong that shows only when everything has been read
  flawed : Bool := false

abbrev Read := StateT Reading (Except Refusal)

def refuse {α : Type} : Read α := throw .malformed

def tokenOf : Text → Option Token
  | '\\' :: c :: _ => some (.escaped c)
  | c :: _ => some (.plain c)
  | [] => none

def peek : Read (Option Token) := return tokenOf (← get).rest

def goOn (rest : Text) : Read Unit :=
  if rest = ['\\'] then refuse else modify fun s => {s with rest := rest}

def skipToken : Read Unit := do
  goOn (match (← get).rest with
    | '\\' :: _ :: rest => rest
    | _ :: rest => rest
    | [] => [])

def takeToken : Read (Option Token) := do
  let t ← peek
  skipToken
  return t

def accept (c : Char) : Read Bool := do
  if (← peek) == some (.plain c) then
    skipToken
    return true
  else return false

def expect (c : Char) : Read Unit := do
  if !(← accept c) then refuse

def takeSome (p : Char → Bool) : Nat → Read Text
  | 0 => return []
  | n + 1 => do
    match ← peek with
    | some (.plain c) =>
      if p c then
        skipToken
        return c :: (← takeSome p n)
      else return []
    | _ => return []

def takeUntil (close : Char) : Nat → Text → Read Text
  | 0, _ => refuse
  | fuel + 1, read => do
    match ← takeToken with
    | none => refuse
    | some t =>
      if t == .plain close then
        if read.isEmpty then refuse else return read
      else takeUntil close fuel (read ++ t.text)

def nameUntil (close : Char) : Read Text := do takeUntil close ((← get).rest.length + 1) []

def isHex (c : Char) : Bool := (Text.hexValue? c).isSome

def hexNumber (t : Text) : Nat := t.foldl (fun n c => n * 16 + (Text.hexValue? c).getD 0) 0

def isOctal (c : Char) : Bool := '0' ≤ c && c ≤ '7'

def octalNumber (t : Text) : Nat := t.foldl (fun n c => n * 8 + (c.toNat - '0'.toNat)) 0

def exactHex (count : Nat) : Read Nat := do
  let ds ← takeSome isHex count
  let n := hexNumber ds
  if ds.length = count && n < 0x110000 then return n else refuse

def controlEscape? : Char → Option Nat
  | 'a' => some 7
  | 'b' => some 8
  | 'f' => some 12
  | 'n' => some 10
  | 'r' => some 13
  | 't' => some 9
  | 'v' => some 11
  | '\\' => some 92
  | _ => none

def categoryEscape? : Char → Option SetItem
  | 'd' => some (.category .digit false)
  | 'D' => some (.category .digit true)
  | 's' => some (.category .space false)
  | 'S' => some (.category .space true)
  | 'w' => some (.category .word false)
  | 'W' => some (.category .word true)
  | _ => none

def hexEscape? (c : Char) : Option Nat :=
  match c with
  | 'x' => some 2
  | 'u' => some 4
  | 'U' => some 8
  | _ => none

def namedCode : Read Nat := do
  expect '{'
  match Text.CharName.lookup? (← nameUntil '}') with
  | some n => return n
  | none => refuse

def codeEscape? (c : Char) : Read (Option Nat) := do
  match hexEscape? c with
  | some count => return some (← exactHex count)
  | none => if c == 'N' then return some (← namedCode) else return none

def setEscape (c : Char) : Read SetItem := do
  match controlEscape? c, categoryEscape? c with
  | some n, _ => return .code n
  | _, some item => return item
  | none, none =>
    match ← codeEscape? c with
    | some n => return .code n
    | none =>
      if isOctal c then
        let n := octalNumber (c :: (← takeSome isOctal 2))
        if n > 0o377 then refuse else return .code n
      else if Text.isAsciiDigit c || Text.isAsciiLetter c then refuse
      else return .code c.toNat

def setOf (negated : Bool) (items : List SetItem) : Read Item := do
  let f := (← get).flags
  return .single (.set negated items f.charset f.foldCase) .one

def codeItem (n : Nat) : Read Item := setOf false [.code n]

def anchorItem (a : Anchor) : Read Item := do
  return .single (.anchor a (← get).flags.charset) .zero .anchor

def groupWidth (n : Nat) : Read Width := do
  match (← get).groups[n - 1]? with
  | some ⟨_, some w⟩ => return w
  | _ => refuse

def checkBehind (n : Nat) : Read Unit := do
  match (← get).behindFrom with
  | none => return ()
  | some bound =>
    let _ ← groupWidth n
    if n > bound then refuse

def backrefItem (n : Nat) : Read Item := do
  let w ← groupWidth n
  checkBehind n
  let f := (← get).flags
  return .single (.backref n f.charset f.foldCase) w

def digitEscape (c : Char) : Read Item := do
  let second ← takeSome Text.isAsciiDigit 1
  match second with
  | [d] =>
    let third ← if isOctal c && isOctal d then takeSome isOctal 1 else pure []
    match third with
    | [e] =>
      let n := octalNumber [c, d, e]
      if n > 0o377 then refuse else codeItem n
    | _ => backrefItem (Text.digitsValue [c, d])
  | _ => backrefItem (Text.digitsValue [c])

def escapeItem (c : Char) : Read Item := do
  match c with
  | 'A' => anchorItem .textStart
  | 'Z' => anchorItem .textEnd
  | 'b' => anchorItem .boundary
  | 'B' => anchorItem .noBoundary
  | _ =>
    match categoryEscape? c, controlEscape? c with
    | some item, _ => setOf false [item]
    | _, some n => codeItem n
    | none, none =>
      match ← codeEscape? c with
      | some n => codeItem n
      | none =>
        if c == '0' then codeItem (octalNumber ('0' :: (← takeSome isOctal 2)))
        else if Text.isAsciiDigit c then digitEscape c
        else if Text.isAsciiLetter c then refuse
        else codeItem c.toNat

def setMember (t : Token) : Read SetItem :=
  match t with
  | .plain c => return .code c.toNat
  | .escaped c => setEscape c

def setMembers : Nat → List SetItem → Read (List SetItem)
  | 0, _ => refuse
  | fuel + 1, items => do
    match ← takeToken with
    | none => refuse
    | some t =>
      if t == .plain ']' && !items.isEmpty then return items
      else
        let first ← setMember t
        if ← accept '-' then
          match ← takeToken with
          | none => refuse
          | some (.plain ']') => return items ++ [first, .code '-'.toNat]
          | some u =>
            match first, ← setMember u with
            | .code low, .code high =>
              if high < low then refuse else setMembers fuel (items ++ [.range low high])
            | _, _ => refuse
        else setMembers fuel (items ++ [first])

def setItem : Read Item := do
  let negated ← accept '^'
  let items ← setMembers ((← get).rest.length + 1) []
  setOf negated items.eraseDups

def digitsOf : Read Text := do takeSome Text.isAsciiDigit (← get).rest.length

def countLimit : Nat := 0xffffffff

def countOf (digits : Text) : Read Nat := do
  if digits.length > Text.digitLimit then throw (.countTooLong digits.length)
  let n := Text.digitsValue digits
  if n < countLimit then return n else throw .countTooLarge

def bounds : Read (Option (Nat × Option Nat)) := do
  if (← peek) == some (.plain '}') then return none
  let start := (← get).rest
  let low ← digitsOf
  let high ← if ← accept ',' then digitsOf else pure low
  if ← accept '}' then
    let least ← if low.isEmpty then pure 0 else countOf low
    if high.isEmpty then return some (least, none)
    let most ← countOf high
    if most < least then refuse else return some (least, some most)
  else
    modify fun s => {s with rest := start}
    return none

def takeGreed : Read Greed := do
  if ← accept '?' then return .lazy
  if ← accept '+' then return .possessive
  return .greedy

def flawIf (wrong : Bool) : Read Unit := modify fun s => {s with flawed := s.flawed || wrong}

def repeatItem (last : Option Item) (least : Nat) (most : Option Nat) : Read Item := do
  match last with
  | none => refuse
  | some item =>
    if item.kind != .plain then refuse
    let greed ← takeGreed
    flawIf (← get).flags.plainOnly
    return .single (.repeated (.ofParts item.parts) least most greed) (item.width.times least most)
      .repeated

def isFlag (c : Char) : Bool := "iLmsxatu".toList.contains c

def Flags.with (f : Flags) (c : Char) (on : Bool) : Flags :=
  match c with
  | 'i' => {f with foldCase := on}
  | 'm' => {f with multiLine := on}
  | 's' => {f with dotAll := on}
  | 'x' => {f with verbose := on}
  | _ => f

def Flags.scoped (f : Flags) (added removed : Text) : Flags :=
  let f := added.foldl (fun f c => f.with c true) f
  let f := removed.foldl (fun f c => f.with c false) f
  if added.contains 'a' then {f with ascii := true}
  else if added.contains 'u' then {f with ascii := false}
  else f

def Flags.whole (f : Flags) (added : Text) : Flags :=
  let f := added.foldl (fun f c => f.with c true) f
  { f with
    ascii := f.ascii || added.contains 'a'
    everyScript := f.everyScript || added.contains 'u'
    plainOnly := f.plainOnly || added.contains 't' }

def flagLetters (ends : List Char) : Nat → Text → Read (Text × Char)
  | 0, _ => refuse
  | fuel + 1, read => do
    match ← takeToken with
    | some (.plain c) =>
      if ends.contains c && !read.isEmpty then return (read, c)
      else if isFlag c then flagLetters ends fuel (read ++ [c])
      else refuse
    | _ => refuse

inductive FlagGroup where
  | whole (added : Text)
  | scoped (added removed : Text)

-- Flags for the whole expression or for a group; `first` is the letter or minus sign read.
def flagGroup (first : Char) : Read FlagGroup := do
  let fuel := (← get).rest.length + 2
  let (added, stop) ←
    if first == '-' then pure ([], '-')
    else do
      modify fun s => {s with rest := first :: s.rest}
      flagLetters [')', '-', ':'] fuel []
  if added.contains 'L' || (added.contains 'a' && added.contains 'u') then refuse
  if stop == ')' then return .whole added
  if added.contains 't' then refuse
  let removed ←
    if stop == '-' then do
      let (letters, _) ← flagLetters [':'] fuel []
      pure letters
    else pure []
  if removed.any ['a', 'u', 'L', 't'].contains then refuse
  if added.any removed.contains then refuse
  return .scoped added removed

def namedGroup? (name : Text) : Read (Option Nat) := do
  return ((← get).groups.findIdx? (·.name == some name)).map (· + 1)

def openGroup (name : Option Text) : Read Nat := do
  let s ← get
  if name.isSome && s.groups.any (·.name == name) then refuse
  set {s with groups := s.groups ++ [GroupInfo.mk name none]}
  return s.groups.length + 1

def closeGroup (n : Nat) (w : Width) : Read Unit :=
  modify fun s =>
    {s with groups := s.groups.mapIdx fun i g => if i + 1 = n then {g with width := some w} else g}

def conditionGroup (name : Text) : Read Nat := do
  if Text.isIdentifier name then
    match ← namedGroup? name with
    | some n => return n
    | none => refuse
  else
    match Text.integer? name with
    | some (.ofNat (n + 1)) =>
      modify fun s => {s with conditions := (n + 1) :: s.conditions}
      return n + 1
    | _ => refuse

def commonLead : (fuel : Nat) → List (List Regex) → List Regex × List (List Regex)
  | 0, branches => ([], branches)
  | fuel + 1, branches =>
    match branches with
    | (r :: _) :: _ =>
      if r.isLeaf && branches.all (·.head? == some r) then
        let (lead, rest) := commonLead fuel (branches.map (·.drop 1))
        (r :: lead, rest)
      else ([], branches)
    | _ => ([], branches)

def Regex.members? : Regex → Option (List SetItem)
  | .set false items _ _ => some items
  | _ => none

def mergedSet? (f : Flags) (branches : List (List Regex)) : Option Regex := do
  let members ← branches.mapM fun
    | [r] => r.members?
    | _ => none
  return .set false members.flatten.eraseDups f.charset f.foldCase

def anyOf : List (List Regex) → Regex
  | [] => .empty
  | [parts] => .ofParts parts
  | parts :: rest => .alt (.ofParts parts) (anyOf rest)

def alternativesOf (f : Flags) (phrases : List Phrase) : Phrase :=
  match phrases with
  | [] => .empty
  | [p] => p
  | p :: others =>
    let branches := phrases.map (·.parts)
    let (lead, branches) := commonLead (p.parts.length + 1) branches
    let rest := (mergedSet? f branches).getD (anyOf branches)
    ⟨lead ++ [rest], others.foldl (fun w q => w.either q.width) p.width⟩

def withFlags {α : Type} (change : Flags → Flags) (inner : Read α) : Read α := do
  let flags := (← get).flags
  modify fun s => {s with flags := change s.flags}
  let a ← inner
  modify fun s => {s with flags := flags}
  return a

def skipComment : Nat → Read Unit
  | 0 => refuse
  | fuel + 1 => do
    match ← takeToken with
    | none => refuse
    | some t => if t == .plain ')' then return () else skipComment fuel

def skipLine : Nat → Read Unit
  | 0 => return ()
  | fuel + 1 => do
    match ← takeToken with
    | none => return ()
    | some t => if t == .plain '\n' then return () else skipLine fuel

mutual

def alternatives (fuel : Nat) (nested : Bool) (before : List Phrase) : Read Phrase :=
  match fuel with
  | 0 => refuse
  | fuel + 1 => do
    let phrase ← phrase fuel (!nested && before.isEmpty) []
    if ← accept '|' then alternatives fuel nested (before ++ [phrase])
    else return alternativesOf (← get).flags (before ++ [phrase])

def phrase (fuel : Nat) (first : Bool) (items : List Item) : Read Phrase :=
  match fuel with
  | 0 => refuse
  | fuel + 1 => do
    let f := (← get).flags
    match ← peek with
    | none => return .ofItems items
    | some (.plain '|') | some (.plain ')') => return .ofItems items
    | some t =>
      skipToken
      match t with
      | .escaped c => phrase fuel first (items ++ [← escapeItem c])
      | .plain c =>
        if f.verbose && Category.isAsciiSpace c then phrase fuel first items
        else if f.verbose && c == '#' then
          skipLine ((← get).rest.length + 1)
          phrase fuel first items
        else match c with
          | '[' => phrase fuel first (items ++ [← setItem])
          | '.' => phrase fuel first (items ++ [.single (.any f.dotAll) .one])
          | '^' =>
            let a := if f.multiLine then Anchor.lineStart else Anchor.textStart
            phrase fuel first (items ++ [← anchorItem a])
          | '$' =>
            let a := if f.multiLine then Anchor.lineEnd else Anchor.lastLineEnd
            phrase fuel first (items ++ [← anchorItem a])
          | '*' => phrase fuel first (items.dropLast ++ [← repeatItem items.getLast? 0 none])
          | '+' => phrase fuel first (items.dropLast ++ [← repeatItem items.getLast? 1 none])
          | '?' =>
            phrase fuel first (items.dropLast ++ [← repeatItem items.getLast? 0 (some 1)])
          | '{' =>
            match ← bounds with
            | none => phrase fuel first (items ++ [← codeItem c.toNat])
            | some (least, most) =>
              phrase fuel first (items.dropLast ++ [← repeatItem items.getLast? least most])
          | '(' =>
            match ← groupItem fuel (first && items.isEmpty) with
            | none => phrase fuel first items
            | some item => phrase fuel first (items ++ [item])
          | _ => phrase fuel first (items ++ [← codeItem c.toNat])

def groupItem (fuel : Nat) (flagsAllowed : Bool) : Read (Option Item) :=
  match fuel with
  | 0 => refuse
  | fuel + 1 => do
    if !(← accept '?') then return some (← captureItem fuel none)
    match ← takeToken with
    | some (.plain 'P') =>
      if ← accept '<' then
        let name ← nameUntil '>'
        if Text.isIdentifier name then return some (← captureItem fuel (some name))
        else refuse
      else if ← accept '=' then
        match ← namedGroup? (← nameUntil ')') with
        | some n => return some (← backrefItem n)
        | none => refuse
      else refuse
    | some (.plain ':') => return some (← enclosed fuel)
    | some (.plain '#') =>
      skipComment ((← get).rest.length + 1)
      return none
    | some (.plain '=') => return some (← aheadItem fuel true)
    | some (.plain '!') => return some (← aheadItem fuel false)
    | some (.plain '<') =>
      if ← accept '=' then return some (← behindItem fuel true)
      else if ← accept '!' then return some (← behindItem fuel false)
      else refuse
    | some (.plain '(') =>
      let n ← conditionGroup (← nameUntil ')')
      checkBehind n
      let yes ← phrase fuel false []
      let no ← if ← accept '|' then phrase fuel false [] else pure .empty
      expect ')'
      return some (.single (.ifGroup n yes.regex no.regex) (yes.width.either no.width))
    | some (.plain '>') =>
      let inner ← enclosed fuel
      return some (.single (.atomic (.ofParts inner.parts)) inner.width)
    | some (.plain c) =>
      if isFlag c || c == '-' then
        match ← flagGroup c with
        | .whole added =>
          if !flagsAllowed then refuse
          modify fun s => {s with flags := s.flags.whole added}
          return none
        | .scoped added removed =>
          let inner ← withFlags (·.scoped added removed) (enclosed fuel)
          return some (.single (.scoped (.ofParts inner.parts)) inner.width)
      else refuse
    | _ => refuse

def enclosed (fuel : Nat) : Read Item :=
  match fuel with
  | 0 => refuse
  | fuel + 1 => do
    let inner ← alternatives fuel true []
    expect ')'
    return ⟨inner.parts, inner.width, .plain⟩

def captureItem (fuel : Nat) (name : Option Text) : Read Item :=
  match fuel with
  | 0 => refuse
  | fuel + 1 => do
    let n ← openGroup name
    let inner ← enclosed fuel
    closeGroup n inner.width
    return .single (.group n (.ofParts inner.parts)) inner.width

def aheadItem (fuel : Nat) (wanted : Bool) : Read Item :=
  match fuel with
  | 0 => refuse
  | fuel + 1 => do
    let inner ← enclosed fuel
    return .single (.ahead wanted (.ofParts inner.parts)) .zero

def behindItem (fuel : Nat) (wanted : Bool) : Read Item :=
  match fuel with
  | 0 => refuse
  | fuel + 1 => do
    let outer := (← get).behindFrom
    if outer.isNone then modify fun s => {s with behindFrom := some s.groups.length}
    let inner ← enclosed fuel
    modify fun s => {s with behindFrom := outer}
    flawIf !inner.width.isFixed
    return .single (.behind wanted inner.width.least (.ofParts inner.parts)) .zero

end

def wholeText (length : Nat) : Read Regex := do
  goOn (← get).rest
  let p ← alternatives (8 * length + 8) false []
  let s ← get
  if s.flags.ascii && s.flags.everyScript then throw .charsetClash
  if !s.rest.isEmpty || s.conditions.any (s.groups.length < ·) || s.flawed then refuse
  return p.regex

def compile (multiLine : Bool) (source : Text) : Except Refusal Regex :=
  (wholeText source.length).run' {rest := source, flags := {multiLine := multiLine}}

end ModuleSplit.Pattern
