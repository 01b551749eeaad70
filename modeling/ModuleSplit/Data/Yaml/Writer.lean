import ModuleSplit.Data.Display
import ModuleSplit.Data.Json.Writer
import ModuleSplit.Data.Yaml.Tag
import ModuleSplit.Data.Yaml.Token

-- Structured data as YAML: blocks indented by two, sequences in line with their key, keys in
-- order, long lines folded.

namespace ModuleSplit.Yaml

open Text

namespace Writer

def lineWidth : Nat := 80

def indentStep : Nat := 2

structure Traits where
  -- something that would not be read as text in a block
  indicators : Bool := false
  lineBreaks : Bool := false
  -- characters that have to be escaped
  special : Bool := false
  spaceAtEdge : Bool := false
  breakAtEdge : Bool := false
  breakThenSpace : Bool := false
  spaceThenBreak : Bool := false
  deriving DecidableEq, Repr

def opensIndicator (c : Char) (next : Option Char) : Bool :=
  "#,[]\x7b\x7d&*!|>'\"%@`".toList.contains c ||
    ((c == '?' || c == ':' || c == '-') && isGap next)

def innerIndicator (previous : Option Char) (c : Char) (next : Option Char) : Bool :=
  (c == ':' && isGap next) || (c == '#' && isGap previous)

def isSpecial (c : Char) : Bool := !(c == '\n' || (' ' ≤ c && c ≤ '~'))

-- Takes in the character `c`; `previous` is none at the start, `next` at the end.
def Traits.note (t : Traits) (previous : Option Char) (c : Char) (next : Option Char) : Traits :=
  let edge := previous.isNone || next.isNone
  {t with
    indicators := t.indicators || (if previous.isNone then opensIndicator c next
      else innerIndicator previous c next)
    lineBreaks := t.lineBreaks || isBreak c
    special := t.special || isSpecial c
    spaceAtEdge := t.spaceAtEdge || (edge && c == ' ')
    breakAtEdge := t.breakAtEdge || (edge && isBreak c)
    breakThenSpace := t.breakThenSpace || (c == ' ' && previous.any isBreak)
    spaceThenBreak := t.spaceThenBreak || (isBreak c && previous == some ' ')}

def traitsFrom (t : Traits) (previous : Option Char) : Text → Traits
  | [] => t
  | c :: rest => traitsFrom (t.note previous c rest.head?) (some c) rest

def traits (t : Text) : Traits :=
  traitsFrom {indicators := startsWith t "---" || startsWith t "..."} none t

def Traits.allowsPlain (t : Traits) : Bool :=
  !(t.indicators || t.lineBreaks || t.special || t.spaceAtEdge || t.breakAtEdge)

def Traits.allowsSingle (t : Traits) : Bool := !(t.special || t.breakThenSpace || t.spaceThenBreak)

inductive Style where
  | plain
  | single
  | double
  deriving DecidableEq, Repr

-- A text that looks like another type must be quoted. A key is written on one line.
def style (key : Bool) (t : Text) : Style :=
  let tr := traits t
  if Tag.ofLooks t = .text ∧ tr.allowsPlain then .plain
  else if tr.allowsSingle ∧ !(key && tr.lineBreaks) then .single
  else .double

structure Line where
  text : Text := []
  column : Nat
  deriving DecidableEq, Repr

namespace Line

def add (l : Line) (t : Text) : Line := ⟨l.text ++ t, l.column + t.length⟩

def newLine (l : Line) (indent : Nat) : Line :=
  ⟨l.text ++ '\n' :: List.replicate indent ' ', indent⟩

end Line

def plainFrom (fold : Bool) (indent : Nat) (l : Line) (fuel : Nat) (t : Text) : Line :=
  match fuel, t with
  | 0, _ => l
  | _, [] => l
  | fuel + 1, _ =>
    let word := t.takeWhile (· != ' ')
    let l := l.add word
    let rest := t.drop word.length
    let spaces := rest.takeWhile (· == ' ')
    let rest := rest.drop spaces.length
    let l := if spaces.length = 1 ∧ l.column > lineWidth ∧ fold then l.newLine indent
      else l.add spaces
    plainFrom fold indent l fuel rest

-- Breaks are written once more than they count, as a lone one would be read as a space.
def breakLines (indent : Nat) (l : Line) (breaks : Text) : Line :=
  let l := if breaks.head? = some '\n' then ⟨l.text ++ ['\n'], 0⟩ else l
  let l : Line := breaks.foldl (fun (l : Line) b => ⟨l.text ++ [b], 0⟩) l
  if l.column < indent then l.add (List.replicate (indent - l.column) ' ') else l

def singleFrom (fold : Bool) (indent : Nat) (l : Line) (first : Bool) (fuel : Nat) (t : Text) :
    Line :=
  match fuel, t with
  | 0, _ => l
  | _, [] => l
  | fuel + 1, c :: _ =>
    if c = ' ' then
      let spaces := t.takeWhile (· == ' ')
      let rest := t.drop spaces.length
      let l := if spaces.length = 1 ∧ l.column > lineWidth ∧ fold ∧ !first ∧ !rest.isEmpty then
          l.newLine indent
        else l.add spaces
      singleFrom fold indent l false fuel rest
    else if isBreak c then
      let breaks := t.takeWhile isBreak
      singleFrom fold indent (breakLines indent l breaks) false fuel (t.drop breaks.length)
    else
      let word := t.takeWhile fun c => c != ' ' && !isBreak c
      singleFrom fold indent (l.add (word.flatMap fun c => if c = '\'' then ['\'', '\''] else [c]))
        false fuel (t.drop word.length)

def singleQuoted (fold : Bool) (indent : Nat) (l : Line) (t : Text) : Line :=
  (singleFrom fold indent (l.add ['\'']) true (t.length + 1) t).add ['\'']

def namedEscapes : List (Char × Char) :=
  [('\x00', '0'), ('\x07', 'a'), ('\x08', 'b'), ('\t', 't'), ('\n', 'n'), ('\x0b', 'v'),
    ('\x0c', 'f'), ('\r', 'r'), ('\x1b', 'e'), ('"', '"'), ('\\', '\\'), ('\x85', 'N'),
    ('\xa0', '_'), ('\u2028', 'L'), ('\u2029', 'P')]

def hexDigits (width n : Nat) : Text := padLeft width '0' ((Nat.toDigits 16 n).map Char.toUpper)

def escaped? (c : Char) : Option Text :=
  match namedEscapes.lookup c with
  | some sign => some ['\\', sign]
  | none =>
    let n := c.toNat
    if ' ' ≤ c && c ≤ '~' then none
    else some (if n ≤ 0xff then "\\x".toList ++ hexDigits 2 n
      else if n ≤ 0xffff then "\\u".toList ++ hexDigits 4 n
      else "\\U".toList ++ hexDigits 8 n)

-- `pending` is read and not yet written. A line may be broken behind a backslash, before a space
-- or behind an escape, but not at the first or last character.
def doubleFrom (fold : Bool) (indent : Nat) (l : Line) (pending : Text) (first : Bool) :
    Text → Line
  | [] => l.add pending
  | c :: rest =>
    let (l, pending, escaped) := match escaped? c with
      | some e => ((l.add pending).add e, [], true)
      | none => (l, pending, false)
    let full := if escaped then l.column > lineWidth + 1
      else (c = ' ' ∨ pending = []) ∧ l.column + pending.length > lineWidth
    if fold ∧ !first ∧ !rest.isEmpty ∧ full then
      let l := (l.add (pending ++ ['\\'])).newLine indent
      let ahead := if escaped then rest.head? else some c
      let l := if ahead = some ' ' then l.add ['\\'] else l
      doubleFrom fold indent l (if escaped then [] else [c]) false rest
    else doubleFrom fold indent l (if escaped then [] else pending ++ [c]) false rest

def doubleQuoted (fold : Bool) (indent : Nat) (l : Line) (t : Text) : Line :=
  (doubleFrom fold indent (l.add ['"']) [] true t).add ['"']

def textScalar (key : Bool) (indent : Nat) (l : Line) (t : Text) : Line :=
  match style key t with
  | .plain => plainFrom (!key) indent l (t.length + 1) t
  | .single => singleQuoted (!key) indent l t
  | .double => doubleQuoted (!key) indent l t

def floatText (d : Double) : Text :=
  if d.isNaN then ".nan".toList
  else if !d.isFinite then (if d.isNegative then "-.inf" else ".inf").toList
  else
    let t := Json.floatText d
    if t.contains '.' || !t.contains 'e' then t
    else t.takeWhile (· != 'e') ++ ".0".toList ++ t.dropWhile (· != 'e')

def boolText (b : Bool) : Text := (if b then "true" else "false").toList

def timeText : Timestamp → Text
  | .moment m offset => m.text ++ (offset.map Timestamp.offsetText).getD []
  | t => t.shown

def keyScalar (indent : Nat) (l : Line) : Key → Line
  | .text t => textScalar true indent l t
  | .null => l.add "null".toList
  | .bool b => l.add (boolText b)
  | .int i => l.add (ofInt i)
  | .float d => l.add (floatText d)
  | .time t => l.add (timeText t)
  | .bytes b => textScalar true indent l (bytesShown b)

def ordered (entries : Entries) : Entries :=
  let named := entries.filterMap fun (k, v) => match k with
    | .text t => some (t, v)
    | _ => none
  if named.length < entries.length then entries
  else (named.mergeSort fun a b => Text.le a.1 b.1).map fun (t, v) => (.text t, v)

def keyLimit : Nat := 123

def isSimpleKey : Key → Bool
  | .text t => !t.isEmpty && t.length < keyLimit && !t.any isBreak
  | _ => true

def moveTo (indent : Nat) (sameLine : Bool) (l : Line) : Line :=
  if sameLine then l.add (List.replicate (indent - l.column) ' ') else l.newLine indent

def keySign (indent : Nat) (l : Line) (k : Key) : Line × Bool :=
  if isSimpleKey k then ((keyScalar (indent + indentStep) l k).add [':'], false)
  else
    let l := keyScalar (indent + indentStep) (l.add "? ".toList) k
    ((l.newLine indent).add [':'], true)

def setEntries (indent : Nat) (sameLine : Bool) (l : Line) : List Key → Line
  | [] => l
  | k :: rest =>
    let signed := (keySign indent (moveTo indent sameLine l) k).1
    setEntries indent false (signed.add " null".toList) rest

mutual

-- A node behind the sign of an entry or value. `indent` is that of the block it is in; `sameLine`
-- says whether a block may begin on the line of the sign.
def node (indent : Nat) (sameLine : Bool) (l : Line) : Value → Line
  | .null => l.add " null".toList
  | .bool b => l.add (' ' :: boolText b)
  | .int i => l.add (' ' :: ofInt i)
  | .float d => l.add (' ' :: floatText d)
  | .text t => textScalar false (indent + indentStep) (l.add [' ']) t
  | .time t => l.add (' ' :: timeText t)
  | .bytes b => textScalar false (indent + indentStep) (l.add [' ']) (bytesShown b)
  | .enclosing _ _ => l.add " null".toList
  | .set members =>
    if members.isEmpty then l.add " \x7b\x7d".toList
    else setEntries (indent + indentStep) sameLine l members
  | .pair a b =>
    let column := if sameLine then indent + indentStep else indent
    let l := node column true ((moveTo column sameLine l).add ['-']) a
    node column true ((moveTo column false l).add ['-']) b
  | .list vs =>
    if vs.isEmpty then l.add " []".toList
    else items (if sameLine then indent + indentStep else indent) sameLine l vs
  | .dict es =>
    if es.isEmpty then l.add " \x7b\x7d".toList
    else entries (indent + indentStep) sameLine l es

def items (indent : Nat) (sameLine : Bool) (l : Line) : List Value → Line
  | [] => l
  | v :: rest => items indent false (node indent true ((moveTo indent sameLine l).add ['-']) v) rest

def entries (indent : Nat) (sameLine : Bool) (l : Line) : List (Key × Value) → Line
  | [] => l
  | (k, v) :: rest =>
    let (signed, inline) := keySign indent (moveTo indent sameLine l) k
    entries indent false (node indent inline signed v) rest

end

mutual

def sorted : Value → Value
  | .list items => .list (sortedItems items)
  | .dict entries => .dict (ordered (sortedEntries entries))
  | v => v

def sortedItems : List Value → List Value
  | [] => []
  | v :: rest => sorted v :: sortedItems rest

def sortedEntries : List (Key × Value) → List (Key × Value)
  | [] => []
  | (k, v) :: rest => (k, sorted v) :: sortedEntries rest

end

end Writer

def write (fields : Entries) : Text :=
  match Writer.sorted (.dict fields) with
  | .dict (e :: rest) => (Writer.entries 0 true {column := 0} (e :: rest)).text ++ ['\n']
  | _ => "\x7b\x7d\n".toList

end ModuleSplit.Yaml
