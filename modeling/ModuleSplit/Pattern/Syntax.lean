import ModuleSplit.Text.Class

namespace ModuleSplit.Pattern

inductive Category where
  | digit
  | space
  | word
  deriving DecidableEq, Repr

inductive Charset where
  | unicode
  | ascii
  deriving DecidableEq, Repr

inductive SetItem where
  | code (n : Nat)
  | range (low high : Nat)
  | category (kind : Category) (negated : Bool)
  deriving DecidableEq, Repr

inductive Anchor where
  | textStart
  | textEnd
  | lineStart
  | lineEnd
  -- the end, or the place before a line break that ends the text
  | lastLineEnd
  | boundary
  | noBoundary
  deriving DecidableEq, Repr

inductive Greed where
  | greedy
  | lazy
  | possessive
  deriving DecidableEq, Repr

inductive Regex where
  | empty
  | set (negated : Bool) (items : List SetItem) (charset : Charset) (foldCase : Bool)
  | any (lineBreakToo : Bool)
  | anchor (at_ : Anchor) (charset : Charset)
  | seq (first second : Regex)
  | alt (first second : Regex)
  | group (index : Nat) (body : Regex)
  -- a group that changes settings and captures nothing
  | scoped (body : Regex)
  | atomic (body : Regex)
  | repeated (body : Regex) (least : Nat) (most : Option Nat) (greed : Greed)
  | backref (index : Nat) (charset : Charset) (foldCase : Bool)
  | ahead (wanted : Bool) (body : Regex)
  | behind (wanted : Bool) (width : Nat) (body : Regex)
  | ifGroup (index : Nat) (yes no : Regex)
  deriving DecidableEq, Repr

namespace Category

def isAsciiSpace (c : Char) : Bool := c == ' ' || (9 ≤ c.toNat && c.toNat ≤ 13)

def has (kind : Category) (charset : Charset) (c : Char) : Bool :=
  match kind, charset with
  | .digit, .unicode => (Text.decimalValue? c).isSome
  | .digit, .ascii => Text.isAsciiDigit c
  | .space, .unicode => Text.isBlank c
  | .space, .ascii => isAsciiSpace c
  | .word, .unicode => Text.isWord c
  | .word, .ascii => c.toNat < 128 && Text.isWord c

end Category

namespace Charset

def lower (charset : Charset) (n : Nat) : Nat :=
  match charset with
  | .unicode => Text.lowerCode n
  | .ascii => if 65 ≤ n && n ≤ 90 then n + 32 else n

def kin (charset : Charset) (n : Nat) : List Nat :=
  match charset with
  | .ascii => []
  | .unicode => match Text.lowerKin.find? (·.1 == n) with
    | some (_, more) => more
    | none => []

def sameLetter (charset : Charset) (a b : Nat) : Bool :=
  let b := charset.lower b
  a == b || (charset.kin b).contains a

def variants (charset : Charset) (a : Nat) : List Nat :=
  let upper (n : Nat) : List Nat :=
    (if 97 ≤ n && n ≤ 122 then [n - 32] else []) ++
      match charset with
      | .ascii => []
      | .unicode => Text.lowerRuns.toList.filterMap fun (first, last, step, shift) =>
          let m := (n : Int) - shift
          if m ≥ first && m ≤ last && (m.toNat - first) % step == 0 then some m.toNat else none
  (a :: charset.kin a).flatMap fun n => n :: upper n

end Charset

def lastBasic : Nat := 0xffff

namespace SetItem

def has (item : SetItem) (charset : Charset) (c : Char) : Bool :=
  match item with
  | .code n => c.toNat == n
  | .range low high => low ≤ c.toNat && c.toNat ≤ high
  | .category kind negated => kind.has charset c != negated

-- One of several items, read without regard to case; `c` is already in lower case. Beyond the
-- basic plane a lone letter must be given in lower case, and a range counts for both cases.
def hasFolded (item : SetItem) (charset : Charset) (c : Char) : Bool :=
  match item with
  | .code n => if lastBasic < n then c.toNat == n else charset.sameLetter c.toNat n
  | .range low high =>
    let within (n : Nat) := low ≤ n && n ≤ high
    (charset.variants c.toNat).any (fun v => within v && v ≤ lastBasic) ||
      (lastBasic < high && (within c.toNat || (Text.upperChar c).head?.any (within ·.toNat)))
  | .category kind negated => kind.has charset c != negated

end SetItem

def inSet (negated : Bool) (items : List SetItem) (charset : Charset) (foldCase : Bool)
    (c : Char) : Bool :=
  let found :=
    if foldCase then
      let low := Char.ofNat (charset.lower c.toNat)
      match items with
      | [.code n] => charset.sameLetter low.toNat n
      | _ => items.any fun item => item.hasFolded charset low
    else items.any fun item => item.has charset c
  found != negated

namespace Regex

def unit? : Regex → Option (Char → Bool)
  | .set negated items charset foldCase => some (inSet negated items charset foldCase)
  | .any lineBreakToo => some fun c => lineBreakToo || c != '\n'
  | .scoped body => body.unit?
  | _ => none

def isLeaf : Regex → Bool
  | .set _ _ _ _ | .any _ | .anchor _ _ | .backref _ _ _ => true
  | _ => false

def ofParts : List Regex → Regex
  | [] => .empty
  | [r] => r
  | r :: rest => .seq r (ofParts rest)

end Regex

end ModuleSplit.Pattern
