import ModuleSplit.Text.Basic
import ModuleSplit.Text.CaseTable
import ModuleSplit.Text.CodePoints

namespace ModuleSplit.Text

def isBlank (c : Char) : Bool :=
  let n := c.toNat
  (9 ≤ n && n ≤ 13) || (28 ≤ n && n ≤ 32) || n == 0x85 || n == 0xa0 || n == 0x1680 ||
    (0x2000 ≤ n && n ≤ 0x200a) || n == 0x2028 || n == 0x2029 || n == 0x202f || n == 0x205f ||
    n == 0x3000

def isAsciiLetter (c : Char) : Bool :=
  ('A' ≤ c && c ≤ 'Z') || ('a' ≤ c && c ≤ 'z')

def isAsciiDigit (c : Char) : Bool := '0' ≤ c && c ≤ '9'

def isWord (c : Char) : Bool :=
  if c.toNat < 128 then isAsciiLetter c || isAsciiDigit c || c == '_'
  else insideFlips wordFlips c.toNat

def isIdentChar (c : Char) : Bool := isWord c || c == '$'

def isIdentStart (c : Char) : Bool := isAsciiLetter c || c == '_' || c == '$'

def isDigit (c : Char) : Bool :=
  if c.toNat < 128 then isAsciiDigit c else insideFlips digitFlips c.toNat

def decimalValue? (c : Char) : Option Nat :=
  if isAsciiDigit c then some (c.toNat - '0'.toNat)
  else (decimalZeros.find? fun row => row ≤ c.toNat && c.toNat ≤ row + 9).map (c.toNat - ·)

def shiftInRuns (runs : Array CaseRun) (n : Nat) : Option Nat :=
  (runs.find? fun (first, last, step, _) => first ≤ n && n ≤ last && (n - first) % step == 0).map
    fun (_, _, _, shift) => (n + shift).toNat

def lowerCode (n : Nat) : Nat :=
  if 65 ≤ n && n ≤ 90 then n + 32
  else if n < 128 then n
  else (shiftInRuns lowerRuns n).getD n

def upperChar (c : Char) : Text :=
  if 'a' ≤ c && c ≤ 'z' then [Char.ofNat (c.toNat - 32)]
  else if c.toNat < 128 then [c]
  else match upperExpansions.find? (·.1 == c.toNat) with
    | some (_, many) => many.map Char.ofNat
    | none => match shiftInRuns upperRuns c.toNat with
      | some n => [Char.ofNat n]
      | none => [c]

def lowerAscii (t : Text) : Text :=
  t.map fun c => if 'A' ≤ c && c ≤ 'Z' then Char.ofNat (c.toNat + 32) else c

def dropBlanks (t : Text) : Text := trimLeftBy isBlank t

def trimRight (t : Text) : Text := trimRightBy isBlank t

def trim (t : Text) : Text := trimBy isBlank t

def isBlankText (t : Text) : Bool := t.all isBlank

def words : Text → List Text
  | [] => []
  | c :: rest =>
    if isBlank c then words rest
    else match rest with
      | [] => [[c]]
      | d :: _ =>
        if isBlank d then [c] :: words rest
        else match words rest with
          | [] => [[c]]
          | w :: ws => (c :: w) :: ws

def isNameStart (c : Char) : Bool :=
  if c.toNat < 128 then isAsciiLetter c || c == '_'
  else isWord c != insideFlips nameStartFlips c.toNat

def isNamePart (c : Char) : Bool :=
  if c.toNat < 128 then isAsciiLetter c || isAsciiDigit c || c == '_'
  else isWord c != insideFlips namePartFlips c.toNat

def isIdentifier : Text → Bool
  | [] => false
  | c :: rest => isNameStart c && rest.all isNamePart

def isPrintable (c : Char) : Bool :=
  if c.toNat < 128 then 32 ≤ c.toNat && c.toNat < 127 else insideFlips printableFlips c.toNat

def hexText (width n : Nat) : Text := padLeft width '0' (Nat.toDigits 16 n)

def quotedChar (mark c : Char) : Text :=
  if c = mark ∨ c = '\\' then ['\\', c]
  else if c = '\n' then ['\\', 'n']
  else if c = '\r' then ['\\', 'r']
  else if c = '\t' then ['\\', 't']
  else if isPrintable c then [c]
  else if c.toNat < 0x100 then ['\\', 'x'] ++ hexText 2 c.toNat
  else if c.toNat < 0x10000 then ['\\', 'u'] ++ hexText 4 c.toNat
  else ['\\', 'U'] ++ hexText 8 c.toNat

-- In single quotes, or in double quotes when that saves escaping.
def quoted (t : Text) : Text :=
  let mark := if t.contains '\'' && !t.contains '"' then '"' else '\''
  mark :: t.flatMap (quotedChar mark) ++ [mark]

end ModuleSplit.Text
