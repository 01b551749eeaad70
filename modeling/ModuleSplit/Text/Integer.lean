import ModuleSplit.Text.Class

-- Integers as people write them: blanks around, a sign, digits of any script, and single
-- underscores between digits.

namespace ModuleSplit.Text

def hexValue? (c : Char) : Option Nat :=
  if '0' ≤ c && c ≤ '9' then some (c.toNat - '0'.toNat)
  else if 'a' ≤ c && c ≤ 'f' then some (c.toNat - 'a'.toNat + 10)
  else if 'A' ≤ c && c ≤ 'F' then some (c.toNat - 'A'.toNat + 10)
  else none

def digitsValue (ds : Text) : Nat := Nat.ofDigitChars 10 ds 0

def isNumberBlank (c : Char) : Bool :=
  c == ' ' || (9 ≤ c.toNat && c.toNat ≤ 13) || (127 < c.toNat && isBlank c)

def digitIn? (base : Nat) (c : Char) : Option Nat :=
  ((decimalValue? c).or (hexValue? c)).filter (· < base)

def hasLooseUnderscore (afterDigit : Bool) : Text → Bool
  | [] => !afterDigit
  | c :: rest => if c = '_' then !afterDigit || hasLooseUnderscore false rest
    else hasLooseUnderscore true rest

-- The longest decimal number that is read; the other bases know no limit.
def digitLimit : Nat := 4300

def isTooLong (i : Int) : Bool := Nat.pow 10 digitLimit ≤ i.natAbs

inductive IntegerFault where
  | malformed
  | tooLong (digits : Nat)
  deriving DecidableEq, Repr

def signed (t : Text) : Bool × Text :=
  match t with
  | '-' :: rest => (true, rest)
  | '+' :: rest => (false, rest)
  | _ => (false, t)

def withoutBaseSign (base : Nat) (t : Text) : Text :=
  let letter := if base = 16 then 'x' else if base = 8 then 'o' else 'b'
  match t with
  | '0' :: c :: rest =>
    if base ≠ 10 ∧ c.toLower = letter then (dropLead? "_" rest).getD rest else t
  | _ => t

def integerIn (base : Nat) (t : Text) : Except IntegerFault Int :=
  let (negative, body) := signed (trimBy isNumberBlank t)
  let body := withoutBaseSign base body
  let run := body.takeWhile fun c => (digitIn? base c).isSome || c == '_'
  let digits := run.filterMap (digitIn? base)
  if hasLooseUnderscore false run then .error .malformed
  else if base = 10 ∧ digits.length > digitLimit then .error (.tooLong digits.length)
  else if run.length < body.length then .error .malformed
  else
    let n : Nat := digits.foldl (fun n d => n * base + d) 0
    .ok (if negative then -(n : Int) else n)

def integer? (t : Text) : Option Int := (integerIn 10 t).toOption

end ModuleSplit.Text
