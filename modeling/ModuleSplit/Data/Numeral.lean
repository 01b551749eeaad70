import ModuleSplit.Data.Double
import ModuleSplit.Text.Integer

namespace ModuleSplit

open Text

structure Numeral where
  whole : Text
  places : Text
  exponent : Option Int

namespace Numeral

def wholePart? (t : Text) : Option (Text × Text) :=
  match t with
  | '0' :: rest => some (['0'], rest)
  | _ =>
    let (ds, rest) := t.span isAsciiDigit
    if ds.isEmpty then none else some (ds, rest)

def placesIn (t : Text) : Text × Text :=
  match t with
  | '.' :: more =>
    let (ds, rest) := more.span isAsciiDigit
    if ds.isEmpty then ([], t) else (ds, rest)
  | _ => ([], t)

def exponentIn (t : Text) : Option Int × Text :=
  match t with
  | c :: more =>
    if c == 'e' || c == 'E' then
      let (negative, body) := signed more
      let (ds, rest) := body.span isAsciiDigit
      let n : Int := digitsValue ds
      if ds.isEmpty then (none, t) else (some (if negative then -n else n), rest)
    else (none, t)
  | [] => (none, t)

def read? (t : Text) : Option (Numeral × Text) := do
  let (whole, rest) ← wholePart? t
  let (places, rest) := placesIn rest
  let (exponent, rest) := exponentIn rest
  return (⟨whole, places, exponent⟩, rest)

def isWhole (n : Numeral) : Bool := n.places.isEmpty && n.exponent.isNone

def toDouble (n : Numeral) (negative : Bool) : Double :=
  .ofDecimal negative (digitsValue (n.whole ++ n.places)) (n.exponent.getD 0 - n.places.length)

end Numeral

namespace Double

def scaled (num den : Nat) (shift : Int) : Nat × Nat :=
  if shift ≥ 0 then (num, den * tenTo shift.toNat) else (num * tenTo (-shift).toNat, den)

-- Zeros between the decimal point and the first digit of a fraction below one. No 64-bit number
-- has more than 324, which `fuel` has to cover.
def leadingZeros (den : Nat) : (fuel : Nat) → (num : Nat) → Nat
  | 0, _ => 0
  | fuel + 1, num => if num * 10 ≥ den then 0 else leadingZeros den fuel (num * 10) + 1

-- The number of digits in front of the decimal point; for numbers below one, minus the number of
-- zeros behind it.
def magnitudeOrder (num den : Nat) : Int :=
  if num / den > 0 then ((Nat.toDigits 10 (num / den)).length : Int)
  else -(leadingZeros den 400 num : Int)

def neighbours (d : Double) (order : Int) (count : Nat) : List (Nat × Int) :=
  let shift := order - count
  let (num, den) := scaled d.magnitude.1 d.magnitude.2 shift
  let below := num / den
  let excess := 2 * (num % den)
  if excess < den || excess == den && below % 2 == 0 then [(below, shift), (below + 1, shift)]
  else [(below + 1, shift), (below, shift)]

-- `digits * 10 ^ shift` without trailing zeros: positional from 0.0001 up to sixteen digits, beyond
-- with an exponent of two or more digits; a whole number keeps one zero behind the point.
def decimalText (digits : Nat) (shift : Int) : Text :=
  let all := ofNat digits
  let ds := trimRightBy (· == '0') all
  let point := all.length + shift
  if -4 < point && point ≤ 16 then
    if point ≤ 0 then "0.".toList ++ List.replicate (-point).toNat '0' ++ ds
    else if point.toNat ≥ ds.length then
      ds ++ List.replicate (point.toNat - ds.length) '0' ++ ".0".toList
    else ds.take point.toNat ++ ['.'] ++ ds.drop point.toNat
  else
    let mantissa := match ds with
      | [] => []
      | [c] => [c]
      | c :: rest => c :: '.' :: rest
    let e := point - 1
    mantissa ++ ['e'] ++ (if e < 0 then ['-'] else ['+']) ++ padLeft 2 '0' (ofNat e.natAbs)

def isReadFrom (d : Double) (t : Text) : Bool :=
  match Numeral.read? t with
  | some (n, []) => !n.isWhole && n.toDouble d.isNegative == d
  | _ => false

def exactText (d : Double) : Text :=
  ofNat (d.significand * twoTo d.binaryExponent * Nat.pow 5 1074) ++ "e-1074".toList

-- The fewest digits that read back. Seventeen always do.
def magnitudeText (d : Double) : Text :=
  let order := magnitudeOrder d.magnitude.1 d.magnitude.2
  let shortest := (List.range 17).flatMap fun n =>
    (d.neighbours order (n + 1)).map fun (digits, shift) => decimalText digits shift
  (("0.0".toList :: shortest).find? d.isReadFrom).getD d.exactText

def finiteText (d : Double) : Text := (if d.isNegative then ['-'] else []) ++ d.magnitudeText

def plainDigit (c : Char) : Char :=
  match decimalValue? c with
  | some d => Char.ofNat ('0'.toNat + d)
  | none => c

def decimal? (negative : Bool) (t : Text) : Option Double :=
  let whole := t.takeWhile isAsciiDigit
  let rest := t.drop whole.length
  let (places, rest) := match rest with
    | '.' :: more => (more.takeWhile isAsciiDigit, more.dropWhile isAsciiDigit)
    | _ => ([], rest)
  let (exp, rest) := Numeral.exponentIn rest
  if whole.isEmpty && places.isEmpty || !rest.isEmpty then none
  else some (ofDecimal negative (digitsValue (whole ++ places)) (exp.getD 0 - places.length))

-- As people write them: blanks around, a sign, digits of any script with a point among them, an
-- exponent, and words for what is infinite or no number.
def read? (t : Text) : Option Double :=
  let (negative, body) := signed ((trimBy isNumberBlank t).map plainDigit)
  let word := String.ofList (lowerAscii body)
  if word = "inf" ∨ word = "infinity" then some (infinity negative)
  else if word = "nan" then some nan
  else decimal? negative body

end Double

end ModuleSplit
