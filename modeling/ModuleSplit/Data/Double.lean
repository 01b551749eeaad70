import ModuleSplit.Text.Basic

-- Binary floating-point numbers of 64 bits, and the number nearest to a decimal, which is found
-- with exact integers.

namespace ModuleSplit

structure Double where
  bits : UInt64
  deriving DecidableEq, Repr

namespace Double

def ofFloat (f : Float) : Double := ⟨f.toBits⟩

def toFloat (d : Double) : Float := Float.ofBits d.bits

def twoTo (n : Nat) : Nat := Nat.pow 2 n

def tenTo (n : Nat) : Nat := Nat.pow 10 n

def isNegative (d : Double) : Bool := d.bits.toNat ≥ twoTo 63

def exponentField (d : Double) : Nat := d.bits.toNat / twoTo 52 % twoTo 11

def fraction (d : Double) : Nat := d.bits.toNat % twoTo 52

def isFinite (d : Double) : Bool := d.exponentField != 2047

def isNaN (d : Double) : Bool := !d.isFinite && d.fraction != 0

def negated (d : Double) : Double := ⟨d.bits ^^^ 0x8000000000000000⟩

def isZero (d : Double) : Bool := d.exponentField == 0 && d.fraction == 0

-- A finite magnitude is `significand * 2 ^ (binaryExponent - 1074)`.
def significand (d : Double) : Nat :=
  if d.exponentField = 0 then d.fraction else twoTo 52 + d.fraction

def binaryExponent (d : Double) : Nat := d.exponentField - 1

def magnitude (d : Double) : Nat × Nat := (d.significand * twoTo d.binaryExponent, twoTo 1074)

def ofMagnitude (negative : Bool) (bits : Nat) : Double :=
  ⟨UInt64.ofNat (bits + if negative then twoTo 63 else 0)⟩

-- The bits of the magnitude nearest to `num / den`, the even one of two. The exponent is chosen so
-- that the significand has 53 bits, or fewer for the smallest numbers.
def nearest (num den : Nat) : Nat :=
  let scaled := num * twoTo 1074
  let exponent := (scaled / den).log2 - 52
  let unit := den * twoTo exponent
  let below := scaled / unit
  let rest := scaled % unit
  let up := unit < 2 * rest || 2 * rest == unit && below % 2 == 1
  min (exponent * twoTo 52 + below + up.toNat) (2047 * twoTo 52)

-- The number nearest to `digits * 10 ^ shift`. Beyond 10 ^ 400 everything is infinite and below
-- 2 ^ -1399 everything is zero, so that no larger powers are needed.
def ofDecimal (negative : Bool) (digits : Nat) (shift : Int) : Double :=
  let places := (-shift).toNat
  ofMagnitude negative <|
    if digits.log2 + 1400 < 3 * places then 0
    else nearest (digits * tenTo (min shift.toNat 400)) (tenTo places)

def infinity (negative : Bool) : Double := ofMagnitude negative (2047 * twoTo 52)

def nan : Double := ⟨0x7ff8000000000000⟩

def integer? (d : Double) : Option Int :=
  let (num, den) := d.magnitude
  if d.isFinite ∧ num % den = 0 then
    some (if d.isNegative then -(num / den : Nat) else (num / den : Nat))
  else none

-- Exact comparison with an integer; no number compares with NaN.
def isBelow (d : Double) (i : Int) : Bool :=
  if d.isNaN then false
  else if !d.isFinite then d.isNegative
  else
    let (num, den) := d.magnitude
    let signed : Int := if d.isNegative then -(num : Int) else num
    signed < i * den

end Double

end ModuleSplit
