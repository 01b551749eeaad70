import ModuleSplit.Data.Numeral
import ModuleSplit.Data.Value
import ModuleSplit.Data.Yaml.Tag

namespace ModuleSplit.Base64

def digit? (c : Char) : Option Nat :=
  if 'A' ≤ c && c ≤ 'Z' then some (c.toNat - 'A'.toNat)
  else if 'a' ≤ c && c ≤ 'z' then some (c.toNat - 'a'.toNat + 26)
  else if '0' ≤ c && c ≤ '9' then some (c.toNat - '0'.toNat + 52)
  else if c = '+' then some 62
  else if c = '/' then some 63
  else none

-- The data digits up to the end, or up to the padding that completes a group. `pads` counts the
-- padding since the last digit.
def digits? (count pads : Nat) : Text → Option (List Nat)
  | [] => if count % 4 = 0 then some [] else none
  | c :: rest =>
    if c = '=' then
      if count % 4 < 2 then digits? count pads rest
      else if count % 4 + pads + 1 ≥ 4 then some []
      else digits? count (pads + 1) rest
    else match digit? c with
      | some d => (digits? (count + 1) 0 rest).map (d :: ·)
      | none => digits? count pads rest

def bytes : List Nat → Bytes
  | a :: b :: c :: d :: rest =>
    (a * 4 + b / 16).toUInt8 :: (b % 16 * 16 + c / 4).toUInt8 :: (c % 4 * 64 + d).toUInt8 :: bytes rest
  | [a, b, c] => [(a * 4 + b / 16).toUInt8, (b % 16 * 16 + c / 4).toUInt8]
  | [a, b] => [(a * 4 + b / 16).toUInt8]
  | _ => []

def decode? (t : Text) : Option Bytes :=
  if t.all (·.toNat < 128) then (digits? 0 0 t).map bytes else none

end ModuleSplit.Base64

namespace ModuleSplit.Yaml.Scalar

open Text

def withoutGaps (t : Text) : Text := t.filter (· != '_')

def integer (base : Nat) (t : Text) : Result Int :=
  (integerIn base t).mapError fun fault => match fault with
    | .malformed => .notInteger base t
    | .tooLong digits => .tooManyDigits digits

def magnitude (t : Text) : Result Int :=
  match t with
  | ['0'] => .ok 0
  | '0' :: 'b' :: rest => integer 2 rest
  | '0' :: 'x' :: rest => integer 16 rest
  | '0' :: _ => integer 8 t
  | [] => .error .noNumber
  | _ =>
    if t.contains ':' then do
      let places ← (splitOn ':' t).mapM (integer 10)
      return places.foldl (fun n place => n * 60 + place) 0
    else integer 10 t

def int (t : Text) : Result Int := do
  let (negative, body) := signed (withoutGaps t)
  let n ← magnitude body
  return if negative then -n else n

def decimal (t : Text) : Result Double :=
  match Double.read? t with
  | some d => .ok d
  | none => .error (.notDecimal t)

def sixtySum (worth : Nat) (sum : Float) : List Double → Result Double
  | [] => .ok (.ofFloat sum)
  | place :: rest =>
    if worth ≥ Double.twoTo 1024 then .error .numberTooLarge
    else sixtySum (worth * 60) (sum + place.toFloat * Float.ofScientific worth false 0) rest

def float (t : Text) : Result Double := do
  let bare := (withoutGaps t).map fun c => Char.ofNat (lowerCode c.toNat)
  if bare.isEmpty then throw .noNumber
  let (negative, body) := signed bare
  if body = ".inf".toList then return .infinity negative
  if body = ".nan".toList then return .nan
  let d ← if body.contains ':' then do
      sixtySum 1 0.0 (← (splitOn ':' body).mapM decimal).reverse
    else decimal body
  return if negative then d.negated else d

def bool (t : Text) : Result Bool :=
  let word := lowerAscii t
  if Looks.isOneOf Looks.trueWords word then .ok true
  else if Looks.isOneOf Looks.falseWords word then .ok false
  else .error .notTruthWord

def timestamp (t : Text) : Result Timestamp := do
  match Timestamp.read? t with
  | none => throw .missingMember
  | some ts =>
    ts.check.mapError .noSuchDate
    return ts

end Scalar

-- What a scalar of a type is worth; `none` for the types of collections and those without a
-- meaning.
def Tag.valueOf? (tag : Tag) (t : Text) : Option (Result Value) :=
  match tag with
  | .null => some (.ok .null)
  | .bool => some (Value.bool <$> Scalar.bool t)
  | .int => some (Value.int <$> Scalar.int t)
  | .float => some (Value.float <$> Scalar.float t)
  | .timestamp => some (Value.time <$> Scalar.timestamp t)
  | .binary => some (match Base64.decode? t with
    | some b => .ok (.bytes b)
    | none => .error .malformed)
  | .text => some (.ok (.text t))
  | _ => none

end ModuleSplit.Yaml
