import ModuleSplit.Moment
import ModuleSplit.Text.Integer

namespace ModuleSplit

structure Day where
  year : Nat
  month : Nat
  day : Nat
  deriving DecidableEq, Repr

inductive Timestamp where
  | day (d : Day)
  -- `offset` is in minutes
  | moment (m : Moment) (offset : Option Int)
  deriving DecidableEq, Repr

namespace Timestamp

open Text

def isBlankSign (c : Char) : Bool := c == ' ' || c == '\t'

def number? (least most : Nat) (t : Text) : Option (Nat × Text) :=
  let run := (t.take most).takeWhile isAsciiDigit
  if least ≤ run.length then some (digitsValue run, t.drop run.length) else none

def sign? (c : Char) : Text → Option Text
  | d :: rest => if d = c then some rest else none
  | [] => none

def isOver (t : Text) : Bool := t.isEmpty || t == ['\n']

def zone? (t : Text) : Option Int :=
  match t with
  | 'Z' :: rest => if isOver rest then some 0 else none
  | c :: rest => do
    if c ≠ '+' ∧ c ≠ '-' then none
    let (hours, rest) ← number? 1 2 rest
    let (minutes, rest) ← match rest with
      | ':' :: more => number? 2 2 more
      | _ => some (0, rest)
    let offset : Int := hours * 60 + minutes
    if isOver rest then some (if c = '-' then -offset else offset) else none
  | [] => none

def microseconds (places : Text) : Nat :=
  let six := places.take 6
  digitsValue (six ++ List.replicate (6 - six.length) '0')

def time? (d : Day) (t : Text) : Option Timestamp := do
  let (hour, rest) ← number? 1 2 t
  let (minute, rest) ← number? 2 2 (← sign? ':' rest)
  let (second, rest) ← number? 2 2 (← sign? ':' rest)
  let (places, rest) := match rest with
    | '.' :: more => (more.takeWhile isAsciiDigit, more.dropWhile isAsciiDigit)
    | _ => ([], rest)
  let m : Moment := ⟨d.year, d.month, d.day, hour, minute, second, microseconds places⟩
  if isOver rest then return .moment m none
  return .moment m (some (← zone? (rest.dropWhile isBlankSign)))

def read? (t : Text) : Option Timestamp := do
  let (year, rest) ← number? 4 4 t
  let (month, rest) ← number? 1 2 (← sign? '-' rest)
  let (dayOfMonth, rest) ← number? 1 2 (← sign? '-' rest)
  let d : Day := ⟨year, month, dayOfMonth⟩
  if isOver rest then return .day d
  match rest with
  | c :: more =>
    if c = 'T' ∨ c = 't' then time? d more
    else if isBlankSign c then time? d (more.dropWhile isBlankSign)
    else none
  | [] => none

def looksRight (t : Text) : Bool :=
  match read? t with
  | some (.day _) => t.length == 10
  | some (.moment _ _) => true
  | none => false

def require (ok : Bool) (problem : Calendar.Problem) : Except Calendar.Problem PUnit :=
  if ok then .ok ⟨⟩ else .error problem

def checkDay (year month day : Nat) : Except Calendar.Problem PUnit := do
  require (1 ≤ year && year ≤ 9999) (.year year)
  require (1 ≤ month && month ≤ 12) .month
  require (1 ≤ day && day ≤ Moment.daysIn year month) .day

def check : Timestamp → Except Calendar.Problem PUnit
  | .day d => checkDay d.year d.month d.day
  | .moment m offset => do
    if let some minutes := offset then
      require (-1440 < minutes && minutes < 1440) (.offset minutes)
    checkDay m.year m.month m.day
    require (m.hour < 24) .hour
    require (m.minute < 60) .minute
    require (m.second < 60) .second

def universal : Timestamp → Timestamp
  | .moment m (some offset) => .moment (m.back offset) (some 0)
  | t => t

def offsetText (minutes : Int) : Text :=
  (if minutes < 0 then '-' else '+') ::
    (Moment.digits 2 (minutes.natAbs / 60) ++ ':' :: Moment.digits 2 (minutes.natAbs % 60))

def shown : Timestamp → Text
  | .day d => joinWith "-" [Moment.digits 4 d.year, Moment.digits 2 d.month, Moment.digits 2 d.day]
  | .moment m offset =>
    m.text.map (fun c => if c = 'T' then ' ' else c) ++ (offset.map offsetText).getD []

def zoneText (minutes : Int) : Text :=
  if minutes = 0 then "datetime.timezone.utc".toList
  else "datetime.timezone(".toList ++ Calendar.spanText minutes ++ [')']

def inspect : Timestamp → Text
  | .day d =>
    "datetime.date(".toList ++ joinWith ", " ([d.year, d.month, d.day].map ofNat) ++ [')']
  | .moment m offset =>
    let seconds := if m.microsecond = 0 then (if m.second = 0 then [] else [m.second])
      else [m.second, m.microsecond]
    let numbers := [m.year, m.month, m.day, m.hour, m.minute] ++ seconds
    let zone := match offset with
      | some minutes => ", tzinfo=".toList ++ zoneText minutes
      | none => []
    "datetime.datetime(".toList ++ joinWith ", " (numbers.map ofNat) ++ zone ++ [')']

end Timestamp

end ModuleSplit
