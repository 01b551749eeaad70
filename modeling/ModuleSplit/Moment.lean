import ModuleSplit.Failure

namespace ModuleSplit

structure Moment where
  year : Nat
  month : Nat
  day : Nat
  hour : Nat
  minute : Nat
  second : Nat
  microsecond : Nat
  deriving DecidableEq, Repr

namespace Moment

open Text

def isLeap (year : Nat) : Bool := year % 4 == 0 && (year % 100 != 0 || year % 400 == 0)

def daysIn (year month : Nat) : Nat :=
  if month = 2 then (if isLeap year then 29 else 28)
  else if month = 4 ∨ month = 6 ∨ month = 9 ∨ month = 11 then 30
  else 31

def nextDay (m : Moment) : Moment :=
  if m.day < daysIn m.year m.month then {m with day := m.day + 1}
  else if m.month < 12 then {m with month := m.month + 1, day := 1}
  else {m with year := m.year + 1, month := 1, day := 1}

def previousDay (m : Moment) : Moment :=
  if 1 < m.day then {m with day := m.day - 1}
  else if 1 < m.month then {m with month := m.month - 1, day := daysIn m.year (m.month - 1)}
  else {m with year := m.year - 1, month := 12, day := 31}

def ofEpoch (seconds microseconds : Nat) : Moment :=
  let first : Moment := ⟨1970, 1, 1, 0, 0, 0, 0⟩
  let day := (List.range (seconds / 86400)).foldl (fun m _ => m.nextDay) first
  {day with
    hour := seconds / 3600 % 24
    minute := seconds / 60 % 60
    second := seconds % 60
    microsecond := microseconds}

def inRange (m : Moment) : Bool := 1 ≤ m.year && m.year ≤ 9999

def back (m : Moment) (offset : Int) : Moment :=
  let minutes : Int := m.hour * 60 + m.minute - offset
  let time := (minutes % 1440).toNat
  let moved := if minutes < 0 then m.previousDay else if minutes < 1440 then m else m.nextDay
  {moved with hour := time / 60, minute := time % 60}

def toUniversal (m : Moment) (offset : Int) : Result Moment :=
  let moved := m.back offset
  if moved.inRange then .ok moved else .error .dateOutOfRange

def digits (width n : Nat) : Text := padLeft width '0' (ofNat n)

def dateText (m : Moment) : Text :=
  joinWith "-" [digits 4 m.year, digits 2 m.month, digits 2 m.day]

def secondsText (colon : String) (m : Moment) : Text :=
  m.dateText ++ ['T'] ++ joinWith colon [digits 2 m.hour, digits 2 m.minute, digits 2 m.second]

def text (m : Moment) : Text :=
  m.secondsText ":" ++ if m.microsecond = 0 then [] else '.' :: digits 6 m.microsecond

def universalText (m : Moment) : Text := m.text ++ "+00:00".toList

def stamp (m : Moment) : Text :=
  m.secondsText "-" ++ ['-'] ++ digits 3 (m.microsecond / 1000) ++ ['Z']

end Moment

end ModuleSplit
