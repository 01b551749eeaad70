import ModuleSplit.Data.Numeral
import ModuleSplit.Data.Value

namespace ModuleSplit

def Double.shown (d : Double) : Text :=
  if d.isNaN then "nan".toList
  else if !d.isFinite then (if d.isNegative then "-inf" else "inf").toList
  else d.finiteText

def bytesShown (b : Bytes) : Text :=
  let mark := if b.contains 39 && !b.contains 34 then '"' else '\''
  let shown (byte : UInt8) : Text :=
    if byte < 127 then Text.quotedChar mark (Char.ofNat byte.toNat)
    else ['\\', 'x'] ++ Text.hexText 2 byte.toNat
  'b' :: mark :: b.flatMap shown ++ [mark]

def boolShown (b : Bool) : Text := (if b then "True" else "False").toList

namespace Key

def inspect : Key → Text
  | .text t => Text.quoted t
  | .null => "None".toList
  | .bool b => boolShown b
  | .int i => Text.ofInt i
  | .float d => d.shown
  | .time t => t.inspect
  | .bytes b => bytesShown b

def shown : Key → Text
  | .text t => t
  | .time t => t.shown
  | k => k.inspect

def isTooLong : Key → Bool
  | .int i => Text.isTooLong i
  | _ => false

def display (k : Key) : Result Text := if k.isTooLong then .error .integerTooLong else .ok k.shown

end Key

namespace Value

def inspectSet (members : List Key) : Text :=
  if members.isEmpty then "set()".toList
  else ['{'] ++ Text.joinWith ", " (members.map Key.inspect) ++ ['}']

mutual

def inspect : Value → Text
  | .null => "None".toList
  | .bool b => boolShown b
  | .int i => Text.ofInt i
  | .float d => d.shown
  | .text t => Text.quoted t
  | .time t => t.inspect
  | .bytes b => bytesShown b
  | .set members => inspectSet members
  | .pair a b => ['('] ++ a.inspect ++ [',', ' '] ++ b.inspect ++ [')']
  | .enclosing _ isList => if isList then "[...]".toList else "\x7b...\x7d".toList
  | .list [] => ['[', ']']
  | .list (v :: vs) => ['['] ++ v.inspect ++ inspectItems vs ++ [']']
  | .dict [] => ['{', '}']
  | .dict ((k, v) :: es) =>
    ['{'] ++ k.inspect ++ [':', ' '] ++ v.inspect ++ inspectEntries es ++ ['}']

def inspectItems : List Value → Text
  | [] => []
  | v :: vs => [',', ' '] ++ v.inspect ++ inspectItems vs

def inspectEntries : List (Key × Value) → Text
  | [] => []
  | (k, v) :: es => [',', ' '] ++ k.inspect ++ [':', ' '] ++ v.inspect ++ inspectEntries es

end

def shown : Value → Text
  | .text t => t
  | .time t => t.shown
  | v => v.inspect

mutual

def holdsTooLong : Value → Bool
  | .int i => Text.isTooLong i
  | .set members => members.any Key.isTooLong
  | .pair a b => a.holdsTooLong || b.holdsTooLong
  | .list items => itemsHoldTooLong items
  | .dict entries => entriesHoldTooLong entries
  | _ => false

def itemsHoldTooLong : List Value → Bool
  | [] => false
  | v :: rest => v.holdsTooLong || itemsHoldTooLong rest

def entriesHoldTooLong : List (Key × Value) → Bool
  | [] => false
  | (k, v) :: rest => k.isTooLong || v.holdsTooLong || entriesHoldTooLong rest

end

def display (v : Value) : Result Text :=
  if v.holdsTooLong then .error .integerTooLong else .ok v.shown

end Value

end ModuleSplit
