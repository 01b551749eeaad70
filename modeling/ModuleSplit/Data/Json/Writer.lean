import ModuleSplit.Data.Numeral
import ModuleSplit.Data.Value

-- Writing JSON in ASCII: everything beyond it is escaped as UTF-16 units.

namespace ModuleSplit.Json

def hexDigit (n : Nat) : Char := if n < 10 then Char.ofNat (48 + n) else Char.ofNat (87 + n)

def unitEscape (n : Nat) : Text :=
  ['\\', 'u', hexDigit (n / 4096 % 16), hexDigit (n / 256 % 16), hexDigit (n / 16 % 16),
    hexDigit (n % 16)]

def escapeChar (c : Char) : Text :=
  match c with
  | '"' => ['\\', '"']
  | '\\' => ['\\', '\\']
  | '\n' => ['\\', 'n']
  | '\r' => ['\\', 'r']
  | '\t' => ['\\', 't']
  | '\x08' => ['\\', 'b']
  | '\x0c' => ['\\', 'f']
  | c =>
    let n := c.toNat
    if 0x20 ≤ n && n ≤ 0x7e then [c]
    else if n < 0x10000 then unitEscape n
    else unitEscape (0xd800 + (n - 0x10000) / 0x400) ++ unitEscape (0xdc00 + (n - 0x10000) % 0x400)

def quote (t : Text) : Text := '"' :: t.flatMap escapeChar ++ ['"']

def floatText (d : Double) : Text :=
  if d.isNaN then "NaN".toList
  else if !d.isFinite then (if d.isNegative then "-Infinity" else "Infinity").toList
  else d.finiteText

def keyText : Key → Text
  | .text t => t
  | .null => "null".toList
  | .bool b => (if b then "true" else "false").toList
  | .int i => Text.ofInt i
  | .float d => floatText d
  | .time _ | .bytes _ => []

structure Style where
  inner : Nat → Text
  outer : Nat → Text
  colon : Text

def indented : Style where
  inner depth := '\n' :: List.replicate (2 * (depth + 1)) ' '
  outer depth := '\n' :: List.replicate (2 * depth) ' '
  colon := [':', ' ']

def compact : Style where
  inner _ := []
  outer _ := []
  colon := [':']

mutual

def write (style : Style) (depth : Nat) : Value → Text
  | .null => "null".toList
  | .bool b => (if b then "true" else "false").toList
  | .int i => Text.ofInt i
  | .float d => floatText d
  | .text t => quote t
  | .time _ | .bytes _ | .set _ | .enclosing _ _ => []
  | .pair a b =>
    ['['] ++ style.inner depth ++ write style (depth + 1) a ++ [','] ++ style.inner depth ++
      write style (depth + 1) b ++ style.outer depth ++ [']']
  | .list [] => ['[', ']']
  | .list (v :: vs) =>
    ['['] ++ style.inner depth ++ write style (depth + 1) v ++ writeItems style depth vs ++
      style.outer depth ++ [']']
  | .dict [] => ['{', '}']
  | .dict ((k, v) :: es) =>
    ['{'] ++ style.inner depth ++ quote (keyText k) ++ style.colon ++ write style (depth + 1) v ++
      writeMembers style depth es ++ style.outer depth ++ ['}']

def writeItems (style : Style) (depth : Nat) : List Value → Text
  | [] => []
  | v :: vs =>
    [','] ++ style.inner depth ++ write style (depth + 1) v ++ writeItems style depth vs

def writeMembers (style : Style) (depth : Nat) : List (Key × Value) → Text
  | [] => []
  | (k, v) :: es =>
    [','] ++ style.inner depth ++ quote (keyText k) ++ style.colon ++ write style (depth + 1) v ++
      writeMembers style depth es

end

abbrev Stop := Text × Failure

def Stop.behind (lead : Text) (s : Stop) : Stop := (lead ++ s.1, s.2)

def keyRefusal? : Key → Option Failure
  | .time _ | .bytes _ => some .wrongType
  | .int i => if Text.isTooLong i then some .integerTooLong else none
  | _ => none

def isLongInt : Value → Bool
  | .int i => Text.isTooLong i
  | _ => false

mutual

def stop? (style : Style) (depth : Nat) : Value → Option Stop
  | .int i => if Text.isTooLong i then some ([], .integerTooLong) else none
  | .time _ | .bytes _ | .set _ | .enclosing _ _ => some ([], .wrongType)
  | .pair a b =>
    let first := ['['] ++ style.inner depth
    if isLongInt a then some ([], .integerTooLong)
    else match stop? style (depth + 1) a with
      | some s => some (Stop.behind first s)
      | none =>
        let written := first ++ write style (depth + 1) a
        if isLongInt b then some (written, .integerTooLong)
        else (stop? style (depth + 1) b).map (Stop.behind (written ++ [','] ++ style.inner depth))
  | .list (v :: vs) =>
    let first := ['['] ++ style.inner depth
    if isLongInt v then some ([], .integerTooLong)
    else match stop? style (depth + 1) v with
      | some s => some (Stop.behind first s)
      | none => (stopInItems? style depth vs).map (Stop.behind (first ++ write style (depth + 1) v))
  | .dict ((k, v) :: es) =>
    let first := ['{'] ++ style.inner depth
    let named := first ++ quote (keyText k) ++ style.colon
    match keyRefusal? k, stop? style (depth + 1) v with
    | some f, _ => some (first, f)
    | none, some s => some (Stop.behind named s)
    | none, none =>
      (stopInMembers? style depth es).map (Stop.behind (named ++ write style (depth + 1) v))
  | _ => none

def stopInItems? (style : Style) (depth : Nat) : List Value → Option Stop
  | [] => none
  | v :: vs =>
    let first := [','] ++ style.inner depth
    if isLongInt v then some ([], .integerTooLong)
    else match stop? style (depth + 1) v with
      | some s => some (Stop.behind first s)
      | none => (stopInItems? style depth vs).map (Stop.behind (first ++ write style (depth + 1) v))

def stopInMembers? (style : Style) (depth : Nat) : List (Key × Value) → Option Stop
  | [] => none
  | (k, v) :: es =>
    let named := [','] ++ style.inner depth ++ quote (keyText k) ++ style.colon
    match keyRefusal? k, stop? style (depth + 1) v with
    | some f, _ => some ([], f)
    | none, some s => some (Stop.behind named s)
    | none, none =>
      (stopInMembers? style depth es).map (Stop.behind (named ++ write style (depth + 1) v))

end

def pretty (v : Value) : Text := write indented 0 v

def prettyUntilRefused? (v : Value) : Option Stop := stop? indented 0 v

def oneLine (v : Value) : Text := write compact 0 v

end ModuleSplit.Json
