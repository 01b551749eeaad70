import ModuleSplit.Data.Numeral
import ModuleSplit.Data.Value

namespace ModuleSplit.Json

def isSpace (c : Char) : Bool := c == ' ' || c == '\t' || c == '\n' || c == '\r'

def skipSpace (t : Text) : Text := t.dropWhile isSpace

def hex4? : Text → Option (Nat × Text)
  | a :: b :: c :: d :: rest => do
    let a ← Text.hexValue? a
    let b ← Text.hexValue? b
    let c ← Text.hexValue? c
    let d ← Text.hexValue? d
    return (((a * 16 + b) * 16 + c) * 16 + d, rest)
  | _ => none

def simpleEscape? : Char → Option Char
  | '"' => some '"'
  | '\\' => some '\\'
  | '/' => some '/'
  | 'b' => some '\x08'
  | 'f' => some '\x0c'
  | 'n' => some '\n'
  | 'r' => some '\r'
  | 't' => some '\t'
  | _ => none

def isHighSurrogate (n : Nat) : Bool := 0xd800 ≤ n && n < 0xdc00

def isLowSurrogate (n : Nat) : Bool := 0xdc00 ≤ n && n < 0xe000

def unitChar (n : Nat) : Char := if 0xd800 ≤ n && n < 0xe000 then '�' else Char.ofNat n

def escapedUnit? (t : Text) : Option (Char × Text) := do
  let (n, rest) ← hex4? t
  if isHighSurrogate n then
    match rest with
    | '\\' :: 'u' :: more =>
      let (m, tail) ← hex4? more
      if isLowSurrogate m then
        return (Char.ofNat (0x10000 + (n - 0xd800) * 0x400 + (m - 0xdc00)), tail)
      else return (unitChar n, rest)
    | _ => return (unitChar n, rest)
  else return (unitChar n, rest)

def stringBody (fuel : Nat) (t : Text) : Option (Text × Text) :=
  match fuel, t with
  | 0, _ => none
  | _, [] => none
  | _ + 1, '"' :: rest => some ([], rest)
  | fuel + 1, '\\' :: 'u' :: rest => do
    let (c, rest) ← escapedUnit? rest
    let (cs, tail) ← stringBody fuel rest
    return (c :: cs, tail)
  | fuel + 1, '\\' :: e :: rest => do
    let c ← simpleEscape? e
    let (cs, tail) ← stringBody fuel rest
    return (c :: cs, tail)
  | fuel + 1, c :: rest =>
    if c.toNat < 0x20 || c == '\\' then none
    else do
      let (cs, tail) ← stringBody fuel rest
      return (c :: cs, tail)

def orMalformed {α : Type} : Option α → Result α
  | some a => .ok a
  | none => .error .malformed

def number (t : Text) : Result (Value × Text) := do
  let (negative, body) := match t with
    | '-' :: rest => (true, rest)
    | _ => (false, t)
  let (n, rest) ← orMalformed (Numeral.read? body)
  if n.isWhole then
    let i : Int := Text.digitsValue n.whole
    if Text.isTooLong i then throw (.tooManyDigits n.whole.length)
    return (.int (if negative then -i else i), rest)
  else return (.float (n.toDouble negative), rest)

def word? (t : Text) : Option (Value × Text) :=
  let word (name : String) (v : Value) := (Text.dropLead? name t).map fun rest => (v, rest)
  word "null" .null <|> word "true" (.bool true) <|> word "false" (.bool false) <|>
    word "NaN" (.float Double.nan) <|> word "Infinity" (.float (Double.infinity false)) <|>
    word "-Infinity" (.float (Double.infinity true))

mutual

-- Every nested call reads at least one character, so the length of the text is fuel enough.
def value (fuel : Nat) (t : Text) : Result (Value × Text) :=
  match fuel with
  | 0 => .error .malformed
  | fuel + 1 =>
    match t with
    | '"' :: rest => do
      let (s, rest) ← orMalformed (stringBody (rest.length + 1) rest)
      return (.text s, rest)
    | '[' :: rest => do
      match skipSpace rest with
      | ']' :: tail => return (.list [], tail)
      | body =>
        let (vs, rest) ← items fuel body
        return (.list vs, rest)
    | '{' :: rest => do
      match skipSpace rest with
      | '}' :: tail => return (.dict [], tail)
      | body =>
        let (ms, rest) ← members fuel body
        return (.dict (Entries.ofPairs ms), rest)
    | _ => match word? t with
      | some read => .ok read
      | none => number t

def items (fuel : Nat) (t : Text) : Result (List Value × Text) :=
  match fuel with
  | 0 => .error .malformed
  | fuel + 1 => do
    let (v, rest) ← value fuel t
    match skipSpace rest with
    | ',' :: more =>
      let (vs, tail) ← items fuel (skipSpace more)
      return (v :: vs, tail)
    | ']' :: tail => return ([v], tail)
    | _ => throw .malformed

def members (fuel : Nat) (t : Text) : Result (List (Key × Value) × Text) :=
  match fuel with
  | 0 => .error .malformed
  | fuel + 1 =>
    match t with
    | '"' :: rest => do
      let (name, rest) ← orMalformed (stringBody (rest.length + 1) rest)
      match skipSpace rest with
      | ':' :: more =>
        let (v, rest) ← value fuel (skipSpace more)
        match skipSpace rest with
        | ',' :: more =>
          let (ms, tail) ← members fuel (skipSpace more)
          return ((.text name, v) :: ms, tail)
        | '}' :: tail => return ([(.text name, v)], tail)
        | _ => throw .malformed
      | _ => throw .malformed
    | _ => .error .malformed

end

def read (t : Text) : Result Value := do
  let (v, rest) ← value (2 * t.length + 2) (skipSpace t)
  if (skipSpace rest).isEmpty then return v else throw .malformed

end ModuleSplit.Json
