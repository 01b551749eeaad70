import ModuleSplit.Calendar.Timestamp

-- The types of nodes: those that a tag can name, and which of them a plain scalar has by its
-- looks.

namespace ModuleSplit.Yaml

inductive Tag where
  | null
  | bool
  | int
  | float
  | timestamp
  | binary
  | text
  -- takes in the entries of another mapping
  | merge
  -- the value that a mapping stands for
  | default
  | sequence
  | mapping
  | set
  | orderedMapping
  | pairs
  -- a tag without a meaning here
  | other
  deriving DecidableEq, Repr

namespace Tag

def lead : Text := "tag:yaml.org,2002:".toList

def names : List (String × Tag) :=
  [("null", .null), ("bool", .bool), ("int", .int), ("float", .float), ("timestamp", .timestamp),
    ("binary", .binary), ("str", .text), ("merge", .merge), ("value", .default), ("seq", .sequence),
    ("map", .mapping), ("set", .set), ("omap", .orderedMapping), ("pairs", .pairs)]

def named (t : Text) : Tag :=
  match Text.after? lead t with
  | some name => (names.lookup (String.ofList name)).getD .other
  | none => .other

end Tag

namespace Looks

open Text

def trueWords : List String := ["yes", "Yes", "YES", "true", "True", "TRUE", "on", "On", "ON"]

def falseWords : List String := ["no", "No", "NO", "false", "False", "FALSE", "off", "Off", "OFF"]

def nullWords : List String := ["", "~", "null", "Null", "NULL"]

def isOneOf (words : List String) (t : Text) : Bool := words.any fun w => w.toList = t

def unsigned (t : Text) : Text := (signed t).2

def isDigitOrGap (c : Char) : Bool := isAsciiDigit c || c == '_'

def isHexOrGap (c : Char) : Bool := (hexValue? c).isSome || c == '_'

def isOctalOrGap (c : Char) : Bool := ('0' ≤ c && c ≤ '7') || c == '_'

def isRunOf (p : Char → Bool) (t : Text) : Bool := !t.isEmpty && t.all p

def isSixtyPart (t : Text) : Bool :=
  match t with
  | [d] => isAsciiDigit d
  | [tens, d] => '0' ≤ tens && tens ≤ '5' && isAsciiDigit d
  | _ => false

def hasSixtyParts (first : Char → Bool) (t : Text) : Bool :=
  match splitOn ':' t with
  | lead :: part :: parts =>
    (match lead with
      | c :: rest => first c && rest.all isDigitOrGap
      | [] => false) && (part :: parts).all isSixtyPart
  | _ => false

def isNonzeroDigit (c : Char) : Bool := '1' ≤ c && c ≤ '9'

def isInt (t : Text) : Bool :=
  match unsigned t with
  | ['0'] => true
  | '0' :: 'b' :: rest => isRunOf (fun c => c == '0' || c == '1' || c == '_') rest
  | '0' :: 'x' :: rest => isRunOf isHexOrGap rest
  | '0' :: rest => isRunOf isOctalOrGap rest
  | c :: rest =>
    isNonzeroDigit c && (rest.all isDigitOrGap || hasSixtyParts isNonzeroDigit (c :: rest))
  | [] => false

def isExponent (t : Text) : Bool :=
  match t with
  | [] => true
  | e :: sign :: rest =>
    (e == 'e' || e == 'E') && (sign == '-' || sign == '+') && isRunOf isAsciiDigit rest
  | _ => false

def isPointed (t : Text) : Bool :=
  match cut '.' t with
  | (lead, some tail) =>
    (match lead with
      | c :: rest => isAsciiDigit c && rest.all isDigitOrGap
      | [] => false) && isExponent (tail.dropWhile isDigitOrGap)
  | _ => false

def isSixtyPointed (t : Text) : Bool :=
  match cut '.' t with
  | (lead, some tail) => hasSixtyParts isAsciiDigit lead && tail.all isDigitOrGap
  | _ => false

def isFloat (t : Text) : Bool :=
  let u := unsigned t
  isPointed u || isSixtyPointed u || isOneOf [".inf", ".Inf", ".INF"] u ||
    isOneOf [".nan", ".NaN", ".NAN"] t ||
    (match t with
      | '.' :: d :: rest => isAsciiDigit d && isExponent (rest.dropWhile isDigitOrGap)
      | _ => false)

end Looks

open Looks in
def Tag.ofLooks (t : Text) : Tag :=
  if isOneOf trueWords t || isOneOf falseWords t then .bool
  else if isFloat t then .float
  else if isInt t then .int
  else if t = "<<".toList then .merge
  else if isOneOf nullWords t then .null
  else if Timestamp.looksRight t then .timestamp
  else if t = "=".toList then .default
  else if isOneOf ["!", "&", "*"] t then .other
  else .text

end ModuleSplit.Yaml
