import ModuleSplit.Text.Basic

namespace ModuleSplit.Terminal.Markup

open Text

inductive Segment where
  | plain (t : Text)
  -- brackets and what is between them, behind so many backslashes
  | mark (backslashes : Nat) (t : Text)
  deriving DecidableEq, Repr

def opensMark (c : Char) : Bool := ('a' ≤ c && c ≤ 'z') || c == '#' || c == '/' || c == '@'

def mark? (t : Text) : Option (Text × Text) :=
  match t with
  | '[' :: c :: rest =>
    if opensMark c then
      let inner := rest.takeWhile fun c => c != ']' && c != '['
      match rest.drop inner.length with
      | ']' :: tail => some ('[' :: c :: inner ++ [']'], tail)
      | _ => none
    else none
  | _ => none

def segmentsFrom (fuel : Nat) (read : Text) (t : Text) : List Segment :=
  let plain := if read.isEmpty then [] else [Segment.plain read.reverse]
  match fuel, t with
  | 0, _ => plain
  | _, [] => plain
  | fuel + 1, c :: rest =>
    let backslashes := t.takeWhile (· == '\\')
    match mark? (t.drop backslashes.length) with
    | some (m, tail) => plain ++ .mark backslashes.length m :: segmentsFrom fuel [] tail
    | none =>
      if backslashes.isEmpty then segmentsFrom fuel (c :: read) rest
      else segmentsFrom fuel (backslashes ++ read) (t.drop backslashes.length)

def segments (t : Text) : List Segment := segmentsFrom (t.length + 1) [] t

def backslash (n : Nat) : Text := List.replicate n '\\'

def escape (t : Text) : Text :=
  let escaped := (segments t).flatMap fun s => match s with
    | .plain p => p
    | .mark n m => backslash (2 * n + 1) ++ m
  if endsWith escaped "\\" && !endsWith escaped "\\\\" then escaped ++ ['\\'] else escaped

def withoutEscapes : Text → Text
  | '\\' :: '[' :: rest => '[' :: withoutEscapes rest
  | c :: rest => c :: withoutEscapes rest
  | [] => []

def shown (t : Text) : Text :=
  (segments t).flatMap fun s => match s with
    | .plain p => withoutEscapes p
    | .mark n m => backslash (n / 2) ++ if n % 2 = 0 then [] else withoutEscapes m

end ModuleSplit.Terminal.Markup
