import ModuleSplit.Text.Basic

-- Patterns for file names: a star for any text, a question mark for any character, brackets for
-- one of several.

namespace ModuleSplit

inductive GlobPart where
  | star
  | any
  | one (c : Char)
  -- none of the characters and ranges, if negated, else one of them
  | set (negated : Bool) (chars : Text) (ranges : List (Char × Char))
  deriving DecidableEq, Repr

namespace Glob

def hyphenFrom (least : Nat) (t : Text) : Option Nat :=
  ((t.drop least).findIdx? (· == '-')).map (· + least)

-- The inside of brackets cut at the hyphens that make a range. The first character, and the one
-- behind a range, are never such a hyphen.
def chunks (least : Nat) (t : Text) : List Text :=
  match h : hyphenFrom least t with
  | none => [t]
  | some k => t.take k :: chunks 2 (t.drop (k + 1))
termination_by t.length
decreasing_by
  have found : (t.drop least).findIdx? (· == '-') ≠ none := by
    intro absent
    simp [hyphenFrom, absent] at h
  have nonempty : t ≠ [] := by
    intro empty
    simp [empty] at found
  have positive : 0 < t.length := List.length_pos_iff.mpr nonempty
  simp only [List.length_drop]
  omega

def closeChunks : List Text → List Text
  | [] => []
  | [last, []] => [last ++ ['-']]
  | chunk :: rest => chunk :: closeChunks rest

def dropEmptyRanges : List Text → List Text
  | [] => []
  | chunk :: rest =>
    match dropEmptyRanges rest with
    | [] => [chunk]
    | next :: more =>
      match chunk.getLast?, next.head? with
      | some low, some high =>
        if high < low then (chunk.dropLast ++ next.drop 1) :: more else chunk :: next :: more
      | _, _ => chunk :: next :: more

def rangesOf : List Text → List (Char × Char)
  | chunk :: next :: rest =>
    (match chunk.getLast?, next.head? with
      | some low, some high => [(low, high)]
      | _, _ => []) ++ rangesOf (next :: rest)
  | _ => []

def bracketPart (inside : Text) : GlobPart :=
  let (negated, body) := match inside with
    | '!' :: body => (true, body)
    | body => (false, body)
  let pieces := dropEmptyRanges (closeChunks (chunks 1 body))
  .set negated pieces.flatten (rangesOf pieces)

def bracket? (t : Text) : Option (Text × Text) :=
  let lead := match t with
    | '!' :: ']' :: _ => 2
    | '!' :: _ => 1
    | ']' :: _ => 1
    | _ => 0
  let inside := t.take lead ++ (t.drop lead).takeWhile (· != ']')
  match t.drop inside.length with
  | _ :: rest => some (inside, rest)
  | [] => none

def read (skip : Nat) : Text → List GlobPart
  | [] => []
  | c :: rest =>
    match skip with
    | k + 1 => read k rest
    | 0 =>
      if c = '*' then .star :: read 0 rest
      else if c = '?' then .any :: read 0 rest
      else if c = '[' then
        match bracket? rest with
        | some (inside, _) => bracketPart inside :: read (inside.length + 1) rest
        | none => .one c :: read 0 rest
      else .one c :: read 0 rest

def accepts (part : GlobPart) (c : Char) : Bool :=
  match part with
  | .star | .any => true
  | .one d => c == d
  | .set negated chars ranges =>
    (chars.contains c || ranges.any fun (low, high) => low ≤ c && c ≤ high) != negated

def matchesParts (parts : List GlobPart) (t : Text) : Bool :=
  match parts, t with
  | [], [] => true
  | [], _ :: _ => false
  | .star :: more, [] => matchesParts more []
  | .star :: more, c :: rest => matchesParts more (c :: rest) || matchesParts (.star :: more) rest
  | _ :: _, [] => false
  | part :: more, c :: rest => accepts part c && matchesParts more rest
termination_by parts.length + t.length

def isMatch (name pattern : Text) : Bool := matchesParts (read 0 pattern) name

end Glob

end ModuleSplit
