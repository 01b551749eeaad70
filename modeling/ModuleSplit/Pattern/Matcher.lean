import ModuleSplit.Pattern.Syntax

-- Backtracking match. What is to follow is a continuation, so the first success in order of
-- preference is the match. Groups are kept as marks, one where a group begins and one where it
-- ends; a failed attempt gives back the marks it leaves, because not every mark it has moved is
-- put back.

namespace ModuleSplit.Pattern

abbrev Marks := List (Option Nat)

namespace Marks

def put (m : Marks) (number place : Nat) : Marks :=
  if number < m.length then m.set number (some place)
  else m ++ List.replicate (number - m.length) none ++ [some place]

def opened (m : Marks) (group place : Nat) : Marks := m.put (2 * group - 2) place

def closed (m : Marks) (group place : Nat) : Marks := m.put (2 * group - 1) place

def ends? (m : Marks) (group : Nat) : Option (Nat × Nat) := do
  let start ← ← m[2 * group - 2]?
  let stop ← ← m[2 * group - 1]?
  return (start, stop)

def span? (m : Marks) (group : Nat) : Option (Nat × Nat) :=
  (m.ends? group).filter fun (start, stop) => start ≤ stop

-- Marks that were not set before an attempt are forgotten when it has failed. Those that were set
-- are put back inside a repetition only.
def afterFailure (before after : Marks) (looping : Bool) : Marks :=
  if looping then before else after.take before.length

def isSound (m : Marks) : Bool :=
  (List.range (m.length / 2)).all fun i => match m.ends? (i + 1) with
    | some (start, stop) => start ≤ stop
    | none => true

end Marks

structure State where
  place : Nat
  marks : Marks := []
  -- inside the body of a repetition
  looping : Bool := false
  deriving DecidableEq, Repr

inductive Outcome where
  | found (s : State)
  | failed (marks : Marks)
  deriving DecidableEq, Repr

abbrev Cont := State → Outcome

namespace State

def fail (s : State) : Outcome := .failed s.marks

def orElse (s : State) (attempt : Cont) (other : Cont) : Outcome :=
  match attempt s with
  | .found t => .found t
  | .failed marks => other {s with marks := s.marks.afterFailure marks s.looping}

end State

abbrev Subject := Array Char

namespace Subject

def isBoundary (t : Subject) (place : Nat) (charset : Charset) : Bool :=
  let word (c : Option Char) := c.any (Category.word.has charset)
  word (if place = 0 then none else t[place - 1]?) != word t[place]?

def atAnchor (t : Subject) (place : Nat) (anchor : Anchor) (charset : Charset) : Bool :=
  match anchor with
  | .textStart => place == 0
  | .textEnd => place == t.size
  | .lineStart => place == 0 || t[place - 1]? == some '\n'
  | .lineEnd => place == t.size || t[place]? == some '\n'
  | .lastLineEnd => place == t.size || (place + 1 == t.size && t[place]? == some '\n')
  | .boundary => t.isBoundary place charset
  -- nowhere in the empty text
  | .noBoundary => !t.isEmpty && !t.isBoundary place charset

def repeatsAt (t : Subject) (charset : Charset) (foldCase : Bool) (start place : Nat) : Nat → Bool
  | 0 => true
  | count + 1 =>
    match t[start]?, t[place]? with
    | some c, some d =>
      (if foldCase then charset.lower c.toNat == charset.lower d.toNat else c == d) &&
        t.repeatsAt charset foldCase (start + 1) (place + 1) count
    | _, _ => false

def run (t : Subject) (accepts : Char → Bool) (place : Nat) : (most : Nat) → Nat
  | 0 => 0
  | most + 1 =>
    if t[place]?.any accepts then t.run accepts (place + 1) most + 1 else 0

def longest (t : Subject) (accepts : Char → Bool) (place : Nat) (most : Option Nat) : Nat :=
  let left := t.size - place
  t.run accepts place (match most with
    | some m => min m left
    | none => left)

end Subject

def isBelow (count : Nat) (most : Option Nat) : Bool := most.all fun m => count < m

def giveBack (k : Cont) (least : Nat) (s : State) : (extra : Nat) → Outcome
  | 0 => s.orElse (fun s => k {s with place := s.place + least}) State.fail
  | extra + 1 =>
    match k {s with place := s.place + least + (extra + 1)} with
    | .found t => .found t
    | .failed marks =>
      giveBack k least {s with marks := s.marks.afterFailure marks s.looping} extra

-- The same from the least number upwards; `steps` bounds how many more can be taken.
def takeMore (t : Subject) (accepts : Char → Bool) (k : Cont) (most : Option Nat) (s : State) :
    (steps : Nat) → (count : Nat) → Outcome
  | 0, count => s.orElse (fun s => k {s with place := s.place + count}) State.fail
  | steps + 1, count =>
    match k {s with place := s.place + count} with
    | .found u => .found u
    | .failed marks =>
      let s := {s with marks := s.marks.afterFailure marks s.looping}
      if isBelow count most && t[s.place + count]?.any accepts then
        takeMore t accepts k most s steps (count + 1)
      else s.fail

def repeatUnit (t : Subject) (accepts : Char → Bool) (least : Nat) (most : Option Nat)
    (greed : Greed) (k : Cont) (s : State) : Outcome :=
  if t.size < s.place + least then s.fail
  else match greed with
    | .greedy =>
      let count := t.longest accepts s.place most
      if count < least then s.fail else giveBack k least s (count - least)
    | .possessive =>
      let count := t.longest accepts s.place most
      if count < least then s.fail else k {s with place := s.place + count}
    | .lazy =>
      if t.longest accepts s.place (some least) < least then s.fail
      else takeMore t accepts k most s (t.size - s.place) least

-- Rounds of a longer body. One more is tried only below the limit and when the last round has
-- moved; `fuel` bounds the rounds, and the required rounds plus the characters left plus two are
-- always enough. What follows the repetition runs as `outer` says.
def repeatGreedy (round : Cont → Cont) (least : Nat) (most : Option Nat) (outer : Bool) (k : Cont) :
    (fuel : Nat) → (count : Nat) → (last : Option Nat) → Cont
  | 0, _, _, s => k {s with looping := outer}
  | fuel + 1, count, last, s =>
    if count < least then
      round (repeatGreedy round least most outer k fuel (count + 1) last) {s with looping := true}
    else if isBelow count most && last != some s.place then
      match round (repeatGreedy round least most outer k fuel (count + 1) (some s.place))
          {s with looping := true} with
      | .found t => .found t
      | .failed _ => k {s with looping := outer}
    else k {s with looping := outer}

def repeatLazy (round : Cont → Cont) (least : Nat) (most : Option Nat) (outer : Bool) (k : Cont) :
    (fuel : Nat) → (count : Nat) → (last : Option Nat) → Cont
  | 0, _, _, s => k {s with looping := outer}
  | fuel + 1, count, last, s =>
    if count < least then
      round (repeatLazy round least most outer k fuel (count + 1) last) {s with looping := true}
    else State.orElse {s with looping := outer} k fun s =>
      if isBelow count most && last != some s.place then
        round (repeatLazy round least most outer k fuel (count + 1) (some s.place))
          {s with looping := true}
      else s.fail

-- Rounds that are never taken back: the required ones must succeed, further ones may fail.
def repeatPossessive (round : Cont → Cont) (least : Nat) (most : Option Nat) :
    (fuel : Nat) → (count : Nat) → (last : Option Nat) → Cont
  | 0, _, _, s => .found s
  | fuel + 1, count, last, s =>
    if count < least then
      match round .found s with
      | .failed marks => .failed marks
      | .found next => repeatPossessive round least most fuel (count + 1) none next
    else if isBelow count most && last != some s.place then
      match round .found s with
      | .failed _ => .found s
      | .found next => repeatPossessive round least most fuel (count + 1) (some s.place) next
    else .found s

def Regex.run (t : Subject) : Regex → Cont → Cont
  | .empty, k, s => k s
  | .set negated items charset foldCase, k, s =>
    if t[s.place]?.any (inSet negated items charset foldCase) then k {s with place := s.place + 1}
    else s.fail
  | .any lineBreakToo, k, s =>
    if t[s.place]?.any (fun c => lineBreakToo || c != '\n') then k {s with place := s.place + 1}
    else s.fail
  | .anchor at_ charset, k, s => if t.atAnchor s.place at_ charset then k s else s.fail
  | .seq first second, k, s => first.run t (fun s => second.run t k s) s
  | .alt first second, k, s =>
    s.orElse (first.run t k) fun s => s.orElse (second.run t k) State.fail
  | .group index body, k, s =>
    body.run t (fun u => k {u with marks := u.marks.closed index u.place})
      {s with marks := s.marks.opened index s.place}
  | .scoped body, k, s => body.run t k s
  | .atomic body, k, s =>
    match body.run t .found s with
    | .failed marks => .failed marks
    | .found u => k {u with looping := s.looping}
  | .repeated body least most greed, k, s =>
    match body.unit? with
    | some accepts => repeatUnit t accepts least most greed k s
    | none =>
      let fuel := least + (t.size - s.place) + 2
      match greed with
      | .greedy => repeatGreedy (fun k s => body.run t k s) least most s.looping k fuel 0 none s
      | .lazy => repeatLazy (fun k s => body.run t k s) least most s.looping k fuel 0 none s
      | .possessive =>
        match repeatPossessive (fun k s => body.run t k s) least most fuel 0 none s with
        | .failed marks => .failed marks
        | .found u => k {u with looping := s.looping}
  | .backref index charset foldCase, k, s =>
    match s.marks.span? index with
    | none => s.fail
    | some (start, stop) =>
      if t.repeatsAt charset foldCase start s.place (stop - start) then
        k {s with place := s.place + (stop - start)}
      else s.fail
  | .ahead wanted body, k, s =>
    match body.run t .found s with
    | .found u => if wanted then k {s with marks := u.marks} else .failed u.marks
    | .failed marks =>
      if wanted then .failed marks
      else k {s with marks := s.marks.afterFailure marks s.looping}
  | .behind wanted width body, k, s =>
    if s.place < width then if wanted then s.fail else k s
    else match body.run t .found {s with place := s.place - width} with
      | .found u => if wanted then k {s with marks := u.marks} else .failed u.marks
      | .failed marks =>
        if wanted then .failed marks
        else k {s with marks := s.marks.afterFailure marks s.looping}
  | .ifGroup index yes no, k, s =>
    if (s.marks.span? index).isSome then yes.run t k s else no.run t k s

namespace Regex

def matchAt (r : Regex) (t : Subject) (place : Nat) : Option State :=
  match r.run t .found {place := place} with
  | .found s => some s
  | .failed _ => none

def firstMatch (r : Regex) (t : Subject) (place : Nat) : (count : Nat) → Option State
  | 0 => r.matchAt t place
  | count + 1 => match r.matchAt t place with
    | some s => some s
    | none => r.firstMatch t (place + 1) count

def matchStart? (r : Regex) (t : Text) : Option State := r.matchAt t.toArray 0

def search? (r : Regex) (t : Text) : Option State :=
  let subject := t.toArray
  r.firstMatch subject 0 subject.size

end Regex

end ModuleSplit.Pattern
