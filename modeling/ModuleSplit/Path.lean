import ModuleSplit.Text.Class

namespace ModuleSplit

inductive PathRoot where
  | relative
  | slash
  | doubleSlash
  deriving DecidableEq, Repr

structure Path where
  root : PathRoot
  parts : List Text
  deriving DecidableEq, Repr

namespace Path

def rootText : PathRoot → Text
  | .relative => []
  | .slash => ['/']
  | .doubleSlash => ['/', '/']

def readRoot (t : Text) : PathRoot :=
  match (t.takeWhile (· == '/')).length with
  | 0 => .relative
  | 2 => .doubleSlash
  | _ => .slash

def isPart (t : Text) : Bool := !t.isEmpty && t != ['.']

def ofText (t : Text) : Path := ⟨readRoot t, (Text.splitOn '/' t).filter isPart⟩

def ofString (s : String) : Path := ofText s.toList

def text (p : Path) : Text :=
  match p.root, p.parts with
  | .relative, [] => ['.']
  | root, parts => rootText root ++ List.intercalate ['/'] parts

def shown (p : Path) : String := String.ofList p.text

def isAbsolute (p : Path) : Bool := p.root != .relative

def join (p q : Path) : Path := if q.isAbsolute then q else ⟨p.root, p.parts ++ q.parts⟩

def child (p : Path) (name : Text) : Path := p.join (ofText name)

def parent (p : Path) : Path := ⟨p.root, p.parts.dropLast⟩

def name (p : Path) : Text := p.parts.getLast?.getD []

def pointIndex (name : Text) : Option Nat :=
  match name.reverse.findIdx? (· == '.') with
  | none => none
  | some fromEnd =>
    let i := name.length - 1 - fromEnd
    if 0 < i && fromEnd > 0 then some i else none

def suffix (p : Path) : Text :=
  match pointIndex p.name with
  | some i => p.name.drop i
  | none => []

def stem (p : Path) : Text :=
  match pointIndex p.name with
  | some i => p.name.take i
  | none => p.name

def allParts (p : Path) : List Text :=
  match p.root with
  | .relative => p.parts
  | root => rootText root :: p.parts

def partsBelow? (p base : Path) : Option (List Text) :=
  if p.root = base.root then base.parts.isPrefixOf? p.parts else none

def comparePartLists : List Text → List Text → Ordering
  | [], [] => .eq
  | [], _ :: _ => .lt
  | _ :: _, [] => .gt
  | a :: as, b :: bs =>
    match Text.compare a b with
    | .eq => comparePartLists as bs
    | o => o

def le (p q : Path) : Bool := comparePartLists p.allParts q.allParts != .gt

end Path

end ModuleSplit
