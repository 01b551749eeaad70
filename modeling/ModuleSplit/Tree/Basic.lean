import ModuleSplit.Failure

namespace ModuleSplit

abbrev Location := List Text

inductive Node where
  | file (bytes : Bytes)
  | directory
  -- A link into a directory that is not there: it is listed, but nothing is found behind it and nothing
  -- can be made there.
  | dangling
  deriving DecidableEq, Repr

structure Tree where
  entries : List (Location × Node) := []
  workingDirectory : Location := []
  deriving DecidableEq, Repr

namespace Tree

def get? (t : Tree) (l : Location) : Option Node :=
  if l = [] then some .directory else t.entries.lookup l

def erase (t : Tree) (l : Location) : Tree := {t with entries := t.entries.filter (·.1 ≠ l)}

def put (t : Tree) (l : Location) (n : Node) : Tree :=
  {t with entries := (t.erase l).entries ++ [(l, n)]}

def size (t : Tree) : Nat := t.entries.length

def children (t : Tree) (l : Location) : List (Text × Node) :=
  t.entries.filterMap fun (place, n) =>
    match l.isPrefixOf? place with
    | some [name] => some (name, n)
    | _ => none

-- The most bytes in a name, and those that a path must stay below.
def nameLimit : Nat := 255

def pathLimit : Nat := 4096

def step (t : Tree) (l : Location) (part : Text) : Except OsCause Location :=
  match t.get? l with
  | some .directory =>
    if part = "..".toList then .ok l.dropLast
    else if nameLimit < Utf8.size part then .error .nameTooLong
    else .ok (l ++ [part])
  | some (.file _) => .error .notDirectory
  | some .dangling | none => .error .notFound

def start (t : Tree) (p : Path) : Location := if p.isAbsolute then [] else t.workingDirectory

def locate (t : Tree) (p : Path) : Except OsCause Location :=
  if Utf8.size p.text < pathLimit then p.parts.foldlM t.step (t.start p) else .error .nameTooLong

def resolve (t : Tree) (p : Path) : Path :=
  ⟨.slash, p.parts.foldl (fun l part => if part = "..".toList then l.dropLast else l ++ [part])
    (t.start p)⟩

def find (t : Tree) (p : Path) : Except OsCause Node := do
  match t.get? (← t.locate p) with
  | some .dangling | none => .error .notFound
  | some n => .ok n

def «exists» (t : Tree) (p : Path) : Bool := (t.find p).isOk

def isDirectory (t : Tree) (p : Path) : Bool :=
  match t.find p with
  | .ok .directory => true
  | _ => false

def fault {α : Type} (cause : OsCause) (p : Path) : Result α := .error (.os (.at cause p.text))

def accept (p : Path) : Result Unit :=
  if p.parts.any (·.contains '\x00') then .error .nullInPath else .ok ⟨⟩

-- What a path leads to, if anything. A name that is too long cannot even be asked for.
def ask (t : Tree) (p : Path) : Result (Option Node) :=
  match accept p, t.find p with
  | .error _, _ => .ok none
  | _, .ok n => .ok (some n)
  | _, .error .nameTooLong => fault .nameTooLong p
  | _, .error _ => .ok none

end Tree

end ModuleSplit
