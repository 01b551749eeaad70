import ModuleSplit.Tree.Basic

-- Reading and changing a tree. An operation that is refused changes nothing, except that
-- directories made on the way to a refused one stay.

namespace ModuleSplit

namespace Tree

def read (t : Tree) (p : Path) : Result Bytes := do
  accept p
  match t.find p with
  | .ok (.file bytes) => .ok bytes
  | .ok _ => fault .isDirectory p
  | .error cause => fault cause p

def write (t : Tree) (p : Path) (bytes : Bytes) : Result Tree := do
  accept p
  match t.locate p with
  | .error cause => fault cause p
  | .ok l => match t.get? l with
    | some .directory => fault .isDirectory p
    | some .dangling => fault .notFound p
    | some (.file _) | none => .ok (t.put l (.file bytes))

def copy (t : Tree) (source destination : Path) : Result Tree := do
  accept source
  accept destination
  let bytes ← t.read source
  let target := if t.isDirectory destination then destination.child source.name else destination
  t.write target bytes

def remove (t : Tree) (p : Path) : Result Tree := do
  accept p
  match t.locate p with
  | .error cause => fault cause p
  | .ok l => match t.get? l with
    | some .directory => fault .isDirectory p
    | none => fault .notFound p
    | some _ => .ok (t.erase l)

def removeDirectory (t : Tree) (p : Path) : Result Tree := do
  accept p
  match t.locate p with
  | .error cause => fault cause p
  | .ok l => match t.get? l with
    | some .directory =>
      if p.name = "..".toList ∨ t.children l ≠ [] then fault .notEmpty p else .ok (t.erase l)
    | some _ => fault .notDirectory p
    | none => fault .notFound p

def makeDirectory (t : Tree) (p : Path) : Except OsCause Tree := do
  let l ← t.locate p
  match t.get? l with
  | some _ => .error .exists
  | none => .ok (t.put l .directory)

def makeUpward (t : Tree) (root : PathRoot) (parts : List Text) : Result Unit × Tree :=
  let p : Path := ⟨root, parts.reverse⟩
  match t.makeDirectory p, parts with
  | .ok made, _ => (.ok ⟨⟩, made)
  | .error .notFound, _ :: above =>
    match makeUpward t root above with
    | (.error e, made) => (.error e, made)
    | (.ok _, made) =>
      match made.makeDirectory p with
      | .ok all => (.ok ⟨⟩, all)
      | .error cause =>
        (if cause ≠ .notFound ∧ made.isDirectory p then .ok ⟨⟩ else fault cause p, made)
  | .error cause, _ => (if t.isDirectory p then .ok ⟨⟩ else fault cause p, t)

def makeDirectories (t : Tree) (p : Path) : Result Unit × Tree :=
  match accept p with
  | .ok _ => t.makeUpward p.root p.parts.reverse
  | refused => (refused, t)

def missingAbove (t : Tree) (root : PathRoot) : List Text → Result (List Path)
  | [] => do return if (← t.ask ⟨root, []⟩).isSome then [] else [⟨root, []⟩]
  | part :: above => do
    let p : Path := ⟨root, (part :: above).reverse⟩
    if (← t.ask p).isSome then return []
    return (← missingAbove t root above) ++ [p]

def missing (t : Tree) (p : Path) : Result (List Path) := t.missingAbove p.root p.parts.reverse

end Tree

-- Changes to a tree, one after the other.
abbrev TreeM := EStateM Failure Tree

namespace TreeM

def ofResult {α : Type} : Result α → TreeM α
  | .ok a => pure a
  | .error f => throw f

end TreeM

end ModuleSplit
