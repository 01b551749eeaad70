import ModuleSplit.Tree.Files

-- Storage as a transaction meets it: a tree behind a provider whose calls may be disturbed.

namespace ModuleSplit

inductive CallKind where
  | readBytes
  | writeBytes
  | copy
  | remove
  | makeDirs
  | removeDir
  | «exists»
  | isFile
  deriving DecidableEq, Repr

structure Call where
  kind : CallKind
  path : Path
  deriving DecidableEq, Repr

inductive Trouble where
  | error (words : Text)
  | interrupt
  -- other bytes are written than those asked for, or none at all
  | corrupt (bytes : Option Bytes)
  deriving DecidableEq, Repr

abbrev Schedule := List Call → Option Trouble

structure Store where
  tree : Tree
  schedule : Schedule := fun _ => none
  -- newest first
  calls : List Call := []

abbrev StoreM := EStateM Failure Store

namespace Store

def tell (kind : CallKind) (p : Path) : StoreM (Option Trouble) := fun s =>
  let calls := ⟨kind, p⟩ :: s.calls
  .ok (s.schedule calls) {s with calls := calls}

def treeNow : StoreM Tree := fun s => .ok s.tree s

def setTree (t : Tree) : StoreM PUnit := fun s => .ok ⟨⟩ {s with tree := t}

def ofResult {α : Type} : Result α → StoreM α
  | .ok a => pure a
  | .error f => throw f

def undisturbed (kind : CallKind) (p : Path) : StoreM PUnit := do
  match ← tell kind p with
  | some (.error words) => throw (.os (.reported words))
  | some .interrupt => throw .interrupted
  | some (.corrupt _) | none => pure ⟨⟩

def «exists» (p : Path) : StoreM Bool := do
  undisturbed .exists p
  return (← ofResult ((← treeNow).ask p)).isSome

def isFile (p : Path) : StoreM Bool := do
  undisturbed .isFile p
  return match ← ofResult ((← treeNow).ask p) with
    | some (.file _) => true
    | _ => false

def read (p : Path) : StoreM Bytes := do
  undisturbed .readBytes p
  ofResult ((← treeNow).read p)

def writeThrough (p : Path) (bytes : Bytes) : StoreM PUnit := do
  setTree (← ofResult ((← treeNow).write p bytes))

def write (p : Path) (bytes : Bytes) : StoreM PUnit := do
  match ← tell .writeBytes p with
  | some (.error words) => throw (.os (.reported words))
  | some .interrupt => throw .interrupted
  | some (.corrupt (some other)) => writeThrough p other
  | some (.corrupt none) => pure ⟨⟩
  | none => writeThrough p bytes

def copy (source destination : Path) : StoreM PUnit := do
  undisturbed .copy destination
  setTree (← ofResult ((← treeNow).copy source destination))

def remove (p : Path) : StoreM PUnit := do
  undisturbed .remove p
  setTree (← ofResult ((← treeNow).remove p))

def makeDirs (p : Path) : StoreM (List Path) := do
  undisturbed .makeDirs p
  let t ← treeNow
  let missing ← ofResult (t.missing p)
  let (outcome, made) := t.makeDirectories p
  setTree made
  ofResult outcome
  return missing

def removeDir (p : Path) : StoreM PUnit := do
  undisturbed .removeDir p
  setTree (← ofResult ((← treeNow).removeDirectory p))

end Store

-- Disturbs the calls of one kind at one place, or everywhere. The first `skip` of them are let
-- pass, and after `count` of them, if that is given, the rest is let pass too.
structure Fault where
  kind : CallKind
  place : Option Text
  skip : Nat := 0
  count : Option Nat := none
  trouble : Trouble
  deriving DecidableEq, Repr

namespace Fault

def placeOf (root p : Path) : Text :=
  match p.partsBelow? root with
  | some parts => Path.text ⟨.relative, parts⟩
  | none => p.text

def concerns (root : Path) (f : Fault) (c : Call) : Bool :=
  f.kind == c.kind && match f.place with
    | some place => place == placeOf root c.path
    | none => true

def fire (root : Path) (c : Call) : List Fault → Option Trouble × List Fault
  | [] => (none, [])
  | f :: rest =>
    let passed (f : Fault) := let (trouble, rest) := fire root c rest; (trouble, f :: rest)
    if !f.concerns root c then passed f
    else match f.skip, f.count with
      | k + 1, _ => passed {f with skip := k}
      | 0, some 0 => passed f
      | 0, some (n + 1) => (some f.trouble, {f with count := some n} :: rest)
      | 0, none => (some f.trouble, f :: rest)

def after (root : Path) (faults : List Fault) : List Call → List Fault
  | [] => faults
  | c :: earlier => (fire root c (after root faults earlier)).2

def schedule (root : Path) (faults : List Fault) : Schedule
  | [] => none
  | c :: earlier => (fire root c (after root faults earlier)).1

end Fault

end ModuleSplit
