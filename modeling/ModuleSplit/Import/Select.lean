import ModuleSplit.Import.Basic
import ModuleSplit.Text.Class

namespace ModuleSplit

open Text

def referencesFrom (name : Text) (afterIdent : Bool) (t : Text) : Bool :=
  (!afterIdent && match after? name t with
    | some (c :: _) => !isIdentChar c
    | some [] => true
    | none => false) ||
  match t with
  | [] => false
  | c :: rest => referencesFrom name (isIdentChar c) rest

def references (name t : Text) : Bool := referencesFrom name false t

namespace Import

-- Only the bindings in `used`; nothing when none of them is bound here. An import that keeps all of
-- its names keeps its text.
def narrow (i : Import) (used : List Text) : Option Import :=
  let kept := {i with
    defaultName := i.defaultName.filter used.contains
    namespaceName := i.namespaceName.filter used.contains
    specifiers := i.specifiers.filter fun s => used.contains s.asName}
  if kept.isSideEffect then none
  else if kept.names = i.names then some i
  else some {kept with raw := kept.render}

def needed (text : Text) (retain : List Text) (i : Import) : Option Import :=
  i.narrow (i.names.filter fun name => retain.contains name || references name text)

def withoutRepeats : List Import → List Import
  | [] => []
  | i :: rest =>
    i :: (withoutRepeats rest).filter fun j => j.toImportContent ≠ i.toImportContent

-- Imports that bind nothing are never among those that a text needs.
def select (table : List Import) (text : Text) (retain : List Text) : List Import :=
  withoutRepeats ((table.filter (!·.isSideEffect)).filterMap (needed text retain))

end Import

namespace ModuleName

-- Relative module names as seen from a directory further down.
def pushStep (steps : List Text) (step : Text) : List Text :=
  if step.isEmpty || step = ['.'] then steps
  else if step = "..".toList then
    match steps with
    | last :: rest => if last = "..".toList then step :: steps else rest
    | [] => [step]
  else step :: steps

def normalize (steps : List Text) : Text :=
  match (steps.foldl pushStep []).reverse with
  | [] => ['.']
  | shortest => joinWith "/" shortest

def rebase (depth : Nat) (name : Text) : Text :=
  if depth = 0 || !startsWith name "." then name
  else normalize (List.replicate depth "..".toList ++ splitOn '/' name)

end ModuleName

namespace Import

def rebase (depth : Nat) (i : Import) : Import :=
  let source := ModuleName.rebase depth i.source
  if source = i.source then i
  else {i with
    source := source
    raw := Text.replaceFirst (quoted i.quote i.source) (quoted i.quote source) i.raw}

end Import

def ReExport.rebase (depth : Nat) (r : ReExport) : ReExport :=
  r.withSource (ModuleName.rebase depth r.source)

end ModuleSplit
