import ModuleSplit.Data.Json.Reader
import ModuleSplit.Data.Json.Writer
import ModuleSplit.Tree.Files

namespace ModuleSplit.Package

open Text

def path (root : Path) : Path := root.child "package.json".toList

def read? (t : Tree) (root : Path) : Result (Option Entries) := do
  match ← t.ask (path root) with
  | some (.file bytes) =>
    let text ← (Encoding.utf8.decodeFile bytes).mapError .decode
    match Json.read text with
    | .ok v => return v.entries?
    | .error .malformed => return none
    | .error f => throw f
  | _ => return none

-- A framework and the dependency that gives it away. The first that is there counts, so those that
-- build on others come first.
def frameworks : List (String × String) :=
  [("nextjs", "next"), ("react", "react"), ("vue", "vue"), ("svelte", "svelte")]

def mapping (package : Entries) (name : String) : Result Entries :=
  match Entries.find? package name with
  | none => .ok []
  | some v =>
    if !v.isTruthy then .ok []
    else match v with
      | .dict entries => .ok entries
      | _ => .error .wrongType

def frameworkOf (package : Entries) : Result Text := do
  let dependencies ← mapping package "dependencies"
  let development ← mapping package "devDependencies"
  let names := (dependencies ++ development).map (·.1)
  match frameworks.find? fun (_, dependency) => names.contains (.ofString dependency) with
  | some (framework, _) => return framework.toList
  | none => return "unknown".toList

def framework (t : Tree) (root : Path) : Result Text := do
  frameworkOf ((← read? t root).getD [])

def scripts : List (String × String) :=
  [("refactor", "autorefactor run"), ("refactor:scan", "autorefactor scan"),
    ("refactor:dry", "autorefactor run --dry")]

def keyOf (v : Value) : Result Key :=
  match v.key? with
  | some k => .ok k
  | none => .error .wrongType

def pairOf (index : Nat) (v : Value) : Result (Key × Value) :=
  match v with
  | .list [k, v] => do return (← keyOf k, v)
  | .list items => .error (.notPair index items.length)
  | .text [k, v] => .ok (.text [k], .text [v])
  | .text t => .error (.notPair index t.length)
  | .dict [(k, _), (v, _)] => .ok (k, v.toValue)
  | .dict entries => .error (.notPair index entries.length)
  | _ => .error .wrongType

def pairsFrom (index : Nat) : List Value → Result (List (Key × Value))
  | [] => .ok []
  | v :: rest => do return (← pairOf index v) :: (← pairsFrom (index + 1) rest)

def merged (pairs : List (Key × Value)) : Entries :=
  pairs.foldl (fun entries (k, v) => Entries.put entries k v) []

def presentScripts (package : Entries) : Result Entries :=
  match Entries.find? package "scripts" with
  | none => .ok []
  | some v =>
    if !v.isTruthy then .ok []
    else match v with
      | .dict entries => .ok entries
      | .list items => do return merged (← pairsFrom 0 items)
      | .text _ => .error (.notPair 0 1)
      | _ => .error .wrongType

def withScripts (package : Entries) : Result (Option Entries) := do
  let present ← presentScripts package
  let lacking := scripts.filter fun (name, _) => !Entries.has present (.ofString name)
  if lacking.isEmpty then return none
  let all := lacking.foldl (fun entries (name, command) =>
    Entries.put entries (.ofString name) (.ofString command)) present
  return some (Entries.put package (.ofString "scripts") (.dict all))

def text (package : Entries) : Text := Json.pretty (.dict package) ++ ['\n']

end ModuleSplit.Package
