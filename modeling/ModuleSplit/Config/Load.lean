import ModuleSplit.Config.Environment
import ModuleSplit.Data.Value
import ModuleSplit.Config.Validate
import ModuleSplit.Data.Json.Reader
import ModuleSplit.Data.Yaml.Reader
import ModuleSplit.Data.Yaml.Writer
import ModuleSplit.Tree.Files

namespace ModuleSplit

namespace Tree

def existsAs (t : Tree) (name : Text) : Bool :=
  match (Text.splitOn '/' name).getLast? with
  | some last =>
    if name.isEmpty then false
    else if Path.isPart last then t.exists (.ofText name)
    else t.isDirectory (.ofText name)
  | none => false

def writeAs (t : Tree) (name : Text) (bytes : Bytes) : Result Tree := do
  let p := Path.ofText name
  let refused (cause : OsCause) : Result Tree := .error (.os (.at cause name))
  accept p
  match (Text.splitOn '/' name).getLast? with
  | none => refused .notFound
  | some last =>
    if name.isEmpty then refused .notFound
    else if Path.isPart last then
      (t.write p bytes).mapError fun e => match e with
        | .os (.at cause _) => .os (.at cause name)
        | other => other
    else match t.find p, t.locate p with
      | .ok (.file _), _ => refused .notDirectory
      | .ok _, _ => refused .isDirectory
      | .error cause, .error _ => refused cause
      | .error cause, .ok _ => refused (if last.isEmpty then .isDirectory else cause)

end Tree

namespace Settings

open Text

def defaultNames : List Text :=
  [".auto-refactor.json", ".auto-refactor.yaml", ".auto-refactor.yml",
    "auto-refactor.json"].map String.toList

def nameBelow (base name : Text) : Text :=
  if startsWith name "/" then name
  else if base.isEmpty || endsWith base "/" then base ++ name
  else base ++ '/' :: name

def findFile (t : Tree) (names : List Text) (base : Text) : Option Text :=
  ((if names.isEmpty then defaultNames else names).map (nameBelow base)).find? t.existsAs

def isYamlName (name : Text) : Bool := endsWith name ".yaml" || endsWith name ".yml"

def asFormatProblem : Failure → Failure
  | .malformed => .config .badFormat
  | f => f

def decodeYaml (bytes : Bytes) : Result Value := do
  let (t, damage) := Utf8.readStream bytes
  let v ← (Yaml.read t (damage.map .decode)).mapError asFormatProblem
  return if v.isTruthy then v else .dict []

def decodeJson (bytes : Bytes) : Result Value := do
  let t ← (Encoding.utf8.decodeFile bytes).mapError .decode
  (Json.read (plainNewlines t)).mapError asFormatProblem

def readEntries (t : Tree) (name : Text) : Result Entries := do
  if !t.existsAs name then throw (.config (.notFound name))
  match t.find (.ofText name) with
  | .ok (.file bytes) =>
    match ← (if isYamlName name then decodeYaml bytes else decodeJson bytes) with
    | .dict entries => return entries
    | _ => throw (.config (.notMapping name))
  | .ok _ => throw (.config (.unreadable (.at .isDirectory name)))
  | .error cause => throw (.config (.unreadable (.at cause name)))

structure Origin where
  file : Option Text := none
  base : Text := []
  environment : String → Option Text := fun _ => none
  useEnvironment : Bool := true
  check : Bool := true

def load (t : Tree) (o : Origin) : Result Settings := do
  let fromFile ← match o.file.filter (!·.isEmpty) with
    | some name => readEntries t name
    | none => match findFile t [] o.base with
      | some name => readEntries t name
      | none => .ok []
  let fromEnvironment := if o.useEnvironment then Environment.config o.environment else []
  let merged ← Entries.mergeAll [.dict fromFile, .dict fromEnvironment]
  if o.check then validate (.dict merged)
  ofEntries merged

inductive Format where
  | json
  | yaml
  deriving DecidableEq, Repr

def Format.named (t : Text) : Format := if lowerAscii t = "yaml".toList then .yaml else .json

def writeYaml (v : Value) : Text × Option Failure :=
  if v.holdsTooLong then ([], some .integerTooLong)
  else match v with
    | .dict entries => (Yaml.write entries, none)
    | _ => ([], some .wrongType)

-- The written form, and why it is not complete: writing stops at a value without a form.
def Format.write (f : Format) (v : Value) : Text × Option Failure :=
  match f with
  | .yaml => writeYaml v
  | .json => match Json.prettyUntilRefused? v with
    | some (t, refusal) => (t, some refusal)
    | none => (Json.pretty v, none)

def asUnsaved : Failure → Failure
  | .os e => .config (.unsaved e)
  | f => f

def saveBy (s : Settings) (f : Format) (write : Tree → Bytes → Result Tree) : TreeM PUnit := do
  let (text, refusal) := f.write (← TreeM.ofResult s.record)
  let written := write (← get) (Utf8.encode text)
  set (← TreeM.ofResult (written.mapError asUnsaved))
  if let some f := refusal then throw f

def save (s : Settings) (name : Text) (f : Format) : TreeM PUnit := s.saveBy f (·.writeAs name)

end Settings

end ModuleSplit
