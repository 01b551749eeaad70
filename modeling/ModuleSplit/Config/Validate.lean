import ModuleSplit.Config.Build
import ModuleSplit.Data.Display

namespace ModuleSplit

namespace Value

def mentions (v : Value) (name : String) : Result Bool :=
  match v with
  | .dict entries => .ok (Entries.has entries (.ofString name))
  | .list items => .ok (items.any fun item => item.asText? == some name.toList)
  | .set keys => .ok (keys.contains (.ofString name))
  | .pair a b => .ok ([a, b].any fun item => item.asText? == some name.toList)
  | .text t => .ok (Text.holds t name)
  | _ => .error .wrongType

def lookup (v : Value) (name : String) : Result Value :=
  match v with
  | .dict entries => match Entries.find? entries name with
    | some found => .ok found
    | none => .error .missingMember
  | _ => .error .wrongType

def mentioned? (v : Value) (name : String) : Result (Option Value) := do
  if ← v.mentions name then return some (← v.lookup name) else return none

def isPositiveInt : Value → Bool
  | .int i => 0 < i
  | .bool b => b
  | _ => false

def isTextList : Value → Bool
  | .list items => items.all fun item => item.asText?.isSome
  | _ => false

def isList : Value → Bool
  | .list _ => true
  | _ => false

end Value

namespace Settings

def requireThat (ok : Bool) (problem : ConfigProblem) : Result PUnit :=
  if ok then .ok ⟨⟩ else .error (.config problem)

def checkMentioned (v : Value) (name : String) (ok : Value → Bool) (problem : ConfigProblem) :
    Result PUnit := do
  match ← v.mentioned? name with
  | some found => requireThat (ok found) problem
  | none => return ⟨⟩

def isOneOf (names : List String) (v : Value) : Bool :=
  names.any fun name => v.asText? == some name.toList

def validateSplit (v : Value) : Result PUnit := do
  checkMentioned v "max_lines" Value.isPositiveInt .maxLines
  checkMentioned v "output_mode" (isOneOf (OutputMode.all.map (·.name))) .outputMode
  checkMentioned v "delimiter_mode" (isOneOf (DelimiterMode.all.map (·.name))) .delimiterMode
  checkMentioned v "backup_directory" Value.isTruthy .backupDirectory

def discoveryLists : List String := ["target_directories", "file_extensions", "exclude_patterns"]

def validateExtension (v : Value) : Result PUnit := do
  let shown ← v.display
  requireThat (Text.startsWith shown ".") (.badExtension shown)

def validateDiscovery (v : Value) : Result PUnit := do
  discoveryLists.forM fun name => checkMentioned v name Value.isList (.notList name)
  match v with
  | .dict entries =>
    match Entries.find? entries "file_extensions" with
    | some (.list items) => items.forM validateExtension
    | _ => return ⟨⟩
  | _ => .error .missingMember

def validateClassification : Value → Result PUnit
  | .dict entries =>
    entries.forM fun (key, v) => do
      if !v.isTextList then throw (.config (.notTextList (← key.display)))
  | _ => .error .missingMember

def checkSection (data : Value) (name : String) (check : Value → Result PUnit) : Result PUnit := do
  match ← data.mentioned? name with
  | some v => check v
  | none => return ⟨⟩

def validate (data : Value) : Result PUnit := do
  checkSection data "split" validateSplit
  checkSection data "discovery" validateDiscovery
  checkSection data "classification" validateClassification

def validateSelf (s : Settings) : Result PUnit := do validate (← s.record)

end Settings

end ModuleSplit
