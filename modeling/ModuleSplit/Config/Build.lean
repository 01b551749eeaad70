import ModuleSplit.Config.Settings
import ModuleSplit.Data.Display

-- Settings from structured data and back. Unknown keys are ignored; known ones replace the
-- default.

namespace ModuleSplit

def Value.members : Value → Result (List Value)
  | .list items => .ok items
  | .text t => .ok (t.map fun c => .text [c])
  | .dict entries => .ok (entries.map (·.1.toValue))
  | .set keys => .ok (keys.map (·.toValue))
  | .pair a b => .ok [a, b]
  | .bytes b => .ok (b.map fun byte => .ofNat byte.toNat)
  | _ => .error .wrongType

def settingName : Key → Result Text
  | .text t => .ok t
  | _ => .error .wrongType

def outlineOf : Value → Outline
  | .dict [] => .empty
  | _ => .broken

def listOutline (old : Outline) (name : Text) : Result Outline :=
  match Reserved.named? name with
  | some .kind | some .contents => .error .wrongType
  | some .link => .error .missingMember
  | some .outline => .ok .broken
  | some .idle | none => .ok old

def isReserved (name : Text) : Bool := (Reserved.named? name).isSome

namespace SplitSettings

def readOutputMode : Value → Result (Choice OutputMode)
  | .text t => match OutputMode.named? t with
    | some mode => .ok (.known mode)
    | none => .error (.badChoice t "OutputMode")
  | v => .ok (.other v)

def readDelimiterMode : Value → Result (Choice DelimiterMode)
  | .text t => match DelimiterMode.named? t with
    | some mode => .ok (.known mode)
    | none => .error (.badChoice t "DelimiterMode")
  | v => .ok (.other v)

def place (s : SplitSettings) (name : Text) (v : Value) : SplitSettings :=
  if name = "max_lines".toList then {s with maxLines := v}
  else if name = "output_mode".toList then {s with outputMode := .other v}
  else if name = "delimiter_mode".toList then {s with delimiterMode := .other v}
  else if name = "backup_directory".toList then {s with backupDirectory := v}
  else if name = "overwrite_existing".toList then {s with overwriteExisting := v}
  else if name = "encoding".toList then {s with encoding := v}
  else if Reserved.named? name = some .outline then {s with outline := outlineOf v}
  else s

def ofContents (entries : Entries) : SplitSettings :=
  entries.foldl (fun s (k, v) => match k with
    | .text name => s.place name v
    | _ => s) {}

def assignReserved (s : SplitSettings) (r : Reserved) (v : Value) : Result SplitSettings :=
  match r, v with
  | .kind, _ => .error .wrongType
  | .link, _ => .error .missingMember
  | .contents, .dict entries => .ok (ofContents entries)
  | .contents, _ => .error .wrongType
  | .outline, v => .ok {s with outline := outlineOf v}
  | .idle, _ => .ok s

def assign (s : SplitSettings) (key : Key) (v : Value) : Result SplitSettings := do
  let name ← settingName key
  if name = "max_lines".toList then return {s with maxLines := v}
  else if name = "output_mode".toList then return {s with outputMode := ← readOutputMode v}
  else if name = "delimiter_mode".toList then return {s with delimiterMode := ← readDelimiterMode v}
  else if name = "backup_directory".toList then return {s with backupDirectory := v}
  else if name = "overwrite_existing".toList then return {s with overwriteExisting := v}
  else if name = "encoding".toList then return {s with encoding := v}
  else match Reserved.named? name with
    | some r => s.assignReserved r v
    | none => return s

def toValue (s : SplitSettings) : Result Value :=
  match s.outline, s.outputMode, s.delimiterMode with
  | .whole, .known output, .known delimiter =>
    .ok (.object [
      ("max_lines", s.maxLines),
      ("output_mode", .ofString output.name),
      ("delimiter_mode", .ofString delimiter.name),
      ("backup_directory", s.backupDirectory),
      ("overwrite_existing", s.overwriteExisting),
      ("encoding", s.encoding)])
  | .empty, .known output, .known delimiter =>
    .ok (.object [
      ("output_mode", .ofString output.name),
      ("delimiter_mode", .ofString delimiter.name)])
  | _, _, _ => .error .missingMember

def givenValues (s : SplitSettings) : List Value :=
  let given {α : Type} : Choice α → List Value
    | .other v => [v]
    | .known _ => []
  if s.outline = .whole then
    [s.maxLines, s.backupDirectory, s.overwriteExisting, s.encoding] ++ given s.outputMode ++
      given s.delimiterMode
  else []

end SplitSettings

namespace ClassificationSettings

def assign (s : ClassificationSettings) (key : Key) (v : Value) :
    Result ClassificationSettings := do
  let name ← settingName key
  if name = "main_role_suffixes".toList then return {s with mainRoleSuffixes := ← v.members}
  else if name = "component_type_annotations".toList then
    return {s with componentTypeAnnotations := ← v.members}
  else if name = "component_wrappers".toList then return {s with componentWrappers := ← v.members}
  else if name = "markup_patterns".toList then return {s with markupPatterns := ← v.members}
  else if isReserved name then
    let _ ← v.members
    return {s with outline := ← listOutline s.outline name}
  else return s

def toValue (s : ClassificationSettings) : Result Value :=
  if s.outline = .whole then
    .ok (.object [
      ("main_role_suffixes", .list s.mainRoleSuffixes),
      ("component_type_annotations", .list s.componentTypeAnnotations),
      ("component_wrappers", .list s.componentWrappers),
      ("markup_patterns", .list s.markupPatterns)])
  else .error .missingMember

end ClassificationSettings

namespace DiscoverySettings

def assign (s : DiscoverySettings) (key : Key) (v : Value) : Result DiscoverySettings := do
  let name ← settingName key
  if name = "target_directories".toList then return {s with targetDirectories := ← v.members}
  else if name = "file_extensions".toList then return {s with fileExtensions := ← v.members}
  else if name = "exclude_patterns".toList then return {s with excludePatterns := ← v.members}
  else if isReserved name then
    let _ ← v.members
    return {s with outline := ← listOutline s.outline name}
  else return s

def toValue (s : DiscoverySettings) : Result Value :=
  if s.outline = .whole then
    .ok (.object [
      ("target_directories", .list s.targetDirectories),
      ("file_extensions", .list s.fileExtensions),
      ("exclude_patterns", .list s.excludePatterns)])
  else .error .missingMember

end DiscoverySettings

namespace Settings

def sectionEntries (data : Entries) (name : String) : Result Entries :=
  match Entries.find? data name with
  | none => .ok []
  | some (.dict entries) => .ok entries
  | some _ => .error .missingMember

def assignAll {σ : Type} (assign : σ → Key → Value → Result σ) (start : σ) (entries : Entries) :
    Result σ :=
  entries.foldlM (fun s (key, v) => assign s key v) start

def ofEntries (data : Entries) : Result Settings := do
  let split ← assignAll SplitSettings.assign {} (← sectionEntries data "split")
  let classification ←
    assignAll ClassificationSettings.assign {} (← sectionEntries data "classification")
  let discovery ← assignAll DiscoverySettings.assign {} (← sectionEntries data "discovery")
  return {split := split, classification := classification, discovery := discovery}

def ofValue : Value → Result Settings
  | .dict entries => ofEntries entries
  | _ => .error .missingMember

def toValue (s : Settings) : Result Value := do
  return .object [
    ("split", ← s.split.toValue),
    ("classification", ← s.classification.toValue),
    ("discovery", ← s.discovery.toValue)]

-- The settings are copied, which has no end for a value that holds itself.
def record (s : Settings) : Result Value := do
  if s.split.givenValues.any (·.holdsItself) then throw .tooDeep
  let v ← s.toValue
  if v.holdsItself then throw .tooDeep else return v

def modeName {α : Type} (name : α → String) (c : Choice α) : Result Text :=
  match c.known? with
  | some mode => .ok (name mode).toList
  | none => .error .missingMember

def commaList (items : List Value) : Result Text := do
  let texts ← items.mapM fun item => match item with
    | .text t => .ok t
    | _ => .error .wrongType
  return Text.joinWith ", " texts

def summary (s : Settings) : Result Text := do
  let maxLines ← s.split.maxLines.display
  let output ← modeName OutputMode.name s.split.outputMode
  let delimiter ← modeName DelimiterMode.name s.split.delimiterMode
  let backups ← s.split.backupDirectory.display
  let suffixes ← commaList s.classification.mainRoleSuffixes
  let wrappers ← commaList s.classification.componentWrappers
  let targets ← (Value.list s.discovery.targetDirectories).display
  let extensions ← (Value.list s.discovery.fileExtensions).display
  let line (label : String) (t : Text) : Text := ("  - " ++ label ++ ": ").toList ++ t
  return Text.unlines [
    "autorefactor Configuration Summary:".toList,
    "Split:".toList,
    line "Max lines" maxLines,
    line "Output mode" output,
    line "Delimiter mode" delimiter,
    line "Backup directory" backups,
    [],
    "Classification:".toList,
    line "Main role suffixes" suffixes,
    line "Component wrappers" wrappers,
    [],
    "Discovery:".toList,
    line "Target directories" targets,
    line "File extensions" extensions,
    line "Exclude patterns" (Text.ofNat s.discovery.excludePatterns.length ++ " patterns".toList),
    []]

end Settings

end ModuleSplit
