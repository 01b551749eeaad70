import ModuleSplit.Config.Settings

-- Settings from environment variables. A variable that is empty or cannot be read counts as not
-- set.

namespace ModuleSplit.Environment

inductive Kind where
  | integer
  | outputMode
  | delimiterMode
  | text
  | textList
  deriving DecidableEq, Repr

structure Variable where
  name : String
  group : String
  key : String
  kind : Kind

def known : List Variable := [
  ⟨"AUTOREFACTOR_MAX_LINES", "split", "max_lines", .integer⟩,
  ⟨"AUTOREFACTOR_OUTPUT_MODE", "split", "output_mode", .outputMode⟩,
  ⟨"AUTOREFACTOR_DELIMITER_MODE", "split", "delimiter_mode", .delimiterMode⟩,
  ⟨"AUTOREFACTOR_BACKUP_DIR", "split", "backup_directory", .text⟩,
  ⟨"AUTOREFACTOR_TARGET_DIRECTORIES", "discovery", "target_directories", .textList⟩,
  ⟨"AUTOREFACTOR_FILE_EXTENSIONS", "discovery", "file_extensions", .textList⟩,
  ⟨"AUTOREFACTOR_EXCLUDE_PATTERNS", "discovery", "exclude_patterns", .textList⟩]

def textList (t : Text) : List Text :=
  ((Text.splitOn ',' t).map Text.trim).filter (!·.isEmpty)

def read? (kind : Kind) (raw : Text) : Option Value :=
  match kind with
  | .integer => (Text.integer? raw).map .int
  | .outputMode =>
    (OutputMode.named? (Text.lowerAscii (Text.trim raw))).map fun m => .ofString m.name
  | .delimiterMode =>
    (DelimiterMode.named? (Text.lowerAscii (Text.trim raw))).map fun m => .ofString m.name
  | .text => some (.text raw)
  | .textList => some (.texts (textList raw))

def assign (data : Entries) (v : Variable) (value : Value) : Entries :=
  let old := match Entries.find? data v.group with
    | some (.dict entries) => entries
    | _ => []
  Entries.put data (.ofString v.group) (.dict (Entries.put old (.ofString v.key) value))

def config (get : String → Option Text) : Entries :=
  known.foldl (fun data v =>
    match get v.name with
    | none | some [] => data
    | some raw =>
      match read? v.kind raw with
      | some value => assign data v value
      | none => data) []

end ModuleSplit.Environment
