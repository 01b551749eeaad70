import ModuleSplit.Data.Value
import ModuleSplit.Delimiter.Summary

namespace ModuleSplit

inductive OutputMode where
  | sibling
  | directory
  deriving DecidableEq, Repr

namespace OutputMode

def name : OutputMode → String
  | .sibling => "sibling"
  | .directory => "directory"

def all : List OutputMode := [.sibling, .directory]

def named? (t : Text) : Option OutputMode := all.find? fun m => m.name.toList = t

end OutputMode

namespace DelimiterMode

def named? (t : Text) : Option DelimiterMode := all.find? fun m => m.name.toList = t

end DelimiterMode

inductive Choice (α : Type) where
  | known (a : α)
  | other (v : Value)
  deriving Repr

def Choice.known? {α : Type} : Choice α → Option α
  | .known a => some a
  | .other _ => none

-- Does a text end with one of these? A value that is no text cannot be asked.
def endsWithAny (t : Text) : List Value → Result Bool
  | [] => .ok false
  | .text ending :: rest => if ending.isSuffixOf t then .ok true else endsWithAny t rest
  | _ :: _ => .error .wrongType

inductive Outline where
  | whole
  | empty
  | broken
  deriving DecidableEq, Repr

structure SplitSettings where
  maxLines : Value := .int 200
  outputMode : Choice OutputMode := .known .sibling
  delimiterMode : Choice DelimiterMode := .known .literalAware
  backupDirectory : Value := .ofString ".refactor-backups"
  overwriteExisting : Value := .bool false
  encoding : Value := .ofString "utf-8"
  outline : Outline := .whole
  deriving Repr

structure ClassificationSettings where
  -- identifier endings that mark a component as the root view of its file
  mainRoleSuffixes : List Value :=
    ["Page", "Screen", "View", "Layout", "App", "Root", "Container"].map .ofString
  -- expressions for the type annotations of components
  componentTypeAnnotations : List Value :=
    ["(?:React\\.)?FC\\b", "(?:React\\.)?VFC\\b", "(?:React\\.)?FunctionComponent\\b",
      "(?:React\\.)?ComponentType\\b", "NextPage\\b"].map .ofString
  -- functions whose argument is a component body
  componentWrappers : List Value :=
    ["React.memo", "memo", "React.forwardRef", "forwardRef", "observer"].map .ofString
  -- expressions whose presence means that markup is rendered
  markupPatterns : List Value :=
    ["return\\s*\\(\\s*(?:<|$)", "return\\s+<[A-Za-z>]", "=>\\s*\\(?\\s*<[A-Za-z>]",
      "</[A-Za-z][\\w.]*\\s*>", "<[A-Za-z][\\w.]*(?:\\s[^<>]*)?/>", "<>|</>"].map .ofString
  outline : Outline := .whole
  deriving Repr

structure DiscoverySettings where
  targetDirectories : List Value := ["src", "components", "lib", "utils"].map .ofString
  fileExtensions : List Value := [".tsx", ".ts", ".jsx", ".js"].map .ofString
  excludePatterns : List Value :=
    ["node_modules", ".next", "*.test.*", "dist", "build"].map .ofString
  outline : Outline := .whole
  deriving Repr

structure Settings where
  split : SplitSettings := {}
  classification : ClassificationSettings := {}
  discovery : DiscoverySettings := {}
  deriving Repr

namespace SplitSettings

def outputs (s : SplitSettings) : OutputMode :=
  match s.outputMode with
  | .known mode => mode
  | .other _ => .sibling

def delimiters (s : SplitSettings) : DelimiterMode :=
  match s.delimiterMode with
  | .known mode => mode
  | .other _ => .literalAware

end SplitSettings

-- Names that every section answers to besides its settings.
inductive Reserved where
  -- cannot be given a value
  | kind
  -- cannot be given a value either, and says so in another way
  | link
  -- all settings of the section at once
  | contents
  -- which settings are shown
  | outline
  | idle
  deriving DecidableEq, Repr

namespace Reserved

def idleNames : List String :=
  ["annotations", "dataclass_params", "delattr", "dir", "doc", "eq", "format", "ge", "getattribute",
    "getstate", "gt", "hash", "init", "init_subclass", "le", "lt", "match_args", "module", "ne",
    "new", "reduce", "reduce_ex", "repr", "setattr", "sizeof", "str", "subclasshook"]

def names : List (String × Reserved) :=
  [("class", .kind), ("weakref", .link), ("dict", .contents), ("dataclass_fields", .outline)] ++
    idleNames.map fun name => (name, .idle)

def spelled (name : String) : Text := ("__" ++ name ++ "__").toList

def named? (t : Text) : Option Reserved := (names.find? fun (name, _) => spelled name = t).map (·.2)

end Reserved

end ModuleSplit
