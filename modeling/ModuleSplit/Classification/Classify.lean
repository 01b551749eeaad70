import ModuleSplit.Block.Basic
import ModuleSplit.Classification.DefaultExport
import ModuleSplit.Delimiter.Lexer

namespace ModuleSplit

-- Each has one output file, named for it.
inductive Category where
  | types
  | constants
  | utilities
  | subComponents
  | main
  | other
  deriving DecidableEq, Repr

namespace Category

def name : Category → String
  | .types => "types"
  | .constants => "constants"
  | .utilities => "utils"
  | .subComponents => "components"
  | .main => "main"
  | .other => "other"

def text (c : Category) : Text := c.name.toList

def all : List Category := [.types, .constants, .utilities, .subComponents, .main, .other]

end Category

open Text

namespace Block

def headCode (summaries : List LineSummary) : Text × Text :=
  match (summaries.filter (!·.isBlankCode)).map fun line => trim line.code with
  | [] => ([], [])
  | [first] => (first, [])
  | first :: second :: _ => (first, second)

def isDefaultExport (b : Block) (d : Declaration) (defaultName : Option Text) : Bool :=
  d.isDefault || match defaultName with
    | some name => !name.isEmpty && b.names.contains name
    | none => false

-- For blocks that look like functions. A default export that renders markup is a component even
-- without a name. The main component is the default export, an exported function, or one whose
-- name has a main role.
def componentCategory (b : Block) (d : Declaration) (defaultName : Option Text) (p : Patterns)
    (markup : Bool) : Result Category := do
  if !((← d.isComponent p) || (d.isDefault && markup)) then return .utilities
  if b.isDefaultExport d defaultName || DefaultExport.isExportedFunction b.firstLine then
    return .main
  if ← p.hasRoleSuffix (b.name?.getD []) then return .main
  return .subComponents

-- Imports have no category. `mode` must be the mode that the block was found with.
def category? (b : Block) (defaultName : Option Text) (p : Patterns) (mode : DelimiterMode) :
    Result (Option Category) :=
  match b.kind with
  | .import_ => .ok none
  | .typedef => .ok (some .types)
  | .statement =>
    .ok (some (if DefaultExport.isStatement b.firstLine then .main else .other))
  | kind => do
    let summaries := summarize mode (lines b.text)
    let (first, second) := headCode summaries
    let declaration := Declaration.describe p first second
    let markup ← p.containsMarkup (unlines (summaries.map (·.code)))
    if kind = .constant ∧ !markup then return some .constants
    return some (← b.componentCategory declaration defaultName p markup)

end Block

def quotedHead : Nat := 60

-- The category of every block that has one; those that match no rule are reported.
def classify (p : Patterns) (mode : DelimiterMode) (defaultName : Option Text)
    (blocks : List Block) : Result (List (Block × Category) × List Warning) := do
  let sorted ← blocks.mapM fun b => do return (b, ← b.category? defaultName p mode)
  let classified := sorted.filterMap fun (b, c) => c.map fun c => (b, c)
  let missed := classified.filter (·.2 = .other)
  return (classified, missed.map fun (b, _) =>
    ⟨b.start + 1, .unrecognised (b.firstLine.take quotedHead)⟩)

end ModuleSplit
