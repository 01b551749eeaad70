import ModuleSplit.Block.Scan
import ModuleSplit.Classification.Classify
import ModuleSplit.Import.Reader
import ModuleSplit.Import.Select
import ModuleSplit.Plan.Basic

-- From a source file to its plan: every block goes to exactly one place.

namespace ModuleSplit

open Text Phrase

inductive Placement where
  | sideEffect (i : Import)
  | binding (i : Import)
  | reexport (r : ReExport)
  -- entries of a list of exports, with the line it starts at
  | aliases (entries : List Specifier) (line : Nat)
  | body (b : Block)
  deriving DecidableEq, Repr

namespace Block

def asStatement (b : Block) : Block :=
  {start := b.start, stop := b.stop, kind := .statement, text := b.text, names := b.names}

def placeImport (b : Block) : Placement :=
  match Import.read? b.text with
  | some i => if i.isSideEffect then .sideEffect i else .binding i
  | none => match ReExport.read? b.text with
    | some r => .reexport r
    | none => .body b.asStatement

-- A local list of exports, unless it may hold the default export.
def exportAliases? (b : Block) : Option (List Specifier) :=
  if b.kind = .statement ∧ Declaration.isExportList b.firstLine ∧
      (findWord? asDefault? b.text).isNone then
    ExportList.read? b.text
  else none

def place (b : Block) : Placement :=
  if b.kind = .import_ then b.placeImport
  else match b.exportAliases? with
    | some entries => .aliases entries (b.start + 1)
    | none => .body b

end Block

namespace Placement

def sideEffect? : Placement → Option Import
  | .sideEffect i => some i
  | _ => none

def binding? : Placement → Option Import
  | .binding i => some i
  | _ => none

def reexport? : Placement → Option ReExport
  | .reexport r => some r
  | _ => none

def body? : Placement → Option Block
  | .body b => some b
  | _ => none

def aliasLines : Placement → List (Specifier × Nat)
  | .aliases entries line => entries.map fun entry => (entry, line)
  | _ => []

end Placement

namespace Plan

def mostFrequent (cs : List Char) (fallback : Char) : Char :=
  cs.foldl (fun best c => if cs.count best < cs.count c then c else best) (cs.head?.getD fallback)

def dominantQuote (imports : List Import) (reexports : List ReExport) : Char :=
  mostFrequent (imports.map (·.quote) ++ reexports.map (·.quote)) '\''

def dominantSemicolons (imports : List Import) (reexports : List ReExport) : Bool :=
  let ending := (imports.filter (·.semicolon)).length + reexports.length
  ending * 2 ≥ imports.length + reexports.length

-- Markup needs this name in scope although it does not mention it.
def markupNames : List Text := ["React".toList]

def makeGroup (p : Patterns) (mode : DelimiterMode) (table : List Import) (category : Category)
    (blocks : List Block) : Result Group := do
  let bare : Group := ⟨category, blocks, []⟩
  let markup ← p.containsMarkup (codeText mode bare.text)
  return {bare with imports := Import.select table bare.text (if markup then markupNames else [])}

def makeGroups (p : Patterns) (mode : DelimiterMode) (table : List Import)
    (classified : List (Block × Category)) : Result (List Group) :=
  Category.all.filterMapM fun category =>
    match (classified.filter (·.2 = category)).map (·.1) with
    | [] => .ok none
    | blocks => do return some (← makeGroup p mode table category blocks)

inductive AliasOutcome where
  | covered
  | kept (entry : Specifier)
  | unknown (warning : Warning)
  deriving DecidableEq, Repr

def resolveAlias (declared imported : List Text) (entry : Specifier) (line : Nat) : AliasOutcome :=
  if entry.name = entry.asName ∧ declared.contains entry.name then .covered
  else if declared.contains entry.name || imported.contains entry.name then .kept entry
  else .unknown ⟨line, .unknownExport entry.name⟩

def build (source : Source) (p : Patterns) (mode : DelimiterMode) : Result Plan := do
  let scanned := scan p mode source.lines
  let defaultName := DefaultExport.name? p source.text
  let placed := scanned.blocks.map (·.place)
  let table := Import.withoutRepeats (placed.filterMap (·.binding?))
  let reexports := placed.filterMap (·.reexport?)
  let (classified, missed) ← classify p mode defaultName (placed.filterMap (·.body?))
  let groups ← makeGroups p mode table classified
  let plan : Plan :=
    { source := source
      groups := groups
      importTable := table
      sideEffectImports := placed.filterMap (·.sideEffect?)
      reexports := reexports
      defaultName := defaultName
      hasDefaultExport := DefaultExport.occurs source.text
      quote := dominantQuote table reexports
      semicolons := dominantSemicolons table reexports }
  let imported := table.flatMap (·.names)
  let outcomes := (placed.flatMap (·.aliasLines)).map fun (entry, line) =>
    resolveAlias plan.declaredNames imported entry line
  return {plan with
    exportAliases := outcomes.filterMap fun outcome => match outcome with
      | .kept entry => some entry
      | _ => none
    warnings := scanned.warnings ++ missed ++ outcomes.filterMap fun outcome => match outcome with
      | .unknown warning => some warning
      | _ => none}

end Plan

end ModuleSplit
