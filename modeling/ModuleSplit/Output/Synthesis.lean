import ModuleSplit.Import.Select
import ModuleSplit.Output.Draft
import ModuleSplit.Output.Layout

-- The texts of all output files: one for each category, an index that gathers their exports, and a
-- replacement for the source that forwards to the index, so that whoever imports the source keeps
-- working.

namespace ModuleSplit

structure OutputFile where
  path : Path
  text : Text
  deriving DecidableEq, Repr

structure Synthesis where
  layout : Layout
  -- in the order of writing
  files : List OutputFile := []
  replacement : Text := []
  namedExports : List (Path × List Text) := []
  mainName : Option Text := none
  hasDefaultExport : Bool := false
  deriving DecidableEq, Repr

def Synthesis.isEmpty (s : Synthesis) : Bool := s.files.isEmpty

structure Style where
  quote : Char
  semicolons : Bool
  deriving DecidableEq, Repr

def Plan.style (p : Plan) : Style := ⟨p.quote, p.semicolons⟩

namespace Style

open Text

def ending (s : Style) : Text := if s.semicolons then [';'] else []

def moduleText (s : Style) (name : Text) : Text := Import.quoted s.quote name ++ s.ending

def fromModule (s : Style) (name : Text) : Text := "from ".toList ++ s.moduleText name

def braced (t : Text) : Text := "\x7b ".toList ++ t ++ " \x7d".toList

def importLine (s : Style) (source : Text) (default? : Option Text) (names : List Text) : Text :=
  let parts := default?.toList ++ if names.isEmpty then [] else [braced (joinWith ", " names)]
  "import ".toList ++
    if parts.isEmpty then s.moduleText source
    else joinWith ", " parts ++ [' '] ++ s.fromModule source

end Style

namespace Plan

open Text

def taken (p : Plan) (d other : Draft) (seen : List Text) : Option Text × List Text :=
  let names := other.named.filter fun n => !seen.contains n && references n d.body
  let default? := p.defaultName.filter fun n =>
    other.holdsDefault && !(seen ++ names).contains n && references n d.body
  (default?, names)

def siblingImports (p : Plan) (l : Layout) (d : Draft) (seen : List Text) : List Draft → List Text
  | [] => []
  | other :: rest =>
    if other.category = d.category then p.siblingImports l d seen rest
    else
      let (default?, names) := p.taken d other seen
      let later := p.siblingImports l d (seen ++ names ++ default?.toList) rest
      if default?.isNone ∧ names = [] ∧ d.category ≠ .main then later
      else p.style.importLine (l.categoryModule other.category) default? names :: later

def categoryText (p : Plan) (l : Layout) (drafts : List Draft) (d : Draft) : Text :=
  let imports := d.group.imports.map (fun i => (i.rebase l.importDepth).raw) ++
    p.siblingImports l d d.group.declaredNames drafts
  (if imports.isEmpty then [] else unlines imports ++ "\n\n".toList) ++ d.body ++ ['\n']

def mainDraft? (drafts : List Draft) : Option Draft := drafts.find? (·.category = .main)

def mainName? (p : Plan) (l : Layout) (drafts : List Draft) : Option Text := do
  let main ← mainDraft? drafts
  if main.holdsDefault then return p.defaultName.getD (Layout.identifierFor l.baseName)
  main.group.blocks.findSome? fun b => b.name?.filter (!·.isEmpty)

def aliasLine? (p : Plan) (l : Layout) (drafts : List Draft) (entry : Specifier) : Option Text :=
  let exportWord := (if entry.typeOnly then "export type " else "export ").toList
  match drafts.find? (·.declares entry.name) with
  | some d =>
    some (exportWord ++ Style.braced entry.render ++ [' '] ++
      p.style.fromModule (l.categoryModule d.category))
  | none =>
    match p.importTable.find? (·.names.contains entry.name) with
    | none => none
    | some i =>
      let tail := [' '] ++ p.style.fromModule (i.rebase l.importDepth).source
      if i.namespaceName = some entry.name then
        some ("export * as ".toList ++ entry.asName ++ tail)
      else
        let imported := if i.defaultName = some entry.name then "default".toList
          else ((i.specifiers.find? (·.asName = entry.name)).map (·.name)).getD entry.name
        some (exportWord ++ Style.braced (Specifier.render ⟨imported, entry.asName, false⟩) ++ tail)

def defaultElsewhere? (drafts : List Draft) : Option Category :=
  (drafts.find? fun d => d.holdsDefault && d.category ≠ .main).map (·.category)

def exportOrder (drafts : List Draft) : List Category :=
  (drafts.map (·.category)).filter (· ≠ .main) ++
    (mainDraft? drafts).toList.map (·.category)

def indexHasDefault (p : Plan) (l : Layout) (drafts : List Draft) : Bool :=
  (defaultElsewhere? drafts).isSome || (p.mainName? l drafts).isSome

def mainImport (p : Plan) (l : Layout) (drafts : List Draft) : List Text :=
  match mainDraft? drafts, p.mainName? l drafts with
  | some main, some name =>
    let source := l.categoryModule .main
    [if main.holdsDefault then p.style.importLine source (some name) []
      else p.style.importLine source none [name]]
  | _, _ => []

def mainExports (p : Plan) (l : Layout) (drafts : List Draft) : List Text :=
  match p.mainName? l drafts with
  | none => []
  | some name =>
    (if drafts.any (·.named.contains name) then []
      else ["export ".toList ++ Style.braced name ++ p.style.ending]) ++
    if (defaultElsewhere? drafts).isSome then []
    else ["export default ".toList ++ name ++ p.style.ending]

def forwardDefault (s : Style) (source : Text) : Text :=
  "export ".toList ++ Style.braced "default".toList ++ [' '] ++ s.fromModule source

def forwardAll (s : Style) (source : Text) : Text := "export * ".toList ++ s.fromModule source

def indexLines (p : Plan) (l : Layout) (drafts : List Draft) : List Text :=
  p.sideEffectImports.map (fun i => (i.rebase l.importDepth).raw) ++
    p.mainImport l drafts ++
    p.reexports.map (fun r => (r.rebase l.importDepth).raw) ++
    (exportOrder drafts).map (fun c => forwardAll p.style (l.categoryModule c)) ++
    p.mainExports l drafts ++
    (defaultElsewhere? drafts).toList.map (fun c => forwardDefault p.style (l.categoryModule c)) ++
    p.exportAliases.filterMap (p.aliasLine? l drafts)

def replacementLines (p : Plan) (l : Layout) (drafts : List Draft) : List Text :=
  forwardAll p.style l.indexModule ::
    if p.indexHasDefault l drafts then [forwardDefault p.style l.indexModule] else []

def closedLines (ls : List Text) : Text := unlines ls ++ ['\n']

def synthesize (p : Plan) (mode : OutputMode) : Synthesis :=
  let l : Layout := ⟨p.source.path, mode⟩
  if p.isEmpty then {layout := l}
  else
    let drafts := p.groups.map Draft.mk
    { layout := l
      files := drafts.map (fun d => ⟨l.categoryPath d.category, p.categoryText l drafts d⟩) ++
        [⟨l.indexPath, closedLines (p.indexLines l drafts)⟩]
      replacement := closedLines (p.replacementLines l drafts)
      namedExports := drafts.map fun d => (l.categoryPath d.category, d.named)
      mainName := p.mainName? l drafts
      hasDefaultExport := p.indexHasDefault l drafts }

end Plan

end ModuleSplit
