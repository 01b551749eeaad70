import ModuleSplit.Proofs.Output.Siblings

-- Nothing is lost between the scan of a source and the output files, and nothing is in them twice:
-- every block of the scan is settled in one place of the plan, and every category file holds the
-- texts of its own blocks, with the word `export` in front at most.

namespace ModuleSplit

open List Text Phrase

inductive Settled (plan : Plan) (b : Block) : Prop where
  | sideEffect (i : Import) (kind : b.kind = .import_) (read : Import.read? b.text = some i)
      (unbound : i.names = []) (kept : i ∈ plan.sideEffectImports)
      (nowhere : plan.blocksAt b.start = [])
  | binding (i j : Import) (kind : b.kind = .import_) (read : Import.read? b.text = some i)
      (bound : i.names ≠ []) (kept : j ∈ plan.importTable)
      (same : j.toImportContent = i.toImportContent) (nowhere : plan.blocksAt b.start = [])
  | reexport (r : ReExport) (kind : b.kind = .import_) (unread : Import.read? b.text = none)
      (read : ReExport.read? b.text = some r) (kept : r ∈ plan.reexports)
      (nowhere : plan.blocksAt b.start = [])
  | statement (kind : b.kind = .import_) (unread : Import.read? b.text = none)
      (local_ : ReExport.read? b.text = none) (kept : plan.blocksAt b.start = [b.asStatement])
  | exportList (entries : List Specifier) (kind : b.kind = .statement)
      (list : Declaration.isExportList b.firstLine = true)
      (noDefault : findWord? asDefault? b.text = none)
      (read : ExportList.read? b.text = some entries) (nowhere : plan.blocksAt b.start = [])
  | body (kind : b.kind ≠ .import_) (kept : plan.blocksAt b.start = [b])

namespace Plan.Parts

variable {source : Source} {p : Patterns} {mode : DelimiterMode} {plan : Plan}
  {classified : List (Block × Category)} {b : Block}

theorem settled_import (parts : Parts source p mode plan classified)
    (member : b ∈ (scan p mode source.lines).blocks) (kind : b.kind = .import_) : Settled plan b := by
  have kept := parts.blocksAt_block member
  have place : b.place = b.placeImport := by simp [Block.place, kind]
  have placed : b.placeImport ∈ placements p mode source := by
    rw [← place]
    exact mem_map_of_mem member
  rw [place] at kept
  cases read : Import.read? b.text with
  | some i =>
    by_cases effect : i.isSideEffect = true
    · have goes : b.placeImport = .sideEffect i := by simp [Block.placeImport, read, effect]
      rw [goes] at kept placed
      refine .sideEffect i kind read (isEmpty_iff.mp effect) ?_ kept
      rw [parts.sideEffects]
      exact mem_filterMap.mpr ⟨_, placed, rfl⟩
    · have goes : b.placeImport = .binding i := by simp [Block.placeImport, read, effect]
      rw [goes] at kept placed
      obtain ⟨j, listed, same⟩ := Import.withoutRepeats_represents (mem_filterMap.mpr ⟨_, placed, rfl⟩ :
          i ∈ (placements p mode source).filterMap (·.binding?))
      rw [← parts.table] at listed
      exact .binding i j kind read (fun none => effect (isEmpty_iff.mpr none)) listed same kept
  | none =>
    cases again : ReExport.read? b.text with
    | some r =>
      have goes : b.placeImport = .reexport r := by simp [Block.placeImport, read, again]
      rw [goes] at kept placed
      refine .reexport r kind read again ?_ kept
      rw [parts.reexports]
      exact mem_filterMap.mpr ⟨_, placed, rfl⟩
    | none =>
      have goes : b.placeImport = .body b.asStatement := by simp [Block.placeImport, read, again]
      rw [goes] at kept
      exact .statement kind read again kept

theorem settled_other (parts : Parts source p mode plan classified)
    (member : b ∈ (scan p mode source.lines).blocks) (kind : b.kind ≠ .import_) : Settled plan b := by
  have kept := parts.blocksAt_block member
  unfold Block.place at kept
  rw [if_neg kind] at kept
  cases list : b.exportAliases? with
  | none =>
    rw [list] at kept
    exact .body kind kept
  | some entries =>
    rw [list] at kept
    unfold Block.exportAliases? at list
    split at list
    · rename_i conditions
      obtain ⟨statement, isList, noDefault⟩ := conditions
      exact .exportList entries statement isList (by simpa using noDefault) list kept
    · cases list

theorem settled (parts : Parts source p mode plan classified)
    (member : b ∈ (scan p mode source.lines).blocks) : Settled plan b := by
  by_cases kind : b.kind = .import_
  · exact parts.settled_import member kind
  · exact parts.settled_other member kind

theorem sideEffectImports_eq (parts : Parts source p mode plan classified) :
    plan.sideEffectImports = (scan p mode source.lines).blocks.filterMap fun b =>
      if b.kind = .import_ then (Import.read? b.text).filter (·.isSideEffect) else none := by
  rw [parts.sideEffects, placements, filterMap_map]
  congr 1
  funext b
  simp only [Function.comp_def, Block.place]
  split
  · unfold Block.placeImport
    cases Import.read? b.text with
    | some i =>
      by_cases effect : i.isSideEffect = true <;> simp [effect, Placement.sideEffect?, Option.filter]
    | none => cases ReExport.read? b.text <;> rfl
  · cases b.exportAliases? <;> rfl

theorem reexports_eq (parts : Parts source p mode plan classified) :
    plan.reexports = (scan p mode source.lines).blocks.filterMap fun b =>
      if b.kind = .import_ ∧ Import.read? b.text = none then ReExport.read? b.text else none := by
  rw [parts.reexports, placements, filterMap_map]
  congr 1
  funext b
  simp only [Function.comp_def, Block.place]
  by_cases kind : b.kind = .import_
  · simp only [kind, if_true, true_and]
    unfold Block.placeImport
    cases Import.read? b.text with
    | some i => by_cases effect : i.isSideEffect = true <;> simp [effect, Placement.reexport?]
    | none => cases ReExport.read? b.text <;> rfl
  · simp only [kind, if_false, false_and]
    cases b.exportAliases? <;> rfl

theorem importTable_origin (parts : Parts source p mode plan classified) {j : Import}
    (listed : j ∈ plan.importTable) : ∃ b ∈ (scan p mode source.lines).blocks,
      b.kind = .import_ ∧ Import.read? b.text = some j ∧ j.names ≠ [] := by
  rw [parts.table] at listed
  obtain ⟨placement, placed, bound⟩ := mem_filterMap.mp (Import.withoutRepeats_subset listed)
  obtain ⟨b, member, rfl⟩ := mem_map.mp placed
  refine ⟨b, member, ?_⟩
  unfold Block.place at bound
  split at bound
  · rename_i kind
    unfold Block.placeImport at bound
    cases read : Import.read? b.text with
    | some i =>
      rw [read] at bound
      dsimp only at bound
      split at bound
      · cases bound
      · rename_i effect
        cases bound
        exact ⟨kind, rfl, fun none => effect (isEmpty_iff.mpr none)⟩
    | none =>
      rw [read] at bound
      dsimp only at bound
      split at bound <;> cases bound
  · split at bound <;> cases bound

end Plan.Parts

theorem scan_block_rest {p : Patterns} {mode : DelimiterMode} {source : List Text} {b : Block}
    (plain : ∀ l ∈ source, '\n' ∉ l) (member : b ∈ (scan p mode source).blocks) : (cut '\n' b.text).2 ≠ some [] := by
  intro ends
  have text := cut_eq '\n' b.text
  rw [ends] at text
  have split := scan_block_lines plain member
  rw [text, lines_append] at split
  obtain ⟨extent, bound, _⟩ := scan_block_extent member
  obtain ⟨line, last, full⟩ := scan_block_last_line member
  have same := linesBetween_getLast? extent bound
  rw [← split, last] at same
  have empty : line = [] := by simpa [lines, Text.splitOn] using same.symm
  exact full empty

-- The text of a block as a category file has it: as it was, or with the word `export` behind the
-- indentation of its first line.
def Exported (text output : Text) : Prop :=
  output = text ∨ ∃ rest,
    text = (cut '\n' text).1.takeWhile isBlank ++ rest ∧
    output = (cut '\n' text).1.takeWhile isBlank ++ "export ".toList ++ rest

theorem promoted_exported {b : Block} (rest : (cut '\n' b.text).2 ≠ some []) : Exported b.text b.promoted := by
  unfold Block.promoted
  split
  · exact .inl rfl
  · dsimp only
    split
    · exact .inl rfl
    · have text := cut_eq '\n' b.text
      have indent : (cut '\n' b.text).1 = (cut '\n' b.text).1.takeWhile isBlank ++ dropBlanks (cut '\n' b.text).1 :=
        takeWhile_append_dropWhile.symm
      cases tail : (cut '\n' b.text).2 with
      | none =>
        rw [tail] at text
        refine .inr ⟨dropBlanks (cut '\n' b.text).1, ?_, by simp⟩
        rw [← indent]
        simpa using text
      | some later =>
        rw [tail] at text
        cases later with
        | nil => exact absurd tail rest
        | cons c others =>
          refine .inr ⟨dropBlanks (cut '\n' b.text).1 ++ '\n' :: c :: others, ?_, by simp⟩
          rw [← append_assoc, ← indent]
          exact text

-- A category file: the imports of the group as seen from its directory, the imports from the files
-- of other categories and an empty line, if there are any, then the texts of the blocks of the
-- group, in their order and with one empty line between them.
structure CategoryFile (plan : Plan) (l : Layout) (g : Group) (text : Text) : Prop where
  parts : ∃ (siblings : List Import) (header : List Text) (output : Block → Text),
    header = g.imports.map (fun i => (i.rebase l.importDepth).raw) ++ siblings.map (·.raw) ∧
    (∀ i ∈ siblings, ∃ other, plan.FromSibling l ⟨g⟩ other i) ∧
    (∀ b ∈ g.blocks, Exported b.text (output b)) ∧
    text = (if header = [] then [] else unlines header ++ "\n\n".toList) ++
      joinWith "\n\n" (g.blocks.map output) ++ ['\n']

def Style.single (name asName : Text) : Text := braced (Specifier.render ⟨name, asName, false⟩)

inductive Import.Provides (i : Import) (n asName : Text) : Text → Prop where
  | star (bound : i.namespaceName = some n) : Provides i n asName ("* as ".toList ++ asName)
  | default (bound : i.defaultName = some n) :
    Provides i n asName (Style.single "default".toList asName)
  | specifier {s : Specifier} (listed : s ∈ i.specifiers) (bound : s.asName = n) :
    Provides i n asName (Style.single s.name asName)

namespace Plan

def exportLine (plan : Plan) (typeOnly : Bool) (clause source : Text) : Text :=
  (if typeOnly then "export type " else "export ").toList ++ clause ++ [' '] ++
    plan.style.fromModule source

-- What the index has of the main file: its default export, or else the name that stands for it.
structure FromMain (plan : Plan) (l : Layout) (main : Draft) (n : Text) (i : Import) : Prop where
  found : mainDraft? (plan.groups.map Draft.mk) = some main
  name : plan.mainName? l (plan.groups.map Draft.mk) = some n
  statement : i = plan.style.statement (l.categoryModule .main)
    (if main.holdsDefault then some n else none) (if main.holdsDefault then [] else [n])
  written : i.raw = i.render

-- The lines of the index that export something: all of a category file, the name that stands for
-- the main file, the one default, and the entries of the lists of exports.
inductive IndexExport (plan : Plan) (l : Layout) : Text → Prop where
  | all {c : Category} (listed : c ∈ plan.categories) :
    IndexExport plan l (plan.exportLine false ['*'] (l.categoryModule c))
  | name {n : Text} (main : plan.mainName? l (plan.groups.map Draft.mk) = some n) :
    IndexExport plan l ("export \x7b ".toList ++ n ++ " \x7d".toList ++ plan.style.ending)
  | own {n : Text} (main : plan.mainName? l (plan.groups.map Draft.mk) = some n) :
    IndexExport plan l ("export default ".toList ++ n ++ plan.style.ending)
  | default {g : Group} (member : g ∈ plan.groups) (holds : (Draft.mk g).holdsDefault = true) :
    IndexExport plan l (plan.exportLine false "\x7b default \x7d".toList (l.categoryModule g.category))
  | declared {entry : Specifier} {g : Group} (kept : entry ∈ plan.exportAliases)
      (member : g ∈ plan.groups) (declares : entry.name ∈ g.declaredNames) :
    IndexExport plan l (plan.exportLine entry.typeOnly (Style.braced entry.render)
      (l.categoryModule g.category))
  | imported {entry : Specifier} {i : Import} {clause : Text} {typeOnly : Bool}
      (kept : entry ∈ plan.exportAliases) (bound : i ∈ plan.importTable)
      (provides : i.Provides entry.name entry.asName clause)
      (typed : typeOnly = true → entry.typeOnly = true) :
    IndexExport plan l (plan.exportLine typeOnly clause
      (ModuleName.rebase l.importDepth i.source))

end Plan

-- The index: the imports for their effect only, then perhaps the import of the main file, then the
-- re-exports, then exports of the other files.
structure IndexFile (plan : Plan) (l : Layout) (text : Text) : Prop where
  parts : ∃ (main : List Import) (exports : List Text),
    text = unlines (plan.sideEffectImports.map (fun i => (i.rebase l.importDepth).raw) ++
      main.map (·.raw) ++ plan.reexports.map (fun r => (r.rebase l.importDepth).raw) ++ exports) ++
        ['\n'] ∧
    main.length ≤ 1 ∧ (∀ i ∈ main, ∃ d n, plan.FromMain l d n i) ∧
    ∀ line ∈ exports, plan.IndexExport l line

namespace Plan

variable {plan : Plan} {l : Layout} {drafts : List Draft}

theorem categoryText_file (plan : Plan) (l : Layout) (g : Group) (rest : ∀ b ∈ g.blocks, (cut '\n' b.text).2 ≠ some []) :
    CategoryFile plan l g (plan.categoryText l (plan.groups.map Draft.mk) ⟨g⟩) := by
  refine ⟨plan.siblings l ⟨g⟩ g.declaredNames (plan.groups.map Draft.mk), _, (·.promoted), rfl, ?_, ?_, ?_⟩
  · intro i member
    obtain ⟨other, _, _, taken, _⟩ := siblings_from (fun _ listed => listed) i member
    exact ⟨other, taken⟩
  · intro b member
    exact promoted_exported (rest b member)
  · unfold categoryText Draft.body
    dsimp only
    simp only [siblingImports_eq, List.isEmpty_iff]

theorem mainImport_eq (plan : Plan) (l : Layout) : ∃ main : List Import,
    plan.mainImport l (plan.groups.map Draft.mk) = main.map (·.raw) ∧ main.length ≤ 1 ∧
      ∀ i ∈ main, ∃ d n, plan.FromMain l d n i := by
  unfold mainImport
  split
  · rename_i main name found named
    refine ⟨[_], ?_, Nat.le_refl 1, forall_mem_singleton.mpr ⟨main, name, found, named, rfl, Style.statement_render⟩⟩
    cases main.holdsDefault <;> rfl
  · exact ⟨[], rfl, Nat.zero_le 1, forall_mem_nil _⟩

theorem mainExports_cases {line : Text} (member : line ∈ plan.mainExports l drafts) : ∃ n, plan.mainName? l drafts = some n ∧
    (line = "export ".toList ++ Style.braced n ++ plan.style.ending ∨
      line = "export default ".toList ++ n ++ plan.style.ending) := by
  unfold mainExports at member
  split at member
  · cases member
  · rename_i n found
    refine ⟨n, found, ?_⟩
    rcases mem_append.mp member with named | default
    · split at named
      · cases named
      · exact .inl (mem_singleton.mp named)
    · split at default
      · cases default
      · exact .inr (mem_singleton.mp default)

-- An entry is taken from the file that declares it, or from where its import has it.
theorem aliasLine?_cases {entry : Specifier} {line : Text} (found : plan.aliasLine? l drafts entry = some line) :
    (∃ d, drafts.find? (·.declares entry.name) = some d ∧
      line = plan.exportLine entry.typeOnly (Style.braced entry.render) (l.categoryModule d.category)) ∨
    ∃ i ∈ plan.importTable, ∃ clause, i.Provides entry.name entry.asName clause ∧
      line = plan.exportLine (entry.typeOnly && i.namespaceName ≠ some entry.name) clause
        (ModuleName.rebase l.importDepth i.source) := by
  unfold aliasLine? at found
  dsimp only at found
  split at found
  · rename_i d declares
    exact .inl ⟨d, declares, (Option.some.inj found).symm⟩
  · split at found
    · cases found
    · rename_i i bound
      refine .inr ⟨i, mem_of_find?_eq_some bound, ?_⟩
      rw [← Import.rebase_source]
      split at found
      · rename_i space
        cases found
        refine ⟨_, .star space, ?_⟩
        simp [exportLine, space]
      · rename_i space
        cases found
        have typed : (entry.typeOnly && decide (i.namespaceName ≠ some entry.name)) = entry.typeOnly := by simp [space]
        rw [typed]
        by_cases default : i.defaultName = some entry.name
        · refine ⟨_, .default default, ?_⟩
          simp [exportLine, Style.single, default]
        · have first := find?_some bound
          have binds := contains_iff_mem.mp first
          simp only [ImportContent.names, mem_append, Option.mem_toList] at binds
          have listed := binds.resolve_left fun other => other.elim default space
          obtain ⟨s, member, same⟩ := mem_map.mp listed
          obtain ⟨s, original⟩ : ∃ s, i.specifiers.find? (·.asName = entry.name) = some s :=
            Option.isSome_iff_exists.mp (find?_isSome.mpr ⟨s, member, decide_eq_true same⟩)
          refine ⟨_, .specifier (mem_of_find?_eq_some original) (by simpa using find?_some original), ?_⟩
          simp [exportLine, Style.single, default, original]

def indexExports (p : Plan) (l : Layout) (drafts : List Draft) : List Text :=
  (exportOrder drafts).map (fun c => forwardAll p.style (l.categoryModule c)) ++
    p.mainExports l drafts ++
    (defaultElsewhere? drafts).toList.map (fun c => forwardDefault p.style (l.categoryModule c)) ++
    p.exportAliases.filterMap (p.aliasLine? l drafts)

theorem indexLines_eq (plan : Plan) (l : Layout) (drafts : List Draft) : plan.indexLines l drafts =
    plan.sideEffectImports.map (fun i => (i.rebase l.importDepth).raw) ++ plan.mainImport l drafts ++
      plan.reexports.map (fun r => (r.rebase l.importDepth).raw) ++ plan.indexExports l drafts := by
  simp only [indexLines, indexExports, append_assoc]

theorem indexExports_cases {line : Text} (member : line ∈ plan.indexExports l (plan.groups.map Draft.mk)) :
    plan.IndexExport l line := by
  simp only [indexExports, mem_append, mem_map, mem_filterMap] at member
  obtain ((⟨c, ordered, rfl⟩ | main) | ⟨c, elsewhere, rfl⟩) | ⟨entry, kept, found⟩ := member
  · refine .all ?_
    rcases mem_append.mp ordered with other | main
    · simpa [categories, Draft.category] using (mem_filter.mp other).1
    · obtain ⟨d, first, rfl⟩ := mem_map.mp main
      obtain ⟨g, member, rfl⟩ := mem_map.mp (mem_of_find?_eq_some (Option.mem_toList.mp first))
      exact mem_map_of_mem member
  · obtain ⟨n, found, rfl | rfl⟩ := mainExports_cases main
    · rw [Style.braced, ← append_assoc, ← append_assoc]
      exact .name found
    · exact .own found
  · obtain ⟨d, first, rfl⟩ := Option.map_eq_some_iff.mp (Option.mem_toList.mp elsewhere)
    obtain ⟨g, member, rfl⟩ := mem_map.mp (mem_of_find?_eq_some first)
    have holds := find?_some first
    exact .default member (Bool.and_eq_true_iff.mp holds).1
  · obtain ⟨d, declares, rfl⟩ | ⟨i, bound, clause, provides, rfl⟩ := aliasLine?_cases found
    · obtain ⟨g, member, rfl⟩ := mem_map.mp (mem_of_find?_eq_some declares)
      have declared := find?_some declares
      exact .declared kept member (contains_iff_mem.mp declared)
    · exact .imported kept bound provides fun typed => (Bool.and_eq_true_iff.mp typed).1

theorem indexLines_file (plan : Plan) (l : Layout) :
    IndexFile plan l (closedLines (plan.indexLines l (plan.groups.map Draft.mk))) := by
  obtain ⟨main, same, single, imports⟩ := plan.mainImport_eq l
  refine ⟨main, _, ?_, single, imports, fun line member => indexExports_cases member⟩
  rw [closedLines, indexLines_eq, same]

structure Complete (source : Source) (p : Patterns) (mode : DelimiterMode) (plan : Plan) :
    Prop where
  settled : ∀ b ∈ (scan p mode source.lines).blocks, Settled plan b
  sideEffects : plan.sideEffectImports = (scan p mode source.lines).blocks.filterMap fun b =>
    if b.kind = .import_ then (Import.read? b.text).filter (·.isSideEffect) else none
  reexports : plan.reexports = (scan p mode source.lines).blocks.filterMap fun b =>
    if b.kind = .import_ ∧ Import.read? b.text = none then ReExport.read? b.text else none
  distinct : plan.importTable.Pairwise fun i j => i.toImportContent ≠ j.toImportContent
  bindings : ∀ j ∈ plan.importTable, ∃ b ∈ (scan p mode source.lines).blocks,
    b.kind = .import_ ∧ Import.read? b.text = some j ∧ j.names ≠ []
  origin : ∀ g ∈ plan.groups, ∀ c ∈ g.blocks, ∃ b ∈ (scan p mode source.lines).blocks,
    (b.kind = .import_ ∧ c = b.asStatement) ∨ (b.kind ≠ .import_ ∧ c = b)
  ordered : ∀ g ∈ plan.groups, g.blocks.Pairwise fun a b => a.stop ≤ b.start
  full : ∀ g ∈ plan.groups, g.blocks ≠ []
  categories : plan.categories.Sublist Category.all

theorem Parts.complete {source : Source} {p : Patterns} {mode : DelimiterMode} {plan : Plan}
    {classified : List (Block × Category)} (parts : Parts source p mode plan classified) : Complete source p mode plan where
  settled := fun _ member => parts.settled member
  sideEffects := parts.sideEffectImports_eq
  reexports := parts.reexports_eq
  distinct := by
    rw [parts.table]
    exact Import.withoutRepeats_distinct _
  bindings := fun _ listed => parts.importTable_origin listed
  origin := by
    intro g member c inside
    obtain ⟨b, found, kept⟩ := parts.group_origin member inside
    exact ⟨b, found, Block.body?_cases kept⟩
  ordered := fun _ member => parts.group_ordered member
  full := fun _ member => (parts.mem_groups member).2.2
  categories := parts.categories_sublist

-- Every block of a scan has its one place in the plan, and every block of the plan has its place in
-- the output.
theorem build_synthesize_complete {source : Source} {p : Patterns} {mode : DelimiterMode}
    {plan : Plan} (output : OutputMode) (plain : ∀ l ∈ source.lines, '\n' ∉ l)
    (built : build source p mode = .ok plan) : Complete source p mode plan ∧
    (plan.groups = [] → (plan.synthesize output).files = []) ∧
    (plan.groups ≠ [] → ∃ (text : Group → Text) (index : Text), (plan.synthesize output).files = plan.groups.map (fun g =>
          ⟨(Layout.mk source.path output).categoryPath g.category, text g⟩) ++
        [⟨(Layout.mk source.path output).indexPath, index⟩] ∧ (∀ g ∈ plan.groups, CategoryFile plan ⟨source.path, output⟩ g (text g)) ∧
      IndexFile plan ⟨source.path, output⟩ index) := by
  obtain ⟨classified, parts⟩ := build_parts built
  refine ⟨parts.complete, ?_, ?_⟩
  · intro none
    simp [synthesize, isEmpty, none]
  · intro some
    have full : plan.isEmpty = false := by simpa [isEmpty] using some
    refine ⟨fun g => plan.categoryText ⟨source.path, output⟩ (plan.groups.map Draft.mk) ⟨g⟩,
      closedLines (plan.indexLines ⟨source.path, output⟩ (plan.groups.map Draft.mk)), ?_, ?_, ?_⟩
    · simp only [synthesize, full, parts.origin, map_map, Function.comp_def]
      rfl
    · intro g member
      refine categoryText_file plan _ g ?_
      intro c inside
      obtain ⟨b, found, kept⟩ := parts.group_origin member inside
      rw [(Block.body?_extent kept).2.2]
      exact scan_block_rest plain found
    · exact indexLines_file plan _

def mixedSource : Source :=
  Source.ofText ("import './setup';\nimport a from 'a';\nexport * from './b';\n" ++
    "import c = require('c');\nconst x = a;\nexport \x7b x as y \x7d;\n").toList
    (Path.ofString "/src/m.ts")

theorem build_synthesize_complete_mixed : ∃ plan, build mixedSource .bare .literalAware = .ok plan ∧
      plan.groups.map (fun g => (g.category, g.blocks.map (·.start))) = [(.constants, [4]), (.other, [3])] ∧
      (plan.synthesize .sibling).files.length = 3 ∧ Complete mixedSource .bare .literalAware plan := by
  have run : (build mixedSource .bare .literalAware).toOption.map (fun plan =>
      (plan.groups.map (fun g => (g.category, g.blocks.map (·.start))), (plan.synthesize .sibling).files.length)) =
      some ([(.constants, [4]), (.other, [3])], 3) := by
    decide +kernel
  obtain ⟨plan, built, values⟩ := Result.of_run run
  obtain ⟨groups, files⟩ := Prod.mk.inj values
  exact ⟨plan, built, groups, files, (build_synthesize_complete .sibling (source_lines_plain _ _) built).1⟩

end Plan

end ModuleSplit
