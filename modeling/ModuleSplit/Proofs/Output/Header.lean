import ModuleSplit.Proofs.Classification.DefaultExport
import ModuleSplit.Proofs.Output.Completeness

-- The import header of a category file binds what its blocks refer to, and nothing else.

namespace ModuleSplit

open List Text Option

theorem OpenBlock.read_declaration (b : OpenBlock) (index : Nat) (line : LineSummary) (rest : List LineSummary) :
    ((b.read index line rest).elim (·.declaration) (·.declaration)) = b.declaration := by
  have reading := b.reading index line rest
  generalize b.read index line rest = outcome at reading ⊢
  cases reading <;> rfl

theorem scan_described (p : Patterns) (summaries : List LineSummary) : ∀ e ∈ extents p none 0 summaries,
      ∃ code next, e.declaration = Declaration.describe p code next := by
  have keeps : ScanInvariant p summaries (fun _ => True) (fun _ => True)
      (fun _ b => ∃ code next, b.declaration = Declaration.describe p code next)
      (fun e => ∃ code next, e.declaration = Declaration.describe p code next) := by
    refine ⟨fun _ _ _ _ _ _ => trivial, fun _ _ _ _ _ _ => ⟨_, _, rfl⟩, ?_, ?_, fun _ described => described⟩
    · rintro before line rest b next _ ⟨code, later, described⟩ read
      have kept := b.read_declaration before.length line rest
      rw [read] at kept
      exact ⟨code, later, kept.trans described⟩
    · rintro before line rest b e _ ⟨code, later, described⟩ read _
      have kept := b.read_declaration before.length line rest
      rw [read] at kept
      exact ⟨⟨code, later, kept.trans described⟩, trivial⟩
  exact keeps.scanned trivial fun _ _ => trivial

theorem scan_block_isDeclaration {p : Patterns} {mode : DelimiterMode} {lines : List Text}
    {b : Block} (member : b ∈ (scan p mode lines).blocks) (declares : b.names ≠ []) : b.kind.isDeclaration = true := by
  obtain ⟨e, found, rfl⟩ := mem_scan_blocks.mp member
  obtain ⟨code, next, same⟩ := scan_described p _ e found
  have names : (Declaration.describe p code next).names ≠ [] := by
    intro none
    rw [← same] at none
    exact declares (by simp [Extent.toBlock, none])
  obtain ⟨kind, list⟩ := Declaration.describe_isDeclaration p code next names
  rw [← same] at kind list
  show (e.kind p (summarize mode lines)).isDeclaration = true
  unfold Extent.kind
  rw [list, if_neg Bool.false_ne_true]
  split
  · rfl
  · exact kind

theorem scan_block_isName {p : Patterns} {mode : DelimiterMode} {lines : List Text} {b : Block}
    (member : b ∈ (scan p mode lines).blocks) : ∀ n ∈ b.names, IsName n := by
  obtain ⟨e, found, rfl⟩ := mem_scan_blocks.mp member
  obtain ⟨code, next, same⟩ := scan_described p _ e found
  intro n named
  have declared : n ∈ e.declaration.names := (mem_filter.mp named).1
  rw [same] at declared
  exact Declaration.describe_isName p code next n declared

namespace Plan

variable {source : Source} {p : Patterns} {mode : DelimiterMode} {plan : Plan} {l : Layout} {d : Draft}
  {n : Text} {classified : List (Block × Category)}

theorem Parts.group_declares (parts : Parts source p mode plan classified) {g : Group} (member : g ∈ plan.groups) {b : Block}
    (inside : b ∈ g.blocks) (declares : b.names ≠ []) : b ∈ (scan p mode source.lines).blocks ∧ b.kind.isDeclaration = true := by
  obtain ⟨origin, scanned, kept⟩ := parts.group_origin member inside
  obtain ⟨import_, rfl⟩ | ⟨_, rfl⟩ := Block.body?_cases kept
  · have declared := scan_block_isDeclaration scanned declares
    rw [import_] at declared
    cases declared
  · exact ⟨scanned, scan_block_isDeclaration scanned declares⟩

theorem mem_named {g : Group} {n : Text} : n ∈ (Draft.mk g).named ↔
    ∃ b ∈ g.blocks, b.isDefaultStatement = false ∧ b.kind.isDeclaration = true ∧ n ∈ b.names := by
  simp [Draft.named, and_assoc]

theorem named_isName (parts : Parts source p mode plan classified) {g : Group} (member : g ∈ plan.groups) :
    ∀ n ∈ (Draft.mk g).named, IsName n := by
  intro n named
  obtain ⟨b, inside, _, _, declared⟩ := mem_named.mp named
  exact scan_block_isName (parts.group_declares member inside (ne_nil_of_mem declared)).1 n declared

theorem mostFrequent_mem (cs : List Char) (fallback : Char) :
    mostFrequent cs fallback ∈ cs ∨ mostFrequent cs fallback = fallback := by
  have run : ∀ (ds : List Char) (best : Char),
      ds.foldl (fun best c => if cs.count best < cs.count c then c else best) best ∈ best :: ds := by
    intro ds
    induction ds with
    | nil => simp
    | cons d ds ih =>
      intro best
      rw [foldl_cons]
      split
      · exact mem_cons_of_mem _ (ih d)
      · rcases mem_cons.mp (ih best) with same | later
        · rw [same]
          exact mem_cons_self
        · exact mem_cons_of_mem _ (mem_cons_of_mem _ later)
  unfold mostFrequent
  rcases mem_cons.mp (run cs (cs.head?.getD fallback)) with same | later
  · rw [same]
    cases cs with
    | nil => exact .inr rfl
    | cons c cs => exact .inl mem_cons_self
  · exact .inl later

theorem build_quote (built : build source p mode = .ok plan) : IsQuote plan.style.quote := by
  obtain ⟨classified, parts⟩ := build_parts built
  have chosen : plan.quote = dominantQuote plan.importTable plan.reexports := by
    unfold build at built
    obtain ⟨_, _, built⟩ := Result.bind_ok.mp built
    obtain ⟨_, _, same⟩ := Result.bind_ok.mp built
    cases same
    rfl
  show IsQuote plan.quote
  rw [chosen]
  rcases mostFrequent_mem (plan.importTable.map (·.quote) ++ plan.reexports.map (·.quote)) '\'' with
    known | fallback
  · unfold dominantQuote
    generalize mostFrequent _ '\'' = quote at known
    rcases mem_append.mp known with bound | forwarded
    · obtain ⟨i, listed, rfl⟩ := mem_map.mp bound
      obtain ⟨b, -, -, read, -⟩ := parts.importTable_origin listed
      exact (Import.read?_quoted read).isQuote
    · obtain ⟨r, listed, rfl⟩ := mem_map.mp forwarded
      rw [parts.reexports_eq] at listed
      obtain ⟨b, -, read⟩ := mem_filterMap.mp listed
      exact (ReExport.read?_quoted (ite_none_right_eq_some.mp read).2).isQuote
  · exact .inl fallback

def importedNames (plan : Plan) : List Text := plan.importTable.flatMap (·.names)

def Available (plan : Plan) (d : Draft) (n : Text) : Prop :=
  n ∈ plan.importedNames ∨
    ∃ other ∈ plan.groups, other.category ≠ d.category ∧ plan.Offers ⟨other⟩ n

-- The statement takes from a module some of what an import of the source takes from it, and names
-- the module as it is seen from the directory of the output.
structure FromModule (plan : Plan) (l : Layout) (origin i : Import) : Prop where
  listed : origin ∈ plan.importTable
  source : i.source = ModuleName.rebase l.importDepth origin.source
  binding : i.names ≠ []
  part : ∃ k, Import.PartOf k origin ∧ i = k.rebase l.importDepth

structure BindsReferences (plan : Plan) (l : Layout) (markup : Bool) (d : Draft)
    (modules siblings : List Import) : Prop where
  once : ∀ n, n ∉ d.group.declaredNames → references n d.body = true → plan.Available d n →
    ((modules ++ siblings).flatMap (·.names)).count n = 1
  external : ∀ i ∈ modules, ∃ origin, plan.FromModule l origin i
  internal : ∀ i ∈ siblings, ∃ other, plan.FromSibling l d other i
  referred : ∀ n ∈ (modules ++ siblings).flatMap (·.names),
    references n d.body = true ∨ (n = "React".toList ∧ markup = true)
  main : d.category = .main → siblings.map (·.source) =
    (plan.groups.filter (·.category ≠ .main)).map fun other => l.categoryModule other.category

theorem named_declared {g : Group} (member : g ∈ plan.groups) (named : n ∈ (Draft.mk g).named) : n ∈ plan.declaredNames := by
  obtain ⟨b, inside, declared⟩ := mem_flatMap.mp (mem_distinct.mp named)
  refine mem_distinct.mpr (mem_flatMap.mpr ⟨g, member, mem_distinct.mpr ?_⟩)
  exact mem_flatMap.mpr ⟨b, (mem_filter.mp inside).1, declared⟩

theorem mem_siblings_names : n ∈ (plan.siblings l d d.group.declaredNames (plan.groups.map Draft.mk)).flatMap (·.names) ↔
      n ∉ d.group.declaredNames ∧ references n d.body = true ∧
        ∃ other ∈ plan.groups, other.category ≠ d.category ∧ plan.Offers ⟨other⟩ n := by
  rw [(siblings_names plan l d d.group.declaredNames (plan.groups.map Draft.mk)).2 n]
  simp only [List.mem_map, exists_exists_and_eq_and]
  rfl

theorem Parts.imported_isName (parts : Parts source p mode plan classified) :
    ∀ n ∈ plan.importedNames, IsName n := by
  intro n member
  obtain ⟨i, listed, bound⟩ := mem_flatMap.mp member
  obtain ⟨b, _, _, read, _⟩ := parts.importTable_origin listed
  exact (Import.read?_wellNamed read).bound n bound

section Binding

variable {g : Group} {markup : Bool} (single : plan.importedNames.Nodup)
  (names : ∀ n ∈ plan.importedNames, IsName n) (keyword : "export".toList ∉ plan.importedNames)
  (imports : g.imports =
    Import.select plan.importTable g.text (if markup then markupNames else []))

include single imports in
theorem group_imports_names : g.imports.flatMap (·.names) = plan.importedNames.filter
    (Import.wanted g.text (if markup then markupNames else [])) := by
  rw [imports]
  exact Import.select_names single g.text _

include single names keyword imports in
theorem mem_group_imports {n : Text} : n ∈ g.imports.flatMap (·.names) ↔ n ∈ plan.importedNames ∧
      (references n (Draft.mk g).body = true ∨ (n = "React".toList ∧ markup = true)) := by
  rw [group_imports_names single imports, mem_filter]
  refine and_congr_right fun imported => ?_
  have other : n ≠ "export".toList := by
    rintro rfl
    exact keyword imported
  rw [references_body (names n imported) other, Import.wanted, Bool.or_eq_true, or_comm]
  cases markup <;> simp [markupNames]

include single names keyword imports in
theorem header_bindsReferences (separate : ∀ n ∈ plan.importedNames, n ∉ plan.declaredNames)
    (own : ∀ n, plan.defaultName = some n → n ∉ plan.importedNames) :
    BindsReferences plan l markup ⟨g⟩ (g.imports.map (·.rebase l.importDepth))
      (plan.siblings l ⟨g⟩ g.declaredNames (plan.groups.map Draft.mk)) := by
  have external {n : Text} := mem_group_imports single names keyword imports (n := n)
  have siblings := (siblings_names plan l ⟨g⟩ g.declaredNames (plan.groups.map Draft.mk)).1
  have kept : (g.imports.map (·.rebase l.importDepth)).flatMap (·.names) = g.imports.flatMap (·.names) := by
    simp only [flatMap_map, Import.rebase_names]
  refine ⟨?_, ?_, ?_, ?_, ?_⟩
  · intro n fresh refers available
    rw [flatMap_append, kept, count_append]
    by_cases imported : n ∈ plan.importedNames
    · have apart : n ∉ (plan.siblings l ⟨g⟩ g.declaredNames (plan.groups.map Draft.mk)).flatMap (·.names) := by
        intro bound
        obtain ⟨_, _, other, listed, _, named | ⟨_, default⟩⟩ := mem_siblings_names.mp bound
        · exact separate n imported (named_declared listed named)
        · exact own n default imported
      have once : (g.imports.flatMap (·.names)).Nodup := by
        rw [group_imports_names single imports]
        exact single.filter _
      rw [count_eq_zero_of_not_mem apart, count_eq_one_of_mem once (external.mpr ⟨imported, .inl refers⟩)]
    · have apart : n ∉ g.imports.flatMap (·.names) := fun bound => imported (external.mp bound).1
      have offered := available.resolve_left imported
      rw [count_eq_zero_of_not_mem apart, count_eq_one_of_mem siblings (mem_siblings_names.mpr ⟨fresh, refers, offered⟩)]
  · rw [List.forall_mem_map]
    intro k listed
    rw [imports] at listed
    obtain ⟨j, table, part, binding⟩ := Import.select_part listed
    refine ⟨j, table, ?_, ?_, k, part, rfl⟩
    · rw [Import.rebase_source, part.source]
    · rwa [Import.rebase_names]
  · intro i member
    obtain ⟨other, _, _, taken, _⟩ := siblings_from (fun _ listed => listed) i member
    exact ⟨other, taken⟩
  · intro n bound
    rw [flatMap_append, kept] at bound
    rcases mem_append.mp bound with fromModule | fromSibling
    · exact (external.mp fromModule).2
    · exact .inl (mem_siblings_names.mp fromSibling).2.1
  · intro main
    rw [siblings_main main, List.filter_map, List.map_map]
    rfl

end Binding

theorem siblings_read (built : build source p mode = .ok plan) (legible : ModuleName.Legible ("./".toList ++ l.baseName))
    {seen : List Text} : ∀ i ∈ plan.siblings l d seen (plan.groups.map Draft.mk), Import.read? i.raw = some i := by
  obtain ⟨classified, parts⟩ := build_parts built
  intro i member
  obtain ⟨other, default?, names, taken, rfl⟩ := siblings_from (fun _ listed => listed) i member
  refine Style.statement_read (build_quote built) (Layout.categoryModule_legible.mpr legible) ?_ ?_
  · intro n default
    have known := (taken.default n default).2
    rw [parts.defaultName] at known
    exact DefaultExport.name?_isName known
  · intro n listed
    have named := taken.named ⟨n, n, false⟩ (mem_map_of_mem listed)
    exact named_isName parts taken.listed n named.2

theorem Parts.modules_read (parts : Parts source p mode plan classified)
    (movable : l.mode = .directory → ∀ i ∈ plan.importTable, i.isRelative = true → i.Movable)
    {origin i : Import} (taken : plan.FromModule l origin i) : Import.read? i.raw = some i := by
  obtain ⟨b, _, _, found, _⟩ := parts.importTable_origin taken.listed
  obtain ⟨k, part, rfl⟩ := taken.part
  have binding := taken.binding
  rw [Import.rebase_names] at binding
  refine part.read?_rebase found binding fun changed => movable ?_ origin taken.listed ?_
  · cases mode : l.mode with
    | sibling =>
      rw [Layout.importDepth, mode] at changed
      exact absurd rfl changed
    | directory => rfl
  · rw [ImportContent.isRelative, ← Bool.not_eq_false]
    exact fun fixed => changed (ModuleName.rebase_fixed fixed l.importDepth)

theorem category_file (output : OutputMode) {g : Group} (member : g ∈ plan.groups) {modules siblings : List Import}
    (external : modules = g.imports.map (·.rebase (Layout.mk plan.source.path output).importDepth))
    (others : siblings = plan.siblings ⟨plan.source.path, output⟩ ⟨g⟩ g.declaredNames (plan.groups.map Draft.mk)) :
    ⟨(Layout.mk plan.source.path output).categoryPath g.category,
      (if modules ++ siblings = [] then [] else unlines ((modules ++ siblings).map (·.raw)) ++ "\n\n".toList) ++
        (Draft.mk g).body ++ ['\n']⟩ ∈ (plan.synthesize output).files := by
  have full : plan.isEmpty = false := by
    simpa [isEmpty] using ne_nil_of_mem member
  have text : plan.categoryText ⟨plan.source.path, output⟩ (plan.groups.map Draft.mk) ⟨g⟩ =
      (if modules ++ siblings = [] then [] else unlines ((modules ++ siblings).map (·.raw)) ++ "\n\n".toList) ++
        (Draft.mk g).body ++ ['\n'] := by
    have lines : g.imports.map (fun i => (i.rebase (Layout.mk plan.source.path output).importDepth).raw) ++
        plan.siblingImports ⟨plan.source.path, output⟩ ⟨g⟩ g.declaredNames (plan.groups.map Draft.mk) =
        (modules ++ siblings).map (·.raw) := by
      rw [siblingImports_eq, external, others, map_append, List.map_map]
      rfl
    unfold categoryText
    dsimp only
    rw [lines]
    simp only [List.isEmpty_iff, map_eq_nil_iff]
  rw [← text]
  unfold synthesize
  rw [full]
  exact mem_append_left _ (mem_map.mpr ⟨⟨g⟩, mem_map_of_mem member, rfl⟩)

-- Every reference of a category file to something outside of it is bound by exactly one statement of
-- its header. An imported name must not be the default export as well: a file would have it from the
-- module and from the file with the default export. What the header says is what is read from it,
-- where the source has a name that can stand in quotes and no comment stands before a module that
-- is seen from another directory.
theorem build_header_binds (built : build source p mode = .ok plan) (single : plan.importedNames.Nodup)
    (separate : ∀ n ∈ plan.importedNames, n ∉ plan.declaredNames) (keyword : "export".toList ∉ plan.importedNames)
    (own : ∀ n, plan.defaultName = some n → n ∉ plan.importedNames) (output : OutputMode)
    {g : Group} (member : g ∈ plan.groups) : ∃ markup modules siblings, p.containsMarkup (codeText mode g.text) = .ok markup ∧
      BindsReferences plan ⟨source.path, output⟩ markup ⟨g⟩ modules siblings ∧
      ⟨(Layout.mk source.path output).categoryPath g.category,
        (if modules ++ siblings = [] then [] else unlines ((modules ++ siblings).map (·.raw)) ++ "\n\n".toList) ++
          (Draft.mk g).body ++ ['\n']⟩ ∈ (plan.synthesize output).files ∧
      (ModuleName.Legible ("./".toList ++ source.path.stem) →
        (output = .directory → ∀ i ∈ plan.importTable, i.isRelative = true → i.Movable) →
        ∀ i ∈ modules ++ siblings, Import.read? i.raw = some i) := by
  obtain ⟨classified, parts⟩ := build_parts built
  obtain ⟨markup, found, imports⟩ := parts.imports g member
  have binds := header_bindsReferences (l := ⟨source.path, output⟩) single parts.imported_isName keyword imports separate own
  refine ⟨markup, _, _, found, binds, ?_, fun legible movable => ?_⟩
  · rw [← parts.origin]
    exact category_file output member rfl rfl
  · rw [forall_mem_append]
    refine ⟨fun i listed => ?_, siblings_read (l := ⟨source.path, output⟩) built legible⟩
    obtain ⟨origin, taken⟩ := binds.external i listed
    exact parts.modules_read movable taken

def linkedSource : Source :=
  Source.ofText ("import a from './a';\nconst x = 1;\nfunction f() \x7b return a(x, Page); \x7d\n" ++
    "export default function Page() \x7b\x7d\n").toList (Path.ofString "/src/m.ts")

def linkedImport : Import where
  source := "./a".toList
  defaultName := some "a".toList
  raw := "import a from './a';".toList

theorem linkedImport_movable : linkedImport.Movable where
  free := (ModuleName.legible_of_visible (by decide) (visible_of_all rfl) : ModuleName.Legible "./a".toList).commentFree
    (.inl rfl) (show '/' ∉ "import a from ".toList by decide) true
  inner c member := (visible_of_all (t := linkedImport.source) rfl c member).2
  clause := by
    have name : Import.clauseText? linkedImport.raw = some "a".toList := by decide +kernel
    rw [name]
    rintro c ⟨⟩
    exact quoteFree_word "a" rfl

theorem build_header_binds_linked : ∃ plan g markup modules siblings,
    build linkedSource .bare .literalAware = .ok plan ∧ plan.importedNames = ["a".toList] ∧
      plan.declaredNames = ["x".toList, "f".toList, "Page".toList] ∧
      plan.defaultName = some "Page".toList ∧ g ∈ plan.groups ∧ g.category = .utilities ∧
      BindsReferences plan ⟨linkedSource.path, .directory⟩ markup ⟨g⟩ modules siblings ∧
      ∀ i ∈ modules ++ siblings, Import.read? i.raw = some i := by
  have run : (build linkedSource .bare .literalAware).toOption.map (fun plan =>
      (plan.importTable, plan.declaredNames, plan.defaultName, plan.categories)) =
      some ([linkedImport], ["x".toList, "f".toList, "Page".toList], some "Page".toList, [.constants, .utilities, .main]) := by
    decide +kernel
  obtain ⟨plan, built, values⟩ := Result.of_run run
  simp only [Prod.mk.injEq] at values
  obtain ⟨table, declared, default, categories⟩ := values
  have imported : plan.importedNames = ["a".toList] := by
    rw [importedNames, table]
    rfl
  have listed : Category.utilities ∈ plan.categories := by simp [categories]
  obtain ⟨g, member, category⟩ := mem_map.mp listed
  obtain ⟨markup, modules, siblings, _, binds, _, read⟩ := build_header_binds built (by simp [imported])
    (by rw [imported, declared]; decide) (by rw [imported]; decide)
    (by rw [imported, default]; decide) .directory member
  refine ⟨plan, g, markup, modules, siblings, built, imported, declared, default, member, category, binds, read ?_ ?_⟩
  · exact ModuleName.legible_of_visible (by decide) (visible_of_all (by decide +kernel))
  · rw [table, forall_mem_singleton]
    exact fun _ _ => linkedImport_movable

-- An imported name that is exported as default. The other file has it twice.
def reboundSource : Source :=
  Source.ofText ("import Foo from './foo';\nfunction f() \x7b Foo(); \x7d\n" ++
    "export default Foo;\n").toList (Path.ofString "/src/m.ts")

theorem build_header_binds_default_twice : ∃ plan g,
    build reboundSource .bare .literalAware = .ok plan ∧ plan.importedNames = ["Foo".toList] ∧
      plan.declaredNames = ["f".toList] ∧ g ∈ plan.groups ∧ "Foo".toList ∉ g.declaredNames ∧
      references "Foo".toList (Draft.mk g).body = true ∧
      ⟨(Layout.mk reboundSource.path .sibling).categoryPath g.category,
        "import Foo from './foo';\nimport Foo from './m-main';\n\n".toList ++ (Draft.mk g).body ++ ['\n']⟩ ∈
          (plan.synthesize .sibling).files ∧
      ["import Foo from './foo';", "import Foo from './m-main';"].map
        (fun line => (Import.read? line.toList).map (·.names)) = [some ["Foo".toList], some ["Foo".toList]] := by
  have run : (build reboundSource .bare .literalAware).toOption.map (fun plan =>
      (plan.importedNames, plan.declaredNames, plan.groups.map fun g => decide
        ("Foo".toList ∉ g.declaredNames ∧ references "Foo".toList (Draft.mk g).body = true ∧
          ⟨(Layout.mk reboundSource.path .sibling).categoryPath g.category,
            "import Foo from './foo';\nimport Foo from './m-main';\n\n".toList ++ (Draft.mk g).body ++ ['\n']⟩ ∈
              (plan.synthesize .sibling).files))) =
      some (["Foo".toList], ["f".toList], [true, false]) := by
    decide +kernel
  obtain ⟨plan, built, values⟩ := Result.of_run run
  simp only [Prod.mk.injEq] at values
  obtain ⟨imported, declared, groups⟩ := values
  have listed : true ∈ [true, false] := by simp
  rw [← groups] at listed
  obtain ⟨g, member, twice⟩ := mem_map.mp listed
  obtain ⟨fresh, refers, file⟩ := of_decide_eq_true twice
  exact ⟨plan, g, built, imported, declared, member, fresh, refers, file, by decide +kernel⟩

end Plan

end ModuleSplit
