import ModuleSplit.Proofs.Output.DefaultExport
import ModuleSplit.Proofs.Output.Rebasing
import ModuleSplit.Proofs.Output.Suppliers

namespace ModuleSplit

open List Text Option

namespace Plan

def HasIndexLine (plan : Plan) (output : OutputMode) (line : Text) : Prop :=
  ∃ before after, ⟨(plan.synthesize output).layout.indexPath, closedLines (before ++ line :: after)⟩ ∈
    (plan.synthesize output).files

inductive Survives (plan : Plan) (output : OutputMode) (entry : Specifier) : Prop where
  | promoted {path : Path} {names : List Text} (same : entry.name = entry.asName)
      (listed : (path, names) ∈ (plan.synthesize output).namedExports)
      (named : entry.name ∈ names) : Survives plan output entry
  | declared {c : Category} {names : List Text}
      (listed : ((plan.synthesize output).layout.categoryPath c, names) ∈
        (plan.synthesize output).namedExports)
      (named : entry.name ∈ names)
      (line : plan.HasIndexLine output (plan.exportLine entry.typeOnly
        (Style.single entry.name entry.asName)
        ((plan.synthesize output).layout.categoryModule c))) : Survives plan output entry
  | imported {i : Import} {clause : Text} (bound : i ∈ plan.importTable)
      (provides : i.Provides entry.name entry.asName clause)
      (line : plan.HasIndexLine output (plan.exportLine entry.typeOnly clause
        (ModuleName.rebase (plan.synthesize output).layout.importDepth i.source))) :
      Survives plan output entry
  | reported {w : Warning} (warned : w ∈ plan.warnings)
      (names : w.finding = .unknownExport entry.name) : Survives plan output entry

variable {source : Source} {p : Patterns} {mode : DelimiterMode} {plan : Plan}
  {classified : List (Block × Category)}

theorem build_aliases (built : build source p mode = .ok plan) {entry : Specifier} {line : Nat}
    (listed : (entry, line) ∈ (placements p mode source).flatMap (·.aliasLines)) :
    (entry.name = entry.asName ∧ entry.name ∈ plan.declaredNames) ∨ (entry ∈ plan.exportAliases ∧
      (entry.name ∈ plan.declaredNames ∨ entry.name ∈ plan.importedNames)) ∨
    ⟨line, .unknownExport entry.name⟩ ∈ plan.warnings := by
  unfold build at built
  obtain ⟨⟨sorted, missed⟩, -, built⟩ := Result.bind_ok.mp built
  obtain ⟨groups, -, same⟩ := Result.bind_ok.mp built
  cases same
  generalize declared : Plan.declaredNames _ = names
  generalize imported : Plan.importedNames _ = bound
  have resolved := mem_map_of_mem (f := fun e => resolveAlias names bound e.1 e.2) listed
  dsimp only at resolved
  unfold resolveAlias at resolved
  subst declared imported
  split at resolved
  · rename_i covered
    exact .inl ⟨covered.1, contains_iff_mem.mp covered.2⟩
  · split at resolved
    · rename_i known
      rw [Bool.or_eq_true, contains_iff_mem, contains_iff_mem] at known
      exact .inr (.inl ⟨mem_filterMap.mpr ⟨_, resolved, rfl⟩, known⟩)
    · exact .inr (.inr (mem_append_right _ (mem_filterMap.mpr ⟨_, resolved, rfl⟩)))

theorem hasIndexLine (filled : plan.isEmpty = false) (output : OutputMode) {line : Text}
    (member : line ∈ plan.indexLines ⟨plan.source.path, output⟩ (plan.groups.map Draft.mk)) : plan.HasIndexLine output line := by
  obtain ⟨before, after, parted⟩ := append_of_mem member
  refine ⟨before, after, ?_⟩
  rw [← parted]
  unfold synthesize
  rw [filled]
  exact mem_append_right _ (mem_singleton.mpr rfl)

-- A file that declares a name lists it, unless that is where the default export is.
theorem Parts.named_of_declared (parts : Parts source p mode plan classified) {n : Text} {g : Group}
    (member : g ∈ plan.groups) (declared : n ∈ g.declaredNames) : ∃ b ∈ (scan p mode source.lines).blocks, n ∈ b.names ∧
      (b.isDefaultStatement = false → n ∈ (Draft.mk g).named) := by
  obtain ⟨b, inside, named⟩ := mem_flatMap.mp (mem_distinct.mp declared)
  obtain ⟨scanned, kind⟩ := parts.group_declares member inside (ne_nil_of_mem named)
  exact ⟨b, scanned, named, fun plain => mem_named.mpr ⟨b, inside, plain, kind, named⟩⟩

theorem synthesize_layout (plan : Plan) (output : OutputMode) :
    (plan.synthesize output).layout = ⟨plan.source.path, output⟩ := by
  unfold synthesize
  split <;> rfl

theorem hasAliasLine (filled : plan.isEmpty = false) (output : OutputMode) {entry : Specifier} {line : Text}
    (kept : entry ∈ plan.exportAliases)
    (written : plan.aliasLine? ⟨plan.source.path, output⟩ (plan.groups.map Draft.mk) entry = some line) :
    plan.HasIndexLine output line :=
  hasIndexLine filled output (mem_append_right _ (mem_filterMap.mpr ⟨entry, kept, written⟩))

theorem imported_survives (filled : plan.isEmpty = false) (output : OutputMode) {entry : Specifier}
    (kept : entry ∈ plan.exportAliases) (nowhere : (plan.groups.map Draft.mk).find? (·.declares entry.name) = none)
    (known : entry.name ∈ plan.importedNames)
    (typed : entry.typeOnly = true → ∀ i ∈ plan.importTable, i.namespaceName ≠ some entry.name) : plan.Survives output entry := by
  obtain ⟨i, bound, binds⟩ := mem_flatMap.mp known
  obtain ⟨j, first⟩ : ∃ j, plan.importTable.find? (·.names.contains entry.name) = some j :=
    isSome_iff_exists.mp (find?_isSome.mpr ⟨i, bound, contains_iff_mem.mpr binds⟩)
  obtain ⟨line, written⟩ : ∃ line, plan.aliasLine? ⟨plan.source.path, output⟩ (plan.groups.map Draft.mk) entry = some line := by
    unfold aliasLine?
    rw [nowhere, first]
    dsimp only
    split <;> exact ⟨_, rfl⟩
  obtain ⟨d, declares, _⟩ | ⟨i, taken, clause, provides, rfl⟩ := aliasLine?_cases written
  · rw [nowhere] at declares
    cases declares
  · have kind : (entry.typeOnly && decide (i.namespaceName ≠ some entry.name)) = entry.typeOnly := by
      cases typeOnly : entry.typeOnly with
      | true => simpa using typed typeOnly i taken
      | false => rfl
    rw [kind] at written
    exact .imported taken provides (plan.synthesize_layout output ▸ hasAliasLine filled output kept written)

-- No entry of a list of exports is lost, unless it is declared only where it is the default export,
-- or is a type that is exported under another name or as a namespace.
theorem build_export_list_survives (built : build source p mode = .ok plan)
    (filled : plan.isEmpty = false) (output : OutputMode) {b : Block} {entries : List Specifier}
    {entry : Specifier} (member : b ∈ (scan p mode source.lines).blocks)
    (list : b.exportAliases? = some entries) (inside : entry ∈ entries)
    (plain : ∀ c ∈ (scan p mode source.lines).blocks, entry.name ∈ c.names →
      c.isDefaultStatement = false ∧ (entry.typeOnly = true → entry.name = entry.asName))
    (typed : entry.typeOnly = true → ∀ i ∈ plan.importTable, i.namespaceName ≠ some entry.name) : plan.Survives output entry := by
  obtain ⟨classified, parts⟩ := build_parts built
  have layout := plan.synthesize_layout output
  have placed : b.place = .aliases entries (b.start + 1) := by
    have kind := (ite_none_right_eq_some.mp list).1.1
    rw [Block.place, kind, if_neg (by decide), list]
  have listed : (entry, b.start + 1) ∈ (placements p mode source).flatMap (·.aliasLines) := by
    refine mem_flatMap.mpr ⟨_, mem_map_of_mem member, ?_⟩
    rw [placed]
    exact mem_map_of_mem inside
  have lists : ∀ g ∈ plan.groups, entry.name ∈ g.declaredNames →
      entry.name ∈ (Draft.mk g).named ∧ (entry.typeOnly = true → entry.name = entry.asName) := by
    intro g grouped declared
    obtain ⟨c, scanned, declares, listed⟩ := parts.named_of_declared grouped declared
    exact ⟨listed (plain c scanned declares).1, (plain c scanned declares).2⟩
  rcases build_aliases built listed with ⟨same, declared⟩ | ⟨kept, known⟩ | unknown
  · obtain ⟨g, grouped, declared⟩ := mem_flatMap.mp (mem_distinct.mp declared)
    exact .promoted same (mem_namedExports.mpr ⟨g, grouped, rfl, rfl⟩) (lists g grouped declared).1
  · cases found : (plan.groups.map Draft.mk).find? (·.declares entry.name) with
    | some d =>
      obtain ⟨g, grouped, rfl⟩ := mem_map.mp (mem_of_find?_eq_some found)
      have first := find?_some found
      have declared : entry.name ∈ g.declaredNames := contains_iff_mem.mp first
      obtain ⟨named, typed⟩ := lists g grouped declared
      have file : (Layout.categoryPath ⟨plan.source.path, output⟩ g.category, (Draft.mk g).named) ∈
          (plan.synthesize output).namedExports := mem_namedExports.mpr ⟨g, grouped, rfl, rfl⟩
      cases typeOnly : entry.typeOnly with
      | true => exact .promoted (typed typeOnly) file named
      | false =>
        refine .declared (c := g.category) (layout ▸ file) named (hasAliasLine filled output kept ?_)
        unfold aliasLine?
        rw [found, layout]
        simp [exportLine, Style.single, Specifier.render, typeOnly, Draft.category]
    | none =>
      have undeclared : entry.name ∉ plan.declaredNames := by
        intro declared
        obtain ⟨g, grouped, declared⟩ := mem_flatMap.mp (mem_distinct.mp declared)
        exact find?_eq_none.mp found ⟨g⟩ (mem_map_of_mem grouped) (contains_iff_mem.mpr declared)
      exact imported_survives filled output kept found (known.resolve_left undeclared) typed
  · exact .reported unknown rfl

-- Entries of all kinds: declared here, bound by a default, a namespace or a name, and unknown.
def listedSource : Source :=
  Source.ofText ("import d, * as s from 'pkg';\nimport \x7b x as y \x7d from './kit';\n".toList ++
    "const a = 1;\nexport \x7b a, a as b, d as e, s as t, type y as z, w \x7d;\n".toList)
    (Path.ofString "/src/m.ts")

def listedEntries : List Specifier :=
  [⟨['a'], ['a'], false⟩, ⟨['a'], ['b'], false⟩, ⟨['d'], ['e'], false⟩, ⟨['s'], ['t'], false⟩,
    ⟨['y'], ['z'], true⟩, ⟨['w'], ['w'], false⟩]

theorem build_export_list_survives_listed : ∃ plan, build listedSource .bare .literalAware = .ok plan ∧ plan.isEmpty = false ∧
      (∃ b ∈ (scan .bare .literalAware listedSource.lines).blocks, b.exportAliases? = some listedEntries) ∧
      ∀ entry ∈ listedEntries, plan.Survives .directory entry := by
  have run : (build listedSource .bare .literalAware).toOption.map (fun plan =>
      (plan.isEmpty, plan.importTable.map (·.namespaceName))) = some (false, [some ['s'], none]) := by
    decide +kernel
  have list : ∃ b ∈ (scan .bare .literalAware listedSource.lines).blocks, b.exportAliases? = some listedEntries := by
    decide +kernel
  have plain : ∀ entry ∈ listedEntries, ∀ c ∈ (scan .bare .literalAware listedSource.lines).blocks,
      entry.name ∈ c.names → c.isDefaultStatement = false ∧ (entry.typeOnly = true → entry.name = entry.asName) := by
    decide +kernel
  have typed : ∀ entry ∈ listedEntries, entry.typeOnly = true → ∀ space ∈ [some ['s'], none], space ≠ some entry.name := by
    decide +kernel
  obtain ⟨plan, built, values⟩ := Result.of_run run
  obtain ⟨filled, spaces⟩ := Prod.mk.inj values
  refine ⟨plan, built, filled, list, fun entry inside => ?_⟩
  obtain ⟨b, member, read⟩ := list
  refine build_export_list_survives built filled .directory member read inside (plain entry inside) ?_
  intro typeOnly i bound
  refine typed entry inside typeOnly _ ?_
  rw [← spaces]
  exact mem_map_of_mem bound

-- The word `type` stands twice in the line for such an entry.
def renamedTypeSource : Source :=
  Source.ofText "type T = number;\nexport type \x7b T as U \x7d;\n".toList (Path.ofString "/src/m.ts")

theorem build_renamed_type_lost : ∃ plan, build renamedTypeSource .bare .literalAware = .ok plan ∧ plan.isEmpty = false ∧
      (∃ b ∈ (scan .bare .literalAware renamedTypeSource.lines).blocks,
        b.exportAliases? = some [⟨['T'], ['U'], true⟩]) ∧ ¬plan.Survives .sibling ⟨['T'], ['U'], true⟩ := by
  have run : (build renamedTypeSource .bare .literalAware).toOption.map (fun plan =>
      (plan.isEmpty, plan.importTable, plan.warnings, (plan.synthesize .sibling).files.all fun f => Category.all.all fun c =>
          !occursIn (plan.exportLine true (Style.single ['T'] ['U'])
            ((plan.synthesize .sibling).layout.categoryModule c)) f.text)) =
      some (false, [], [], true) := by
    decide +kernel
  have list : ∃ b ∈ (scan .bare .literalAware renamedTypeSource.lines).blocks,
      b.exportAliases? = some [⟨['T'], ['U'], true⟩] := by
    decide +kernel
  obtain ⟨plan, built, values⟩ := Result.of_run run
  obtain ⟨filled, values⟩ := Prod.mk.inj values
  obtain ⟨table, values⟩ := Prod.mk.inj values
  obtain ⟨warnings, missing⟩ := Prod.mk.inj values
  refine ⟨plan, built, filled, list, fun survives => ?_⟩
  cases survives with
  | promoted same => exact absurd same (by decide)
  | @declared c _ _ _ line =>
    obtain ⟨before, after, file⟩ := line
    have absent := all_eq_true.mp (all_eq_true.mp missing _ file) c (by cases c <;> decide)
    have there : (plan.exportLine true (Style.single ['T'] ['U']) ((plan.synthesize .sibling).layout.categoryModule c)) <:+:
        closedLines (before ++ _ :: after) :=
      (infix_intercalate (mem_append_right before mem_cons_self)).trans (prefix_append _ _).isInfix
    rw [occursIn_of_part there] at absent
    cases absent
  | imported bound =>
    rw [table] at bound
    cases bound
  | reported warned =>
    rw [warnings] at warned
    cases warned

end Plan

end ModuleSplit
