import Mathlib.Data.List.Nodup
import ModuleSplit.Proofs.Import.References
import ModuleSplit.Proofs.Plan.Placement

namespace ModuleSplit

open List Text Option

namespace Import

variable {t name : Text}

theorem nameRun?_isName {rest : Text} (found : nameRun? t = some (name, rest)) : IsName name := by
  unfold nameRun? at found
  dsimp only at found
  split at found
  · cases found
  · rename_i nonempty
    cases found
    exact ⟨by simpa using nonempty, all_eq_true.mp all_takeWhile⟩

theorem wholeName?_isName (found : wholeName? t = some name) : IsName name := by
  unfold wholeName? at found
  obtain ⟨⟨run, rest⟩, read, found⟩ := bind_eq_some_iff.mp found
  dsimp only at found
  split at found
  · cases found
    exact nameRun?_isName read
  · cases found

theorem plainSpecifier?_isName {typeOnly : Bool} {s : Specifier}
    (found : plainSpecifier? typeOnly t = some s) : IsName s.name ∧ IsName s.asName := by
  unfold plainSpecifier? at found
  obtain ⟨⟨name, rest⟩, read, found⟩ := bind_eq_some_iff.mp found
  have named := nameRun?_isName read
  dsimp only at found
  split at found
  · cases found
    exact ⟨named, named⟩
  · simp only [bind_eq_bind, bind_eq_some_iff] at found
    obtain ⟨_, _, _, _, other, whole, same⟩ := found
    cases same
    exact ⟨named, wholeName?_isName whole⟩

theorem specifier?_isName {s : Specifier} (found : specifier? t = some s) : IsName s.name ∧ IsName s.asName := by
  unfold specifier? at found
  rcases or_eq_some_iff.mp (orElse_eq_or.symm.trans found) with typed | ⟨_, plain⟩
  · obtain ⟨_, _, read⟩ := bind_eq_some_iff.mp typed
    exact plainSpecifier?_isName read
  · exact plainSpecifier?_isName plain

theorem specifierList_isName {body : Text} : ∀ s ∈ specifierList body, IsName s.name ∧ IsName s.asName := by
  intro s member
  obtain ⟨entry, _, found⟩ := mem_filterMap.mp member
  exact specifier?_isName found

end Import

structure ImportContent.WellNamed (i : ImportContent) : Prop where
  bound : ∀ n ∈ i.names, IsName n
  listed : ∀ s ∈ i.specifiers, IsName s.name

namespace Import

variable {i k : Import} {raw text : Text} {retain used : List Text}

theorem addBinding_wellNamed {i : ImportContent} (named : i.WellNamed) (entry : Text) : (addBinding i entry).WellNamed := by
  obtain ⟨bound, listed⟩ := named
  unfold ImportContent.names at bound
  simp only [forall_mem_append] at bound
  unfold addBinding
  split
  · rename_i name space
    have isName : IsName name := by
      unfold namespaceName? at space
      simp only [bind_eq_bind, bind_eq_some_iff] at space
      obtain ⟨_, _, _, _, whole⟩ := space
      exact wholeName?_isName whole
    refine ⟨?_, listed⟩
    simp only [ImportContent.names, forall_mem_append]
    exact ⟨⟨bound.1.1, by simpa using isName⟩, bound.2⟩
  · split
    · rename_i name whole
      refine ⟨?_, listed⟩
      simp only [ImportContent.names, forall_mem_append]
      exact ⟨⟨by simpa using wholeName?_isName whole, bound.1.2⟩, bound.2⟩
    · refine ⟨?_, listed⟩
      simp only [ImportContent.names, forall_mem_append]
      exact bound

theorem contentOf_wellNamed (typeOnly : Bool) (clause source : Text) : (contentOf typeOnly clause source).WellNamed := by
  have folded : ∀ (entries : List Text) (i : ImportContent), i.WellNamed → (entries.foldl addBinding i).WellNamed := by
    intro entries
    induction entries with
    | nil => exact fun i named => named
    | cons entry rest ih => exact fun i named => ih _ (addBinding_wellNamed named entry)
  unfold contentOf
  refine folded _ _ ?_
  split
  · rename_i body _ _
    refine ⟨?_, fun s member => (specifierList_isName s member).1⟩
    intro n member
    simp only [ImportContent.names, toList_none, nil_append, List.mem_map] at member
    obtain ⟨s, listed, rfl⟩ := member
    exact (specifierList_isName s listed).2
  · exact ⟨by simp [ImportContent.names], by simp⟩

theorem binding?_wellNamed {t : Text} {typeOnly : Bool} (found : binding? raw typeOnly t = some i) : i.WellNamed := by
  unfold binding? at found
  obtain ⟨⟨clause, origin⟩, _, same⟩ := bind_eq_some_iff.mp found
  cases same
  exact contentOf_wellNamed typeOnly clause origin.source

theorem sideEffect?_names {t : Text} (found : sideEffect? raw t = some i) : i.names = [] ∧ i.raw = raw := by
  unfold sideEffect? at found
  obtain ⟨rest, _, found⟩ := bind_eq_some_iff.mp found
  dsimp only at found
  split at found
  · split at found
    · split at found
      · obtain ⟨semicolon, _, same⟩ := bind_eq_some_iff.mp found
        cases same
        exact ⟨rfl, rfl⟩
      · cases found
    · cases found
  · cases found

theorem read?_wellNamed (found : read? raw = some i) : i.WellNamed := by
  unfold read? at found
  rcases or_eq_some_iff.mp (orElse_eq_or.symm.trans found) with effect | ⟨_, bound⟩
  · have none := (sideEffect?_names effect).1
    refine ⟨by simp [none], ?_⟩
    simp only [ImportContent.names, append_eq_nil_iff, map_eq_nil_iff] at none
    simp [none.2]
  · unfold withBindings? at bound
    obtain ⟨rest, _, bound⟩ := bind_eq_some_iff.mp bound
    rcases or_eq_some_iff.mp (orElse_eq_or.symm.trans bound) with typed | ⟨_, plain⟩
    · obtain ⟨_, _, read⟩ := bind_eq_some_iff.mp typed
      exact binding?_wellNamed read
    · exact binding?_wellNamed plain

theorem read?_raw (found : read? raw = some i) : i.raw = raw := by
  have bound : ∀ {typeOnly : Bool} {t : Text}, binding? raw typeOnly t = some i → i.raw = raw := by
    intro typeOnly t found
    obtain ⟨_, _, same⟩ := bind_eq_some_iff.mp found
    cases same
    rfl
  unfold read? at found
  rcases or_eq_some_iff.mp (orElse_eq_or.symm.trans found) with effect | ⟨_, found⟩
  · exact (sideEffect?_names effect).2
  · obtain ⟨rest, _, found⟩ := bind_eq_some_iff.mp found
    rcases or_eq_some_iff.mp (orElse_eq_or.symm.trans found) with typed | ⟨_, plain⟩
    · obtain ⟨_, _, read⟩ := bind_eq_some_iff.mp typed
      exact bound read
    · exact bound plain

def restrict (i : Import) (used : List Text) : Import :=
  {i with
    defaultName := i.defaultName.filter used.contains
    namespaceName := i.namespaceName.filter used.contains
    specifiers := i.specifiers.filter fun s => used.contains s.asName}

@[simp, grind =] theorem restrict_names (i : Import) (used : List Text) : (i.restrict used).names = i.names.filter used.contains := by
  have option : ∀ o : Option Text, (o.filter used.contains).toList = o.toList.filter used.contains := by
    intro o
    cases o with
    | none => rfl
    | some n =>
      rw [filter_some, toList_some, filter_singleton]
      cases used.contains n <;> rfl
  have listed : (i.specifiers.filter fun s => used.contains s.asName).map (·.asName) =
      (i.specifiers.map (·.asName)).filter used.contains := by
    rw [List.filter_map]
    rfl
  show (i.defaultName.filter used.contains).toList ++ (i.namespaceName.filter used.contains).toList ++
    (i.specifiers.filter fun s => used.contains s.asName).map (·.asName) = _
  rw [option, option, listed, ← filter_append, ← filter_append]
  rfl

structure PartOf (k i : Import) : Prop where
  source : k.source = i.source
  defaultName : ∀ n, k.defaultName = some n → i.defaultName = some n
  namespaceName : ∀ n, k.namespaceName = some n → i.namespaceName = some n
  specifiers : k.specifiers.Sublist i.specifiers
  typeOnly : k.typeOnly = i.typeOnly
  quote : k.quote = i.quote
  written : k = i ∨ k.raw = k.render

theorem PartOf.refl (i : Import) : PartOf i i :=
  ⟨rfl, fun _ same => same, fun _ same => same, List.Sublist.refl _, rfl, rfl, .inl rfl⟩

theorem PartOf.wellNamed {k i : Import} (part : PartOf k i) (named : i.WellNamed) : k.WellNamed := by
  refine ⟨?_, fun s member => named.listed s (part.specifiers.subset member)⟩
  have bound : ∀ n, n ∈ i.names → IsName n := named.bound
  simp only [ImportContent.names, List.forall_mem_append, Option.mem_toList] at bound ⊢
  obtain ⟨⟨default, space⟩, listed⟩ := bound
  refine ⟨⟨fun n same => default n (part.defaultName n same),
    fun n same => space n (part.namespaceName n same)⟩, fun n member => ?_⟩
  obtain ⟨s, kept, rfl⟩ := mem_map.mp member
  exact listed _ (mem_map_of_mem (part.specifiers.subset kept))

theorem narrow_eq (i : Import) (used : List Text) : i.narrow used = if (i.restrict used).isSideEffect then none
    else if (i.restrict used).names = i.names then some i else some {i.restrict used with raw := (i.restrict used).render} := rfl

theorem narrow_some (narrowed : i.narrow used = some k) : k.names = i.names.filter used.contains ∧ k.names ≠ [] ∧ PartOf k i := by
  have names := restrict_names i used
  rw [narrow_eq] at narrowed
  split at narrowed
  · cases narrowed
  · rename_i binding
    have nonempty : (i.restrict used).names ≠ [] := by
      simpa [ImportContent.isSideEffect] using binding
    split at narrowed
    · rename_i all
      cases narrowed
      exact ⟨by rw [← names, all], by rw [← all]; exact nonempty, .refl i⟩
    · cases narrowed
      refine ⟨names, nonempty, rfl, ?_, ?_, filter_sublist, rfl, rfl, .inr rfl⟩
      · exact fun n kept => (filter_eq_some_iff.mp kept).1
      · exact fun n kept => (filter_eq_some_iff.mp kept).1

theorem narrow_none (narrowed : i.narrow used = none) : i.names.filter used.contains = [] := by
  rw [narrow_eq] at narrowed
  split at narrowed
  · rename_i effect
    rw [← restrict_names]
    simpa [ImportContent.isSideEffect] using effect
  · split at narrowed <;> cases narrowed

def wanted (text : Text) (retain : List Text) (n : Text) : Bool :=
  retain.contains n || references n text

@[simp] theorem filter_wanted (text : Text) (retain names : List Text) :
    names.filter (names.filter (wanted text retain)).contains = names.filter (wanted text retain) := by
  refine filter_congr fun n member => ?_
  rw [Bool.eq_iff_iff, contains_iff_mem, mem_filter]
  exact ⟨And.right, fun asked => ⟨member, asked⟩⟩

theorem needed_some (found : needed text retain i = some k) :
    k.names = i.names.filter (wanted text retain) ∧ k.names ≠ [] ∧ PartOf k i := by
  obtain ⟨names, nonempty, part⟩ := narrow_some found
  exact ⟨names.trans (filter_wanted text retain i.names), nonempty, part⟩

theorem needed_none (found : needed text retain i = none) : i.names.filter (wanted text retain) = [] :=
  (filter_wanted text retain i.names).symm.trans (narrow_none found)

theorem needed_names (text : Text) (retain : List Text) (table : List Import) :
    (table.filterMap (needed text retain)).flatMap (·.names) = (table.flatMap (·.names)).filter (wanted text retain) := by
  induction table with
  | nil => rfl
  | cons i rest ih =>
    rw [flatMap_cons, filter_append, ← ih]
    cases found : needed text retain i with
    | none => rw [filterMap_cons_none found, needed_none found, nil_append]
    | some k =>
      rw [filterMap_cons_some found, flatMap_cons, (needed_some found).1]

theorem withoutRepeats_eq {imports : List Import} (single : (imports.flatMap (·.names)).Nodup)
    (binding : ∀ i ∈ imports, i.names ≠ []) : withoutRepeats imports = imports := by
  induction imports with
  | nil => rfl
  | cons i rest ih =>
    rw [flatMap_cons, nodup_append] at single
    rw [forall_mem_cons] at binding
    rw [withoutRepeats, ih single.2.1 binding.2, filter_eq_self.mpr]
    intro j later
    obtain ⟨n, bound⟩ := exists_mem_of_ne_nil _ (binding.2 j later)
    simp only [decide_eq_true_eq]
    intro same
    have names : j.names = i.names := congrArg ImportContent.names same
    exact single.2.2 n (names ▸ bound) n (mem_flatMap.mpr ⟨j, later, bound⟩) rfl

theorem select_names {table : List Import} (single : (table.flatMap (·.names)).Nodup) (text : Text)
    (retain : List Text) : (select table text retain).flatMap (·.names) =
      (table.flatMap (·.names)).filter (wanted text retain) := by
  have effects : (table.filter (!·.isSideEffect)).flatMap (·.names) = table.flatMap (·.names) := by
    rw [← Plan.flatMap_nonempty (fun i : Import => i.names) table]
    congr 2
    funext i
    rw [Bool.eq_iff_iff]
    simp [ImportContent.isSideEffect]
  have names := needed_names text retain (table.filter (!·.isSideEffect))
  rw [effects] at names
  unfold select
  rw [withoutRepeats_eq, names]
  · rw [names]
    exact single.filter _
  · intro k member
    obtain ⟨i, _, found⟩ := mem_filterMap.mp member
    exact (needed_some found).2.1

theorem select_part {table : List Import} (member : k ∈ select table text retain) : ∃ i ∈ table, PartOf k i ∧ k.names ≠ [] := by
  obtain ⟨i, listed, found⟩ := mem_filterMap.mp (withoutRepeats_subset member)
  obtain ⟨_, nonempty, part⟩ := needed_some found
  exact ⟨i, (mem_filter.mp listed).1, part, nonempty⟩

end Import

end ModuleSplit
