import ModuleSplit.Proofs.Config.Sections

namespace ModuleSplit

open List

namespace Settings

open Entries

theorem holdsItself_dict {es : Entries} :
    (Value.dict es).holdsItself = false ↔ ∀ e ∈ es, e.2.holdsItself = false := by
  rw [Value.holdsItself]
  induction es with
  | nil => simp [Value.entryHoldsItself]
  | cons first rest ih => rw [Value.entryHoldsItself, Bool.or_eq_false_iff, ih, forall_mem_cons]

def known : List (String × List Key) :=
  [("split", SplitSettings.names), ("classification", ClassificationSettings.names),
    ("discovery", DiscoverySettings.names)]

def settingNames (key : Key) : Option (List Key) :=
  (known.find? fun s => Key.ofString s.1 = key).map (·.2)

def narrowed (names : List Key) : Value → Value
  | .dict es => .dict (among es names)
  | v => v

-- Data without unknown sections and settings.
def restricted (d : Entries) : Entries :=
  (d.filter fun e => (settingNames e.1).isSome).map fun e =>
    (e.1, narrowed ((settingNames e.1).getD []) e.2)

structure Taken {σ : Type} {assign : σ → Key → Value → Result σ} {toValue : σ → Result Value}
    {start : σ} {check : Value → Result PUnit} (laws : SectionLaws assign toValue start check)
    (d : Entries) (name : String) (es : Entries) : Prop where
  entries : sectionEntries d name = .ok es
  nodup : es.ids.Nodup
  ordinary : ∀ e ∈ es, e.1.isOrdinary
  passes : check (.dict es) = .ok ⟨⟩

def merged (split classification discovery : Entries) : Entries :=
  [(.ofString "split", .dict (SplitSettings.laws.merged split)),
    (.ofString "classification", .dict (ClassificationSettings.laws.merged classification)),
    (.ofString "discovery", .dict (DiscoverySettings.laws.merged discovery))]

theorem get?_restricted (d : Entries) {t : Text} {names : List Key} (section_ : settingNames (.text t) = some names) :
    get? (restricted d) (.text t) = (get? d (.text t)).map (narrowed names) := by
  induction d with
  | nil => rfl
  | cons first rest ih =>
    unfold restricted at ih ⊢
    rw [get?_cons, filter_cons]
    by_cases same : first.1.identity = Key.identity (.text t)
    · simp [Key.identity_eq_text.mp same, section_, get?_cons]
    · rw [if_neg same, ← ih]
      split
      · rw [map_cons, get?_cons, if_neg same]
      · rfl

section Section

variable {σ : Type} {assign : σ → Key → Value → Result σ} {toValue : σ → Result Value} {start : σ}
  {check : Value → Result PUnit} {laws : SectionLaws assign toValue start check} {d es : Entries}
  {name : String}

theorem Taken.laid_eq (taken : Taken laws d name es) (known : settingNames (.ofString name) = some laws.names) :
    laid (restricted d) (.ofString name, .dict laws.defaults) = .dict (laws.merged es) := by
  have entries := taken.entries
  unfold sectionEntries at entries
  rw [laid, show get? (restricted d) (.ofString name) = _ from get?_restricted d known]
  split at entries
  · rename_i absent
    cases entries
    rw [show get? d (.text name.toList) = none from absent]
    rfl
  · rename_i present
    cases entries
    rw [show get? d (.text name.toList) = some (.dict es) from present]
    exact overlay.eq_1 _ _
  · cases entries

theorem Taken.again (taken : Taken laws d name es) (other : Entries)
    (entries : Entries.find? other name = some (.dict (laws.merged es))) : Taken laws other name (laws.merged es) where
  entries := by rw [sectionEntries, entries]
  nodup := laws.ids_of_names (laws.keys_merged taken.nodup) ▸ laws.nodup
  ordinary := by
    intro e listed
    have key : e.1 ∈ laws.defaults.map (·.1) := by
      rw [laws.keys, ← laws.keys_merged taken.nodup]
      exact mem_map_of_mem listed
    obtain ⟨e', default, same⟩ := mem_map.mp key
    exact same ▸ laws.ordinary e' default
  passes := (laws.represented taken.nodup taken.ordinary taken.passes).2

theorem exists_taken (laws : SectionLaws assign toValue start check)
    (plain : ∀ v, Entries.find? d name = some v → v.IsSection)
    (passes : checkSection (.dict d) name check = .ok ⟨⟩) : ∃ es, Taken laws d name es := by
  rw [checkSection, mentioned?_dict] at passes
  cases found : Entries.find? d name with
  | none =>
    refine ⟨[], by rw [sectionEntries, found], nodup_nil, by simp, ?_⟩
    exact (laws.check_iff [] nodup_nil).mpr (by simp)
  | some v =>
    obtain ⟨es, rfl, nodup, ordinary⟩ := plain v found
    rw [found] at passes
    exact ⟨es, by rw [sectionEntries, found], nodup, ordinary, passes⟩

theorem Taken.checked (taken : Taken laws d name es) (entries : Entries.find? d name = some (.dict es)) :
    checkSection (.dict d) name check = .ok ⟨⟩ := by
  rw [checkSection, mentioned?_dict, entries]
  exact taken.passes

theorem Taken.finite (taken : Taken laws d name es) (whole : (Value.dict d).holdsItself = false) :
    (Value.dict (laws.merged es)).holdsItself = false := by
  have given : (Value.dict es).holdsItself = false := by
    have entries := taken.entries
    unfold sectionEntries at entries
    split at entries
    · cases entries
      rfl
    · rename_i found
      cases entries
      exact holdsItself_dict.mp whole _ (mem_of_get? found)
    · cases entries
  apply holdsItself_dict.mpr
  apply (laws.merged_all (P := fun _ v => v.holdsItself = false) taken.nodup laws.finite).mpr
  intro e listed
  exact holdsItself_dict.mp given e (mem_among.mp listed).1

end Section

theorem record_finite {s : Settings} {a m : Entries} (shown : s.toValue = .ok (.dict m))
    (first : s.split.toValue = .ok (.dict a)) (keys : a.map (·.1) = SplitSettings.names)
    (listed : (.ofString "split", .dict a) ∈ m) (finite : (Value.dict m).holdsItself = false) :
    s.record = .ok (.dict m) := by
  have given : s.split.givenValues.any (·.holdsItself) = false := by
    have inner := holdsItself_dict.mp (holdsItself_dict.mp finite _ listed)
    obtain ⟨output, delimiter, whole, rfl⟩ := SplitSettings.toValue_whole first keys
    simp only [SplitSettings.shown, SplitSettings.names, map_cons, map_nil,
      zip_cons_cons, zip_nil_left, forall_mem_cons] at inner
    simp [SplitSettings.givenValues, whole.outline, whole.output, whole.delimiter, inner]
  simp [record, shown, given, finite, bind, Except.bind, pure, Except.pure]

def defaults : Entries :=
  [(.ofString "split", .dict SplitSettings.laws.defaults),
    (.ofString "classification", .dict ClassificationSettings.laws.defaults),
    (.ofString "discovery", .dict DiscoverySettings.laws.defaults)]

section Together

variable {d split classification discovery : Entries}
  (taken : Taken SplitSettings.laws d "split" split)
  (taken' : Taken ClassificationSettings.laws d "classification" classification)
  (taken'' : Taken DiscoverySettings.laws d "discovery" discovery)
include taken taken' taken''

theorem built : ∃ s, ofValue (.dict d) = .ok s ∧ s.toValue = .ok (.dict (merged split classification discovery)) ∧
      s.split.toValue = .ok (.dict (SplitSettings.laws.merged split)) := by
  obtain ⟨⟨first, made, shown⟩, _⟩ := SplitSettings.laws.represented taken.nodup taken.ordinary taken.passes
  obtain ⟨⟨second, made', shown'⟩, _⟩ :=
    ClassificationSettings.laws.represented taken'.nodup taken'.ordinary taken'.passes
  obtain ⟨⟨third, made'', shown''⟩, _⟩ :=
    DiscoverySettings.laws.represented taken''.nodup taken''.ordinary taken''.passes
  refine ⟨⟨first, second, third⟩, ?_, ?_, shown⟩
  · simp only [ofValue, ofEntries, taken.entries, taken'.entries, taken''.entries, Result.bind_ok]
    exact ⟨_, rfl, _, made, _, rfl, _, made', _, rfl, _, made'', rfl⟩
  · simp [toValue, shown, shown', shown'', bind, Except.bind, pure, Except.pure, merged, Value.object]

theorem mergeAll_restricted (nodup : d.ids.Nodup) :
    mergeAll [.dict defaults, .dict (restricted d)] = .ok (merged split classification discovery) := by
  have keys : defaults.ids = known.map (Key.ofString ·.1) := rfl
  have distinct : defaults.ids.Nodup := by decide
  have two := mergeAll_dicts [defaults, restricted d]
  rw [foldl_cons, foldl_cons, merge_new (a := []) (b := defaults) distinct, nil_append, foldl_nil,
    merge_old distinct] at two
  · rw [merged, ← taken.laid_eq rfl, ← taken'.laid_eq rfl, ← taken''.laid_eq rfl]
    exact two
  · rw [restricted, ids, map_map]
    exact nodup.sublist (filter_sublist.map _)
  · intro e listed
    obtain ⟨e, kept, rfl⟩ := mem_map.mp listed
    have present := (mem_filter.mp kept).2
    rw [settingNames, Option.isSome_map, find?_isSome] at present
    obtain ⟨s, member, same⟩ := present
    have name : e.1 = .ofString s.1 := (of_decide_eq_true same).symm
    rw [keys, name]
    exact mem_map.mpr ⟨s, member, rfl⟩

theorem merged_finite (whole : (Value.dict d).holdsItself = false) :
    (Value.dict (merged split classification discovery)).holdsItself = false := by
  simp only [holdsItself_dict, merged, forall_mem_cons]
  exact ⟨holdsItself_dict.mp (taken.finite whole), holdsItself_dict.mp (taken'.finite whole),
    holdsItself_dict.mp (taken''.finite whole), by simp⟩

end Together

theorem validated_represented {d : Entries} (nodup : d.ids.Nodup)
    (finite : (Value.dict d).holdsItself = false)
    (plain : ∀ s ∈ known, ∀ v, Entries.find? d s.1 = some v → v.IsSection) (valid : validate (.dict d) = .ok ⟨⟩) :
    ∃ s m, ofValue (.dict d) = .ok s ∧ s.validateSelf = .ok ⟨⟩ ∧ s.record = .ok (.dict m) ∧
      (∃ defaults, ({} : Settings).record = .ok (.dict defaults) ∧
        mergeAll [.dict defaults, .dict (restricted d)] = .ok m) ∧
      ∃ s', ofValue (.dict m) = .ok s' ∧ s'.record = s.record := by
  simp only [known, forall_mem_cons] at plain
  simp only [validate, Result.andThen_ok] at valid
  obtain ⟨split, taken⟩ := exists_taken SplitSettings.laws plain.1 valid.1
  obtain ⟨classification, taken'⟩ := exists_taken ClassificationSettings.laws plain.2.1 valid.2.2
  obtain ⟨discovery, taken''⟩ := exists_taken DiscoverySettings.laws plain.2.2.1 valid.2.1
  obtain ⟨s, made, shown, inner⟩ := built taken taken' taken''
  let m := merged split classification discovery
  have again := taken.again m rfl
  have again' := taken'.again m rfl
  have again'' := taken''.again m rfl
  obtain ⟨s', made', shown', inner'⟩ := built again again' again''
  have stable : merged (SplitSettings.laws.merged split)
      (ClassificationSettings.laws.merged classification) (DiscoverySettings.laws.merged discovery) = m := by
    unfold merged
    rw [SplitSettings.laws.merged_again taken.nodup, ClassificationSettings.laws.merged_again taken'.nodup,
      DiscoverySettings.laws.merged_again taken''.nodup]
    rfl
  rw [stable] at shown'
  rw [SplitSettings.laws.merged_again taken.nodup] at inner'
  have passes : validate (.dict m) = .ok ⟨⟩ :=
    Result.andThen_ok.mpr ⟨again.checked rfl, Result.andThen_ok.mpr ⟨again''.checked rfl, again'.checked rfl⟩⟩
  have keys := SplitSettings.laws.keys_merged taken.nodup
  have shownFinite := merged_finite taken taken' taken'' finite
  have recorded : s.record = .ok (.dict m) := record_finite shown inner keys (.head _) shownFinite
  have recorded' : s'.record = .ok (.dict m) := record_finite shown' inner' keys (.head _) shownFinite
  refine ⟨s, m, made, ?_, recorded, ⟨defaults, rfl, mergeAll_restricted taken taken' taken'' nodup⟩, s', made', ?_⟩
  · rw [validateSelf, recorded]
    exact passes
  · rw [recorded', recorded]

theorem validated_represented_partly :
    let d : Entries := [(.ofString "split", .object [("max_lines", .int 5), ("tabs", .int 0)]),
      (.ofString "other", .null)]
    validate (.dict d) = .ok ⟨⟩ ∧ ∃ s m, ofValue (.dict d) = .ok s ∧ s.validateSelf = .ok ⟨⟩ ∧
      s.record = .ok (.dict m) := by
  intro d
  have valid : validate (.dict d) = .ok ⟨⟩ := rfl
  have plain : ∀ s ∈ known, ∀ v, Entries.find? d s.1 = some v → v.IsSection := by
    simp only [known, forall_mem_cons]
    refine ⟨?_, by rintro v ⟨⟩, by rintro v ⟨⟩, by simp⟩
    rintro v ⟨⟩
    exact ⟨_, rfl, by decide, by decide⟩
  obtain ⟨s, m, made, passes, recorded, _⟩ := validated_represented (by decide) (by decide) plain valid
  exact ⟨valid, s, m, made, passes, recorded⟩

end Settings

end ModuleSplit
