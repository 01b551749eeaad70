import ModuleSplit.Config.Validate
import ModuleSplit.Proofs.Config.Precedence
import ModuleSplit.Proofs.Result

namespace ModuleSplit

open List Option

namespace Entries

variable {a b : Entries}

theorem get?_of_mem (nodup : (ids a).Nodup) {e : Key × Value} (listed : e ∈ a) : get? a e.1 = some e.2 := by
  induction a with
  | nil => cases listed
  | cons first rest ih =>
    obtain ⟨absent, nodup⟩ := nodup_cons.mp nodup
    rw [get?_cons]
    rcases mem_cons.mp listed with rfl | later
    · rw [if_pos rfl]
    · rw [if_neg, ih nodup later]
      intro same
      exact absent (mem_map.mpr ⟨e, later, same.symm⟩)

theorem exists_of_get? {key : Key} {v : Value} (found : get? a key = some v) : ∃ k, k.identity = key.identity ∧ (k, v) ∈ a := by
  obtain ⟨e, listed, rfl⟩ := map_eq_some_iff.mp found
  exact ⟨e.1, by simpa using find?_some listed, mem_of_find?_eq_some listed⟩

-- A text is never the same key as something that is none.
theorem mem_of_get? {t : Text} {v : Value} (found : get? a (.text t) = some v) : (.text t, v) ∈ a := by
  obtain ⟨k, same, listed⟩ := exists_of_get? found
  rwa [Key.identity_eq_text.mp same] at listed

theorem put_old (nodup : (ids a).Nodup) {key : Key} (present : key.identity ∈ ids a) (v : Value) :
    put a key v = a.map fun e => (e.1, if e.1.identity = key.identity then v else e.2) := by
  induction a with
  | nil => cases present
  | cons first rest ih =>
    obtain ⟨absent, nodup⟩ := nodup_cons.mp nodup
    rw [put, map_cons]
    by_cases same : first.1.identity = key.identity
    · have others : ∀ e ∈ rest, (e.1, if e.1.identity = key.identity then v else e.2) = id e := by
        intro e later
        rw [if_neg fun here => absent (mem_map.mpr ⟨e, later, here.trans same.symm⟩)]
        rfl
      rw [if_pos same, if_pos same, map_congr_left others, List.map_id]
    · rw [if_neg same, if_neg same, ih nodup (mem_of_ne_of_mem (Ne.symm same) present)]

def laid (b : Entries) (e : Key × Value) : Value := (get? b e.1).elim e.2 (overlay e.2)

theorem merge_old (known : (ids a).Nodup) (nodup : (ids b).Nodup)
    (within : ∀ e ∈ b, e.1.identity ∈ ids a) : merge a b = a.map fun e => (e.1, laid b e) := by
  induction b generalizing a with
  | nil => exact (List.map_id a).symm
  | cons first rest ih =>
    obtain ⟨absent, nodup⟩ := nodup_cons.mp nodup
    obtain ⟨old, within⟩ := forall_mem_cons.mp within
    have keys := ids_of_keys (keys_put old ((get? a first.1).elim first.2 fun old => overlay old first.2))
    rw [merge_cons, ih (keys ▸ known) nodup (keys ▸ within), put_old known old, List.map_map]
    refine map_congr_left fun e listed => ?_
    unfold laid
    rw [get?_cons]
    by_cases same : first.1.identity = e.1.identity
    · have last : get? rest e.1 = none := get?_eq_none.mpr (same ▸ absent)
      simp [same, last, get?_congr same, get?_of_mem known listed]
    · simp [same, Ne.symm same]

theorem overlay_plain {old : Value} (plain : old.isDict = false) (v : Value) : overlay old v = v := by
  cases old with
  | dict entries => cases plain
  | _ => rw [overlay]; simp

def among (es : Entries) (keys : List Key) : Entries := es.filter fun e => e.1 ∈ keys

@[simp] theorem mem_among {es : Entries} {keys : List Key} {e : Key × Value} : e ∈ among es keys ↔ e ∈ es ∧ e.1 ∈ keys := by simp [among]

theorem nodup_among {es : Entries} (nodup : (ids es).Nodup) (keys : List Key) :
    (ids (among es keys)).Nodup := nodup.sublist (filter_sublist.map _)

theorem merge_again (known : (ids a).Nodup) (plain : ∀ e ∈ a, e.2.isDict = false)
    (nodup : (ids b).Nodup) (within : ∀ e ∈ b, e.1.identity ∈ ids a) : merge a (merge a b) = merge a b := by
  have same : ∀ e ∈ a, laid (merge a b) e = laid b e := by
    intro e listed
    unfold laid
    rw [get?_merge a nodup, get?_of_mem known listed]
    cases get? b e.1 <;> simp [overlay_plain (plain e listed)]
  have keys : ids (merge a b) = ids a := by
    rw [merge_old known nodup within, ids, List.map_map]
    rfl
  rw [merge_old known (keys ▸ known), merge_old known nodup within]
  · refine map_congr_left fun e listed => ?_
    rw [← merge_old known nodup within, same e listed]
  · intro e listed
    exact keys ▸ mem_ids listed

end Entries

def Key.isOrdinary : Key → Bool
  | .text t => !Text.startsWith t "__"
  | _ => false

-- A mapping of ordinary names, each of them once.
def Value.IsSection (v : Value) : Prop :=
  ∃ es, v = .dict es ∧ (Entries.ids es).Nodup ∧ ∀ e ∈ es, e.1.isOrdinary

namespace Settings

open Entries

-- A setting that fits is taken and shown as it was given; others are passed over.
def Assigns {σ : Type} (assign : σ → Key → Value → Result σ) (toValue : σ → Result Value)
    (names : List Key) (Fits : Key → Value → Prop) : Prop :=
  ∀ s a key v, toValue s = .ok (.dict a) → a.map (·.1) = names → key.isOrdinary → Fits key v →
    ∃ s', assign s key v = .ok s' ∧
      toValue s' = .ok (.dict (if key ∈ names then put a key v else a))

-- How a section takes its settings, shows and checks them. Every check is one on single values.
structure SectionLaws {σ : Type} (assign : σ → Key → Value → Result σ) (toValue : σ → Result Value)
    (start : σ) (check : Value → Result PUnit) where
  names : List Key
  defaults : Entries
  Fits : Key → Value → Prop
  shown : toValue start = .ok (.dict defaults)
  keys : defaults.map (·.1) = names := by rfl
  nodup : names.Nodup := by decide
  texts : ∀ key ∈ names, key.identity = key := by decide
  ordinary : ∀ e ∈ defaults, e.1.isOrdinary := by decide
  plain : ∀ e ∈ defaults, e.2.isDict = false := by decide
  finite : ∀ e ∈ defaults, e.2.holdsItself = false := by decide
  check_iff : ∀ es : Entries, es.ids.Nodup →
    (check (.dict es) = .ok ⟨⟩ ↔ ∀ e ∈ es, Fits e.1 e.2)
  fits : ∀ e ∈ defaults, Fits e.1 e.2
  step : Assigns assign toValue names Fits

namespace SectionLaws

variable {σ : Type} {assign : σ → Key → Value → Result σ} {toValue : σ → Result Value} {start : σ}
  {check : Value → Result PUnit} (laws : SectionLaws assign toValue start check) {es : Entries}

def merged (es : Entries) : Entries := merge laws.defaults (among es laws.names)

theorem assignAll_cons {s next : σ} {e : Key × Value} (accepted : assign s e.1 e.2 = .ok next)
    (rest : Entries) : assignAll assign s (e :: rest) = assignAll assign next rest := by
  simp only [assignAll, foldlM_cons, accepted]
  rfl

theorem ids_of_names {a : Entries} (names : a.map (·.1) = laws.names) : ids a = laws.names := by
  have same : ids a = (a.map (·.1)).map Key.identity := by
    rw [List.map_map]
    rfl
  rw [same, names]
  exact (map_congr_left laws.texts).trans (List.map_id _)

theorem within : ∀ e ∈ among es laws.names, e.1.identity ∈ ids laws.defaults := by
  intro e listed
  have known := (mem_among.mp listed).2
  rwa [laws.texts _ known, laws.ids_of_names laws.keys]

theorem named : ∀ e ∈ laws.defaults, ∃ t, e.1 = .text t := by
  intro e default
  have ordinary := laws.ordinary e default
  cases key : e.1 with
  | text t => exact ⟨t, rfl⟩
  | _ =>
    rw [key] at ordinary
    cases ordinary

theorem nodup_defaults : (ids laws.defaults).Nodup := laws.ids_of_names laws.keys ▸ laws.nodup

variable (nodup : (ids es).Nodup)
include nodup

theorem assignAll_shown (ordinary : ∀ e ∈ es, e.1.isOrdinary) (fits : ∀ e ∈ es, laws.Fits e.1 e.2)
    {s : σ} {a : Entries} (shown : toValue s = .ok (.dict a)) (names : a.map (·.1) = laws.names)
    (fresh : ∀ e ∈ es, ∀ old, get? a e.1 = some old → old.isDict = false) : ∃ s', assignAll assign s es = .ok s' ∧
      toValue s' = .ok (.dict (merge a (among es laws.names))) := by
  induction es generalizing s a with
  | nil => exact ⟨s, rfl, shown⟩
  | cons first rest ih =>
    obtain ⟨absent, nodup⟩ := nodup_cons.mp nodup
    rw [forall_mem_cons] at ordinary fits fresh
    obtain ⟨next, assigned, shown⟩ := laws.step s a first.1 first.2 shown names ordinary.1 fits.1
    rw [assignAll_cons assigned]
    by_cases known : first.1 ∈ laws.names
    · rw [if_pos known] at shown
      have kept : (get? a first.1).elim first.2 (overlay · first.2) = first.2 := by
        cases old : get? a first.1 with
        | none => rfl
        | some old' => exact overlay_plain (fresh.1 old' old) first.2
      rw [among, filter_cons_of_pos (by simpa using known), merge_cons, kept]
      refine ih nodup ordinary.2 fits.2 shown ?_ ?_
      · have present : first.1.identity ∈ ids a := by rwa [laws.texts _ known, laws.ids_of_names names]
        rw [keys_put present, names]
      · intro e later old found
        rw [get?_put, if_neg fun same => absent (mem_map.mpr ⟨e, later, same.symm⟩)] at found
        exact fresh.2 e later old found
    · rw [if_neg known] at shown
      rw [among, filter_cons_of_neg (by simpa using known)]
      exact ih nodup ordinary.2 fits.2 shown names fresh.2

theorem merged_eq : laws.merged es = laws.defaults.map fun e => (e.1, laid (among es laws.names) e) :=
  merge_old laws.nodup_defaults (nodup_among nodup _) laws.within

theorem merged_all {P : Key → Value → Prop} (before : ∀ e ∈ laws.defaults, P e.1 e.2) :
    (∀ e ∈ laws.merged es, P e.1 e.2) ↔ ∀ e ∈ among es laws.names, P e.1 e.2 := by
  rw [merged_eq laws nodup, List.forall_mem_map]
  constructor
  · intro all e listed
    have known := (mem_among.mp listed).2
    rw [← laws.keys] at known
    obtain ⟨e', default, same⟩ := mem_map.mp known
    have found := get?_of_mem (nodup_among nodup laws.names) listed
    have value : laid (among es laws.names) e' = e.2 := by
      rw [laid, show e'.1 = e.1 from same, found, elim_some, overlay_plain (laws.plain e' default)]
    have given := all e' default
    rwa [value, show e'.1 = e.1 from same] at given
  · intro all e default
    unfold laid
    cases found : get? (among es laws.names) e.1 with
    | none => exact before e default
    | some v =>
      rw [elim_some, overlay_plain (laws.plain e default)]
      obtain ⟨t, named⟩ := laws.named e default
      rw [named] at found ⊢
      exact all _ (mem_of_get? found)

@[simp] theorem keys_merged : (laws.merged es).map (·.1) = laws.names := by
  rw [merged_eq laws nodup, List.map_map]
  exact laws.keys

theorem merged_again : laws.merged (laws.merged es) = laws.merged es := by
  have all : among (laws.merged es) laws.names = laws.merged es := by
    refine filter_eq_self.mpr fun e listed => ?_
    rw [decide_eq_true_eq, ← laws.keys_merged nodup]
    exact mem_map_of_mem listed
  rw [merged, all]
  exact merge_again laws.nodup_defaults laws.plain (nodup_among nodup _) laws.within

theorem represented (ordinary : ∀ e ∈ es, e.1.isOrdinary) (passes : check (.dict es) = .ok ⟨⟩) :
    (∃ s, assignAll assign start es = .ok s ∧ toValue s = .ok (.dict (laws.merged es))) ∧
      check (.dict (laws.merged es)) = .ok ⟨⟩ := by
  have fits := (laws.check_iff es nodup).mp passes
  refine ⟨?_, (laws.check_iff _ ?_).mpr ((laws.merged_all nodup laws.fits).mpr ?_)⟩
  · refine laws.assignAll_shown nodup ordinary fits laws.shown laws.keys ?_
    intro e _ old found
    obtain ⟨k, _, listed⟩ := exists_of_get? found
    exact laws.plain _ listed
  · rw [laws.ids_of_names (laws.keys_merged nodup)]
    exact laws.nodup
  · exact fun e listed => fits e (mem_among.mp listed).1

end SectionLaws

@[simp] theorem mentioned?_dict (es : Entries) (name : String) : Value.mentioned? (.dict es) name = .ok (Entries.find? es name) := by
  have present : has es (.ofString name) = (Entries.find? es name).isSome := by
    rw [Entries.find?, get?, isSome_map, Bool.eq_iff_iff, find?_isSome]
    exact any_eq_true
  simp only [Value.mentioned?, Value.mentions, Value.lookup, present]
  cases Entries.find? es name <;> rfl

theorem checkMentioned_ok {es : Entries} (nodup : (Entries.ids es).Nodup) {name : String}
    {ok : Value → Bool} {problem : ConfigProblem} : checkMentioned (.dict es) name ok problem = .ok ⟨⟩ ↔
      ∀ e ∈ es, e.1 = .ofString name → ok e.2 = true := by
  have required : ∀ v, requireThat (ok v) problem = .ok ⟨⟩ ↔ ok v = true := by
    intro v
    unfold requireThat
    split <;> simp [*]
  rw [checkMentioned, mentioned?_dict]
  constructor
  · intro passes e listed named
    have found := get?_of_mem nodup listed
    rw [named] at found
    rw [Entries.find?, found] at passes
    exact (required e.2).mp passes
  · intro all
    cases found : Entries.find? es name with
    | none => rfl
    | some v => exact (required v).mpr (all _ (mem_of_get? found) rfl)

theorem not_reserved {t : Text} (ordinary : (Key.text t).isOrdinary) : Reserved.named? t = none := by
  rw [Reserved.named?, map_eq_none_iff, find?_eq_none]
  rintro ⟨name, r⟩ _ spelled
  rw [decide_eq_true_eq] at spelled
  subst spelled
  simp [Key.isOrdinary, Text.startsWith, Reserved.spelled] at ordinary

end Settings

namespace SplitSettings

open Settings

def checks : List (String × (Value → Bool)) :=
  [("max_lines", Value.isPositiveInt), ("output_mode", isOneOf (OutputMode.all.map (·.name))),
    ("delimiter_mode", isOneOf (DelimiterMode.all.map (·.name))),
    ("backup_directory", Value.isTruthy)]

def Fits (key : Key) (v : Value) : Prop := ∀ c ∈ checks, key = .ofString c.1 → c.2 v = true

def names : List Key := ["max_lines", "output_mode", "delimiter_mode", "backup_directory",
  "overwrite_existing", "encoding"].map .ofString

def shown (s : SplitSettings) (output : OutputMode) (delimiter : DelimiterMode) : Entries :=
  names.zip [s.maxLines, .ofString output.name, .ofString delimiter.name, s.backupDirectory,
    s.overwriteExisting, s.encoding]

structure Whole (s : SplitSettings) (output : OutputMode) (delimiter : DelimiterMode) : Prop where
  outline : s.outline = .whole
  output : s.outputMode = .known output
  delimiter : s.delimiterMode = .known delimiter

theorem Whole.toValue_eq {s : SplitSettings} {output : OutputMode} {delimiter : DelimiterMode}
    (whole : s.Whole output delimiter) : s.toValue = .ok (.dict (s.shown output delimiter)) := by
  simp only [toValue, whole.outline, whole.output, whole.delimiter]
  rfl

theorem toValue_whole {s : SplitSettings} {a : Entries} (shows : s.toValue = .ok (.dict a))
    (keys : a.map (·.1) = names) : ∃ output delimiter, s.Whole output delimiter ∧ a = s.shown output delimiter := by
  unfold toValue at shows
  split at shows
  · rename_i output delimiter outline known known'
    cases shows
    exact ⟨output, delimiter, ⟨outline, known, known'⟩, rfl⟩
  · cases shows
    simp [names] at keys
  · cases shows

theorem validate_iff (es : Entries) (nodup : (Entries.ids es).Nodup) :
    validateSplit (.dict es) = .ok ⟨⟩ ↔ ∀ e ∈ es, Fits e.1 e.2 := by
  simp only [validateSplit, Result.andThen_ok, checkMentioned_ok nodup, Fits, checks, forall_mem_cons]
  grind

theorem of_isOneOf {α : Type} {all : List α} {name : α → String} {v : Value}
    (one : isOneOf (all.map name) v = true) : ∃ a, v = .ofString (name a) := by
  obtain ⟨_, listed, same⟩ := any_eq_true.mp one
  obtain ⟨a, _, rfl⟩ := mem_map.mp listed
  cases v with
  | text t => exact ⟨a, congrArg Value.text (by simpa [Value.asText?] using same)⟩
  | _ => cases same

theorem assigns : Assigns assign toValue names Fits := by
  intro s a key v shows keys ordinary fits
  obtain ⟨output, delimiter, whole, rfl⟩ := toValue_whole shows keys
  by_cases listed : key ∈ names
  · rw [if_pos listed]
    simp only [names, map_cons, map_nil, mem_cons, not_mem_nil, or_false] at listed
    rcases listed with rfl | rfl | rfl | rfl | rfl | rfl
    · exact ⟨{s with maxLines := v}, rfl, Whole.toValue_eq ⟨whole.1, whole.2, whole.3⟩⟩
    · obtain ⟨mode, rfl⟩ := of_isOneOf (fits _ (.tail _ (.head _)) rfl)
      refine ⟨{s with outputMode := .known mode}, ?_, Whole.toValue_eq ⟨whole.1, rfl, whole.3⟩⟩
      cases mode <;> rfl
    · obtain ⟨mode, rfl⟩ := of_isOneOf (fits _ (.tail _ (.tail _ (.head _))) rfl)
      refine ⟨{s with delimiterMode := .known mode}, ?_, Whole.toValue_eq ⟨whole.1, whole.2, rfl⟩⟩
      cases mode <;> rfl
    · exact ⟨{s with backupDirectory := v}, rfl, Whole.toValue_eq ⟨whole.1, whole.2, whole.3⟩⟩
    · exact ⟨{s with overwriteExisting := v}, rfl, Whole.toValue_eq ⟨whole.1, whole.2, whole.3⟩⟩
    · exact ⟨{s with encoding := v}, rfl, Whole.toValue_eq ⟨whole.1, whole.2, whole.3⟩⟩
  · rw [if_neg listed]
    refine ⟨s, ?_, shows⟩
    cases key with
    | text t =>
      simp [names, Key.ofString] at listed
      simp [assign, settingName, listed, not_reserved ordinary, bind, Except.bind, pure, Except.pure]
    | _ => cases ordinary

def laws : SectionLaws assign toValue {} validateSplit where
  names := names
  defaults := shown {} .sibling .literalAware
  Fits := Fits
  shown := rfl
  check_iff := validate_iff
  fits := by unfold SplitSettings.Fits; decide
  step := assigns

end SplitSettings

namespace ClassificationSettings

open Settings

def names : List Key := ["main_role_suffixes", "component_type_annotations", "component_wrappers",
  "markup_patterns"].map .ofString

def Fits (_ : Key) (v : Value) : Prop := v.isTextList = true

def shown (s : ClassificationSettings) : Entries :=
  names.zip ([s.mainRoleSuffixes, s.componentTypeAnnotations, s.componentWrappers,
    s.markupPatterns].map .list)

theorem toValue_eq {s : ClassificationSettings} {v : Value} : s.toValue = .ok v ↔ s.outline = .whole ∧ v = .dict s.shown := by
  unfold toValue
  split
  · simp only [*, true_and, Except.ok.injEq]
    exact eq_comm
  · simp [*]

theorem validate_iff (es : Entries) (_ : (Entries.ids es).Nodup) :
    validateClassification (.dict es) = .ok ⟨⟩ ↔ ∀ e ∈ es, Fits e.1 e.2 := by
  rw [validateClassification, Result.forM_ok]
  refine forall₂_congr fun e _ => ?_
  obtain ⟨key, v⟩ := e
  unfold Fits
  cases texts : v.isTextList with
  | true => simp [texts, pure, Except.pure]
  | false =>
    cases shown : key.display <;> simp [texts, shown, bind, Except.bind, throw, throwThe, MonadExceptOf.throw]

theorem assigns : Assigns assign toValue names Fits := by
  intro s a key v shows keys ordinary fits
  obtain ⟨whole, same⟩ := toValue_eq.mp shows
  cases same
  by_cases listed : key ∈ names
  · rw [if_pos listed]
    cases v with
    | list items =>
      simp only [names, map_cons, map_nil, mem_cons, not_mem_nil, or_false] at listed
      rcases listed with rfl | rfl | rfl | rfl
      · exact ⟨{s with mainRoleSuffixes := items}, rfl, toValue_eq.mpr ⟨whole, rfl⟩⟩
      · exact ⟨{s with componentTypeAnnotations := items}, rfl, toValue_eq.mpr ⟨whole, rfl⟩⟩
      · exact ⟨{s with componentWrappers := items}, rfl, toValue_eq.mpr ⟨whole, rfl⟩⟩
      · exact ⟨{s with markupPatterns := items}, rfl, toValue_eq.mpr ⟨whole, rfl⟩⟩
    | _ => cases fits
  · rw [if_neg listed]
    refine ⟨s, ?_, shows⟩
    cases key with
    | text t =>
      simp [names, Key.ofString] at listed
      simp [assign, settingName, listed, isReserved, not_reserved ordinary, bind, Except.bind, pure, Except.pure]
    | _ => cases ordinary

def laws : SectionLaws assign toValue {} validateClassification where
  names := names
  defaults := shown {}
  Fits := Fits
  shown := rfl
  check_iff := validate_iff
  fits := by unfold ClassificationSettings.Fits; decide
  step := assigns

end ClassificationSettings

namespace DiscoverySettings

open Settings

def names : List Key := discoveryLists.map .ofString

def Fits (key : Key) (v : Value) : Prop := key ∈ names → ∃ items, v = .list items ∧
  (key = .ofString "file_extensions" → ∀ item ∈ items, validateExtension item = .ok ⟨⟩)

def shown (s : DiscoverySettings) : Entries :=
  names.zip ([s.targetDirectories, s.fileExtensions, s.excludePatterns].map .list)

theorem toValue_eq {s : DiscoverySettings} {v : Value} : s.toValue = .ok v ↔ s.outline = .whole ∧ v = .dict s.shown := by
  unfold toValue
  split
  · simp only [*, true_and, Except.ok.injEq]
    exact eq_comm
  · simp [*]

theorem isList_iff {v : Value} : v.isList = true ↔ ∃ items, v = .list items := by
  cases v <;> simp [Value.isList]

theorem validate_iff (es : Entries) (nodup : (Entries.ids es).Nodup) :
    validateDiscovery (.dict es) = .ok ⟨⟩ ↔ ∀ e ∈ es, Fits e.1 e.2 := by
  rw [validateDiscovery, Result.andThen_ok, Result.forM_ok]
  simp only [checkMentioned_ok nodup, isList_iff]
  constructor
  · rintro ⟨lists, extensions⟩ e listed known
    obtain ⟨name, member, named⟩ := mem_map.mp known
    obtain ⟨items, same⟩ := lists name member e listed named.symm
    refine ⟨items, same, fun extension => ?_⟩
    have found := Entries.get?_of_mem nodup listed
    rw [extension, same] at found
    rw [Entries.find?, found] at extensions
    exact Result.forM_ok.mp extensions
  · intro fits
    refine ⟨fun name member e listed named => ?_, ?_⟩
    · obtain ⟨items, same, _⟩ := fits e listed (named ▸ mem_map_of_mem member)
      exact ⟨items, same⟩
    · cases found : Entries.find? es "file_extensions" with
      | none => rfl
      | some v =>
        obtain ⟨items, same, all⟩ := fits _ (Entries.mem_of_get? found) (mem_map_of_mem (by decide))
        cases same
        exact Result.forM_ok.mpr (all rfl)

theorem assigns : Assigns assign toValue names Fits := by
  intro s a key v shows keys ordinary fits
  obtain ⟨whole, same⟩ := toValue_eq.mp shows
  cases same
  by_cases listed : key ∈ names
  · rw [if_pos listed]
    obtain ⟨items, rfl, _⟩ := fits listed
    simp only [names, discoveryLists, map_cons, map_nil, mem_cons, not_mem_nil, or_false] at listed
    rcases listed with rfl | rfl | rfl
    · exact ⟨{s with targetDirectories := items}, rfl, toValue_eq.mpr ⟨whole, rfl⟩⟩
    · exact ⟨{s with fileExtensions := items}, rfl, toValue_eq.mpr ⟨whole, rfl⟩⟩
    · exact ⟨{s with excludePatterns := items}, rfl, toValue_eq.mpr ⟨whole, rfl⟩⟩
  · rw [if_neg listed]
    refine ⟨s, ?_, shows⟩
    cases key with
    | text t =>
      simp [names, discoveryLists, Key.ofString] at listed
      simp [assign, settingName, listed, isReserved, not_reserved ordinary, bind, Except.bind, pure, Except.pure]
    | _ => cases ordinary

def laws : SectionLaws assign toValue {} validateDiscovery where
  names := names
  defaults := shown {}
  Fits := Fits
  shown := rfl
  check_iff := validate_iff
  fits := (validate_iff _ (by decide)).mp rfl
  step := assigns

end DiscoverySettings

end ModuleSplit
