import ModuleSplit.Data.Value

-- Precedence along paths: where the later of two merged mappings has a value, so has the result.

namespace ModuleSplit

open List Option

@[simp] theorem Key.identity_text (t : Text) : identity (.text t) = .text t := rfl

@[simp] theorem Key.identity_ofString (s : String) : identity (.ofString s) = .ofString s := rfl

theorem Key.identity_eq_text {k : Key} {t : Text} : k.identity = .text t ↔ k = .text t := by
  cases k with
  | float d =>
    simp only [identity]
    split <;> simp
  | _ => simp [identity]

def Entries.ids (a : Entries) : List Key := a.map (·.1.identity)

namespace Value

-- What a path of keys leads to. Only mappings can be gone through.
def at? (v : Value) : List Key → Option Value
  | [] => some v
  | key :: path => match v with
    | .dict entries => (Entries.get? entries key).bind fun inner => at? inner path
    | _ => none

-- In every mapping that a path leads to, each key stands once.
def Distinct (v : Value) : Prop := ∀ path entries, v.at? path = some (.dict entries) →
  (Entries.ids entries).Nodup

-- The path goes on behind a value that is no mapping.
def Blocks (v : Value) (path : List Key) : Prop :=
  ∃ front key rest inner, path = front ++ key :: rest ∧ v.at? front = some inner ∧
    inner.isDict = false

variable {v : Value} {b : Entries} {key : Key} {path : List Key}

theorem at?_behind (plain : v.isDict = false) : v.at? (key :: path) = none := by
  cases v with
  | dict entries => cases plain
  | _ => rfl

theorem Distinct.keys (distinct : Distinct (.dict b)) : b.ids.Nodup := distinct [] b rfl

theorem Distinct.below (distinct : Distinct (.dict b)) (found : Entries.get? b key = some v) : v.Distinct := by
  intro path entries led
  apply distinct (key :: path)
  rw [at?, found]
  exact led

theorem distinct_of_plain (plain : v.isDict = false) : v.Distinct := by
  intro path entries led
  cases path with
  | nil =>
    cases led
    cases plain
  | cons key path =>
    rw [at?_behind plain] at led
    cases led

theorem Distinct.of_members (nodup : b.ids.Nodup) (below : ∀ e ∈ b, e.2.Distinct) : Distinct (.dict b) := by
  intro path entries led
  cases path with
  | nil =>
    cases led
    exact nodup
  | cons key path =>
    obtain ⟨inner, found, led⟩ := bind_eq_some_iff.mp led
    obtain ⟨e, listed, rfl⟩ := map_eq_some_iff.mp found
    exact below e (mem_of_find?_eq_some listed) path entries led

theorem blocks_behind (plain : v.isDict = false) : v.Blocks (key :: path) :=
  ⟨[], key, path, v, rfl, rfl, plain⟩

theorem not_blocks_nil : ¬v.Blocks [] := by
  rintro ⟨front, key, rest, _, split, _⟩
  simp at split

theorem blocks_cons : Blocks (.dict b) (key :: path) ↔ ∃ inner, Entries.get? b key = some inner ∧ inner.Blocks path := by
  constructor
  · rintro ⟨front, next, rest, last, split, led, plain⟩
    cases front with
    | nil =>
      cases led
      cases plain
    | cons first front =>
      obtain ⟨rfl, rfl⟩ := List.cons.inj split
      obtain ⟨inner, found, led⟩ := bind_eq_some_iff.mp led
      exact ⟨inner, found, front, next, rest, last, rfl, led, plain⟩
  · rintro ⟨inner, found, front, next, rest, last, rfl, led, plain⟩
    refine ⟨key :: front, next, rest, last, rfl, ?_, plain⟩
    rw [at?, found]
    exact led

theorem Blocks.at?_eq_none (blocks : v.Blocks path) : v.at? path = none := by
  induction path generalizing v with
  | nil => exact absurd blocks not_blocks_nil
  | cons key path ih =>
    cases v with
    | dict b =>
      obtain ⟨inner, found, further⟩ := blocks_cons.mp blocks
      rw [at?, found]
      exact ih further
    | _ => rfl

end Value

namespace Entries

variable {a b : Entries} {key : Key}

@[simp, grind =] theorem ids_cons (first : Key × Value) (rest : Entries) : ids (first :: rest) = first.1.identity :: rest.ids := rfl

@[simp, grind =] theorem ids_append (a b : Entries) : ids (a ++ b) = ids a ++ ids b := map_append

theorem mem_ids {e : Key × Value} (listed : e ∈ a) : e.1.identity ∈ ids a := mem_map_of_mem listed

theorem get?_congr {key other : Key} (same : key.identity = other.identity) (a : Entries) : get? a key = get? a other := by
  rw [get?, get?, same]

@[grind =] theorem get?_cons (first : Key × Value) (rest : Entries) (key : Key) :
    get? (first :: rest) key = if first.1.identity = key.identity then some first.2 else get? rest key := by
  unfold get?
  by_cases same : first.1.identity = key.identity
  · rw [find?_cons_of_pos (by simpa using same), if_pos same]
    rfl
  · rw [find?_cons_of_neg (by simpa using same), if_neg same]

@[grind =] theorem get?_put (a : Entries) (key other : Key) (v : Value) :
    get? (put a key v) other = if key.identity = other.identity then some v else get? a other := by
  induction a with
  | nil => exact get?_cons (key, v) [] other
  | cons first rest ih =>
    rw [put]
    split <;> grind

@[grind =] theorem get?_eq_none : get? b key = none ↔ key.identity ∉ ids b := by
  induction b with
  | nil => simp [get?, ids]
  | cons first rest ih =>
    rw [get?_cons, ids_cons, mem_cons, not_or, ← ih]
    grind

theorem put_new (absent : key.identity ∉ ids a) (v : Value) : put a key v = a ++ [(key, v)] := by
  induction a with
  | nil => rfl
  | cons first rest ih =>
    rw [ids_cons, mem_cons, not_or] at absent
    rw [put, if_neg (Ne.symm absent.1), ih absent.2]
    rfl

theorem keys_put (present : key.identity ∈ ids a) (v : Value) : (put a key v).map (·.1) = a.map (·.1) := by
  induction a with
  | nil => cases present
  | cons first rest ih =>
    rw [put]
    split
    · rfl
    · rename_i apart
      rw [map_cons, ih (mem_of_ne_of_mem (Ne.symm apart) present)]
      rfl

theorem ids_of_keys (same : a.map (·.1) = b.map (·.1)) : ids a = ids b := by
  have keys := congrArg (map Key.identity) same
  rwa [List.map_map, List.map_map] at keys

theorem nodup_put (nodup : (ids a).Nodup) (key : Key) (v : Value) : (ids (put a key v)).Nodup := by
  by_cases present : key.identity ∈ ids a
  · rwa [ids_of_keys (keys_put present v)]
  · rw [put_new present, ids_append]
    refine nodup_append.mpr ⟨nodup, by simp [ids], ?_⟩
    rintro old listed last new rfl
    rw [mem_singleton.mp new] at listed
    exact present listed

theorem merge_cons (a rest : Entries) (first : Key × Value) : merge a (first :: rest) = merge (put a first.1
      ((get? a first.1).elim first.2 fun old => overlay old first.2)) rest := by
  rw [merge]
  cases get? a first.1 <;> rfl

theorem get?_merge (a : Entries) (nodup : (ids b).Nodup) (key : Key) :
    get? (merge a b) key = (get? b key).elim (get? a key) fun v =>
      some ((get? a key).elim v fun old => overlay old v) := by
  induction b generalizing a with
  | nil => rfl
  | cons first rest ih =>
    obtain ⟨absent, nodup⟩ := nodup_cons.mp nodup
    rw [merge_cons, ih _ nodup, get?_cons, get?_put]
    by_cases same : first.1.identity = key.identity
    · rw [get?_eq_none.mpr (same ▸ absent), if_pos same, if_pos same, get?_congr same]
      rfl
    · rw [if_neg same, if_neg same]

theorem nodup_merge (nodup : (ids a).Nodup) (b : Entries) : (ids (merge a b)).Nodup := by
  induction b generalizing a with
  | nil => exact nodup
  | cons first rest ih =>
    rw [merge_cons]
    exact ih (nodup_put nodup _ _)

theorem merge_new (nodup : (ids (a ++ b)).Nodup) : merge a b = a ++ b := by
  induction b generalizing a with
  | nil => exact (append_nil a).symm
  | cons first rest ih =>
    have absent : first.1.identity ∉ ids a := by
      intro present
      rw [ids_append, nodup_append] at nodup
      exact nodup.2.2 _ present _ mem_cons_self rfl
    rw [append_cons] at nodup ⊢
    rw [merge_cons, get?_eq_none.mpr absent, elim_none, put_new absent, ih nodup]

structure Laid (before later after : Option Value) (blocked : Prop) : Prop where
  found : ∀ v, later = some v → after = some (before.elim v fun old => overlay old v)
  cut : blocked → after = none
  kept : later = none → ¬blocked → after = before

theorem laid_alone {later : Option Value} {blocked : Prop} (cut : blocked → later = none) : Laid none later later blocked := by
  refine ⟨?_, cut, fun absent _ => absent⟩
  rintro v rfl
  rfl

-- The induction is on the path; for each key the two mappings have a value or none.
theorem overlay_laid (x : Value) {y : Value} (distinct : y.Distinct) (path : List Key) :
    Laid (x.at? path) (y.at? path) ((overlay x y).at? path) (y.Blocks path) := by
  induction path generalizing x y with
  | nil =>
    refine ⟨?_, fun blocks => absurd blocks Value.not_blocks_nil, by simp [Value.at?]⟩
    rintro v ⟨⟩
    rfl
  | cons key path ih =>
    rw [overlay.eq_def]
    split
    · rename_i a b
      rw [Value.at?, Value.at?, Value.at?, Value.blocks_cons, get?_merge a distinct.keys key]
      cases later : get? b key with
      | none => exact ⟨by simp, by rintro ⟨_, ⟨⟩, _⟩, fun _ _ => rfl⟩
      | some v =>
        have inner : (∃ w, some v = some w ∧ w.Blocks path) ↔ v.Blocks path := by simp
        rw [inner]
        cases get? a key with
        | none => exact laid_alone Value.Blocks.at?_eq_none
        | some old => exact ih old (distinct.below later)
    · rename_i apart
      cases y with
      | dict b =>
        have nothing : x.at? (key :: path) = none := by
          cases x with
          | dict a => exact absurd rfl (apart a b rfl)
          | _ => rfl
        rw [nothing]
        exact laid_alone Value.Blocks.at?_eq_none
      | _ => exact ⟨by simp [Value.at?], fun _ => rfl, fun _ free => absurd (Value.blocks_behind rfl) free⟩

theorem mergeAll_dicts (ds : List Entries) : mergeAll (ds.map .dict) = .ok (ds.foldl merge []) := by
  unfold mergeAll
  generalize ([] : Entries) = merged
  induction ds generalizing merged with
  | nil => rfl
  | cons d ds ih =>
    rw [map_cons, foldlM_cons, foldl_cons, ← ih]
    cases d with
    | nil => rfl
    | cons first rest => rfl

theorem foldl_merge_filter (ds : List Entries) (merged : Entries) :
    (ds.filter (!·.isEmpty)).foldl merge merged = ds.foldl merge merged := by
  induction ds generalizing merged with
  | nil => rfl
  | cons d ds ih =>
    cases d with
    | nil => exact ih merged
    | cons first rest => exact ih (merge merged (first :: rest))

-- Later values come first along every path, a list of mappings is merged from the left two at a
-- time, and empty ones make no difference.
theorem merge_along_paths {a b : Entries} (earlier : Value.Distinct (.dict a)) (later : Value.Distinct (.dict b)) :
    (∀ path, (∀ x y, Value.at? (.dict a) path = some (.dict x) → Value.at? (.dict b) path = some (.dict y) →
        Value.at? (.dict (merge a b)) path = some (.dict (merge x y))) ∧ (∀ v, Value.at? (.dict b) path = some v →
        v.isDict = false ∨ (∀ x, Value.at? (.dict a) path ≠ some (.dict x)) → Value.at? (.dict (merge a b)) path = some v) ∧
      (Value.Blocks (.dict b) path → Value.at? (.dict (merge a b)) path = none) ∧
      (Value.at? (.dict b) path = none → ¬Value.Blocks (.dict b) path →
        Value.at? (.dict (merge a b)) path = Value.at? (.dict a) path)) ∧
    mergeAll [.dict a, .dict b] = .ok (merge a b) ∧ ∀ ds : List Entries,
      mergeAll ((a :: b :: ds).map .dict) = mergeAll ((merge a b :: ds).map .dict) ∧
      mergeAll ((ds.filter (!·.isEmpty)).map .dict) = mergeAll (ds.map .dict) := by
  have first : ∀ d : Entries, d.ids.Nodup → merge [] d = d := fun _ nodup => merge_new nodup
  refine ⟨?_, ?_, ?_⟩
  · intro path
    have laid := overlay_laid (.dict a) later path
    rw [overlay] at laid
    refine ⟨?_, ?_, laid.cut, laid.kept⟩
    · intro x y before value
      rw [laid.found _ value, before, elim_some, overlay]
    · intro v value apart
      rw [laid.found v value]
      cases before : Value.at? (.dict a) path with
      | none => rfl
      | some old =>
        rw [before] at apart
        rw [elim_some, overlay.eq_def]
        split
        · rename_i x y
          rcases apart with plain | other
          · cases plain
          · exact absurd rfl (other x)
        · rfl
  · have two := mergeAll_dicts [a, b]
    rwa [foldl_cons, foldl_cons, first a earlier.keys] at two
  · intro ds
    refine ⟨?_, ?_⟩
    · rw [mergeAll_dicts, mergeAll_dicts, foldl_cons, foldl_cons, foldl_cons,
        first a earlier.keys, first _ (nodup_merge earlier.keys b)]
    · rw [mergeAll_dicts, mergeAll_dicts, foldl_merge_filter]

-- A mapping of two levels, and another one that replaces a number in it by a mapping.
theorem merge_along_paths_nested : let split (v : Value) := [(Key.ofString "split", Value.object [("max_lines", v)])]
    Value.Distinct (.dict (split (.int 2))) ∧ Value.Distinct (.dict (split (.dict []))) ∧
    Value.at? (.dict (merge (split (.int 2)) (split (.dict []))))
      [.ofString "split", .ofString "max_lines"] = some (.dict []) := by
  intro split
  have distinct : ∀ v : Value, v.Distinct → Value.Distinct (.dict (split v)) := by
    intro v inner
    refine .of_members (pairwise_singleton _ _) (forall_mem_singleton.mpr ?_)
    exact .of_members (pairwise_singleton _ _) (forall_mem_singleton.mpr inner)
  have earlier := distinct (.int 2) (Value.distinct_of_plain rfl)
  have later := distinct (.dict []) (.of_members (by decide) (by simp))
  refine ⟨earlier, later, ((merge_along_paths earlier later).1 _).2.1 _ rfl (.inr ?_)⟩
  rintro x ⟨⟩

end Entries

end ModuleSplit
