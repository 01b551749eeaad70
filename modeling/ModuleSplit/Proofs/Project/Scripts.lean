import ModuleSplit.Project.Package
import ModuleSplit.Proofs.Data.Reading

namespace ModuleSplit

open List Option

namespace Entries

variable {a : Entries}

@[grind =] theorem get?_append (a b : Entries) (key : Key) : get? (a ++ b) key = (get? a key).or (get? b key) := by
  rw [get?, find?_append, map_or]
  rfl

@[simp, grind =] theorem has_iff {key : Key} : has a key = true ↔ key.identity ∈ ids a := by
  simp [has, ids]

theorem ids_putAll {key : Key} (pairs : List (Key × Value)) (listed : key.identity ∈ ids a ∨ key.identity ∈ ids pairs) :
    key.identity ∈ ids (pairs.foldl (fun entries p => put entries p.1 p.2) a) := by
  induction pairs generalizing a with
  | nil => exact listed.resolve_right not_mem_nil
  | cons first rest ih =>
    apply ih
    have there : key.identity = first.1.identity ∨ key.identity ∈ ids a → key.identity ∈ ids (put a first.1 first.2) := by
      intro listed
      by_contra absent
      rw [← get?_eq_none] at absent
      grind
    rw [ids_cons, mem_cons] at listed
    tauto

end Entries

namespace Package

open Json

variable {p q present old all : Entries} {n : Nat} {pairs : List (Key × Value)}

theorem merged_values {P : Value → Prop} (all : ∀ e ∈ pairs, P e.2) : ∀ e ∈ merged pairs, P e.2 := by
  have further : ∀ (pairs : List (Key × Value)) (a : Entries), (∀ e ∈ pairs, P e.2) → (∀ e ∈ a, P e.2) →
      ∀ e ∈ pairs.foldl (fun entries p => Entries.put entries p.1 p.2) a, P e.2 := by
    intro pairs
    induction pairs with
    | nil => exact fun a _ old => old
    | cons first rest ih =>
      intro a new old
      rw [forall_mem_cons] at new
      refine ih _ new.2 fun e member => ?_
      rcases Entries.mem_put member with earlier | ⟨_, same⟩
      · exact old e earlier
      · exact same ▸ new.1
  exact further pairs [] all fun e member => absurd member not_mem_nil

theorem pairOf_canonical {index : Nat} {v : Value} {pair : Key × Value} (settled : Canonical (n + 1) v)
    (taken : pairOf index v = .ok pair) : Canonical (n + 1) pair.2 := by
  unfold pairOf at taken
  split at taken
  · rename_i first second
    obtain ⟨k, _, taken⟩ := Result.bind_ok.mp taken
    cases taken
    rw [Canonical] at settled
    exact (settled second (by simp)).mono
  · cases taken
  · cases taken
    rw [Canonical]
    trivial
  · cases taken
  · rename_i first _ second x
    cases taken
    rw [Canonical] at settled
    have text : second = _ := (settled.2 (second, x) (by simp)).1
    rw [text, Key.toValue, Canonical]
    trivial
  · cases taken
  · cases taken

theorem pairsFrom_canonical {items : List Value} {index : Nat}
    (settled : ∀ v ∈ items, Canonical (n + 1) v) (taken : pairsFrom index items = .ok pairs) :
    ∀ e ∈ pairs, Canonical (n + 1) e.2 := by
  induction items generalizing pairs index with
  | nil =>
    cases taken
    exact fun e member => absurd member not_mem_nil
  | cons v rest ih =>
    rw [forall_mem_cons] at settled
    obtain ⟨pair, one, taken⟩ := Result.bind_ok.mp taken
    obtain ⟨others, later, taken⟩ := Result.bind_ok.mp taken
    cases taken
    exact forall_mem_cons.mpr ⟨pairOf_canonical settled.1 one, ih settled.2 later⟩

theorem find?_canonical (settled : Canonical (n + 1) (.dict p)) {name : String} {v : Value}
    (found : Entries.find? p name = some v) : Canonical n v := by
  obtain ⟨e, listed, rfl⟩ := map_eq_some_iff.mp found
  rw [Canonical] at settled
  exact (settled.2 e (mem_of_find?_eq_some listed)).2

theorem presentScripts_canonical (settled : Canonical (n + 3) (.dict p))
    (found : presentScripts p = .ok present) : ∀ e ∈ present, Canonical (n + 1) e.2 := by
  have none : ∀ e ∈ ([] : Entries), Canonical (n + 1) e.2 := fun e member => absurd member not_mem_nil
  unfold presentScripts at found
  split at found
  · cases found
    exact none
  · rename_i v listed
    have inner := find?_canonical settled listed
    split at found
    · cases found
      exact none
    · split at found
      · cases found
        rw [Canonical] at inner
        exact fun e member => (inner.2 e member).2
      · obtain ⟨pairs, taken, found⟩ := Result.bind_ok.mp found
        cases found
        rw [Canonical] at inner
        exact merged_values (pairsFrom_canonical inner taken)
      · cases found
      · cases found

-- The scripts as entries, and those of them that a package lacks.
def added : Entries := scripts.map fun s => (.ofString s.1, .ofString s.2)

def lacking (present : Entries) : Entries := added.filter fun e => !Entries.has present e.1

theorem lacking_nodup (present : Entries) : (Entries.ids (lacking present)).Nodup :=
  (show (Entries.ids added).Nodup by decide).sublist (filter_sublist.map _)

theorem lacking_new : ∀ e ∈ lacking present, e.1.identity ∉ Entries.ids present := by
  intro e member held
  have missing := (mem_filter.mp member).2
  rw [Entries.has_iff.mpr held] at missing
  cases missing

theorem withScripts_ok (found : presentScripts p = .ok present) : withScripts p = .ok (if lacking present = [] then none
      else some (Entries.put p (.ofString "scripts") (.dict (present ++ lacking present)))) := by
  have all := Entries.putAll_new _ (lacking_nodup present) lacking_new
  unfold lacking added at all ⊢
  rw [List.filter_map, foldl_map] at all
  rw [List.filter_map, ← all]
  unfold withScripts
  rw [found]
  simp only [bind, Except.bind, List.isEmpty_iff, map_eq_nil_iff]
  split
  · rename_i none
    rw [if_pos]
    · rfl
    · exact none
  · rename_i some
    rw [if_neg]
    · rfl
    · exact some

theorem get?_scripts (present : Entries) (key : Key) :
    Entries.get? (present ++ lacking present) key = (Entries.get? present key).or (Entries.get? added key) := by
  rw [Entries.get?_append]
  cases found : Entries.get? present key with
  | some v => rfl
  | none =>
    have absent := Entries.get?_eq_none.mp found
    rw [none_or, none_or, Entries.get?, Entries.get?, lacking, find?_filter]
    congr 2
    funext e
    by_cases same : e.1.identity = key.identity
    · have other : Entries.has present e.1 = false := by
        rw [Bool.eq_false_iff, ne_eq, Entries.has_iff, same]
        exact absent
      simp [same, other]
    · simp [same]

def kept (all : Entries) : Entries := .ofPairs (all.map fun e => (.text (keyText e.1), e.2))

theorem stored_kept (settled : ∀ e ∈ all, Canonical n e.2) : Stored (n + 1) (.dict all) (.dict (kept all)) := by
  rw [Stored]
  refine ⟨_, rfl, forall₂_map_right_iff.mpr (forall₂_same.mpr fun e member => ?_)⟩
  exact ⟨rfl, (settled e member).stored⟩

theorem stored_put (settled : Canonical (n + 1) (.dict p)) (name : String) {v w : Value}
    (stored : Stored n v w) : Stored (n + 1) (.dict (Entries.put p (.ofString name) v))
      (.dict (Entries.put p (.ofString name) w)) := by
  rw [Canonical] at settled
  rw [Stored]
  refine ⟨_, (Entries.ofPairs_eq (Entries.nodup_put settled.1 _ _)).symm, ?_⟩
  replace settled := settled.2
  induction p with
  | nil => exact .cons ⟨rfl, stored⟩ .nil
  | cons first rest ih =>
    rw [forall_mem_cons] at settled
    rw [Entries.put, Entries.put]
    split
    · exact .cons ⟨settled.1.1, stored⟩ (forall₂_same.mpr fun e member => ⟨(settled.2 e member).1, (settled.2 e member).2.stored⟩)
    · exact .cons ⟨settled.1.1, settled.1.2.stored⟩ (ih settled.2)

theorem presentScripts_dict (found : Entries.find? p "scripts" = some (.dict old)) : presentScripts p = .ok old := by
  unfold presentScripts
  rw [found]
  cases old <;> rfl

theorem lacking_eq_nil (complete : ∀ e ∈ added, e.1.identity ∈ Entries.ids all) : lacking all = [] := by
  rw [lacking, filter_eq_nil_iff]
  intro e member
  rw [Entries.has_iff.mpr (complete e member)]
  decide

theorem complete_all (present : Entries) : ∀ e ∈ added, e.1.identity ∈ Entries.ids (present ++ lacking present) := by
  intro e member
  by_contra absent
  rw [← Entries.get?_eq_none, get?_scripts, or_eq_none_iff] at absent
  exact Entries.get?_eq_none.mp absent.2 (Entries.mem_ids member)

theorem complete_kept (complete : ∀ e ∈ added, e.1.identity ∈ Entries.ids all) :
    ∀ e ∈ added, e.1.identity ∈ Entries.ids (kept all) := by
  intro e member
  obtain ⟨f, listed, same⟩ := mem_map.mp (complete e member)
  obtain ⟨s, _, rfl⟩ := mem_map.mp member
  refine Entries.ids_putAll _ (.inr ?_)
  have name : f.1 = .ofString s.1 := Key.identity_eq_text.mp same
  rw [Entries.ids, List.map_map]
  refine mem_map.mpr ⟨f, listed, ?_⟩
  rw [Function.comp, name]
  rfl

theorem withScripts_again (settled : Canonical (n + 3) (.dict p)) (found : presentScripts p = .ok present) :
    let all := present ++ lacking present
    let again := Entries.put p (.ofString "scripts") (.dict (kept all))
    Stored (n + 3) (.dict (Entries.put p (.ofString "scripts") (.dict all))) (.dict again) ∧ withScripts again = .ok none := by
  intro all again
  constructor
  · refine stored_put settled _ (stored_kept fun e member => ?_)
    rcases mem_append.mp member with old | new
    · exact presentScripts_canonical settled found e old
    · obtain ⟨s, _, rfl⟩ := mem_map.mp (mem_of_mem_filter new)
      rw [Value.ofString, Canonical]
      trivial
  · have listed : Entries.find? again "scripts" = some (.dict (kept all)) := by
      rw [Entries.find?, Entries.get?_put, if_pos rfl]
    rw [withScripts_ok (presentScripts_dict listed), if_pos]
    exact lacking_eq_nil (complete_kept (complete_all present))

theorem kept_all (settled : Canonical (n + 1) (.dict old)) : kept (old ++ lacking old) = old ++ lacking old := by
  rw [Canonical] at settled
  have texts : ∀ e ∈ old ++ lacking old, e.1 = .text (keyText e.1) := by
    intro e member
    rcases mem_append.mp member with old | new
    · exact (settled.2 e old).1
    · obtain ⟨s, _, rfl⟩ := mem_map.mp (mem_of_mem_filter new)
      rfl
  have same : (old ++ lacking old).map (fun e => (Key.text (keyText e.1), e.2)) = old ++ lacking old := by
    conv_rhs => rw [← map_id (old ++ lacking old)]
    exact map_congr_left fun e member => Prod.ext (texts e member).symm rfl
  rw [kept, same]
  apply Entries.ofPairs_eq
  rw [Entries.ids_append, nodup_append]
  refine ⟨settled.1, lacking_nodup old, ?_⟩
  rintro key listed _ new rfl
  obtain ⟨e, member, rfl⟩ := mem_map.mp new
  exact lacking_new e member listed

def Amended (p q : Entries) : Prop := ∃ present, presentScripts p = .ok present ∧
  (lacking present = [] ∧ q = p ∨
    q = Entries.put p (.ofString "scripts") (.dict (kept (present ++ lacking present))))

theorem mapping_put {name : String} (other : Key.ofString "scripts" ≠ .ofString name) (v : Value) :
    mapping (Entries.put p (.ofString "scripts") v) name = mapping p name := by
  unfold mapping Entries.find?
  rw [Entries.get?_put, Key.identity_ofString, Key.identity_ofString, if_neg other]

theorem Amended.frameworkOf (amended : Amended p q) : frameworkOf q = frameworkOf p := by
  obtain ⟨present, _, ⟨_, rfl⟩ | rfl⟩ := amended
  · rfl
  · unfold Package.frameworkOf
    rw [mapping_put (by decide), mapping_put (by decide)]

-- The scripts are a mapping, or there are none.
def HasScripts (p old : Entries) : Prop :=
  Entries.find? p "scripts" = some (.dict old) ∨
    old = [] ∧ (Entries.find? p "scripts" = none ∨ Entries.find? p "scripts" = some .null)

theorem HasScripts.found (has : HasScripts p old) : presentScripts p = .ok old := by
  rcases has with found | ⟨rfl, none | null⟩
  · exact presentScripts_dict found
  · unfold presentScripts
    rw [none]
  · unfold presentScripts
    rw [null]
    rfl

theorem Amended.kept (amended : Amended p q) (settled : Canonical (n + 3) (.dict p))
    (has : HasScripts p old) : (∀ key, key ≠ .ofString "scripts" → Entries.get? q key = Entries.get? p key) ∧
      ∃ all, Entries.find? q "scripts" = some (.dict all) ∧
        ∀ key, Entries.get? all key = (Entries.get? old key).or (Entries.get? added key) := by
  obtain ⟨present, listed, change⟩ := amended
  rw [has.found] at listed
  cases listed
  rcases change with ⟨complete, rfl⟩ | rfl
  · refine ⟨fun _ _ => rfl, old, ?_, fun key => ?_⟩
    · rcases has with found | ⟨rfl, _⟩
      · exact found
      · cases complete
    · rw [← get?_scripts, complete, append_nil]
  · refine ⟨fun key other => by rw [Entries.get?_put, if_neg fun same => other (Key.identity_eq_text.mp same.symm)], old ++ lacking old, ?_, get?_scripts old⟩
    have inner : Canonical (n + 2) (.dict old) := by
      rcases has with found | ⟨rfl, _⟩
      · exact find?_canonical settled found
      · rw [Canonical]
        exact ⟨.nil, fun e member => absurd member not_mem_nil⟩
    rw [Entries.find?, Entries.get?_put, if_pos rfl, kept_all inner]

end Package

end ModuleSplit
