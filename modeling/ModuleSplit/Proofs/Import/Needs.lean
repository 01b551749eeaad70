import ModuleSplit.Proofs.Import.Select

namespace ModuleSplit

open List Text

def StandsBehind (inside : Bool) (name text : Text) : Prop :=
  ∃ front back, text = front ++ (name ++ back) ∧ (front = [] → inside = false) ∧
    (∀ c ∈ front.getLast?, isIdentChar c = false) ∧ ∀ c ∈ back.head?, isIdentChar c = false

def StandsIn (name text : Text) : Prop :=
  ∃ front back, text = front ++ (name ++ back) ∧
    (∀ c ∈ front.getLast?, isIdentChar c = false) ∧ ∀ c ∈ back.head?, isIdentChar c = false

theorem standsBehind_cons {inside : Bool} {name rest : Text} {c : Char} : StandsBehind inside name (c :: rest) ↔
      (inside = false ∧ ∃ back, c :: rest = name ++ back ∧ ∀ d ∈ back.head?, isIdentChar d = false) ∨
        StandsBehind (isIdentChar c) name rest := by
  constructor
  · rintro ⟨front, back, whole, first, left, right⟩
    cases front with
    | nil => exact .inl ⟨first rfl, back, whole, right⟩
    | cons d front =>
      obtain ⟨rfl, rfl⟩ := List.cons.inj whole
      refine .inr ⟨front, back, rfl, ?_, ?_, right⟩
      · rintro rfl
        exact left c rfl
      · intro e last
        exact left e (mem_getLast?_cons last)
  · rintro (⟨outside, back, whole, right⟩ | ⟨front, back, rfl, first, left, right⟩)
    · exact ⟨[], back, whole, fun _ => outside, by simp, right⟩
    · refine ⟨c :: front, back, rfl, by simp, ?_, right⟩
      intro e last
      cases front with
      | nil =>
        cases last
        exact first rfl
      | cons f front => exact left e (by simpa [getLast?_cons] using last)

theorem leads_iff {name text : Text} {P : Text → Prop} :
    (∃ back, text = name ++ back ∧ P back) ↔ ∃ back, after? name text = some back ∧ P back := by
  simp only [after?_eq_some]

-- The induction is on the text, as the search goes along it.
theorem referencesFrom_iff_standsBehind {name text : Text} {inside : Bool} :
    referencesFrom name inside text = true ↔ StandsBehind inside name text := by
  induction text generalizing inside with
  | nil =>
    have alone : StandsBehind inside name [] ↔ name = [] ∧ inside = false := by
      simp [StandsBehind]
    rw [alone]
    unfold referencesFrom
    cases name with
    | nil => simp [show after? [] [] = some [] from rfl]
    | cons d name => simp [show after? (d :: name) [] = none from rfl]
  | cons c rest ih =>
    rw [standsBehind_cons, leads_iff]
    unfold referencesFrom
    cases after? name (c :: rest) with
    | none => simp [ih]
    | some back => cases back <;> simp [ih]

theorem references_iff_standsIn {name text : Text} : references name text = true ↔ StandsIn name text := by
  simp [references, referencesFrom_iff_standsBehind, StandsBehind, StandsIn]

def Needed (text : Text) (retain : List Text) (name : Text) : Prop :=
  name ∈ retain ∨ StandsIn name text

theorem wanted_iff {name text : Text} {retain : List Text} :
    Import.wanted text retain name = true ↔ Needed text retain name := by
  simp [Import.wanted, Needed, references_iff_standsIn]

instance (text : Text) (retain : List Text) : DecidablePred (Needed text retain) :=
  fun _ => decidable_of_iff _ wanted_iff

theorem needed_joined {name : Text} {a b : Text} {retain : List Text} (named : IsName name) :
    Needed (joinWith "\n\n" [a, b]) retain name ↔ Needed a retain name ∨ Needed b retain name := by
  have joined := references_joined named [a, b]
  simp only [references_iff_standsIn, mem_cons, not_mem_nil, or_false] at joined
  simp only [Needed, joined]
  grind

inductive Bound where
  | default (name : Text)
  | all (name : Text)
  | one (specifier : Specifier)
  deriving DecidableEq

def Bound.name : Bound → Text
  | .default name => name
  | .all name => name
  | .one specifier => specifier.asName

namespace ImportContent

variable (Keep : Text → Prop) [DecidablePred Keep]

def keeping (i : ImportContent) : ImportContent :=
  {i with
    defaultName := i.defaultName.filter (Keep ·)
    namespaceName := i.namespaceName.filter (Keep ·)
    specifiers := i.specifiers.filter (Keep ·.asName)}

def bindings (i : ImportContent) : List (Text × Bool × Bound) :=
  (i.defaultName.toList.map Bound.default ++ i.namespaceName.toList.map Bound.all ++
    i.specifiers.map Bound.one).map fun b => (i.source, i.typeOnly, b)

@[simp, grind =] theorem keeping_bindings (i : ImportContent) : (i.keeping Keep).bindings = i.bindings.filter (Keep ·.2.2.name) := by
  simp only [bindings, keeping, filter_map, filter_append, map_append, Option.toList_filter]
  rfl

@[simp] theorem bindings_names (i : ImportContent) : i.bindings.map (·.2.2.name) = i.names := by
  simp [bindings, names, Function.comp_def, Bound.name]

@[simp, grind =] theorem keeping_names (i : ImportContent) : (i.keeping Keep).names = i.names.filter (Keep ·) := by
  rw [← bindings_names, keeping_bindings, ← bindings_names, filter_map]
  rfl

theorem keeping_names_eq_iff {i : ImportContent} : (i.keeping Keep).names = i.names ↔ ∀ n ∈ i.names, Keep n := by
  rw [keeping_names, filter_eq_self]
  simp

theorem keeping_eq_self {i : ImportContent} (all : ∀ n ∈ i.names, Keep n) : i.keeping Keep = i := by
  simp only [names, forall_mem_append, forall_mem_map] at all
  have single : ∀ o : Option Text, (∀ n ∈ o.toList, Keep n) → o.filter (Keep ·) = o := by
    intro o kept
    cases o with
    | none => rfl
    | some n => simpa using kept
  have listed : i.specifiers.filter (Keep ·.asName) = i.specifiers := filter_eq_self.mpr (by simpa using all.2)
  simp only [keeping, single _ all.1.1, single _ all.1.2, listed]

@[simp] theorem keeping_idem (i : ImportContent) : (i.keeping Keep).keeping Keep = i.keeping Keep := by
  apply keeping_eq_self
  simp

end ImportContent

namespace Import

-- One import as what is left of another: the bindings to be kept, and the rest of the statement. Its
-- text is the same where no binding is gone; else it is written anew.
structure LeftOf (Keep : Text → Prop) [DecidablePred Keep] (i k : Import) : Prop where
  content : k.toImportContent = i.toImportContent.keeping Keep
  quote : k.quote = i.quote
  semicolon : k.semicolon = i.semicolon
  untouched : (∀ n ∈ i.names, Keep n) → k.raw = i.raw
  rewritten : ¬(∀ n ∈ i.names, Keep n) → k.raw = k.render

section Needed

variable {text : Text} {retain : List Text} {i k : Import}

theorem restrict_eq (i : Import) : i.restrict (i.names.filter (wanted text retain)) =
    {i with toImportContent := i.toImportContent.keeping (Needed text retain)} := by
  have asked : ∀ n ∈ i.names, (i.names.filter (wanted text retain)).contains n = decide (Needed text retain n) := by
    intro n bound
    rw [Bool.eq_iff_iff]
    simp [bound, wanted_iff]
  have single : ∀ o : Option Text, (∀ n ∈ o, n ∈ i.names) →
      o.filter (i.names.filter (wanted text retain)).contains = o.filter (Needed text retain ·) := by
    intro o bound
    cases o with
    | none => rfl
    | some n => rw [Option.filter_some, Option.filter_some, asked n (bound n rfl)]
  have first := single i.defaultName (fun n given => by simp_all [ImportContent.names])
  have second := single i.namespaceName (fun n given => by simp_all [ImportContent.names])
  have third : (i.specifiers.filter fun s => (i.names.filter (wanted text retain)).contains s.asName) =
      i.specifiers.filter fun s => decide (Needed text retain s.asName) := by
    apply filter_congr
    intro s listed
    apply asked
    simp only [ImportContent.names, mem_append, mem_map]
    exact .inr ⟨s, listed, rfl⟩
  simp only [restrict, first, second, third, ImportContent.keeping]

theorem needed_eq (i : Import) : needed text retain i =
    let left := i.toImportContent.keeping (Needed text retain)
    if left.names = [] then none
    else if left.names = i.names then some i
    else some {i with
      toImportContent := left
      raw := ({i with toImportContent := left} : Import).render} := by
  have parts : i.restrict (i.names.filter (wanted text retain)) = _ := restrict_eq i
  change (if (i.restrict (i.names.filter (wanted text retain))).isSideEffect then none
    else if (i.restrict (i.names.filter (wanted text retain))).names = i.names then some i
    else some {i.restrict (i.names.filter (wanted text retain)) with
      raw := (i.restrict (i.names.filter (wanted text retain))).render}) = _
  simp [parts, ImportContent.isSideEffect]

theorem needed_leftOf (found : needed text retain i = some k) :
    LeftOf (Needed text retain) i k ∧ k.names ≠ [] := by
  rw [needed_eq] at found
  dsimp only at found
  split at found
  · cases found
  · split at found
    · rename_i some same
      have all := (ImportContent.keeping_names_eq_iff _).mp same
      cases found
      refine ⟨⟨?_, rfl, rfl, fun _ => rfl, fun other => absurd all other⟩, same ▸ some⟩
      rw [ImportContent.keeping_eq_self _ all]
    · rename_i some other
      rw [ImportContent.keeping_names_eq_iff] at other
      cases found
      exact ⟨⟨rfl, rfl, rfl, fun all => absurd all other, fun _ => rfl⟩, some⟩

theorem needed_eq_none_iff : needed text retain i = none ↔
    (i.toImportContent.keeping (Needed text retain)).names = [] := by
  rw [needed_eq]
  dsimp only
  split
  · rename_i none
    exact iff_of_true rfl none
  · rename_i some
    split <;> exact iff_of_false (by simp) some

theorem needed_idem (found : needed text retain i = some k) : needed text retain k = some k := by
  obtain ⟨left, binding⟩ := needed_leftOf found
  have same : k.toImportContent.keeping (Needed text retain) = k.toImportContent := by
    rw [left.content, ImportContent.keeping_idem]
  rw [needed_eq]
  simp [same, binding]

theorem select_eq (table : List Import) :
    select table text retain = withoutRepeats (table.filterMap (needed text retain)) := by
  unfold select
  congr 1
  rw [filterMap_filter]
  apply filterMap_congr
  intro i _
  cases effect : i.isSideEffect with
  | false => rfl
  | true =>
    have none : needed text retain i = none := by
      rw [needed_eq_none_iff, ImportContent.keeping_names]
      simp_all [ImportContent.isSideEffect]
    simp [none]

end Needed

theorem eraseDups_filter {α : Type} [DecidableEq α] (q : α → Bool) (l : List α) :
    (l.filter q).eraseDups = l.eraseDups.filter q := by
  induction count : l.length using Nat.strongRecOn generalizing l with
  | ind n ih =>
    cases l with
    | nil => rfl
    | cons a l =>
      have fewer : (l.filter fun b => !b == a).length < n := by
        have := length_filter_le (fun b => !b == a) l
        simp only [length_cons] at count
        omega
      have rest := ih _ fewer _ rfl
      rw [eraseDups_cons]
      cases passes : q a with
      | true =>
        rw [filter_cons_of_pos passes, eraseDups_cons, filter_cons_of_pos passes,
          ← rest, filter_filter, filter_filter]
        simp only [Bool.and_comm]
      | false =>
        have apart : (l.filter fun b => !b == a).filter q = l.filter q := by
          rw [filter_filter]
          apply filter_congr
          intro b _
          cases other : q b with
          | false => rfl
          | true =>
            have : b ≠ a := by
              rintro rfl
              simp [passes] at other
            simp [this]
        rw [filter_cons_of_neg (by simp [passes]), filter_cons_of_neg (by simp [passes]), ← rest, apart]

theorem withoutRepeats_contents (imports : List Import) : (withoutRepeats imports).map (·.toImportContent) =
      (imports.map (·.toImportContent)).eraseDups := by
  induction imports with
  | nil => rfl
  | cons i rest ih =>
    have others : ((withoutRepeats rest).filter fun j => j.toImportContent ≠ i.toImportContent).map
        (·.toImportContent) = ((withoutRepeats rest).map (·.toImportContent)).filter
          (fun content => !content == i.toImportContent) := by
      rw [filter_map]
      congr 1
      apply filter_congr
      intro j _
      rw [Bool.eq_iff_iff]
      simp
    rw [withoutRepeats, map_cons, others, ih, ← eraseDups_filter, map_cons, eraseDups_cons]

theorem withoutRepeats_self {imports : List Import}
    (distinct : imports.Pairwise fun i j => i.toImportContent ≠ j.toImportContent) :
    withoutRepeats imports = imports := by
  induction distinct with
  | nil => rfl
  | cons apart _ ih =>
    rw [withoutRepeats, ih, filter_eq_self.mpr]
    intro j later
    simpa using (apart j later).symm

theorem withoutRepeats_first {f : Import → Option Import} {table : List Import} {k : Import}
    (member : k ∈ withoutRepeats (table.filterMap f)) : ∃ before i after, table = before ++ i :: after ∧ f i = some k ∧
      ∀ j ∈ before, ∀ l, f j = some l → l.toImportContent ≠ k.toImportContent := by
  induction table with
  | nil => cases member
  | cons i rest ih =>
    cases found : f i with
    | none =>
      rw [filterMap_cons_none found] at member
      obtain ⟨before, first, after, rfl, kept, others⟩ := ih member
      refine ⟨i :: before, first, after, rfl, kept, ?_⟩
      simpa [found] using others
    | some l =>
      rw [filterMap_cons_some found] at member
      rcases mem_cons.mp member with rfl | later
      · exact ⟨[], i, rest, rfl, found, by simp⟩
      · obtain ⟨inside, other⟩ := mem_filter.mp later
        obtain ⟨before, first, after, rfl, kept, others⟩ := ih inside
        refine ⟨i :: before, first, after, rfl, kept, ?_⟩
        have apart : l.toImportContent ≠ k.toImportContent := Ne.symm (by simpa using other)
        simpa [found, apart] using others

section Selection

variable (table : List Import) (text : Text) (retain : List Text)

theorem needed_contents : (table.filterMap (needed text retain)).map (·.toImportContent) =
    (table.map fun i => i.toImportContent.keeping (Needed text retain)).filter (·.names ≠ []) := by
  induction table with
  | nil => rfl
  | cons i rest ih =>
    cases found : needed text retain i with
    | none =>
      have none := needed_eq_none_iff.mp found
      rw [filterMap_cons_none found, ih, map_cons, filter_cons_of_neg (by simp [none])]
    | some k =>
      obtain ⟨left, binding⟩ := needed_leftOf found
      have some : (i.toImportContent.keeping (Needed text retain)).names ≠ [] := left.content ▸ binding
      rw [filterMap_cons_some found, map_cons, ih, map_cons,
        filter_cons_of_pos (by simpa using some), left.content]

theorem select_contents : (select table text retain).map (·.toImportContent) =
    ((table.map fun i => i.toImportContent.keeping (Needed text retain)).filter (·.names ≠ [])).eraseDups := by
  rw [select_eq, withoutRepeats_contents, needed_contents]

theorem select_idem : select (select table text retain) text retain = select table text retain := by
  have kept : (select table text retain).filterMap (needed text retain) = select table text retain := by
    have same : ∀ k ∈ select table text retain, needed text retain k = some k := by
      intro k member
      rw [select_eq] at member
      obtain ⟨i, _, found⟩ := mem_filterMap.mp (withoutRepeats_subset member)
      exact needed_idem found
    rw [filterMap_congr same, filterMap_some]
  rw [select_eq (select table text retain), kept, select_eq]
  exact withoutRepeats_self (withoutRepeats_distinct _)

theorem mem_select_bindings {b : Text × Bool × Bound} : b ∈ (select table text retain).flatMap (·.bindings) ↔
      b ∈ table.flatMap (·.bindings) ∧ Needed text retain b.2.2.name := by
  have contents : (select table text retain).flatMap (·.bindings) =
      ((select table text retain).map (·.toImportContent)).flatMap (·.bindings) := by
    rw [flatMap_map]
  rw [contents, select_contents]
  simp only [mem_flatMap, mem_eraseDups, mem_filter, mem_map]
  constructor
  · rintro ⟨_, ⟨⟨i, listed, rfl⟩, _⟩, bound⟩
    rw [ImportContent.keeping_bindings] at bound
    obtain ⟨whole, needed⟩ := mem_filter.mp bound
    exact ⟨⟨i, listed, whole⟩, by simpa using needed⟩
  · rintro ⟨⟨i, listed, whole⟩, needed⟩
    have bound : b ∈ (i.toImportContent.keeping (Needed text retain)).bindings := by
      rw [ImportContent.keeping_bindings]
      exact mem_filter.mpr ⟨whole, by simpa using needed⟩
    refine ⟨_, ⟨⟨i, listed, rfl⟩, ?_⟩, bound⟩
    have named := mem_map_of_mem (f := (·.2.2.name)) bound
    rw [ImportContent.bindings_names] at named
    simpa using ne_nil_of_mem named

end Selection

-- Selecting gives, in the order of the table and each content once, every statement with a needed
-- binding, restricted to these. Of statements that come to the same content it is the first one,
-- with its quote and semicolon, and with its text where nothing is gone. A second selection changes
-- nothing, and what two texts need together is what either needs.
theorem select_exactly_needed (table : List Import) (text : Text) (retain : List Text)
    (named : ∀ i ∈ table, ∀ n ∈ i.names, IsName n) : (select table text retain).map (·.toImportContent) =
      ((table.map fun i => i.toImportContent.keeping (Needed text retain)).filter (·.names ≠ [])).eraseDups ∧
    (∀ k ∈ select table text retain, k.isSideEffect = false ∧
      ∃ before i after, table = before ++ i :: after ∧ LeftOf (Needed text retain) i k ∧
        ∀ j ∈ before, j.toImportContent.keeping (Needed text retain) ≠ k.toImportContent) ∧
    select (select table text retain) text retain = select table text retain ∧
    ∀ other b, b ∈ (select table (text ++ "\n\n".toList ++ other) retain).flatMap (·.bindings) ↔
      b ∈ (select table text retain).flatMap (·.bindings) ∨ b ∈ (select table other retain).flatMap (·.bindings) := by
  refine ⟨select_contents table text retain, ?_, select_idem table text retain, ?_⟩
  · intro k member
    rw [select_eq] at member
    obtain ⟨before, i, after, split, found, others⟩ := withoutRepeats_first member
    obtain ⟨left, binding⟩ := needed_leftOf found
    refine ⟨by simpa [ImportContent.isSideEffect] using binding, before, i, after, split, left, ?_⟩
    intro j earlier same
    cases other : needed text retain j with
    | none =>
      rw [needed_eq_none_iff, same] at other
      exact binding other
    | some l => exact others j earlier l other ((needed_leftOf other).1.content.trans same)
  · intro other b
    have joined : text ++ "\n\n".toList ++ other = joinWith "\n\n" [text, other] := by
      simp [joinWith]
    simp only [mem_select_bindings, joined]
    rw [← and_or_left]
    apply and_congr_right
    intro listed
    obtain ⟨i, inside, bound⟩ := mem_flatMap.mp listed
    have name := mem_map_of_mem (f := (·.2.2.name)) bound
    rw [ImportContent.bindings_names] at name
    exact needed_joined (named i inside _ name)

def repeatedTable : List Import :=
  [{ source := "m".toList, defaultName := some "a".toList, raw := "import a, \x7b b as c \x7d from 'm';".toList
     specifiers := [⟨"b".toList, "c".toList, false⟩] },
   { source := "m".toList, raw := "import \x7b b as c \x7d from \"m\"".toList, quote := '"'
     specifiers := [⟨"b".toList, "c".toList, false⟩], semicolon := false }]

theorem select_exactly_needed_repeated :
    (∀ i ∈ repeatedTable, ∀ n ∈ i.names, IsName n) ∧
    select repeatedTable "aa + c".toList [] =
      [{ source := "m".toList, specifiers := [⟨"b".toList, "c".toList, false⟩]
         raw := "import \x7b b as c \x7d from 'm';".toList }] ∧
    select (select repeatedTable "aa + c".toList []) "aa + c".toList [] =
      select repeatedTable "aa + c".toList [] := by
  have named : ∀ i ∈ repeatedTable, ∀ n ∈ i.names, IsName n := by
    have words : (repeatedTable.all fun i => i.names.all fun n => !n.isEmpty && n.all isIdentChar) =
        true := by decide +kernel
    intro i listed n bound
    exact isName_word (List.all_eq_true.mp (List.all_eq_true.mp words i listed) n bound)
  have exact_ := select_exactly_needed repeatedTable "aa + c".toList [] named
  exact ⟨named, by decide +kernel, exact_.2.2.1⟩

end Import

end ModuleSplit
