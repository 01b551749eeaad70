import Mathlib.Data.List.Lex
import ModuleSplit.Project.Discovery
import ModuleSplit.Proofs.Output.Header
import ModuleSplit.Proofs.Transaction.Backup
import ModuleSplit.Proofs.Tree.Filling
import ModuleSplit.Proofs.Tree.Retention

namespace ModuleSplit

open List ModuleSplit.Tree

-- The order of texts: the first character that differs decides, and a proper beginning comes first.
def Text.Before : Text → Text → Prop := List.Lex fun a b => a.val < b.val

def Path.Before (p q : Path) : Prop := List.Lex Text.Before p.allParts q.allParts

section Order

open Std

abbrev textOrder : Text → Text → Ordering := List.compareLex (compareOn Char.val)

abbrev partOrder : List Text → List Text → Ordering := List.compareLex textOrder

instance lawful_compareOn_val : LawfulEqCmp (compareOn Char.val) where
  compare_self := compare_self
  eq_of_compare same := Char.ext (LawfulEqCmp.eq_of_compare same)

theorem lex_of_compareLex {α : Type} {cmp : α → α → Ordering} [LawfulEqCmp cmp]
    {r : α → α → Prop} (less : ∀ a b, cmp a b = .lt → r a b) {as bs : List α}
    (compared : as.compareLex cmp bs = .lt) : List.Lex r as bs := by
  induction as generalizing bs with
  | nil =>
    cases bs with
    | nil => cases compared
    | cons b bs => exact .nil
  | cons a as ih =>
    cases bs with
    | nil => cases compared
    | cons b bs =>
      rw [List.compareLex_cons_cons, Ordering.then_eq_lt] at compared
      rcases compared with first | ⟨same, later⟩
      · exact .rel (less a b first)
      · cases LawfulEqCmp.eq_of_compare same
        exact .cons (ih later)

theorem Text.compare_eq (a b : Text) : compare a b = textOrder a b := by
  fun_induction Text.compare a b with
  | case1 => rfl
  | case2 => rfl
  | case3 => rfl
  | case4 a as b bs less =>
    rw [textOrder, List.compareLex_cons_cons]
    simp [compareOn, compareOfLessAndEq, less, Ord.compare]
  | case5 a as b bs other less =>
    have apart : a.val ≠ b.val := fun same => other (same ▸ less)
    rw [textOrder, List.compareLex_cons_cons]
    simp [compareOn, compareOfLessAndEq, other, apart, Ord.compare]
  | case6 a as b bs other below ih =>
    have same : a.val = b.val := UInt32.le_antisymm (UInt32.not_lt.mp below) (UInt32.not_lt.mp other)
    rw [ih, textOrder, List.compareLex_cons_cons]
    simp [compareOn, compareOfLessAndEq, same, Ord.compare]

namespace Path

theorem comparePartLists_eq (a b : List Text) : comparePartLists a b = partOrder a b := by
  fun_induction comparePartLists a b with
  | case1 => rfl
  | case2 => rfl
  | case3 => rfl
  | case4 a as b bs same ih =>
    rw [ih, partOrder, List.compareLex_cons_cons, ← Text.compare_eq, same]
    rfl
  | case5 a as b bs apart =>
    rw [partOrder, List.compareLex_cons_cons, ← Text.compare_eq]
    cases first : Text.compare a b with
    | lt => rfl
    | eq => exact absurd first apart
    | gt => rfl

theorem le_eq (p q : Path) : p.le q = (partOrder p.allParts q.allParts).isLE := by
  rw [le, comparePartLists_eq]
  cases partOrder p.allParts q.allParts <;> rfl

theorem before_of_le {p q : Path} (root : p.root = q.root) (le : p.le q = true) (apart : p ≠ q) : p.Before q := by
  rw [le_eq, Ordering.isLE_iff_eq_lt_or_eq_eq] at le
  rcases le with less | same
  · refine lex_of_compareLex (fun a b first => ?_) less
    refine lex_of_compareLex (fun c d smaller => ?_) first
    exact compareOfLessAndEq_eq_lt.mp smaller
  · have parts := LawfulEqCmp.eq_of_compare same
    obtain ⟨r, as⟩ := p
    obtain ⟨r', bs⟩ := q
    cases root
    cases r <;> simp_all [allParts]

theorem pairwise_before {l : List Path} (root : PathRoot) (once : l.Nodup)
    (same : ∀ p ∈ l, p.root = root) : (l.mergeSort le).Pairwise Before := by
  have sorted : (l.mergeSort le).Pairwise fun p q => p.le q = true := by
    refine pairwise_mergeSort (fun a b c first second => ?_) (fun a b => ?_) l
    · rw [le_eq] at first second ⊢
      exact TransCmp.isLE_trans first second
    · rw [le_eq, le_eq, @OrientedCmp.eq_swap _ partOrder _ a.allParts b.allParts]
      cases partOrder b.allParts a.allParts <;> rfl
  have apart : (l.mergeSort le).Nodup := (mergeSort_perm l le).nodup_iff.mpr once
  refine (sorted.and apart).imp_of_mem ?_
  rintro p q first second ⟨ordered, different⟩
  have root := (same p (mem_mergeSort.mp first)).trans (same q (mem_mergeSort.mp second)).symm
  exact before_of_le root ordered different

end Path

end Order

namespace Tree

structure EntryName (name : Text) : Prop where
  part : Path.isPart name = true
  down : name ≠ "..".toList
  chars : ∀ c ∈ name, NameChar c

instance (name : Text) : Decidable (EntryName name) :=
  decidable_of_iff (Path.isPart name = true ∧ name ≠ "..".toList ∧
      name.all (fun c => c != '/' && c != '\x00') = true)
    ⟨fun ⟨part, down, chars⟩ => ⟨part, down, by simpa [NameChar] using chars⟩,
      fun ⟨part, down, chars⟩ => ⟨part, down, by simpa [NameChar] using chars⟩⟩

-- A tree without links, as storage holds it: each entry is in a directory, once and under a name.
structure Sound (t : Tree) : Prop where
  rooted : t.Rooted
  single : (t.entries.map (·.1)).Nodup
  named : ∀ l ∈ t.entries.map (·.1), ∀ name ∈ l, EntryName name
  linkless : t.Linkless

variable {t : Tree} {l : Location} {name : Text} {n : Node}

theorem Sound.get?_eq_some (sound : t.Sound) (inner : l ≠ []) : t.get? l = some n ↔ (l, n) ∈ t.entries := by
  rw [get?_of_ne_root inner, lookup_eq_some_iff]
  constructor
  · rintro ⟨front, back, entries, _⟩
    simp [entries]
  · intro member
    obtain ⟨front, back, entries⟩ := append_of_mem member
    refine ⟨front, back, entries, fun e earlier => ?_⟩
    have single := sound.single
    rw [entries, map_append, map_cons, nodup_append] at single
    rw [bne_iff_ne]
    exact (single.2.2 e.1 (mem_map_of_mem earlier) l mem_cons_self).symm

theorem Sound.name_of_get? (sound : t.Sound) (there : t.get? l = some n) : ∀ name ∈ l, EntryName name := by
  intro name member
  have listed := (sound.get?_eq_some (ne_nil_of_mem member)).mp there
  exact sound.named l (mem_map_of_mem listed) name member

theorem Sound.mem_children (sound : t.Sound) : (name, n) ∈ t.children l ↔ t.get? (l ++ [name]) = some n := by
  rw [sound.get?_eq_some (by simp), children, mem_filterMap]
  constructor
  · rintro ⟨⟨place, node⟩, member, taken⟩
    dsimp only at taken
    split at taken
    · rename_i below
      cases taken
      rw [isPrefixOf?_eq_some_iff_append_eq] at below
      rwa [below]
    · cases taken
  · intro member
    have below : l.isPrefixOf? (l ++ [name]) = some [name] := isPrefixOf?_eq_some_iff_append_eq.mpr rfl
    refine ⟨_, member, ?_⟩
    dsimp only
    rw [below]

def below (t : Tree) (l : Location) : List (Location × Node) :=
  t.entries.filter fun e => l.isPrefixOf e.1 && e.1 != l

theorem Sound.below_child (sound : t.Sound) (there : t.get? (l ++ [name]) = some n) :
    (t.below (l ++ [name])).length < (t.below l).length := by
  have inner : t.below (l ++ [name]) =
      (t.below l).filter fun e => (l ++ [name]).isPrefixOf e.1 && e.1 != l ++ [name] := by
    rw [below, below, filter_filter]
    refine filter_congr fun e _ => ?_
    cases further : (l ++ [name]).isPrefixOf e.1 with
    | false => rfl
    | true =>
      rw [List.isPrefixOf_iff_prefix] at further
      obtain ⟨rest, whole⟩ := further
      simp [← whole]
  rw [inner, length_filter_lt_length_iff_exists]
  refine ⟨(l ++ [name], n), ?_, by simp⟩
  rw [below, mem_filter]
  exact ⟨(sound.get?_eq_some (by simp)).mp there, by simp⟩

end Tree

def Path.under (root : Path) (parts : List Text) : Path := ⟨root.root, root.parts ++ parts⟩

@[simp] theorem Path.under_child (root : Path) (parts : List Text) {name : Text} (named : Tree.EntryName name) :
    (root.under parts).child name = root.under (parts ++ [name]) := by
  rw [child_eq _ named.chars named.part, under, under, append_assoc]

theorem Path.under_brief {root : Path} {parts more : List Text}
    (brief : Utf8.size (root.under (parts ++ more)).text < Tree.pathLimit) :
    Utf8.size (root.under parts).text < Tree.pathLimit := by
  induction more using List.reverseRecOn with
  | nil => simpa using brief
  | append_singleton front name ih =>
    rw [under, ← append_assoc, ← append_assoc] at brief
    refine ih ?_
    rw [under, ← append_assoc]
    exact brief_above brief

theorem mapM_flatten {α β : Type} {f : α → Result (List β)} {P : α → β → Prop} {l : List α}
    (each : ∀ x ∈ l, ∃ found, f x = .ok found ∧ ∀ q, q ∈ found ↔ P x q) :
    ∃ all, l.mapM f = .ok all ∧ ∀ q, q ∈ all.flatten ↔ ∃ x ∈ l, P x q := by
  induction l with
  | nil => exact ⟨[], rfl, by simp⟩
  | cons first rest ih =>
    rw [forall_mem_cons] at each
    obtain ⟨found, made, members⟩ := each.1
    obtain ⟨all, later, others⟩ := ih each.2
    refine ⟨found :: all, ?_, fun q => ?_⟩
    · rw [mapM_cons, made, later]
      rfl
    · rw [flatten_cons, mem_append, members, others]
      simp

theorem mapM_flatten_sublist {α β : Type} {f : α → Result (List β)} {g : β → α} {l : List α}
    {all : List (List β)} (each : ∀ x ∈ l, ∀ found, f x = .ok found → (found.map g).Sublist [x])
    (made : l.mapM f = .ok all) : (all.flatten.map g).Sublist l := by
  induction l generalizing all with
  | nil =>
    cases made
    exact .slnil
  | cons first rest ih =>
    rw [forall_mem_cons] at each
    rw [mapM_cons] at made
    obtain ⟨found, here, made⟩ := Result.bind_ok.mp made
    obtain ⟨others, later, made⟩ := Result.bind_ok.mp made
    cases made
    rw [flatten_cons, map_append]
    exact (each.1 found here).append (ih each.2 later)

-- A known encoding: with signs in place of what cannot be decoded, every file can be read.
structure Codec.Known (c : Codec) : Prop where
  usable : c.usable = .ok ⟨⟩
  lossy : ∀ bytes, ∃ text, c.decodeLossy bytes = .ok text

namespace Discovery

structure Wanted where
  root : Path
  endings : List Text
  patterns : List Text
  matching : Matching

namespace Wanted

def search (w : Wanted) : Search where
  root := w.root
  extensions := w.endings.map .text
  excluded := w.patterns.map .text
  matching := w.matching

def Clear (w : Wanted) (parts : List Text) : Prop :=
  ∀ pattern ∈ w.patterns, ∀ part ∈ parts, w.matching part pattern = false

-- A file that is wanted, by its way from the project. Its name has one of the endings, nothing on
-- the way is excluded, and its directory can be listed.
structure Source (w : Wanted) (t : Tree) (way : List Text) (q : Path) : Prop where
  path : q = w.root.under way
  file : ∃ bytes, t.get? (t.place w.root ++ way) = some (.file bytes)
  ending : ∃ ending ∈ w.endings, ending <:+ q.name
  clear : w.Clear way
  listed : Utf8.size q.parent.text < Tree.pathLimit

def Found (w : Wanted) (t : Tree) (name : Text) (q : Path) : Prop :=
  t.get? (t.place w.root ++ (Path.ofText name).parts) = some .directory ∧
    ∃ below, below ≠ [] ∧ w.Source t ((Path.ofText name).parts ++ below) q

variable {w : Wanted} {t : Tree} {way : List Text}

theorem isExcluded_under (parts : List Text) :
    ∃ answer, isExcluded w.search.matching w.search.root (w.root.under parts) w.search.excluded =
      .ok answer ∧ (answer = false ↔ w.Clear parts) := by
  have rest : w.root.parts.isPrefixOf? (w.root.parts ++ parts) = some parts :=
    isPrefixOf?_eq_some_iff_append_eq.mpr rfl
  have below : projectParts w.root (w.root.under parts) = parts := by
    rw [projectParts, Path.partsBelow?, Path.under, if_pos rfl, rest]
    rfl
  show ∃ answer, anyMatches w.matching (projectParts w.root (w.root.under parts))
    (w.patterns.map .text) = .ok answer ∧ _
  rw [below]
  unfold Clear
  induction w.patterns with
  | nil => exact ⟨false, rfl, by simp⟩
  | cons pattern rest ih =>
    rw [map_cons, anyMatches]
    split
    · rename_i matched
      exact ⟨true, rfl, by simp_all⟩
    · rename_i other
      obtain ⟨answer, rest, clear⟩ := ih
      refine ⟨answer, rest, clear.trans ?_⟩
      simp_all

@[simp] theorem endsWithAny_texts (name : Text) (endings : List Text) :
    endsWithAny name (endings.map .text) = .ok (endings.any (·.isSuffixOf name)) := by
  induction endings with
  | nil => rfl
  | cons ending rest ih =>
    rw [map_cons, endsWithAny, any_cons]
    split
    · rename_i ends
      rw [ends]
      rfl
    · rename_i other
      rw [ih, (Bool.not_eq_true _).mp other]
      rfl

theorem accepts_under (parts : List Text) : ∃ answer, w.search.accepts (w.root.under parts) = .ok answer ∧
      (answer = true ↔ (∃ ending ∈ w.endings, ending <:+ (w.root.under parts).name) ∧ w.Clear parts) := by
  obtain ⟨excluded, tested, clear⟩ := w.isExcluded_under parts
  have ends := endsWithAny_texts (w.root.under parts).name w.endings
  have some_ending : w.endings.any (·.isSuffixOf (w.root.under parts).name) = true ↔
      ∃ ending ∈ w.endings, ending <:+ (w.root.under parts).name := by
    simp [isSuffixOf_iff_suffix]
  rw [← some_ending, ← clear]
  refine ⟨w.endings.any (·.isSuffixOf (w.root.under parts).name) && !excluded, ?_, by simp⟩
  unfold Search.accepts
  rw [show endsWithAny (w.root.under parts).name w.search.extensions = _ from ends, tested]
  cases w.endings.any (·.isSuffixOf (w.root.under parts).name) <;> rfl

theorem Source.parent {below : List Text} {q : Path} (source : w.Source t (way ++ below) q)
    (inner : below ≠ []) : q.parent = w.root.under (way ++ below.dropLast) := by
  rw [source.path, Path.parent, Path.under, Path.under,
    dropLast_append_of_ne_nil (by simp [inner]), dropLast_append_of_ne_nil inner]

theorem Source.nullFree {q : Path} (source : w.Source t way q) (sound : t.Sound)
    (free : w.root.NullFree) : q.NullFree := by
  rw [source.path]
  obtain ⟨bytes, file⟩ := source.file
  intro part member null
  rcases mem_append.mp member with above | below
  · exact free part above null
  · exact ((sound.name_of_get? file part (mem_append_right _ below)).chars _ null).2 rfl

variable {enter : Path → Location → Result (List Path)} {name : Text} {n : Node} {fuel : Nat}

theorem visit_under (sound : t.Sound) (there : t.get? (t.place w.root ++ (way ++ [name])) = some n)
    (brief : Utf8.size (w.root.under way).text < Tree.pathLimit) (entered : n = .directory →
      ∃ found, enter (w.root.under (way ++ [name])) (t.place w.root ++ (way ++ [name])) =
        .ok found ∧ ∀ q, q ∈ found ↔ ∃ below, below ≠ [] ∧ w.Source t (way ++ [name] ++ below) q) :
    ∃ found, visit w.search enter (w.root.under way) (t.place w.root ++ way) (name, n) = .ok found ∧
      ∀ q, q ∈ found ↔ ∃ below, w.Source t (way ++ [name] ++ below) q := by
  have named := sound.name_of_get? there name (by simp)
  have child := w.root.under_child way named
  cases n with
  | directory =>
    obtain ⟨excluded, tested, clear⟩ := w.isExcluded_under (way ++ [name])
    have visited : visit w.search enter (w.root.under way) (t.place w.root ++ way)
        (name, .directory) = if excluded then .ok [] else
          enter (w.root.under (way ++ [name])) (t.place w.root ++ (way ++ [name])) := by
      unfold visit
      dsimp only
      rw [child, tested, append_assoc]
      rfl
    rw [visited]
    cases excluded with
    | true =>
      refine ⟨[], rfl, fun q => ⟨by simp, ?_⟩⟩
      rintro ⟨below, source⟩
      have free : w.Clear (way ++ [name]) := fun pattern member part inside =>
        source.clear pattern member part (mem_append_left _ inside)
      cases clear.mpr free
    | false =>
      obtain ⟨found, made, members⟩ := entered rfl
      refine ⟨found, made, fun q => (members q).trans ⟨?_, ?_⟩⟩
      · rintro ⟨below, _, source⟩
        exact ⟨below, source⟩
      · rintro ⟨below, source⟩
        refine ⟨below, ?_, source⟩
        rintro rfl
        obtain ⟨bytes, file⟩ := source.file
        rw [append_nil, there] at file
        cases file
  | file bytes =>
    obtain ⟨answer, tested, wanted⟩ := w.accepts_under (way ++ [name])
    have visited : visit w.search enter (w.root.under way) (t.place w.root ++ way)
        (name, .file bytes) = .ok (if answer then [w.root.under (way ++ [name])] else []) := by
      unfold visit
      dsimp only
      rw [child, tested]
      rfl
    have parent : (w.root.under (way ++ [name])).parent = w.root.under way := by
      rw [Path.under, ← append_assoc, Path.parent_snoc]
      rfl
    refine ⟨_, visited, fun q => ?_⟩
    have alone : (∃ below, w.Source t (way ++ [name] ++ below) q) ↔
        q = w.root.under (way ++ [name]) ∧ answer = true := by
      constructor
      · rintro ⟨below, source⟩
        have last : below = [] := by
          by_contra more
          obtain ⟨_, file⟩ := source.file
          rw [← append_assoc] at file
          rw [sound.rooted.above file more] at there
          cases there
        subst last
        rw [append_nil] at source
        have ending := source.ending
        rw [source.path] at ending
        exact ⟨source.path, wanted.mpr ⟨ending, source.clear⟩⟩
      · rintro ⟨rfl, accepted⟩
        refine ⟨[], ?_⟩
        rw [append_nil]
        obtain ⟨ending, clear⟩ := wanted.mp accepted
        exact ⟨rfl, ⟨bytes, there⟩, ending, clear, by rwa [parent]⟩
    rw [alone]
    cases answer <;> simp
  | dangling => exact absurd there (sound.linkless _)

theorem walk_under (sound : t.Sound) (enough : (t.below (t.place w.root ++ way)).length < fuel) :
    ∃ found, walk w.search t fuel (w.root.under way) (t.place w.root ++ way) = .ok found ∧
      ∀ q, q ∈ found ↔ ∃ below, below ≠ [] ∧ w.Source t (way ++ below) q := by
  induction fuel generalizing way with
  | zero => cases enough
  | succ fuel ih =>
    rw [walk]
    by_cases long : Tree.pathLimit ≤ Utf8.size (w.root.under way).text
    · rw [if_pos long]
      refine ⟨[], rfl, fun q => ⟨by simp, ?_⟩⟩
      rintro ⟨below, inner, source⟩
      have brief := Path.under_brief (source.parent inner ▸ source.listed)
      omega
    rw [if_neg long]
    have step : ∀ x ∈ t.children (t.place w.root ++ way), ∃ found,
        visit w.search (walk w.search t fuel) (w.root.under way) (t.place w.root ++ way) x =
          .ok found ∧ ∀ q, q ∈ found ↔ ∃ below, w.Source t (way ++ [x.1] ++ below) q := by
      rintro ⟨name, n⟩ member
      have there := sound.mem_children.mp member
      have fewer := sound.below_child there
      rw [append_assoc] at there fewer
      refine visit_under sound there (by omega) fun _ => ih (by omega)
    obtain ⟨all, made, members⟩ := mapM_flatten step
    refine ⟨all.flatten, by rw [made]; rfl, fun q => (members q).trans ⟨?_, ?_⟩⟩
    · rintro ⟨x, _, below, source⟩
      rw [append_assoc] at source
      exact ⟨[x.1] ++ below, by simp, source⟩
    · rintro ⟨below, inner, source⟩
      obtain ⟨name, below, rfl⟩ := exists_cons_of_ne_nil inner
      rw [← singleton_append, ← append_assoc] at source
      obtain ⟨bytes, file⟩ := source.file
      have there : ∃ n, t.get? (t.place w.root ++ way ++ [name]) = some n := by
        by_cases last : below = []
        · subst last
          exact ⟨_, by simpa using file⟩
        · rw [← append_assoc, ← append_assoc] at file
          exact ⟨_, sound.rooted.above file last⟩
      obtain ⟨n, there⟩ := there
      exact ⟨(name, n), sound.mem_children.mpr there, below, source⟩

structure Target (w : Wanted) (name : Text) : Prop where
  relative : (Path.ofText name).isAbsolute = false
  down : "..".toList ∉ (Path.ofText name).parts
  short : ∀ part ∈ (Path.ofText name).parts, Utf8.size part ≤ Tree.nameLimit
  brief : Utf8.size (w.root.under (Path.ofText name).parts).text < Tree.pathLimit

instance (w : Wanted) (name : Text) : Decidable (w.Target name) :=
  decidable_of_iff ((Path.ofText name).isAbsolute = false ∧ (Path.ofText name).parts.contains "..".toList = false ∧
      (Path.ofText name).parts.all (Utf8.size · ≤ Tree.nameLimit) = true ∧
      Utf8.size (w.root.under (Path.ofText name).parts).text < Tree.pathLimit)
    ⟨fun ⟨relative, down, short, brief⟩ => ⟨relative, by simpa using down, by simpa using short, brief⟩,
      fun ⟨relative, down, short, brief⟩ => ⟨relative, by simpa using down, by simpa using short, brief⟩⟩

theorem Target.child (target : w.Target name) : w.root.child name = w.root.under (Path.ofText name).parts := by
  rw [Path.child, Path.join, target.relative]
  rfl

theorem ask_target (sound : t.Sound) (project : t.ask w.root = .ok (some .directory)) (target : w.Target name) :
    t.ask (w.root.child name) = .ok (t.get? (t.place w.root ++ (Path.ofText name).parts)) ∧
      (t.get? (t.place w.root ++ (Path.ofText name).parts) = some .directory →
        t.locate (w.root.child name) = .ok (t.place w.root ++ (Path.ofText name).parts)) := by
  obtain ⟨located, there⟩ := ask_some project
  have place : t.place (w.root.under (Path.ofText name).parts) = t.place w.root ++ (Path.ofText name).parts := by
    rw [Tree.place_eq, Path.under, foldl_append, enter_down target.down]
    rfl
  rw [target.child]
  by_cases free : (w.root.under (Path.ofText name).parts).NullFree
  · have storable : (w.root.under (Path.ofText name).parts).Storable := by
      have outside := storable_of_located (Path.accept_ok.mpr (ask_some_nullFree project)) located
      refine ⟨?_, ?_, target.brief⟩
      · simpa [Path.NullFree] using free
      · rw [Path.under, forall_mem_append]
        exact ⟨outside.short, target.short⟩
    have admitted : t.Admits (w.root.under (Path.ofText name).parts) :=
      ⟨storable, w.root.parts, _, rfl, isDirectory_of_get? located there, target.down⟩
    rw [ask_admitted sound.rooted admitted, place]
    constructor
    · cases found : t.get? (t.place w.root ++ (Path.ofText name).parts) with
      | none => rfl
      | some n =>
        cases n with
        | dangling => exact absurd found (sound.linkless _)
        | _ => rfl
    · intro found
      rw [← place] at found ⊢
      exact locate_there sound.rooted admitted found
  · have absent : t.get? (t.place w.root ++ (Path.ofText name).parts) = none := by
      cases found : t.get? (t.place w.root ++ (Path.ofText name).parts) with
      | none => rfl
      | some n =>
        refine absurd (fun part member => ?_) free
        rcases mem_append.mp member with above | below
        · exact ask_some_nullFree project part above
        · intro null
          exact ((sound.name_of_get? found part (mem_append_right _ below)).chars _ null).2 rfl
    rw [absent]
    refine ⟨?_, by simp⟩
    unfold Tree.ask
    cases accepted : Tree.accept (w.root.under (Path.ofText name).parts) with
    | ok _ => exact absurd (Path.accept_ok.mp accepted) free
    | error f => rfl

theorem filesBelow_target (sound : t.Sound) (project : t.ask w.root = .ok (some .directory)) (target : w.Target name) :
    ∃ found, filesBelow w.search t (.text name) = .ok found ∧ ∀ q, q ∈ found ↔ w.Found t name q := by
  obtain ⟨asked, located⟩ := ask_target sound project target
  unfold filesBelow Found
  dsimp only
  rw [show t.ask (w.search.root.child name) = _ from asked]
  cases found : t.get? (t.place w.root ++ (Path.ofText name).parts) with
  | none => exact ⟨[], rfl, by simp⟩
  | some n =>
    cases n with
    | directory =>
      have few : (t.below (t.place w.root ++ (Path.ofText name).parts)).length < t.size + 1 :=
        Nat.lt_succ_of_le (length_filter_le _ _)
      obtain ⟨files, walked, members⟩ := walk_under sound few
      rw [show t.locate (w.search.root.child name) = _ from located found]
      refine ⟨files, ?_, by simpa using members⟩
      rw [← walked, ← target.child]
      rfl
    | file bytes => exact ⟨[], rfl, by simp⟩
    | dangling => exact ⟨[], rfl, by simp⟩

variable {targets : List Text}

theorem sourceFilesOf_targets (sound : t.Sound) (project : t.ask w.root = .ok (some .directory))
    (all : ∀ name ∈ targets, w.Target name) : ∃ files, sourceFilesOf w.search t (targets.map .text) = .ok files ∧
      files.Pairwise Path.Before ∧ ∀ q, q ∈ files ↔ ∃ name ∈ targets, w.Found t name q := by
  have each : ∀ target ∈ targets.map Value.text, ∃ found, filesBelow w.search t target = .ok found ∧
      ∀ q, q ∈ found ↔ ∃ name, target = .text name ∧ w.Found t name q := by
    intro target member
    obtain ⟨name, listed, rfl⟩ := mem_map.mp member
    obtain ⟨found, made, members⟩ := filesBelow_target sound project (all name listed)
    exact ⟨found, made, fun q => by simp [members]⟩
  obtain ⟨found, made, members⟩ := mapM_flatten each
  have exact : ∀ q, q ∈ distinct found.flatten ↔ ∃ name ∈ targets, w.Found t name q := by
    intro q
    rw [mem_distinct, members]
    simp
  refine ⟨(distinct found.flatten).mergeSort Path.le, ?_, ?_, fun q => ?_⟩
  · rw [sourceFilesOf, made]
    rfl
  · refine Path.pairwise_before w.root.root (nodup_distinct _) fun q member => ?_
    obtain ⟨name, _, _, below, _, source⟩ := (exact q).mp member
    rw [source.path]
    rfl
  · rw [mem_mergeSort, exact]

variable {codec : Codec} {maxLines : Value} {framework : Text} {most : Int} {p : Path}

theorem ifLong_sublist {found : List LongFile} (made : ifLong t codec maxLines framework p = .ok found) :
    (found.map (·.path)).Sublist [p] := by
  unfold ifLong at made
  split at made
  · obtain ⟨answer, _, made⟩ := Result.bind_ok.mp made
    cases made
    cases answer <;> simp
  · cases made
    simp
  · cases made

theorem ifLong_known (t : Tree) (framework : Text) (known : codec.Known) (most : Int) (free : p.NullFree) :
    ∃ found, ifLong t codec (.int most) framework p = .ok found ∧ ∀ f, f ∈ found ↔ f.path = p ∧
      f.framework = framework ∧ ∃ bytes text, t.read f.path = .ok bytes ∧ codec.decodeLossy bytes = .ok text ∧
        f.lines = Text.lineCount (Text.plainNewlines text) ∧ most < f.lines := by
  unfold ifLong countLines
  rw [known.usable]
  cases read : t.read p with
  | error f =>
    obtain ⟨cause, rfl⟩ := read_refused free read
    refine ⟨[], rfl, fun f => ⟨by simp, ?_⟩⟩
    rintro ⟨rfl, _, bytes, text, readable, _⟩
    rw [read] at readable
    cases readable
  | ok bytes =>
    obtain ⟨text, decoded⟩ := known.lossy bytes
    have counted : (do
        let u ← (.ok ⟨⟩ : Result PUnit)
        let bytes ← (.ok bytes : Result Bytes)
        return Text.lineCount (Text.plainNewlines (← codec.decodeLossy bytes)) : Result Nat) =
          .ok (Text.lineCount (Text.plainNewlines text)) := by
      show (codec.decodeLossy bytes >>= _) = _
      rw [decoded]
      rfl
    rw [counted]
    refine ⟨_, rfl, fun f => ?_⟩
    obtain ⟨path, lines, kind⟩ := f
    constructor
    · intro member
      split at member
      · rename_i exceeded
        cases mem_singleton.mp member
        exact ⟨rfl, rfl, bytes, text, read, decoded, rfl, of_decide_eq_true exceeded⟩
      · cases member
    · rintro ⟨rfl, rfl, other, again, readable, told, rfl, exceeded⟩
      cases read.symm.trans readable
      cases decoded.symm.trans told
      rw [if_pos (decide_eq_true exceeded)]
      exact mem_singleton_self _

end Wanted

-- The walk finds what a test of every file would keep, in the order of paths. The long files are
-- those of them that can be read and are long. Only the package file can stop the search for them.
theorem found_files_exact (w : Wanted) {t : Tree} {targets : List Text} {codec : Codec} (most : Int) (sound : t.Sound)
    (project : t.ask w.root = .ok (some .directory)) (all : ∀ name ∈ targets, w.Target name)
    (known : codec.Known) : ∃ files, sourceFilesOf w.search t (targets.map .text) = .ok files ∧
      files.Pairwise Path.Before ∧ (∀ q, q ∈ files ↔ ∃ name ∈ targets, w.Found t name q) ∧
      (∀ f, Package.framework t w.root = .error f →
        longFilesOf w.search t (targets.map .text) codec (.int most) = .error f) ∧
      ∀ framework, Package.framework t w.root = .ok framework →
        ∃ long, longFilesOf w.search t (targets.map .text) codec (.int most) = .ok long ∧
          (long.map (·.path)).Sublist files ∧
          ∀ f, f ∈ long ↔ f.path ∈ files ∧ f.framework = framework ∧ ∃ bytes text, t.read f.path = .ok bytes ∧
              codec.decodeLossy bytes = .ok text ∧ f.lines = Text.lineCount (Text.plainNewlines text) ∧ most < f.lines := by
  obtain ⟨files, found, sorted, members⟩ := w.sourceFilesOf_targets sound project all
  refine ⟨files, found, sorted, members, fun f failed => ?_, fun framework detected => ?_⟩
  · rw [longFilesOf, show Package.framework t w.search.root = _ from failed]
    rfl
  · have free : ∀ p ∈ files, p.NullFree := by
      intro p member
      obtain ⟨name, _, _, below, _, source⟩ := (members p).mp member
      exact source.nullFree sound (ask_some_nullFree project)
    obtain ⟨long, measured, exact⟩ := mapM_flatten fun p member =>
      Wanted.ifLong_known t framework known most (free p member)
    refine ⟨long.flatten, ?_, ?_, fun f => (exact f).trans (by simp)⟩
    · rw [longFilesOf, show Package.framework t w.search.root = _ from detected, found]
      show files.mapM (ifLong t codec (.int most) framework) >>= _ = _
      rw [measured]
      rfl
    · exact mapM_flatten_sublist (fun p _ _ made => Wanted.ifLong_sublist made) measured

def overlapping (package : Bytes) : Tree where
  entries :=
    [(["p"], .directory), (["p", "package.json"], .file package), (["p", "src"], .directory),
      (["p", "src", "a.ts"], .file (Utf8.encode "1;\n2;\n".toList)),
      (["p", "src", "dist"], .directory), (["p", "src", "dist", "b.ts"], .file []),
      (["p", "src", "lib"], .directory), (["p", "src", "lib", "c.ts"], .file [])].map
        fun (names, n) => (names.map String.toList, n)

def sources : Wanted := ⟨Path.ofString "/p", [".ts".toList], ["di*".toList], Glob.isMatch⟩

theorem overlapping_sound (package : Bytes) : (overlapping package).Sound where
  rooted := rooted_of_entries (by
    simp only [overlapping, map_cons, map_nil, forall_mem_cons]
    exact ⟨rfl, rfl, rfl, rfl, rfl, rfl, rfl, rfl, by simp⟩)
  single := by
    show ((overlapping []).entries.map (·.1)).Nodup
    decide
  named := by
    show ∀ l ∈ (overlapping []).entries.map (·.1), ∀ name ∈ l, Tree.EntryName name
    decide
  linkless := linkless_of_entries (by simp [overlapping])

-- Targets that overlap, one that is not there and one twice.
def overlaps : List Text := ["src/lib", "src", "gone", "src"].map String.toList

theorem found_files_overlapping :
    ∃ files long, sourceFilesOf sources.search (overlapping []) (overlaps.map .text) = .ok files ∧
      longFilesOf sources.search (overlapping []) (overlaps.map .text) (.ofValue (.ofString "UTF8")) (.int 1) = .ok long ∧
      files.Pairwise Path.Before ∧ (long.map (·.path)).Sublist files ∧ Path.ofString "/p/src/dist/b.ts" ∉ files ∧
      (⟨Path.ofString "/p/src/a.ts", 2, "unknown".toList⟩ : LongFile) ∈ long := by
  have all : ∀ name ∈ overlaps, sources.Target name := by decide
  have known : (Codec.ofValue (.ofString "UTF8")).Known := ⟨rfl, fun bytes => ⟨_, rfl⟩⟩
  obtain ⟨files, found, sorted, members, _, measured⟩ :=
    found_files_exact sources 1 (overlapping_sound []) rfl all known
  obtain ⟨long, made, kept, exact⟩ := measured "unknown".toList rfl
  refine ⟨files, long, found, made, sorted, kept, ?_, (exact _).mpr ⟨(members _).mpr ?_, rfl, ?_⟩⟩
  · intro member
    obtain ⟨name, _, _, below, _, source⟩ := (members _).mp member
    have parts : ["p".toList] ++ ["src".toList, "dist".toList, "b.ts".toList] =
        ["p".toList] ++ ((Path.ofText name).parts ++ below) := congrArg Path.parts source.path
    have way := append_cancel_left parts
    have clear := source.clear "di*".toList (by decide) "dist".toList (by rw [← way]; decide)
    exact absurd clear (by decide +kernel)
  · refine ⟨"src".toList, by decide, rfl, ["a.ts".toList], by simp, rfl, ⟨_, rfl⟩, ?_, ?_, by decide⟩
    · exact ⟨".ts".toList, by decide, "a".toList, rfl⟩
    · unfold Wanted.Clear
      decide +kernel
  · refine ⟨_, _, rfl, rfl, ?_, by decide⟩
    decide +kernel

-- A package file that is no text of the encoding, or a target with a name of 256 characters, stops
-- the search.
theorem search_stopped : (overlapping [255]).Sound ∧
      (longFilesOf sources.search (overlapping [255]) (overlaps.map .text) .utf8 (.int 1)).isOk = false ∧
      (sourceFilesOf sources.search (overlapping [])
        (("src".toList :: [List.replicate 256 'n']).map .text)).isOk = false :=
  ⟨overlapping_sound [255], by decide +kernel, by decide +kernel⟩

end Discovery

end ModuleSplit
