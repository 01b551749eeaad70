import Mathlib.Data.List.Infix
import ModuleSplit.Tree.Files

-- A tree as a function from places to nodes, in which a node lies in a directory.

namespace ModuleSplit.Tree

open List

variable {t : Tree} {l m : Location} {n : Node}

@[simp] theorem get?_root (t : Tree) : t.get? [] = some .directory := rfl

theorem get?_of_ne_root (inner : m ≠ []) (t : Tree) : t.get? m = t.entries.lookup m :=
  if_neg inner

theorem lookup_filter_ne (entries : List (Location × Node)) (l m : Location) :
    (entries.filter (·.1 ≠ l)).lookup m = if m = l then none else entries.lookup m := by
  induction entries with
  | nil => simp
  | cons entry rest ih =>
    obtain ⟨place, node⟩ := entry
    by_cases removed : place = l
    · subst removed
      rw [filter_cons_of_neg (by simp), ih, lookup_cons]
      by_cases same : m = place
      · simp [same]
      · simp [same, beq_false_of_ne same]
    · rw [filter_cons_of_pos (by simpa using removed), lookup_cons, lookup_cons, ih]
      by_cases same : m = place
      · subst same
        simp [removed]
      · simp [beq_false_of_ne same]

@[grind =] theorem get?_erase (inner : l ≠ []) (t : Tree) (m : Location) : (t.erase l).get? m = if m = l then none else t.get? m := by
  by_cases root : m = []
  · subst root
    rw [if_neg (Ne.symm inner)]
    rfl
  · rw [get?_of_ne_root root, get?_of_ne_root root]
    exact lookup_filter_ne t.entries l m

@[grind =] theorem get?_put (inner : l ≠ []) (t : Tree) (n : Node) (m : Location) :
    (t.put l n).get? m = if m = l then some n else t.get? m := by
  by_cases root : m = []
  · subst root
    rw [if_neg (Ne.symm inner)]
    rfl
  · rw [get?_of_ne_root root, get?_of_ne_root root]
    show ((t.erase l).entries ++ [(l, n)]).lookup m = _
    rw [lookup_append]
    show ((t.entries.filter (·.1 ≠ l)).lookup m).or _ = _
    rw [lookup_filter_ne]
    by_cases same : m = l
    · simp [same]
    · simp [same, lookup_cons, beq_false_of_ne same]

theorem mem_entries (inner : m ≠ []) (there : t.get? m = some n) : m ∈ t.entries.map (·.1) := by
  rw [get?_of_ne_root inner] at there
  by_cases listed : m ∈ t.entries.map (·.1)
  · exact listed
  · have absent : t.entries.lookup m = none := by
      rw [lookup_eq_none_iff]
      intro entry member
      rw [bne_iff_ne]
      rintro rfl
      exact listed (mem_map_of_mem member)
    rw [absent] at there
    cases there

theorem ne_root_of_file {bytes : Bytes} (there : t.get? l = some (.file bytes)) : l ≠ [] := by
  rintro rfl
  cases there

theorem ne_root_of_none (absent : t.get? l = none) : l ≠ [] := by
  rintro rfl
  cases absent

theorem children_eq_nil (empty : ∀ name, t.get? (l ++ [name]) = none) : t.children l = [] := by
  unfold children
  rw [filterMap_eq_nil_iff]
  rintro ⟨place, node⟩ member
  dsimp only
  split
  · rename_i name below
    rw [isPrefixOf?_eq_some_iff_append_eq] at below
    have absent := empty name
    rw [get?_of_ne_root (by simp), lookup_eq_none_iff, below] at absent
    simpa using absent (place, node) member
  · rfl

def Rooted (t : Tree) : Prop := ∀ l n, t.get? l = some n → t.get? l.dropLast = some .directory

theorem rooted_of_entries (parents : ∀ e ∈ t.entries, t.get? e.1.dropLast = some .directory) : t.Rooted := by
  intro l n there
  by_cases root : l = []
  · subst root
    rfl
  · obtain ⟨e, member, rfl⟩ := mem_map.mp (mem_entries root there)
    exact parents e member

theorem Rooted.above (rooted : t.Rooted) (there : t.get? (l ++ m) = some n) (below : m ≠ []) : t.get? l = some .directory := by
  induction m using List.reverseRecOn generalizing n with
  | nil => exact absurd rfl below
  | append_singleton rest name ih =>
    have parent := rooted _ _ there
    rw [← append_assoc, dropLast_concat] at parent
    by_cases none : rest = []
    · simpa [none] using parent
    · exact ih parent none

theorem Rooted.of_prefix (rooted : t.Rooted) (there : t.get? l = some .directory)
    (above : m <+: l) : t.get? m = some .directory := by
  obtain ⟨rest, rfl⟩ := above
  by_cases equal : rest = []
  · rw [equal, append_nil] at there
    exact there
  · exact rooted.above there equal

theorem Rooted.put_file (rooted : t.Rooted) {bytes : Bytes} (inner : l ≠ [])
    (parent : t.get? l.dropLast = some .directory) (leaf : t.get? l ≠ some .directory) : (t.put l (.file bytes)).Rooted := by
  have changes := get?_put inner t (.file bytes)
  have leads : ∀ m, t.get? m = some .directory → (t.put l (.file bytes)).get? m = some .directory := by
    intro m there
    rw [changes, if_neg (by rintro rfl; exact leaf there), there]
  intro m n there
  rw [changes] at there
  split at there
  · rename_i same
    subst same
    exact leads _ parent
  · exact leads _ (rooted m n there)

theorem Rooted.put_directory (rooted : t.Rooted) (absent : t.get? l = none)
    (parent : t.get? l.dropLast = some .directory) : (t.put l .directory).Rooted := by
  have changes := get?_put (ne_root_of_none absent) t .directory
  have leads : ∀ m, t.get? m = some .directory → (t.put l .directory).get? m = some .directory := by
    intro m there
    rw [changes]
    split
    · rfl
    · exact there
  intro m n there
  rw [changes] at there
  split at there
  · rename_i same
    subst same
    exact leads _ parent
  · exact leads _ (rooted m n there)

theorem Rooted.erase (rooted : t.Rooted) (inner : l ≠ []) (empty : ∀ name, t.get? (l ++ [name]) = none) : (t.erase l).Rooted := by
  have changes := get?_erase inner t
  intro m n there
  rw [changes] at there
  split at there
  · cases there
  · rename_i other
    have parent := rooted m n there
    rw [changes, if_neg, parent]
    intro same
    by_cases root : m = []
    · subst root
      exact inner same.symm
    · have absent := empty (m.getLast root)
      rw [← same, dropLast_concat_getLast root, there] at absent
      cases absent

theorem Rooted.no_children (rooted : t.Rooted) (leaf : t.get? l ≠ some .directory) (name : Text) :
    t.get? (l ++ [name]) = none := by
  cases there : t.get? (l ++ [name]) with
  | none => rfl
  | some n => exact absurd (rooted.above there (by simp)) leaf

end ModuleSplit.Tree
