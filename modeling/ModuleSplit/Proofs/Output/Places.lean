import ModuleSplit.Proofs.Plan.Placement
import ModuleSplit.Proofs.Transaction.Backup
import ModuleSplit.Proofs.Tree.Opening

namespace ModuleSplit

open List ModuleSplit.Tree

@[simp] theorem Path.stem_append_suffix (p : Path) : p.stem ++ p.suffix = p.name := by
  unfold stem suffix
  cases pointIndex p.name with
  | some i => exact take_append_drop i p.name
  | none => exact append_nil p.name

theorem Path.length_stem_suffix (p : Path) : p.stem.length + p.suffix.length = p.name.length := by
  rw [← length_append, stem_append_suffix]

namespace Layout

variable {l : Layout} {categories : List Category}

def names (l : Layout) (categories : List Category) : List Text :=
  categories.map (fun c => l.categoryStem c ++ l.extension) ++ [l.indexName]

theorem nameChar_parts (named : ∀ c ∈ l.sourcePath.name, NameChar c) :
    (∀ c ∈ l.baseName, NameChar c) ∧ ∀ c ∈ l.extension, NameChar c := by
  rw [← Path.stem_append_suffix, forall_mem_append] at named
  exact named

theorem names_plain (named : ∀ c ∈ l.sourcePath.name, NameChar c) :
    ∀ n ∈ l.names categories, (∀ c ∈ n, NameChar c) ∧ 2 < n.length := by
  obtain ⟨base, extension⟩ := nameChar_parts named
  have words : ∀ c : Category, (∀ d ∈ c.text, NameChar d) ∧ 2 < c.text.length := by
    intro c
    cases c <;> exact ⟨by simp [Category.text, Category.name, NameChar], by decide⟩
  unfold names
  rw [forall_mem_append, forall_mem_map, forall_mem_singleton]
  constructor
  · intro c _
    unfold categoryStem
    simp only [forall_mem_append, forall_mem_singleton, length_append]
    refine ⟨⟨⟨⟨base, by simp [NameChar]⟩, (words c).1⟩, extension⟩, ?_⟩
    have long := (words c).2
    omega
  · unfold indexName
    split
    · simp only [forall_mem_append, length_append]
      exact ⟨⟨⟨base, by simp [NameChar]⟩, extension⟩, by simp; omega⟩
    · simp only [forall_mem_append, length_append]
      exact ⟨⟨by simp [NameChar], extension⟩, by simp; omega⟩

theorem names_nodup (distinct : categories.Nodup) : (l.names categories).Nodup := by
  have other : ∀ c : Category, c.text ≠ "index".toList := by
    intro c
    cases c <;> decide
  unfold names
  rw [nodup_append]
  refine ⟨distinct.map ?_, nodup_singleton _, ?_⟩
  · intro c d same
    have words : c.text = d.text := by
      dsimp only at same
      unfold categoryStem at same
      exact append_cancel_left (append_cancel_right same)
    revert words
    cases c <;> cases d <;> decide
  · intro n member m index same
    obtain ⟨c, _, rfl⟩ := mem_map.mp member
    rw [mem_singleton.mp index] at same
    unfold indexName at same
    split at same
    · have words := append_cancel_right same
      unfold categoryStem at words
      rw [append_assoc] at words
      have tail := append_cancel_left words
      exact other c (List.cons.inj tail).2
    · have words := append_cancel_right same
      have hyphen : '-' ∈ "index".toList := by
        rw [← words]
        simp [categoryStem]
      simp at hyphen

theorem names_child (named : ∀ c ∈ l.sourcePath.name, NameChar c) {n : Text} (member : n ∈ l.names categories) :
    n ≠ "..".toList ∧ ∀ dir : Path, dir.child n = ⟨dir.root, dir.parts ++ [n]⟩ := by
  obtain ⟨chars, long⟩ := names_plain named n member
  refine ⟨?_, fun dir => dir.child_eq chars (Path.isPart_of_long long)⟩
  rintro rfl
  simp at long

theorem places_nodup (named : ∀ c ∈ l.sourcePath.name, NameChar c) (distinct : categories.Nodup)
    (t : Tree) (dir : Path) : ((l.names categories).map fun n => t.place (dir.child n)).Nodup := by
  refine List.Nodup.map_on ?_ (names_nodup distinct)
  intro n left k right same
  obtain ⟨down, child⟩ := names_child named left
  obtain ⟨down', child'⟩ := names_child named right
  rw [child, child', place_child down, place_child down'] at same
  exact singleton_inj.mp (append_cancel_left same)

theorem names_short (sibling : l.mode = .sibling) : ∀ n ∈ l.names categories, n.length ≤ l.sourcePath.name.length + 11 := by
  have size := l.sourcePath.length_stem_suffix
  have words : ∀ c : Category, c.text.length ≤ 10 := by
    intro c
    cases c <;> decide
  unfold names
  rw [forall_mem_append, forall_mem_map, forall_mem_singleton]
  constructor
  · intro c _
    have short := words c
    simp only [categoryStem, baseName, extension, length_append, length_singleton]
    omega
  · unfold indexName
    rw [sibling]
    simp only [baseName, extension, length_append]
    have word : "-index".toList.length = 6 := rfl
    omega

end Layout

theorem Plan.synthesize_paths (plan : Plan) (mode : OutputMode) (filled : plan.isEmpty = false) :
    (plan.synthesize mode).files.map (·.path) = (Layout.names ⟨plan.source.path, mode⟩ plan.categories).map
        (Layout.outputDir ⟨plan.source.path, mode⟩).child := by
  unfold synthesize
  dsimp only
  rw [filled]
  simp [Layout.names, categories, Layout.categoryPath, Layout.indexPath, Draft.category]

namespace Backup

theorem fileName_longer (source : Path) (m : Moment) (attempt : Nat) :
    source.name.length + 12 ≤ (fileName source m attempt).length := by
  have digits : 4 ≤ (Moment.digits 4 m.year).length := by
    unfold Moment.digits Text.padLeft
    simp
    omega
  have date : 4 ≤ m.dateText.length := by
    unfold Moment.dateText Text.joinWith
    rw [intercalate_cons_cons, append_assoc, length_append]
    omega
  have stamp : 4 ≤ m.stamp.length := by
    unfold Moment.stamp Moment.secondsText
    simp only [length_append]
    omega
  unfold fileName
  have ending : ".backup".toList.length = 7 := rfl
  simp only [length_append, length_singleton]
  omega

end Backup

namespace Tree

variable {t : Tree} {p : Path} {name : Text}

theorem child_of_absent (rooted : t.Rooted) (found : t.isDirectory p = true)
    (named : ∀ c ∈ name, NameChar c) (absent : t.get? (t.place (p.child name)) = none) :
    p.child name = ⟨p.root, p.parts ++ [name]⟩ ∧ t.place (p.child name) = t.place p ++ [name] := by
  have child : p.child name = ⟨p.root, p.parts ++ [name]⟩ := by
    by_cases part : Path.isPart name = true
    · exact p.child_eq named part
    · have same : p.child name = p := by
        rw [Path.child, Path.ofText_name named, filter_cons_of_neg part]
        exact congrArg (Path.mk p.root) (append_nil p.parts)
      rw [same, (isDirectory_parts found).2] at absent
      cases absent
  have parent : (p.child name).parent = p := by rw [child, Path.parent_snoc]
  obtain ⟨last, down, same⟩ := name_of_absent rooted (by rw [parent]; exact found) absent
  rw [parent, child] at same
  have equal : name = last := singleton_inj.mp (append_cancel_left (Path.mk.inj same).2)
  refine ⟨child, ?_⟩
  rw [child]
  exact place_child (by rw [equal]; exact down)

theorem Opens.anchored {dir : Path} (rooted : t.Rooted) (opens : t.Opens dir)
    (child : name ≠ "..".toList) : t.Anchored ⟨dir.root, dir.parts ++ [name]⟩ := by
  cases opens with
  | there found => exact ⟨dir.parts, [name], rfl, found, by simpa using Ne.symm child⟩
  | new above absent =>
    obtain ⟨outer, down, same⟩ := name_of_absent rooted above absent
    have parts : dir.parts = dir.parent.parts ++ [outer] := congrArg Path.parts same
    refine ⟨dir.parent.parts, [outer, name], ?_, above, ?_⟩
    · rw [parts, append_assoc]
      rfl
    · simpa using ⟨Ne.symm down, Ne.symm child⟩

end Tree

namespace Layout

variable {l : Layout} {t : Tree}

theorem opens (rooted : t.Rooted) (found : t.isDirectory l.sourceDir = true) (named : ∀ c ∈ l.sourcePath.name, NameChar c)
    (free : l.mode = .directory → t.get? (t.place l.outputDir) = none) : t.Opens l.outputDir := by
  unfold outputDir at free ⊢
  split
  · exact .there found
  · rename_i separate
    rw [separate] at free
    have absent := free rfl
    refine .new ?_ absent
    rw [(child_of_absent rooted found (nameChar_parts named).1 absent).1, Path.parent_snoc]
    exact found

theorem clear_of_backup (rooted : t.Rooted) (found : t.isDirectory l.sourceDir = true)
    (named : ∀ c ∈ l.sourcePath.name, NameChar c) (free : l.mode = .directory → t.get? (t.place l.outputDir) = none) {dir : Path}
    (there : t.isDirectory dir = true) (m : Moment) (attempt : Nat)
    (absent : t.get? (t.place (Backup.candidate dir l.sourcePath m attempt)) = none) :
    t.place (Backup.candidate dir l.sourcePath m attempt) ≠ t.place l.outputDir ∧ ∀ categories, ∀ n ∈ l.names categories,
        t.place l.outputDir ++ [n] ≠ t.place (Backup.candidate dir l.sourcePath m attempt) := by
  have longer := Backup.fileName_longer l.sourcePath m attempt
  have place := Backup.place_candidate t dir l.sourcePath m attempt
  cases mode : l.mode with
  | sibling =>
    have same : l.outputDir = l.sourceDir := by
      unfold outputDir
      rw [mode]
    rw [same]
    refine ⟨?_, ?_⟩
    · intro equal
      rw [equal, (isDirectory_parts found).2] at absent
      cases absent
    · intro categories n member equal
      rw [place] at equal
      have short := names_short mode n member
      rw [singleton_inj.mp (append_inj' equal rfl).2] at short
      omega
  | directory =>
    have gone := free mode
    have same : l.outputDir = l.sourceDir.child l.baseName := by
      unfold outputDir
      rw [mode]
    refine ⟨?_, ?_⟩
    · have size := l.sourcePath.length_stem_suffix
      have inner := (child_of_absent rooted found (nameChar_parts named).1 (by rw [← same]; exact gone)).2
      intro equal
      rw [place, same, inner] at equal
      have short : l.baseName.length ≤ l.sourcePath.name.length := by
        rw [← size]
        exact Nat.le_add_right _ _
      rw [← singleton_inj.mp (append_inj' equal rfl).2] at short
      omega
    · intro categories n member equal
      rw [place] at equal
      rw [(append_inj' equal rfl).1, (isDirectory_parts there).2] at gone
      cases gone

end Layout

end ModuleSplit
