import ModuleSplit.Output.Layout
import ModuleSplit.Proofs.Tree.Directories

namespace ModuleSplit

open List

theorem Text.mem_of_splitOn {sep c : Char} {t piece : Text} (listed : piece ∈ splitOn sep t) (member : c ∈ piece) : c ∈ t := by
  induction t generalizing piece with
  | nil =>
    rw [splitOn, mem_singleton] at listed
    rwa [listed] at member
  | cons first rest ih =>
    rw [splitOn] at listed
    split at listed
    · rcases mem_cons.mp listed with rfl | later
      · cases member
      · exact mem_cons_of_mem _ (ih later member)
    · cases pieces : splitOn sep rest with
      | nil =>
        rw [pieces, mem_singleton] at listed
        subst listed
        exact mem_cons.mpr (.inl (mem_singleton.mp member))
      | cons next pieces' =>
        rw [pieces] at listed ih
        rcases mem_cons.mp listed with rfl | later
        · rcases mem_cons.mp member with rfl | inside
          · exact mem_cons_self
          · exact mem_cons_of_mem _ (ih mem_cons_self inside)
        · exact mem_cons_of_mem _ (ih (mem_cons_of_mem _ later) member)

namespace Path

def NullFree (p : Path) : Prop := ∀ part ∈ p.parts, '\x00' ∉ part

variable {p q : Path}

@[simp] theorem accept_ok : Tree.accept p = .ok ⟨⟩ ↔ p.NullFree := by
  unfold Tree.accept NullFree
  split
  · rename_i found
    simpa using found
  · rename_i none
    simpa using none

theorem Storable.nullFree (storable : p.Storable) : p.NullFree := by
  rw [← accept_ok, Tree.accept, storable.accepted]
  rfl

namespace NullFree

theorem subset (free : p.NullFree) (fewer : q.parts ⊆ p.parts) : q.NullFree :=
  fun part member => free part (fewer member)

theorem parent (free : p.NullFree) : p.parent.NullFree := free.subset (dropLast_subset _)

theorem ofText {t : Text} (free : '\x00' ∉ t) : (Path.ofText t).NullFree := by
  intro part member null
  exact free (Text.mem_of_splitOn (mem_of_mem_filter member) null)

theorem join (left : p.NullFree) (right : q.NullFree) : (p.join q).NullFree := by
  unfold Path.join
  split
  · exact right
  · intro part member
    rcases mem_append.mp member with above | below
    · exact left part above
    · exact right part below

theorem child (free : p.NullFree) {name : Text} (plain : '\x00' ∉ name) : (p.child name).NullFree := free.join (.ofText plain)

theorem name (free : p.NullFree) : '\x00' ∉ p.name := by
  unfold Path.name
  cases last : p.parts.getLast? with
  | none => simp
  | some part => exact free part (mem_of_getLast? last)

theorem stem (free : p.NullFree) : '\x00' ∉ p.stem := by
  unfold Path.stem
  split
  · exact fun null => free.name (mem_of_mem_take null)
  · exact free.name

theorem suffix (free : p.NullFree) : '\x00' ∉ p.suffix := by
  unfold Path.suffix
  split
  · exact fun null => free.name (mem_of_mem_drop null)
  · simp

end NullFree

end Path

namespace Layout

variable {l : Layout}

theorem outputDir_nullFree (free : l.sourcePath.NullFree) : l.outputDir.NullFree := by
  unfold outputDir sourceDir baseName
  split
  · exact free.parent
  · exact free.parent.child free.stem

theorem indexPath_nullFree (free : l.sourcePath.NullFree) : l.indexPath.NullFree := by
  refine (outputDir_nullFree free).child ?_
  have stem := free.stem
  have suffix := free.suffix
  unfold indexName baseName extension
  split <;> simp [stem, suffix]

theorem categoryPath_nullFree (free : l.sourcePath.NullFree) (c : Category) : (l.categoryPath c).NullFree := by
  refine (outputDir_nullFree free).child ?_
  have name : '\x00' ∉ c.text := by cases c <;> decide
  unfold categoryStem baseName extension
  simp [free.stem, free.suffix, name]

end Layout

namespace Tree

variable {t : Tree} {p q : Path} {f : Failure}

theorem read_refused (free : p.NullFree) (failed : t.read p = .error f) : ∃ e, f = .os e := by
  unfold read at failed
  rw [Path.accept_ok.mpr free] at failed
  dsimp only [bind, Except.bind] at failed
  split at failed <;> cases failed <;> exact ⟨_, rfl⟩

theorem write_refused (free : p.NullFree) {bytes : Bytes} (failed : t.write p bytes = .error f) : ∃ e, f = .os e := by
  rcases write_parts (Path.accept_ok.mpr free) t bytes with ⟨e, refused⟩ | ⟨done, _⟩
  · rw [refused] at failed
    cases failed
    exact ⟨e, rfl⟩
  · rw [done] at failed
    cases failed

theorem copy_refused (source : p.NullFree) (destination : q.NullFree) (failed : t.copy p q = .error f) : ∃ e, f = .os e := by
  unfold copy at failed
  rw [Path.accept_ok.mpr source, Path.accept_ok.mpr destination] at failed
  dsimp only [bind, Except.bind] at failed
  split at failed
  · cases failed
    exact read_refused source ‹_›
  · split at failed
    · exact write_refused (destination.child source.name) failed
    · exact write_refused destination failed

theorem remove_refused (free : p.NullFree) (failed : t.remove p = .error f) : ∃ e, f = .os e := by
  unfold remove at failed
  rw [Path.accept_ok.mpr free] at failed
  dsimp only [bind, Except.bind] at failed
  split at failed
  · cases failed
    exact ⟨_, rfl⟩
  · split at failed <;> cases failed <;> exact ⟨_, rfl⟩

theorem removeDirectory_refused (free : p.NullFree) (failed : t.removeDirectory p = .error f) : ∃ e, f = .os e := by
  unfold removeDirectory at failed
  rw [Path.accept_ok.mpr free] at failed
  dsimp only [bind, Except.bind] at failed
  split at failed
  · cases failed
    exact ⟨_, rfl⟩
  · split at failed
    · split at failed <;> cases failed
      exact ⟨_, rfl⟩
    · cases failed
      exact ⟨_, rfl⟩
    · cases failed
      exact ⟨_, rfl⟩

theorem makeUpward_os {root : PathRoot} {parts : List Text}
    (failed : (t.makeUpward root parts).1 = .error f) : ∃ e, f = .os e := by
  have answer : ∀ {c : Prop} [Decidable c] {cause : OsCause} {p : Path},
      (if c then .ok ⟨⟩ else fault cause p : Result Unit) = .error f → ∃ e, f = .os e := by
    intro c _ cause p failed
    split at failed <;> cases failed
    exact ⟨_, rfl⟩
  fun_induction Tree.makeUpward t root parts with
  | case1 parts p made accepted => cases failed
  | case2 part above e made outer p missing ih =>
    rw [outer] at ih
    exact ih failed
  | case3 part above v made outer all p missing accepted ih => cases failed
  | case4 part above v made outer cause p missing refused ih => exact answer failed
  | case5 parts p cause refused other => exact answer failed

theorem makeDirectories_refused (free : p.NullFree) (failed : (t.makeDirectories p).1 = .error f) : ∃ e, f = .os e := by
  unfold makeDirectories at failed
  rw [Path.accept_ok.mpr free] at failed
  exact makeUpward_os failed

theorem makeDirectories_change (rooted : t.Rooted) (home : t.get? t.workingDirectory = some .directory) (p : Path) :
    t.Grows (t.makeDirectories p).2 (t.OnTheWay p) := by
  by_cases free : p.NullFree
  · exact (makeDirectories_grows rooted home (Path.accept_ok.mpr free)).grows
  · unfold makeDirectories
    split
    · rename_i accepted
      exact absurd (Path.accept_ok.mp accepted) free
    · exact .refl rooted

theorem copy_nullFree {u : Tree} (copied : t.copy p q = .ok u) : q.NullFree := by
  unfold copy at copied
  obtain ⟨_, _, copied⟩ := Result.bind_ok.mp copied
  obtain ⟨_, accepted, _⟩ := Result.bind_ok.mp copied
  exact Path.accept_ok.mp accepted

theorem missing_nullFree (free : p.NullFree) {made : List Path} (found : t.missing p = .ok made) : ∀ d ∈ made, d.NullFree := by
  have above : ∀ parts made, (∀ part ∈ parts, '\x00' ∉ part) →
      t.missingAbove p.root parts = .ok made → ∀ d ∈ made, d.NullFree := by
    intro parts
    induction parts with
    | nil =>
      intro made plain found
      obtain ⟨answer, _, found⟩ := Result.bind_ok.mp found
      cases Result.pure_ok.mp found
      split
      · simp
      · simp [Path.NullFree]
    | cons part above ih =>
      intro made plain found
      rw [forall_mem_cons] at plain
      obtain ⟨answer, _, found⟩ := Result.bind_ok.mp found
      cases answer with
      | some n =>
        cases found
        simp
      | none =>
        obtain ⟨outer, listed, found⟩ := Result.bind_ok.mp found
        cases Result.pure_ok.mp found
        intro d member
        rcases mem_append.mp member with earlier | last
        · exact ih outer plain.2 listed d earlier
        · rw [mem_singleton.mp last]
          intro inner member
          rcases mem_cons.mp (mem_reverse.mp member) with rfl | further
          · exact plain.1
          · exact plain.2 inner further
  exact above p.parts.reverse made (fun part member => free part (mem_reverse.mp member)) found

theorem ask_storable (storable : p.Storable) : ∃ found, t.ask p = .ok found := by
  have walked : ∀ (parts : List Text) (l : Location), (∀ part ∈ parts, Utf8.size part ≤ nameLimit) →
      parts.foldlM t.step l ≠ .error .nameTooLong := by
    intro parts
    induction parts with
    | nil =>
      intro l _ failed
      cases failed
    | cons part rest ih =>
      intro l short failed
      rw [forall_mem_cons] at short
      rw [foldlM_cons] at failed
      cases first : t.step l part with
      | ok next =>
        rw [first] at failed
        exact ih next short.2 failed
      | error cause =>
        rw [first] at failed
        cases failed
        unfold step at first
        split at first
        · split at first
          · cases first
          · split at first
            · omega
            · cases first
        · cases first
        · cases first
        · cases first
  unfold ask find
  rw [Path.accept_ok.mpr storable.nullFree]
  have located : t.locate p ≠ .error .nameTooLong := by
    rw [locate, if_pos storable.brief]
    exact walked p.parts _ storable.short
  cases place : t.locate p with
  | error cause =>
    cases cause <;> first | exact absurd place located | exact ⟨none, rfl⟩
  | ok l =>
    cases there : t.get? l with
    | none => exact ⟨none, by simp [bind, Except.bind, there]⟩
    | some n => cases n <;> exact ⟨_, by simp [bind, Except.bind, there]; rfl⟩

end Tree

end ModuleSplit
