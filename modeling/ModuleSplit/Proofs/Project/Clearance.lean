import ModuleSplit.Proofs.Output.Places
import ModuleSplit.Proofs.Project.Idempotent
import ModuleSplit.Proofs.Transaction.Unhindered

namespace ModuleSplit

open List ModuleSplit.Tree
open Text (breakLines)

theorem read_source {t : Tree} {path : Path} (rooted : t.Rooted)
    (home : t.get? t.workingDirectory = some .directory) {original : Bytes} (read : t.read path = .ok original) :
    t.Admits path ∧ t.isDirectory path.parent = true := by
  obtain ⟨free, located, there⟩ := read_ok read
  have storable := storable_of_located (Path.accept_ok.mpr free) located
  obtain ⟨last, down, whole, above⟩ := file_parts rooted home storable located there
  refine ⟨⟨storable, ?_⟩, above⟩
  rw [whole]
  exact (Opens.there above).anchored rooted down

namespace Project

variable {p : Project} {path : Path} {m : Moment} {s : Store} {plan : Plan}

def split (p : Project) (plan : Plan) (dir : Path) : Transaction where
  source := plan.source.path
  files := filesOf (p.synthesis plan) plan.source
  backupDir := dir
  codec := p.codec
  mode := p.mode
  newline := plan.source.newline.text
  overwrite := p.settings.split.overwriteExisting.isTruthy

theorem refactorFile_split {dir : Path} {done : SplitReport → Store → Prop}
    {failed : Failure → Store → Prop} (planned : p.planFile s.tree path = .ok plan) (configured : p.backupDir = .ok dir)
    (after : After ((p.split plan dir).run m) {store := s}
      (fun o a => done (reportOf plan (p.analysis plan) o) a.store) fun f a => failed f a.store) :
    After (p.refactorFile path m) s done failed := by
  have made : p.transaction plan.source.path (filesOf (p.synthesis plan) plan.source) p.codec
      plan.source.newline.text = .ok (p.split plan dir) := by
    unfold transaction
    rw [configured]
    rfl
  refine .bind (.of_ended (show Store.treeNow s = .ok s.tree s from rfl) ?_)
  rw [planned]
  refine .bind (.of_ended (show Store.ofResult (.ok plan) s = .ok plan s from rfl) ?_)
  refine .bind (.bind ?_)
  rw [made]
  refine .of_ended (show Store.ofResult (.ok (p.split plan dir)) s = .ok _ s from rfl) ?_
  exact perform_after after

theorem refactorFile_run {dir : Path} {o : Outcome} {a : Attempt}
    (planned : p.planFile s.tree path = .ok plan) (configured : p.backupDir = .ok dir)
    (run : (p.split plan dir).run m {store := s} = .ok o a) :
    p.refactorFile path m s = .ok (reportOf plan (p.analysis plan) o) a.store := by
  have after : After (p.refactorFile path m) s (fun report s' => report = reportOf plan (p.analysis plan) o ∧ s' = a.store)
      fun _ _ => False := refactorFile_split planned configured (.of_ended run ⟨rfl, rfl⟩)
  obtain ⟨_, _, ended, rfl, rfl⟩ := after.total
  exact ended

theorem planFile_read {t : Tree} (planned : p.planFile t path = .ok plan) : ∃ bytes, t.read (p.resolve path) = .ok bytes := by
  obtain ⟨source, loaded, _⟩ := Result.bind_ok.mp planned
  obtain ⟨_, _, loaded⟩ := Result.bind_ok.mp loaded
  obtain ⟨bytes, read, _⟩ := Result.bind_ok.mp loaded
  exact ⟨bytes, read⟩

theorem resolve_absolute (absolute : path.isAbsolute = true) : p.resolve path = path :=
  if_pos absolute

theorem synthesis_named (p : Project) (named : ∀ c ∈ path.name, NameChar c)
    (origin : plan.source.path = path) (filled : plan.isEmpty = false) : ∀ f ∈ (p.synthesis plan).files,
      ∃ n ∈ Layout.names ⟨path, p.outputs⟩ plan.categories, n ≠ "..".toList ∧
        f.path = ⟨(Layout.outputDir ⟨path, p.outputs⟩).root, (Layout.outputDir ⟨path, p.outputs⟩).parts ++ [n]⟩ := by
  intro f member
  have listed := mem_map_of_mem (f := (·.path)) member
  rw [synthesis, plan.synthesize_paths p.outputs filled, origin] at listed
  obtain ⟨n, inside, same⟩ := mem_map.mp listed
  obtain ⟨down, child⟩ := Layout.names_child (l := ⟨path, p.outputs⟩) named inside
  exact ⟨n, inside, down, same.symm.trans (child _)⟩

theorem filesOf_idle (p : Project) (empty : plan.isEmpty = true) : filesOf (p.synthesis plan) plan.source = [] := by
  rw [filesOf, synthesis_isEmpty, empty]
  rfl

theorem filled_of_files (p : Project) (some : filesOf (p.synthesis plan) plan.source ≠ []) : plan.isEmpty = false := by
  rw [Bool.eq_false_iff]
  intro empty
  exact some (filesOf_idle p empty)

theorem split_files (p : Project) (dir : Path) (filled : plan.isEmpty = false) : (p.split plan dir).files =
      (p.synthesis plan).files ++ [⟨plan.source.path, (p.synthesis plan).replacement⟩] := by
  show filesOf _ _ = _
  rw [filesOf, synthesis_isEmpty, filled]
  rfl

theorem split_savable (p : Project) {t : Tree} {dir : Path} (rooted : t.Rooted)
    (home : t.get? t.workingDirectory = some .directory) (asked : t.ask dir = .ok (some .directory)) (single : '/' ∉ path.name)
    (origin : plan.source.path = path) {original : Bytes} (read : t.read path = .ok original) :
    (p.split plan dir).Savable t original := by
  obtain ⟨free, _, there⟩ := read_ok read
  have same : (p.split plan dir).source = path := origin
  refine ⟨rooted, home, Path.accept_ok.mpr (ask_some_nullFree asked), ?_, ?_, ?_⟩
  · rw [same]
    exact nameChar_name free single
  · rw [same]
    exact (read_source rooted home read).1
  · rw [same]
    exact there

structure Clear (p : Project) (path : Path) (m : Moment) (plan : Plan) (s : Store) : Prop where
  rooted : s.tree.Rooted
  home : s.tree.get? s.tree.workingDirectory = some .directory
  faultless : s.Faultless
  -- the directory is there, and the search in it ends with a name
  backup : ∃ dir saved, p.backupDir = .ok dir ∧ s.tree.ask dir = .ok (some .directory) ∧
    Backup.target s.tree dir path m = .ok saved ∧ s.tree.get? (s.tree.place saved) ≠ some .dangling
  free : ∀ f ∈ (p.synthesis plan).files, s.tree.get? (s.tree.place f.path) = none
  -- a directory of their own is new as well
  separate : p.outputs = .directory →
    s.tree.get? (s.tree.place (Layout.outputDir ⟨path, p.outputs⟩)) = none
  storable : ∀ f ∈ (p.synthesis plan).files, f.path.Storable
  reads : ∀ f ∈ filesOf (p.synthesis plan) plan.source, ∃ bytes,
    p.codec.encode (breakLines plan.source.newline.text f.text) = .ok bytes ∧
      p.codec.decode bytes = .ok (breakLines plan.source.newline.text f.text)
  name : '/' ∉ path.name

namespace Clear

theorem nameChar (clear : p.Clear path m plan s) (free : path.NullFree) :
    ∀ c ∈ path.name, NameChar c := nameChar_name free clear.name

theorem distinct (clear : p.Clear path m plan s) (origin : plan.source.path = path)
    (built : Plan.build plan.source p.patterns p.mode = .ok plan) (filled : plan.isEmpty = false)
    (free : path.NullFree) : ((p.synthesis plan).files.map fun f => s.tree.place f.path).Nodup := by
  obtain ⟨classified, parts⟩ := Plan.build_parts built
  have once : plan.categories.Nodup := parts.categories_sublist.nodup (by decide)
  have paths := congrArg (List.map s.tree.place) (plan.synthesize_paths p.outputs filled)
  rw [origin, map_map, map_map] at paths
  rw [show ((p.synthesis plan).files.map fun f => s.tree.place f.path) = _ from paths]
  exact Layout.places_nodup (l := ⟨path, p.outputs⟩) (clear.nameChar free) once s.tree _

theorem opens (clear : p.Clear path m plan s) {original : Bytes} (read : s.tree.read path = .ok original) :
    s.tree.Opens (Layout.outputDir ⟨path, p.outputs⟩) :=
  Layout.opens clear.rooted (read_source clear.rooted clear.home read).2 (clear.nameChar (read_ok read).1) clear.separate

theorem awaits (clear : p.Clear path m plan s) (origin : plan.source.path = path)
    (built : Plan.build plan.source p.patterns p.mode = .ok plan) (filled : plan.isEmpty = false)
    {original : Bytes} (read : s.tree.read path = .ok original) (dir : Path) :
    (p.split plan dir).Awaits (Layout.outputDir ⟨path, p.outputs⟩) s.tree (p.split plan dir).files := by
  obtain ⟨free, located, there⟩ := read_ok read
  have opens := clear.opens read
  have named := synthesis_named p (clear.nameChar free) origin filled
  rw [split_files p dir filled, origin]
  refine ⟨clear.rooted, opens, ?_, ?_, ?_, ?_⟩
  · rw [forall_mem_append, forall_mem_singleton]
    refine ⟨fun f member => ⟨clear.storable f member, ?_⟩, (read_source clear.rooted clear.home read).1⟩
    obtain ⟨n, _, down, child⟩ := named f member
    rw [child]
    exact opens.anchored clear.rooted down
  · rw [map_append, nodup_append]
    refine ⟨clear.distinct origin built filled free, nodup_singleton _, ?_⟩
    intro l member k last same
    obtain ⟨f, listed, rfl⟩ := mem_map.mp member
    rw [mem_singleton.mp last] at same
    have gone := clear.free f listed
    rw [same, there] at gone
    cases gone
  · intro f member other
    rcases mem_append.mp member with new | last
    · obtain ⟨n, _, down, child⟩ := named f new
      exact ⟨clear.free f new, n, down, child⟩
    · rw [mem_singleton.mp last] at other
      exact absurd origin.symm other
  · intro f member same
    rw [same]
    show ∃ bytes, s.tree.get? (s.tree.place plan.source.path) = _
    rw [origin]
    exact ⟨original, there⟩

theorem unhindered (clear : p.Clear path m plan s)
    (absolute : path.isAbsolute = true) (planned : p.planFile s.tree path = .ok plan) (filled : plan.isEmpty = false) :
    ∃ dir saved original, p.backupDir = .ok dir ∧ (p.split plan dir).Unhindered m
      plan.source.newline (Layout.outputDir ⟨path, p.outputs⟩) saved original s := by
  obtain ⟨_, origin, built⟩ := planFile_parts planned
  obtain ⟨original, read⟩ := planFile_read planned
  rw [resolve_absolute absolute] at origin read
  obtain ⟨dir, saved, configured, asked, chosen, solid⟩ := clear.backup
  refine ⟨dir, saved, original, configured, ?_⟩
  obtain ⟨free, located, there⟩ := read_ok read
  obtain ⟨_, above⟩ := read_source clear.rooted clear.home read
  have plain := clear.nameChar free
  have awaits := clear.awaits origin built filled read dir
  have same : (p.split plan dir).source = path := origin
  have savable := split_savable p clear.rooted clear.home asked clear.name origin read
  have found : s.tree.isDirectory dir = true := by
    obtain ⟨reached, directory⟩ := ask_some asked
    exact isDirectory_of_get? reached directory
  have room : (p.split plan dir).Room m s.tree saved := by
    refine ⟨found, ?_, solid⟩
    rw [same]
    exact chosen
  have reads : ∀ f ∈ (p.split plan dir).files, ∃ bytes, (p.split plan dir).encode f.text = .ok bytes ∧
        p.codec.decode bytes = .ok (breakLines plan.source.newline.text f.text) := by
    intro f member
    rw [Transaction.encode_eq (show _ = plan.source.newline.text from rfl)]
    exact clear.reads f member
  have files := split_files p dir filled
  obtain ⟨attempt, chosen, _⟩ := room.named savable.named
  obtain ⟨absent, _, _⟩ := room.copy savable
  rw [same] at chosen
  subst chosen
  obtain ⟨aside, apart⟩ := Layout.clear_of_backup (l := ⟨path, p.outputs⟩) clear.rooted above
    plain clear.separate found m attempt absent
  refine ⟨clear.faultless, savable, room, awaits,
    ⟨_, by rw [files]; exact mem_append_right _ (mem_singleton_self _), rfl⟩, ?_, aside,
    reads⟩
  · rw [files, forall_mem_append, forall_mem_singleton]
    refine ⟨fun f member => ?_, ?_⟩
    · obtain ⟨n, inside, down, child⟩ := synthesis_named p plain origin filled f member
      rw [child, place_child down]
      exact apart _ n inside
    · intro equal
      rw [← equal, origin, there] at absent
      cases absent

end Clear

end Project

end ModuleSplit
