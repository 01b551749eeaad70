import ModuleSplit.Proofs.Project.Refactor
import ModuleSplit.Proofs.Transaction.Custody

namespace ModuleSplit

open List ModuleSplit.Tree

def Tree.Inside (t : Tree) (dir : Path) (l : Location) : Prop :=
  t.place dir <+: l ∧ l ≠ t.place dir

structure Receipt where
  backup : Backup
  before : Tree

structure Session where
  store : Store
  receipts : List Receipt := []

inductive Operation where
  | backup (path : Path) (m : Moment)
  | commit (source : Path) (files : List OutputFile) (codec : Codec) (newline : Text) (m : Moment)
  | restore (b : Backup)

def Operation.perform (p : Project) : Operation → StoreM (Option Backup)
  | .backup path m => do return some (← p.backup path m)
  | .commit source files codec newline m => do
    return (← p.commit source files codec newline m).backup
  | .restore b => do
    Project.restore b
    return none

namespace Session

-- An operation that fails leaves what it has changed, and hands out nothing.
def step (p : Project) (c : Session) (o : Operation) : Session :=
  match o.perform p c.store with
  | .ok (some b) s => ⟨s, c.receipts ++ [⟨b, c.store.tree⟩]⟩
  | .ok none s => {c with store := s}
  | .error _ s => {c with store := s}

def Permits (dir : Path) (c : Session) : Operation → Prop
  | .backup path _ => '/' ∉ path.name ∧ ¬c.store.tree.Inside dir (c.store.tree.place path)
  | .commit source files _ _ _ =>
    '/' ∉ source.name ∧ ¬c.store.tree.Inside dir (c.store.tree.place source) ∧
      ∀ f ∈ files, ¬c.store.tree.Inside dir (c.store.tree.place f.path)
  | .restore b => ∃ r ∈ c.receipts, r.backup = b

inductive Leads (p : Project) (dir : Path) : Session → Session → Prop where
  | refl {c : Session} : Leads p dir c c
  | step {c d : Session} {o : Operation} (run : Leads p dir c d) (allowed : d.Permits dir o) :
      Leads p dir c (d.step p o)

end Session

-- A backup in its place, with the bytes of its source; the source is still a file.
structure Receipt.Good (dir : Path) (r : Receipt) (t : Tree) : Prop where
  fresh : r.before.ask r.backup.path = .ok none
  inside : t.Inside dir (t.place r.backup.path)
  copy : ∃ bytes, r.before.read r.backup.source = .ok bytes ∧
    t.get? (t.place r.backup.path) = some (.file bytes)
  source : ∃ bytes, t.get? (t.place r.backup.source) = some (.file bytes)
  outside : ¬t.Inside dir (t.place r.backup.source)

namespace Tree.Retains

variable {t u : Tree} {dir : Path} {Exposed : Location → Prop}

theorem weaken {Wider : Location → Prop} (retains : t.Retains u Exposed)
    (wider : ∀ l, Exposed l → Wider l) : t.Retains u Wider := by
  refine ⟨retains.workingDirectory, ?_⟩
  intro l bytes there
  obtain ⟨now, still, same⟩ := retains.file l bytes there
  exact ⟨now, still, fun safe => same fun exposed => safe (wider l exposed)⟩

theorem inside (retains : t.Retains u Exposed) (dir : Path) (l : Location) : u.Inside dir l ↔ t.Inside dir l := by
  unfold Inside
  rw [retains.place]

theorem good (retains : t.Retains u fun l => ¬t.Inside dir l) {r : Receipt} (good : r.Good dir t) : r.Good dir u := by
  obtain ⟨bytes, original, copy⟩ := good.copy
  obtain ⟨old, there⟩ := good.source
  obtain ⟨now, still, _⟩ := retains.file _ old there
  have place := retains.place
  refine ⟨good.fresh, ?_, ⟨bytes, original, ?_⟩, ⟨now, ?_⟩, ?_⟩
  · rw [retains.inside, place]
    exact good.inside
  · rw [place]
    exact retains.kept copy fun exposed => exposed good.inside
  · rw [place]
    exact still
  · rw [retains.inside, place]
    exact good.outside

end Tree.Retains

namespace Taken

variable {dir : Path} {before start now : Tree} {record : Backup}

theorem inside (taken : Taken dir before record start) : before.Inside dir (before.place record.path) := by
  obtain ⟨name, down, path⟩ := taken.named
  have place : before.place record.path = before.place dir ++ [name] := by
    rw [path]
    exact place_child down
  rw [Tree.Inside, place]
  exact ⟨prefix_append _ _, by simp⟩

theorem fresh (taken : Taken dir before record start) : before.ask record.path = .ok none := by
  obtain ⟨found, asked⟩ := ask_storable (t := before) taken.storable
  cases found with
  | none => exact asked
  | some n =>
    have there := (ask_some asked).2
    rw [taken.absent] at there
    cases there

theorem good (taken : Taken dir before record start) (retains : start.Retains now fun l => ¬before.Inside dir l)
    (outside : ¬before.Inside dir (before.place record.source)) : Receipt.Good dir ⟨record, before⟩ now := by
  obtain ⟨bytes, read, copy⟩ := taken.copy
  have whole := (taken.grown.retains fun l => ¬before.Inside dir l).trans retains
  have place := whole.place
  have there := (read_ok read).2.2
  obtain ⟨last, still, _⟩ := whole.file _ bytes there
  have inside := taken.inside
  refine ⟨taken.fresh, ?_, ⟨bytes, read, ?_⟩, ⟨last, ?_⟩, ?_⟩
  · rw [whole.inside, place]
    exact inside
  · rw [taken.grown.keeps.place] at copy
    rw [place]
    exact retains.kept copy fun exposed => exposed inside
  · rw [place]
    exact still
  · rw [whole.inside, place]
    exact outside

theorem other (taken : Taken dir before record start) {r : Receipt} (good : r.Good dir before) : r.backup.path ≠ record.path := by
  obtain ⟨bytes, _, there⟩ := good.copy
  intro same
  rw [same, taken.absent] at there
  cases there

end Taken

theorem Receipt.Good.restored {dir : Path} {r : Receipt} {t u : Tree} (good : r.Good dir t)
    (copied : t.copy r.backup.path r.backup.source = .ok u) : (t.Retains u fun l => ¬t.Inside dir l) ∧
      u.read r.backup.source = r.before.read r.backup.source := by
  obtain ⟨old, there⟩ := good.source
  obtain ⟨original, before, copy⟩ := good.copy
  have leaf : t.isDirectory r.backup.source = false := not_isDirectory (by simp [there])
  obtain ⟨bytes, read, written⟩ := copy_ok copied leaf
  have same : bytes = original := by
    have found := (read_ok read).2.2
    rw [copy] at found
    cases found
    rfl
  subst same
  refine ⟨(Tree.Retains.refl t _).write written good.outside, ?_⟩
  rw [before]
  exact read_of_find (write_ok written).1 (find_written written)

namespace Session

variable {p : Project} {dir : Path} {c d : Session} {o : Operation}

structure Guarded (dir : Path) (c : Session) : Prop where
  distinct : (c.receipts.map (·.backup.path)).Nodup
  good : ∀ r ∈ c.receipts, r.Good dir c.store.tree

structure Told (dir : Path) (before : Tree) (record : Backup) (now : Tree) : Prop where
  outside : ¬before.Inside dir (before.place record.source)
  taken : ∃ start, Taken dir before record start ∧
    start.Retains now fun l => ¬before.Inside dir l

theorem transaction_parts (configured : p.backupDir = .ok dir) {source : Path}
    {files : List OutputFile} {codec : Codec} {newline : Text} {t : Transaction}
    (made : p.transaction source files codec newline = .ok t) : t.source = source ∧ t.files = files ∧ t.backupDir = dir := by
  obtain ⟨named, same, made⟩ := Result.bind_ok.mp made
  rw [configured] at same
  cases same
  rw [← Result.pure_ok.mp made]
  exact ⟨rfl, rfl, rfl⟩

theorem perform_guarded (configured : p.backupDir = .ok dir) (guarded : c.Guarded dir) (allowed : c.Permits dir o) :
    After (o.perform p) c.store (fun told s => (c.store.tree.Retains s.tree fun l => ¬c.store.tree.Inside dir l) ∧
        ∀ record, told = some record → Told dir c.store.tree record s.tree)
      fun _ s => c.store.tree.Retains s.tree fun l => ¬c.store.tree.Inside dir l := by
  cases o with
  | backup path m =>
    obtain ⟨slash, outside⟩ := allowed
    refine .bind (.bind (Project.ofResult_after _ ?_ fun _ _ => .refl _ _))
    intro t made
    obtain ⟨rfl, _, rfl⟩ := transaction_parts configured made
    refine Project.perform_after ((Transaction.backup_taken slash _ m).mono ?_ fun _ _ grown => grown.retains _)
    rintro record a ⟨source, _, taken⟩
    refine ⟨taken.grown.retains _, ?_⟩
    rintro _ ⟨⟩
    exact ⟨by rw [source]; exact outside, _, taken, .refl _ _⟩
  | commit source files codec newline m =>
    obtain ⟨slash, outside, apart⟩ := allowed
    refine .bind (.bind (Project.ofResult_after _ ?_ fun _ _ => .refl _ _))
    intro t made
    obtain ⟨rfl, rfl, rfl⟩ := transaction_parts configured made
    have safe : ∀ l, t.Exposed c.store.tree l → ¬c.store.tree.Inside t.backupDir l := by
      rintro l (rfl | ⟨f, member, rfl⟩)
      · exact outside
      · exact apart f member
    refine Project.perform_after ((Transaction.run_custody slash c.store m).mono ?_ fun _ _ retains => retains.weaken safe)
    rintro outcome a ⟨retains, tells⟩
    refine ⟨retains.weaken safe, ?_⟩
    intro record told
    obtain ⟨source, start, taken, onward⟩ := tells record told
    exact ⟨by rw [source]; exact outside, start, taken, onward.weaken safe⟩
  | restore b =>
    obtain ⟨r, member, rfl⟩ := allowed
    refine .bind ((Store.copy_performs r.backup.path r.backup.source c.store).mono ?_ ?_)
    · rintro _ s ⟨u, copied, rfl⟩
      exact ⟨((guarded.good r member).restored copied).1, fun record told => by cases told⟩
    · rintro f s ⟨rfl, _⟩
      exact .refl _ _

theorem step_guarded (configured : p.backupDir = .ok dir) (guarded : c.Guarded dir) (allowed : c.Permits dir o) :
    (c.step p o).Guarded dir ∧ c.receipts <+: (c.step p o).receipts := by
  have after := perform_guarded configured guarded allowed
  have kept : ∀ s : Store, (c.store.tree.Retains s.tree fun l => ¬c.store.tree.Inside dir l) → Guarded dir {c with store := s} :=
    fun s retains => ⟨guarded.distinct, fun r member => retains.good (guarded.good r member)⟩
  unfold After at after
  unfold step
  split at after
  · rename_i told s ended
    rw [ended]
    obtain ⟨retains, tells⟩ := after
    cases told with
    | none => exact ⟨kept s retains, prefix_refl _⟩
    | some record =>
      obtain ⟨outside, start, taken, onward⟩ := tells record rfl
      refine ⟨⟨?_, ?_⟩, prefix_append _ _⟩
      · rw [map_append]
        refine nodup_append.mpr ⟨guarded.distinct, nodup_singleton _, ?_⟩
        intro path earlier last new
        obtain ⟨r, member, rfl⟩ := mem_map.mp earlier
        rw [mem_singleton.mp new]
        exact taken.other (guarded.good r member)
      · intro r member
        rcases mem_append.mp member with earlier | last
        · exact retains.good (guarded.good r earlier)
        · rw [mem_singleton.mp last]
          exact taken.good onward outside
  · rename_i f s ended
    rw [ended]
    exact ⟨kept s after, prefix_refl _⟩

theorem Leads.guarded (configured : p.backupDir = .ok dir) (run : Leads p dir c d)
    (guarded : c.Guarded dir) : d.Guarded dir ∧ c.receipts <+: d.receipts := by
  induction run with
  | refl => exact ⟨guarded, prefix_refl _⟩
  | step run allowed ih =>
    obtain ⟨still, longer⟩ := ih
    obtain ⟨next, further⟩ := step_guarded configured still allowed
    exact ⟨next, longer.trans further⟩

-- From the first operation on, and under any schedule: no two backups have the same path, each had
-- a path that was free, and at any time later it has the bytes that its source had when it was
-- taken, to which the source can be restored. The search for a name tries one after the other and
-- ends with the first that is free, unless the schedule stops it or that name, or the path with it,
-- is longer than storage takes.
theorem backups_restorable (configured : p.backupDir = .ok dir) {store : Store}
    (first : Leads p dir ⟨store, []⟩ c) (later : Leads p dir c d) : (d.receipts.map (·.backup.path)).Nodup ∧
      (∀ r ∈ c.receipts, r ∈ d.receipts ∧ r.before.ask r.backup.path = .ok none ∧
        ∃ bytes, r.before.read r.backup.source = .ok bytes ∧
          c.store.tree.get? (c.store.tree.place r.backup.path) = some (.file bytes) ∧
          d.store.tree.get? (d.store.tree.place r.backup.path) = some (.file bytes) ∧
          ∀ s, Project.restore r.backup d.store = .ok ⟨⟩ s → s.tree.read r.backup.source = .ok bytes) ∧
      ∀ (s : Store) (source : Path) (m : Moment), (∀ c ∈ source.name, NameChar c) → After (Backup.choose dir source m) s
        (fun path s' => s.Quiet s' ∧ ∃ k,
          (∀ attempt < k, ∃ n, s.tree.ask (Backup.candidate dir source m attempt) = .ok (some n)) ∧
          path = Backup.candidate dir source m k ∧ s.tree.ask path = .ok none)
        fun f s' => s.Quiet s' ∧ ((∃ p, s'.StoppedAt ⟨.exists, p⟩ f) ∨ ∃ k,
          (∀ attempt < k, ∃ n, s.tree.ask (Backup.candidate dir source m attempt) = .ok (some n)) ∧
          ¬(Backup.candidate dir source m k).Storable ∧ s.tree.ask (Backup.candidate dir source m k) = .error f) := by
  have start : Guarded dir ⟨store, []⟩ := ⟨nodup_nil, by simp⟩
  have guarded := (first.guarded configured start).1
  obtain ⟨still, longer⟩ := later.guarded configured guarded
  refine ⟨still.distinct, ?_, fun s source m named => Backup.choose_search s dir m named⟩
  · intro r member
    have listed := longer.subset member
    have good := still.good r listed
    obtain ⟨bytes, original, early⟩ := (guarded.good r member).copy
    obtain ⟨bytes', again, late⟩ := good.copy
    rw [original] at again
    cases again
    refine ⟨listed, good.fresh, bytes, original, early, late, ?_⟩
    intro s restored
    have after := Store.copy_performs r.backup.path r.backup.source d.store
    unfold After at after
    change Store.copy r.backup.path r.backup.source d.store = _ at restored
    rw [restored] at after
    obtain ⟨u, copied, rfl⟩ := after
    exact (good.restored copied).2.trans original

def twice : Session :=
  (Session.mk (Project.smallStore "a.ts" false) []).step Project.asciiProject
      (.backup (Path.ofString "/p/a.ts") Project.noon)
    |>.step Project.asciiProject (.commit (Path.ofString "/p/a.ts")
      [⟨Path.ofString "/p/b.ts", "export const a = 1;\n".toList⟩,
        ⟨Path.ofString "/p/a.ts", "export * from './b';\n".toList⟩] Project.asciiProject.codec
      ['\n'] Project.noon)

theorem backups_restorable_twice : twice.receipts.map (·.backup.path) =
        [Path.ofString "/p/.refactor-backups/a.ts-2024-01-02T12-00-00-000Z.backup",
          Path.ofString "/p/.refactor-backups/a.ts-2024-01-02T12-00-00-000Z-1.backup"] ∧
      ∀ r ∈ twice.receipts, ∃ bytes, r.before.read r.backup.source = .ok bytes ∧
        ∀ s, Project.restore r.backup (twice.step Project.asciiProject
          (.restore r.backup)).store = .ok ⟨⟩ s → s.tree.read r.backup.source = .ok bytes := by
  have configured : Project.asciiProject.backupDir = .ok (Path.ofString "/p/.refactor-backups") := rfl
  have paths : twice.receipts.map (·.backup.path) = [Path.ofString "/p/.refactor-backups/a.ts-2024-01-02T12-00-00-000Z.backup",
        Path.ofString "/p/.refactor-backups/a.ts-2024-01-02T12-00-00-000Z-1.backup"] := by
    decide +kernel
  have first : Leads Project.asciiProject (Path.ofString "/p/.refactor-backups") ⟨Project.smallStore "a.ts" false, []⟩ twice := by
    refine .step (.step .refl ⟨?_, ?_⟩) ⟨?_, ?_, ?_⟩
    · decide +kernel
    · unfold Tree.Inside
      decide +kernel
    · decide +kernel
    · unfold Tree.Inside
      decide +kernel
    · unfold Tree.Inside
      decide +kernel
  refine ⟨paths, ?_⟩
  intro r member
  have later : Leads Project.asciiProject (Path.ofString "/p/.refactor-backups") twice
      (twice.step Project.asciiProject (.restore r.backup)) := .step .refl ⟨r, member, rfl⟩
  obtain ⟨_, kept, _⟩ := backups_restorable configured first later
  obtain ⟨_, _, bytes, original, _, _, restored⟩ := kept r member
  exact ⟨bytes, original, restored⟩

-- A name of 229 characters, which is one that storage takes; with the moment behind it, it is none.
def longNamed : Path := (Path.ofString "/p").child (replicate 226 'n' ++ ".ts".toList)

def longStore : Store where
  tree := {entries := [(["p".toList], .directory), (["p".toList, ".refactor-backups".toList], .directory),
    (longNamed.parts, .file [97])]}

def stops {α : Type} : EStateM.Result Failure Store α → Bool
  | .ok _ _ => false
  | .error _ _ => true

theorem backup_name_too_long : longStore.tree.read longNamed = .ok [97] ∧
      (∀ path s, Backup.choose (Path.ofString "/p/.refactor-backups") longNamed Project.noon longStore ≠ .ok path s) ∧
      ∀ record s, Project.asciiProject.backup longNamed Project.noon longStore ≠ .ok record s := by
  have search : stops (Backup.choose (Path.ofString "/p/.refactor-backups") longNamed Project.noon longStore) = true := by
    decide +kernel
  have backup : stops (Project.asciiProject.backup longNamed Project.noon longStore) = true := by decide +kernel
  refine ⟨by decide +kernel, fun path s found => ?_, fun record s saved => ?_⟩
  · rw [found] at search
    cases search
  · rw [saved] at backup
    cases backup

end Session

end ModuleSplit
