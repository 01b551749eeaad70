import ModuleSplit.Proofs.Output.Separation
import ModuleSplit.Proofs.Project.Clearance
import ModuleSplit.Proofs.Transaction.Settled

-- What splitting a file comes to, told beforehand but for the name of the backup.

namespace ModuleSplit

open ModuleSplit.Tree

open Text (breakLines)

-- Two outcomes that a report tells apart by the name of the backup at most.
structure Outcome.Matches (o told : Outcome) : Prop where
  error : o.error = told.error
  written : o.error = none → o.written = told.written
  backup : o.backup.isSome = told.backup.isSome

def SplitReport.masked (r : SplitReport) : SplitReport :=
  {r with backup := r.backup.map fun _ => r.file}

theorem SplitReport.masked_of_none {r : SplitReport} (none : r.backup = none) : r.masked = r := by
  unfold masked
  rw [none]
  cases r
  cases none
  rfl

theorem Outcome.Matches.masked {o told : Outcome} (alike : o.Matches told) (plan : Plan) (a : Analysis) :
    (Project.reportOf plan a o).masked = (Project.reportOf plan a told).masked := by
  obtain ⟨error, written, backup⟩ := alike
  have backups : (o.backup.map (·.path)).map (fun _ => plan.source.path) =
      (told.backup.map (·.path)).map fun _ => plan.source.path := by
    cases left : o.backup <;> cases right : told.backup <;> simp_all
  unfold SplitReport.masked Project.reportOf Outcome.isNoop Outcome.success
  dsimp only
  rw [backups, ← error]
  cases failed : o.error with
  | none => rw [written failed]
  | some setback => rfl

structure Leaves (dir source : Path) (m : Moment) (files : List (Path × Result Bytes))
    (backup : Option Path) (before now : Tree) : Prop where
  filled : before.Filled now
  put : ∀ f ∈ files, ∃ bytes, f.2 = .ok bytes ∧ now.get? (before.place f.1) = some (.file bytes)
  copied : ∀ b, backup = some b → (∃ attempt, b = Backup.candidate dir source m attempt) ∧
    before.get? (before.place b) = none ∧
      now.get? (before.place b) = before.get? (before.place source)
  kept : ∀ l, (∀ f ∈ files, l ≠ before.place f.1) →
    (∀ b, backup = some b → l ≠ before.place b) → now.get? l = before.get? l

theorem Leaves.unchanged (dir source : Path) (m : Moment) (t : Tree) : Leaves dir source m [] none t t :=
  ⟨.refl t, by simp, by simp, fun _ _ _ => rfl⟩

namespace Transaction

variable {t : Transaction} {m : Moment} {newline : Newline} {dir saved : Path} {original : Bytes}
  {tree now : Tree} {store : Store}

-- That there will be a backup is foretold, not where and when.
def verdict (t : Transaction) : Outcome × List (Path × Result Bytes) :=
  let saved : Option Backup := some ⟨t.source, t.source, ⟨0, 0, 0, 0, 0, 0, 0⟩⟩
  match t.blemish? with
  | none =>
    ({written := t.files.map (·.path), phase := .verified, backup := saved},
      t.files.map fun f => (f.path, t.encode f.text))
  | some (p, fault) =>
    let words := (Failure.verification p (FileFault.text fault).message).message
    ({error := some (.verification, words), phase := .rolledBack, backup := saved}, [])

def forecast (t : Transaction) (tree : Tree) : Result (Outcome × List (Path × Result Bytes)) := do
  if t.files.isEmpty then return ({phase := .idle}, [])
  match ← t.collision? tree with
  | some reason => return ({error := some (.collision, reason), phase := .idle}, [])
  | none => return t.verdict

theorem Settled.matches {o : Outcome} (settled : t.Settled saved original store.tree o now) : o.Matches t.verdict.1 := by
  have saved : o.backup.isSome = true := by
    have told := settled.backup
    cases backup : o.backup with
    | none =>
      rw [backup] at told
      cases told
    | some b => rfl
  unfold verdict
  cases blemished : t.blemish? with
  | none =>
    obtain ⟨error, written, _⟩ := settled.sound blemished
    exact ⟨error, fun _ => written, saved⟩
  | some blemish =>
    obtain ⟨error, _⟩ := settled.faulty _ _ blemished
    refine ⟨error, ?_, saved⟩
    intro none
    rw [none] at error
    cases error

theorem Unhindered.leaves (unhindered : t.Unhindered m newline dir saved original store)
    (found : store.tree.isDirectory dir = true) {o : Outcome} (settled : t.Settled saved original store.tree o now) :
    Leaves t.backupDir t.source m t.verdict.2 (o.backup.map (·.path)) store.tree now := by
  obtain ⟨attempt, chosen, _⟩ := unhindered.room.named unhindered.savable.named
  obtain ⟨absent, _, _⟩ := unhindered.room.copy unhindered.savable
  rw [settled.backup]
  refine ⟨unhindered.filled found settled, ?_, ?_, ?_⟩
  · unfold verdict
    cases blemished : t.blemish? with
    | some blemish => simp
    | none =>
      rw [List.forall_mem_map]
      intro f member
      exact (settled.sound blemished).2.2 f member
  · intro b same
    cases same
    exact ⟨⟨attempt, chosen⟩, absent, settled.copy.trans unhindered.savable.there.symm⟩
  · intro l aside other
    by_cases written : ∃ f ∈ t.files, l = store.tree.place f.path
    · obtain ⟨f, member, rfl⟩ := written
      cases blemished : t.blemish? with
      | some blemish => exact (settled.faulty _ _ blemished).2 f member
      | none =>
        rw [verdict, blemished] at aside
        exact absurd rfl (aside (f.path, t.encode f.text) (List.mem_map_of_mem member))
    · apply settled.kept l (other saved rfl)
      intro f member same
      exact written ⟨f, member, same⟩

theorem run_forecast (faultless : store.Faultless)
    (unhindered : t.files ≠ [] → t.collision? store.tree = .ok none → ∃ newline dir saved original,
      t.Unhindered m newline dir saved original store ∧ store.tree.isDirectory dir = true) : After (t.run m) {store := store}
      (fun o a => a.store.Faultless ∧ ∃ told files, t.forecast store.tree = .ok (told, files) ∧
        o.Matches told ∧ Leaves t.backupDir t.source m files (o.backup.map (·.path)) store.tree a.store.tree)
      fun f a => t.forecast store.tree = .error f ∧ a.store.Faultless ∧ a.store.tree = store.tree := by
  have idle := Leaves.unchanged t.backupDir t.source m store.tree
  have same : ∀ o : Outcome, o.Matches o := fun o => ⟨rfl, fun _ => rfl, rfl⟩
  by_cases empty : t.files = []
  · have told : t.forecast store.tree = .ok ({phase := .idle}, []) := by
      rw [forecast, empty]
      rfl
    unfold run
    rw [empty]
    exact ⟨faultless, _, _, told, same _, idle⟩
  have filled : t.files.isEmpty = false := List.isEmpty_eq_false_iff.mpr empty
  have told : t.forecast store.tree = (t.collision? store.tree >>= fun reason => match reason with
      | some reason => return ({error := some (.collision, reason), phase := .idle}, [])
      | none => return t.verdict) := by
    rw [forecast, filled]
    rfl
  cases collided : t.collision? store.tree with
  | ok reason =>
    rw [collided] at told
    cases reason with
    | none =>
      obtain ⟨newline, dir, saved, original, unhindered, there⟩ := unhindered empty collided
      obtain ⟨o, b, ended, still, settled⟩ := unhindered.settled there
      exact .of_ended ended ⟨still, _, _, told, settled.matches, unhindered.leaves there settled⟩
    | some reason =>
      unfold run
      rw [filled]
      refine .bind ((preflight_faultless faultless).mono ?_ ?_)
      · rintro _ b ⟨answered, quiet⟩
        cases collided.symm.trans answered
        refine .bind (.progress ⟨faultless.quiet quiet.store, _, _, told, ?_, ?_⟩)
        · rw [quiet.progress]
          exact same _
        · rw [quiet.store.tree]
          exact idle
      · rintro f b ⟨failed, _⟩
        cases collided.symm.trans failed
  | error f =>
    rw [collided] at told
    unfold run
    rw [filled]
    refine .bind ((preflight_faultless faultless).mono ?_ ?_)
    · rintro _ b ⟨answered, _⟩
      cases collided.symm.trans answered
    · rintro g b ⟨failed, quiet⟩
      cases collided.symm.trans failed
      exact ⟨told, faultless.quiet quiet.store, quiet.store.tree⟩

theorem collision?_none (refuses : t.overwrite = false) (clear : t.collision? tree = .ok none) :
    ∀ f ∈ t.files, f.path ≠ t.source → tree.ask f.path = .ok none := by
  intro f member other
  unfold collision? at clear
  rw [refuses] at clear
  obtain ⟨taken, searched, none⟩ := Result.bind_ok.mp clear
  cases Option.map_eq_none_iff.mp (Result.pure_ok.mp none)
  have tested := findM?_none searched f member
  rw [if_neg other] at tested
  obtain ⟨answer, asked, absent⟩ := Result.bind_ok.mp tested
  rw [asked]
  cases answer with
  | none => rfl
  | some n => cases Result.pure_ok.mp absent

end Transaction

namespace Project

variable {p : Project} {dir path : Path} {m : Moment} {s : Store} {plan : Plan} {t : Tree}

-- New files go beside the source and replace nothing, and the directory for backups is there.
structure Cautious (p : Project) (dir : Path) (t : Tree) : Prop where
  rooted : t.Rooted
  home : t.get? t.workingDirectory = some .directory
  linkless : t.Linkless
  backups : p.backupDir = .ok dir
  found : t.ask dir = .ok (some .directory)
  beside : p.outputs = .sibling
  refuses : p.settings.split.overwriteExisting.isTruthy = false

-- A source that is there, by a path that tells its place, and whose files can be encoded and read
-- back.
structure Eligible (p : Project) (t : Tree) (path : Path) : Prop where
  absolute : path.isAbsolute = true
  down : "..".toList ∉ path.parts
  suffixed : path.suffix ≠ []
  single : '/' ∉ path.name
  there : ∃ n, t.ask path = .ok (some n)
  encodable : ∀ plan, p.planFile t path = .ok plan →
    ∀ f ∈ filesOf (p.synthesis plan) plan.source, ∃ bytes,
      p.codec.encode (breakLines plan.source.newline.text f.text) = .ok bytes ∧
        p.codec.decode bytes = .ok (breakLines plan.source.newline.text f.text)

-- A file that comes to its backup: there is something to split off, and nothing is in the way.
def Splits (p : Project) (dir : Path) (t : Tree) (path : Path) : Prop :=
  ∃ plan, p.planFile t path = .ok plan ∧ plan.isEmpty = false ∧ (p.split plan dir).collision? t = .ok none

theorem Cautious.isDirectory (cautious : p.Cautious dir t) : t.isDirectory dir = true := by
  obtain ⟨reached, directory⟩ := ask_some cautious.found
  exact isDirectory_of_get? reached directory

theorem Eligible.nullFree (eligible : p.Eligible t path) : path.NullFree := by
  obtain ⟨n, asked⟩ := eligible.there
  exact ask_some_nullFree asked

theorem Eligible.nameChar (eligible : p.Eligible t path) : ∀ c ∈ path.name, NameChar c :=
  nameChar_name eligible.nullFree eligible.single

theorem Eligible.place (eligible : p.Eligible t path) : t.place path = path.parts :=
  t.place_absolute eligible.absolute eligible.down

theorem Eligible.beside (eligible : p.Eligible t path) (sibling : p.outputs = .sibling)
    (origin : plan.source.path = path) (filled : plan.isEmpty = false) :
    ∀ f ∈ (p.synthesis plan).files, path.Beside (t.place f.path) ∧
      ∃ n, n ≠ "..".toList ∧ f.path = ⟨path.root, path.parts.dropLast ++ [n]⟩ := by
  intro f member
  obtain ⟨n, listed, down, same⟩ := synthesis_named p eligible.nameChar origin filled f member
  have outside : Layout.outputDir ⟨path, p.outputs⟩ = ⟨path.root, path.parts.dropLast⟩ := by
    rw [sibling]
    rfl
  rw [outside] at same
  obtain ⟨w, word, name⟩ := Layout.names_sibling sibling listed
  refine ⟨⟨w, word, ?_⟩, n, down, same⟩
  have place : t.place f.path = path.parts.dropLast ++ [n] := by
    rw [same, place_child down, t.place_absolute (p := ⟨path.root, path.parts.dropLast⟩)
      eligible.absolute fun up => eligible.down (List.mem_of_mem_dropLast up)]
  rw [place, name]
  rfl

theorem Cautious.free (cautious : p.Cautious dir t) (eligible : p.Eligible t path)
    (planned : p.planFile t path = .ok plan) (filled : plan.isEmpty = false)
    (uncollided : (p.split plan dir).collision? t = .ok none) :
    ∀ f ∈ (p.synthesis plan).files, f.path.Storable ∧ t.get? (t.place f.path) = none := by
  obtain ⟨_, origin, _⟩ := planFile_parts planned
  obtain ⟨original, read⟩ := planFile_read planned
  rw [resolve_absolute eligible.absolute] at origin read
  have above := (read_source cautious.rooted cautious.home read).2
  intro f member
  obtain ⟨beside, n, down, same⟩ := eligible.beside cautious.beside origin filled f member
  have other : f.path ≠ (p.split plan dir).source := by
    intro equal
    apply beside.ne_source
    rw [equal, show (p.split plan dir).source = path from origin, eligible.place]
  have asked := Transaction.collision?_none cautious.refuses uncollided f
    (by rw [split_files p dir filled]; exact List.mem_append_left _ member) other
  have accepted : Tree.accept f.path = .ok ⟨⟩ := by
    refine Path.accept_ok.mpr (Plan.synthesize_nullFree ?_ p.outputs f member)
    rw [origin]
    exact eligible.nullFree
  rw [same] at asked accepted ⊢
  have located := locate_asked above down accepted asked
  exact ⟨storable_of_located accepted located, (ask_none accepted asked located).resolve_right (cautious.linkless _)⟩

theorem Cautious.clear (cautious : p.Cautious dir s.tree) (eligible : p.Eligible s.tree path)
    (faultless : s.Faultless) (planned : p.planFile s.tree path = .ok plan) (filled : plan.isEmpty = false)
    (uncollided : (p.split plan dir).collision? s.tree = .ok none) {saved : Path}
    (chosen : Backup.target s.tree dir path m = .ok saved) : p.Clear path m plan s := by
  have free := cautious.free eligible planned filled uncollided
  refine {
    rooted := cautious.rooted
    home := cautious.home
    faultless := faultless
    backup := ⟨dir, saved, cautious.backups, cautious.found, chosen, cautious.linkless _⟩
    free := fun f member => (free f member).2
    separate := ?_
    storable := fun f member => (free f member).1
    reads := eligible.encodable plan planned
    name := eligible.single }
  intro separate
  cases cautious.beside.symm.trans separate

def forecast (p : Project) (t : Tree) (path : Path) : Result (SplitReport × List (Path × Result Bytes)) := do
  let plan ← p.planFile t path
  let (o, files) ← (p.split plan (← p.backupDir)).forecast t
  return ((reportOf plan (p.analysis plan) o).masked, files)

theorem forecast_planned (planned : p.planFile t path = .ok plan) (configured : p.backupDir = .ok dir) :
    p.forecast t path = ((p.split plan dir).forecast t).map fun ending =>
      ((reportOf plan (p.analysis plan) ending.1).masked, ending.2) := by
  rw [forecast, planned, configured]
  show ((p.split plan dir).forecast t >>= _) = _
  cases (p.split plan dir).forecast t <;> rfl

theorem refactorFile_forecast (cautious : p.Cautious dir s.tree) (eligible : p.Eligible s.tree path) (faultless : s.Faultless)
    (room : p.Splits dir s.tree path → ∃ saved, Backup.target s.tree dir path m = .ok saved) :
    After (p.refactorFile path m) s (fun report s' => report.file = path ∧ s'.Faultless ∧ ∃ told files,
        p.forecast s.tree path = .ok (told, files) ∧ report.masked = told ∧
          Leaves dir path m files report.backup s.tree s'.tree)
      fun f s' => p.forecast s.tree path = .error f ∧ s'.Faultless ∧ s'.tree = s.tree := by
  cases planned : p.planFile s.tree path with
  | error f =>
    have told : p.forecast s.tree path = .error f := by
      rw [forecast, planned]
      rfl
    refine .bind (.of_ended (show Store.treeNow s = .ok s.tree s from rfl) ?_)
    rw [planned]
    exact .bind (show After (Store.ofResult (.error f)) s _ _ from ⟨told, faultless, rfl⟩)
  | ok plan =>
    obtain ⟨_, origin, _⟩ := planFile_parts planned
    obtain ⟨original, read⟩ := planFile_read planned
    rw [resolve_absolute eligible.absolute] at origin read
    have source : (p.split plan dir).source = path := origin
    have told := forecast_planned planned cautious.backups
    refine refactorFile_split planned cautious.backups ((Transaction.run_forecast faultless ?_).mono ?_ ?_)
    · intro some uncollided
      have filled := filled_of_files p some
      obtain ⟨saved, chosen⟩ := room ⟨plan, planned, filled, uncollided⟩
      have clear := cautious.clear eligible faultless planned filled uncollided chosen
      obtain ⟨dir', saved', original, configured, unhindered⟩ := clear.unhindered eligible.absolute planned filled
      cases cautious.backups.symm.trans configured
      refine ⟨_, _, saved', original, unhindered, ?_⟩
      rw [cautious.beside]
      exact (read_source cautious.rooted cautious.home read).2
    · rintro o a ⟨still, ending, files, foreseen, alike, leaves⟩
      rw [foreseen] at told
      refine ⟨origin, still, _, files, told, alike.masked plan _, ?_⟩
      rw [source] at leaves
      exact leaves
    · rintro f a ⟨foreseen, still, same⟩
      rw [foreseen] at told
      exact ⟨told, still, same⟩

def excused (path : Path) (f : Failure) : Result SplitReport :=
  match f with
  | .backup _ _ | .os _ | .decode _ => .ok {file := path, error := some f.message}
  | other => .error other

theorem reported_eq (path : Path) (action : StoreM SplitReport) :
    reported path action = tryCatch action fun f => Store.ofResult (excused path f) := by
  unfold reported
  congr
  funext f
  cases f <;> rfl

theorem excused_ok {f : Failure} {report : SplitReport} (accepted : excused path f = .ok report) :
    report.file = path ∧ report.backup = none := by
  unfold excused at accepted
  split at accepted <;> cases accepted <;> exact ⟨rfl, rfl⟩

def foretold (p : Project) (t : Tree) (path : Path) : Result (SplitReport × List (Path × Result Bytes)) :=
  match p.forecast t path with
  | .ok told => .ok told
  | .error f => (excused path f).map (·, [])

theorem reported_foretold (cautious : p.Cautious dir s.tree) (eligible : p.Eligible s.tree path) (faultless : s.Faultless)
    (room : p.Splits dir s.tree path → ∃ saved, Backup.target s.tree dir path m = .ok saved) :
    After (reported path (p.refactorFile path m)) s (fun report s' => report.file = path ∧ s'.Faultless ∧ ∃ told files,
        p.foretold s.tree path = .ok (told, files) ∧ report.masked = told ∧
          Leaves dir path m files report.backup s.tree s'.tree) fun f _ => p.foretold s.tree path = .error f := by
  rw [reported_eq]
  apply After.recover
  apply (refactorFile_forecast cautious eligible faultless room).mono
  · rintro report s' ⟨file, still, told, files, foreseen, same, leaves⟩
    refine ⟨file, still, told, files, ?_, same, leaves⟩
    rw [foretold, foreseen]
  · rintro f s' ⟨foreseen, still, same⟩
    have told : p.foretold s.tree path = (excused path f).map (·, []) := by
      rw [foretold, foreseen]
    apply ofResult_after
    · intro report accepted
      obtain ⟨file, none⟩ := excused_ok accepted
      refine ⟨file, still, report, [], ?_, SplitReport.masked_of_none none, ?_⟩
      · rw [told, accepted]
        rfl
      · rw [none, same]
        exact .unchanged dir path m s.tree
    · intro g refused
      rw [told, refused]
      rfl

end Project

end ModuleSplit
