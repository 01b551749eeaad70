import ModuleSplit.Proofs.Project.DryRun
import ModuleSplit.Proofs.Project.Interference

namespace ModuleSplit

open List
open Text (breakLines)

namespace Project

variable {p : Project} {dir path : Path} {t u v : Tree}

def prospect (p : Project) (t : Tree) (path : Path) : Result SplitReport := (p.foretold t path).map (·.1)

structure Assorted (p : Project) (dir : Path) (t : Tree) (paths : List Path) : Prop where
  cautious : p.Cautious dir t
  eligible : ∀ path ∈ paths, p.Eligible t path
  distinct : (paths.map (·.parts)).Nodup

theorem Assorted.pending {turns rest : List (Path × Moment)} {reports : List (SplitReport × Moment)} {m : Moment}
    (assorted : p.Assorted dir t (turns.map (·.1)))
    (whole : reports.map (fun r => (r.1.file, r.2)) ++ (path, m) :: rest = turns) :
    ∀ r ∈ reports, r.1.file.parts ≠ path.parts := by
  intro r member
  have distinct := assorted.distinct
  rw [← whole, map_append, map_append, map_map, map_map, nodup_append] at distinct
  exact distinct.2.2 _ (mem_map_of_mem member) _ mem_cons_self

theorem rivals_lt {earlier rest : List (Path × Moment)} {m : Moment} :
    (rivals earlier path m).length < (rivals (earlier ++ (path, m) :: rest) path m).length := by
  unfold rivals
  rw [filter_append, filter_cons_of_pos (by simp), length_append, length_cons]
  exact Nat.lt_add_of_pos_right (Nat.succ_pos _)

-- The induction is on the files whose turn has not come.
theorem runFiles_told {turns rest : List (Path × Moment)} {reports : List (SplitReport × Moment)} {s : Store}
    (assorted : p.Assorted dir t (turns.map (·.1))) (roomy : p.Roomy dir t turns)
    (midway : Midway p dir t reports s.tree) (faultless : s.Faultless)
    (whole : reports.map (fun r => (r.1.file, r.2)) ++ rest = turns) : After (p.runFiles false rest) s
      (fun more s' => (∃ done, done.map (·.1) = more ∧ Midway p dir t (reports ++ done) s'.tree) ∧
        more.map (·.file) = rest.map (·.1) ∧ (rest.map (·.1)).mapM (p.prospect t) = .ok (more.map (·.masked)))
      fun f _ => (rest.map (·.1)).mapM (p.prospect t) = .error f := by
  induction rest generalizing reports s with
  | nil =>
    refine ⟨⟨[], rfl, ?_⟩, rfl, rfl⟩
    rw [append_nil]
    exact midway
  | cons turn rest ih =>
    obtain ⟨path, m⟩ := turn
    have cautious := assorted.cautious
    have turn : (path, m) ∈ turns := by simp [← whole]
    have eligible := assorted.eligible path (mem_map_of_mem turn)
    have pending := assorted.pending whole
    have fewer : (rivals (reports.map fun r => (r.1.file, r.2)) path m).length < (rivals turns path m).length := by
      rw [← whole]
      exact rivals_lt
    have kept := midway.foretold_kept cautious eligible pending
    have first := reported_foretold (cautious.filled midway.filled) (midway.eligible_kept cautious eligible pending) faultless
      (midway.target_kept cautious eligible pending roomy turn fewer)
    rw [kept] at first
    show After (reported path (p.refactorFile path m) >>= fun report =>
      p.runFiles false rest >>= fun more => pure (report :: more)) s _ _
    refine .bind (first.mono ?_ ?_)
    · rintro report s' ⟨file, still, told, files, foreseen, same, leaves⟩
      have left : p.left t path = files := by
        unfold Project.left
        rw [foreseen]
      rw [← left] at leaves
      have next := midway.step cautious eligible pending file leaves
      refine .bind ((ih next still ?_).mono ?_ ?_)
      · simp [file, ← whole]
      · rintro more s'' ⟨⟨done, each, further⟩, files, all⟩
        refine ⟨⟨(report, m) :: done, ?_, ?_⟩, ?_, ?_⟩
        · rw [map_cons, each]
        · simpa using further
        · simp [file, files]
        · rw [map_cons, mapM_cons, prospect, foreseen, all, map_cons, same]
          rfl
      · intro f _ failed
        rw [map_cons, mapM_cons, prospect, foreseen, failed]
        rfl
    · intro f _ failed
      rw [map_cons, mapM_cons, prospect, failed]
      rfl

theorem Assorted.perm {paths order : List Path} (assorted : p.Assorted dir t paths)
    (same : order.Perm paths) : p.Assorted dir t order := by
  refine ⟨assorted.cautious, ?_, ?_⟩
  · intro path member
    exact assorted.eligible path (same.mem_iff.mp member)
  · exact (same.map _).nodup_iff.mpr assorted.distinct

def given {α : Type} : EStateM.Result Failure Store α → Result α
  | .ok a _ => .ok a
  | .error f _ => .error f

def sansBackups (reports : List SplitReport) (now : Tree) (l : Location) : Option Node :=
  if l ∈ (reports.filterMap (·.backup)).map now.place then none else now.get? l

-- The backups of a run are in places of their own that were free, and hold what their files held.
structure Preserved (before : Tree) (reports : List SplitReport) (now : Tree) : Prop where
  distinct : ((reports.filterMap (·.backup)).map before.place).Nodup
  saved : ∀ r ∈ reports, ∀ b, r.backup = some b → before.get? (before.place b) = none ∧
    now.get? (before.place b) = before.get? (before.place r.file)

namespace Midway

variable {reports more : List (SplitReport × Moment)} (midway : Midway p dir t reports u)

include midway

theorem preserved : Preserved t (reports.map (·.1)) u := by
  refine ⟨?_, ?_⟩
  · rw [filterMap_map]
    exact midway.distinct
  · rw [forall_mem_map]
    exact fun r member b backup => (midway.copied r member b backup).2

theorem mem_backups {l : Location} : l ∈ ((reports.map (·.1)).filterMap (·.backup)).map u.place ↔
    ∃ r ∈ reports, ∃ b, r.1.backup = some b ∧ l = t.place b := by
  simp only [filterMap_map, mem_map, mem_filterMap, midway.filled.keeps.place]
  constructor
  · rintro ⟨b, ⟨r, member, backup⟩, rfl⟩
    exact ⟨r, member, b, backup, rfl⟩
  · rintro ⟨r, member, b, backup, rfl⟩
    exact ⟨b, ⟨r, member, backup⟩, rfl⟩

theorem sans_put (cautious : p.Cautious dir t) {r : SplitReport × Moment} (member : r ∈ reports)
    {f : Path × Result Bytes} (left : f ∈ p.left t r.1.file) :
    ∃ bytes, f.2 = .ok bytes ∧ sansBackups (reports.map (·.1)) u (t.place f.1) = some (.file bytes) := by
  obtain ⟨bytes, encoded, now⟩ := midway.put r member f left
  refine ⟨bytes, encoded, ?_⟩
  rw [sansBackups, if_neg, now]
  rw [midway.mem_backups]
  rintro ⟨r', member', b, backup, same⟩
  obtain ⟨⟨attempt, rfl⟩, absent, _⟩ := midway.copied r' member' b backup
  exact left_not_backup cautious (midway.eligible r member) absent f left same

theorem sans_kept {l : Location} (aside : ∀ r ∈ reports, ∀ f ∈ p.left t r.1.file, l ≠ t.place f.1) :
    sansBackups (reports.map (·.1)) u l = t.get? l := by
  unfold sansBackups
  split
  · rename_i listed
    obtain ⟨r, member, b, backup, rfl⟩ := midway.mem_backups.mp listed
    exact (midway.copied r member b backup).2.1.symm
  · rename_i other
    apply midway.kept l aside
    intro r member b backup same
    exact other (midway.mem_backups.mpr ⟨r, member, b, backup, same⟩)

theorem sans_order (cautious : p.Cautious dir t) (also : Midway p dir t more v)
    (same : (more.map (·.1.file)).Perm (reports.map (·.1.file))) :
    sansBackups (more.map (·.1)) v = sansBackups (reports.map (·.1)) u := by
  have files : ∀ path, (∃ r ∈ more, r.1.file = path) ↔ ∃ r ∈ reports, r.1.file = path := by
    intro path
    rw [← mem_map, ← mem_map]
    exact same.mem_iff
  funext l
  by_cases written : ∃ r ∈ reports, ∃ f ∈ p.left t r.1.file, l = t.place f.1
  · obtain ⟨r, member, f, left, rfl⟩ := written
    obtain ⟨r', member', file⟩ := (files r.1.file).mpr ⟨r, member, rfl⟩
    obtain ⟨bytes, encoded, now⟩ := midway.sans_put cautious member left
    obtain ⟨bytes', again, after⟩ := also.sans_put cautious member' (by rw [file]; exact left)
    cases encoded.symm.trans again
    rw [now, after]
  · rw [midway.sans_kept, also.sans_kept]
    · intro r' member' f left same
      obtain ⟨r, member, file⟩ := (files r'.1.file).mp ⟨r', member', rfl⟩
      exact written ⟨r, member, f, by rw [file]; exact left, same⟩
    · intro r member f left same
      exact written ⟨r, member, f, left, same⟩

end Midway

variable {s : Store} {paths : List Path}

-- A run of one file is the file alone.
theorem reported_alone {m : Moment} (cautious : p.Cautious dir s.tree) (eligible : p.Eligible s.tree path)
    (faultless : s.Faultless) (roomy : p.Roomy dir s.tree [(path, m)]) :
    (given (reported path (p.refactorFile path m) s)).map SplitReport.masked = p.prospect s.tree path := by
  have room := (Midway.start p dir s.tree).target_kept cautious eligible (by simp) roomy (m := m) (by simp) (by simp [rivals])
  apply After.result (P := fun r => (given r).map SplitReport.masked = p.prospect s.tree path)
  apply (reported_foretold cautious eligible faultless room).mono
  · rintro report s' ⟨_, _, told, files, foreseen, same, _⟩
    rw [prospect, foreseen]
    exact congrArg Except.ok same
  · intro f s' foreseen
    rw [prospect, foreseen]
    rfl

theorem runFiles_ended {turns : List (Path × Moment)} (assorted : p.Assorted dir s.tree (turns.map (·.1)))
    (roomy : p.Roomy dir s.tree turns) (faultless : s.Faultless) : After (p.runFiles false turns) s
      (fun reports s' => (∃ done, done.map (·.1) = reports ∧ Midway p dir s.tree done s'.tree) ∧
        reports.map (·.file) = turns.map (·.1) ∧
        (turns.map (·.1)).mapM (p.prospect s.tree) = .ok (reports.map (·.masked)))
      fun f _ => (turns.map (·.1)).mapM (p.prospect s.tree) = .error f :=
  runFiles_told assorted roomy (.start p dir s.tree) faultless rfl

-- Whatever the order, and whatever the clock says at each turn, each file of a run is reported on as
-- if it were alone, up to the name of its backup; and any two orders lead to the same tree, up to
-- the names of backups.
theorem runFiles_independent {order other : List (Path × Moment)} {alone : Path → Moment}
    (assorted : p.Assorted dir s.tree paths) (faultless : s.Faultless)
    (one : (order.map (·.1)).Perm paths) (two : (other.map (·.1)).Perm paths)
    (roomy : p.Roomy dir s.tree order) (also : p.Roomy dir s.tree other)
    (single : ∀ path ∈ paths, p.Roomy dir s.tree [(path, alone path)]) :
    (given (p.runFiles false order s)).map (List.map SplitReport.masked) = ((order.map (·.1)).mapM fun path =>
        (given (reported path (p.refactorFile path (alone path)) s)).map SplitReport.masked) ∧
    ∀ reports s₁, p.runFiles false order s = .ok reports s₁ →
      reports.map (·.file) = order.map (·.1) ∧ Preserved s.tree reports s₁.tree ∧
      ∃ reports' s₂, p.runFiles false other s = .ok reports' s₂ ∧
        reports'.map (·.file) = other.map (·.1) ∧ Preserved s.tree reports' s₂.tree ∧
        s₂.tree.workingDirectory = s₁.tree.workingDirectory ∧
        sansBackups reports' s₂.tree = sansBackups reports s₁.tree := by
  have left := runFiles_ended (assorted.perm one) roomy faultless
  have right := runFiles_ended (assorted.perm two) also faultless
  constructor
  · have each : ∀ path ∈ order.map (·.1), (given (reported path (p.refactorFile path (alone path)) s)).map
        SplitReport.masked = p.prospect s.tree path := by
      intro path member
      have listed := one.mem_iff.mp member
      exact reported_alone assorted.cautious (assorted.eligible path listed) faultless (single path listed)
    rw [mapM_congr each]
    apply After.result (P := fun r => (given r).map (List.map SplitReport.masked) = (order.map (·.1)).mapM (p.prospect s.tree))
    apply left.mono
    · rintro reports s' ⟨_, _, all⟩
      exact all.symm
    · intro f s' failed
      exact failed.symm
  · intro reports s₁ ended
    obtain ⟨⟨done, rfl, midway⟩, files, all⟩ := left.ended ended
    have total : After (p.runFiles false other) s
        (fun reports s' => (∃ done, done.map (·.1) = reports ∧ Midway p dir s.tree done s'.tree) ∧
          reports.map (·.file) = other.map (·.1)) fun _ _ => False := by
      apply right.mono
      · rintro reports s' ⟨midway, files, _⟩
        exact ⟨midway, files⟩
      · intro f s' failed
        obtain ⟨path, member, refused⟩ := mapM_error failed
        obtain ⟨report, accepted⟩ := mapM_ok all path ((two.trans one.symm).mem_iff.mp member)
        cases accepted.symm.trans refused
    obtain ⟨_, s₂, ended', ⟨done', rfl, also⟩, files'⟩ := total.total
    refine ⟨files, midway.preserved, _, s₂, ended', files', also.preserved, ?_, ?_⟩
    · rw [also.filled.workingDirectory, midway.filled.workingDirectory]
    · apply midway.sans_order assorted.cautious also
      rw [map_map] at files files'
      show (map (SplitReport.file ∘ Prod.fst) done').Perm (map (SplitReport.file ∘ Prod.fst) done)
      rw [files, files']
      exact two.trans one.symm

def encodes (p : Project) (t : Tree) (path : Path) : Bool :=
  match p.planFile t path with
  | .ok plan => (filesOf (p.synthesis plan) plan.source).all fun f =>
      (p.codec.encode (breakLines plan.source.newline.text f.text)).isOk
  | .error _ => true

def admissible (p : Project) (t : Tree) (path : Path) : Bool :=
  path.isAbsolute && !path.parts.contains "..".toList && !path.suffix.isEmpty &&
    !path.name.contains '/' && (t.ask path).toOption.join.isSome && p.encodes t path

theorem eligible_of_admissible (faithful : p.codec.Faithful) (checked : p.admissible t path = true) :
    p.Eligible t path := by
  simp only [admissible, Bool.and_eq_true, Bool.not_eq_true', contains_eq_mem,
    decide_eq_false_iff_not, isEmpty_eq_false_iff] at checked
  obtain ⟨⟨⟨⟨⟨absolute, down⟩, suffixed⟩, single⟩, there⟩, encodes⟩ := checked
  refine ⟨absolute, down, suffixed, single, ?_, ?_⟩
  · cases asked : t.ask path with
    | error f =>
      rw [asked] at there
      cases there
    | ok found =>
      rw [asked] at there
      obtain ⟨n, rfl⟩ := Option.isSome_iff_exists.mp there
      exact ⟨n, rfl⟩
  · intro plan planned f member
    unfold Project.encodes at encodes
    rw [planned] at encodes
    have encoded := all_eq_true.mp encodes f member
    cases result : p.codec.encode (breakLines plan.source.newline.text f.text) with
    | ok bytes => exact ⟨bytes, rfl, (faithful _ _ result).1⟩
    | error failure =>
      rw [result] at encoded
      cases encoded

theorem backed_cautious (parents : ∀ e ∈ t.entries, t.get? e.1.dropLast = some .directory)
    (solid : ∀ e ∈ t.entries, e.2 ≠ .dangling) (home : t.get? t.workingDirectory = some .directory)
    (found : t.ask (Path.ofString "/p/b") = .ok (some .directory)) : (backedProject .sibling).Cautious (Path.ofString "/p/b") t :=
  ⟨Tree.rooted_of_entries parents, home, Tree.linkless_of_entries solid, rfl, found, rfl, rfl⟩

theorem backed_faithful : (backedProject .sibling).codec.Faithful := Codec.ofValue_faithful (.ofString "ascii")

def shelves (files : List (String × Text × Bytes)) : Store where
  tree := {entries := [(["p".toList], .directory), (["p".toList, "b".toList], .directory),
    (["p".toList, "x".toList], .directory), (["p".toList, "y".toList], .directory)] ++
      files.map fun (dir, name, bytes) => (["p".toList, dir.toList, name], .file bytes)}

-- Two files of one name, a file in the place of one that another file would have, and bytes that are
-- no text.
def crossed : Store := shelves [
  ("x", "a.ts".toList, Utf8.encode "const a = 1;\n".toList),
  ("y", "a.ts".toList, Utf8.encode "const b = 2;\n".toList),
  ("x", "c.ts".toList, Utf8.encode "const c = 3;\n".toList),
  ("x", "c-constants.ts".toList, Utf8.encode "const d = 4;\n".toList),
  ("y", "z.ts".toList, [255])]

def crossedPaths : List Path :=
  ["/p/x/a.ts", "/p/y/a.ts", "/p/x/c.ts", "/p/x/c-constants.ts", "/p/y/z.ts"].map Path.ofString

def successes (result : Result (List SplitReport)) : Option (List Bool) :=
  result.toOption.map (·.map (·.success))

theorem crossed_assorted : (backedProject .sibling).Assorted (Path.ofString "/p/b") crossed.tree crossedPaths := by
  refine ⟨backed_cautious (by decide) (by decide) rfl (by decide), ?_, by decide⟩
  have checked : crossedPaths.all ((backedProject .sibling).admissible crossed.tree) = true := by
    decide +kernel
  intro path member
  exact eligible_of_admissible backed_faithful (all_eq_true.mp checked path member)

-- The clock stands still.
def stillTurns : List (Path × Moment) := crossedPaths.map (·, noon)

-- The other way round, and each turn takes a second.
def slowTurns : List (Path × Moment) :=
  crossedPaths.reverse.zipIdx.map fun (path, i) => (path, ⟨2024, 1, 2, 12, 0, i, 0⟩)

theorem roomy_of_two {dir : Path} {turns : List (Path × Moment)} (room : ∀ e ∈ turns,
      (∀ attempt < 2, (Backup.candidate dir e.1 e.2 attempt).Storable) ∧
        (rivals turns e.1 e.2).length ≤ ((List.range 2).filter fun attempt =>
          (t.get? (t.place (Backup.candidate dir e.1 e.2 attempt))).isNone).length) : p.Roomy dir t turns :=
  fun e member _ => ⟨2, room e member⟩

theorem ended_of_successes {result : EStateM.Result Failure Store (List SplitReport)}
    {all : List Bool} (ended : successes (given result) = some all) :
    ∃ reports s, result = .ok reports s ∧ reports.map (·.success) = all := by
  cases result with
  | error f s => cases ended
  | ok reports s => exact ⟨reports, s, rfl, Option.some.inj ended⟩

-- Both files of one name are split, in either order.
theorem runFiles_independent_crossed : ∃ reports s₁ reports' s₂,
    (backedProject .sibling).runFiles false stillTurns crossed = .ok reports s₁ ∧
    reports.map (·.success) = [true, true, false, true, false] ∧
    (backedProject .sibling).runFiles false slowTurns crossed = .ok reports' s₂ ∧
    (crossedPaths.mapM fun path => (given (reported path
      ((backedProject .sibling).refactorFile path noon) crossed)).map SplitReport.masked) = .ok (reports.map (·.masked)) ∧
    Preserved crossed.tree reports s₁.tree ∧ Preserved crossed.tree reports' s₂.tree ∧
    sansBackups reports' s₂.tree = sansBackups reports s₁.tree := by
  have run : successes (given ((backedProject .sibling).runFiles false stillTurns crossed)) =
      some [true, true, false, true, false] := by decide +kernel
  obtain ⟨reports, s₁, ended, success⟩ := ended_of_successes run
  have order : stillTurns.map (·.1) = crossedPaths := by decide +kernel
  have other : slowTurns.map (·.1) = crossedPaths.reverse := by decide +kernel
  have single : ∀ path ∈ crossedPaths, (backedProject .sibling).Roomy (Path.ofString "/p/b") crossed.tree [(path, noon)] := by
    intro path member
    apply roomy_of_two
    revert path
    decide +kernel
  obtain ⟨alone, orders⟩ := runFiles_independent crossed_assorted (fun _ => rfl)
    (by rw [order]) (by rw [other]; exact reverse_perm crossedPaths)
    (roomy_of_two (by decide +kernel)) (roomy_of_two (by decide +kernel)) single
  obtain ⟨_, preserved, reports', s₂, ended', _, preserved', _, same⟩ := orders reports s₁ ended
  rw [ended, order] at alone
  exact ⟨reports, s₁, reports', s₂, ended, success, ended', alone.symm, preserved, preserved', same⟩

def crampedName : Text := List.replicate 220 'n' ++ ".ts".toList

def cramped : Store := shelves [
  ("x", crampedName, Utf8.encode "const a = 1;\n".toList),
  ("y", crampedName, Utf8.encode "const b = 2;\n".toList)]

def crampedPaths : List Path :=
  ["x", "y"].map fun dir => ⟨.slash, ["p".toList, dir.toList, crampedName]⟩

-- Either file alone is split. Behind the other, in the same millisecond, it finds the one name that
-- its backup can have taken.
theorem runFiles_cramped_interferes : (backedProject .sibling).Cautious (Path.ofString "/p/b") cramped.tree ∧
    (∀ path ∈ crampedPaths, (backedProject .sibling).Eligible cramped.tree path) ∧
    (crampedPaths.map (·.parts)).Nodup ∧ cramped.Faultless ∧ successes (crampedPaths.mapM fun path =>
      given (reported path ((backedProject .sibling).refactorFile path noon) cramped)) = some [true, true] ∧
    successes (given ((backedProject .sibling).runFiles false (crampedPaths.map (·, noon)) cramped)) =
      some [true, false] := by
  refine ⟨backed_cautious (by decide +kernel) (by decide) rfl (by decide), ?_, by decide +kernel,
    fun _ => rfl, by decide +kernel, by decide +kernel⟩
  have checked : crampedPaths.all ((backedProject .sibling).admissible cramped.tree) = true := by
    decide +kernel
  intro path member
  exact eligible_of_admissible backed_faithful (all_eq_true.mp checked path member)

end Project

end ModuleSplit
