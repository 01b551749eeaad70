import ModuleSplit.Proofs.Project.Clearance

namespace ModuleSplit

open Text (breakLines)

namespace Project

variable {p : Project} {path : Path} {m : Moment} {s : Store} {plan : Plan}

-- What an analysis does not look at: whether the backup and the files can be stored where nothing
-- is yet, and whether what is stored can be read back.
structure Foreseeable (p : Project) (path : Path) (m : Moment) (plan : Plan) (s : Store) :
    Prop where
  rooted : s.tree.Rooted
  home : s.tree.get? s.tree.workingDirectory = some .directory
  faultless : s.Faultless
  -- the directory is there, and the search in it ends with a name
  backup : ∃ dir saved, p.backupDir = .ok dir ∧ s.tree.ask dir = .ok (some .directory) ∧
    Backup.target s.tree dir path m = .ok saved ∧ s.tree.get? (s.tree.place saved) ≠ some .dangling
  free : ∀ f ∈ (p.synthesis plan).files, s.tree.get? (s.tree.place f.path) = none
  -- a directory of their own is new as well
  separate : p.outputs = .directory →
    s.tree.get? (s.tree.place (Layout.outputDir ⟨path, p.outputs⟩)) = none
  storable : ∀ f ∈ (p.synthesis plan).files, f.path.Storable
  reads : ∀ f ∈ filesOf (p.synthesis plan) plan.source, ∃ bytes,
    p.codec.encode (breakLines plan.source.newline.text f.text) = .ok bytes ∧
      p.codec.decode bytes = .ok (breakLines plan.source.newline.text f.text)
  name : '/' ∉ path.name
  -- the base name stands between quotes in the replacement, where the check counts its braces only
  -- if it takes literals for code
  plain : PlainBase path.stem
  level : p.mode = .raw → '{' ∉ path.stem ∧ '}' ∉ path.stem

theorem analysis_files (p : Project) (plan : Plan) : (p.analysis plan).files.map (·.1) =
      (filesOf (p.synthesis plan) plan.source).map (·.path) := by
  unfold analysis analyze filesOf
  cases (p.synthesis plan).isEmpty with
  | true => rfl
  | false => simp

-- The replacement never fails its check, so that the analysis can leave it out.
theorem analysis_errors (built : Plan.build plan.source p.patterns p.mode = .ok plan) (plain : PlainBase plan.source.path.stem)
    (level : p.mode = .raw → '{' ∉ plan.source.path.stem ∧ '}' ∉ plan.source.path.stem) :
    (p.analysis plan).errors = [] ↔ ∀ f ∈ filesOf (p.synthesis plan) plan.source, checkText p.mode f.text = none := by
  unfold analysis analyze filesOf
  cases empty : (p.synthesis plan).isEmpty with
  | true => simp
  | false =>
    have filled : plan.isEmpty = false := by rw [← synthesis_isEmpty p plan, empty]
    have replacement : checkText p.mode (p.synthesis plan).replacement = none := by
      rw [synthesis, Plan.synthesize_replacement plan p.outputs filled]
      exact Plan.replacement_checked (Plan.build_quote built) plain fun raw => Tally.braces_of_plain (level raw).1 (level raw).2
    simp [OutputFile.fault?, List.filterMap_eq_nil_iff, or_imp, forall_and, replacement]

theorem Foreseeable.clear (foreseeable : p.Foreseeable path m plan s) : p.Clear path m plan s :=
  ⟨foreseeable.rooted, foreseeable.home, foreseeable.faultless,
    foreseeable.backup, foreseeable.free, foreseeable.separate, foreseeable.storable, foreseeable.reads, foreseeable.name⟩

theorem analysis_idle (idle : (p.analysis plan).files = []) : plan.isEmpty = true ∧ (p.analysis plan).estimatedReduction = 0 := by
  have empty : (p.synthesis plan).isEmpty = true := by
    unfold analysis analyze at idle
    split at idle
    · assumption
    · simp at idle
  refine ⟨by rw [← synthesis_isEmpty, empty], ?_⟩
  unfold analysis analyze
  rw [if_pos empty]

theorem reportOf_done (plan : Plan) (a : Analysis) {o : Outcome} (done : o.error = none) :
    (reportOf plan a o).newFiles = o.written.filter (· ≠ plan.source.path) ∧
      (reportOf plan a o).linesReduced = if o.written = [] then 0 else a.estimatedReduction := by
  unfold reportOf Outcome.isNoop Outcome.success
  rw [done]
  cases o.written with
  | nil => exact ⟨rfl, rfl⟩
  | cons p rest => exact ⟨rfl, rfl⟩

-- A transaction without files ends at once; any other ends as its texts deserve.
theorem refactorFile_outcome (absolute : path.isAbsolute = true)
    (planned : p.planFile s.tree path = .ok plan) (foreseeable : p.Foreseeable path m plan s) :
    ∃ o s', p.refactorFile path m s = .ok (reportOf plan (p.analysis plan) o) s' ∧
      (o.error = none ↔ (p.analysis plan).errors = []) ∧ (plan.isEmpty = true → o.error = none ∧ s' = s) ∧
      (o.error = none → o.written = (p.analysis plan).files.map (·.1) ∧
        s'.writes = ((p.analysis plan).files.map (·.1)).reverse ++ s.writes ∧
        ∀ f ∈ filesOf (p.synthesis plan) plan.source, ∃ bytes,
          p.codec.encode (breakLines plan.source.newline.text f.text) = .ok bytes ∧ s'.tree.read f.path = .ok bytes) := by
  obtain ⟨_, origin, built⟩ := planFile_parts planned
  rw [resolve_absolute absolute] at origin
  have errors := analysis_errors built (by rw [origin]; exact foreseeable.plain) (by rw [origin]; exact foreseeable.level)
  rw [errors, analysis_files]
  cases empty : plan.isEmpty with
  | true =>
    obtain ⟨dir, _, configured, _⟩ := foreseeable.backup
    have files := filesOf_idle p empty
    have run : (p.split plan dir).run m {store := s} = .ok {phase := .idle} {store := s} := by
      unfold Transaction.run split
      rw [files]
      rfl
    refine ⟨_, _, refactorFile_run planned configured run, ?_, fun _ => ⟨rfl, rfl⟩, fun _ => ?_⟩
    · simp [files]
    · rw [files]
      exact ⟨rfl, rfl, by simp⟩
  | false =>
    obtain ⟨dir, saved, original, configured, unhindered⟩ := foreseeable.clear.unhindered absolute planned empty
    obtain ⟨o, a, run, succeeds, done⟩ := unhindered.outcome
    refine ⟨o, a.store, refactorFile_run planned configured run, succeeds, by simp, fun error => ?_⟩
    obtain ⟨written, writes, contents⟩ := done error
    refine ⟨written, writes, fun f member => ?_⟩
    obtain ⟨bytes, encoded, read⟩ := contents f member
    rw [Transaction.encode_eq (show _ = plan.source.newline.text from rfl)] at encoded
    exact ⟨bytes, encoded, read⟩

-- A split succeeds if and only if its analysis has no errors, and it writes the files of the
-- analysis, in their order and with their texts.
theorem refactorFile_foretold (absolute : path.isAbsolute = true)
    (foreseeable : ∀ plan, p.planFile s.tree path = .ok plan → p.Foreseeable path m plan s) :
    (∀ f, p.analyzeFile s.tree path = .error f → p.refactorFile path m s = .error f s) ∧
    ∀ analysis, p.analyzeFile s.tree path = .ok analysis → ∃ dry report s',
      p.dryRun s.tree path = .ok dry ∧ p.refactorFile path m s = .ok report s' ∧
      (report.success = true ↔ analysis.errors = []) ∧ (analysis.files = [] → report.success = true ∧ s' = s) ∧
      (report.success = true → report.newFiles = dry.newFiles ∧ report.linesReduced = dry.linesReduced ∧
        s'.writes = (analysis.files.map (·.1)).reverse ++ s.writes ∧ ∀ plan, p.planFile s.tree path = .ok plan →
          ∀ f ∈ filesOf (p.synthesis plan) plan.source, ∃ bytes,
            p.codec.encode (breakLines plan.source.newline.text f.text) = .ok bytes ∧ s'.tree.read f.path = .ok bytes) := by
  constructor
  · intro f failed
    rcases Result.bind_error failed with refused | ⟨plan, _, failed⟩
    · unfold refactorFile
      rw [bind_of_ended (show Store.treeNow s = .ok s.tree s from rfl), refused]
      rfl
    · cases failed
  · intro analysis analyzed
    obtain ⟨plan, planned, same⟩ := Result.bind_ok.mp analyzed
    cases same
    obtain ⟨_, origin, _⟩ := planFile_parts planned
    rw [resolve_absolute absolute] at origin
    obtain ⟨o, s', ended, succeeds, idle, done⟩ := refactorFile_outcome absolute planned (foreseeable plan planned)
    have success : (reportOf plan (p.analysis plan) o).success = true ↔ o.error = none := Option.isNone_iff_eq_none
    refine ⟨_, _, s', Result.bind_ok.mpr ⟨_, analyzed, rfl⟩, ended, success.trans succeeds, ?_, ?_⟩
    · intro none
      rw [success]
      exact idle (analysis_idle none).1
    · intro succeeded
      obtain ⟨written, writes, contents⟩ := done (success.mp succeeded)
      obtain ⟨newFiles, reduced⟩ := reportOf_done plan (p.analysis plan) (success.mp succeeded)
      refine ⟨?_, ?_, writes, ?_⟩
      · rw [newFiles, written, origin]
      · rw [reduced, written]
        split
        · rename_i none
          exact (analysis_idle (List.map_eq_nil_iff.mp none)).2.symm
        · rfl
      · intro again same
        cases planned.symm.trans same
        exact contents

def backedProject (outputs : OutputMode) : Project where
  root := Path.ofString "/p"
  settings := {split := {outputMode := .known outputs, backupDirectory := .ofString "b"}}
  patterns := .bare
  codec := .ofValue (.ofString "ascii")

def wideStore (name : Text) : Store where
  tree := {entries := [(["p".toList], .directory), (["p".toList, "b".toList], .directory),
    (["p".toList, name], .file (Utf8.encode "const a = 1;\r\n".toList))]}

def separateFiles : List OutputFile :=
  [⟨Path.ofString "/p/a/a-constants.ts", "export const a = 1;\n".toList⟩,
    ⟨Path.ofString "/p/a/index.ts", "export * from './a-constants';\n".toList⟩]

def drafted (p : Project) : Result Plan → Option (List OutputFile × List OutputFile × Newline)
  | .ok plan =>
    some ((p.synthesis plan).files, filesOf (p.synthesis plan) plan.source, plan.source.newline)
  | .error _ => none

theorem separate_foreseeable (plan : Plan) (planned : (backedProject .directory).planFile
      (wideStore "a.ts".toList).tree (Path.ofString "/p/a.ts") = .ok plan) :
    (backedProject .directory).Foreseeable (Path.ofString "/p/a.ts") noon plan (wideStore "a.ts".toList) := by
  have facts : drafted (backedProject .directory) ((backedProject .directory).planFile
      (wideStore "a.ts".toList).tree (Path.ofString "/p/a.ts")) = some (separateFiles, separateFiles ++
          [⟨Path.ofString "/p/a.ts", "export * from './a/index';\n".toList⟩], .crlf) := by
    decide +kernel
  rw [planned] at facts
  obtain ⟨files, rest⟩ := Prod.mk.inj (Option.some.inj facts)
  obtain ⟨all, newline⟩ := Prod.mk.inj rest
  have faithful : (backedProject .directory).codec.Faithful := Codec.ofValue_faithful (.ofString "ascii")
  refine {
    rooted := Tree.rooted_of_entries (by decide)
    home := rfl
    faultless := fun _ => rfl
    backup := ⟨Path.ofString "/p/b", Path.ofString "/p/b/a.ts-2024-01-02T12-00-00-000Z.backup", rfl, by decide +kernel,
      by decide +kernel, by decide +kernel⟩
    free := ?_
    separate := fun _ => by decide +kernel
    storable := ?_
    reads := ?_
    name := by decide +kernel
    plain := ?_
    level := by rintro ⟨⟩ }
  · rw [files]
    decide +kernel
  · rw [files]
    intro f member
    refine ⟨?_, ?_, ?_⟩
    · revert f
      decide +kernel
    · revert f
      decide +kernel
    · revert f
      decide +kernel
  · rw [all, newline]
    intro f member
    have encodes : ((backedProject .directory).codec.encode (breakLines Newline.crlf.text f.text)).isOk := by
      revert f
      decide +kernel
    cases encoded : (backedProject .directory).codec.encode (breakLines Newline.crlf.text f.text) with
    | error failure =>
      rw [encoded] at encodes
      cases encodes
    | ok bytes => exact ⟨bytes, rfl, (faithful _ _ encoded).1⟩
  · have stem : (Path.ofString "/p/a.ts").stem = ['a'] := by decide +kernel
    rw [stem, PlainBase, List.forall_mem_singleton]
    refine ⟨?_, by decide, by decide, by decide⟩
    rintro (same | same) <;> cases same

def foretells : Result Analysis → Option (List Path × List Text)
  | .ok analysis => some (analysis.files.map (·.1), analysis.errors)
  | .error _ => none

theorem analyzed_of_foretells {result : Result Analysis} {files : List Path} {errors : List Text}
    (told : foretells result = some (files, errors)) :
    ∃ analysis, result = .ok analysis ∧ analysis.files.map (·.1) = files ∧ analysis.errors = errors := by
  cases result with
  | error f => cases told
  | ok analysis =>
    obtain ⟨same, none⟩ := Prod.mk.inj (Option.some.inj told)
    exact ⟨analysis, rfl, same, none⟩

theorem refactorFile_foretold_separate : ∃ dry report s',
    (backedProject .directory).dryRun (wideStore "a.ts".toList).tree (Path.ofString "/p/a.ts") = .ok dry ∧
    (backedProject .directory).refactorFile (Path.ofString "/p/a.ts") noon (wideStore "a.ts".toList) = .ok report s' ∧
    report.success = true ∧ report.newFiles = dry.newFiles ∧
    s'.writes = [Path.ofString "/p/a.ts", Path.ofString "/p/a/index.ts", Path.ofString "/p/a/a-constants.ts"] := by
  have told : foretells ((backedProject .directory).analyzeFile (wideStore "a.ts".toList).tree
      (Path.ofString "/p/a.ts")) = some ([Path.ofString "/p/a/a-constants.ts",
        Path.ofString "/p/a/index.ts", Path.ofString "/p/a.ts"], []) := by decide +kernel
  obtain ⟨analysis, analyzed, files, errors⟩ := analyzed_of_foretells told
  obtain ⟨dry, report, s', dried, ended, succeeds, _, done⟩ :=
    (refactorFile_foretold (by decide +kernel) separate_foreseeable).2 analysis analyzed
  have success := succeeds.mpr errors
  obtain ⟨newFiles, _, writes, _⟩ := done success
  refine ⟨dry, report, s', dried, ended, success, newFiles, ?_⟩
  rw [writes, files]
  rfl

def longName : Text := List.replicate 226 'n' ++ ".ts".toList

def longPath : Path := (Path.ofString "/p").child longName

def unsaved : EStateM.Result Failure Store SplitReport → Option Path
  | .error (.backup p _) _ => some p
  | _ => none

theorem ended_of_unsaved {result : EStateM.Result Failure Store SplitReport} {file : Path}
    (refused : unsaved result = some file) : ∃ reason s, result = .error (.backup file reason) s := by
  unfold unsaved at refused
  split at refused
  · cases refused
    exact ⟨_, _, rfl⟩
  · cases refused

-- The analysis finds no fault, and its files can be stored where nothing is yet. The name of the
-- backup is longer than theirs and cannot.
theorem refactorFile_backup_unforeseen : (∃ analysis, (backedProject .sibling).analyzeFile (wideStore longName).tree longPath =
      .ok analysis ∧ analysis.errors = [] ∧ ∀ file ∈ analysis.files.map (·.1),
        file = longPath ∨ (wideStore longName).tree.ask file = .ok none) ∧
    ∃ reason s', (backedProject .sibling).refactorFile longPath noon (wideStore longName) =
      .error (.backup longPath reason) s' := by
  have told : foretells ((backedProject .sibling).analyzeFile (wideStore longName).tree longPath) =
      some ([(Path.ofString "/p").child (List.replicate 226 'n' ++ "-constants.ts".toList),
        (Path.ofString "/p").child (List.replicate 226 'n' ++ "-index.ts".toList),
        longPath], []) := by decide +kernel
  obtain ⟨analysis, analyzed, files, errors⟩ := analyzed_of_foretells told
  refine ⟨⟨analysis, analyzed, errors, ?_⟩, ended_of_unsaved (by decide +kernel)⟩
  rw [files]
  decide +kernel

end Project

end ModuleSplit
