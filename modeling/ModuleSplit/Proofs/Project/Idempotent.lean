import ModuleSplit.Proofs.Output.Replacement
import ModuleSplit.Proofs.Project.Refactor
import ModuleSplit.Proofs.Text.Encoding
import ModuleSplit.Proofs.Transaction.Verified

namespace ModuleSplit

open Text (breakLines)

theorem Transaction.encode_eq {t : Transaction} {newline : Newline} (same : t.newline = newline.text) (text : Text) :
    t.encode text = t.codec.encode (breakLines newline.text text) := by
  rw [Transaction.encode, same]
  cases newline with
  | lf =>
    rw [if_pos (show Newline.text .lf = ['\n'] from rfl)]
    exact congrArg _ (Text.breakLines_feed text).symm
  | crlf =>
    rw [if_neg (by decide)]
    rfl

namespace Project

variable {p : Project} {path : Path} {m : Moment} {s s' : Store} {plan : Plan}

theorem planFile_parts {t : Tree} (planned : p.planFile t path = .ok plan) :
    p.codec.usable = .ok ⟨⟩ ∧ plan.source.path = p.resolve path ∧ Plan.build plan.source p.patterns p.mode = .ok plan := by
  obtain ⟨source, loaded, built⟩ := Result.bind_ok.mp planned
  obtain ⟨_, usable, loaded⟩ := Result.bind_ok.mp loaded
  obtain ⟨bytes, _, loaded⟩ := Result.bind_ok.mp loaded
  obtain ⟨text, _, loaded⟩ := Result.bind_ok.mp loaded
  obtain ⟨_, parts⟩ := Plan.build_parts built
  have origin := parts.origin
  refine ⟨usable, ?_, by rw [origin, built]⟩
  rw [origin, ← Result.pure_ok.mp loaded]
  rfl

structure Replaced (p : Project) (plan : Plan) (now : Tree) : Prop where
  filled : plan.isEmpty = false
  configured : ∃ dir, p.backupDir = .ok dir
  content : ∃ bytes, now.read plan.source.path = .ok bytes ∧ p.codec.encode
    (breakLines plan.source.newline.text (p.synthesis plan).replacement) = .ok bytes
  passes : Passes p.mode p.codec now plan.source.path

theorem reportOf_wrote {a : Analysis} {o : Outcome} (wrote : (reportOf plan a o).newFiles ≠ []) :
    o.error = none ∧ o.written ≠ [] := by
  unfold reportOf at wrote
  dsimp only at wrote
  split at wrote
  · rename_i done
    obtain ⟨success, _⟩ := Bool.and_eq_true_iff.mp done
    refine ⟨Option.isNone_iff_eq_none.mp success, ?_⟩
    rintro none
    rw [none] at wrote
    exact wrote rfl
  · exact absurd rfl wrote

theorem synthesis_isEmpty (p : Project) (plan : Plan) : (p.synthesis plan).isEmpty = plan.isEmpty := by
  unfold synthesis Plan.synthesize
  split
  · rename_i empty
    exact empty.symm
  · rename_i filled
    simp_all [Synthesis.isEmpty]

theorem refactorFile_replaced (errors : s.OnlyErrors) (path : Path) (m : Moment) : After (p.refactorFile path m) s
      (fun report s' => report.newFiles ≠ [] →
        ∃ plan, p.planFile s.tree path = .ok plan ∧ p.Replaced plan s'.tree) fun _ _ => True := by
  refine .bind ?_
  show After _ s _ _
  refine .bind (ofResult_after _ ?_ fun _ _ => trivial)
  intro plan planned
  refine .bind (.bind (ofResult_after _ ?_ fun _ _ => trivial))
  intro t made
  obtain ⟨dir, configured, made⟩ := Result.bind_ok.mp made
  have made := Result.pure_ok.mp made
  have files : t.files = filesOf (p.synthesis plan) plan.source := by rw [← made]
  rw [filesOf, synthesis_isEmpty] at files
  cases filled : plan.isEmpty with
  | true =>
    have none : t.files.isEmpty = true := by rw [files, filled]; rfl
    refine perform_after ?_
    unfold Transaction.run
    rw [if_pos none]
    refine .bind (.progress ?_)
    intro wrote
    exact absurd rfl (reportOf_wrote wrote).2
  | false =>
    rw [filled] at files
    have files : t.files = (p.synthesis plan).files ++ [⟨plan.source.path, (p.synthesis plan).replacement⟩] := files
    refine perform_after (((t.run_passes (by simp [files]) m s).both (t.run_last files errors m)).mono ?_ fun _ _ _ => trivial)
    rintro o a ⟨passes, last⟩ wrote
    have done := (reportOf_wrote wrote).1
    obtain ⟨written, passes⟩ := passes done
    obtain ⟨bytes, encoded, read⟩ := last done
    refine ⟨plan, planned, filled, ⟨dir, configured⟩, ⟨bytes, read, ?_⟩, ?_⟩
    · have same : t.newline = plan.source.newline.text := by rw [← made]
      rw [Transaction.encode_eq same, ← made] at encoded
      exact encoded
    · have passed := passes plan.source.path (by simp [written, files])
      rw [← made] at passed
      exact passed

theorem Replaced.planned_empty {t : Tree} (planned : p.planFile t path = .ok plan) {now : Tree}
    (replaced : p.Replaced plan now) (faithful : p.codec.Faithful) (plain : PlainBase (p.resolve path).stem) :
    (∀ newline : Newline, ∃ empty, Plan.build (Source.ofText (breakLines newline.text
        (p.synthesis plan).replacement) plan.source.path) p.patterns p.mode = .ok empty ∧ empty.isEmpty = true) ∧
    ∃ empty, p.planFile now path = .ok empty ∧ empty.isEmpty = true := by
  obtain ⟨usable, origin, built⟩ := planFile_parts planned
  obtain ⟨bytes, read, encoded⟩ := replaced.content
  obtain ⟨decoded, loaded⟩ := faithful _ _ encoded
  have checked : checkText p.mode (p.synthesis plan).replacement = none := by
    obtain ⟨held, text, asked, same, passed⟩ := replaced.passes
    have there := (Tree.ask_some asked).2
    rw [(Tree.read_ok read).2.2] at there
    cases there
    rw [decoded] at same
    cases same
    rwa [checkText_breakLines] at passed
  have emptied : ∀ newline : Newline, ∃ empty, Plan.build (Source.ofText (breakLines newline.text
      (p.synthesis plan).replacement) plan.source.path) p.patterns p.mode = .ok empty ∧ empty.isEmpty = true := by
    intro newline
    obtain ⟨empty, emptied, _, none⟩ := Plan.build_replacement built
      (by rw [origin]; exact plain) replaced.filled checked newline plan.source.path
    exact ⟨empty, emptied, none⟩
  obtain ⟨empty, again, none⟩ := emptied plan.source.newline
  refine ⟨emptied, empty, ?_, none⟩
  rw [origin] at read again
  refine Result.bind_ok.mpr ⟨_, ?_, again⟩
  refine Result.bind_ok.mpr ⟨_, usable, Result.bind_ok.mpr ⟨_, read, ?_⟩⟩
  exact Result.bind_ok.mpr ⟨_, loaded, rfl⟩

structure Idle (report : SplitReport) : Prop where
  success : report.success = true
  error : report.error = none
  newFiles : report.newFiles = []
  backup : report.backup = none

theorem refactorFile_idle (configured : ∃ dir, p.backupDir = .ok dir)
    (planned : p.planFile s.tree path = .ok plan) (none : plan.isEmpty = true) (m : Moment) :
    After (p.refactorFile path m) s (fun report s' => s' = s ∧ Idle report) fun _ _ => False := by
  obtain ⟨dir, configured⟩ := configured
  refine .bind ?_
  show After _ s _ _
  refine .bind (ofResult_after _ ?_ fun _ failed => by rw [planned] at failed; cases failed)
  intro again same
  rw [planned] at same
  cases same
  have files : filesOf (p.synthesis plan) plan.source = [] := by
    rw [filesOf, synthesis_isEmpty, none]
    rfl
  refine .bind (.bind (ofResult_after _ ?_ ?_))
  · intro t made
    obtain ⟨_, _, made⟩ := Result.bind_ok.mp made
    have none : t.files.isEmpty = true := by rw [← Result.pure_ok.mp made, files]; rfl
    refine perform_after ?_
    unfold Transaction.run
    rw [if_pos none]
    exact .bind (.progress ⟨rfl, rfl, rfl, rfl, rfl⟩)
  · intro f failed
    unfold transaction at failed
    rw [configured] at failed
    cases failed

theorem refactorFile_idle_again (configured : ∃ dir, p.backupDir = .ok dir)
    (planned : p.planFile s.tree path = .ok plan) (none : plan.isEmpty = true) (moments : List Moment) :
    After (moments.mapM (p.refactorFile path)) s
      (fun reports s' => s' = s ∧ reports.length = moments.length ∧ ∀ report ∈ reports, Idle report) fun _ _ => False := by
  induction moments with
  | nil => exact ⟨rfl, rfl, by simp⟩
  | cons m moments ih =>
    rw [List.mapM_cons]
    refine .bind ((refactorFile_idle configured planned none m).mono ?_ fun _ _ never => never)
    rintro report _ ⟨rfl, idle⟩
    refine .bind (ih.mono ?_ fun _ _ never => never)
    rintro reports _ ⟨rfl, length, others⟩
    exact ⟨rfl, congrArg (· + 1) length, List.forall_mem_cons.mpr ⟨idle, others⟩⟩

-- A split that has written files leaves nothing to split: the replacement is planned as empty, and
-- the file can be split again any number of times without a new file, a backup or any change.
theorem refactorFile_idempotent {report : SplitReport} (errors : s.OnlyErrors)
    (faithful : p.codec.Faithful) (plain : PlainBase (p.resolve path).stem)
    (ended : p.refactorFile path m s = .ok report s') (wrote : report.newFiles ≠ []) :
    (∃ plan, p.planFile s.tree path = .ok plan ∧ ∀ newline : Newline, ∃ empty, Plan.build (Source.ofText (breakLines newline.text
        (p.synthesis plan).replacement) plan.source.path) p.patterns p.mode = .ok empty ∧ empty.isEmpty = true) ∧
    (∃ empty, p.planFile s'.tree path = .ok empty ∧ empty.isEmpty = true) ∧
    ∀ moments : List Moment, ∃ reports, moments.mapM (p.refactorFile path) s' = .ok reports s' ∧
      reports.length = moments.length ∧ ∀ again ∈ reports, again.success = true ∧
        again.error = none ∧ again.newFiles = [] ∧ again.backup = none := by
  obtain ⟨plan, planned, replaced⟩ := (refactorFile_replaced errors path m).ended ended wrote
  obtain ⟨built, empty, again, none⟩ := replaced.planned_empty planned faithful plain
  refine ⟨⟨plan, planned, built⟩, ⟨empty, again, none⟩, ?_⟩
  intro moments
  obtain ⟨reports, _, ended, rfl, length, idle⟩ := (refactorFile_idle_again replaced.configured again none moments).total
  refine ⟨reports, ended, length, ?_⟩
  intro report member
  obtain ⟨success, error, newFiles, backup⟩ := idle report member
  exact ⟨success, error, newFiles, backup⟩

def told : EStateM.Result Failure Store SplitReport → List Path
  | .ok report _ => report.newFiles
  | .error _ _ => []

theorem ended_of_told {result : EStateM.Result Failure Store SplitReport} (wrote : told result ≠ []) :
    ∃ report s, result = .ok report s ∧ report.newFiles = told result := by
  cases result with
  | ok report s => exact ⟨report, s, rfl, rfl⟩
  | error f s => exact absurd rfl wrote

theorem refactorFile_idempotent_small : ∃ report s',
    asciiProject.refactorFile (Path.ofString "a.ts") noon (smallStore "a.ts" false) = .ok report s' ∧
    report.newFiles = [Path.ofString "/p/a-constants.ts", Path.ofString "/p/a-index.ts"] ∧
    ∃ reports, [noon, noon].mapM (asciiProject.refactorFile (Path.ofString "a.ts")) s' = .ok reports s' ∧ reports.length = 2 := by
  have files : told (asciiProject.refactorFile (Path.ofString "a.ts") noon (smallStore "a.ts" false)) =
        [Path.ofString "/p/a-constants.ts", Path.ofString "/p/a-index.ts"] := by decide +kernel
  obtain ⟨report, s', ended, same⟩ := ended_of_told (by rw [files]; simp)
  rw [files] at same
  have errors : (smallStore "a.ts" false).OnlyErrors := by
    intro calls trouble planned
    simp [smallStore] at planned
  have faithful : asciiProject.codec.Faithful := Codec.ofValue_faithful (.ofString "ascii")
  have plain : PlainBase (asciiProject.resolve (Path.ofString "a.ts")).stem := by
    have stem : (asciiProject.resolve (Path.ofString "a.ts")).stem = ['a'] := by decide +kernel
    rw [stem, PlainBase, List.forall_mem_singleton]
    refine ⟨?_, by decide, by decide, by decide⟩
    rintro (same | same) <;> cases same
  obtain ⟨_, _, again⟩ := refactorFile_idempotent errors faithful plain ended (by rw [same]; simp)
  obtain ⟨reports, further, length, _⟩ := again [noon, noon]
  exact ⟨report, s', ended, same, reports, further, length⟩

end Project

end ModuleSplit
