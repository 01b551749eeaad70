import ModuleSplit.Project.Basic
import ModuleSplit.Proofs.Plan.Groups
import ModuleSplit.Proofs.Transaction.Failures

namespace ModuleSplit

theorem Plan.synthesize_nullFree {plan : Plan} (free : plan.source.path.NullFree)
    (mode : OutputMode) : ∀ f ∈ (plan.synthesize mode).files, f.path.NullFree := by
  unfold synthesize
  split
  · simp
  · rw [List.forall_mem_append, List.forall_mem_map, List.forall_mem_singleton]
    exact ⟨fun d _ => Layout.categoryPath_nullFree free _, Layout.indexPath_nullFree free⟩

namespace Project

open Transaction

variable {p : Project} {path : Path} {m : Moment} {s s' : Store} {f : Failure}
  {failed : Failure → Store → Prop}

theorem planFile_nullFree {t : Tree} {plan : Plan} (planned : p.planFile t path = .ok plan) : plan.source.path.NullFree := by
  obtain ⟨source, loaded, built⟩ := Result.bind_ok.mp planned
  obtain ⟨_, _, loaded⟩ := Result.bind_ok.mp loaded
  obtain ⟨bytes, read, loaded⟩ := Result.bind_ok.mp loaded
  obtain ⟨text, _, loaded⟩ := Result.bind_ok.mp loaded
  obtain ⟨_, parts⟩ := Plan.build_parts built
  obtain ⟨_, accepted, _⟩ := Result.bind_ok.mp read
  rw [parts.origin, ← Result.pure_ok.mp loaded]
  exact Path.accept_ok.mp accepted

theorem filesOf_nullFree {plan : Plan} (free : plan.source.path.NullFree) (mode : OutputMode) :
    ∀ f ∈ filesOf (plan.synthesize mode) plan.source, f.path.NullFree := by
  unfold filesOf
  split
  · simp
  · rw [List.forall_mem_append, List.forall_mem_singleton]
    exact ⟨Plan.synthesize_nullFree free mode, free⟩

def splitting (p : Project) (t : Tree) (path : Path) : Result Transaction := do
  let plan ← p.planFile t path
  p.transaction plan.source.path (filesOf (p.synthesis plan) plan.source) p.codec
    plan.source.newline.text

-- Every place is as before, but for directories that were missing on the way to the backups.
def Untouched (p : Project) (before now : Tree) : Prop :=
  ∀ l, now.get? l = before.get? l ∨ (before.get? l = none ∧ now.get? l = some .directory ∧
    ∃ dir, p.backupDir = .ok dir ∧ before.OnTheWay dir l)

theorem perform_after {α : Type} {action : AttemptM α} {done : α → Store → Prop}
    (after : After action {store := s} (fun v a => done v a.store) fun f a => failed f a.store) :
    After (perform action) s done failed := by
  unfold After perform at *
  cases ended : action {store := s} with
  | ok v a =>
    rw [ended] at after
    exact after
  | error f a =>
    rw [ended] at after
    exact after

theorem ofResult_after {α : Type} (result : Result α) {done : α → Store → Prop} (accepted : ∀ a, result = .ok a → done a s)
    (refused : ∀ f, result = .error f → failed f s) : After (Store.ofResult result) s done failed := by
  cases result with
  | ok a => exact accepted a rfl
  | error f => exact refused f rfl

theorem refactorFile_after (rooted : s.tree.Rooted)
    (home : s.tree.get? s.tree.workingDirectory = some .directory) (errors : s.OnlyErrors)
    (regular : p.codec.Regular) (path : Path) (m : Moment) :
    After (p.refactorFile path m) s (fun _ _ => True) fun f s' => p.Untouched s.tree s'.tree ∨
      Unrecovered f ∨ (∃ t, p.splitting s.tree path = .ok t ∧ t.Unencodable f) ∨ Unanswered f s' := by
  have same : p.Untouched s.tree s.tree := fun l => .inl rfl
  refine .bind ?_
  show After _ s _ _
  refine .bind (ofResult_after _ ?_ fun _ _ => .inl same)
  intro plan planned
  have free := planFile_nullFree planned
  refine .bind (.bind (ofResult_after _ ?_ fun _ _ => .inl same))
  intro t made
  have split : p.splitting s.tree path = .ok t := Result.bind_ok.mpr ⟨plan, planned, made⟩
  obtain ⟨dir, named, made⟩ := Result.bind_ok.mp made
  have made := Result.pure_ok.mp made
  have files : ∀ f ∈ t.files, f.path.NullFree := by
    rw [← made]
    exact filesOf_nullFree free p.outputs
  refine perform_after ((run_failure rooted home errors (by rw [← made]; exact free) files
    (by rw [← made]; exact regular) m).mono (fun _ _ _ => trivial) ?_)
  rintro f a (grows | unrecovered | refused | unanswered)
  · refine .inl fun l => ?_
    rcases grows.change l with equal | ⟨absent, directory, way⟩
    · exact .inl equal
    · exact .inr ⟨absent, directory, dir, named, by rw [← made] at way; exact way⟩
  · exact .inr (.inl unrecovered)
  · exact .inr (.inr (.inl ⟨t, split, refused⟩))
  · exact .inr (.inr (.inr unanswered))

-- Whatever stops a split, be it reading, planning, the backup, a file or its check, the project is
-- as it was, unless the split cannot be undone, or the codec refuses one of the texts, or storage
-- will not say whether a file is there that has just been written.
theorem refactorFile_failure_untouched (rooted : s.tree.Rooted)
    (home : s.tree.get? s.tree.workingDirectory = some .directory) (errors : s.OnlyErrors)
    (regular : p.codec.Regular) (ended : p.refactorFile path m s = .error f s') (recovered : ¬Unrecovered f)
    (encodable : ∀ t, p.splitting s.tree path = .ok t → ¬t.Unencodable f) (answered : ¬Unanswered f s') :
    p.Untouched s.tree s'.tree := by
  have after := refactorFile_after rooted home errors regular path m
  unfold After at after
  rw [ended] at after
  rcases after with untouched | unrecovered | ⟨t, split, refused⟩ | unanswered
  · exact untouched
  · exact absurd unrecovered recovered
  · exact absurd refused (encodable t split)
  · exact absurd unanswered answered

def asciiProject : Project where
  root := Path.ofString "/p"
  settings := {}
  patterns := .bare
  codec := .ofValue (.ofString "ascii")

-- One file with one declaration. The copy for its backup is refused, or no call is.
def smallStore (name : String) (refused : Bool) : Store where
  tree := {entries := [(["p".toList], .directory),
    (["p".toList, name.toList], .file (Utf8.encode "const a = 1;\n".toList))]}
  schedule calls := if refused ∧ calls.head?.map (·.kind) = some .copy then some (.error "disk full".toList) else none

def noon : Moment := ⟨2024, 1, 2, 12, 0, 0, 0⟩

def remains : EStateM.Result Failure Store SplitReport → Option Failure × Tree
  | .ok _ s => (none, s.tree)
  | .error f s => (some f, s.tree)

theorem ended_of_remains {result : EStateM.Result Failure Store SplitReport} (failed : (remains result).1 = some f) :
    ∃ s, result = .error f s ∧ s.tree = (remains result).2 := by
  cases result with
  | ok report s => cases failed
  | error g s =>
    cases failed
    exact ⟨s, rfl, rfl⟩

theorem refactorFile_failure_untouched_refused : ∃ s',
    asciiProject.refactorFile (Path.ofString "a.ts") noon (smallStore "a.ts" true) =
      .error (.backup (Path.ofString "/p/a.ts") "disk full".toList) s' ∧
    asciiProject.Untouched (smallStore "a.ts" true).tree s'.tree := by
  have failed : (remains (asciiProject.refactorFile (Path.ofString "a.ts") noon (smallStore "a.ts" true))).1 =
        some (.backup (Path.ofString "/p/a.ts") "disk full".toList) := by decide +kernel
  obtain ⟨s', ended, _⟩ := ended_of_remains failed
  have errors : (smallStore "a.ts" true).OnlyErrors := by
    intro calls trouble planned
    change (if _ then some (.error _) else none) = some trouble at planned
    split at planned
    · cases planned
      exact ⟨_, rfl⟩
    · cases planned
  have regular : asciiProject.codec.Regular := Codec.ofValue_regular (.ofString "ascii")
  refine ⟨s', ended, refactorFile_failure_untouched (Tree.rooted_of_entries (by decide)) rfl errors regular ended ?_ ?_ ?_⟩
  · rintro ⟨_, _, _, _, same⟩
    cases same
  · rintro t split ⟨file, _, refused⟩
    obtain ⟨plan, _, made⟩ := Result.bind_ok.mp split
    obtain ⟨dir, _, made⟩ := Result.bind_ok.mp made
    rw [← Result.pure_ok.mp made] at refused
    change (Encoding.ascii.encode _).mapError Failure.encode = _ at refused
    generalize Encoding.ascii.encode _ = encoded at refused
    cases encoded <;> cases refused
  · rintro ⟨_, ⟨_, ⟨_, _, same⟩ | ⟨_, same⟩⟩, _⟩ <;> cases same

-- The name of the file is no ASCII: the file of the constants is written, the index that names it
-- cannot be encoded, and nothing is undone.
theorem refactorFile_unencodable_leaves_file : ∃ failure s',
    asciiProject.refactorFile (Path.ofString "ü.ts") noon (smallStore "ü.ts" false) = .error (.encode failure) s' ∧
    ¬asciiProject.Untouched (smallStore "ü.ts" false).tree s'.tree := by
  have failed : (remains (asciiProject.refactorFile (Path.ofString "ü.ts") noon
      (smallStore "ü.ts" false))).1 = some (.encode ⟨"ascii", 'ü', 17, 18, .notBelow 128⟩) := by
    decide +kernel
  have left : (remains (asciiProject.refactorFile (Path.ofString "ü.ts") noon
      (smallStore "ü.ts" false))).2.get? ["p".toList, "ü-constants.ts".toList] =
        some (.file (Utf8.encode "export const a = 1;\n".toList)) := by decide +kernel
  obtain ⟨s', ended, tree⟩ := ended_of_remains failed
  refine ⟨_, s', ended, fun untouched => ?_⟩
  rw [← tree] at left
  rcases untouched ["p".toList, "ü-constants.ts".toList] with same | ⟨_, directory, _⟩
  · rw [left] at same
    cases same
  · rw [left] at directory
    cases directory

end Project

end ModuleSplit
