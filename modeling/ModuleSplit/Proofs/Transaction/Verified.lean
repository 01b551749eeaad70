import ModuleSplit.Proofs.Transaction.Custody

namespace ModuleSplit

namespace Transaction

open AttemptM

variable {t : Transaction} {a : Attempt} {P : List Path → Store → Prop}

theorem writeFile_content (f : OutputFile) (errors : a.store.OnlyErrors) : After (t.writeFile f) a
      (fun _ b => ∃ bytes, t.encode f.text = .ok bytes ∧ b.store.tree.read f.path = .ok bytes) fun _ _ => True := by
  have put : ∀ b : Attempt, b.store.OnlyErrors → ∀ bytes, t.encode f.text = .ok bytes →
      After (onStore (Store.write f.path bytes)) b
        (fun _ b => ∃ bytes, t.encode f.text = .ok bytes ∧ b.store.tree.read f.path = .ok bytes)
        fun _ _ => True := by
    intro b errors bytes encoded
    refine .onStore ((Store.write_after f.path bytes (errors _)).mono ?_ fun _ _ _ => trivial)
    rintro _ s ⟨u, written, rfl⟩
    exact ⟨bytes, encoded, Tree.read_of_find (Tree.write_ok written).1 (Tree.find_written written)⟩
  unfold writeFile
  dsimp only
  cases encoded : t.encode f.text with
  | error failure =>
    split
    · exact .bind ((prepare_steady f.path a).mono (fun _ _ _ => trivial) fun _ _ _ => trivial)
    · trivial
  | ok bytes =>
    rw [encoded] at put
    split
    · exact .bind ((prepare_steady f.path a).mono (fun _ b steady => put b (steady.errors errors) bytes rfl) fun _ _ _ => trivial)
    · exact put a errors bytes rfl

-- The induction is on the files still to be written.
theorem writeFiles_written (t : Transaction) (files : List OutputFile) (a : Attempt) : After (t.writeFiles files) a
      (fun _ b => b.progress.written = a.progress.written ++ files.map (·.path)) fun _ _ => True := by
  induction files generalizing a with
  | nil => exact (List.append_nil _).symm
  | cons f rest ih =>
    refine .bind (.named_always ((writeFile_steady t f a).mono ?_ fun _ _ _ => trivial))
    intro _ b steady
    refine .bind (.update ((ih _).mono ?_ fun _ _ _ => trivial))
    intro _ c same
    rw [same, List.map_cons]
    show b.progress.written ++ [f.path] ++ _ = _
    rw [steady.written, List.append_assoc, List.singleton_append]

-- With refusals only, the last of the files has the bytes of its text afterwards. The induction is
-- on the files in front of it.
theorem writeFiles_last (others : List OutputFile) (f : OutputFile) (errors : a.store.OnlyErrors) :
    After (t.writeFiles (others ++ [f])) a
      (fun _ b => ∃ bytes, t.encode f.text = .ok bytes ∧ b.store.tree.read f.path = .ok bytes) fun _ _ => True := by
  induction others generalizing a with
  | nil =>
    refine .bind (.named_always ((writeFile_content f errors).mono ?_ fun _ _ _ => trivial))
    intro _ b content
    exact .bind (.update content)
  | cons g rest ih =>
    refine .bind (.named_always ((writeFile_steady t g a).mono ?_ fun _ _ _ => trivial))
    intro _ b steady
    have errors : b.store.OnlyErrors := steady.errors errors
    exact .bind (.update (ih errors))

theorem verifyFiles_passed (t : Transaction) (paths : List Path) (a : Attempt) : After (t.verifyFiles paths) a
      (fun _ b => b.progress = a.progress ∧ b.store.tree = a.store.tree ∧
        ∀ p ∈ paths, Passes t.mode t.codec a.store.tree p) fun _ _ => True := by
  induction paths generalizing a with
  | nil => exact ⟨rfl, rfl, nofun⟩
  | cons p rest ih =>
    refine .bind (.onStore ((checkFile_call a.store t.mode t.codec p).mono ?_ fun _ _ _ => trivial))
    rintro fault s ⟨quiet, passes, _⟩
    cases fault with
    | some fault => trivial
    | none =>
      refine (ih {a with store := s}).mono ?_ fun _ _ _ => trivial
      rintro _ b ⟨progress, tree, others⟩
      have same : s.tree = a.store.tree := quiet.tree
      refine ⟨progress, tree.trans same, List.forall_mem_cons.mpr ⟨passes rfl, ?_⟩⟩
      rwa [same] at others

theorem verify_passed (t : Transaction) (a : Attempt) : After t.verify a
      (fun _ b => b.progress.written = a.progress.written ∧ b.store.tree = a.store.tree ∧
        ∀ p ∈ a.progress.written, Passes t.mode t.codec a.store.tree p) fun _ _ => True := by
  refine .bind (.progress (.bind ((verifyFiles_passed t _ a).mono ?_ fun _ _ _ => trivial)))
  rintro _ b ⟨progress, tree, passes⟩
  have same : b.progress.written = a.progress.written := congrArg Progress.written progress
  exact .update ⟨same, tree, passes⟩

theorem failed_error (t : Transaction) (setback : Setback) (f : Failure) (a : Attempt) :
    After (t.failed setback f) a (fun o _ => o.error ≠ none) fun _ _ => True := by
  have rolls : After (t.rollback (some f.message)) a (fun _ _ => True) fun _ _ => True := by
    unfold After
    split <;> trivial
  refine .bind (rolls.mono ?_ fun _ _ _ => trivial)
  intro _ b _
  exact .bind (.progress nofun)

theorem commit_success (written : After t.write a (fun _ b => After t.verify b
      (fun _ c => P c.progress.written c.store) fun _ _ => True) fun _ _ => True) :
    After t.commit a (fun o b => o.error = none → P o.written b.store) fun _ _ => True := by
  refine .recover (After.mono (?_ : After _ a _ fun _ _ => True) (fun _ _ holds => holds) ?_)
  · refine .bind (written.mono ?_ fun _ _ _ => trivial)
    intro _ b checks
    refine .bind (checks.mono ?_ fun _ _ _ => trivial)
    intro _ c holds
    exact .bind (.progress fun _ => holds)
  · intro f b _
    have undone : ∀ setback, After (t.failed setback f) b
        (fun o b => o.error = none → P o.written b.store) fun _ _ => True := fun setback =>
      (failed_error t setback f b).mono (fun _ _ error none => absurd none error) fun _ _ _ => trivial
    cases f with
    | write p reason => exact undone .write
    | verification p reason => exact undone .verification
    | _ => trivial

theorem run_success {store : Store} (some : t.files ≠ [])
    (written : ∀ a : Attempt, a.progress.written = [] → a.store.schedule = store.schedule →
      After t.write a (fun _ b => After t.verify b
        (fun _ c => P c.progress.written c.store) fun _ _ => True) fun _ _ => True) (m : Moment) :
    After (t.run m) {store := store} (fun o a => o.error = none → P o.written a.store) fun _ _ => True := by
  unfold run
  rw [if_neg (by simpa using some)]
  refine .bind ((preflight_quiet t _).mono ?_ fun _ _ _ => trivial)
  intro reason a quiet
  cases reason with
  | some reason => exact .bind (.progress nofun)
  | none =>
    refine .bind ((backup_steady t m a).mono ?_ fun _ _ _ => trivial)
    intro _ b steady
    refine commit_success (written b ?_ (steady.schedule.trans quiet.store.schedule))
    rw [steady.written, quiet.progress]

theorem run_passes (some : t.files ≠ []) (m : Moment) (store : Store) : After (t.run m) {store := store}
      (fun o a => o.error = none → o.written = t.files.map (·.path) ∧
        ∀ p ∈ o.written, Passes t.mode t.codec a.store.tree p) fun _ _ => True := by
  refine run_success (P := fun written now => written = t.files.map (·.path) ∧
    ∀ p ∈ written, Passes t.mode t.codec now.tree p) some (fun a fresh _ => ?_) m
  refine .bind ((writeFiles_written t t.files a).mono ?_ fun _ _ _ => trivial)
  intro _ b written
  rw [fresh, List.nil_append] at written
  refine .bind (.update (.bind (.progress ((verify_passed t _).mono ?_ fun _ _ _ => trivial))))
  rintro _ c ⟨same, tree, passes⟩
  rw [same, tree]
  exact ⟨written, passes⟩

theorem run_last {others : List OutputFile} {f : OutputFile} (files : t.files = others ++ [f])
    {store : Store} (errors : store.OnlyErrors) (m : Moment) : After (t.run m) {store := store}
      (fun o a => o.error = none → ∃ bytes, t.encode f.text = .ok bytes ∧
        a.store.tree.read f.path = .ok bytes) fun _ _ => True := by
  refine run_success (P := fun _ now => ∃ bytes, t.encode f.text = .ok bytes ∧
    now.tree.read f.path = .ok bytes) (by simp [files]) (fun a _ schedule => ?_) m
  have errors : a.store.OnlyErrors := fun calls trouble planned => errors calls trouble (by rw [← schedule, planned])
  unfold write
  rw [files]
  refine .bind ((writeFiles_last others f errors).mono ?_ fun _ _ _ => trivial)
  intro _ b content
  refine .bind (.update (.bind (.progress ((verify_passed t _).mono ?_ fun _ _ _ => trivial))))
  rintro _ c ⟨_, tree, _⟩
  rw [tree]
  exact content

end Transaction

end ModuleSplit
