import ModuleSplit.Proofs.Delimiter.LineBreaks
import ModuleSplit.Proofs.Transaction.Atomic
import ModuleSplit.Proofs.Transaction.Verified

namespace ModuleSplit

namespace Transaction

variable {t : Transaction} {original : Bytes}

theorem Spread.saved {before now : Tree} {saved : Path} (spread : t.Spread before)
    (done : Saved t before saved original now) : t.Spread now := by
  intro f left g right above
  rw [done.keeps.place, done.keeps.place] at above
  exact spread f left g right above

theorem run_committed {store : Store} {record : Backup} {a b : Attempt} {m : Moment}
    {may : Text → Prop} (sound : t.Sound store.tree original) (calm : store.Calm) (answers : store.Answers .isFile)
    (safe : store.OnlyErrors ∨ t.Spread store.tree) (clear : t.preflight {store := store} = .ok none a)
    (saved : t.backup m a = .ok record b)
    (refuses : ∀ f w, t.Breaks b f w → w.store.Refuses w.progress.Undoes may) :
    Saved t store.tree record.path original b.store.tree ∧ After (t.run m) {store := store} (t.Committed b.store.tree record b)
        fun f a => ∃ cause, t.Abandoned may record.path original cause f a := by
  have quiet : Attempt.Quiet {store := store} a := (t.preflight_quiet _).ended clear
  have tree : a.store.tree = store.tree := quiet.store.tree
  rw [← tree] at sound safe ⊢
  obtain ⟨_, progress, schedule, done⟩ := (backup_after sound.savable (quiet.store.calm calm) m).ended saved
  have schedule : b.store.schedule = store.schedule := schedule.trans quiet.store.schedule
  rw [quiet.progress] at progress
  have still : b.store.Calm := fun calls => by
    rw [schedule]
    exact calm calls
  have heard : b.store.Answers .isFile := fun p calls words => by
    rw [schedule]
    exact answers p calls words
  have safe : b.store.OnlyErrors ∨ t.Spread b.store.tree := by
    rcases safe with errors | spread
    · exact .inl fun calls trouble planned => errors calls trouble (by rw [← planned, schedule])
    · exact .inr (spread.saved done)
  have nonempty : t.files.isEmpty = false := by
    obtain ⟨others, text, files⟩ := sound.last
    simp [files]
  refine ⟨done, ?_⟩
  unfold run
  rw [nonempty]
  refine .bind (.of_ended clear (.bind (.of_ended saved ?_)))
  exact commit_after (sound.ready done) sound.encodable (fun _ _ _ => sound.judges _) heard
    (writing_saved sound progress still done safe) refuses

-- Any call that writes may put down other bytes or nothing, and any call may be refused, as long as
-- those that undo a failed attempt are not, nor the question whether a file is there. Then a run that
-- succeeds has left in every place a file whose bytes decode to a text that is not blank and whose
-- braces balance; otherwise it reports the first file that could not be written or fails its check,
-- and the tree is the one that the backup left, which differs from the tree before in the backup
-- directory only, and in directories that were missing on the way to it.
theorem run_detects_corruption {store : Store} {record : Backup} {c b : Attempt} {m : Moment}
    (sound : t.Sound store.tree original) (spread : t.Spread store.tree) (calm : store.Calm)
    (answers : store.Answers .isFile) (clear : t.preflight {store := store} = .ok none c) (saved : t.backup m c = .ok record b)
    (behaves : ∀ f w, t.Breaks b f w → w.store.Refuses w.progress.Undoes fun _ => False) :
    ∃ o a, t.run m {store := store} = .ok o a ∧ ((o.error = none ∧ ∀ f ∈ t.files, ∃ bytes text,
          a.store.tree.ask f.path = .ok (some (.file bytes)) ∧ t.codec.decode bytes = .ok text ∧
          Text.isBlankText text = false ∧ braceBalance t.mode text = 0) ∨
        (t.Blamed b o ∧ a.store.tree.SameAs b.store.tree ∧ t.Unchanged store.tree a.store.tree)) := by
  obtain ⟨done, committed⟩ := run_committed sound calm answers (.inr spread) clear saved behaves
  have filled : t.files ≠ [] := by
    obtain ⟨others, text, files⟩ := sound.last
    simp [files]
  have ended : After (t.run m) {store := store} (fun o a => t.Committed b.store.tree record b o a ∧ (o.error = none →
        o.written = t.files.map (·.path) ∧ ∀ p ∈ o.written, Passes t.mode t.codec a.store.tree p))
      fun _ _ => False := by
    refine (committed.both (t.run_passes filled m store)).mono (fun _ _ both => both) ?_
    rintro f a ⟨⟨_, _, _, never, _⟩, _⟩
    exact never
  obtain ⟨o, a, run, committed, passes⟩ := ended.total
  refine ⟨o, a, run, ?_⟩
  cases committed with
  | failure blamed same => exact .inr ⟨blamed, same, unchanged_undone done same⟩
  | success error backup written schedule writing =>
    refine .inl ⟨error, fun f member => ?_⟩
    obtain ⟨bytes, text, there, decoded, checked⟩ := (passes error).2 f.path (by rw [written]; exact List.mem_map_of_mem member)
    obtain ⟨visible, balanced⟩ := checkText_eq_none.mp checked
    exact ⟨bytes, text, there, decoded, visible, balanced⟩

def droppingStore (p : Path) : Store where
  tree := failingStore.tree
  schedule calls := if calls.head? = some ⟨.writeBytes, p⟩ then some (.corrupt none) else none

theorem droppingStore_calm (p : Path) : (droppingStore p).Calm := by
  intro calls
  show (if _ then some (Trouble.corrupt none) else none) ≠ _
  split <;> simp

theorem droppingStore_answers (p : Path) (kind : CallKind) : (droppingStore p).Answers kind := by
  intro q calls words
  show (if _ then some (Trouble.corrupt none) else none) ≠ _
  split <;> simp

def noted {α : Type} : EStateM.Result Failure Attempt α → Bool × List Path
  | .ok _ a => (true, a.progress.previous.map (·.1))
  | .error _ a => (false, a.progress.previous.map (·.1))

def droppedNew : Store := droppingStore (Path.ofString "/src/a/b.ts")

theorem droppedNew_behaves {record : Backup} {b : Attempt}
    (saved : mixedFiles.backup ⟨2024, 1, 2, 3, 4, 5, 678000⟩ {store := droppedNew} = .ok record b)
    (f : Failure) (w : Attempt) (breaks : mixedFiles.Breaks b f w) : w.store.Refuses w.progress.Undoes fun _ => False := by
  have wrote : (noted ((mixedFiles.backup ⟨2024, 1, 2, 3, 4, 5, 678000⟩ >>= fun _ =>
      mixedFiles.write) {store := droppedNew})).1 = true := by decide +kernel
  have checked : (noted ((mixedFiles.backup ⟨2024, 1, 2, 3, 4, 5, 678000⟩ >>= fun _ =>
      mixedFiles.write >>= fun _ => mixedFiles.verify) {store := droppedNew})).2 =
        [Path.ofString "/src/old.ts"] := by decide +kernel
  have previous : w.progress.previous.map (·.1) = [Path.ofString "/src/old.ts"] := by
    rw [bind_of_ended saved] at wrote checked
    cases breaks with
    | write broke =>
      rw [broke] at wrote
      cases wrote
    | verify written broke =>
      rw [bind_of_ended written, broke] at checked
      exact checked
  have schedule : w.store.schedule = droppedNew.schedule :=
    breaks.schedule.trans ((mixedFiles.backup_steady _ _).ended saved).schedule
  intro c made trouble undoes planned
  rw [schedule] at planned
  change (if some c = some _ then some (Trouble.corrupt none) else none) = some trouble at planned
  split at planned
  · rename_i same
    cases same
    rcases undoes with other | other | other | other | ⟨_, e, listed, path⟩
    · cases other
    · cases other
    · cases other
    · cases other
    · have member := List.mem_map_of_mem (f := (·.1)) listed
      rw [previous, List.mem_singleton, path] at member
      exact absurd member (by decide +kernel)
  · cases planned

-- The write of the new file is dropped. Its check fails, and what had been written is undone.
theorem run_detects_corruption_dropped : reported (mixedFiles.run ⟨2024, 1, 2, 3, 4, 5, 678000⟩ {store := droppedNew}) =
        some .verification ∧ ∃ o a b, mixedFiles.run ⟨2024, 1, 2, 3, 4, 5, 678000⟩ {store := droppedNew} = .ok o a ∧
        mixedFiles.Blamed b o ∧ mixedFiles.Unchanged droppedNew.tree a.store.tree := by
  have failed : reported (mixedFiles.run ⟨2024, 1, 2, 3, 4, 5, 678000⟩ {store := droppedNew}) =
      some .verification := by decide +kernel
  have spread : mixedFiles.Spread droppedNew.tree := by
    unfold Spread
    decide +kernel
  have clear : mixedFiles.preflight {store := droppedNew} = .ok none {store := droppedNew} := rfl
  have backed : (noted (mixedFiles.backup ⟨2024, 1, 2, 3, 4, 5, 678000⟩ {store := droppedNew})).1 = true := by decide +kernel
  have sound : mixedFiles.Sound droppedNew.tree [97] := mixedFiles_sound
  cases saved : mixedFiles.backup ⟨2024, 1, 2, 3, 4, 5, 678000⟩ {store := droppedNew} with
  | error f b =>
    rw [saved] at backed
    cases backed
  | ok record b =>
    obtain ⟨o, a, ended, good | ⟨blamed, _, unchanged⟩⟩ := run_detects_corruption sound spread
      (droppingStore_calm _) (droppingStore_answers _ _) clear saved (droppedNew_behaves saved)
    · rw [ended] at failed
      simp [reported, good.1] at failed
    · exact ⟨failed, o, a, b, ended, blamed, unchanged⟩

def nestedFiles : Transaction where
  source := Path.ofString "/src/a.ts"
  files := [⟨Path.ofString "/src/x", "export const x = 1;\n".toList⟩,
    ⟨Path.ofString "/src/x/y.ts", "export const y = 1;\n".toList⟩,
    ⟨Path.ofString "/src/a.ts", "export * from './x';\n".toList⟩]
  backupDir := Path.ofString "/src/saved"
  codec := .utf8
  overwrite := true

def stranded : EStateM.Result Failure Attempt Outcome → Bool
  | .error (.rollback _ _ _ _) _ => true
  | _ => false

-- Where the write of the upper file is dropped, a directory takes its place for the lower one, and
-- the rollback cannot remove it as a file.
theorem run_nested_stranded : nestedFiles.Sound (droppingStore (Path.ofString "/src/x")).tree [97] ∧
    stranded (nestedFiles.run ⟨2024, 1, 2, 3, 4, 5, 678000⟩ {store := droppingStore (Path.ofString "/src/x")}) = true := by
  refine ⟨sound_of_absolute (Tree.rooted_of_entries (by decide)) rfl (by decide +kernel)
    ⟨nestedFiles.files.dropLast, "export * from './x';\n".toList, by decide +kernel⟩ rfl
    (fun f _ => ⟨_, rfl⟩) (by decide +kernel) ?_ (by decide +kernel) (by decide +kernel)
    (by decide +kernel) (by decide +kernel) (by decide +kernel) (by decide +kernel)
    (by decide +kernel), by decide +kernel⟩
  unfold Inside
  decide +kernel

end Transaction

end ModuleSplit
