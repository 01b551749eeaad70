import ModuleSplit.Proofs.Transaction.Check
import ModuleSplit.Proofs.Transaction.Undo

-- What the phases of a transaction leave alone, however they end: the schedule of its storage and,
-- until a file has been written, the list of the files written so far.

namespace ModuleSplit

open Store

def Store.Abides {α : Type} (action : StoreM α) : Prop :=
  ∀ s : Store, After action s (fun _ s' => s'.schedule = s.schedule)
    fun _ s' => s'.schedule = s.schedule

namespace Store

theorem Performs.abides {action : StoreM PUnit} {c : Call} {change : Tree → Result Tree}
    (performs : Performs action c change) : Abides action := by
  intro s
  refine (performs s).mono ?_ ?_
  · rintro _ s' ⟨u, _, rfl⟩
    rfl
  · rintro f s' ⟨rfl, _⟩
    rfl

theorem write_abides (p : Path) (bytes : Bytes) : Abides (Store.write p bytes) := by
  intro s
  refine (write_call s p bytes).mono ?_ ?_
  · intro _ s' puts
    cases puts with
    | written _ same => rw [same, next]
    | altered _ _ same => rw [same, next]
    | dropped _ same => rw [same, next]
  · rintro f s' ⟨rfl, _⟩
    rfl

theorem read_abides (p : Path) : Abides (Store.read p) := by
  intro s
  refine (read_call s p).mono ?_ ?_
  · rintro bytes s' ⟨_, rfl⟩
    rfl
  · rintro f s' ⟨rfl, _⟩
    rfl

theorem makeDirs_abides (p : Path) : Abides (Store.makeDirs p) := by
  intro s
  refine (makeDirs_call s p).mono ?_ ?_
  · rintro made s' ⟨u, _, _, rfl⟩
    rfl
  · rintro f s' (⟨rfl, _⟩ | ⟨u, _, rfl⟩) <;> rfl

theorem exists_abides (p : Path) : Abides (Store.exists p) := by
  intro s
  refine (exists_call s p).mono ?_ ?_
  · rintro answer s' ⟨_, _, _, rfl⟩
    rfl
  · rintro f s' ⟨rfl, _⟩
    rfl

theorem isFile_abides (p : Path) : Abides (Store.isFile p) := by
  intro s
  refine (isFile_call s p).mono ?_ ?_
  · rintro answer s' ⟨_, _, _, rfl⟩
    rfl
  · rintro f s' ⟨rfl, _⟩
    rfl

theorem checkFile_abides (mode : DelimiterMode) (codec : Codec) (p : Path) : Abides (checkFile mode codec p) :=
  fun s => (checkFile_quiet s mode codec p).mono (fun _ _ quiet => quiet.schedule) fun _ _ quiet => quiet.schedule

theorem choose_abides (dir source : Path) (m : Moment) : Abides (Backup.choose dir source m) :=
  fun s => (Backup.choose_call s dir source m).mono (fun _ _ chosen => chosen.2.schedule) fun _ _ bad => bad.1.schedule

end Store

structure Steady (a b : Attempt) : Prop where
  written : b.progress.written = a.progress.written
  schedule : b.store.schedule = a.store.schedule

namespace Steady

variable {a b c : Attempt}

theorem refl (a : Attempt) : Steady a a := ⟨rfl, rfl⟩

theorem trans (first : Steady a b) (second : Steady b c) : Steady a c :=
  ⟨second.written.trans first.written, second.schedule.trans first.schedule⟩

theorem errors (steady : Steady a b) (errors : a.store.OnlyErrors) : b.store.OnlyErrors := by
  intro calls trouble planned
  rw [steady.schedule] at planned
  exact errors calls trouble planned

theorem call {α : Type} (steady : Steady a b) {action : StoreM α} (abides : Store.Abides action) :
    After (AttemptM.onStore action) b (fun _ => Steady a) fun _ => Steady a :=
  .onStore ((abides b.store).mono (fun _ _ same => ⟨steady.written, same.trans steady.schedule⟩)
    fun _ _ same => ⟨steady.written, same.trans steady.schedule⟩)

end Steady

namespace Transaction

open AttemptM

variable {t : Transaction} {a b : Attempt}

theorem prepare_steady (p : Path) (a : Attempt) : After (prepare p) a (fun _ => Steady a) fun _ => Steady a := by
  refine .bind (((Steady.refl a).call (makeDirs_abides p.parent)).mono ?_ fun _ _ bad => bad)
  intro made b steady
  have noted : Steady a {b with progress := {b.progress with createdDirs := b.progress.createdDirs ++ made}} :=
    ⟨steady.written, steady.schedule⟩
  refine .bind (.update (.bind ((noted.call (exists_abides p)).mono ?_ fun _ _ bad => bad)))
  intro answer c steady
  cases answer with
  | false =>
    rw [if_neg Bool.false_ne_true]
    exact .update ⟨steady.written, steady.schedule⟩
  | true =>
    refine .bind ((steady.call (read_abides p)).mono ?_ fun _ _ bad => bad)
    intro bytes d steady
    exact .update ⟨steady.written, steady.schedule⟩

theorem writeFile_steady (t : Transaction) (f : OutputFile) (a : Attempt) :
    After (t.writeFile f) a (fun _ => Steady a) fun _ => Steady a := by
  unfold writeFile
  dsimp only
  cases t.encode f.text with
  | error failure =>
    split
    · exact .bind (prepare_steady f.path a)
    · exact .refl a
  | ok bytes =>
    split
    · exact .bind ((prepare_steady f.path a).mono (fun _ b steady => steady.call (write_abides f.path bytes)) fun _ _ bad => bad)
    · exact (Steady.refl a).call (write_abides f.path bytes)

-- The induction is on the files still to be written.
theorem writeFiles_schedule (t : Transaction) (files : List OutputFile) (a : Attempt) :
    After (t.writeFiles files) a (fun _ b => b.store.schedule = a.store.schedule)
      fun _ b => b.store.schedule = a.store.schedule := by
  induction files generalizing a with
  | nil => exact rfl
  | cons f rest ih =>
    refine .bind (.named_always ((writeFile_steady t f a).mono ?_ fun _ _ bad => bad.schedule))
    intro _ b steady
    exact .bind (.update ((ih _).mono (fun _ _ same => same.trans steady.schedule) fun _ _ same => same.trans steady.schedule))

theorem write_schedule (t : Transaction) (a : Attempt) : After t.write a (fun _ b => b.store.schedule = a.store.schedule)
      fun _ b => b.store.schedule = a.store.schedule := by
  refine .bind ((writeFiles_schedule t t.files a).mono ?_ fun _ _ same => same)
  intro _ b same
  exact .bind (.update (.bind (.progress same)))

theorem verifyFiles_steady (t : Transaction) (paths : List Path) (a : Attempt) :
    After (t.verifyFiles paths) a (fun _ => Steady a) fun _ => Steady a := by
  induction paths generalizing a with
  | nil => exact .refl a
  | cons p rest ih =>
    refine .bind (((Steady.refl a).call (checkFile_abides t.mode t.codec p)).mono ?_ fun _ _ bad => bad)
    intro fault b steady
    cases fault with
    | some fault => exact steady
    | none => exact (ih b).mono (fun _ _ more => steady.trans more) fun _ _ more => steady.trans more

theorem verify_steady (t : Transaction) (a : Attempt) : After t.verify a (fun _ => Steady a) fun _ => Steady a := by
  refine .bind (.progress (.bind ((verifyFiles_steady t _ a).mono ?_ fun _ _ bad => bad)))
  intro _ b steady
  exact .update ⟨steady.written, steady.schedule⟩

theorem saveSource_steady (t : Transaction) (m : Moment) (a : Attempt) :
    After (t.saveSource m) a (fun _ => Steady a) fun _ => Steady a := by
  refine .bind (((Steady.refl a).call (makeDirs_abides t.backupDir)).mono ?_ fun _ _ bad => bad)
  intro made b steady
  refine .bind ((steady.call (choose_abides t.backupDir t.source m)).mono ?_ fun _ _ bad => bad)
  intro target c steady
  refine .bind ((steady.call (copy_performs t.source target).abides).mono ?_ fun _ _ bad => bad)
  intro _ d steady
  exact steady

theorem backup_steady (t : Transaction) (m : Moment) (a : Attempt) :
    After (t.backup m) a (fun _ => Steady a) fun _ => Steady a := by
  refine .bind (((Steady.refl a).call (isFile_abides t.source)).mono ?_ fun _ _ bad => bad)
  intro answer b steady
  cases answer with
  | false => exact steady
  | true =>
    refine .bind (.named_always ((saveSource_steady t m b).mono ?_ fun _ _ more => steady.trans more))
    intro target c more
    have whole := steady.trans more
    exact .bind (.update ⟨whole.written, whole.schedule⟩)

end Transaction

end ModuleSplit
