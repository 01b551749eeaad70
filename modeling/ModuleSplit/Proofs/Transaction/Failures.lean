import ModuleSplit.Proofs.Transaction.Commit

namespace ModuleSplit

open List Store ModuleSplit.Tree

-- Refusing to decode is a failure of decoding, unless nothing can be encoded either.
def Codec.Regular (c : Codec) : Prop :=
  ∀ bytes f, c.decode bytes = .error f → (∃ d, f = .decode d) ∨ ∀ text, c.encode text = .error f

theorem Codec.ofValue_regular (v : Value) : (Codec.ofValue v).Regular := by
  have encoding : ∀ e, (Codec.ofEncoding e).Regular := by
    intro e bytes f refused
    cases decoded : e.decode bytes with
    | ok text => simp [Codec.ofEncoding, decoded, Except.mapError] at refused
    | error d =>
      refine .inl ⟨d, ?_⟩
      simpa [Codec.ofEncoding, decoded, Except.mapError] using refused.symm
  have refusing : ∀ (f : Failure) (c : Codec), (∀ bytes, c.decode bytes = .error f) →
      (∀ text, c.encode text = .error f) → c.Regular := by
    intro f c decodes encodes bytes g refused
    rw [decodes] at refused
    cases refused
    exact .inr encodes
  unfold Codec.ofValue
  split
  · split
    · exact encoding _
    · exact refusing _ _ (fun _ => rfl) fun _ => rfl
  · exact refusing .wrongType _ (fun _ => rfl) fun _ => rfl
  · exact refusing .wrongType _ (fun _ => rfl) fun _ => rfl

theorem After.renamed {α : Type} {a : Attempt} {done : α → Attempt → Prop}
    {failed : Failure → Attempt → Prop} {action : AttemptM α} {name : Text → Failure} (after : After action a done fun f a =>
      (∃ e, f = .os e ∧ failed (name e.message) a) ∨ (∀ e, f ≠ .os e) ∧ failed f a) :
    After (AttemptM.named name action) a done failed := by
  refine .recover (after.mono (fun _ _ good => good) ?_)
  rintro f a (⟨e, rfl, bad⟩ | ⟨other, bad⟩)
  · exact bad
  · cases f with
    | os e => exact absurd rfl (other e)
    | _ => exact bad

namespace Store

variable {s : Store} {p q : Path}

-- Calls have been made since, and the schedule still refuses calls and does nothing else.
structure Onward (s s' : Store) : Prop where
  errors : s'.OnlyErrors
  calls : s.calls <:+ s'.calls

def Declines (s : Store) (f : Failure) (s' : Store) : Prop := s.Onward s' ∧ ∃ e, f = .os e

theorem OnlyErrors.onward (errors : s.OnlyErrors) (c : Call) (t : Tree) : s.Onward (s.next c t) :=
  ⟨errors, suffix_cons _ _⟩

theorem declines_next (errors : s.OnlyErrors) {s' : Store} {c : Call} {f : Failure} {cause : Prop}
    (same : s' = s.next c s.tree) (reason : s'.Refused f ∨ cause) (os : cause → ∃ e, f = .os e) : s.Declines f s' := by
  subst same
  rcases reason with ⟨words, _, rfl⟩ | wrong
  · exact ⟨errors.onward _ _, _, rfl⟩
  · exact ⟨errors.onward _ _, os wrong⟩

theorem exists_declines (errors : s.OnlyErrors) (p : Path) : After (Store.exists p) s (fun _ => s.Onward) s.Declines := by
  refine (exists_call s p).mono ?_ ?_
  · rintro answer s' ⟨_, _, _, rfl⟩
    exact errors.onward _ _
  · rintro f s' ⟨same, stopped | failed⟩
    · exact declines_next errors same (.inl (stopped.refused (by rw [same]; exact errors.calm _))) id
    · exact declines_next errors same (.inr failed) ask_os

theorem read_declines (errors : s.OnlyErrors) (free : p.NullFree) :
    After (Store.read p) s (fun _ => s.Onward) s.Declines := by
  refine (read_after p (errors.calm _)).mono ?_ ?_
  · rintro bytes s' ⟨_, rfl⟩
    exact errors.onward _ _
  · rintro f s' ⟨same, reason⟩
    exact declines_next errors same reason (read_refused free)

theorem change_declines (errors : s.OnlyErrors) {action : StoreM PUnit} {c : Call} {change : Result Tree}
    (call : After action s (fun _ s' => ∃ u, change = .ok u ∧ s' = s.next c u)
      fun f s' => s' = s.next c s.tree ∧ (s'.Refused f ∨ change = .error f))
    (os : ∀ f, change = .error f → ∃ e, f = .os e) : After action s (fun _ => s.Onward) s.Declines := by
  refine call.mono ?_ ?_
  · rintro _ s' ⟨u, _, rfl⟩
    exact errors.onward _ _
  · rintro f s' ⟨same, reason⟩
    exact declines_next errors same reason (os f)

theorem remove_declines (errors : s.OnlyErrors) (free : p.NullFree) :
    After (Store.remove p) s (fun _ => s.Onward) s.Declines :=
  change_declines errors (remove_after p (errors.calm _)) fun _ => remove_refused free

theorem removeDir_declines (errors : s.OnlyErrors) (free : p.NullFree) :
    After (Store.removeDir p) s (fun _ => s.Onward) s.Declines :=
  change_declines errors (removeDir_after p (errors.calm _)) fun _ => removeDirectory_refused free

theorem copy_declines (errors : s.OnlyErrors) (source : p.NullFree) (destination : q.NullFree) :
    After (Store.copy p q) s (fun _ => s.Onward) s.Declines :=
  change_declines errors (copy_after p q (errors.calm _)) fun _ => copy_refused source destination

theorem write_declines (errors : s.OnlyErrors) (free : p.NullFree) (bytes : Bytes) :
    After (Store.write p bytes) s (fun _ s' => s.Onward s' ∧ p.Storable ∧ ⟨.writeBytes, p⟩ ∈ s'.calls) s.Declines := by
  have accepted := Path.accept_ok.mpr free
  refine (write_after p bytes (errors _)).mono ?_ ?_
  · rintro _ s' ⟨u, written, rfl⟩
    rcases write_parts accepted s.tree bytes with ⟨e, refused⟩ | ⟨_, located, _⟩
    · rw [refused] at written
      cases written
    · exact ⟨errors.onward _ _, storable_of_located accepted located, mem_cons_self⟩
  · rintro f s' ⟨same, reason⟩
    exact declines_next errors same reason (write_refused free)

theorem makeDirs_declines (errors : s.OnlyErrors) (free : p.NullFree) :
    After (Store.makeDirs p) s (fun made s' => s.Onward s' ∧ ∀ d ∈ made, d.NullFree) s.Declines := by
  refine (makeDirs_after p (errors.calm _)).mono ?_ ?_
  · rintro made s' ⟨u, listed, _, rfl⟩
    exact ⟨errors.onward _ _, missing_nullFree free listed⟩
  · rintro f s' (⟨same, reason⟩ | ⟨u, refused, rfl⟩)
    · exact declines_next errors same reason missing_os
    · exact ⟨errors.onward _ _, makeDirectories_refused free (by rw [refused])⟩

end Store

-- An attempt that has noted no path with the null character, and has written only where it could
-- look afterwards.
structure Tidy (a : Attempt) : Prop where
  errors : a.store.OnlyErrors
  created : ∀ p ∈ a.progress.createdFiles, p.NullFree
  dirs : ∀ p ∈ a.progress.createdDirs, p.NullFree
  previous : ∀ e ∈ a.progress.previous, e.1.NullFree
  backup : ∀ b ∈ a.progress.backup, b.path.NullFree
  written : ∀ p ∈ a.progress.written, p.Storable ∧ ⟨.writeBytes, p⟩ ∈ a.store.calls

def Hindered (f : Failure) (a : Attempt) : Prop := Tidy a ∧ ∃ e, f = .os e

namespace Tidy

variable {a : Attempt} {α : Type}

theorem withStore (tidy : Tidy a) {s : Store} (onward : a.store.Onward s) : Tidy {a with store := s} :=
  ⟨onward.errors, tidy.created, tidy.dirs, tidy.previous, tidy.backup,
    fun p member => ⟨(tidy.written p member).1, onward.calls.subset (tidy.written p member).2⟩⟩

theorem call (tidy : Tidy a) {action : StoreM α} {q : α → Store → Prop}
    (after : After action a.store (fun v s => a.store.Onward s ∧ q v s) a.store.Declines) : After (AttemptM.onStore action) a
      (fun v b => Tidy b ∧ b.progress = a.progress ∧ q v b.store) Hindered := by
  refine .onStore (after.mono ?_ ?_)
  · rintro v s ⟨onward, holds⟩
    exact ⟨tidy.withStore onward, rfl, holds⟩
  · rintro f s ⟨onward, os⟩
    exact ⟨tidy.withStore onward, os⟩

theorem plainCall (tidy : Tidy a) {action : StoreM α}
    (after : After action a.store (fun _ => a.store.Onward) a.store.Declines) :
    After (AttemptM.onStore action) a (fun _ b => Tidy b ∧ b.progress = a.progress) Hindered := by
  refine (tidy.call (q := fun _ _ => True) (after.mono ?_ fun _ _ bad => bad)).mono ?_ ?_
  · exact fun _ _ onward => ⟨onward, trivial⟩
  · exact fun _ _ ⟨tidy, same, _⟩ => ⟨tidy, same⟩
  · exact fun _ _ bad => bad

end Tidy

namespace Transaction

open AttemptM

variable {t : Transaction} {a : Attempt} {paths : List Path}

theorem prepare_tidy (tidy : Tidy a) {p : Path} (free : p.NullFree) : After (prepare p) a (fun _ b => Tidy b) Hindered := by
  refine .bind ((tidy.call (makeDirs_declines tidy.errors free.parent)).mono ?_ fun _ _ bad => bad)
  rintro made b ⟨tidy, _, plain⟩
  refine .bind (.update ?_)
  have noted : Tidy {b with progress := {b.progress with
      createdDirs := b.progress.createdDirs ++ made}} :=
    ⟨tidy.errors, tidy.created, forall_mem_append.mpr ⟨tidy.dirs, plain⟩, tidy.previous, tidy.backup, tidy.written⟩
  generalize {b with progress := {b.progress with
    createdDirs := b.progress.createdDirs ++ made}} = c at noted ⊢
  refine .bind ((noted.plainCall (exists_declines noted.errors p)).mono ?_ fun _ _ bad => bad)
  rintro answer c ⟨tidy, _⟩
  cases answer with
  | true =>
    refine .bind ((tidy.plainCall (read_declines tidy.errors free)).mono ?_ fun _ _ bad => bad)
    rintro bytes c ⟨tidy, _⟩
    refine .update ⟨tidy.errors, tidy.created, tidy.dirs, ?_, tidy.backup, tidy.written⟩
    intro e member
    rcases mem_putContent member with earlier | rfl
    · exact tidy.previous e earlier
    · exact free
  | false =>
    have created := forall_mem_append.mpr ⟨tidy.created, forall_mem_singleton.mpr free⟩
    rw [if_neg Bool.false_ne_true]
    exact .update ⟨tidy.errors, created, tidy.dirs, tidy.previous, tidy.backup, tidy.written⟩

theorem writeFile_tidy (tidy : Tidy a) {f : OutputFile} (free : f.path.NullFree) :
    After (t.writeFile f) a (fun _ b => Tidy b ∧ f.path.Storable ∧ ⟨.writeBytes, f.path⟩ ∈ b.store.calls)
      fun failure b => Hindered failure b ∨ (Tidy b ∧ t.encode f.text = .error failure) := by
  unfold writeFile
  dsimp only
  cases encoded : t.encode f.text with
  | error failure =>
    split
    · exact .bind ((prepare_tidy tidy free).mono (fun _ _ tidy => .inr ⟨tidy, rfl⟩) fun _ _ bad => .inl bad)
    · exact .inr ⟨tidy, rfl⟩
  | ok bytes =>
    have put : ∀ b, Tidy b → After (onStore (Store.write f.path bytes)) b
        (fun _ b => Tidy b ∧ f.path.Storable ∧ ⟨.writeBytes, f.path⟩ ∈ b.store.calls)
        fun failure b => Hindered failure b ∨ (Tidy b ∧ (.ok bytes : Result Bytes) = .error failure) := by
      intro b tidy
      refine (tidy.call (write_declines tidy.errors free bytes)).mono ?_ fun _ _ bad => .inl bad
      rintro _ b ⟨tidy, _, put⟩
      exact ⟨tidy, put⟩
    split
    · exact .bind ((prepare_tidy tidy free).mono (fun _ b tidy => put b tidy) fun _ _ bad => .inl bad)
    · exact put a tidy

-- Writing stops where storage refuses, and that is a failure to write, or where a text cannot be
-- encoded.
theorem writeFiles_tidy (tidy : Tidy a) {files : List OutputFile}
    (listed : ∀ f ∈ files, f ∈ t.files) (free : ∀ f ∈ files, f.path.NullFree) : After (t.writeFiles files) a (fun _ b => Tidy b)
      fun failure b => Tidy b ∧ ((∃ p reason, failure = .write p reason) ∨ ∃ f ∈ t.files, t.encode f.text = .error failure) := by
  induction files generalizing a with
  | nil => exact tidy
  | cons f rest ih =>
    rw [forall_mem_cons] at listed free
    refine .bind (.renamed ((writeFile_tidy tidy free.1).mono ?_ ?_))
    · rintro _ b ⟨tidy, put⟩
      refine .bind (.update (ih ⟨tidy.errors, tidy.created, tidy.dirs, tidy.previous, tidy.backup,
        forall_mem_append.mpr ⟨tidy.written, forall_mem_singleton.mpr put⟩⟩
        listed.2 free.2))
    · rintro failure b (⟨tidy, e, rfl⟩ | ⟨tidy, refused⟩)
      · exact .inl ⟨e, rfl, tidy, .inl ⟨f.path, e.message, rfl⟩⟩
      · by_cases os : ∃ e, failure = .os e
        · obtain ⟨e, rfl⟩ := os
          exact .inl ⟨e, rfl, tidy, .inl ⟨f.path, e.message, rfl⟩⟩
        · exact .inr ⟨fun e same => os ⟨e, same⟩, tidy, .inr ⟨f, listed.1, refused⟩⟩

-- Storage would not say whether a file that has just been written is there.
def Unanswered (f : Failure) (s : Store) : Prop :=
  ∃ p, s.StoppedAt ⟨.isFile, p⟩ f ∧ ⟨.writeBytes, p⟩ ∈ s.calls

theorem verifyFiles_tidy (tidy : Tidy a) (regular : t.codec.Regular)
    (written : ∀ p ∈ paths, p ∈ a.progress.written) : After (t.verifyFiles paths) a (fun _ b => Tidy b)
      fun failure b => Tidy b ∧ ((∃ p reason, failure = .verification p reason) ∨
        (∀ text, t.encode text = .error failure) ∨ ((∃ e, failure = .os e) ∧ Unanswered failure b.store)) := by
  induction paths generalizing a with
  | nil => exact tidy
  | cons p rest ih =>
    rw [forall_mem_cons] at written
    obtain ⟨storable, called⟩ := tidy.written p written.1
    obtain ⟨found, asked⟩ := ask_storable (t := a.store.tree) storable
    have checked := checkFile_after tidy.errors.calm t.mode t.codec asked
    have still : ∀ s : Store, a.store.Quiet s → Tidy {a with store := s} :=
      fun s quiet => tidy.withStore ⟨quiet.onlyErrors tidy.errors, quiet.suffix⟩
    refine .bind (.onStore (checked.mono ?_ ?_))
    · rintro fault s ⟨quiet, _⟩
      cases fault with
      | some fault => exact ⟨still s quiet, .inl ⟨p, fault.message, rfl⟩⟩
      | none => exact ih (still s quiet) written.2
    · rintro failure s ⟨quiet, ⟨rfl, refused⟩ | ⟨bytes, _, refused, other⟩⟩
      · exact ⟨still _ quiet, .inr (.inr ⟨os_of_refused refused, p, ⟨rfl, .inl refused⟩, mem_cons_of_mem _ called⟩)⟩
      · rcases regular bytes failure refused with ⟨d, decode⟩ | nothing
        · exact absurd decode (other d)
        · exact ⟨still s quiet, .inr (.inl fun text => nothing _)⟩

theorem removeFiles_tidy (tidy : Tidy a) (free : ∀ p ∈ paths, p.NullFree) :
    After (t.removeFiles paths) a (fun _ b => Tidy b ∧ b.progress = a.progress) Hindered := by
  induction paths generalizing a with
  | nil => exact ⟨tidy, rfl⟩
  | cons p rest ih =>
    rw [forall_mem_cons] at free
    have onward : ∀ b, Tidy b → b.progress = a.progress →
        After (t.removeFiles rest) b (fun _ b => Tidy b ∧ b.progress = a.progress) Hindered := by
      intro b tidy same
      have further := ih tidy free.2
      rwa [same] at further
    unfold removeFiles
    dsimp only
    split
    · refine .bind ((tidy.plainCall (exists_declines tidy.errors p)).mono ?_ fun _ _ bad => bad)
      rintro answer b ⟨tidy, same⟩
      cases answer with
      | true =>
        refine .bind ((tidy.plainCall (remove_declines tidy.errors free.1)).mono ?_ fun _ _ bad => bad)
        rintro _ c ⟨tidy, still⟩
        exact onward c tidy (still.trans same)
      | false => exact onward b tidy same
    · exact onward a tidy rfl

theorem restoreFiles_tidy (tidy : Tidy a) {contents : List (Path × Bytes)} (free : ∀ e ∈ contents, e.1.NullFree) :
    After (restoreFiles contents) a (fun _ b => Tidy b ∧ b.progress = a.progress) Hindered := by
  induction contents generalizing a with
  | nil => exact ⟨tidy, rfl⟩
  | cons e rest ih =>
    rw [forall_mem_cons] at free
    refine .bind ((tidy.call (write_declines tidy.errors free.1 e.2)).mono ?_ fun _ _ bad => bad)
    rintro _ b ⟨tidy, same, _⟩
    have further := ih tidy free.2
    rwa [same] at further

theorem removeDirs_tidy (tidy : Tidy a) (free : ∀ p ∈ paths, p.NullFree) :
    After (removeDirs paths) a (fun _ b => Tidy b ∧ b.progress = a.progress) Hindered := by
  induction paths generalizing a with
  | nil => exact ⟨tidy, rfl⟩
  | cons p rest ih =>
    rw [forall_mem_cons] at free
    have onward : ∀ b, Tidy b → b.progress = a.progress →
        After (removeDirs rest) b (fun _ b => Tidy b ∧ b.progress = a.progress) Hindered := by
      intro b tidy same
      have further := ih tidy free.2
      rwa [same] at further
    refine .bind ((tidy.plainCall (exists_declines tidy.errors p)).mono ?_ fun _ _ bad => bad)
    rintro answer b ⟨tidy, same⟩
    cases answer with
    | true =>
      refine .bind ((tidy.plainCall (removeDir_declines tidy.errors free.1)).mono ?_ fun _ _ bad => bad)
      rintro _ c ⟨tidy, still⟩
      exact onward c tidy (still.trans same)
    | false => exact onward b tidy same

theorem undo_tidy (tidy : Tidy a) (source : t.source.NullFree) : After t.undo a (fun _ b => Tidy b) Hindered := by
  refine .bind (.progress ?_)
  refine .bind ((removeFiles_tidy tidy fun p member => tidy.created p (mem_reverse.mp member)).mono ?_ fun _ _ bad => bad)
  rintro _ b ⟨cleared, same⟩
  refine .bind ((restoreFiles_tidy cleared tidy.previous).mono ?_ fun _ _ bad => bad)
  rintro _ c ⟨restored, still⟩
  refine .bind ((removeDirs_tidy restored fun p member => tidy.dirs p (mem_reverse.mp member)).mono ?_ fun _ _ bad => bad)
  rintro _ d ⟨emptied, _⟩
  cases kept : a.progress.backup with
  | none => exact emptied
  | some record =>
    refine (emptied.plainCall (copy_declines emptied.errors (tidy.backup record kept) source)).mono ?_ fun _ _ bad => bad
    exact fun _ _ ⟨tidy, _⟩ => tidy

def Unrecovered (f : Failure) : Prop :=
  ∃ source kept reason cause, f = .rollback source kept reason cause

theorem failed_tidy (tidy : Tidy a) (source : t.source.NullFree) (setback : Setback) (f : Failure) :
    After (t.failed setback f) a (fun _ _ => True) fun g _ => Unrecovered g := by
  refine .bind (.bind (.progress (.bind (.named ((undo_tidy tidy source).mono ?_ ?_)))))
  · intro _ b _
    exact .update trivial
  · rintro g b ⟨_, e, rfl⟩
    exact ⟨e, rfl, _, _, _, _, rfl⟩

def Unencodable (t : Transaction) (f : Failure) : Prop :=
  ∃ file ∈ t.files, t.encode file.text = .error f

theorem commit_tidy (tidy : Tidy a) (source : t.source.NullFree)
    (free : ∀ f ∈ t.files, f.path.NullFree) (nonempty : t.files ≠ []) (regular : t.codec.Regular) :
    After t.commit a (fun _ _ => True) fun f b => Unrecovered f ∨ t.Unencodable f ∨ Unanswered f b.store := by
  -- Failures to write and to verify are undone; what cannot be encoded passes, and so does a
  -- question that is not answered.
  have undone : ∀ setback f b, Tidy b → After (t.failed setback f) b (fun _ _ => True)
      fun f b => Unrecovered f ∨ t.Unencodable f ∨ Unanswered f b.store :=
    fun setback f b tidy => (failed_tidy tidy source setback f).mono (fun _ _ good => good) fun _ _ bad => .inl bad
  refine .recover (.bind (.bind ((writeFiles_tidy tidy (fun f member => member) free).mono ?_ ?_)))
  · intro _ b tidy
    refine .bind (.update ?_)
    show After (t.verify >>= fun _ => succeeded) {b with progress := _} _ _
    have written : Tidy {b with progress := {b.progress with phase := .written}} :=
      ⟨tidy.errors, tidy.created, tidy.dirs, tidy.previous, tidy.backup, tidy.written⟩
    refine .bind (.bind (.progress (.bind ((verifyFiles_tidy written regular fun p member => member).mono ?_ ?_))))
    · intro _ c tidy
      exact .update trivial
    · rintro f c ⟨tidy, ⟨p, reason, rfl⟩ | nothing | ⟨⟨e, rfl⟩, unanswered⟩⟩
      · exact undone .verification _ c tidy
      · obtain ⟨file, member⟩ := exists_mem_of_ne_nil _ nonempty
        split
        · exact undone .write _ c tidy
        · exact undone .verification _ c tidy
        · exact .inr (.inl ⟨file, member, nothing _⟩)
      · exact .inr (.inr unanswered)
  · rintro f b ⟨tidy, ⟨p, reason, rfl⟩ | refused⟩
    · exact undone .write _ b tidy
    · split
      · exact undone .write _ b tidy
      · exact undone .verification _ b tidy
      · exact .inr (.inl refused)

theorem saveSource_grows (rooted : a.store.tree.Rooted) (home : a.store.tree.get? a.store.tree.workingDirectory = some .directory)
    (errors : a.store.OnlyErrors) (m : Moment) : After (t.saveSource m) a
      (fun saved b => b.progress = a.progress ∧ b.store.OnlyErrors ∧ saved.NullFree)
      fun _ b => a.store.tree.Grows b.store.tree (a.store.tree.OnTheWay t.backupDir) := by
  have grows := makeDirectories_change rooted home t.backupDir
  refine .bind (.onStore ((makeDirs_after t.backupDir (errors.calm _)).mono ?_ ?_))
  · rintro made s ⟨u, _, accepted, rfl⟩
    rw [accepted] at grows
    refine .bind (.onStore ((Backup.choose_call _ t.backupDir t.source m).mono ?_ ?_))
    · rintro saved s ⟨_, quiet⟩
      have tree : s.tree = u := quiet.tree
      have still : s.OnlyErrors := quiet.onlyErrors errors
      refine .bind (.onStore ((copy_after t.source saved (still.calm _)).mono ?_ ?_))
      · rintro _ s' ⟨v, copied, rfl⟩
        exact ⟨rfl, still, copy_nullFree copied⟩
      · rintro f s' ⟨rfl, _⟩
        rw [← tree] at grows
        exact grows
    · rintro f s ⟨quiet, _⟩
      have tree : s.tree = u := quiet.tree
      rw [← tree] at grows
      exact grows
  · rintro f s (⟨rfl, _⟩ | ⟨u, refused, rfl⟩)
    · exact .refl rooted
    · rw [refused] at grows
      exact grows

theorem backup_grows (rooted : a.store.tree.Rooted) (home : a.store.tree.get? a.store.tree.workingDirectory = some .directory)
    (errors : a.store.OnlyErrors) (m : Moment) : After (t.backup m) a
      (fun record b => b.progress = {a.progress with backup := some record, phase := .backedUp} ∧
        b.store.OnlyErrors ∧ record.path.NullFree)
      fun _ b => a.store.tree.Grows b.store.tree (a.store.tree.OnTheWay t.backupDir) := by
  have save : ∀ a : Attempt, a.store.tree.Rooted →
      a.store.tree.get? a.store.tree.workingDirectory = some .directory → a.store.OnlyErrors →
      After (named (.backup t.source) (t.saveSource m)) a
        (fun saved b => b.progress = a.progress ∧ b.store.OnlyErrors ∧ saved.NullFree)
        fun _ b => a.store.tree.Grows b.store.tree (a.store.tree.OnTheWay t.backupDir) := by
    intro a rooted home errors
    refine .renamed ((saveSource_grows rooted home errors m).mono (fun _ _ good => good) ?_)
    intro f b grows
    by_cases os : ∃ e, f = .os e
    · obtain ⟨e, rfl⟩ := os
      exact .inl ⟨e, rfl, grows⟩
    · exact .inr ⟨fun e same => os ⟨e, same⟩, grows⟩
  refine .bind (.onStore ((isFile_call a.store t.source).mono ?_ ?_))
  · rintro found s ⟨_, _, _, rfl⟩
    cases found with
    | false => exact .refl rooted
    | true =>
      refine .bind ((save ⟨_, a.store.next ⟨.isFile, t.source⟩ a.store.tree⟩ rooted home errors).mono ?_ fun _ _ bad => bad)
      rintro saved c ⟨progress, errors, free⟩
      refine .bind (.update ?_)
      exact ⟨by rw [progress], errors, free⟩
  · rintro f s ⟨rfl, _⟩
    exact .refl rooted

-- A transaction that ends with a failure has made directories at most, or it could not be undone,
-- or one of its texts could not be encoded, or it was not told whether a file is there that it had
-- written.
theorem run_failure {store : Store} (rooted : store.tree.Rooted)
    (home : store.tree.get? store.tree.workingDirectory = some .directory)
    (errors : store.OnlyErrors) (source : t.source.NullFree)
    (free : ∀ f ∈ t.files, f.path.NullFree) (regular : t.codec.Regular) (m : Moment) :
    After (t.run m) {store := store} (fun _ _ => True) fun f a =>
      store.tree.Grows a.store.tree (store.tree.OnTheWay t.backupDir) ∨ Unrecovered f ∨ t.Unencodable f ∨
        Unanswered f a.store := by
  unfold run
  cases files : t.files.isEmpty with
  | true => exact .bind (.progress trivial)
  | false =>
    have nonempty : t.files ≠ [] := by
      intro none
      rw [none] at files
      cases files
    refine .bind ((preflight_quiet t {store := store}).mono ?_ ?_)
    · intro reason a quiet
      have tree : a.store.tree = store.tree := quiet.store.tree
      have errors : a.store.OnlyErrors := quiet.store.onlyErrors errors
      cases reason with
      | some reason => exact .bind (.progress trivial)
      | none =>
        rw [← tree] at rooted home ⊢
        refine .bind ((backup_grows rooted home errors m).mono ?_ fun _ _ grows => .inl grows)
        rintro record b ⟨progress, errors, kept⟩
        rw [quiet.progress] at progress
        have tidy : Tidy b := by
          refine ⟨errors, ?_, ?_, ?_, ?_, ?_⟩ <;> rw [progress]
          · simp
          · simp
          · simp
          · simpa using kept
          · simp
        exact (commit_tidy tidy source free nonempty regular).mono (fun _ _ good => good) fun _ _ bad => .inr bad
    · intro f a quiet
      rw [quiet.store.tree]
      exact .inl (.refl rooted)

end Transaction

end ModuleSplit
