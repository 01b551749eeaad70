import ModuleSplit.Proofs.Transaction.Backup
import ModuleSplit.Proofs.Transaction.Commit

namespace ModuleSplit

open ModuleSplit.Tree

namespace Transaction

variable {t : Transaction} {before now : Tree} {original : Bytes} {a : Attempt} {record : Backup}

def Inside (t : Transaction) (tree : Tree) (l : Location) : Prop :=
  tree.place t.backupDir <+: l ∧ l ≠ tree.place t.backupDir

-- What a transaction and a tree must fulfil. The paths of the file set lead to different places,
-- and `..` leads out of directories only; a longer path or name than storage takes is left out, and
-- so is the null character.
structure Sound (t : Transaction) (tree : Tree) (original : Bytes) : Prop where
  rooted : tree.Rooted
  home : tree.get? tree.workingDirectory = some .directory
  source : tree.ask t.source = .ok (some (.file original))
  last : ∃ others text, t.files = others ++ [⟨t.source, text⟩]
  decodes : ∀ bytes f, t.codec.decode bytes = .error f → ∃ d, f = .decode d
  encodable : ∀ f ∈ t.files, ∃ bytes, t.encode f.text = .ok bytes
  distinct : (t.files.map fun f => tree.place f.path).Nodup
  outside : ∀ f ∈ t.files, ¬t.Inside tree (tree.place f.path)
  storable : ∀ f ∈ t.files, f.path.Storable
  anchored : ∀ f ∈ t.files, tree.Anchored f.path
  sourceName : '/' ∉ t.source.name
  backupDir : t.backupDir.parts.any (·.contains '\x00') = false

-- Outside the backup directory everything is as before, but for directories that were missing on
-- the way to it.
def Unchanged (t : Transaction) (before now : Tree) : Prop :=
  ∀ l, ¬t.Inside before l → now.get? l = before.get? l ∨
    (before.get? l = none ∧ now.get? l = some .directory ∧ before.OnTheWay t.backupDir l)

structure Kept (t : Transaction) (before : Tree) (original : Bytes) (saved : Path) (now : Tree) :
    Prop where
  inside : t.Inside before (before.place saved)
  copy : now.find saved = .ok (.file original)

inductive Ending (t : Transaction) (before : Tree) (original : Bytes) :
    EStateM.Result Failure Attempt Outcome → Prop where
  | backup {reason : Text} {a : Attempt} (unchanged : t.Unchanged before a.store.tree) :
      Ending t before original (.error (.backup t.source reason) a)
  | success {o : Outcome} {a : Attempt} {record : Backup} (error : o.error = none)
      (written : o.written = t.files.map (·.path)) (recorded : o.backup = some record)
      (source : record.source = t.source) (kept : t.Kept before original record.path a.store.tree)
      (contents : ∀ f ∈ t.files, ∃ bytes, t.encode f.text = .ok bytes ∧
        a.store.tree.find f.path = .ok (.file bytes))
      (frame : ∀ l, ¬t.Inside before l → (∀ f ∈ t.files, l ≠ before.place f.path) →
        a.store.tree.get? l = before.get? l ∨
        (before.get? l = none ∧ a.store.tree.get? l = some .directory ∧
          (before.OnTheWay t.backupDir l ∨ ∃ f ∈ t.files, before.OnTheWay f.path l))) :
      Ending t before original (.ok o a)
  | failure {o : Outcome} {a : Attempt} (error : o.error ≠ none)
      (unchanged : t.Unchanged before a.store.tree) : Ending t before original (.ok o a)
  | rollback {saved : Path} {reason cause : Text} {a : Attempt}
      (refused : a.store.schedule a.store.calls = some (.error reason))
      (kept : t.Kept before original saved a.store.tree) :
      Ending t before original (.error (.rollback t.source (some saved) reason (some cause)) a)

namespace Sound

theorem files_source (sound : t.Sound before original) : ∃ f ∈ t.files, f.path = t.source := by
  obtain ⟨others, text, files⟩ := sound.last
  exact ⟨⟨t.source, text⟩, by simp [files], rfl⟩

theorem admitted (sound : t.Sound before original) {f : OutputFile} (member : f ∈ t.files) : before.Admits f.path :=
  ⟨sound.storable f member, sound.anchored f member⟩

theorem savable (sound : t.Sound before original) : t.Savable before original := by
  obtain ⟨f, member, path⟩ := sound.files_source
  have admitted := sound.admitted member
  rw [path] at admitted
  refine ⟨sound.rooted, sound.home, ?_, nameChar_name admitted.storable.nullFree sound.sourceName,
    admitted, (ask_some sound.source).2⟩
  rw [Tree.accept, sound.backupDir]
  rfl

theorem apart (sound : t.Sound before original) {f : OutputFile} (member : f ∈ t.files) {name : Text} :
    before.place f.path ≠ before.place t.backupDir ++ [name] := by
  intro same
  refine sound.outside f member ⟨?_, ?_⟩
  · rw [same]
    exact List.prefix_append _ _
  · rw [same]
    simp

theorem ready (sound : t.Sound before original) {saved : Path}
    (done : Saved t before saved original now) : t.Ready now saved original := by
  obtain ⟨name, inside⟩ := done.inside
  refine done.ready (fun f member => sound.admitted member) sound.distinct sound.files_source (ask_some sound.source).2 ?_
  intro f member
  rw [inside]
  exact sound.apart member

end Sound

theorem inside_saved {saved : Path} (done : Saved t before saved original now) : t.Inside before (before.place saved) := by
  obtain ⟨name, inside⟩ := done.inside
  rw [Inside, inside]
  exact ⟨List.prefix_append _ _, by simp⟩

theorem unchanged_grown (grows : before.Grows now (before.OnTheWay t.backupDir)) :
    t.Unchanged before now := fun l _ => grows.change l

theorem unchanged_undone {saved : Path} {start : Tree} (done : Saved t before saved original start)
    (same : now.SameAs start) : t.Unchanged before now := by
  intro l outside
  have other : l ≠ before.place saved := by
    rintro rfl
    exact outside (inside_saved done)
  rw [same.nodes]
  exact done.change l other

theorem frame_written (sound : t.Sound before original) {start : Tree} (done : Saved t before record.path original start)
    (writing : Writing t start record t.files (t.files.map (·.path)) a) {l : Location}
    (outside : ¬t.Inside before l) (other : ∀ f ∈ t.files, l ≠ before.place f.path) :
    a.store.tree.get? l = before.get? l ∨ (before.get? l = none ∧ a.store.tree.get? l = some .directory ∧
        (before.OnTheWay t.backupDir l ∨ ∃ f ∈ t.files, before.OnTheWay f.path l)) := by
  have place := done.keeps.place
  have books := writing.books
  have change := done.change l (by rintro rfl; exact outside (inside_saved done))
  have listed : ∀ p ∈ t.files.map (·.path), l ≠ start.place p := by
    intro p member
    obtain ⟨f, inside, rfl⟩ := List.mem_map.mp member
    rw [place]
    exact other f inside
  cases books.account l with
  | same unchanged =>
    rw [unchanged]
    rcases change with same | ⟨absent, directory, way⟩
    · exact .inl same
    · exact .inr ⟨absent, directory, .inl way⟩
  | created new same absent file => exact absurd same (listed _ (writing.new _ new))
  | replaced old same file => exact absurd same (listed _ (writing.old _ old))
  | @directory d made same =>
    obtain ⟨_, _, absent, there, f, member, root, shorter⟩ := books.made d made
    rw [← same] at absent there
    refine .inr ⟨?_, there, .inr ⟨f, member, d.parts, shorter, ?_⟩⟩
    · rcases change with equal | ⟨gone, _, _⟩
      · rw [← equal, absent]
      · exact gone
    · rw [same, place, ← root]
  | source same file =>
    obtain ⟨f, member, path⟩ := sound.files_source
    rw [← path, place] at same
    exact absurd same (other f member)

theorem Sound.judges (sound : t.Sound before original) (tree : Tree) : t.Judges tree :=
  fun _ _ bytes failure _ refused => sound.decodes bytes failure refused

theorem writing_saved (sound : t.Sound before original)
    (progress : a.progress = {backup := some record, phase := .backedUp}) (calm : a.store.Calm)
    (done : Saved t before record.path original a.store.tree) (safe : a.store.OnlyErrors ∨ t.Spread a.store.tree) :
    Writing t a.store.tree record [] [] a :=
  (sound.ready done).writing progress calm safe

theorem ending_committed (sound : t.Sound before original) {o : Outcome}
    {b : Attempt} (errors : a.store.OnlyErrors) (source : record.source = t.source)
    (done : Saved t before record.path original a.store.tree)
    (committed : t.Committed a.store.tree record a o b) : t.Ending before original (.ok o b) := by
  have ready := sound.ready done
  cases committed with
  | failure blamed same => exact .failure blamed.error_ne (unchanged_undone done same)
  | success error backup written schedule writing =>
    have books := writing.books
    have still : b.store.OnlyErrors := fun calls trouble planned => errors calls trouble (by rw [← schedule, planned])
    refine .success error written backup source ⟨inside_saved done, books.copy_found ready⟩ ?_ ?_
    · intro f member
      obtain ⟨bytes, encoded, there⟩ := writing.contents still f member
      refine ⟨bytes, encoded, find_file books.rooted ((books.keeps ready).admits (ready.admitted f member)) ?_⟩
      rw [books.place_eq]
      exact there
    · intro l outside other
      exact frame_written sound done writing outside other

theorem preflight_after (sound : t.Sound a.store.tree original) (calm : a.store.Calm) (answers : a.store.Answers .exists) :
    After t.preflight a (fun _ => a.Quiet) fun _ _ => False := by
  refine (preflight_call t a).mono (fun _ _ asked => asked.2) ?_
  rintro f b ⟨quiet, ⟨p, stopped⟩ | checked⟩
  · exact (quiet.store.answers answers).not_stoppedAt (quiet.store.calm calm) stopped
  · unfold collision? at checked
    split at checked
    · cases checked
    · cases searched : t.files.findM? fun f =>
        (if f.path = t.source then return false else do return (← a.store.tree.ask f.path).isSome : Result Bool) with
      | ok taken =>
        rw [searched] at checked
        cases checked
      | error f =>
        obtain ⟨file, member, failed⟩ := findM?_error searched
        rw [ask_admitted sound.rooted (sound.admitted member)] at failed
        split at failed <;> cases failed

theorem decodes_of_encoding {e : Encoding} (encoding : t.codec = .ofEncoding e) (bytes : Bytes) (f : Failure)
    (failed : t.codec.decode bytes = .error f) : ∃ d, f = .decode d := by
  rw [encoding] at failed
  cases decoded : e.decode bytes with
  | ok text => simp [Codec.ofEncoding, decoded, Except.mapError] at failed
  | error d =>
    refine ⟨d, ?_⟩
    simpa [Codec.ofEncoding, decoded, Except.mapError] using failed.symm

-- Whatever a storage provider refuses but to say what is there, a transaction ends with the backup
-- refused, with everything written, with everything undone, or with an undoing refused; each time
-- with what belongs to it.
theorem run_all_or_nothing {store : Store} (sound : t.Sound store.tree original) (errors : store.OnlyErrors)
    (asked : store.Answers .exists) (looked : store.Answers .isFile) (m : Moment) :
    t.Ending store.tree original (t.run m {store := store}) := by
  suffices after : After (t.run m) {store := store} (fun o a => t.Ending store.tree original (.ok o a))
      (fun f a => t.Ending store.tree original (.error f a)) from after.result
  have nonempty : t.files.isEmpty = false := by
    obtain ⟨others, text, files⟩ := sound.last
    simp [files]
  unfold run
  rw [nonempty]
  refine .bind ((preflight_after (a := {store := store}) sound errors.calm asked).mono ?_ fun _ _ never => never.elim)
  intro reason a quiet
  have tree : a.store.tree = store.tree := quiet.store.tree
  have errors : a.store.OnlyErrors := quiet.store.onlyErrors errors
  have looked : a.store.Answers .isFile := quiet.store.answers looked
  rw [← tree] at sound ⊢
  cases reason with
  | some reason => exact .failure (by simp) fun _ _ => .inl rfl
  | none =>
    refine .bind ((backup_after sound.savable errors.calm m).mono ?_ ?_)
    · rintro record b ⟨source, progress, schedule, done⟩
      rw [quiet.progress] at progress
      have still : b.store.OnlyErrors := fun calls trouble planned => errors calls trouble (by rw [← schedule, planned])
      have heard : b.store.Answers .isFile := fun p calls words => by
        rw [schedule]
        exact looked p calls words
      have refuses : ∀ f c, t.Breaks b f c → c.store.Refuses c.progress.Undoes fun _ => True := by
        intro f c breaks
        refine Store.OnlyErrors.refuses (fun calls trouble planned => ?_) _
        rw [breaks.schedule] at planned
        exact still calls trouble planned
      refine (commit_after (sound.ready done) sound.encodable (fun _ _ _ => sound.judges _) heard
        (writing_saved sound progress still.calm done (.inl still)) refuses).mono ?_ ?_
      · intro o c committed
        exact ending_committed sound still source done committed
      · rintro f c ⟨cause, copy, words, _, refused, rfl⟩
        exact .rollback refused ⟨inside_saved done, copy⟩
    · rintro f b ⟨⟨reason, rfl⟩ | ⟨same, words, planned, _⟩, grows⟩
      · exact .backup (unchanged_grown grows)
      · rw [same] at planned
        exact absurd planned (looked _ _ _)

def reported : EStateM.Result Failure Attempt Outcome → Option Setback
  | .ok o _ => o.error.map (·.1)
  | .error _ _ => none

def mixedFiles : Transaction where
  source := Path.ofString "/src/a.ts"
  files := [⟨Path.ofString "/src/a/b.ts", "export const b = 1;\n".toList⟩,
    ⟨Path.ofString "/src/old.ts", "export const c = 2;\n".toList⟩,
    ⟨Path.ofString "/src/a.ts", "export * from './a/b';\n".toList⟩]
  backupDir := Path.ofString "/src/saved"
  codec := .utf8
  overwrite := true

def failingStore : Store where
  tree := {entries := [(["src".toList], .directory), (["src".toList, "a.ts".toList], .file [97]),
    (["src".toList, "old.ts".toList], .file [98])]}
  schedule calls := if calls.head? = some ⟨.writeBytes, Path.ofString "/src/a.ts"⟩ then some (.error "disk full".toList)
    else none

theorem sound_of_absolute {tree : Tree} {e : Encoding} (rooted : tree.Rooted)
    (home : tree.get? tree.workingDirectory = some .directory) (source : tree.ask t.source = .ok (some (.file original)))
    (last : ∃ others text, t.files = others ++ [⟨t.source, text⟩]) (encoding : t.codec = .ofEncoding e)
    (encodable : ∀ f ∈ t.files, ∃ bytes, t.encode f.text = .ok bytes) (distinct : (t.files.map fun f => tree.place f.path).Nodup)
    (outside : ∀ f ∈ t.files, ¬t.Inside tree (tree.place f.path)) (absolute : ∀ f ∈ t.files, f.path.isAbsolute = true)
    (down : ∀ f ∈ t.files, "..".toList ∉ f.path.parts) (accepted : ∀ f ∈ t.files, f.path.parts.any (·.contains '\x00') = false)
    (short : ∀ f ∈ t.files, ∀ part ∈ f.path.parts, Utf8.size part ≤ Tree.nameLimit)
    (brief : ∀ f ∈ t.files, Utf8.size f.path.text < Tree.pathLimit) (sourceName : '/' ∉ t.source.name)
    (backupDir : t.backupDir.parts.any (·.contains '\x00') = false) : t.Sound tree original where
  rooted := rooted
  home := home
  source := source
  last := last
  decodes := decodes_of_encoding encoding
  encodable := encodable
  distinct := distinct
  outside := outside
  storable := fun f member => ⟨accepted f member, short f member, brief f member⟩
  anchored := fun f member => anchored_of_absolute _ (absolute f member) (down f member)
  sourceName := sourceName
  backupDir := backupDir

theorem mixedFiles_sound : mixedFiles.Sound failingStore.tree [97] := by
  refine sound_of_absolute (rooted_of_entries (by decide)) rfl (by decide +kernel)
    ⟨mixedFiles.files.dropLast, "export * from './a/b';\n".toList, by decide +kernel⟩ rfl
    (fun f _ => ⟨_, rfl⟩) (by decide +kernel) ?_ (by decide +kernel) (by decide +kernel)
    (by decide +kernel) (by decide +kernel) (by decide +kernel) (by decide +kernel)
    (by decide +kernel)
  unfold Inside
  decide +kernel

theorem run_all_or_nothing_refused : mixedFiles.Sound failingStore.tree [97] ∧ failingStore.OnlyErrors ∧
      failingStore.Answers .exists ∧ failingStore.Answers .isFile ∧
      mixedFiles.Ending failingStore.tree [97] (mixedFiles.run ⟨2024, 1, 2, 3, 4, 5, 678000⟩ {store := failingStore}) ∧
      reported (mixedFiles.run ⟨2024, 1, 2, 3, 4, 5, 678000⟩ {store := failingStore}) = some .write := by
  have planned : ∀ calls trouble, failingStore.schedule calls = some trouble →
      calls.head? = some ⟨.writeBytes, Path.ofString "/src/a.ts"⟩ ∧ ∃ words, trouble = .error words := by
    intro calls trouble planned
    change (if calls.head? = some _ then some (.error _) else none) = some trouble at planned
    split at planned
    · cases planned
      exact ⟨by assumption, _, rfl⟩
    · cases planned
  have errors : failingStore.OnlyErrors := fun calls trouble refused => (planned calls trouble refused).2
  have answers : ∀ kind, kind ≠ .writeBytes → failingStore.Answers kind := by
    intro kind other p calls words refused
    have newest := (planned _ _ refused).1
    exact other (congrArg Call.kind (Option.some.inj newest))
  have asked := answers .exists nofun
  have looked := answers .isFile nofun
  have sound := mixedFiles_sound
  exact ⟨sound, errors, asked, looked, run_all_or_nothing sound errors asked looked _, by decide +kernel⟩

def escapes : EStateM.Result Failure Attempt Outcome → Bool
  | .error (.os _) _ => true
  | _ => false

-- A name of 256 characters. To ask whether such a file exists is an error, and nothing catches it.
def longName : Transaction where
  source := Path.ofString "/src/a.ts"
  files := [⟨(Path.ofString "/src").child (List.replicate 256 'n'), "export const b = 1;\n".toList⟩,
    ⟨Path.ofString "/src/a.ts", "export * from './b';\n".toList⟩]
  backupDir := Path.ofString "/src/saved"
  codec := .utf8
  overwrite := false

theorem run_long_name_escapes : ¬longName.Ending failingStore.tree [97]
      (longName.run ⟨2024, 1, 2, 3, 4, 5, 678000⟩ {store := {tree := failingStore.tree}}) := by
  have escaped : escapes (longName.run ⟨2024, 1, 2, 3, 4, 5, 678000⟩
      {store := {tree := failingStore.tree}}) = true := by decide +kernel
  intro ending
  generalize longName.run _ _ = result at ending escaped
  cases ending <;> cases escaped

end Transaction

end ModuleSplit
