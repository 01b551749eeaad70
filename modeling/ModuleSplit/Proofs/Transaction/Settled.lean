import ModuleSplit.Proofs.Transaction.Unhindered
import ModuleSplit.Proofs.Tree.Filling

namespace ModuleSplit

open Store ModuleSplit.Tree

namespace AttemptM

variable {α β : Type}

def Abides (action : AttemptM α) : Prop :=
  ∀ a : Attempt, After action a (fun _ b => b.store.schedule = a.store.schedule)
    fun _ b => b.store.schedule = a.store.schedule

namespace Abides

variable {action : AttemptM α}

theorem pure (v : α) : Abides (Pure.pure v : AttemptM α) := fun _ => rfl

theorem fails (f : Failure) : Abides (throw f : AttemptM α) := fun _ => rfl

theorem progress : Abides AttemptM.progress := fun _ => rfl

theorem update (change : Progress → Progress) : Abides (AttemptM.update change) := fun _ => rfl

theorem onStore {action : StoreM α} (abides : Store.Abides action) :
    Abides (AttemptM.onStore action) := fun a => .onStore (abides a.store)

theorem bind {next : α → AttemptM β} (first : Abides action) (second : ∀ v, Abides (next v)) : Abides (action >>= next) := by
  intro a
  apply After.bind
  apply (first a).mono
  · intro v b same
    apply (second v b).mono
    · intro _ c further
      exact further.trans same
    · intro _ c further
      exact further.trans same
  · intro _ b same
    exact same

theorem recover {handle : Failure → AttemptM α} (first : Abides action)
    (second : ∀ f, Abides (handle f)) : Abides (tryCatch action handle) := by
  intro a
  apply After.recover
  apply (first a).mono
  · intro _ b same
    exact same
  · intro f b same
    apply (second f b).mono
    · intro _ c further
      exact further.trans same
    · intro _ c further
      exact further.trans same

theorem named (first : Abides action) (name : Text → Failure) : Abides (AttemptM.named name action) := by
  apply recover first
  intro f
  cases f <;> exact fails _

end Abides

end AttemptM

namespace Transaction

open AttemptM

variable {t : Transaction}

theorem removeFiles_abides (t : Transaction) (paths : List Path) : Abides (t.removeFiles paths) := by
  induction paths with
  | nil => exact .pure _
  | cons p rest ih =>
    unfold removeFiles
    dsimp only
    split
    · apply Abides.bind (.onStore (exists_abides p))
      intro answer
      cases answer with
      | false => exact ih
      | true => exact .bind (.onStore (remove_performs p).abides) fun _ => ih
    · exact ih

theorem restoreFiles_abides (contents : List (Path × Bytes)) : Abides (restoreFiles contents) := by
  induction contents with
  | nil => exact .pure _
  | cons e rest ih => exact .bind (.onStore (write_abides e.1 e.2)) fun _ => ih

theorem removeDirs_abides (paths : List Path) : Abides (removeDirs paths) := by
  induction paths with
  | nil => exact .pure _
  | cons p rest ih =>
    apply Abides.bind (.onStore (exists_abides p))
    intro answer
    cases answer with
    | false => exact ih
    | true => exact .bind (.onStore (removeDir_performs p).abides) fun _ => ih

theorem undo_abides (t : Transaction) : Abides t.undo := by
  apply Abides.bind .progress
  intro g
  apply Abides.bind (removeFiles_abides t _)
  intro _
  apply Abides.bind (restoreFiles_abides _)
  intro _
  apply Abides.bind (removeDirs_abides _)
  intro _
  cases g.backup with
  | none => exact .pure _
  | some b => exact .onStore (copy_performs b.path t.source).abides

theorem failed_abides (t : Transaction) (setback : Setback) (f : Failure) : Abides (t.failed setback f) := by
  have rolls : Abides (t.rollback (some f.message)) :=
    .bind .progress fun _ => .bind (.named (undo_abides t) _) fun _ => .update _
  exact .bind rolls fun _ => .bind .progress fun _ => .pure _

theorem commit_abides (t : Transaction) : Abides t.commit := by
  have checks : Abides t.verify := by
    intro a
    exact (t.verify_steady a).mono (fun _ _ same => same.schedule) fun _ _ same => same.schedule
  apply Abides.recover
  · apply Abides.bind t.write_schedule
    intro _
    apply Abides.bind checks
    intro _
    exact .bind .progress fun _ => .pure _
  · intro f
    cases f with
    | write p reason => exact failed_abides t .write _
    | verification p reason => exact failed_abides t .verification _
    | _ => exact .fails _

theorem run_abides (t : Transaction) (m : Moment) : Abides (t.run m) := by
  have looks : Abides t.preflight := by
    intro a
    exact (preflight_quiet t a).mono (fun _ _ quiet => quiet.store.schedule) fun _ _ quiet => quiet.store.schedule
  have saves : Abides (t.backup m) := by
    intro a
    exact (t.backup_steady m a).mono (fun _ _ same => same.schedule) fun _ _ same => same.schedule
  unfold run
  split
  · exact .bind .progress fun _ => .pure _
  · apply Abides.bind looks
    intro reason
    cases reason with
    | some reason => exact .bind .progress fun _ => .pure _
    | none => exact .bind saves fun _ => commit_abides t

end Transaction

theorem directory_above {t : Tree} {p q : Path} {l : Location} (located : t.locate p = .ok l)
    (root : q.root = p.root) (above : q.parts <+: p.parts) (other : q.parts ≠ p.parts) :
    t.get? (t.place q) = some .directory := by
  obtain ⟨rest, whole⟩ := above
  have walked := locate_walk located
  have start : t.start q = t.start p := by
    unfold Tree.start Path.isAbsolute
    rw [root]
  rw [← whole, List.foldlM_append, ← start] at walked
  cases reached : q.parts.foldlM t.step (t.start q) with
  | error cause =>
    rw [reached] at walked
    cases walked
  | ok m =>
    rw [reached] at walked
    cases rest with
    | nil => exact absurd (by rw [← whole, List.append_nil]) other
    | cons part rest =>
      have place : m = t.place q := walk_ok reached
      rw [← place]
      exact (walk_cons walked).1

namespace Transaction

variable {t : Transaction} {dir saved : Path} {start : Tree} {record : Backup} {original : Bytes}
  {m : Moment} {store : Store} {newline : Newline}

theorem Awaits.located {rest : List OutputFile} (awaits : t.Awaits dir start rest)
    (found : start.isDirectory dir = true) : ∀ f ∈ rest, start.locate f.path = .ok (start.place f.path) := by
  intro f member
  have admitted := awaits.admitted f member
  by_cases source : f.path = t.source
  · obtain ⟨bytes, file⟩ := awaits.source f member source
    exact locate_there awaits.rooted admitted file
  · obtain ⟨_, name, child, path⟩ := awaits.new f member source
    obtain ⟨located, there⟩ := isDirectory_parts found
    have short := admitted.storable.short name (by simp [path])
    have brief := admitted.storable.brief
    rw [path] at brief ⊢
    rw [place_child child]
    exact locate_child located there child short brief

theorem Awaits.fits {rest : List OutputFile} (awaits : t.Awaits dir start rest)
    (found : start.isDirectory dir = true) : ∀ f ∈ rest, start.get? (start.place f.path) ≠ some .directory ∧
        start.get? (start.place f.path).dropLast = some .directory := by
  intro f member
  by_cases source : f.path = t.source
  · obtain ⟨bytes, file⟩ := awaits.source f member source
    exact ⟨by simp [file], awaits.rooted _ _ file⟩
  · obtain ⟨absent, name, child, path⟩ := awaits.new f member source
    refine ⟨by simp [absent], ?_⟩
    rw [path, place_child child, List.dropLast_concat]
    exact (isDirectory_parts found).2

theorem kept_elsewhere (ready : t.Ready start record.path original)
    (awaits : t.Awaits dir start t.files) (found : start.isDirectory dir = true) {b : Attempt}
    (writing : Writing t start record t.files (t.files.map (·.path)) b) {l : Location}
    (aside : ∀ f ∈ t.files, l ≠ start.place f.path) : b.store.tree.get? l = start.get? l := by
  have books := writing.books
  cases books.account l with
  | same unchanged => exact unchanged
  | created listed place absent file =>
    obtain ⟨⟨_, f, member, rfl⟩, _⟩ := books.new _ listed
    exact absurd place (aside f member)
  | replaced listed place file =>
    obtain ⟨⟨_, f, member, path⟩, _⟩ := books.old _ listed
    rw [← path] at place
    exact absurd place (aside f member)
  | source place file =>
    obtain ⟨f, member, path⟩ := ready.listed
    rw [← path] at place
    exact absurd place (aside f member)
  | @directory d listed place =>
    obtain ⟨_, _, absent, _, f, member, root, above⟩ := books.made d listed
    by_cases whole : d.parts = f.path.parts
    · have same : l = start.place f.path := by
        rw [place, Tree.place_eq, Tree.place_eq, whole, Tree.start, Tree.start, Path.isAbsolute, Path.isAbsolute, root]
      exact absurd same (aside f member)
    · rw [directory_above (awaits.located found f member) root above whole] at absent
      cases absent

structure Settled (t : Transaction) (saved : Path) (original : Bytes) (before : Tree) (o : Outcome)
    (now : Tree) : Prop where
  backup : o.backup.map (·.path) = some saved
  workingDirectory : now.workingDirectory = before.workingDirectory
  copy : now.get? (before.place saved) = some (.file original)
  kept : ∀ l, l ≠ before.place saved → (∀ f ∈ t.files, l ≠ before.place f.path) →
    now.get? l = before.get? l
  sound : t.blemish? = none → o.error = none ∧ o.written = t.files.map (·.path) ∧
    ∀ f ∈ t.files, ∃ bytes, t.encode f.text = .ok bytes ∧
      now.get? (before.place f.path) = some (.file bytes)
  faulty : ∀ p fault, t.blemish? = some (p, fault) →
    o.error = some (.verification, (Failure.verification p (FileFault.text fault).message).message) ∧
    ∀ f ∈ t.files, now.get? (before.place f.path) = before.get? (before.place f.path)

section

variable {record : Backup} {a b : Attempt} {o : Outcome}

theorem Begun.place_eq (begun : t.Begun dir saved original store record a) (p : Path) :
    a.store.tree.place p = store.tree.place p := by
  rw [begun.tree]
  rfl

theorem Begun.get?_eq (begun : t.Begun dir saved original store record a)
    (absent : store.tree.get? (store.tree.place saved) = none) (l : Location) : a.store.tree.get? l =
      if l = store.tree.place saved then some (.file original) else store.tree.get? l := by
  rw [begun.tree]
  exact Tree.get?_put (ne_root_of_none absent) store.tree (.file original) l

theorem Begun.keeps (begun : t.Begun dir saved original store record a)
    (absent : store.tree.get? (store.tree.place saved) = none) : store.tree.Keeps a.store.tree := by
  refine ⟨by rw [begun.tree]; rfl, fun l there => ?_⟩
  rw [begun.get?_eq absent, if_neg, there]
  rintro rfl
  rw [absent] at there
  cases there

theorem Unhindered.settled_written (unhindered : t.Unhindered m newline dir saved original store)
    (found : store.tree.isDirectory dir = true)
    (begun : t.Begun dir saved original store record a) (backup : o.backup = some record)
    (clean : t.blemish? = none) (error : o.error = none)
    (written : o.written = t.files.map (·.path)) (errors : b.store.OnlyErrors)
    (writing : Writing t a.store.tree record t.files (t.files.map (·.path)) b) :
    t.Settled saved original store.tree o b.store.tree := by
  obtain ⟨absent, _, _⟩ := unhindered.room.copy unhindered.savable
  have keeps := begun.keeps absent
  have elsewhere : ∀ l, (∀ f ∈ t.files, l ≠ store.tree.place f.path) → b.store.tree.get? l = a.store.tree.get? l := by
    intro l aside
    apply kept_elsewhere begun.ready begun.awaits (keeps.isDirectory found) writing
    intro f member
    rw [begun.place_eq]
    exact aside f member
  refine ⟨?_, ?_, ?_, ?_, ?_, ?_⟩
  · rw [backup]
    exact congrArg some begun.path
  · rw [writing.books.workingDirectory, keeps.workingDirectory]
  · rw [elsewhere _ fun f member => (unhindered.apart f member).symm, begun.get?_eq absent, if_pos rfl]
  · intro l other aside
    rw [elsewhere l aside, begun.get?_eq absent, if_neg other]
  · intro _
    refine ⟨error, written, fun f member => ?_⟩
    rw [← begun.place_eq]
    exact writing.contents errors f member
  · intro p fault blemished
    rw [clean] at blemished
    cases blemished

theorem Unhindered.settled_undone (unhindered : t.Unhindered m newline dir saved original store)
    (begun : t.Begun dir saved original store record a) (backup : o.backup = some record)
    (blamed : t.Blamed a o) (same : b.store.tree.SameAs a.store.tree) : t.Settled saved original store.tree o b.store.tree := by
  obtain ⟨absent, _, _⟩ := unhindered.room.copy unhindered.savable
  obtain ⟨p, fault, blemished, error⟩ := unhindered.blamed begun blamed
  have back := fun l => (same.nodes l).trans (begun.get?_eq absent l)
  refine ⟨?_, ?_, ?_, ?_, ?_, ?_⟩
  · rw [backup]
    exact congrArg some begun.path
  · rw [same.workingDirectory, begun.tree]
    rfl
  · rw [back, if_pos rfl]
  · intro l other _
    rw [back, if_neg other]
  · intro clean
    rw [clean] at blemished
    cases blemished
  · intro p fault again
    cases blemished.symm.trans again
    exact ⟨error, fun f member => by rw [back, if_neg (unhindered.apart f member)]⟩

end

theorem Unhindered.settled (unhindered : t.Unhindered m newline dir saved original store)
    (found : store.tree.isDirectory dir = true) : ∃ o b, t.run m {store := store} = .ok o b ∧ b.store.Faultless ∧
      t.Settled saved original store.tree o b.store.tree := by
  obtain ⟨o, b, ended, record, a, begun, committed, backup, _⟩ := unhindered.commits
  refine ⟨o, b, ended, unhindered.faultless.of_schedule ((t.run_abides m _).ended ended), ?_⟩
  cases committed with
  | success error _ written schedule writing =>
    have clean : t.blemish? = none := by
      obtain ⟨_, _, again, succeeds, _⟩ := unhindered.outcome
      rw [ended] at again
      cases again
      exact blemish?_eq_none.mpr (succeeds.mp error)
    exact unhindered.settled_written found begun backup clean error written (begun.faultless.of_schedule schedule).errors writing
  | failure blamed same => exact unhindered.settled_undone begun backup blamed same

theorem Unhindered.filled (unhindered : t.Unhindered m newline dir saved original store)
    (found : store.tree.isDirectory dir = true) {o : Outcome} {now : Tree}
    (settled : t.Settled saved original store.tree o now) : store.tree.Filled now := by
  obtain ⟨absent, parent, _⟩ := unhindered.room.copy unhindered.savable
  refine ⟨settled.workingDirectory, ?_⟩
  intro l
  by_cases copied : l = store.tree.place saved
  · rw [copied]
    exact .inr ⟨⟨original, settled.copy⟩, by simp [absent], parent⟩
  · by_cases written : ∃ f ∈ t.files, l = store.tree.place f.path
    · obtain ⟨f, member, rfl⟩ := written
      cases blemished : t.blemish? with
      | none =>
        obtain ⟨bytes, _, file⟩ := (settled.sound blemished).2.2 f member
        exact .inr ⟨⟨bytes, file⟩, unhindered.awaits.fits found f member⟩
      | some blemish => exact .inl ((settled.faulty _ _ blemished).2 f member)
    · left
      apply settled.kept l copied
      intro f member same
      exact written ⟨f, member, same⟩

end Transaction

end ModuleSplit
