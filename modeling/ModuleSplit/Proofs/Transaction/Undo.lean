import ModuleSplit.Proofs.Store.Calls
import ModuleSplit.Proofs.Transaction.Accounts

-- With its books in order a rollback leaves the tree from which writing started, or is refused.

namespace ModuleSplit

open List Store ModuleSplit.Tree

structure Tree.SameAs (t u : Tree) : Prop where
  workingDirectory : t.workingDirectory = u.workingDirectory
  nodes : ∀ l, t.get? l = u.get? l

def Progress.Undoes (g : Progress) (c : Call) : Prop :=
  c.kind = .exists ∨ c.kind = .remove ∨ c.kind = .removeDir ∨ c.kind = .copy ∨
    (c.kind = .writeBytes ∧ ∃ e ∈ g.previous, e.1 = c.path)

-- An attempt with books in order; `g` is what it has noted, and `may` the words in which the calls
-- that undo it can be refused.
structure Keeping (t : Transaction) (start : Tree) (may : Text → Prop) (g : Progress)
    (created : List Path) (previous : List (Path × Bytes)) (dirs : List Path) (a : Attempt) :
    Prop where
  progress : a.progress = g
  refuses : a.store.Refuses g.Undoes may
  noted : ∀ e ∈ previous, e ∈ g.previous
  books : Accounted t start created previous dirs a.store.tree

-- An attempt that stopped because its newest call was refused, with the copy of the source at hand.
structure Stuck (may : Text → Prop) (g : Progress) (saved : Path) (original : Bytes) (f : Failure)
    (a : Attempt) : Prop where
  progress : a.progress = g
  refused : ∃ words, may words ∧ a.store.schedule a.store.calls = some (.error words) ∧
    f = .os (.reported words)
  copy : a.store.tree.find saved = .ok (.file original)

namespace Keeping

variable {t : Transaction} {start : Tree} {may : Text → Prop} {g : Progress}
  {created dirs : List Path} {previous : List (Path × Bytes)} {a : Attempt} {saved : Path}
  {original : Bytes}

-- A refused call changes nothing but the list of calls.
theorem stuck (ready : t.Ready start saved original)
    (keeping : Keeping t start may g created previous dirs a) {c : Call} {f : Failure} {s : Store}
    (undoes : g.Undoes c) (same : s = a.store.next c a.store.tree) (refused : s.Refused f) :
    Stuck may g saved original f {a with store := s} := by
  have copy : s.tree.find saved = .ok (.file original) := by
    rw [same]
    exact keeping.books.copy_found ready
  obtain ⟨words, planned, cause⟩ := refused
  obtain ⟨_, ⟨⟩, allowed⟩ := keeping.refuses c [] _ undoes (by rw [same] at planned; exact planned)
  exact ⟨keeping.progress, ⟨words, allowed, planned, cause⟩, copy⟩

-- Whether something is there, as the tree has it.
theorem asks (ready : t.Ready start saved original) (keeping : Keeping t start may g created previous dirs a)
    {p : Path} (admitted : start.Admits p) : After (AttemptM.onStore (Store.exists p)) a
      (fun answer b => answer = ((a.store.tree.get? (start.place p)).filter (· ≠ .dangling)).isSome ∧
        b.store.tree = a.store.tree ∧ Keeping t start may g created previous dirs b) (Stuck may g saved original) := by
  have undoes : g.Undoes ⟨.exists, p⟩ := .inl rfl
  refine .onStore ((exists_after (keeping.books.ask ready admitted) (keeping.refuses.calm undoes)).mono ?_ ?_)
  · rintro answer s ⟨same, rfl⟩
    exact ⟨same, rfl, keeping.progress, keeping.refuses.next _ _, keeping.noted, keeping.books⟩
  · rintro f s ⟨same, refused⟩
    exact keeping.stuck ready undoes same refused

-- A call that the tree would not refuse.
theorem call_after (ready : t.Ready start saved original)
    (keeping : Keeping t start may g created previous dirs a) {action : StoreM Unit} {c : Call}
    {change : Result Tree} {u : Tree} (undoes : g.Undoes c)
    (call : After action a.store (fun _ s => ∃ v, change = .ok v ∧ s = a.store.next c v)
      fun f s => s = a.store.next c a.store.tree ∧ (s.Refused f ∨ change = .error f)) (changed : change = .ok u) :
    After (AttemptM.onStore action) a (fun _ b => b = {a with store := a.store.next c u}) (Stuck may g saved original) := by
  refine .onStore (call.mono ?_ ?_)
  · rintro _ s ⟨v, accepted, rfl⟩
    rw [changed] at accepted
    cases accepted
    rfl
  · rintro f s ⟨same, refused | failed⟩
    · exact keeping.stuck ready undoes same refused
    · rw [changed] at failed
      cases failed

end Keeping

namespace Transaction

open AttemptM

variable {t : Transaction} {start : Tree} {may : Text → Prop} {g : Progress} {record : Backup}
  {created dirs : List Path} {previous : List (Path × Bytes)} {a : Attempt} {saved : Path}
  {original : Bytes}

theorem removeFiles_after (ready : t.Ready start saved original)
    (keeping : Keeping t start may g created previous dirs a) : After (t.removeFiles created.reverse) a
      (fun _ a => Keeping t start may g [] previous dirs a) (Stuck may g saved original) := by
  induction created using List.reverseRecOn generalizing a with
  | nil => exact keeping
  | append_singleton created p ih =>
    rw [reverse_append, reverse_singleton, singleton_append]
    obtain ⟨writes, before, leaf⟩ := keeping.books.new p (by simp)
    have admitted := ready.admits_written writes
    unfold removeFiles
    dsimp only
    rw [if_pos writes.1]
    refine .bind ((keeping.asks ready admitted).mono ?_ fun _ _ stuck => stuck)
    rintro answer b ⟨rfl, tree, keeping⟩
    rw [← tree] at leaf ⊢
    have books := keeping.books
    have reached := (books.keeps ready).admits admitted
    -- A file that is not there is passed over.
    have passed : (∀ bytes, b.store.tree.get? (start.place p) ≠ some (.file bytes)) → After (t.removeFiles created.reverse) b
          (fun _ a => Keeping t start may g [] previous dirs a) (Stuck may g saved original) :=
      fun absent => ih ⟨keeping.progress, keeping.refuses, keeping.noted, books.drop_absent absent⟩
    cases there : b.store.tree.get? (start.place p) with
    | none => exact passed (by simp [there])
    | some n =>
      cases n with
      | dangling => exact passed (by simp [there])
      | directory => exact absurd there leaf
      | file bytes =>
        have place := books.place_eq p
        have removed := remove_file books.rooted reached (by rw [place]; exact there)
        rw [place] at removed
        have undoes : g.Undoes ⟨.remove, p⟩ := .inr (.inl rfl)
        refine .bind ((keeping.call_after ready undoes
          (remove_after p (keeping.refuses.calm undoes)) removed).mono ?_ fun _ _ stuck => stuck)
        rintro _ _ rfl
        exact ih ⟨keeping.progress, keeping.refuses.next _ _, keeping.noted, books.drop_removed ready there⟩

theorem restoreFiles_after (ready : t.Ready start saved original)
    (keeping : Keeping t start may g created previous dirs a) : After (restoreFiles previous) a
      (fun _ a => Keeping t start may g created [] dirs a) (Stuck may g saved original) := by
  induction previous generalizing a with
  | nil => exact keeping
  | cons e rest ih =>
    obtain ⟨p, old⟩ := e
    have books := keeping.books
    obtain ⟨writes, before⟩ := books.old (p, old) mem_cons_self
    have reached := (books.keeps ready).admits (ready.admits_written writes)
    have place := books.place_eq p
    obtain ⟨bytes, there⟩ := books.file_there ready before
    have written := write_file books.rooted reached (by rw [place]; exact there) old
    rw [place] at written
    have undoes : g.Undoes ⟨.writeBytes, p⟩ := .inr (.inr (.inr (.inr ⟨rfl, (p, old), keeping.noted _ mem_cons_self, rfl⟩)))
    refine .bind ((keeping.call_after ready undoes
      (Store.write_after p old (keeping.refuses.errors undoes)) written).mono ?_ fun _ _ stuck => stuck)
    rintro _ _ rfl
    exact ih ⟨keeping.progress, keeping.refuses.next _ _,
      fun e later => keeping.noted e (mem_cons_of_mem _ later), books.drop_restored there⟩

-- The newest directory goes first, so that it is empty.
theorem removeDirs_after (ready : t.Ready start saved original) (keeping : Keeping t start may g [] [] dirs a) :
    After (removeDirs dirs.reverse) a (fun _ a => Keeping t start may g [] [] [] a) (Stuck may g saved original) := by
  induction dirs using List.reverseRecOn generalizing a with
  | nil => exact keeping
  | append_singleton dirs p ih =>
    rw [reverse_append, reverse_singleton, singleton_append]
    obtain ⟨admitted, name, _, there, _⟩ := keeping.books.made p (by simp)
    refine .bind ((keeping.asks ready admitted).mono ?_ fun _ _ stuck => stuck)
    rintro answer b ⟨rfl, tree, keeping⟩
    rw [← tree] at there ⊢
    rw [there]
    have books := keeping.books
    have reached := (books.keeps ready).admits admitted
    have place := books.place_eq p
    have removed := removeDirectory_empty books.rooted reached (by rw [place]; exact there)
      name (by rw [place]; exact books.last_directory_empty ready)
    rw [place] at removed
    have undoes : g.Undoes ⟨.removeDir, p⟩ := .inr (.inr (.inl rfl))
    refine .bind ((keeping.call_after ready undoes
      (removeDir_after p (keeping.refuses.calm undoes)) removed).mono ?_ fun _ _ stuck => stuck)
    rintro _ _ rfl
    exact ih ⟨keeping.progress, keeping.refuses.next _ _, keeping.noted, books.drop_directory ready⟩

theorem restoreSource_after (ready : t.Ready start saved original) (keeping : Keeping t start may g [] [] [] a) :
    After (onStore (Store.copy saved t.source)) a
      (fun _ a => a.progress = g ∧ a.store.tree.SameAs start) (Stuck may g saved original) := by
  have books := keeping.books
  have keeps := books.keeps ready
  have place := books.place_eq t.source
  obtain ⟨bytes, there⟩ := books.file_there ready ready.source
  have source := keeps.admits ready.admits_source
  have copied : a.store.tree.copy saved t.source = .ok (a.store.tree.put (start.place t.source) (.file original)) := by
    rw [← place] at there ⊢
    rw [copy_eq (keeps.admits ready.reached).accept source.accept (read_file books.rooted (keeps.admits ready.reached) (by
        rw [books.place_eq]
        exact books.copy_kept ready)) (not_isDirectory (by simp [there]))]
    exact write_file books.rooted source there original
  have undoes : g.Undoes ⟨.copy, t.source⟩ := .inr (.inr (.inr (.inl rfl)))
  refine (keeping.call_after ready undoes
    (copy_after saved t.source (keeping.refuses.calm undoes)) copied).mono ?_ fun _ _ stuck => stuck
  rintro _ _ rfl
  exact ⟨keeping.progress, books.workingDirectory, books.settled ready⟩

theorem undo_after (ready : t.Ready start record.path original) (noted : g.backup = some record)
    (keeping : Keeping t start may g g.createdFiles g.previous g.createdDirs a) :
    After t.undo a (fun _ a => a.progress = g ∧ a.store.tree.SameAs start) (Stuck may g record.path original) := by
  refine .bind (.progress ?_)
  rw [keeping.progress]
  refine .bind ((removeFiles_after ready keeping).mono ?_ fun _ _ stuck => stuck)
  intro _ a keeping
  refine .bind ((restoreFiles_after ready keeping).mono ?_ fun _ _ stuck => stuck)
  intro _ a keeping
  refine .bind ((removeDirs_after ready keeping).mono ?_ fun _ _ stuck => stuck)
  intro _ a keeping
  rw [noted]
  exact restoreSource_after ready keeping

-- How a rollback fails: the schedule refuses a call, and the source can still be had from its copy.
structure Abandoned (t : Transaction) (may : Text → Prop) (saved : Path) (original : Bytes)
    (cause : Text) (f : Failure) (a : Attempt) : Prop where
  copy : a.store.tree.find saved = .ok (.file original)
  refused : ∃ words, may words ∧ a.store.schedule a.store.calls = some (.error words) ∧
    f = .rollback t.source (some saved) words (some cause)

theorem rollback_after (ready : t.Ready start record.path original) (noted : g.backup = some record)
    (keeping : Keeping t start may g g.createdFiles g.previous g.createdDirs a) (cause : Text) :
    After (t.rollback (some cause)) a (fun _ a => a.store.tree.SameAs start) (t.Abandoned may record.path original cause) := by
  refine .bind (.progress ?_)
  rw [keeping.progress, noted]
  refine .bind (.named ((undo_after ready noted keeping).mono ?_ ?_))
  · rintro _ a ⟨_, same⟩
    exact .update same
  · rintro f a ⟨_, ⟨words, allowed, planned, rfl⟩, copy⟩
    exact ⟨.reported words, rfl, copy, words, allowed, planned, rfl⟩

theorem failed_after (ready : t.Ready start record.path original) (noted : g.backup = some record)
    (keeping : Keeping t start may g g.createdFiles g.previous g.createdDirs a) (setback : Setback) (f : Failure) :
    After (t.failed setback f) a (fun o a => o.error = some (setback, f.message) ∧ a.store.tree.SameAs start)
      (t.Abandoned may record.path original f.message) := by
  refine .bind ((rollback_after ready noted keeping f.message).mono ?_ fun _ _ bad => bad)
  intro _ a same
  exact ⟨rfl, same⟩

end Transaction

end ModuleSplit
