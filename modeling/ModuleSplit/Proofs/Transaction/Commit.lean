import ModuleSplit.Proofs.Transaction.Steady

-- Writing and checking. Wherever it breaks off the books are in order.

namespace ModuleSplit

open List Store ModuleSplit.Tree

structure Undoable (t : Transaction) (start : Tree) (record : Backup) (a : Attempt) : Prop where
  backup : a.progress.backup = some record
  calm : a.store.Calm
  books : Accounted t start a.progress.createdFiles a.progress.previous a.progress.createdDirs
    a.store.tree

theorem Undoable.keeping {t : Transaction} {start : Tree} {record : Backup} {a : Attempt}
    {may : Text → Prop} (undoable : Undoable t start record a) (refuses : a.store.Refuses a.progress.Undoes may) :
    Keeping t start may a.progress a.progress.createdFiles a.progress.previous a.progress.createdDirs a :=
  ⟨rfl, refuses, fun _ noted => noted, undoable.books⟩

theorem Undoable.quiet {t : Transaction} {start : Tree} {record : Backup} {a b : Attempt}
    (undoable : Undoable t start record a) (quiet : a.Quiet b) : Undoable t start record b := by
  refine ⟨?_, quiet.store.calm undoable.calm, ?_⟩
  · rw [quiet.progress]
    exact undoable.backup
  · rw [quiet.progress, quiet.store.tree]
    exact undoable.books

def Thwarted (t : Transaction) (start : Tree) (record : Backup) (f : Failure) (a : Attempt) :
    Prop :=
  (∃ e, f = .os e) ∧ Undoable t start record a

-- No file of the set lies below another.
def Transaction.Spread (t : Transaction) (start : Tree) : Prop :=
  ∀ f ∈ t.files, ∀ g ∈ t.files, start.place f.path <+: start.place g.path → f = g

-- An attempt that has written some of the files, and noted no others. A file can be missing where a
-- write was dropped; then no directory may come into its place.
structure Writing (t : Transaction) (start : Tree) (record : Backup) (finished : List OutputFile)
    (noted : List Path) (a : Attempt) : Prop extends Undoable t start record a where
  written : a.progress.written = finished.map (·.path)
  new : ∀ p ∈ a.progress.createdFiles, p ∈ noted
  old : ∀ e ∈ a.progress.previous, e.1 ∈ noted
  safe : a.store.OnlyErrors ∨ t.Spread start
  contents : a.store.OnlyErrors → ∀ f ∈ finished, ∃ bytes, t.encode f.text = .ok bytes ∧
    a.store.tree.get? (start.place f.path) = some (.file bytes)

theorem Writing.quiet {t : Transaction} {start : Tree} {record : Backup} {finished : List OutputFile}
    {noted : List Path} {a b : Attempt} (writing : Writing t start record finished noted a) (quiet : a.Quiet b) :
    Writing t start record finished noted b := by
  have errors : b.store.OnlyErrors → a.store.OnlyErrors := by
    intro errors calls trouble planned
    rw [← quiet.store.schedule] at planned
    exact errors calls trouble planned
  refine ⟨writing.toUndoable.quiet quiet, ?_, ?_, ?_, writing.safe.imp_left quiet.store.onlyErrors, ?_⟩
  · rw [quiet.progress]
    exact writing.written
  · rw [quiet.progress]
    exact writing.new
  · rw [quiet.progress]
    exact writing.old
  · rw [quiet.store.tree]
    exact fun only => writing.contents (errors only)

namespace Transaction

open AttemptM

variable {t : Transaction} {start : Tree} {record : Backup} {original bytes : Bytes} {a : Attempt}
  {rest finished : List OutputFile} {f : OutputFile}

theorem Ready.writing (ready : t.Ready a.store.tree record.path original)
    (progress : a.progress = {backup := some record, phase := .backedUp}) (calm : a.store.Calm)
    (safe : a.store.OnlyErrors ∨ t.Spread a.store.tree) : Writing t a.store.tree record [] [] a := by
  refine ⟨⟨?_, calm, ?_⟩, ?_, ?_, ?_, safe, by simp⟩
  · rw [progress]
  · rw [progress]
    exact .nothing ready
  · rw [progress]
    rfl
  · simp [progress]
  · simp [progress]

theorem thwarted_of_refused (undoable : Undoable t start record a) {c : Call} {failure : Failure}
    {s : Store} (same : s = a.store.next c a.store.tree) (os : ∃ e, failure = .os e) :
    Thwarted t start record failure {a with store := s} := by
  subst same
  exact ⟨os, undoable.backup, undoable.calm, undoable.books⟩

theorem os_of_refused {s : Store} {failure : Failure} (refused : s.Refused failure) : ∃ e, failure = .os e := by
  obtain ⟨words, _, same⟩ := refused
  exact ⟨_, same⟩

theorem fresh_of_finished (ready : t.Ready start record.path original)
    (files : t.files = finished ++ f :: rest) : ∀ p ∈ finished.map (·.path), start.place f.path ≠ start.place p := by
  intro p member same
  obtain ⟨g, earlier, rfl⟩ := mem_map.mp member
  have distinct := ready.distinct
  rw [files, map_append, map_cons] at distinct
  have apart := (nodup_append.mp distinct).2.2
  exact apart _ (mem_map_of_mem earlier) _ mem_cons_self same.symm

theorem made_clear (ready : t.Ready start record.path original) (files : t.files = finished ++ f :: rest)
    (writing : Writing t start record finished (finished.map (·.path)) a) {made : List Path}
    {u : Tree} (all : a.store.tree.Made f.path.parent made u) :
    ∀ q ∈ a.progress.createdFiles, ∀ d ∈ made, start.place d ≠ start.place q := by
  have books := writing.books
  have listed : f ∈ t.files := by simp [files]
  intro q new d member same
  rcases writing.safe with errors | spread
  · obtain ⟨g, finished, rfl⟩ := mem_map.mp (writing.new q new)
    obtain ⟨bytes, _, file⟩ := writing.contents errors g finished
    have gone := all.absent d member
    rw [books.place_eq, same, file] at gone
    cases gone
  · obtain ⟨_, g, other, rfl⟩ := (books.new q new).1
    have reached := (books.keeps ready).admits (ready.admitted f listed)
    have above := all.above_child books.rooted reached.anchored member
    rw [books.place_eq, books.place_eq, same] at above
    have equal := spread g other f listed above
    exact fresh_of_finished ready files _ (writing.new _ new) (by rw [equal])

theorem makeDirs_noted (ready : t.Ready start record.path original)
    (files : t.files = finished ++ f :: rest) (writing : Writing t start record finished (finished.map (·.path)) a) :
    After (onStore (Store.makeDirs f.path.parent)) a (fun made a' => Writing t start record finished (finished.map (·.path))
        {a' with progress := {a'.progress with createdDirs := a'.progress.createdDirs ++ made}}) (Thwarted t start record) := by
  have listed : f ∈ t.files := by simp [files]
  have books := writing.books
  have parent := (ready.admitted f listed).parent
  have reached := (books.keeps ready).admits parent
  obtain ⟨missing, found, outcome⟩ := makeDirectories_admitted books.rooted reached
  refine .onStore ((makeDirs_after f.path.parent (writing.calm _)).mono ?_ ?_)
  · rintro made s ⟨u, same, accepted, rfl⟩
    rw [found] at same
    cases same
    rcases outcome with ⟨e, refused⟩ | ⟨u', done, all⟩
    · rw [refused] at accepted
      cases accepted
    · rw [done] at accepted
      cases accepted
      refine ⟨⟨writing.backup, writing.calm, ?_⟩, writing.written, writing.new, writing.old, writing.safe, ?_⟩
      · exact books.grow ready all parent ⟨f, listed, rfl, dropLast_prefix _⟩ (made_clear ready files writing all)
      · intro errors g member
        obtain ⟨bytes, encoded, file⟩ := writing.contents errors g member
        exact ⟨bytes, encoded, all.get?_some file⟩
  · rintro failure s (⟨same, refused | failed⟩ | ⟨u, failed, rfl⟩)
    · exact thwarted_of_refused writing.toUndoable same (os_of_refused refused)
    · rw [found] at failed
      cases failed
    · rcases outcome with ⟨e, refused⟩ | ⟨u', done, all⟩
      · rw [refused] at failed
        cases failed
        exact thwarted_of_refused writing.toUndoable rfl ⟨e, rfl⟩
      · rw [done] at failed
        cases failed

theorem exists_noted {noted : List Path} (ready : t.Ready start record.path original) (listed : f ∈ t.files)
    (writing : Writing t start record finished noted a) : After (onStore (Store.exists f.path)) a
      (fun answer b => answer = ((b.store.tree.get? (start.place f.path)).filter (· ≠ .dangling)).isSome ∧
        Writing t start record finished noted b) (Thwarted t start record) := by
  have asked := writing.books.ask ready (ready.admitted f listed)
  refine .onStore ((exists_after asked (writing.calm _)).mono ?_ ?_)
  · rintro answer s ⟨same, rfl⟩
    exact ⟨same, writing.quiet ⟨rfl, .next _ _⟩⟩
  · rintro failure s ⟨same, refused⟩
    exact thwarted_of_refused writing.toUndoable same (os_of_refused refused)

theorem read_noted {noted : List Path} (ready : t.Ready start record.path original) (listed : f ∈ t.files)
    (writing : Writing t start record finished noted a) : After (onStore (Store.read f.path)) a
      (fun bytes b => b.store.tree.get? (start.place f.path) = some (.file bytes) ∧ Writing t start record finished noted b)
      (Thwarted t start record) := by
  have books := writing.books
  have reached := (books.keeps ready).admits (ready.admitted f listed)
  have place := books.place_eq f.path
  have found : (∃ bytes, a.store.tree.get? (start.place f.path) = some (.file bytes) ∧ a.store.tree.read f.path = .ok bytes) ∨
      ∃ e, a.store.tree.read f.path = .error (.os e) := by
    by_cases file : ∃ bytes, a.store.tree.get? (start.place f.path) = some (.file bytes)
    · obtain ⟨bytes, there⟩ := file
      exact .inl ⟨bytes, there, read_file books.rooted reached (by rw [place]; exact there)⟩
    · exact .inr (read_other books.rooted reached (by rw [place]; exact not_exists.mp file))
  refine .onStore ((read_after f.path (writing.calm _)).mono ?_ ?_)
  · rintro bytes s ⟨read, rfl⟩
    refine ⟨?_, writing.quiet ⟨rfl, .next _ _⟩⟩
    rcases found with ⟨old, there, same⟩ | ⟨e, failed⟩
    · rw [read] at same
      cases same
      exact there
    · rw [read] at failed
      cases failed
  · rintro failure s ⟨same, refused | wrong⟩
    · exact thwarted_of_refused writing.toUndoable same (os_of_refused refused)
    · rcases found with ⟨old, there, read⟩ | ⟨e, failed⟩
      · rw [wrong] at read
        cases read
      · rw [wrong] at failed
        exact thwarted_of_refused writing.toUndoable same ⟨e, Except.error.inj failed⟩

-- A path where nothing is found, be it for a link that leads nowhere.
theorem new_noted (ready : t.Ready start record.path original) (writes : t.Writes f.path)
    (writing : Writing t start record finished (finished.map (·.path)) b)
    (gone : b.store.tree.get? (start.place f.path) = none ∨ b.store.tree.get? (start.place f.path) = some .dangling) :
    Writing t start record finished (finished.map (·.path) ++ [f.path]) {b with progress := {b.progress with
      createdFiles := b.progress.createdFiles ++ [f.path]}} := by
  refine ⟨⟨writing.backup, writing.calm, writing.books.note_new ready writes gone⟩, writing.written, ?_,
    fun e old => mem_append_left _ (writing.old e old), writing.safe, writing.contents⟩
  intro p member
  rcases mem_append.mp member with earlier | last
  · exact mem_append_left _ (writing.new p earlier)
  · exact mem_append_right _ last

theorem old_noted (ready : t.Ready start record.path original) (files : t.files = finished ++ f :: rest)
    (other : f.path ≠ t.source) (writing : Writing t start record finished (finished.map (·.path)) b) {bytes : Bytes}
    (there : b.store.tree.get? (start.place f.path) = some (.file bytes)) :
    Writing t start record finished (finished.map (·.path) ++ [f.path]) {b with progress := {b.progress with
      previous := putContent f.path bytes b.progress.previous}} := by
  have listed : f ∈ t.files := by simp [files]
  have fresh := fresh_of_finished ready files
  have books : Accounted t start b.progress.createdFiles (putContent f.path bytes b.progress.previous)
      b.progress.createdDirs b.store.tree := by
    refine writing.books.note_old ⟨other, f, listed, rfl⟩ there (fun q new => fresh q (writing.new q new))
      (fun e old => fresh e.1 (writing.old e old)) ?_
    intro same
    obtain ⟨g, source, path⟩ := ready.listed
    rw [← path] at same other
    exact other (by rw [ready.place_inj listed source same])
  refine ⟨⟨writing.backup, writing.calm, books⟩, writing.written, fun p new => mem_append_left _ (writing.new p new), ?_,
    writing.safe, writing.contents⟩
  intro e member
  rcases mem_putContent member with earlier | rfl
  · exact mem_append_left _ (writing.old e earlier)
  · exact mem_append_right _ (mem_singleton_self _)

theorem prepare_after (ready : t.Ready start record.path original)
    (files : t.files = finished ++ f :: rest) (other : f.path ≠ t.source)
    (writing : Writing t start record finished (finished.map (·.path)) a) : After (prepare f.path) a
      (fun _ a' => Writing t start record finished (finished.map (·.path) ++ [f.path]) a' ∧
        (f.path ∈ a'.progress.createdFiles ∨ ∃ old, (f.path, old) ∈ a'.progress.previous)) (Thwarted t start record) := by
  have listed : f ∈ t.files := by simp [files]
  refine .bind ((makeDirs_noted ready files writing).mono ?_ fun _ _ bad => bad)
  intro made a' writing
  refine .bind (.update ?_)
  refine .bind ((exists_noted ready listed writing).mono ?_ fun _ _ bad => bad)
  rintro answer b ⟨found, writing⟩
  cases answer with
  | false =>
    have gone : b.store.tree.get? (start.place f.path) = none ∨ b.store.tree.get? (start.place f.path) = some .dangling := by
      cases there : b.store.tree.get? (start.place f.path) with
      | none => exact .inl rfl
      | some n =>
        refine .inr (congrArg some ?_)
        by_contra solid
        simp [there, Option.filter_some, solid] at found
    rw [if_neg Bool.false_ne_true]
    exact .update ⟨new_noted ready ⟨other, f, listed, rfl⟩ writing gone, .inl (by simp)⟩
  | true =>
    rw [if_pos rfl]
    refine .bind ((read_noted ready listed writing).mono ?_ fun _ _ bad => bad)
    rintro bytes c ⟨there, writing⟩
    exact .update ⟨old_noted ready files other writing there, .inr ⟨bytes, (putContent_mem f.path bytes _).1⟩⟩

theorem put_noted (ready : t.Ready start record.path original) (files : t.files = finished ++ f :: rest) {u : Tree}
    (writing : Writing t start record finished (finished.map (·.path) ++ [f.path]) a)
    (noted : f.path ∈ a.progress.createdFiles ∨ (∃ old, (f.path, old) ∈ a.progress.previous) ∨ f.path = t.source)
    (accepted : a.store.tree.write f.path bytes = .ok u) (encoded : a.store.OnlyErrors → t.encode f.text = .ok bytes) :
    Writing t start record (finished ++ [f]) ((finished ++ [f]).map (·.path))
      {progress := {a.progress with written := a.progress.written ++ [f.path]}
       store := a.store.next ⟨.writeBytes, f.path⟩ u} := by
  have listed : f ∈ t.files := by simp [files]
  have fresh := fresh_of_finished ready files
  have books := writing.books
  have reached := (books.keeps ready).admits (ready.admitted f listed)
  have place := books.place_eq f.path
  have paths : (finished ++ [f]).map (·.path) = finished.map (·.path) ++ [f.path] := by simp
  rcases write_parts reached.accept a.store.tree bytes with ⟨e, refused⟩ | ⟨done, located, free⟩
  · rw [refused] at accepted
    cases accepted
  · rw [done] at accepted
    cases accepted
    rw [place] at located free ⊢
    have parent := parent_of_located books.rooted reached located
    have inner : start.place f.path ≠ [] := by
      intro root
      rw [root, get?_root] at free
      simp at free
    have changes := Tree.get?_put inner a.store.tree (.file bytes)
    refine ⟨⟨writing.backup, writing.calm, books.put_file ready parent free noted⟩, ?_, ?_, ?_, writing.safe, ?_⟩
    · rw [paths, ← writing.written]
    · rw [paths]
      exact writing.new
    · rw [paths]
      exact writing.old
    · intro errors g member
      rcases mem_append.mp member with earlier | last
      · obtain ⟨content, same, file⟩ := writing.contents errors g earlier
        refine ⟨content, same, ?_⟩
        show (a.store.tree.put _ _).get? _ = _
        rw [changes, if_neg, file]
        exact Ne.symm (fresh g.path (mem_map_of_mem earlier))
      · rw [mem_singleton.mp last]
        refine ⟨bytes, encoded errors, ?_⟩
        show (a.store.tree.put _ _).get? _ = _
        rw [changes, if_pos rfl]

theorem put_after (ready : t.Ready start record.path original)
    (files : t.files = finished ++ f :: rest) (encoded : t.encode f.text = .ok bytes)
    (writing : Writing t start record finished (finished.map (·.path) ++ [f.path]) a)
    (noted : f.path ∈ a.progress.createdFiles ∨ (∃ old, (f.path, old) ∈ a.progress.previous) ∨ f.path = t.source) :
    After (onStore (Store.write f.path bytes)) a (fun _ a' => Writing t start record (finished ++ [f])
        ((finished ++ [f]).map (·.path)) {a' with progress := {a'.progress with written := a'.progress.written ++ [f.path]}})
      (Thwarted t start record) := by
  have listed : f ∈ t.files := by simp [files]
  have reached := (writing.books.keeps ready).admits (ready.admitted f listed)
  -- What a schedule of refusals does not do.
  have intact : ∀ content, a.store.schedule (⟨.writeBytes, f.path⟩ :: a.store.calls) =
      some (.corrupt content) → ¬a.store.OnlyErrors := by
    intro content planned errors
    obtain ⟨_, other⟩ := errors _ _ planned
    cases other
  refine .onStore ((write_call a.store f.path bytes).mono ?_ ?_)
  · intro _ s puts
    cases puts with
    | written accepted same =>
      subst same
      exact put_noted ready files writing noted accepted fun _ => encoded
    | altered planned accepted same =>
      subst same
      exact put_noted ready files writing noted accepted fun errors => absurd errors (intact _ planned)
    | dropped planned same =>
      subst same
      have paths : (finished ++ [f]).map (·.path) = finished.map (·.path) ++ [f.path] := by simp
      rw [paths]
      refine ⟨⟨writing.backup, writing.calm, writing.books⟩, ?_, writing.new, writing.old,
        writing.safe, fun errors => absurd errors (intact _ planned)⟩
      rw [paths, ← writing.written]
  · rintro failure s ⟨same, stopped | ⟨other, failed, _⟩⟩
    · refine thwarted_of_refused writing.toUndoable same (os_of_refused (stopped.refused ?_))
      rw [same]
      exact writing.calm _
    · rcases write_parts reached.accept a.store.tree other with ⟨e, refused⟩ | ⟨done, _, _⟩
      · rw [refused] at failed
        cases failed
        exact thwarted_of_refused writing.toUndoable same ⟨e, rfl⟩
      · rw [done] at failed
        cases failed

theorem writeFile_after (ready : t.Ready start record.path original)
    (files : t.files = finished ++ f :: rest) (encoded : t.encode f.text = .ok bytes)
    (writing : Writing t start record finished (finished.map (·.path)) a) : After (t.writeFile f) a
      (fun _ a' => Writing t start record (finished ++ [f]) ((finished ++ [f]).map (·.path))
        {a' with progress := {a'.progress with written := a'.progress.written ++ [f.path]}}) (Thwarted t start record) := by
  unfold writeFile
  dsimp only
  rw [encoded]
  by_cases source : f.path = t.source
  · rw [if_neg (not_not.mpr source)]
    refine put_after ready files encoded ?_ (.inr (.inr source))
    exact ⟨writing.toUndoable, writing.written, fun p new => mem_append_left _ (writing.new p new),
      fun e old => mem_append_left _ (writing.old e old), writing.safe, writing.contents⟩
  · rw [if_pos source]
    refine .bind ((prepare_after ready files source writing).mono ?_ fun _ _ bad => bad)
    rintro _ a' ⟨writing, noted⟩
    refine put_after ready files encoded writing ?_
    rcases noted with new | old
    · exact .inl new
    · exact .inr (.inl old)

-- How writing fails: at the first file that cannot be written.
structure WriteFailed (t : Transaction) (start : Tree) (record : Backup) (failure : Failure)
    (a : Attempt) : Prop extends Undoable t start record a where
  named : ∃ earlier f later reason, t.files = earlier ++ f :: later ∧
    failure = .write f.path reason ∧ a.progress.written = earlier.map (·.path)

-- The induction is on the files still to be written.
theorem writeFiles_after (ready : t.Ready start record.path original)
    (files : t.files = finished ++ rest) (encodable : ∀ f ∈ t.files, ∃ bytes, t.encode f.text = .ok bytes)
    (writing : Writing t start record finished (finished.map (·.path)) a) : After (t.writeFiles rest) a
      (fun _ a' => Writing t start record t.files (t.files.map (·.path)) a') (t.WriteFailed start record) := by
  induction rest generalizing finished a with
  | nil =>
    rw [append_nil] at files
    subst files
    exact writing
  | cons f rest ih =>
    obtain ⟨bytes, encoded⟩ := encodable f (by simp [files])
    refine .bind (.named (((writeFile_after ready files encoded writing).both (writeFile_steady t f a)).mono ?_ ?_))
    · rintro _ a' ⟨writing, _⟩
      refine .bind (.update ?_)
      exact ih (by simp [files]) writing
    · rintro failure a' ⟨⟨⟨e, rfl⟩, undoable⟩, steady⟩
      exact ⟨e, rfl, undoable, finished, f, rest, e.message, files, rfl, steady.written.trans writing.written⟩

end Transaction

theorem checkFile_after {s : Store} {p : Path} {found : Option Node} (calm : s.Calm)
    (mode : DelimiterMode) (codec : Codec) (asked : s.tree.ask p = .ok found) : After (checkFile mode codec p) s
      (fun fault s' => s.Quiet s' ∧ (fault = none → Passes mode codec s.tree p) ∧
        ∀ f, fault = some f → ∃ s₁, s.Quiet s₁ ∧ Offends mode codec s₁ p f)
      fun f s' => s.Quiet s' ∧ ((s' = s.next ⟨.isFile, p⟩ s.tree ∧ s'.Refused f) ∨
        ∃ bytes, s.tree.ask p = .ok (some (.file bytes)) ∧ codec.decode bytes = .error f ∧ ∀ d, f ≠ .decode d) := by
  refine (checkFile_call s mode codec p).mono (fun _ _ good => good) ?_
  rintro f s' ⟨quiet, ⟨rfl, stopped | failed⟩ | interrupted | refused⟩
  · exact ⟨quiet, .inl ⟨rfl, stopped.refused (calm _)⟩⟩
  · rw [asked] at failed
    cases failed
  · exact absurd interrupted (quiet.calm calm _)
  · exact ⟨quiet, .inr refused⟩

namespace Transaction

open AttemptM

variable {t : Transaction} {start : Tree} {record : Backup} {original : Bytes} {a b : Attempt}

-- Where a file of the set cannot be decoded, that is a failure of decoding.
def Judges (t : Transaction) (tree : Tree) : Prop :=
  ∀ f ∈ t.files, ∀ bytes failure, tree.ask f.path = .ok (some (.file bytes)) →
    t.codec.decode bytes = .error failure → ∃ d, failure = .decode d

theorem verifyFiles_after (ready : t.Ready start record.path original) (judges : t.Judges a.store.tree)
    {paths : List Path} (answers : a.store.Answers .isFile) (listed : ∀ p ∈ paths, ∃ f ∈ t.files, f.path = p)
    (undoable : Undoable t start record a) : After (t.verifyFiles paths) a (fun _ => a.Quiet)
      fun failure a' => a.Quiet a' ∧
        ∃ p fault, failure = .verification p fault.message ∧ FirstFault t.mode t.codec a.store paths p fault := by
  induction paths generalizing a with
  | nil => exact ⟨rfl, .refl _⟩
  | cons p rest ih =>
    obtain ⟨f, member, rfl⟩ := listed p mem_cons_self
    have asked := undoable.books.ask ready (ready.admitted f member)
    refine .bind (.onStore ((checkFile_after undoable.calm t.mode t.codec asked).mono ?_ ?_))
    · rintro fault s ⟨quiet, passes, offends⟩
      have same : a.Quiet {a with store := s} := ⟨rfl, quiet⟩
      cases fault with
      | some fault => exact ⟨same, f.path, fault, rfl, ⟨[], rest, rfl, nofun⟩, offends fault rfl⟩
      | none =>
        have tree : s.tree = a.store.tree := quiet.tree
        refine (ih (by rw [tree]; exact judges) (quiet.answers answers) (fun q later => listed q (mem_cons_of_mem _ later)) (undoable.quiet same)).mono ?_ ?_
        · exact fun _ a' further => same.trans further
        · rintro failure a' ⟨further, p, fault, named, first⟩
          exact ⟨same.trans further, p, fault, named, first.behind quiet (passes rfl)⟩
    · rintro failure s ⟨_, ⟨rfl, words, planned, _⟩ | ⟨bytes, there, refused, other⟩⟩
      · exact absurd planned (answers _ _ _)
      · obtain ⟨d, same⟩ := judges f member bytes failure there refused
        exact absurd same (other d)

theorem write_after (ready : t.Ready start record.path original)
    (encodable : ∀ f ∈ t.files, ∃ bytes, t.encode f.text = .ok bytes) (writing : Writing t start record [] [] a) :
    After t.write a (fun _ a' => Writing t start record t.files (t.files.map (·.path)) a') (t.WriteFailed start record) := by
  have files : t.files = [] ++ t.files := rfl
  refine .bind ((writeFiles_after ready files encodable writing).mono ?_ fun _ _ bad => bad)
  intro _ a' writing
  refine .bind (.update ?_)
  exact ⟨⟨writing.backup, writing.calm, writing.books⟩, writing.written, writing.new, writing.old, writing.safe, writing.contents⟩

theorem verify_after (ready : t.Ready start record.path original) (judges : t.Judges a.store.tree) (answers : a.store.Answers .isFile)
    (writing : Writing t start record t.files (t.files.map (·.path)) a) :
    After t.verify a (fun _ a' => Writing t start record t.files (t.files.map (·.path)) a')
      fun failure a' => Undoable t start record a' ∧ ∃ p fault, failure = .verification p fault.message ∧
          FirstFault t.mode t.codec a.store (t.files.map (·.path)) p fault := by
  have listed : ∀ p ∈ a.progress.written, ∃ f ∈ t.files, f.path = p := by
    intro p member
    rw [writing.written] at member
    exact mem_map.mp member
  refine .bind (.progress (.bind ((verifyFiles_after ready judges answers listed writing.toUndoable).mono ?_ ?_)))
  · intro _ a' quiet
    have still := writing.quiet quiet
    exact .update ⟨⟨still.backup, still.calm, still.books⟩, still.written, still.new, still.old, still.safe, still.contents⟩
  · rintro failure a' ⟨quiet, found⟩
    rw [writing.written] at found
    exact ⟨writing.toUndoable.quiet quiet, found⟩

-- What a failed attempt is laid to; `a` is where it started to write.
inductive Blamed (t : Transaction) (a : Attempt) (o : Outcome) : Prop where
  | write {earlier later : List OutputFile} {f : OutputFile} {reason : Text} {b : Attempt}
      (files : t.files = earlier ++ f :: later)
      (broke : t.write a = .error (.write f.path reason) b)
      (written : b.progress.written = earlier.map (·.path))
      (error : o.error = some (.write, (Failure.write f.path reason).message))
  | verification {paths : List Path} {p : Path} {fault : FileFault} {b : Attempt}
      (written : t.write a = .ok paths b)
      (first : FirstFault t.mode t.codec b.store (t.files.map (·.path)) p fault)
      (error : o.error = some (.verification, (Failure.verification p fault.message).message))

theorem Blamed.error_ne {o : Outcome} (blamed : t.Blamed a o) : o.error ≠ none := by
  cases blamed with
  | write files broke written error => simp [error]
  | verification written first error => simp [error]

inductive Breaks (t : Transaction) (a : Attempt) (f : Failure) (b : Attempt) : Prop where
  | write (broke : t.write a = .error f b)
  | verify {paths : List Path} {w : Attempt} (written : t.write a = .ok paths w)
      (broke : t.verify w = .error f b)

theorem Breaks.schedule {f : Failure} (breaks : t.Breaks a f b) : b.store.schedule = a.store.schedule := by
  cases breaks with
  | write broke => exact (t.write_schedule a).broke broke
  | verify written broke =>
    exact ((t.verify_steady _).broke broke).schedule.trans ((t.write_schedule a).ended written)

inductive Committed (t : Transaction) (start : Tree) (record : Backup) (a : Attempt) (o : Outcome)
    (b : Attempt) : Prop where
  | success (error : o.error = none) (backup : o.backup = some record)
      (written : o.written = t.files.map (·.path)) (schedule : b.store.schedule = a.store.schedule)
      (writing : Writing t start record t.files (t.files.map (·.path)) b)
  | failure (blamed : t.Blamed a o) (same : b.store.tree.SameAs start)

theorem commit_after {may : Text → Prop} (ready : t.Ready start record.path original)
    (encodable : ∀ f ∈ t.files, ∃ bytes, t.encode f.text = .ok bytes)
    (judges : ∀ w, w.store.schedule = a.store.schedule → Writing t start record t.files (t.files.map (·.path)) w →
      t.Judges w.store.tree) (answers : a.store.Answers .isFile)
    (writing : Writing t start record [] [] a) (refuses : ∀ f b, t.Breaks a f b → b.store.Refuses b.progress.Undoes may) : After t.commit a (t.Committed start record a)
      fun f b => ∃ cause, t.Abandoned may record.path original cause f b := by
  -- Either failure is undone in the same way.
  have undone : ∀ setback failure b, Undoable t start record b → t.Breaks a failure b →
      (∀ o, o.error = some (setback, failure.message) → t.Blamed a o) →
      After (t.failed setback failure) b (t.Committed start record a)
        fun f b => ∃ cause, t.Abandoned may record.path original cause f b := by
    intro setback failure b undoable breaks blames
    refine (failed_after ready undoable.backup (undoable.keeping (refuses failure b breaks)) setback failure).mono ?_ ?_
    · rintro o b ⟨error, same⟩
      exact .failure (blames o error) same
    · intro f b abandoned
      exact ⟨failure.message, abandoned⟩
  refine .recover (.bind (((write_after ready encodable writing).both (.exact _ _)).mono ?_ ?_))
  · rintro paths w ⟨writing, wrote⟩
    have schedule := (t.write_schedule a).ended wrote
    have heard : w.store.Answers .isFile := by
      intro p calls words
      rw [schedule]
      exact answers p calls words
    refine .bind (((verify_after ready (judges w schedule writing) heard writing).both (.exact _ _)).mono ?_ ?_)
    · rintro _ b ⟨writing, verified⟩
      refine .bind (.progress ?_)
      exact .success rfl writing.backup writing.written
        (((t.verify_steady w).ended verified).schedule.trans schedule) writing
    · rintro _ b ⟨⟨undoable, p, fault, rfl, first⟩, broke⟩
      exact undone .verification _ b undoable (.verify wrote broke) fun o error => .verification wrote first error
  · rintro _ b ⟨⟨undoable, earlier, f, later, reason, files, rfl, written⟩, broke⟩
    exact undone .write _ b undoable (.write broke) fun o error => .write files broke written error

end Transaction

end ModuleSplit
