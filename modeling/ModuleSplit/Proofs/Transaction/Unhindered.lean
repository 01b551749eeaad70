import ModuleSplit.Proofs.Delimiter.LineBreaks
import ModuleSplit.Proofs.Transaction.Verified
import ModuleSplit.Proofs.Tree.Opening

namespace ModuleSplit

open List Store ModuleSplit.Tree

namespace Store

variable {s : Store} {p : Path}

def Faultless (s : Store) : Prop := ∀ calls, s.schedule calls = none

def writes (s : Store) : List Path := (s.calls.filter (·.kind = .writeBytes)).map (·.path)

@[simp] theorem writes_next (s : Store) (c : Call) (t : Tree) :
    (s.next c t).writes = if c.kind = .writeBytes then c.path :: s.writes else s.writes := by
  unfold writes next
  dsimp only
  by_cases write : c.kind = .writeBytes
  · rw [if_pos write, filter_cons_of_pos (by simpa using write), map_cons]
  · rw [if_neg write, filter_cons_of_neg (by simpa using write)]

theorem Quiet.writes {s' : Store} (quiet : s.Quiet s') : s'.writes = s.writes := by
  obtain ⟨made, calls, looks⟩ := quiet.calls
  have none : made.filter (·.kind = .writeBytes) = [] := by
    rw [filter_eq_nil_iff]
    intro c member write
    have look := looks c member
    rw [of_decide_eq_true write] at look
    cases look
  unfold Store.writes
  rw [calls, filter_append, none, nil_append]

namespace Faultless

variable {u : Tree}

theorem of_schedule {s' : Store} (faultless : s.Faultless) (same : s'.schedule = s.schedule) : s'.Faultless := by
  intro calls
  rw [same, faultless]

theorem errors (faultless : s.Faultless) : s.OnlyErrors := by
  intro calls trouble planned
  rw [faultless] at planned
  cases planned

theorem refuses (faultless : s.Faultless) (such : Call → Prop) : s.Refuses such fun _ => False := by
  intro c made trouble _ planned
  rw [faultless] at planned
  cases planned

theorem quiet {s' : Store} (faultless : s.Faultless) (quiet : s.Quiet s') : s'.Faultless :=
  faultless.of_schedule quiet.schedule

theorem not_stopped (faultless : s.Faultless) {f : Failure} : ¬s.Stopped f := by
  rintro (⟨words, planned, _⟩ | ⟨planned, _⟩)
  · rw [faultless] at planned
    cases planned
  · rw [faultless] at planned
    cases planned

theorem not_refused (faultless : s.Faultless) {c : Call} {t : Tree} {f : Failure} : ¬(s.next c t).Refused f := by
  have still : (s.next c t).Faultless := faultless.of_schedule rfl
  exact fun refused => still.not_stopped (.inl refused)

theorem answers (faultless : s.Faultless) (kind : CallKind) : s.Answers kind := by
  intro p calls words
  rw [faultless]
  nofun

theorem changes (faultless : s.Faultless) {action : StoreM PUnit} {c : Call} {result : Result Tree}
    (accepted : result = .ok u) (after : After action s (fun _ s' => ∃ u, result = .ok u ∧ s' = s.next c u)
      fun f s' => s' = s.next c s.tree ∧ (s'.Refused f ∨ result = .error f)) :
    After action s (fun _ s' => s' = s.next c u) fun _ _ => False := by
  subst accepted
  refine after.mono ?_ ?_
  · rintro _ s' ⟨_, ⟨⟩, rfl⟩
    rfl
  · rintro f s' ⟨rfl, refused | failed⟩
    · exact faultless.not_refused refused
    · cases failed

theorem write (faultless : s.Faultless) {bytes : Bytes} (accepted : s.tree.write p bytes = .ok u) :
    After (Store.write p bytes) s (fun _ s' => s' = s.next ⟨.writeBytes, p⟩ u) fun _ _ => False :=
  faultless.changes accepted (write_after p bytes (faultless.errors _))

theorem copy (faultless : s.Faultless) {source : Path} (accepted : s.tree.copy source p = .ok u) :
    After (Store.copy source p) s (fun _ s' => s' = s.next ⟨.copy, p⟩ u) fun _ _ => False :=
  faultless.changes accepted (copy_after source p (faultless.errors.calm _))

theorem «exists» (faultless : s.Faultless) {found : Option Node} (asked : s.tree.ask p = .ok found) :
    After (Store.exists p) s (fun answer s' => answer = found.isSome ∧ s' = s.next ⟨.exists, p⟩ s.tree) fun _ _ => False := by
  refine (exists_after asked (faultless.errors.calm _)).mono (fun _ _ answered => answered) ?_
  rintro f s' ⟨rfl, refused⟩
  exact faultless.not_refused refused

theorem isFile (faultless : s.Faultless) {bytes : Bytes} (asked : s.tree.ask p = .ok (some (.file bytes))) :
    After (Store.isFile p) s (fun answer s' => answer = true ∧ s' = s.next ⟨.isFile, p⟩ s.tree) fun _ _ => False := by
  refine (isFile_after asked (faultless.errors.calm _)).mono ?_ ?_
  · rintro answer s' ⟨isFile, same⟩
    exact ⟨isFile.mpr ⟨bytes, rfl⟩, same⟩
  · rintro f s' ⟨rfl, refused⟩
    exact faultless.not_refused refused

theorem choose (faultless : s.Faultless) {dir source saved : Path} {m : Moment}
    (chosen : Backup.target s.tree dir source m = .ok saved) :
    After (Backup.choose dir source m) s (fun path s' => path = saved ∧ s.Quiet s') fun _ _ => False := by
  refine (Backup.choose_call s dir source m).mono ?_ ?_
  · rintro path s' ⟨found, quiet⟩
    cases chosen.symm.trans found
    exact ⟨rfl, quiet⟩
  · rintro f s' ⟨quiet, ⟨_, _, stopped⟩ | failed⟩
    · exact (faultless.quiet quiet).not_stopped stopped
    · cases chosen.symm.trans failed

theorem makeDirs (faultless : s.Faultless) {made : List Path}
    (missing : s.tree.missing p = .ok made) (accepted : s.tree.makeDirectories p = (.ok ⟨⟩, u)) :
    After (Store.makeDirs p) s (fun _ s' => s' = s.next ⟨.makeDirs, p⟩ u) fun _ _ => False := by
  refine (makeDirs_after p (faultless.errors.calm _)).mono ?_ ?_
  · rintro _ s' ⟨u', _, same, rfl⟩
    rw [accepted] at same
    cases same
    rfl
  · rintro f s' (⟨rfl, refused | failed⟩ | ⟨u', failed, _⟩)
    · exact faultless.not_refused refused
    · rw [missing] at failed
      cases failed
    · rw [accepted] at failed
      cases failed

end Faultless

end Store

-- Files that are still to be written: new ones in one directory, and the source.
structure Transaction.Awaits (t : Transaction) (dir : Path) (now : Tree) (rest : List OutputFile) :
    Prop where
  rooted : now.Rooted
  opens : now.Opens dir
  admitted : ∀ f ∈ rest, now.Admits f.path
  distinct : (rest.map fun f => now.place f.path).Nodup
  new : ∀ f ∈ rest, f.path ≠ t.source → now.get? (now.place f.path) = none ∧
    ∃ name, name ≠ "..".toList ∧ f.path = ⟨dir.root, dir.parts ++ [name]⟩
  source : ∀ f ∈ rest, f.path = t.source → ∃ bytes, now.get? (now.place f.path) = some (.file bytes)

namespace Transaction

open AttemptM

variable {t : Transaction} {dir : Path} {now u : Tree} {f : OutputFile} {rest : List OutputFile}
  {a : Attempt}

namespace Awaits

theorem tail (awaits : t.Awaits dir now (f :: rest)) : t.Awaits dir now rest :=
  ⟨awaits.rooted, awaits.opens, fun g later => awaits.admitted g (mem_cons_of_mem _ later),
    (nodup_cons.mp awaits.distinct).2, fun g later => awaits.new g (mem_cons_of_mem _ later),
    fun g later => awaits.source g (mem_cons_of_mem _ later)⟩

theorem place_ne (awaits : t.Awaits dir now rest) (member : f ∈ rest) : now.place f.path ≠ now.place dir := by
  by_cases source : f.path = t.source
  · obtain ⟨bytes, file⟩ := awaits.source f member source
    intro same
    rw [same] at file
    cases awaits.opens with
    | there found =>
      rw [(isDirectory_parts found).2] at file
      cases file
    | new above absent =>
      rw [absent] at file
      cases file
  · obtain ⟨_, name, child, path⟩ := awaits.new f member source
    rw [path, place_child child]
    simp

theorem kept (awaits : t.Awaits dir now rest) (keeps : now.Keeps u) (rooted : u.Rooted) (opens : u.Opens dir)
    (same : ∀ g ∈ rest, u.get? (now.place g.path) = now.get? (now.place g.path)) : t.Awaits dir u rest := by
  have place := keeps.place
  refine ⟨rooted, opens, fun g member => keeps.admits (awaits.admitted g member), ?_, ?_, ?_⟩
  · simp only [place]
    exact awaits.distinct
  · intro g member other
    rw [place, same g member]
    exact awaits.new g member other
  · intro g member source
    rw [place, same g member]
    exact awaits.source g member source

theorem opened (awaits : t.Awaits dir now rest) (opened : now.Opened dir u) : t.Awaits dir u rest :=
  awaits.kept opened.keeps opened.rooted (.there opened.found) fun _ member => opened.change _ (awaits.place_ne member)

theorem put {l : Location} (awaits : t.Awaits dir now rest)
    (parent : now.get? l.dropLast = some .directory) (leaf : now.get? l ≠ some .directory)
    (aside : l ≠ now.place dir) (fresh : ∀ g ∈ rest, now.place g.path ≠ l) (bytes : Bytes) :
    t.Awaits dir (now.put l (.file bytes)) rest := by
  have inner : l ≠ [] := by
    rintro rfl
    exact leaf rfl
  have changes := Tree.get?_put inner now (.file bytes)
  have keeps : now.Keeps (now.put l (.file bytes)) := by
    refine ⟨rfl, fun m there => ?_⟩
    rw [changes, if_neg (by rintro rfl; exact leaf there), there]
  refine awaits.kept keeps (awaits.rooted.put_file inner parent leaf) ?_ ?_
  · cases awaits.opens with
    | there found => exact .there (keeps.isDirectory found)
    | new above absent =>
      refine .new (keeps.isDirectory above) ?_
      rw [keeps.place, changes, if_neg (Ne.symm aside), absent]
  · intro g member
    rw [changes, if_neg (fresh g member)]

theorem put_first (awaits : t.Awaits dir now (f :: rest)) (parent : now.get? (now.place f.path).dropLast = some .directory)
    (leaf : now.get? (now.place f.path) ≠ some .directory) (bytes : Bytes) :
    t.Awaits dir (now.put (now.place f.path) (.file bytes)) rest := by
  refine awaits.tail.put parent leaf (awaits.place_ne mem_cons_self) ?_ bytes
  intro g member same
  refine (nodup_cons.mp awaits.distinct).1 ?_
  show now.place f.path ∈ _
  rw [← same]
  exact mem_map_of_mem member

end Awaits

theorem prepare_unhindered (faultless : a.store.Faultless)
    (awaits : t.Awaits dir a.store.tree (f :: rest)) (other : f.path ≠ t.source) : After (prepare f.path) a
      (fun _ b => b.store.Faultless ∧ b.store.writes = a.store.writes ∧
        t.Awaits dir b.store.tree (f :: rest) ∧ b.store.tree.isDirectory dir = true) fun _ _ => False := by
  obtain ⟨_, name, child, path⟩ := awaits.new f mem_cons_self other
  have parent : f.path.parent = dir := by
    rw [path, Path.parent_snoc]
  have admitted := (awaits.admitted f mem_cons_self).parent
  rw [parent] at admitted
  obtain ⟨made, u, missing, done, opened⟩ := makeDirectories_opens awaits.rooted admitted awaits.opens
  have awaits := awaits.opened opened
  have asked := ask_admitted awaits.rooted (awaits.admitted f mem_cons_self)
  rw [(awaits.new f mem_cons_self other).1] at asked
  unfold prepare
  rw [parent]
  refine .bind (.onStore ((faultless.makeDirs missing done).mono ?_ fun _ _ bad => bad))
  rintro made' s rfl
  have still : (a.store.next ⟨.makeDirs, dir⟩ u).Faultless := faultless.of_schedule rfl
  refine .bind (.update (.bind (.onStore ((still.exists asked).mono ?_ fun _ _ bad => bad))))
  rintro answer s ⟨rfl, rfl⟩
  rw [if_neg (by simp)]
  refine .update ⟨faultless.of_schedule rfl, ?_, awaits, opened.found⟩
  rw [writes_next, if_neg nofun, writes_next, if_neg nofun]

theorem writeFile_unhindered (faultless : a.store.Faultless)
    (awaits : t.Awaits dir a.store.tree (f :: rest)) {bytes : Bytes} (encoded : t.encode f.text = .ok bytes) :
    After (t.writeFile f) a (fun _ b => b.store.Faultless ∧ b.store.writes = f.path :: a.store.writes ∧
        t.Awaits dir b.store.tree rest) fun _ _ => False := by
  -- The directory is there by now, and what is at the place of the file can be replaced.
  have put : ∀ b : Attempt, b.store.Faultless → b.store.writes = a.store.writes → t.Awaits dir b.store.tree (f :: rest) →
      b.store.tree.get? (b.store.tree.place f.path).dropLast = some .directory →
      b.store.tree.get? (b.store.tree.place f.path) ≠ some .directory →
      b.store.tree.write f.path bytes = .ok (b.store.tree.put (b.store.tree.place f.path) (.file bytes)) →
      After (onStore (Store.write f.path bytes)) b (fun _ c => c.store.Faultless ∧ c.store.writes = f.path :: a.store.writes ∧
          t.Awaits dir c.store.tree rest) fun _ _ => False := by
    intro b faultless writes awaits parent leaf accepted
    refine .onStore ((faultless.write accepted).mono ?_ fun _ _ bad => bad)
    rintro _ s rfl
    refine ⟨faultless.of_schedule rfl, ?_, awaits.put_first parent leaf bytes⟩
    exact (writes_next _ _ _).trans ((if_pos rfl).trans (congrArg _ writes))
  unfold writeFile
  dsimp only
  rw [encoded]
  by_cases source : f.path = t.source
  · obtain ⟨old, file⟩ := awaits.source f mem_cons_self source
    have admitted := awaits.admitted f mem_cons_self
    rw [if_neg (not_not.mpr source)]
    exact put a faultless rfl awaits (awaits.rooted _ _ file) (by simp [file]) (write_file awaits.rooted admitted file bytes)
  · rw [if_pos source]
    refine .bind ((prepare_unhindered faultless awaits source).mono ?_ fun _ _ bad => bad)
    rintro _ b ⟨faultless, writes, awaits, found⟩
    obtain ⟨absent, name, child, path⟩ := awaits.new f mem_cons_self source
    have admitted := awaits.admitted f mem_cons_self
    obtain ⟨located, there⟩ := isDirectory_parts found
    have place : b.store.tree.place f.path = b.store.tree.place dir ++ [name] := by
      rw [path, place_child child]
    have reached : b.store.tree.locate f.path = .ok (b.store.tree.place f.path) := by
      have short := admitted.storable.short name (by rw [path]; simp)
      have brief := admitted.storable.brief
      rw [place]
      rw [path] at brief ⊢
      exact locate_child located there child short brief
    refine put b faultless writes awaits ?_ (by simp [absent]) (write_free admitted.accept reached absent bytes)
    rw [place, dropLast_concat]
    exact there

-- The induction is on the files still to be written.
theorem writeFiles_unhindered (faultless : a.store.Faultless) (awaits : t.Awaits dir a.store.tree rest)
    (encodable : ∀ f ∈ rest, ∃ bytes, t.encode f.text = .ok bytes) : After (t.writeFiles rest) a
      (fun _ b => b.store.writes = (rest.map (·.path)).reverse ++ a.store.writes) fun _ _ => False := by
  induction rest generalizing a with
  | nil => rfl
  | cons f rest ih =>
    rw [forall_mem_cons] at encodable
    obtain ⟨⟨bytes, encoded⟩, encodable⟩ := encodable
    refine .bind (.named ((writeFile_unhindered faultless awaits encoded).mono ?_ fun _ _ bad => bad.elim))
    rintro _ b ⟨faultless, writes, awaits⟩
    refine .bind (.update (After.mono (ih ?_ ?_ encodable) ?_ fun _ _ bad => bad))
    · exact faultless
    · exact awaits
    · intro _ c further
      rw [further, map_cons, reverse_cons, append_assoc, singleton_append]
      exact congrArg _ writes

theorem write_unhindered (faultless : a.store.Faultless) (awaits : t.Awaits dir a.store.tree t.files)
    (encodable : ∀ f ∈ t.files, ∃ bytes, t.encode f.text = .ok bytes) :
    After t.write a (fun _ b => b.store.writes = (t.files.map (·.path)).reverse ++ a.store.writes) fun _ _ => False := by
  refine .bind ((writeFiles_unhindered faultless awaits encodable).mono ?_ fun _ _ bad => bad)
  intro _ b writes
  exact .bind (.update (.bind (.progress writes)))

theorem verifyFiles_writes (t : Transaction) (paths : List Path) (a : Attempt) :
    After (t.verifyFiles paths) a (fun _ b => b.store.writes = a.store.writes) fun _ _ => True := by
  induction paths generalizing a with
  | nil => rfl
  | cons p rest ih =>
    refine .bind (.onStore ((checkFile_quiet a.store t.mode t.codec p).mono ?_ fun _ _ _ => trivial))
    intro fault s quiet
    cases fault with
    | some fault => trivial
    | none =>
      refine (ih {a with store := s}).mono ?_ fun _ _ _ => trivial
      intro _ b same
      exact same.trans quiet.writes

theorem verify_writes (t : Transaction) (a : Attempt) :
    After t.verify a (fun _ b => b.store.writes = a.store.writes) fun _ _ => True := by
  refine .bind (.progress (.bind ((verifyFiles_writes t _ a).mono ?_ fun _ _ _ => trivial)))
  intro _ b same
  exact .update same

theorem commit_writes (faultless : a.store.Faultless) (awaits : t.Awaits dir a.store.tree t.files)
    (encodable : ∀ f ∈ t.files, ∃ bytes, t.encode f.text = .ok bytes) : After t.commit a (fun o b => o.error = none →
      b.store.writes = (t.files.map (·.path)).reverse ++ a.store.writes) fun _ _ => True := by
  refine commit_success (P := fun _ s => s.writes = (t.files.map (·.path)).reverse ++ a.store.writes)
    ((write_unhindered faultless awaits encodable).mono ?_ fun _ _ _ => trivial)
  intro _ b writes
  exact (verify_writes t b).mono (fun _ _ same => same.trans writes) fun _ _ _ => trivial

structure Room (t : Transaction) (m : Moment) (now : Tree) (saved : Path) : Prop where
  found : now.isDirectory t.backupDir = true
  chosen : Backup.target now t.backupDir t.source m = .ok saved
  solid : now.get? (now.place saved) ≠ some .dangling

variable {m : Moment} {saved : Path} {original : Bytes} {store : Store}

theorem Room.named (room : t.Room m now saved) (named : ∀ c ∈ t.source.name, NameChar c) :
    ∃ attempt, saved = Backup.candidate t.backupDir t.source m attempt ∧ now.ask saved = .ok none := by
  rcases Backup.target_free now t.backupDir m named with ⟨e, refused⟩ | ⟨attempt, chosen, free⟩
  · cases room.chosen.symm.trans refused
  · cases room.chosen.symm.trans chosen
    exact ⟨attempt, rfl, free⟩

theorem Room.copy (room : t.Room m now saved) (savable : t.Savable now original) :
    now.get? (now.place saved) = none ∧ now.get? (now.place saved).dropLast = some .directory ∧
      now.copy t.source saved = .ok (now.put (now.place saved) (.file original)) := by
  obtain ⟨attempt, rfl, free⟩ := room.named savable.named
  have allowed := candidate_accepted savable.accepted savable.named m attempt
  have reached := locate_asked room.found (Backup.fileName_ne_up t.source m attempt) allowed free
  have absent : now.get? (now.place (Backup.candidate t.backupDir t.source m attempt)) = none :=
    (ask_none allowed free reached).resolve_right room.solid
  have read := read_file savable.rooted savable.source savable.there
  refine ⟨absent, ?_, ?_⟩
  · rw [Backup.place_candidate, dropLast_concat]
    exact (isDirectory_parts room.found).2
  · rw [copy_eq savable.source.accept allowed read (not_isDirectory (by simp [absent]))]
    exact write_free allowed reached absent original

theorem backup_unhindered (faultless : a.store.Faultless)
    (savable : t.Savable a.store.tree original) (room : t.Room m a.store.tree saved) : After (t.backup m) a
      (fun record b => record.path = saved ∧ b.store.writes = a.store.writes ∧
        b.store.tree = a.store.tree.put (a.store.tree.place saved) (.file original)) fun _ _ => False := by
  have asked := ask_admitted savable.rooted savable.source
  rw [savable.there] at asked
  obtain ⟨missing, made⟩ := makeDirectories_there savable.accepted room.found
  obtain ⟨_, _, copied⟩ := room.copy savable
  refine .bind (.onStore ((faultless.isFile asked).mono ?_ fun _ _ bad => bad))
  rintro answer s ⟨rfl, rfl⟩
  refine .bind (.named ((?_ : After (t.saveSource m) _ (fun target b => target = saved ∧ b.store.writes = a.store.writes ∧
    b.store.tree = a.store.tree.put (a.store.tree.place saved) (.file original))
      fun _ _ => False).mono ?_ fun _ _ bad => bad.elim))
  · have looked : (a.store.next ⟨.isFile, t.source⟩ a.store.tree).Faultless := faultless.of_schedule rfl
    refine .bind (.onStore ((looked.makeDirs missing made).mono ?_ fun _ _ bad => bad))
    rintro _ s rfl
    have made : ((a.store.next ⟨.isFile, t.source⟩ a.store.tree).next ⟨.makeDirs, t.backupDir⟩ a.store.tree).Faultless :=
      faultless.of_schedule rfl
    refine .bind (.onStore ((made.choose room.chosen).mono ?_ fun _ _ bad => bad))
    rintro path s ⟨rfl, quiet⟩
    have tree : s.tree = a.store.tree := quiet.tree
    rw [← tree] at copied
    refine .bind (.onStore (((made.quiet quiet).copy copied).mono ?_ fun _ _ bad => bad))
    rintro _ s' rfl
    refine ⟨rfl, ?_, by rw [← tree]; rfl⟩
    rw [writes_next, if_neg nofun, quiet.writes, writes_next, if_neg nofun, writes_next, if_neg nofun]
  · rintro target b ⟨rfl, writes, tree⟩
    exact .bind (.update ⟨rfl, writes, tree⟩)

theorem preflight_faultless (faultless : a.store.Faultless) : After t.preflight a
      (fun reason b => t.collision? a.store.tree = .ok reason ∧ a.Quiet b)
      fun f b => t.collision? a.store.tree = .error f ∧ a.Quiet b := by
  refine (preflight_call t a).mono (fun _ _ answered => answered) ?_
  rintro f b ⟨quiet, ⟨_, _, stopped⟩ | failed⟩
  · exact absurd stopped (faultless.quiet quiet.store).not_stopped
  · exact ⟨failed, quiet⟩

theorem preflight_unhindered (faultless : a.store.Faultless) (awaits : t.Awaits dir a.store.tree t.files) :
    After t.preflight a (fun reason b => reason = none ∧ a.Quiet b) fun _ _ => False := by
  have free : ∀ f ∈ t.files, (if f.path = t.source then return false
      else do return (← a.store.tree.ask f.path).isSome : Result Bool) = .ok false := by
    intro f member
    by_cases source : f.path = t.source
    · rw [if_pos source]
      rfl
    · rw [if_neg source, ask_admitted awaits.rooted (awaits.admitted f member), (awaits.new f member source).1]
      rfl
  have clear : t.collision? a.store.tree = .ok none := by
    unfold collision?
    split
    · rfl
    · rw [findM?_clear free]
      rfl
  refine (preflight_faultless faultless).mono ?_ ?_
  · rintro reason b ⟨answered, quiet⟩
    cases clear.symm.trans answered
    exact ⟨rfl, quiet⟩
  · rintro f b ⟨failed, _⟩
    cases clear.symm.trans failed

def blemish? (t : Transaction) : Option (Path × TextFault) :=
  t.files.findSome? fun f => (checkText t.mode f.text).map (f.path, ·)

theorem blemish?_eq_none : t.blemish? = none ↔ ∀ f ∈ t.files, checkText t.mode f.text = none := by
  simp [blemish?]

structure Unhindered (t : Transaction) (m : Moment) (newline : Newline) (dir saved : Path)
    (original : Bytes) (store : Store) : Prop where
  faultless : store.Faultless
  savable : t.Savable store.tree original
  room : t.Room m store.tree saved
  awaits : t.Awaits dir store.tree t.files
  listed : ∃ f ∈ t.files, f.path = t.source
  apart : ∀ f ∈ t.files, store.tree.place f.path ≠ store.tree.place saved
  aside : store.tree.place saved ≠ store.tree.place dir
  reads : ∀ f ∈ t.files, ∃ bytes, t.encode f.text = .ok bytes ∧
    t.codec.decode bytes = .ok (Text.breakLines newline.text f.text)

namespace Unhindered

variable {newline : Newline}

theorem encodable (unhindered : t.Unhindered m newline dir saved original store) :
    ∀ f ∈ t.files, ∃ bytes, t.encode f.text = .ok bytes := by
  intro f member
  obtain ⟨bytes, encoded, _⟩ := unhindered.reads f member
  exact ⟨bytes, encoded⟩

theorem reads_back (unhindered : t.Unhindered m newline dir saved original store) {start : Tree}
    {record : Backup} {w : Attempt} (ready : t.Ready start record.path original) (faultless : w.store.Faultless)
    (writing : Writing t start record t.files (t.files.map (·.path)) w) :
    ∀ f ∈ t.files, ∃ bytes, w.store.tree.ask f.path = .ok (some (.file bytes)) ∧
      t.codec.decode bytes = .ok (Text.breakLines newline.text f.text) := by
  intro f member
  obtain ⟨bytes, encoded, there⟩ := writing.contents faultless.errors f member
  obtain ⟨bytes', same, decoded⟩ := unhindered.reads f member
  rw [encoded] at same
  cases same
  have asked := writing.books.ask ready (ready.admitted f member)
  rw [there] at asked
  exact ⟨bytes, asked, decoded⟩

theorem fault (unhindered : t.Unhindered m newline dir saved original store) {start : Tree}
    {record : Backup} {w : Attempt} (ready : t.Ready start record.path original) (faultless : w.store.Faultless)
    (writing : Writing t start record t.files (t.files.map (·.path)) w) {p : Path} {fault : FileFault}
    (first : FirstFault t.mode t.codec w.store (t.files.map (·.path)) p fault) :
    ∃ text, fault = .text text ∧ t.blemish? = some (p, text) := by
  have reads := unhindered.reads_back ready faultless writing
  obtain ⟨earlier, later, split, passed⟩ := first.split
  obtain ⟨front, rest, files, rfl, cut⟩ := map_eq_append_iff.mp split
  obtain ⟨f, back, rfl, rfl, rfl⟩ := map_eq_cons_iff.mp cut
  have clean : ∀ g ∈ front, checkText t.mode g.text = none := by
    intro g member
    obtain ⟨bytes, asked, decoded⟩ := reads g (by simp [files, member])
    obtain ⟨held, text, found, read, passes⟩ := passed g.path (mem_map_of_mem member)
    rw [asked] at found
    cases found
    rw [decoded] at read
    cases read
    rwa [checkText_breakLines] at passes
  obtain ⟨bytes, asked, decoded⟩ := reads f (by simp [files])
  obtain ⟨s, quiet, offends⟩ := first.offends
  rw [← quiet.tree] at asked
  cases offends with
  | missing found none =>
    rw [asked] at found
    cases found
    exact absurd rfl (none bytes)
  | refused planned =>
    rw [quiet.schedule, faultless] at planned
    cases planned
  | undecodable found failed =>
    rw [asked] at found
    cases found
    rw [decoded] at failed
    cases failed
  | @text _ _ text found read checked =>
    rw [asked] at found
    cases found
    rw [decoded] at read
    cases read
    rw [checkText_breakLines] at checked
    refine ⟨text, rfl, ?_⟩
    have none : front.findSome? (fun f => (checkText t.mode f.text).map (f.path, ·)) = none := by
      simpa using clean
    simp [blemish?, files, none, checked]

end Unhindered

structure Begun (t : Transaction) (dir saved : Path) (original : Bytes) (store : Store)
    (record : Backup) (a : Attempt) : Prop where
  path : record.path = saved
  tree : a.store.tree = store.tree.put (store.tree.place saved) (.file original)
  faultless : a.store.Faultless
  writes : a.store.writes = store.writes
  ready : t.Ready a.store.tree record.path original
  awaits : t.Awaits dir a.store.tree t.files
  writing : Writing t a.store.tree record [] [] a

namespace Unhindered

variable {newline : Newline}

theorem commits (unhindered : t.Unhindered m newline dir saved original store) :
    ∃ o b, t.run m {store := store} = .ok o b ∧ ∃ record a,
      t.Begun dir saved original store record a ∧ t.Committed a.store.tree record a o b ∧
      o.backup = some record ∧ (o.error = none → b.store.writes = (t.files.map (·.path)).reverse ++ store.writes) := by
  have filled : t.files.isEmpty = false := by
    obtain ⟨f, member, _⟩ := unhindered.listed
    cases files : t.files with
    | nil => simp [files] at member
    | cons => rfl
  have savable := unhindered.savable
  obtain ⟨absent, parent, _⟩ := unhindered.room.copy savable
  refine After.total ?_
  unfold run
  rw [filled]
  refine .bind ((preflight_unhindered (a := {store := store}) unhindered.faultless unhindered.awaits).mono ?_ fun _ _ bad => bad)
  rintro _ c ⟨rfl, quiet⟩
  have before : c.store.tree = store.tree := quiet.store.tree
  have looked := unhindered.faultless.quiet quiet.store
  rw [← before] at savable
  refine .bind (((backup_unhindered looked savable (by rw [before]; exact unhindered.room)).both
    (backup_after savable looked.errors.calm m)).mono ?_ fun _ _ bad => bad.1)
  rintro record a ⟨⟨rfl, writes, tree⟩, _, progress, schedule, done⟩
  have writes : a.store.writes = store.writes := writes.trans quiet.store.writes
  rw [quiet.progress] at progress
  rw [before] at savable tree done
  have faultless := looked.of_schedule schedule
  have ready := done.ready unhindered.awaits.admitted unhindered.awaits.distinct unhindered.listed savable.there unhindered.apart
  have awaits : t.Awaits dir a.store.tree t.files := by
    rw [tree]
    exact unhindered.awaits.put parent (by simp [absent]) unhindered.aside unhindered.apart original
  have writing := ready.writing progress faultless.errors.calm (.inl faultless.errors)
  have refuses : ∀ f b, t.Breaks a f b → b.store.Refuses b.progress.Undoes fun _ => False :=
    fun f b breaks => (faultless.of_schedule breaks.schedule).refuses _
  have judges : ∀ w, w.store.schedule = a.store.schedule →
      Writing t a.store.tree record t.files (t.files.map (·.path)) w → t.Judges w.store.tree := by
    intro w schedule writing f member bytes failure asked refused
    obtain ⟨_, there, decoded⟩ := unhindered.reads_back ready (faultless.of_schedule schedule) writing f member
    cases there.symm.trans asked
    cases decoded.symm.trans refused
  refine ((((commit_after ready unhindered.encodable judges (faultless.answers _) writing refuses).both
    (commit_writes faultless awaits unhindered.encodable)).both
    (commit_custody (.begun progress) ready.source)).mono ?_ ?_)
  · rintro o b ⟨⟨committed, wrote⟩, backup, _⟩
    exact ⟨record, a, ⟨rfl, tree, faultless, writes, ready, awaits, writing⟩, committed, backup,
      fun error => (wrote error).trans (congrArg _ writes)⟩
  · rintro f b ⟨⟨⟨_, _, _, never, _⟩, _⟩, _⟩
    exact never

-- Writing cannot fail, so that a failed attempt is laid to the first text that fails its check.
theorem blamed (unhindered : t.Unhindered m newline dir saved original store) {record : Backup}
    (begun : t.Begun dir saved original store record a) {o : Outcome} (blamed : t.Blamed a o) :
    ∃ p text, t.blemish? = some (p, text) ∧ o.error =
      some (.verification, (Failure.verification p (FileFault.text text).message).message) := by
  have faultless := begun.faultless
  cases blamed with
  | write files broke written error =>
    exact absurd ((write_unhindered faultless begun.awaits unhindered.encodable).broke broke) id
  | verification wrote first error =>
    have writing := (write_after begun.ready unhindered.encodable begun.writing).ended wrote
    have still := faultless.of_schedule ((t.write_schedule a).ended wrote)
    obtain ⟨text, rfl, blemished⟩ := unhindered.fault begun.ready still writing first
    exact ⟨_, text, blemished, error⟩

-- All files are written, each with its text, and no other; or a text fails its check.
theorem committed (unhindered : t.Unhindered m newline dir saved original store) :
    ∃ o a, t.run m {store := store} = .ok o a ∧ ((o.error = none ∧ o.written = t.files.map (·.path) ∧
          a.store.writes = (t.files.map (·.path)).reverse ++ store.writes ∧
          (∀ f ∈ t.files, ∃ bytes, t.encode f.text = .ok bytes ∧ a.store.tree.read f.path = .ok bytes)) ∨
        (o.error ≠ none ∧ t.blemish? ≠ none)) := by
  obtain ⟨o, b, ended, record, a, begun, committed, _, writes⟩ := unhindered.commits
  have ready := begun.ready
  have faultless := begun.faultless
  refine ⟨o, b, ended, ?_⟩
  cases committed with
  | success error backup written schedule writing =>
    refine .inl ⟨error, written, writes error, ?_⟩
    intro f member
    obtain ⟨bytes, encoded, there⟩ := writing.contents (faultless.of_schedule schedule).errors f member
    have reached := (writing.books.keeps ready).admits (ready.admitted f member)
    refine ⟨bytes, encoded, read_file writing.books.rooted reached ?_⟩
    rw [writing.books.place_eq]
    exact there
  | failure blamed same =>
    obtain ⟨_, _, blemished, error⟩ := unhindered.blamed begun blamed
    exact .inr ⟨by simp [error], by simp [blemished]⟩

theorem outcome (unhindered : t.Unhindered m newline dir saved original store) :
    ∃ o a, t.run m {store := store} = .ok o a ∧ (o.error = none ↔ ∀ f ∈ t.files, checkText t.mode f.text = none) ∧
      (o.error = none → o.written = t.files.map (·.path) ∧ a.store.writes = (t.files.map (·.path)).reverse ++ store.writes ∧
        ∀ f ∈ t.files, ∃ bytes, t.encode f.text = .ok bytes ∧ a.store.tree.read f.path = .ok bytes) := by
  obtain ⟨o, a, ended, ⟨error, written, writes, contents⟩ | ⟨error, faulty⟩⟩ := unhindered.committed
  · refine ⟨o, a, ended, ⟨fun _ f member => ?_, fun _ => error⟩, fun _ => ⟨written, writes, contents⟩⟩
    have filled : t.files ≠ [] := ne_nil_of_mem member
    obtain ⟨_, passes⟩ := (t.run_passes filled m store).ended ended error
    obtain ⟨bytes, text, asked, decoded, checked⟩ := passes f.path (by rw [written]; exact mem_map_of_mem member)
    obtain ⟨held, encoded, read⟩ := contents f member
    obtain ⟨_, same, back⟩ := unhindered.reads f member
    rw [encoded] at same
    cases same
    have there := (ask_some asked).2
    rw [(read_ok read).2.2] at there
    cases there
    rw [back] at decoded
    cases decoded
    rwa [checkText_breakLines] at checked
  · refine ⟨o, a, ended, ⟨fun none => absurd none error, fun good => ?_⟩, fun none => absurd none error⟩
    exact absurd (blemish?_eq_none.mpr good) faulty

end Unhindered

end Transaction

end ModuleSplit
