import ModuleSplit.Proofs.Transaction.Backup
import ModuleSplit.Proofs.Transaction.Commit

namespace ModuleSplit

open Store ModuleSplit.Tree

namespace Transaction

def Exposed (t : Transaction) (tree : Tree) (l : Location) : Prop :=
  l = tree.place t.source ∨ ∃ f ∈ t.files, l = tree.place f.path

end Transaction

structure Custody (t : Transaction) (start : Tree) (record : Backup) (a : Attempt) : Prop where
  backup : a.progress.backup = some record
  retains : start.Retains a.store.tree (t.Exposed start)
  created : ∀ p ∈ a.progress.createdFiles, p.NullFree →
    ∀ bytes, start.get? (start.place p) ≠ some (.file bytes)
  previous : ∀ e ∈ a.progress.previous, t.Exposed start (start.place e.1)

namespace Custody

variable {t : Transaction} {start : Tree} {record : Backup} {a : Attempt}

theorem begun (progress : a.progress = {backup := some record, phase := .backedUp}) : Custody t a.store.tree record a := by
  refine ⟨?_, .refl _ _, ?_, ?_⟩
  · rw [progress]
  · simp [progress]
  · simp [progress]

theorem withStore (custody : Custody t start record a) {s : Store} (retains : start.Retains s.tree (t.Exposed start)) :
    Custody t start record {a with store := s} :=
  ⟨custody.backup, retains, custody.created, custody.previous⟩

theorem call (custody : Custody t start record a) {action : StoreM PUnit} {c : Call}
    {change : Tree → Result Tree} (performs : Store.Performs action c change)
    (afforded : ∀ u, change a.store.tree = .ok u → start.Retains u (t.Exposed start)) :
    After (AttemptM.onStore action) a (fun _ => Custody t start record) fun _ => Custody t start record := by
  refine .onStore ((performs a.store).mono ?_ ?_)
  · rintro _ s ⟨u, changed, rfl⟩
    exact custody.withStore (afforded u changed)
  · rintro f s ⟨rfl, _⟩
    exact custody.withStore custody.retains

theorem write (custody : Custody t start record a) {p : Path} (exposed : t.Exposed start (start.place p)) (bytes : Bytes) :
    After (AttemptM.onStore (Store.write p bytes)) a (fun _ => Custody t start record) fun _ => Custody t start record := by
  refine .onStore ((write_call a.store p bytes).mono ?_ ?_)
  · intro _ s puts
    cases puts with
    | written written same =>
      subst same
      exact custody.withStore (custody.retains.write written exposed)
    | altered planned written same =>
      subst same
      exact custody.withStore (custody.retains.write written exposed)
    | dropped planned same =>
      subst same
      exact custody.withStore custody.retains
  · rintro f s ⟨rfl, _⟩
    exact custody.withStore custody.retains

theorem quiet (custody : Custody t start record a) {s : Store} (quiet : a.store.Quiet s) :
    Custody t start record {a with store := s} :=
  custody.withStore (by rw [quiet.tree]; exact custody.retains)

theorem asks (custody : Custody t start record a) (p : Path) : After (AttemptM.onStore (Store.exists p)) a
      (fun answer b => Custody t start record b ∧ b.store.tree = a.store.tree ∧
        ∃ found, b.store.tree.ask p = .ok found ∧ answer = found.isSome) fun _ => Custody t start record := by
  refine .onStore ((exists_call a.store p).mono ?_ ?_)
  · rintro answer s ⟨found, asked, answered, rfl⟩
    exact ⟨custody.quiet (.next _ _), rfl, found, asked, answered⟩
  · rintro f s ⟨rfl, _⟩
    exact custody.quiet (.next _ _)

end Custody

namespace Transaction

open AttemptM

variable {t : Transaction} {start : Tree} {record : Backup} {a : Attempt} {original : Bytes}

theorem prepare_custody (custody : Custody t start record a) {f : OutputFile} (listed : f ∈ t.files) :
    After (prepare f.path) a (fun _ => Custody t start record) fun _ => Custody t start record := by
  have exposed : t.Exposed start (start.place f.path) := .inr ⟨f, listed, rfl⟩
  have made := makeDirectories_extends a.store.tree f.path.parent
  have grown := custody.retains.makeDirectories f.path.parent
  refine .bind (.onStore ((makeDirs_call a.store f.path.parent).mono ?_ ?_))
  · rintro missing s ⟨u, _, accepted, rfl⟩
    rw [accepted] at made grown
    have found : u.isDirectory f.path.parent = true := made.2 rfl
    have grown : Custody t start record ⟨{a.progress with
        createdDirs := a.progress.createdDirs ++ missing},
        a.store.next ⟨.makeDirs, f.path.parent⟩ u⟩ :=
      ⟨custody.backup, grown, custody.created, custody.previous⟩
    refine .bind (.update (.bind ((grown.asks f.path).mono ?_ fun _ _ bad => bad)))
    rintro answer b ⟨grown, tree, node, asked, rfl⟩
    have tree : b.store.tree = u := tree
    rw [← tree] at found
    cases node with
    | some n =>
      refine .bind (.onStore ((read_call _ f.path).mono ?_ ?_))
      · rintro bytes s ⟨_, rfl⟩
        refine .update ⟨grown.backup, grown.retains, grown.created, ?_⟩
        intro e member
        rcases mem_putContent member with earlier | rfl
        · exact grown.previous e earlier
        · exact exposed
      · rintro failure s ⟨rfl, _⟩
        exact ⟨grown.backup, grown.retains, grown.created, grown.previous⟩
    | none =>
      rw [if_neg (by simp)]
      refine .update ⟨grown.backup, grown.retains, ?_, grown.previous⟩
      intro p member free bytes
      rcases List.mem_append.mp member with earlier | last
      · exact grown.created p earlier free bytes
      · -- Had a file been there, it would be there still.
        rw [List.mem_singleton.mp last] at free ⊢
        intro there
        obtain ⟨now, still, _⟩ := grown.retains.file _ bytes there
        rw [← grown.retains.place] at still
        exact no_file_of_ask free found asked now still
  · rintro failure s (⟨rfl, _⟩ | ⟨u, refused, rfl⟩)
    · exact custody.withStore custody.retains
    · rw [refused] at grown
      exact custody.withStore grown

theorem writeFile_custody (custody : Custody t start record a) {f : OutputFile} (listed : f ∈ t.files) :
    After (t.writeFile f) a (fun _ => Custody t start record) fun _ => Custody t start record := by
  unfold writeFile
  dsimp only
  cases t.encode f.text with
  | error failure =>
    split
    · exact .bind ((prepare_custody custody listed).mono (fun _ _ custody => custody) fun _ _ bad => bad)
    · exact custody
  | ok bytes =>
    have exposed : t.Exposed start (start.place f.path) := .inr ⟨f, listed, rfl⟩
    split
    · exact .bind ((prepare_custody custody listed).mono (fun _ _ custody => custody.write exposed bytes) fun _ _ bad => bad)
    · exact custody.write exposed bytes

theorem writeFiles_custody (custody : Custody t start record a) {files : List OutputFile}
    (listed : ∀ f ∈ files, f ∈ t.files) : After (t.writeFiles files) a (fun _ => Custody t start record)
      fun _ => Custody t start record := by
  induction files generalizing a with
  | nil => exact custody
  | cons f rest ih =>
    rw [List.forall_mem_cons] at listed
    refine .bind (.named_always ((writeFile_custody custody listed.1).mono ?_ fun _ _ bad => bad))
    intro _ b custody
    exact .bind (.update (ih ⟨custody.backup, custody.retains, custody.created, custody.previous⟩ listed.2))

theorem verifyFiles_custody (custody : Custody t start record a) (paths : List Path) :
    After (t.verifyFiles paths) a (fun _ => Custody t start record) fun _ => Custody t start record := by
  induction paths generalizing a with
  | nil => exact custody
  | cons p rest ih =>
    refine .bind (.onStore ((checkFile_quiet a.store t.mode t.codec p).mono ?_ ?_))
    · intro fault s quiet
      cases fault with
      | some fault => exact custody.quiet quiet
      | none => exact ih (custody.quiet quiet)
    · exact fun f s quiet => custody.quiet quiet

theorem removeFiles_custody (custody : Custody t start record a) {paths : List Path}
    (new : ∀ p ∈ paths, p.NullFree → ∀ bytes, start.get? (start.place p) ≠ some (.file bytes)) :
    After (t.removeFiles paths) a (fun _ => Custody t start record) fun _ => Custody t start record := by
  induction paths generalizing a with
  | nil => exact custody
  | cons p rest ih =>
    rw [List.forall_mem_cons] at new
    unfold removeFiles
    dsimp only
    split
    · refine .bind ((custody.asks p).mono ?_ fun _ _ bad => bad)
      rintro answer b ⟨custody, _, node, asked, rfl⟩
      cases node with
      | none => exact ih custody new.2
      | some n =>
        refine .bind ((custody.call (remove_performs p) ?_).mono (fun _ _ custody => ih custody new.2) fun _ _ bad => bad)
        intro u removed
        exact custody.retains.remove removed (new.1 (ask_some_nullFree asked))
    · exact ih custody new.2

theorem restoreFiles_custody (custody : Custody t start record a) {contents : List (Path × Bytes)}
    (exposed : ∀ e ∈ contents, t.Exposed start (start.place e.1)) :
    After (restoreFiles contents) a (fun _ => Custody t start record) fun _ => Custody t start record := by
  induction contents generalizing a with
  | nil => exact custody
  | cons e rest ih =>
    rw [List.forall_mem_cons] at exposed
    exact .bind ((custody.write exposed.1 e.2).mono (fun _ _ custody => ih custody exposed.2) fun _ _ bad => bad)

theorem removeDirs_custody (custody : Custody t start record a) (paths : List Path) :
    After (removeDirs paths) a (fun _ => Custody t start record) fun _ => Custody t start record := by
  induction paths generalizing a with
  | nil => exact custody
  | cons p rest ih =>
    refine .bind ((custody.asks p).mono ?_ fun _ _ bad => bad)
    rintro answer b ⟨custody, _, node, asked, rfl⟩
    cases node with
    | none => exact ih custody
    | some n =>
      exact .bind ((custody.call (removeDir_performs p) fun u removed => custody.retains.removeDirectory removed).mono
        (fun _ _ custody => ih custody) fun _ _ bad => bad)

theorem undo_custody (custody : Custody t start record a) (source : start.get? (start.place t.source) = some (.file original)) :
    After t.undo a (fun _ => Custody t start record) fun _ => Custody t start record := by
  refine .bind (.progress ?_)
  refine .bind ((removeFiles_custody custody fun p member =>
    custody.created p (List.mem_reverse.mp member)).mono ?_ fun _ _ bad => bad)
  intro _ b cleared
  refine .bind ((restoreFiles_custody cleared custody.previous).mono ?_ fun _ _ bad => bad)
  intro _ b restored
  refine .bind ((removeDirs_custody restored _).mono ?_ fun _ _ bad => bad)
  intro _ b emptied
  rw [custody.backup]
  refine emptied.call (copy_performs record.path t.source) ?_
  intro u copied
  -- The source is a file all along, so that the copy goes to its place.
  have leaf : b.store.tree.isDirectory t.source = false := by
    obtain ⟨now, still, _⟩ := emptied.retains.file _ original source
    refine not_isDirectory ?_
    rw [emptied.retains.place, still]
    simp
  obtain ⟨bytes, _, written⟩ := copy_ok copied leaf
  exact emptied.retains.write written (.inl rfl)

theorem failed_custody (custody : Custody t start record a)
    (source : start.get? (start.place t.source) = some (.file original)) (setback : Setback) (f : Failure) :
    After (t.failed setback f) a (fun o b => o.backup = some record ∧ Custody t start record b)
      fun _ => Custody t start record := by
  refine .bind (.bind (.progress (.bind (.named_always ((undo_custody custody source).mono ?_ fun _ _ bad => bad)))))
  intro _ b custody
  exact ⟨custody.backup, custody.backup, custody.retains, custody.created, custody.previous⟩

theorem commit_custody (custody : Custody t start record a) (source : start.get? (start.place t.source) = some (.file original)) :
    After t.commit a (fun o b => o.backup = some record ∧ Custody t start record b) fun _ => Custody t start record := by
  refine .recover (.bind (.bind ((writeFiles_custody custody fun f member => member).mono ?_ ?_)))
  · intro _ b custody
    refine .bind (.update ?_)
    show After (t.verify >>= fun _ => succeeded) {b with progress := _} _ _
    have written : Custody t start record {b with progress := {b.progress with phase := .written}} :=
      ⟨custody.backup, custody.retains, custody.created, custody.previous⟩
    refine .bind (.bind (.progress (.bind ((verifyFiles_custody written _).mono ?_ ?_))))
    · intro _ b custody
      exact ⟨custody.backup, custody.backup, custody.retains, custody.created, custody.previous⟩
    · intro f b custody
      cases f with
      | write p reason => exact failed_custody custody source _ _
      | verification p reason => exact failed_custody custody source _ _
      | _ => exact custody
  · intro f b custody
    cases f with
    | write p reason => exact failed_custody custody source _ _
    | verification p reason => exact failed_custody custody source _ _
    | _ => exact custody

end Transaction

structure Taken (dir : Path) (before : Tree) (record : Backup) (now : Tree) : Prop where
  named : ∃ name, name ≠ "..".toList ∧ record.path = ⟨dir.root, dir.parts ++ [name]⟩
  storable : record.path.Storable
  absent : before.get? (before.place record.path) = none
  grown : before.Extends now
  copy : ∃ bytes, before.read record.source = .ok bytes ∧
    now.get? (now.place record.path) = some (.file bytes)

theorem copy_taken {dir source : Path} {m : Moment} {attempt : Nat} {before u now : Tree}
    {original : Bytes} (grown : before.Extends u) (read : before.read source = .ok original)
    (gone : u.ask (Backup.candidate dir source m attempt) = .ok none)
    (copied : u.copy source (Backup.candidate dir source m attempt) = .ok now) :
    Taken dir before ⟨source, Backup.candidate dir source m attempt, m⟩ now := by
  have named : ∃ name, name ≠ "..".toList ∧ Backup.candidate dir source m attempt = ⟨dir.root, dir.parts ++ [name]⟩ :=
    ⟨_, Backup.fileName_ne_up source m attempt, rfl⟩
  generalize Backup.candidate dir source m attempt = saved at gone copied named ⊢
  have plain := Path.accept_ok.mpr (copy_nullFree copied)
  obtain ⟨bytes, again, written⟩ := copy_ok copied (not_isDirectory_asked plain gone)
  obtain ⟨_, located, same, taken⟩ := write_ok written
  have absent : u.get? (u.place saved) = none := by
    refine (ask_none plain gone located).resolve_right fun dangling => ?_
    simp [dangling] at taken
  have put : u.Extends now := by
    rw [same]
    exact .put absent _
  -- The source has not changed since the start.
  have original : bytes = original := by
    have now := (read_ok again).2.2
    rw [grown.keeps.place, grown.there _ _ (read_ok read).2.2] at now
    cases now
    rfl
  subst original
  refine ⟨named, storable_of_located plain located, ?_, grown.trans put, bytes, read, ?_⟩
  · show before.get? (before.place saved) = none
    cases earlier : before.get? (before.place saved) with
    | none => rfl
    | some n =>
      have still := grown.there _ _ earlier
      rw [← grown.keeps.place, absent] at still
      cases still
  · show now.get? (now.place saved) = some (.file bytes)
    rw [put.keeps.place, same, Tree.get?_put (ne_root_of_none absent), if_pos rfl]

namespace Transaction

open AttemptM

variable {t : Transaction} {a : Attempt}

theorem saveSource_taken {original : Bytes} (slash : '/' ∉ t.source.name)
    (read : a.store.tree.read t.source = .ok original) (m : Moment) : After (t.saveSource m) a
      (fun saved b => b.progress = a.progress ∧ Taken t.backupDir a.store.tree ⟨t.source, saved, m⟩ b.store.tree)
      fun _ b => a.store.tree.Extends b.store.tree := by
  have named : ∀ c ∈ t.source.name, NameChar c := by
    intro c member
    refine ⟨?_, ?_⟩
    · rintro rfl
      exact slash member
    · rintro rfl
      exact (read_ok read).1.name member
  have made := makeDirectories_extends a.store.tree t.backupDir
  refine .bind (.onStore ((makeDirs_call a.store t.backupDir).mono ?_ ?_))
  · rintro missing s ⟨u, _, accepted, rfl⟩
    rw [accepted] at made
    refine .bind (.onStore ((Backup.choose_call _ t.backupDir t.source m).mono ?_ ?_))
    · rintro saved s ⟨chosen, quiet⟩
      have tree : s.tree = u := quiet.tree
      rcases Backup.target_free u t.backupDir m named with ⟨e, refused⟩ | ⟨attempt, found, gone⟩
      · cases refused.symm.trans chosen
      cases found.symm.trans chosen
      refine .bind (.onStore ((copy_performs t.source _ s).mono ?_ ?_))
      · rintro _ s' ⟨now, copied, rfl⟩
        rw [tree] at copied
        exact ⟨rfl, copy_taken made.1 read gone copied⟩
      · rintro f s' ⟨rfl, _⟩
        rw [← tree] at made
        exact made.1
    · rintro f s ⟨quiet, _⟩
      have tree : s.tree = u := quiet.tree
      rw [← tree] at made
      exact made.1
  · rintro f s (⟨rfl, _⟩ | ⟨u, refused, rfl⟩)
    · exact .refl _
    · rw [refused] at made
      exact made.1

theorem backup_taken (slash : '/' ∉ t.source.name) (a : Attempt) (m : Moment) : After (t.backup m) a
      (fun record b => record.source = t.source ∧ b.progress = {a.progress with backup := some record, phase := .backedUp} ∧
        Taken t.backupDir a.store.tree record b.store.tree) fun _ b => a.store.tree.Extends b.store.tree := by
  refine .bind (.onStore ((isFile_call a.store t.source).mono ?_ ?_))
  · rintro answer s ⟨found, asked, isFile, rfl⟩
    cases answer with
    | false => exact .refl _
    | true =>
      obtain ⟨original, rfl⟩ := isFile.mp rfl
      have read := read_of_find (ask_some_nullFree asked) (find_of_ask asked)
      refine .bind (.named_always ((saveSource_taken (a := ⟨_, a.store.next ⟨.isFile, t.source⟩ a.store.tree⟩)
        slash read m).mono ?_ fun _ _ grown => grown))
      rintro saved b ⟨progress, taken⟩
      refine .bind (.update ?_)
      exact ⟨rfl, by rw [progress], taken⟩
  · rintro f s ⟨rfl, _⟩
    exact .refl _

theorem run_custody (slash : '/' ∉ t.source.name) (store : Store) (m : Moment) : After (t.run m) {store := store}
      (fun o a => store.tree.Retains a.store.tree (t.Exposed store.tree) ∧
        ∀ record, o.backup = some record → record.source = t.source ∧ ∃ start,
          Taken t.backupDir store.tree record start ∧ start.Retains a.store.tree (t.Exposed store.tree))
      fun _ a => store.tree.Retains a.store.tree (t.Exposed store.tree) := by
  have same : ∀ tree : Tree, store.tree.Retains store.tree (t.Exposed tree) := fun tree => .refl _ _
  unfold run
  split
  · refine .bind (.progress ?_)
    exact ⟨same _, fun record told => by cases told⟩
  · refine .bind ((preflight_quiet t {store := store}).mono ?_ ?_)
    · intro reason a quiet
      have tree : a.store.tree = store.tree := quiet.store.tree
      cases reason with
      | some reason =>
        refine .bind (.progress ⟨?_, fun record told => by cases told⟩)
        rw [tree]
        exact same _
      | none =>
        rw [← tree]
        refine .bind ((backup_taken slash a m).mono ?_ fun _ _ grown => grown.retains _)
        rintro record b ⟨source, progress, taken⟩
        rw [quiet.progress] at progress
        have exposed : t.Exposed b.store.tree = t.Exposed a.store.tree := by
          have place := taken.grown.keeps.place
          unfold Exposed
          simp only [place]
        have custody : Custody t b.store.tree record b := .begun progress
        obtain ⟨original, read, _⟩ := taken.copy
        rw [source] at read
        have there := taken.grown.there _ _ (read_ok read).2.2
        rw [← taken.grown.keeps.place] at there
        refine (commit_custody custody there).mono ?_ ?_
        · rintro o c ⟨backup, custody⟩
          have retained := custody.retains
          rw [exposed] at retained
          refine ⟨(taken.grown.retains _).trans retained, ?_⟩
          intro other told
          rw [backup] at told
          cases told
          exact ⟨source, b.store.tree, taken, retained⟩
        · intro f c custody
          have retained := custody.retains
          rw [exposed] at retained
          exact (taken.grown.retains _).trans retained
    · intro f a quiet
      rw [quiet.store.tree]
      exact same _

end Transaction

end ModuleSplit
