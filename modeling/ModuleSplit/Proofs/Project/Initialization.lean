import ModuleSplit.Project.Init
import ModuleSplit.Proofs.Project.Scripts
import ModuleSplit.Proofs.Transaction.Backup
import ModuleSplit.Proofs.Tree.Opening
import ModuleSplit.Proofs.Tree.Retention

-- Preparing a project again: what the first run leaves passes the test of each of its rules.

namespace ModuleSplit

open List ModuleSplit.Tree

namespace TreeM

variable {α β : Type} {t u : Tree}

@[simp] theorem pure_ok {a b : α} : (pure a : TreeM α) t = .ok b u ↔ a = b ∧ u = t := by
  change EStateM.Result.ok a t = .ok b u ↔ _
  rw [EStateM.Result.ok.injEq, eq_comm (a := u)]

@[simp] theorem get_ok {v : Tree} : (get : TreeM Tree) t = .ok v u ↔ v = t ∧ u = t := by
  change EStateM.Result.ok t t = .ok v u ↔ _
  rw [EStateM.Result.ok.injEq, eq_comm (a := v), eq_comm (a := u)]

@[simp] theorem set_ok {v : Tree} {x : PUnit} : (set v : TreeM PUnit) t = .ok x u ↔ u = v := by
  change EStateM.Result.ok PUnit.unit v = .ok x u ↔ _
  rw [EStateM.Result.ok.injEq, eq_comm (a := u)]
  exact and_iff_right rfl

theorem bind_ok {x : TreeM α} {f : α → TreeM β} {b : β} : (x >>= f) t = .ok b u ↔ ∃ a v, x t = .ok a v ∧ f a v = .ok b u := by
  constructor
  · intro ended
    dsimp only [Bind.bind, EStateM.bind] at ended
    cases first : x t with
    | ok a v =>
      rw [first] at ended
      exact ⟨a, v, rfl, ended⟩
    | error e v =>
      rw [first] at ended
      cases ended
  · rintro ⟨a, v, first, second⟩
    rw [bind_of_ended first, second]

@[simp] theorem ofResult_ok {r : Result α} {a : α} : ofResult r t = .ok a u ↔ r = .ok a ∧ u = t := by
  cases r with
  | ok b => exact pure_ok.trans (by simp)
  | error e => exact ⟨by rintro ⟨⟩, by rintro ⟨⟨⟩, _⟩⟩

theorem exists_ok {x : TreeM α} (ends : (x.run' t).isSome = true) : ∃ a u, x t = .ok a u := by
  unfold EStateM.run' at ends
  split at ends
  · exact ⟨_, _, ‹_›⟩
  · cases ends

end TreeM

namespace Tree

variable {t u : Tree} {p : Path} {l : Location} {name : Text} {bytes : Bytes}

theorem find_congr (located : t.locate p = .ok l) (again : u.locate p = .ok l) (same : u.get? l = t.get? l) :
    u.find p = t.find p := by
  rw [find, find, located, again]
  simp only [bind, Except.bind, same]

theorem ask_congr (same : u.find p = t.find p) : u.ask p = t.ask p := by
  rw [ask, ask, same]

theorem read_congr (same : u.find p = t.find p) : u.read p = t.read p := by
  rw [read, read, same]

theorem ask_found (free : p.NullFree) {n : Node} (found : t.find p = .ok n) : t.ask p = .ok (some n) := by
  rw [ask, Path.accept_ok.mpr free, found]

theorem get?_written (written : t.write p bytes = .ok u) (l : Location) :
    u.get? l = if l = t.place p then some (.file bytes) else t.get? l := by
  obtain ⟨_, _, rfl, free⟩ := write_ok written
  refine get?_put ?_ t _ l
  intro root
  rw [root, get?_root] at free
  simp at free

theorem write_keeps (written : t.write p bytes = .ok u) : t.Keeps u := by
  obtain ⟨_, _, rfl, free⟩ := write_ok written
  refine ⟨rfl, fun l there => ?_⟩
  rw [get?_written written, if_neg, there]
  rintro rfl
  rw [there] at free
  simp at free

theorem write_there (free : p.NullFree) (located : t.locate p = .ok l) {old : Bytes}
    (there : t.get? l = some (.file old)) (bytes : Bytes) : t.write p bytes = .ok (t.put l (.file bytes)) := by
  unfold write
  rw [Path.accept_ok.mpr free, located]
  simp only [bind, Except.bind, there]

theorem isDirectory_above {root : PathRoot} {init : List Text}
    (located : t.locate ⟨root, init ++ [name]⟩ = .ok l) : t.isDirectory ⟨root, init⟩ = true := by
  obtain ⟨above, walked, there, _⟩ := walk_snoc (locate_walk located)
  have brief : Utf8.size (Path.text ⟨root, init ++ [name]⟩) < pathLimit := by
    by_contra long
    rw [locate, if_neg long] at located
    cases located
  refine isDirectory_of_get? ?_ there
  rw [locate, if_pos (Path.brief_above brief)]
  exact walked

theorem makeDirectories_accepted (made : t.makeDirectories p = (.ok ⟨⟩, u)) : accept p = .ok ⟨⟩ := by
  unfold makeDirectories at made
  split at made
  · assumption
  · exact (Prod.mk.inj made).1

end Tree

namespace Settings

variable {s : Settings} {t u : Tree}

theorem saveBy_ok {write : Tree → Bytes → Result Tree} : s.saveBy .json write t = .ok ⟨⟩ u ↔
    ∃ v, s.record = .ok v ∧ write t (Utf8.encode (Format.json.write v).1) = .ok u ∧ (Format.json.write v).2 = none := by
  unfold saveBy
  simp only [TreeM.bind_ok, TreeM.ofResult_ok, TreeM.get_ok, TreeM.set_ok]
  constructor
  · rintro ⟨v, _, ⟨recorded, rfl⟩, _, _, ⟨rfl, rfl⟩, made, _, ⟨written, rfl⟩, _, _, rfl, saved⟩
    cases refused : (Format.json.write v).2 with
    | none =>
      rw [refused] at saved
      cases saved
      exact ⟨v, recorded, Result.mapError_ok.mp written, refused⟩
    | some f =>
      rw [refused] at saved
      cases saved
  · rintro ⟨v, recorded, written, complete⟩
    refine ⟨v, t, ⟨recorded, rfl⟩, t, t, ⟨rfl, rfl⟩, u, t, ⟨Result.mapError_ok.mpr written, rfl⟩, ⟨⟩, u, rfl, ?_⟩
    rw [complete]
    rfl

end Settings

namespace Init

variable {root dir p : Path} {s : Settings} {framework : Option Text} {m : Moment} {t u v b : Tree}
  {report : Report} {changed : Bool} {name content : Text} {next : Tree → Result (Option Text)}

theorem run_ok : run root s framework m t = .ok report u ↔ ∃ f dir a b c,
    chosen t root framework = .ok f ∧ s.saveBy .json (·.write (root.child configName)) t = .ok ⟨⟩ a ∧
      backupDir root s = .ok dir ∧ makeDirs dir a = .ok ⟨⟩ b ∧
      updateIgnored root (s.split.backupDirectory.asText?.getD []) b = .ok report.ignoreUpdated c ∧
      updatePackage root c = .ok report.packageUpdated u ∧
      report = ⟨root, m, f, root.child configName, dir, report.ignoreUpdated, report.packageUpdated⟩ := by
  unfold run
  simp only [TreeM.bind_ok, TreeM.ofResult_ok, TreeM.get_ok, TreeM.pure_ok]
  constructor
  · rintro ⟨_, _, ⟨rfl, rfl⟩, f, _, ⟨choice, rfl⟩, _, a, saved, dir, _, ⟨placed, rfl⟩, _, b, made, _, c, listed, _, _,
      scripts, rfl, rfl⟩
    exact ⟨f, dir, _, b, c, choice, saved, placed, made, listed, scripts, rfl⟩
  · rintro ⟨f, dir, a, b, c, choice, saved, placed, made, listed, scripts, same⟩
    exact ⟨t, t, ⟨rfl, rfl⟩, f, t, ⟨choice, rfl⟩, ⟨⟩, a, saved, dir, a, ⟨placed, rfl⟩, ⟨⟩, b, made, _, c, listed, _, u,
      scripts, same.symm, rfl⟩

@[simp] theorem makeDirs_ok : makeDirs dir t = .ok ⟨⟩ u ↔ t.makeDirectories dir = (.ok ⟨⟩, u) := by
  unfold makeDirs
  simp only [TreeM.bind_ok, TreeM.ofResult_ok, TreeM.get_ok, TreeM.set_ok]
  constructor
  · rintro ⟨_, _, ⟨rfl, rfl⟩, _, _, rfl, made, rfl⟩
    exact Prod.ext made rfl
  · intro made
    exact ⟨t, t, ⟨rfl, rfl⟩, ⟨⟩, u, by rw [made], by rw [made], rfl⟩

theorem amend_ok : amend p next t = .ok changed u ↔ ∃ content, next t = .ok content ∧ (content = none ∧ changed = false ∧ u = t ∨
        ∃ more, content = some more ∧ changed = true ∧ t.write p (Utf8.encode more) = .ok u) := by
  unfold amend
  simp only [TreeM.bind_ok, TreeM.ofResult_ok, TreeM.get_ok]
  constructor
  · rintro ⟨_, _, ⟨rfl, rfl⟩, content, _, ⟨listed, rfl⟩, ended⟩
    refine ⟨content, listed, ?_⟩
    cases content with
    | none =>
      obtain ⟨rfl, rfl⟩ := TreeM.pure_ok.mp ended
      exact .inl ⟨rfl, rfl, rfl⟩
    | some more =>
      simp only [TreeM.bind_ok, TreeM.ofResult_ok, TreeM.set_ok, TreeM.pure_ok] at ended
      obtain ⟨made, _, ⟨written, rfl⟩, _, _, rfl, rfl, rfl⟩ := ended
      exact .inr ⟨more, rfl, rfl, written⟩
  · rintro ⟨content, listed, next⟩
    refine ⟨t, t, ⟨rfl, rfl⟩, content, t, ⟨listed, rfl⟩, ?_⟩
    rcases next with ⟨rfl, rfl, rfl⟩ | ⟨more, rfl, rfl, written⟩
    · rfl
    · simp only [TreeM.bind_ok, TreeM.ofResult_ok, TreeM.set_ok, TreeM.pure_ok]
      exact ⟨u, t, ⟨written, rfl⟩, ⟨⟩, u, rfl, trivial, rfl⟩

theorem amend_again (depends : ∀ x y : Tree, x.find p = y.find p → next x = next y)
    (settles : ∀ (x y : Tree) more, p.NullFree → next x = .ok (some more) →
      y.find p = .ok (.file (Utf8.encode more)) → next y = .ok none)
    (first : amend p next t = .ok changed u) (same : v.find p = u.find p) : amend p next v = .ok false v := by
  obtain ⟨content, found, ⟨rfl, _, rfl⟩ | ⟨more, rfl, _, written⟩⟩ := amend_ok.mp first
  · exact amend_ok.mpr ⟨none, (depends v u same).trans found, .inl ⟨rfl, rfl, rfl⟩⟩
  · have filled := same.trans (find_written written)
    exact amend_ok.mpr ⟨none, settles t v more (write_ok written).1 found filled, .inl ⟨rfl, rfl, rfl⟩⟩

theorem amend_keeps (first : amend p next t = .ok changed u) : t.Keeps u ∧ ∀ l, l ≠ t.place p → u.get? l = t.get? l := by
  obtain ⟨content, found, ⟨rfl, _, rfl⟩ | ⟨more, rfl, _, written⟩⟩ := amend_ok.mp first
  · exact ⟨⟨rfl, fun _ there => there⟩, fun _ _ => rfl⟩
  · exact ⟨write_keeps written, fun l other => by rw [get?_written written, if_neg other]⟩

theorem return_not_mem_plainNewlines (t : Text) : '\r' ∉ Text.plainNewlines t := by
  fun_induction Text.plainNewlines t <;> simp_all [eq_comm]

theorem plainNewlines_plain {t : Text} (plain : '\r' ∉ t) : Text.plainNewlines t = t := by
  fun_induction Text.plainNewlines t <;> simp_all

theorem ignored_congr (same : t.find p = u.find p) : ignored t p = ignored u p := by
  rw [ignored, ignored, ask_congr same, read_congr same]

theorem decodeFile_encode (content : Text) :
    (Encoding.utf8.decodeFile (Utf8.encode content)).mapError Failure.decode = .ok content :=
  ((Codec.ofEncoding_faithful .utf8) content _ rfl).2

theorem ignored_file (free : p.NullFree)
    (found : t.find p = .ok (.file (Utf8.encode content))) : ignored t p = .ok (Text.plainNewlines content) := by
  rw [ignored, ask_found free found, read_of_find free found]
  simp only [bind, Except.bind, decodeFile_encode]
  rfl

theorem ignored_plain (found : ignored t p = .ok content) : '\r' ∉ content := by
  obtain ⟨answer, _, found⟩ := Result.bind_ok.mp found
  split at found
  · obtain ⟨bytes, _, found⟩ := Result.bind_ok.mp found
    obtain ⟨text, _, found⟩ := Result.bind_ok.mp found
    cases found
    exact return_not_mem_plainNewlines text
  · cases found
    exact not_mem_nil

theorem withIgnored_again {more : Text} (next : withIgnored content name = some more) : withIgnored more name = none := by
  unfold withIgnored at next ⊢
  dsimp only at next ⊢
  split at next
  · cases next
  · cases next
    refine if_pos (Text.occursIn_of_part ⟨_, ['/', '\n'], rfl⟩)

theorem withIgnored_plain {more : Text} (next : withIgnored content name = some more)
    (plain : '\r' ∉ content) (named : '\r' ∉ name) : '\r' ∉ more := by
  have entry : '\r' ∉ Text.trimRightBy (· == '/') name := fun member => named (Text.trimRightBy_subset _ _ member)
  unfold withIgnored at next
  dsimp only at next
  split at next
  · cases next
  · cases next
    have marker : '\r' ∉ ignoreMarker := by decide
    simp only [mem_append, mem_cons, not_mem_nil, or_false, not_or]
    refine ⟨⟨⟨⟨⟨?_, by decide⟩, marker⟩, by decide⟩, entry⟩, by decide, by decide⟩
    split
    · exact plain
    · simpa using plain

theorem updateIgnored_again (named : '\r' ∉ name)
    (first : updateIgnored root name t = .ok changed u) (same : v.find (ignoreFile root) = u.find (ignoreFile root)) :
    updateIgnored root name v = .ok false v := by
  refine amend_again ?_ ?_ first same
  · intro x y same
    rw [ignored_congr same]
  · intro x y more free next filled
    obtain ⟨content, listed, next⟩ := Result.bind_ok.mp next
    have next := Result.pure_ok.mp next
    rw [ignored_file free filled, plainNewlines_plain (withIgnored_plain next (ignored_plain listed) named)]
    exact congrArg _ (withIgnored_again next)

theorem read?_congr (same : t.find (Package.path root) = u.find (Package.path root)) :
    Package.read? t root = Package.read? u root := by
  rw [Package.read?, Package.read?, ask_congr same]

theorem read?_canonical {p : Entries} (found : Package.read? t root = .ok (some p)) :
    ∃ n, Json.Canonical (n + 3) (.dict p) := by
  obtain ⟨answer, _, found⟩ := Result.bind_ok.mp found
  split at found
  · obtain ⟨text, _, found⟩ := Result.bind_ok.mp found
    split at found
    · rename_i v read
      cases v <;> cases found
      obtain ⟨least, settled⟩ := Json.canonical_read read
      exact ⟨least, settled _ (Nat.le_add_right least 3)⟩
    · cases found
    · cases found
  · cases found

theorem read?_file (free : (Package.path root).NullFree) {p : Entries}
    (found : t.find (Package.path root) = .ok (.file (Utf8.encode content)))
    (read : Json.read content = .ok (.dict p)) : Package.read? t root = .ok (some p) := by
  rw [Package.read?, ask_found free found]
  simp only [bind, Except.bind, decodeFile_encode, read]
  rfl

theorem read?_amended {p q : Entries} (free : (Package.path root).NullFree)
    (before : Package.read? t root = .ok (some p)) (more : Package.withScripts p = .ok (some q))
    (found : u.find (Package.path root) = .ok (.file (Utf8.encode (Package.text q)))) :
    ∃ again, Package.read? u root = .ok (some again) ∧ Package.Amended p again ∧ Package.withScripts again = .ok none := by
  obtain ⟨present, listed, _⟩ := Result.bind_ok.mp more
  obtain ⟨_, settled⟩ := read?_canonical before
  obtain ⟨stored, done⟩ := Package.withScripts_again settled listed
  rw [Package.withScripts_ok listed] at more
  split at more
  · cases more
  · cases more
    exact ⟨_, read?_file free found (Json.read_pretty stored), ⟨present, listed, .inr rfl⟩, done⟩

theorem updatePackage_again (first : updatePackage root t = .ok changed u)
    (same : v.find (Package.path root) = u.find (Package.path root)) : updatePackage root v = .ok false v := by
  refine amend_again ?_ ?_ first same
  · intro x y same
    rw [read?_congr same]
  · intro x y content free next filled
    obtain ⟨found, before, next⟩ := Result.bind_ok.mp next
    cases found with
    | none => cases next
    | some p =>
      obtain ⟨scripts, more, next⟩ := Result.bind_ok.mp next
      cases scripts with
      | none => cases next
      | some q =>
        cases next
        obtain ⟨again, read, _, done⟩ := read?_amended free before more filled
        rw [read]
        simp only [bind, Except.bind, done]
        rfl

theorem updatePackage_read (first : updatePackage root t = .ok changed u) :
    (Package.read? t root = .ok none ∧ Package.read? u root = .ok none) ∨
      ∃ p q, Package.read? t root = .ok (some p) ∧ Package.read? u root = .ok (some q) ∧ Package.Amended p q := by
  obtain ⟨content, next, change⟩ := amend_ok.mp first
  obtain ⟨found, before, next⟩ := Result.bind_ok.mp next
  cases found with
  | none =>
    cases next
    obtain ⟨_, _, rfl⟩ | ⟨_, ⟨⟩, _⟩ := change
    exact .inl ⟨before, before⟩
  | some p =>
    obtain ⟨scripts, more, next⟩ := Result.bind_ok.mp next
    cases next
    refine .inr ⟨p, ?_⟩
    cases scripts with
    | none =>
      obtain ⟨_, _, rfl⟩ | ⟨_, ⟨⟩, _⟩ := change
      refine ⟨p, before, before, ?_⟩
      obtain ⟨present, listed, _⟩ := Result.bind_ok.mp more
      rw [Package.withScripts_ok listed] at more
      split at more
      · exact ⟨present, listed, .inl ⟨‹_›, rfl⟩⟩
      · cases more
    | some q =>
      obtain ⟨⟨⟩, _⟩ | ⟨_, ⟨⟩, _, written⟩ := change
      obtain ⟨again, read, amended, _⟩ := read?_amended (write_ok written).1 before more (find_written written)
      exact ⟨again, before, read, amended⟩

-- A file in a directory, by its name.
structure Within (base : Path) (name : Text) (p : Path) : Prop where
  path : p = ⟨base.root, base.parts ++ [name]⟩
  child : name ≠ "..".toList
  plain : '\x00' ∉ name

namespace Within

variable {base p q : Path} {name other : Text}

theorem place (within : Within base name p) (t : Tree) : t.place p = t.place base ++ [name] := by
  rw [within.path, place_child within.child]

theorem place_ne (first : Within base name p) (second : Within base other q) (apart : name ≠ other)
    (t : Tree) : t.place p ≠ t.place q := by
  rw [first.place, second.place]
  simpa using apart

theorem above (within : Within base name p) {l : Location} (located : t.locate p = .ok l) : t.isDirectory base = true := by
  rw [within.path] at located
  exact isDirectory_above located

theorem nullFree (first : Within base name p) (second : Within base other q) (free : p.NullFree) : q.NullFree := by
  rw [first.path] at free
  rw [second.path]
  intro part member
  rcases mem_append.mp member with inner | last
  · exact free part (mem_append_left _ inner)
  · rw [mem_singleton.mp last]
    exact second.plain

theorem locate (within : Within base name p) (found : t.isDirectory base = true) (free : p.NullFree)
    {answer : Option Node} (asked : t.ask p = .ok answer) : t.locate p = .ok (t.place p) := by
  have accepted := Path.accept_ok.mpr free
  rw [within.path] at accepted asked ⊢
  exact locate_asked found within.child accepted asked

end Within

theorem read?_unmoved (within : Within root name (Package.path root))
    (base : t.isDirectory root = true) (free : (Package.path root).NullFree) {l : Location}
    (located : u.locate (Package.path root) = .ok l) (keeps : t.Keeps u)
    (change : u.get? l = t.get? l ∨ t.get? l = none ∧ u.get? l = some .directory) :
    Package.read? u root = Package.read? t root := by
  obtain ⟨found, asked⟩ : ∃ found, t.ask (Package.path root) = .ok found :=
    ask_storable (storable_of_located (Path.accept_ok.mpr free) located)
  have before := within.locate base free asked
  rw [← keeps.place, ← locate_ok located] at before
  rcases change with same | ⟨absent, directory⟩
  · exact read?_congr (find_congr before located same)
  · have gone : t.ask (Package.path root) = .ok none := by
      rw [Tree.ask, Path.accept_ok.mpr free, Tree.find, before]
      simp only [bind, Except.bind, absent]
    have made : u.ask (Package.path root) = .ok (some .directory) := by
      rw [Tree.ask, Path.accept_ok.mpr free, Tree.find, located]
      simp only [bind, Except.bind, directory]
    rw [Package.read?, Package.read?, gone, made]
    rfl

theorem updateIgnored_asked (first : updateIgnored root name t = .ok changed u) :
    ∃ answer, t.ask (ignoreFile root) = .ok answer := by
  obtain ⟨_, listing, _⟩ := amend_ok.mp first
  obtain ⟨_, listing, _⟩ := Result.bind_ok.mp listing
  obtain ⟨answer, asked, _⟩ := Result.bind_ok.mp listing
  exact ⟨answer, asked⟩

theorem updatePackage_asked (first : updatePackage root t = .ok changed u) :
    ∃ answer, t.ask (Package.path root) = .ok answer := by
  obtain ⟨_, reading, _⟩ := amend_ok.mp first
  obtain ⟨_, reading, _⟩ := Result.bind_ok.mp reading
  obtain ⟨answer, asked, _⟩ := Result.bind_ok.mp reading
  exact ⟨answer, asked⟩

theorem within_config (root : Path) : Within root configName (root.child configName) :=
  ⟨rfl, by decide, by decide⟩

theorem within_ignore (root : Path) : Within root ".gitignore".toList (ignoreFile root) :=
  ⟨rfl, by decide, by decide⟩

theorem within_package (root : Path) : Within root "package.json".toList (Package.path root) :=
  ⟨rfl, by decide, by decide⟩

-- The configuration has been saved, and the directory for backups is there.
structure Prepared (root dir : Path) (bytes : Bytes) (t b : Tree) : Prop where
  keeps : t.Keeps b
  free : (root.child configName).NullFree
  located : t.locate (root.child configName) = .ok (t.place (root.child configName))
  accepted : Tree.accept dir = .ok ⟨⟩
  opened : b.isDirectory dir = true
  saved : b.get? (t.place (root.child configName)) = some (.file bytes)
  change : ∀ l, l ≠ t.place (root.child configName) →
    b.get? l = t.get? l ∨ t.get? l = none ∧ b.get? l = some .directory

theorem prepared_of {a : Tree} {bytes : Bytes} (rooted : t.Rooted)
    (home : t.get? t.workingDirectory = some .directory) (written : t.write (root.child configName) bytes = .ok a)
    (made : a.makeDirectories dir = (.ok ⟨⟩, b)) : Prepared root dir bytes t b := by
  obtain ⟨free, located, put, leaf⟩ := write_ok written
  have changes := get?_written written
  have keeps := write_keeps written
  have within := within_config root
  have grown : a.Rooted := by
    rw [put]
    refine rooted.put_file ?_ ?_ ?_
    · rw [within.place]
      simp
    · rw [within.place, dropLast_concat]
      exact (isDirectory_parts (within.above located)).2
    · rintro directory
      simp [directory] at leaf
  have there : a.get? a.workingDirectory = some .directory := by
    rw [keeps.workingDirectory]
    exact keeps.directory _ home
  have grows := makeDirectories_change grown there dir
  have opened := (makeDirectories_extends a dir).2
  rw [made] at grows opened
  refine ⟨keeps.trans grows.keeps, free, located, makeDirectories_accepted made, opened rfl, ?_, ?_⟩
  · exact grows.get?_some (by rw [changes, if_pos rfl])
  · intro l other
    have before : a.get? l = t.get? l := by rw [changes, if_neg other]
    rcases grows.change l with same | ⟨absent, directory, _⟩
    · exact .inl (same.trans before)
    · exact .inr ⟨before ▸ absent, directory⟩

theorem Prepared.settled {c : Tree} {bytes : Bytes} {updated : Bool}
    (prepared : Prepared root dir bytes t b) (listed : updateIgnored root name b = .ok changed c)
    (scripts : updatePackage root c = .ok updated u) : t.Keeps u ∧ u.get? (t.place (root.child configName)) = some (.file bytes) ∧
      Package.read? c root = Package.read? t root ∧ (∀ v : Tree, u.Keeps v → (∀ l, v.get? l = u.get? l) →
        v.find (ignoreFile root) = c.find (ignoreFile root) ∧ v.find (Package.path root) = u.find (Package.path root)) := by
  have config := within_config root
  have ignore := within_ignore root
  have package := within_package root
  have base := config.above prepared.located
  obtain ⟨keptC, othersC⟩ := amend_keeps listed
  obtain ⟨keptU, othersU⟩ := amend_keeps scripts
  have toC := prepared.keeps.trans keptC
  have toU := toC.trans keptU
  obtain ⟨_, asked⟩ := updateIgnored_asked listed
  have freeIgnore := config.nullFree ignore prepared.free
  have foundIgnore := keptC.locate (ignore.locate (prepared.keeps.isDirectory base) freeIgnore asked)
  obtain ⟨_, asked⟩ := updatePackage_asked scripts
  have freePackage := config.nullFree package prepared.free
  have foundPackage := package.locate (toC.isDirectory base) freePackage asked
  rw [prepared.keeps.place] at foundIgnore othersC
  rw [toC.place] at foundPackage othersU
  refine ⟨toU, ?_, ?_, ?_⟩
  · rw [othersU _ (config.place_ne package (by decide) t), othersC _ (config.place_ne ignore (by decide) t)]
    exact prepared.saved
  · refine read?_unmoved package base freePackage foundPackage toC ?_
    rw [othersC _ (package.place_ne ignore (by decide) t)]
    exact prepared.change _ (package.place_ne config (by decide) t)
  · intro v keeps same
    constructor
    · refine find_congr foundIgnore (keeps.locate (keptU.locate foundIgnore)) ?_
      rw [same, othersU _ (ignore.place_ne package (by decide) t)]
    · have found := keptU.locate foundPackage
      exact find_congr found (keeps.locate found) (same _)

theorem chosen_again {f : Text} (choice : chosen t root framework = .ok f)
    (same : Package.read? v root = Package.read? t root) {updated : Bool}
    (scripts : updatePackage root v = .ok updated u) : ∃ g, chosen u root framework = .ok g := by
  unfold chosen at choice ⊢
  split
  · exact ⟨_, rfl⟩
  · rename_i none
    rw [none] at choice
    unfold Package.framework at choice ⊢
    rw [← same] at choice
    rcases updatePackage_read scripts with ⟨_, read⟩ | ⟨p, q, before, read, amended⟩
    · rw [read]
      exact ⟨_, rfl⟩
    · rw [before] at choice
      rw [read]
      exact ⟨f, amended.frameworkOf.trans choice⟩

-- Preparing a project again changes nothing, and its package keeps what it had.
theorem run_twice (rooted : t.Rooted) (home : t.get? t.workingDirectory = some .directory)
    (plain : ∀ name, s.split.backupDirectory = .text name → '\r' ∉ name)
    (ran : run root s framework m t = .ok report u) (later : Moment) : (∃ again v, run root s framework later u = .ok again v ∧
      again.ignoreUpdated = false ∧ again.packageUpdated = false ∧
      v.workingDirectory = u.workingDirectory ∧ ∀ l, v.get? l = u.get? l) ∧
    ∀ p old, Package.read? t root = .ok (some p) → Package.HasScripts p old → ∃ q all, Package.read? u root = .ok (some q) ∧
        (∀ key, key ≠ .ofString "scripts" → Entries.get? q key = Entries.get? p key) ∧
        Entries.find? q "scripts" = some (.dict all) ∧
        ∀ key, Entries.get? all key = (Entries.get? old key).or (Entries.get? Package.added key) := by
  obtain ⟨f, dir, a, b, c, choice, saved, placed, made, listed, scripts, _⟩ := run_ok.mp ran
  obtain ⟨v, recorded, written, complete⟩ := Settings.saveBy_ok.mp saved
  have prepared := prepared_of rooted home written (makeDirs_ok.mp made)
  obtain ⟨keeps, config, same, found⟩ := prepared.settled listed scripts
  constructor
  · obtain ⟨g, choice⟩ := chosen_again choice same scripts
    have once := write_there prepared.free (keeps.locate prepared.located) config (Utf8.encode (Settings.Format.json.write v).1)
    have unchanged : ∀ l, (u.put (t.place (root.child configName))
        (.file (Utf8.encode (Settings.Format.json.write v).1))).get? l = u.get? l := by
      intro l
      rw [Tree.get?_put (ne_root_of_file config)]
      split
      · rename_i here
        rw [here, config]
      · rfl
    have kept := write_keeps once
    obtain ⟨foundIgnore, foundPackage⟩ := found _ kept unchanged
    have named : '\r' ∉ s.split.backupDirectory.asText?.getD [] := by
      cases directory : s.split.backupDirectory with
      | text name => exact plain name directory
      | _ => exact not_mem_nil
    have opened := (((amend_keeps listed).1.trans (amend_keeps scripts).1).trans kept).isDirectory prepared.opened
    refine ⟨⟨root, later, g, _, dir, false, false⟩, _, run_ok.mpr ⟨g, dir, _, _, _, choice,
      Settings.saveBy_ok.mpr ⟨v, recorded, once, complete⟩, placed,
      makeDirs_ok.mpr (makeDirectories_there prepared.accepted opened).2,
      updateIgnored_again named listed foundIgnore, updatePackage_again scripts foundPackage, rfl⟩,
      rfl, rfl, kept.workingDirectory, unchanged⟩
  · intro p old before has
    rw [← same] at before
    rcases updatePackage_read scripts with ⟨none, _⟩ | ⟨_, q, read, again, amended⟩
    · rw [none] at before
      cases before
    · rw [read] at before
      cases before
      obtain ⟨_, settled⟩ := read?_canonical read
      obtain ⟨others, all, listed, each⟩ := amended.kept settled has
      exact ⟨q, all, again, others, listed, each⟩

theorem run_twice_script : let t : Tree := {entries := [([['p']], .directory), ([['p'], "package.json".toList],
      .file (Utf8.encode "\x7b\"name\": \"y\", \"scripts\": \x7b\"refactor\": \"x\"\x7d\x7d".toList))]}
    let root := Path.ofText "/p".toList
    t.Rooted ∧ ∃ report u, run root {} none ⟨2024, 1, 2, 3, 4, 5, 6⟩ t = .ok report u ∧
      (∃ again v, run root {} none ⟨2025, 1, 2, 3, 4, 5, 6⟩ u = .ok again v ∧ again.ignoreUpdated = false ∧
        again.packageUpdated = false ∧ ∀ l, v.get? l = u.get? l) ∧
      ∃ q all, Package.read? u root = .ok (some q) ∧ Entries.find? q "scripts" = some (.dict all) ∧
        Entries.find? all "refactor" = some (.ofString "x") ∧
        Entries.find? all "refactor:scan" = some (.ofString "autorefactor scan") := by
  intro t root
  have rooted : t.Rooted := rooted_of_entries (by decide +kernel)
  obtain ⟨report, u, ran⟩ : ∃ report u, run root {} none ⟨2024, 1, 2, 3, 4, 5, 6⟩ t = .ok report u :=
    TreeM.exists_ok (by decide +kernel)
  obtain ⟨⟨again, v, done, ignore, package, _, same⟩, kept⟩ :=
    run_twice rooted rfl (by rintro name ⟨⟩; decide) ran ⟨2025, 1, 2, 3, 4, 5, 6⟩
  have read : Package.read? t root = .ok (some [(.ofString "name", .ofString "y"),
      (.ofString "scripts", .dict [(.ofString "refactor", .ofString "x")])]) :=
    read?_file (Path.accept_ok.mp rfl) rfl (by cbv)
  obtain ⟨q, all, found, _, scripts, each⟩ := kept _ _ read (.inl rfl)
  exact ⟨rooted, report, u, ran, ⟨again, v, done, ignore, package, same⟩, q, all, found, scripts, each _, each _⟩

end Init

end ModuleSplit
