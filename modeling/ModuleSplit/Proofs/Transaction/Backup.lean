import Mathlib.Data.List.Perm.Subperm
import Mathlib.Data.Nat.Find
import ModuleSplit.Proofs.Text.Lines
import ModuleSplit.Proofs.Transaction.Check
import ModuleSplit.Proofs.Transaction.Undo
import ModuleSplit.Proofs.Tree.Refusals

-- Saving the source. More names are tried for a backup than the tree has entries.

namespace ModuleSplit

open List ModuleSplit.Tree

variable {name : Text}

theorem Text.ofNat_injective {m n : Nat} (same : Text.ofNat m = Text.ofNat n) : m = n := by
  unfold Text.ofNat at same
  rw [Nat.toList_repr, Nat.toList_repr] at same
  rw [← Nat.ofDigitChars_toDigits (n := m) (by omega : 1 < 10) (by omega), same, Nat.ofDigitChars_toDigits (by omega) (by omega)]

theorem Text.ofNat_digit {n : Nat} {c : Char} (member : c ∈ ofNat n) : c.isDigit = true := by
  unfold ofNat at member
  rw [Nat.toList_repr] at member
  exact Nat.isDigit_of_mem_toDigits (by omega) (by omega) member

def NameChar (c : Char) : Prop := c ≠ '/' ∧ c ≠ '\x00'

theorem nameChar_name {p : Path} (free : p.NullFree) (single : '/' ∉ p.name) : ∀ c ∈ p.name, NameChar c := by
  intro c inside
  refine ⟨?_, ?_⟩
  · rintro rfl
    exact single inside
  · rintro rfl
    exact free.name inside

theorem nameChar_digit {c : Char} (digit : c.isDigit = true) : NameChar c := by
  refine ⟨?_, ?_⟩ <;> rintro rfl <;> simp at digit

theorem nameChar_ofNat {n : Nat} {c : Char} (member : c ∈ Text.ofNat n) : NameChar c :=
  nameChar_digit (Text.ofNat_digit member)

namespace Moment

theorem nameChar_digits {width n : Nat} {c : Char} (member : c ∈ digits width n) : NameChar c := by
  unfold digits Text.padLeft at member
  rcases mem_append.mp member with filled | shown
  · rw [eq_of_mem_replicate filled]
    exact nameChar_digit rfl
  · exact nameChar_ofNat shown

theorem nameChar_joined {parts : List Text} {sep : Text} (between : ∀ c ∈ sep, NameChar c)
    (inside : ∀ part ∈ parts, ∀ c ∈ part, NameChar c) : ∀ c ∈ List.intercalate sep parts, NameChar c := by
  induction parts with
  | nil => simp
  | cons part rest ih =>
    have later := ih fun part member => inside part (mem_cons_of_mem _ member)
    cases rest with
    | nil =>
      rw [intercalate_singleton]
      exact inside part mem_cons_self
    | cons next rest =>
      rw [intercalate_cons_cons]
      intro c member
      rcases mem_append.mp member with front | back
      · rcases mem_append.mp front with first | middle
        · exact inside part mem_cons_self c first
        · exact between c middle
      · exact later c back

theorem nameChar_numbers (width i j k : Nat) : ∀ c ∈ Text.joinWith "-" [digits width i, digits 2 j, digits 2 k], NameChar c := by
  refine nameChar_joined (by simp [NameChar]) ?_
  simp only [mem_cons, not_mem_nil, or_false]
  rintro part (rfl | rfl | rfl) c member
  · exact nameChar_digits member
  · exact nameChar_digits member
  · exact nameChar_digits member

theorem nameChar_stamp (m : Moment) : ∀ c ∈ m.stamp, NameChar c := by
  have date : ∀ c ∈ m.dateText, NameChar c := nameChar_numbers 4 m.year m.month m.day
  have time := nameChar_numbers 2 m.hour m.minute m.second
  have milli : ∀ c ∈ digits 3 (m.microsecond / 1000), NameChar c := fun c => nameChar_digits
  unfold stamp secondsText
  simp only [forall_mem_append, forall_mem_singleton]
  exact ⟨⟨⟨⟨⟨date, by simp [NameChar]⟩, time⟩, by simp [NameChar]⟩, milli⟩, by simp [NameChar]⟩

end Moment

namespace Backup

variable {source : Path} {m : Moment}

theorem nameChar_fileName (named : ∀ c ∈ source.name, NameChar c) (m : Moment) (attempt : Nat) :
    ∀ c ∈ fileName source m attempt, NameChar c := by
  have number : ∀ c ∈ (if attempt = 0 then [] else '-' :: Text.ofNat attempt), NameChar c := by
    split
    · simp
    · rw [forall_mem_cons]
      exact ⟨by simp [NameChar], fun c => nameChar_ofNat⟩
  unfold fileName
  simp only [forall_mem_append, forall_mem_singleton]
  exact ⟨⟨⟨⟨named, by simp [NameChar]⟩, m.nameChar_stamp⟩, number⟩, by simp [NameChar]⟩

theorem fileName_injective {i j : Nat} (same : fileName source m i = fileName source m j) : i = j := by
  unfold fileName at same
  have numbers := append_cancel_left (append_cancel_right same)
  by_cases first : i = 0 <;> by_cases second : j = 0
  · rw [first, second]
  · simp [first, second] at numbers
  · simp [first, second] at numbers
  · simp only [first, second, if_false, List.cons.injEq, true_and] at numbers
    exact Text.ofNat_injective numbers

theorem fileName_long (source : Path) (m : Moment) (attempt : Nat) : 7 ≤ (fileName source m attempt).length := by
  have ends : 7 = ".backup".toList.length := rfl
  rw [ends]
  unfold fileName
  rw [length_append]
  exact Nat.le_add_left _ _

end Backup

theorem Path.isPart_of_long (long : 2 < name.length) : isPart name = true := by
  cases name with
  | nil => cases long
  | cons c rest =>
    cases rest with
    | nil => simp at long
    | cons d rest => simp [isPart]

theorem Path.ofText_name (named : ∀ c ∈ name, NameChar c) : ofText name = ⟨.relative, [name].filter isPart⟩ := by
  have slash : '/' ∉ name := fun member => (named '/' member).1 rfl
  have relative : readRoot name = .relative := by
    have none : name.takeWhile (· == '/') = [] := by
      cases name with
      | nil => rfl
      | cons c rest =>
        have other : c ≠ '/' := by
          rintro rfl
          simp at slash
        rw [takeWhile_cons_of_neg (by simpa using other)]
    rw [readRoot, none]
    rfl
  have single : Text.splitOn '/' name = [name] := by
    rw [Text.splitOn_eq]
    have plain : ∀ part ∈ [name], '/' ∉ part := by simpa using slash
    have split := splitOn_intercalate '/' plain (by simp)
    rwa [intercalate_singleton] at split
  rw [ofText, relative, single]

theorem Path.child_eq (p : Path) (named : ∀ c ∈ name, NameChar c)
    (part : isPart name = true) : p.child name = ⟨p.root, p.parts ++ [name]⟩ := by
  rw [child, ofText_name named, filter_cons_of_pos part]
  rfl

namespace Backup

variable {t : Tree} {dir source : Path} {m : Moment}

def candidate (dir source : Path) (m : Moment) (attempt : Nat) : Path :=
  ⟨dir.root, dir.parts ++ [fileName source m attempt]⟩

theorem fileName_ne_up (source : Path) (m : Moment) (attempt : Nat) : fileName source m attempt ≠ "..".toList := by
  intro up
  have long := fileName_long source m attempt
  rw [up] at long
  simp at long

theorem place_candidate (t : Tree) (dir source : Path) (m : Moment) (attempt : Nat) :
    t.place (candidate dir source m attempt) = t.place dir ++ [fileName source m attempt] :=
  place_child (fileName_ne_up source m attempt)

theorem candidate_nullFree (free : dir.NullFree) (named : ∀ c ∈ source.name, NameChar c)
    (m : Moment) (attempt : Nat) : (candidate dir source m attempt).NullFree := by
  intro part member
  rcases mem_append.mp member with above | last
  · exact free part above
  · rw [mem_singleton.mp last]
    intro null
    exact (nameChar_fileName named m attempt _ null).2 rfl

theorem places_nodup (t : Tree) (dir source : Path) (m : Moment) {attempts : List Nat} (distinct : attempts.Nodup) :
    (attempts.map fun k => t.place (candidate dir source m k)).Nodup := by
  refine List.Nodup.map ?_ distinct
  intro i j same
  dsimp only at same
  rw [place_candidate, place_candidate] at same
  exact fileName_injective (singleton_inj.mp (append_cancel_left same))

theorem taken_le {k : Nat} (taken : ∀ attempt < k, ∃ n, t.ask (candidate dir source m attempt) = .ok (some n)) : k ≤ t.size := by
  have listed : ((List.range k).map fun i => t.place (candidate dir source m i)) ⊆ t.entries.map (·.1) := by
    intro l member
    obtain ⟨i, inside, rfl⟩ := mem_map.mp member
    obtain ⟨n, found⟩ := taken i (mem_range.mp inside)
    refine mem_entries ?_ (ask_some found).2
    rw [place_candidate]
    simp
  have bound := ((places_nodup t dir source m nodup_range).subperm listed).length_le
  rwa [length_map, length_range, length_map] at bound

-- More names than entries: they cannot all be taken.
theorem not_all_taken (t : Tree) (dir source : Path) (m : Moment) :
    ∃ attempt < t.size + 1, ∀ n, t.ask (candidate dir source m attempt) ≠ .ok (some n) := by
  by_contra taken
  simp only [not_exists, not_and, not_forall, not_not] at taken
  exact absurd (taken_le taken) (Nat.not_succ_le_self _)

theorem child_fileName (dir : Path) (named : ∀ c ∈ source.name, NameChar c) (m : Moment)
    (attempt : Nat) : dir.child (fileName source m attempt) = candidate dir source m attempt := by
  have long := fileName_long source m attempt
  exact dir.child_eq (nameChar_fileName named m attempt) (Path.isPart_of_long (by omega))

theorem target_at {k : Nat} (named : ∀ c ∈ source.name, NameChar c)
    (taken : ∀ attempt < k, ∃ n, t.ask (candidate dir source m attempt) = .ok (some n))
    (free : ∀ n, t.ask (candidate dir source m k) ≠ .ok (some n)) : target t dir source m =
      (t.ask (candidate dir source m k)).map fun _ => candidate dir source m k := by
  have enough := taken_le taken
  have names : List.range (t.size + 1) = List.range k ++ k :: (List.range (t.size - k)).map (k + ·.succ) := by
    rw [show t.size + 1 = k + (t.size - k + 1) by omega, range_add, range_succ_eq_map]
    simp
  have passed : ∀ p ∈ (List.range k).map fun i => candidate dir source m i,
      (do return (← t.ask p).isNone : Result Bool) = .ok false := by
    rw [forall_mem_map]
    intro i small
    obtain ⟨n, found⟩ := taken i (mem_range.mp small)
    rw [found]
    rfl
  unfold target
  simp only [child_fileName dir named]
  rw [names, map_append, findM?_append passed, map_cons, List.findM?]
  cases asked : t.ask (candidate dir source m k) with
  | error f => rfl
  | ok found =>
    cases found with
    | none => rfl
    | some n => exact absurd asked (free n)

theorem target_first (t : Tree) (dir : Path) (m : Moment) (named : ∀ c ∈ source.name, NameChar c) :
    ∃ k, (∀ attempt < k, ∃ n, t.ask (candidate dir source m attempt) = .ok (some n)) ∧
      (∀ n, t.ask (candidate dir source m k) ≠ .ok (some n)) ∧ target t dir source m =
        (t.ask (candidate dir source m k)).map fun _ => candidate dir source m k := by
  classical
  have some : ∃ k, ∀ n, t.ask (candidate dir source m k) ≠ .ok (some n) := by
    obtain ⟨k, _, free⟩ := not_all_taken t dir source m
    exact ⟨k, free⟩
  have taken : ∀ attempt < Nat.find some, ∃ n, t.ask (candidate dir source m attempt) = .ok (Option.some n) := by
    intro attempt small
    simpa using Nat.find_min some small
  exact ⟨_, taken, Nat.find_spec some, target_at named taken (Nat.find_spec some)⟩

-- The search ends behind the names that are taken, at one that cannot be asked for or with one that
-- is free.
theorem target_search (t : Tree) (dir : Path) (m : Moment) (named : ∀ c ∈ source.name, NameChar c) :
    ∃ k, (∀ attempt < k, ∃ n, t.ask (candidate dir source m attempt) = .ok (some n)) ∧
      ((∃ f, t.ask (candidate dir source m k) = .error f ∧ target t dir source m = .error f) ∨
        (t.ask (candidate dir source m k) = .ok none ∧ target t dir source m = .ok (candidate dir source m k))) := by
  obtain ⟨k, taken, free, ended⟩ := target_first t dir m named
  refine ⟨k, taken, ?_⟩
  cases asked : t.ask (candidate dir source m k) with
  | error f =>
    rw [asked] at ended
    exact .inl ⟨f, rfl, ended⟩
  | ok found =>
    rw [asked] at ended
    cases found with
    | none => exact .inr ⟨rfl, ended⟩
    | some n => exact absurd asked (free n)

theorem target_free (t : Tree) (dir : Path) (m : Moment) (named : ∀ c ∈ source.name, NameChar c) :
    (∃ e, target t dir source m = .error (.os e)) ∨ ∃ attempt, target t dir source m = .ok (candidate dir source m attempt) ∧
        t.ask (candidate dir source m attempt) = .ok none := by
  obtain ⟨k, _, ⟨f, asked, refused⟩ | ⟨asked, found⟩⟩ := target_search t dir m named
  · obtain ⟨e, rfl⟩ := ask_os asked
    exact .inl ⟨e, refused⟩
  · exact .inr ⟨k, found, asked⟩

theorem choose_search (s : Store) (dir : Path) (m : Moment) (named : ∀ c ∈ source.name, NameChar c) :
    After (choose dir source m) s
      (fun path s' => s.Quiet s' ∧ ∃ k, (∀ attempt < k, ∃ n, s.tree.ask (candidate dir source m attempt) = .ok (some n)) ∧
        path = candidate dir source m k ∧ s.tree.ask path = .ok none)
      fun f s' => s.Quiet s' ∧ ((∃ p, s'.StoppedAt ⟨.exists, p⟩ f) ∨
        ∃ k, (∀ attempt < k, ∃ n, s.tree.ask (candidate dir source m attempt) = .ok (some n)) ∧
          ¬(candidate dir source m k).Storable ∧ s.tree.ask (candidate dir source m k) = .error f) := by
  obtain ⟨k, taken, search⟩ := target_search s.tree dir m named
  refine (choose_call s dir source m).mono ?_ ?_
  · rintro path s' ⟨chosen, quiet⟩
    rcases search with ⟨f, _, refused⟩ | ⟨asked, found⟩
    · cases refused.symm.trans chosen
    · cases found.symm.trans chosen
      exact ⟨quiet, k, taken, rfl, asked⟩
  · rintro f s' ⟨quiet, stopped | failed⟩
    · exact ⟨quiet, .inl stopped⟩
    · rcases search with ⟨g, asked, refused⟩ | ⟨_, found⟩
      · cases refused.symm.trans failed
        refine ⟨quiet, .inr ⟨k, taken, fun storable => ?_, asked⟩⟩
        obtain ⟨_, answered⟩ := ask_storable (t := s.tree) storable
        cases asked.symm.trans answered
      · cases found.symm.trans failed

end Backup

structure Saved (t : Transaction) (before : Tree) (saved : Path) (original : Bytes) (now : Tree) :
    Prop where
  rooted : now.Rooted
  keeps : before.Keeps now
  reached : now.Admits saved
  absent : before.get? (before.place saved) = none
  copy : now.get? (before.place saved) = some (.file original)
  inside : ∃ name, before.place saved = before.place t.backupDir ++ [name]
  change : ∀ l, l ≠ before.place saved → now.get? l = before.get? l ∨
    (before.get? l = none ∧ now.get? l = some .directory ∧ before.OnTheWay t.backupDir l)

theorem Saved.ready {t : Transaction} {before now : Tree} {saved : Path} {original : Bytes}
    (done : Saved t before saved original now) (admitted : ∀ f ∈ t.files, before.Admits f.path)
    (distinct : (t.files.map fun f => before.place f.path).Nodup) (listed : ∃ f ∈ t.files, f.path = t.source)
    (there : before.get? (before.place t.source) = some (.file original))
    (apart : ∀ f ∈ t.files, before.place f.path ≠ before.place saved) : t.Ready now saved original := by
  have place := done.keeps.place
  refine ⟨done.rooted, fun f member => done.keeps.admits (admitted f member), ?_, listed, ?_, done.reached, ?_, ?_⟩
  · simp only [place]
    exact distinct
  · rw [place]
    have other : before.place t.source ≠ before.place saved := by
      intro same
      rw [same, done.absent] at there
      cases there
    rcases done.change _ other with same | ⟨absent, _, _⟩
    · rw [same, there]
    · rw [there] at absent
      cases absent
  · rw [place]
    exact done.copy
  · intro f member
    rw [place, place]
    exact apart f member

namespace Transaction

open AttemptM

variable {t : Transaction} {before u : Tree} {original : Bytes} {m : Moment} {attempt : Nat}

theorem candidate_accepted (accepted : Tree.accept t.backupDir = .ok ⟨⟩)
    (named : ∀ c ∈ t.source.name, NameChar c) (m : Moment) (attempt : Nat) :
    Tree.accept (Backup.candidate t.backupDir t.source m attempt) = .ok ⟨⟩ :=
  Path.accept_ok.mpr (Backup.candidate_nullFree (Path.accept_ok.mp accepted) named m attempt)

theorem copy_saved {saved : Path} (chosen : saved = Backup.candidate t.backupDir t.source m attempt)
    (grows : before.Grows u (before.OnTheWay t.backupDir))
    (accepted : Tree.accept t.backupDir = .ok ⟨⟩) (named : ∀ c ∈ t.source.name, NameChar c)
    (found : u.isDirectory t.backupDir = true) (source : before.Admits t.source)
    (there : before.get? (before.place t.source) = some (.file original)) (free : u.ask saved = .ok none) :
    (∃ e, u.copy t.source saved = .error (.os e)) ∨
      ∃ now, u.copy t.source saved = .ok now ∧ Saved t before saved original now := by
  have keeps := grows.keeps
  have up := Backup.fileName_ne_up t.source m attempt
  have allowed : Tree.accept saved = .ok ⟨⟩ := by
    rw [chosen]
    exact candidate_accepted accepted named m attempt
  have place : ∀ v : Tree, v.place saved = v.place t.backupDir ++ [Backup.fileName t.source m attempt] := by
    rw [chosen]
    exact fun v => place_child up
  obtain ⟨_, directory⟩ := isDirectory_parts found
  have read : u.read t.source = .ok original := by
    refine read_file grows.rooted (keeps.admits source) ?_
    rw [keeps.place]
    exact grows.get?_some there
  rw [copy_eq (keeps.admits source).accept allowed read (not_isDirectory_asked allowed free)]
  rcases write_parts allowed u original with refused | ⟨done, reached, taken⟩
  · exact .inl refused
  refine .inr ⟨_, done, ?_⟩
  have absent : u.get? (u.place saved) = none := by
    refine (ask_none allowed free reached).resolve_right fun dangling => ?_
    simp [dangling] at taken
  have parent : u.get? (u.place saved).dropLast = some .directory := by
    rw [place, dropLast_concat]
    exact directory
  have inner := ne_root_of_none absent
  have changes := Tree.get?_put inner u (.file original)
  have onward : u.Keeps (u.put (u.place saved) (.file original)) := by
    refine ⟨rfl, ?_⟩
    intro l there
    rw [changes, if_neg, there]
    rintro rfl
    rw [absent] at there
    cases there
  have anchored : (u.put (u.place saved) (.file original)).Anchored saved := by
    have directory := onward.isDirectory found
    rw [chosen] at directory ⊢
    refine ⟨t.backupDir.parts, [Backup.fileName t.source m attempt], rfl, directory, ?_⟩
    simpa using Ne.symm up
  refine ⟨grows.rooted.put_file inner parent (by simp [absent]), keeps.trans onward,
    ⟨storable_of_located allowed reached, anchored⟩, ?_, ?_, ⟨_, place before⟩, ?_⟩
  · rw [← keeps.place]
    rcases grows.change (u.place saved) with same | new
    · rw [← same, absent]
    · exact new.1
  · rw [← keeps.place, changes, if_pos rfl]
  · intro l other
    rw [← keeps.place] at other
    rw [changes, if_neg other]
    exact grows.change l

structure Savable (t : Transaction) (tree : Tree) (original : Bytes) : Prop where
  rooted : tree.Rooted
  home : tree.get? tree.workingDirectory = some .directory
  accepted : Tree.accept t.backupDir = .ok ⟨⟩
  named : ∀ c ∈ t.source.name, NameChar c
  source : tree.Admits t.source
  there : tree.get? (tree.place t.source) = some (.file original)

theorem saveSource_after {a : Attempt} (savable : t.Savable a.store.tree original) (calm : a.store.Calm) (m : Moment) :
    After (t.saveSource m) a (fun saved a' => a'.progress = a.progress ∧ a'.store.schedule = a.store.schedule ∧
        Saved t a.store.tree saved original a'.store.tree) fun f a' => (∃ e, f = .os e) ∧
        a.store.tree.Grows a'.store.tree (a.store.tree.OnTheWay t.backupDir) := by
  have upward := makeDirectories_grows savable.rooted savable.home savable.accepted
  refine .bind (.onStore ((Store.makeDirs_after t.backupDir (calm _)).mono ?_ ?_))
  · rintro made s ⟨u, _, accepted, rfl⟩
    rw [accepted] at upward
    have grows := upward.grows
    refine .bind (.onStore ((Backup.choose_call _ t.backupDir t.source m).mono ?_ ?_))
    · rintro saved s ⟨chosen, quiet⟩
      rcases Backup.target_free u t.backupDir m savable.named with ⟨e, refused⟩ | ⟨attempt, found, free⟩
      · cases refused.symm.trans chosen
      cases found.symm.trans chosen
      have tree : s.tree = u := quiet.tree
      have copied := copy_saved rfl grows savable.accepted savable.named (upward.found rfl) savable.source savable.there free
      rw [← tree] at copied grows
      refine .bind (.onStore ((Store.copy_after t.source _ (quiet.calm calm _)).mono ?_ ?_))
      · rintro _ s' ⟨now, done, rfl⟩
        rcases copied with ⟨e, refused⟩ | ⟨now', same, saved⟩
        · cases refused.symm.trans done
        · cases same.symm.trans done
          exact ⟨rfl, quiet.schedule, saved⟩
      · rintro f s' ⟨rfl, refused | failed⟩
        · obtain ⟨words, _, rfl⟩ := refused
          exact ⟨⟨_, rfl⟩, grows⟩
        · rcases copied with ⟨e, refused⟩ | ⟨now', same, saved⟩
          · cases refused.symm.trans failed
            exact ⟨⟨e, rfl⟩, grows⟩
          · cases same.symm.trans failed
    · rintro f s ⟨quiet, reason⟩
      have tree : s.tree = u := quiet.tree
      rw [← tree] at grows
      refine ⟨?_, grows⟩
      rcases reason with ⟨_, _, stopped⟩ | refused
      · obtain ⟨words, _, rfl⟩ := stopped.refused (quiet.calm calm _)
        exact ⟨_, rfl⟩
      · rcases Backup.target_free u t.backupDir m savable.named with ⟨e, same⟩ | ⟨attempt, found, free⟩
        · cases same.symm.trans refused
          exact ⟨e, rfl⟩
        · cases found.symm.trans refused
  · rintro f s (⟨rfl, refused | failed⟩ | ⟨u, failed, rfl⟩)
    · obtain ⟨words, _, rfl⟩ := refused
      exact ⟨⟨_, rfl⟩, .refl savable.rooted⟩
    · exact ⟨missing_os failed, .refl savable.rooted⟩
    · rw [failed] at upward
      exact ⟨upward.refused f rfl, upward.grows⟩

-- A failure is reported as one of the backup, but for the very first question.
theorem backup_after {a : Attempt} (savable : t.Savable a.store.tree original) (calm : a.store.Calm) (m : Moment) :
    After (t.backup m) a (fun record a' => record.source = t.source ∧
        a'.progress = {a.progress with backup := some record, phase := .backedUp} ∧
        a'.store.schedule = a.store.schedule ∧ Saved t a.store.tree record.path original a'.store.tree)
      fun f a' => ((∃ reason, f = .backup t.source reason) ∨
          (a'.store = a.store.next ⟨.isFile, t.source⟩ a.store.tree ∧ a'.store.Refused f)) ∧
        a.store.tree.Grows a'.store.tree (a.store.tree.OnTheWay t.backupDir) := by
  have asked := ask_admitted savable.rooted savable.source
  rw [savable.there] at asked
  refine .bind (.onStore ((Store.isFile_after asked (calm _)).mono ?_ ?_))
  · rintro answer s ⟨isFile, rfl⟩
    have yes : answer = true := isFile.mpr ⟨original, rfl⟩
    subst yes
    refine .bind (.named ((saveSource_after (a := ⟨_, a.store.next ⟨.isFile, t.source⟩ a.store.tree⟩) savable calm m).mono ?_ ?_))
    · rintro saved a' ⟨same, schedule, done⟩
      refine .bind (.update ?_)
      exact ⟨rfl, by rw [same], schedule, done⟩
    · rintro f a' ⟨⟨e, rfl⟩, grows⟩
      exact ⟨e, rfl, .inl ⟨e.message, rfl⟩, grows⟩
  · rintro f s ⟨rfl, refused⟩
    exact ⟨.inr ⟨rfl, refused⟩, .refl savable.rooted⟩

end Transaction

end ModuleSplit
