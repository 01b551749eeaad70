import Mathlib.Data.List.Nodup
import ModuleSplit.Proofs.Tree.Directories
import ModuleSplit.Transaction.Run

-- The books of a transaction: every change since it began to write is accounted for.

namespace ModuleSplit

open List ModuleSplit.Tree

def Transaction.Writes (t : Transaction) (p : Path) : Prop :=
  p ≠ t.source ∧ ∃ f ∈ t.files, f.path = p

structure Transaction.Ready (t : Transaction) (start : Tree) (saved : Path) (original : Bytes) :
    Prop where
  rooted : start.Rooted
  admitted : ∀ f ∈ t.files, start.Admits f.path
  distinct : (t.files.map fun f => start.place f.path).Nodup
  listed : ∃ f ∈ t.files, f.path = t.source
  source : start.get? (start.place t.source) = some (.file original)
  reached : start.Admits saved
  copy : start.get? (start.place saved) = some (.file original)
  apart : ∀ f ∈ t.files, start.place f.path ≠ start.place saved

namespace Transaction.Ready

variable {t : Transaction} {start : Tree} {saved : Path} {original : Bytes}

theorem admits_source (ready : t.Ready start saved original) : start.Admits t.source := by
  obtain ⟨f, member, same⟩ := ready.listed
  rw [← same]
  exact ready.admitted f member

theorem place_inj (ready : t.Ready start saved original) {f g : OutputFile} (left : f ∈ t.files)
    (right : g ∈ t.files) (same : start.place f.path = start.place g.path) : f = g :=
  inj_on_of_nodup_map ready.distinct left right same

theorem admits_written (ready : t.Ready start saved original) {p : Path} (writes : t.Writes p) : start.Admits p := by
  obtain ⟨_, f, member, same⟩ := writes
  rw [← same]
  exact ready.admitted f member

end Transaction.Ready

-- Why a place is as it is now.
inductive Account (start : Tree) (source : Path) (created : List Path)
    (previous : List (Path × Bytes)) (dirs : List Path) (now : Tree) (l : Location) : Prop where
  | same (unchanged : now.get? l = start.get? l)
  | created {p : Path} {bytes : Bytes} (listed : p ∈ created) (place : l = start.place p)
      (absent : start.get? l = none) (file : now.get? l = some (.file bytes))
  | replaced {e : Path × Bytes} {bytes : Bytes} (listed : e ∈ previous)
      (place : l = start.place e.1) (file : now.get? l = some (.file bytes))
  | directory {d : Path} (listed : d ∈ dirs) (place : l = start.place d)
  | source {bytes : Bytes} (place : l = start.place source) (file : now.get? l = some (.file bytes))

theorem Account.weaken {start now u : Tree} {source : Path}
    {created created' dirs dirs' : List Path} {previous previous' : List (Path × Bytes)} {l : Location}
    (account : Account start source created previous dirs now l) (same : u.get? l = now.get? l)
    (files : ∀ p ∈ created, l = start.place p → p ∈ created') (contents : ∀ e ∈ previous, l = start.place e.1 → e ∈ previous')
    (directories : ∀ d ∈ dirs, l = start.place d → d ∈ dirs') : Account start source created' previous' dirs' u l := by
  cases account with
  | same unchanged => exact .same (same.trans unchanged)
  | created listed place absent file =>
    exact .created (files _ listed place) place absent (same.trans file)
  | replaced listed place file => exact .replaced (contents _ listed place) place (same.trans file)
  | directory listed place => exact .directory (directories _ listed place) place
  | source place file => exact .source place (same.trans file)

structure Accounted (t : Transaction) (start : Tree) (created : List Path)
    (previous : List (Path × Bytes)) (dirs : List Path) (now : Tree) : Prop where
  workingDirectory : now.workingDirectory = start.workingDirectory
  rooted : now.Rooted
  -- a link that leads nowhere counts as absent
  new : ∀ p ∈ created, t.Writes p ∧
    (start.get? (start.place p) = none ∨ start.get? (start.place p) = some .dangling) ∧
    now.get? (start.place p) ≠ some .directory
  old : ∀ e ∈ previous, t.Writes e.1 ∧ start.get? (start.place e.1) = some (.file e.2)
  made : ∀ d ∈ dirs, start.Admits d ∧ d.name ≠ "..".toList ∧ start.get? (start.place d) = none ∧
    now.get? (start.place d) = some .directory ∧
    ∃ f ∈ t.files, d.root = f.path.root ∧ d.parts <+: f.path.parts
  -- no directory is made before one that it lies in
  order : dirs.Pairwise fun a b => ¬start.place b <+: start.place a
  account : ∀ l, Account start t.source created previous dirs now l

namespace Accounted

variable {t : Transaction} {start now u : Tree} {saved p : Path} {original : Bytes}
  {created dirs : List Path} {previous : List (Path × Bytes)} {l : Location}

theorem nothing (ready : t.Ready start saved original) : Accounted t start [] [] [] start :=
  ⟨rfl, ready.rooted, by simp, by simp, by simp, .nil, fun _ => .same rfl⟩

theorem place_eq (books : Accounted t start created previous dirs now) (p : Path) :
    now.place p = start.place p := place_congr books.workingDirectory p

theorem there (ready : t.Ready start saved original) (books : Accounted t start created previous dirs now) {n : Node}
    (before : start.get? l = some n) : now.get? l = some n ∨ ∃ old bytes, n = .file old ∧ now.get? l = some (.file bytes) ∧
        ((∃ e ∈ previous, l = start.place e.1) ∨ l = start.place t.source) := by
  cases books.account l with
  | same unchanged => exact .inl (unchanged.trans before)
  | created listed place absent file =>
    rw [before] at absent
    cases absent
  | @replaced e bytes listed place file =>
    have noted := (books.old e listed).2
    rw [← place, before] at noted
    cases noted
    exact .inr ⟨e.2, bytes, rfl, file, .inl ⟨e, listed, place⟩⟩
  | directory listed place =>
    have absent := (books.made _ listed).2.2.1
    rw [← place, before] at absent
    cases absent
  | @source bytes place file =>
    have noted := ready.source
    rw [← place, before] at noted
    cases noted
    exact .inr ⟨original, bytes, rfl, file, .inr place⟩

theorem keeps (ready : t.Ready start saved original) (books : Accounted t start created previous dirs now) : start.Keeps now := by
  refine ⟨books.workingDirectory, ?_⟩
  intro l before
  rcases books.there ready before with same | ⟨_, _, file, _⟩
  · exact same
  · cases file

theorem file_there (ready : t.Ready start saved original) (books : Accounted t start created previous dirs now) {old : Bytes}
    (before : start.get? l = some (.file old)) : ∃ bytes, now.get? l = some (.file bytes) := by
  rcases books.there ready before with same | ⟨_, bytes, _, file, _⟩
  · exact ⟨old, same⟩
  · exact ⟨bytes, file⟩

-- The copy of the source is never touched.
theorem copy_kept (ready : t.Ready start saved original) (books : Accounted t start created previous dirs now) :
    now.get? (start.place saved) = some (.file original) := by
  rcases books.there ready ready.copy with same | ⟨_, _, _, _, ⟨e, listed, place⟩ | place⟩
  · exact same
  · obtain ⟨⟨_, f, member, same⟩, _⟩ := books.old e listed
    rw [← same] at place
    exact absurd place.symm (ready.apart f member)
  · obtain ⟨f, member, same⟩ := ready.listed
    rw [← same] at place
    exact absurd place.symm (ready.apart f member)

theorem copy_found (ready : t.Ready start saved original) (books : Accounted t start created previous dirs now) :
    now.find saved = .ok (.file original) := by
  refine find_file books.rooted ((books.keeps ready).admits ready.reached) ?_
  rw [books.place_eq]
  exact books.copy_kept ready

theorem ask (ready : t.Ready start saved original)
    (books : Accounted t start created previous dirs now) (admitted : start.Admits p) :
    now.ask p = .ok ((now.get? (start.place p)).filter (· ≠ .dangling)) := by
  rw [← books.place_eq]
  exact ask_admitted books.rooted ((books.keeps ready).admits admitted)

theorem absent_before (ready : t.Ready start saved original)
    (books : Accounted t start created previous dirs now) (absent : now.get? l = none) : start.get? l = none := by
  cases before : start.get? l with
  | none => rfl
  | some n =>
    rcases books.there ready before with same | ⟨_, _, _, file, _⟩
    · rw [absent] at same
      cases same
    · rw [absent] at file
      cases file

theorem grow (ready : t.Ready start saved original) (books : Accounted t start created previous dirs now) {made : List Path}
    (all : now.Made p made u) (admitted : start.Admits p) (under : ∃ f ∈ t.files, p.root = f.path.root ∧ p.parts <+: f.path.parts)
    (clear : ∀ q ∈ created, ∀ d ∈ made, start.place d ≠ start.place q) : Accounted t start created previous (dirs ++ made) u := by
  have change : ∀ l, u.get? l = if l ∈ made.map start.place then some .directory else now.get? l := by
    have places : made.map now.place = made.map start.place := map_congr_left fun d _ => books.place_eq d
    intro l
    rw [all.change, places]
  have absent : ∀ d ∈ made, now.get? (start.place d) = none := by
    intro d member
    rw [← books.place_eq]
    exact all.absent d member
  refine ⟨all.workingDirectory.trans books.workingDirectory, all.rooted, ?_, books.old, ?_, ?_, ?_⟩
  · intro q listed
    obtain ⟨writes, before, leaf⟩ := books.new q listed
    refine ⟨writes, before, ?_⟩
    rw [change, if_neg]
    · exact leaf
    · intro member
      obtain ⟨d, new, same⟩ := mem_map.mp member
      exact clear q listed d new same
  · intro d member
    rcases mem_append.mp member with earlier | new
    · obtain ⟨reached, name, before, there, below⟩ := books.made d earlier
      refine ⟨reached, name, before, ?_, below⟩
      rw [change]
      split
      · rfl
      · exact there
    · obtain ⟨same, shorter, name⟩ := all.prefixes d new
      obtain ⟨f, listed, root, below⟩ := under
      refine ⟨admitted.of_prefix same shorter, name, books.absent_before ready (absent d new), ?_,
        f, listed, same.trans root, shorter.trans below⟩
      rw [change, if_pos (mem_map_of_mem new)]
  · refine pairwise_append.mpr ⟨books.order, ?_, ?_⟩
    · refine all.outermost.imp ?_
      intro a b apart
      rwa [books.place_eq, books.place_eq] at apart
    · intro a earlier b new above
      have gone := absent b new
      rw [books.rooted.of_prefix (books.made a earlier).2.2.2.1 above] at gone
      cases gone
  · intro l
    by_cases made : l ∈ made.map start.place
    · obtain ⟨d, member, rfl⟩ := mem_map.mp made
      exact .directory (mem_append_right _ member) rfl
    · refine (books.account l).weaken (by rw [change, if_neg made]) (fun p listed _ => listed)
        (fun e listed _ => listed) fun d listed _ => mem_append_left _ listed

theorem note_new (ready : t.Ready start saved original)
    (books : Accounted t start created previous dirs now) (writes : t.Writes p)
    (absent : now.get? (start.place p) = none ∨ now.get? (start.place p) = some .dangling) :
    Accounted t start (created ++ [p]) previous dirs now := by
  have before : start.get? (start.place p) = none ∨ start.get? (start.place p) = some .dangling := by
    rcases absent with none | dangling
    · exact .inl (books.absent_before ready none)
    · cases books.account (start.place p) with
      | same unchanged => exact .inr (unchanged.symm.trans dangling)
      | created listed place gone file => exact .inl gone
      | replaced listed place file => exact absurd (dangling.symm.trans file) (by simp)
      | directory listed place =>
        rw [place]
        exact .inl (books.made _ listed).2.2.1
      | source place file => exact absurd (dangling.symm.trans file) (by simp)
  refine ⟨books.workingDirectory, books.rooted, ?_, books.old, books.made, books.order, ?_⟩
  · intro q member
    rcases mem_append.mp member with earlier | new
    · exact books.new q earlier
    · rw [mem_singleton.mp new]
      refine ⟨writes, before, ?_⟩
      rcases absent with none | dangling
      · simp [none]
      · simp [dangling]
  · intro l
    exact (books.account l).weaken rfl (fun q listed _ => mem_append_left _ listed)
      (fun e listed _ => listed) fun d listed _ => listed

end Accounted

theorem mem_putContent {p : Path} {bytes : Bytes} {contents : List (Path × Bytes)}
    {e : Path × Bytes} (listed : e ∈ putContent p bytes contents) : e ∈ contents ∨ e = (p, bytes) := by
  induction contents with
  | nil => exact .inr (mem_singleton.mp listed)
  | cons first rest ih =>
    obtain ⟨q, old⟩ := first
    unfold putContent at listed
    split at listed
    · rename_i same
      rcases mem_cons.mp listed with rfl | later
      · exact .inr (by rw [same])
      · exact .inl (mem_cons_of_mem _ later)
    · rcases mem_cons.mp listed with rfl | later
      · exact .inl mem_cons_self
      · rcases ih later with earlier | new
        · exact .inl (mem_cons_of_mem _ earlier)
        · exact .inr new

theorem putContent_mem (p : Path) (bytes : Bytes) (contents : List (Path × Bytes)) :
    (p, bytes) ∈ putContent p bytes contents ∧ ∀ e ∈ contents, e.1 ≠ p → e ∈ putContent p bytes contents := by
  induction contents with
  | nil => simp [putContent]
  | cons first rest ih =>
    obtain ⟨q, old⟩ := first
    unfold putContent
    split
    · rename_i same
      subst same
      refine ⟨mem_cons_self, ?_⟩
      intro e listed other
      rcases mem_cons.mp listed with rfl | later
      · exact absurd rfl other
      · exact mem_cons_of_mem _ later
    · refine ⟨mem_cons_of_mem _ ih.1, ?_⟩
      intro e listed other
      rcases mem_cons.mp listed with rfl | later
      · exact mem_cons_self
      · exact mem_cons_of_mem _ (ih.2 e later other)

namespace Accounted

variable {t : Transaction} {start now u : Tree} {saved p : Path} {original bytes : Bytes}
  {created dirs : List Path} {previous : List (Path × Bytes)} {l : Location}

theorem note_old (books : Accounted t start created previous dirs now)
    (writes : t.Writes p) (there : now.get? (start.place p) = some (.file bytes))
    (files : ∀ q ∈ created, start.place p ≠ start.place q) (contents : ∀ e ∈ previous, start.place p ≠ start.place e.1)
    (apart : start.place p ≠ start.place t.source) : Accounted t start created (putContent p bytes previous) dirs now := by
  -- The file is as it was, since nothing that was written so far is in its place.
  have before : start.get? (start.place p) = some (.file bytes) := by
    cases books.account (start.place p) with
    | same unchanged => exact unchanged.symm.trans there
    | created listed place gone file => exact absurd place (files _ listed)
    | replaced listed place file => exact absurd place (contents _ listed)
    | directory listed place =>
      have made := (books.made _ listed).2.2.2.1
      rw [← place, there] at made
      cases made
    | source place file => exact absurd place apart
  refine ⟨books.workingDirectory, books.rooted, books.new, ?_, books.made, books.order, ?_⟩
  · intro e listed
    rcases mem_putContent listed with earlier | rfl
    · exact books.old e earlier
    · exact ⟨writes, before⟩
  · intro l
    refine (books.account l).weaken rfl (fun q listed _ => listed) ?_ fun d listed _ => listed
    intro e listed _
    refine (putContent_mem p bytes previous).2 e listed ?_
    rintro rfl
    exact contents e listed rfl

theorem change_file (books : Accounted t start created previous dirs now) {created' : List Path} {previous' : List (Path × Bytes)}
    (workingDirectory : u.workingDirectory = now.workingDirectory) (rooted : u.Rooted)
    (frame : ∀ m, m ≠ l → u.get? m = now.get? m) (leaf : now.get? l ≠ some .directory)
    (after : u.get? l ≠ some .directory) (new : ∀ q ∈ created', q ∈ created) (old : ∀ e ∈ previous', e ∈ previous)
    (files : ∀ q ∈ created, start.place q ≠ l → q ∈ created') (contents : ∀ e ∈ previous, start.place e.1 ≠ l → e ∈ previous')
    (here : Account start t.source created' previous' dirs u l) : Accounted t start created' previous' dirs u := by
  refine ⟨workingDirectory.trans books.workingDirectory, rooted, ?_,
    fun e listed => books.old e (old e listed), ?_, books.order, ?_⟩
  · intro q listed
    obtain ⟨writes, before, still⟩ := books.new q (new q listed)
    refine ⟨writes, before, ?_⟩
    by_cases same : start.place q = l
    · rwa [same]
    · rwa [frame _ same]
  · intro d member
    obtain ⟨reached, name, before, there, below⟩ := books.made d member
    refine ⟨reached, name, before, ?_, below⟩
    rw [frame, there]
    rintro rfl
    exact leaf there
  · intro m
    by_cases same : m = l
    · subst same
      exact here
    · refine (books.account m).weaken (frame m same) ?_ ?_ fun d listed _ => listed
      · rintro q listed rfl
        exact files q listed same
      · rintro e listed rfl
        exact contents e listed same

theorem put_file (ready : t.Ready start saved original) (books : Accounted t start created previous dirs now)
    (parent : now.get? (start.place p).dropLast = some .directory)
    (free : now.get? (start.place p) = none ∨ ∃ old, now.get? (start.place p) = some (.file old))
    (noted : p ∈ created ∨ (∃ old, (p, old) ∈ previous) ∨ p = t.source) :
    Accounted t start created previous dirs (now.put (start.place p) (.file bytes)) := by
  have leaf : now.get? (start.place p) ≠ some .directory := by
    rcases free with none | ⟨old, file⟩
    · simp [none]
    · simp [file]
  have inner : start.place p ≠ [] := by
    intro root
    rw [root] at leaf
    exact leaf rfl
  have changes := Tree.get?_put inner now (.file bytes)
  have after : (now.put (start.place p) (.file bytes)).get? (start.place p) = some (.file bytes) := by rw [changes, if_pos rfl]
  refine books.change_file (l := start.place p) rfl (books.rooted.put_file inner parent leaf)
    (fun m other => by rw [changes, if_neg other]) leaf (by rw [after]; simp)
    (fun q listed => listed) (fun e listed => listed) (fun q listed _ => listed)
    (fun e listed _ => listed) ?_
  rcases noted with new | ⟨old, listed⟩ | rfl
  · refine .created new rfl ?_ after
    rcases (books.new p new).2.1 with absent | dangling
    · exact absent
    · -- A link that leads nowhere would still be in the way.
      rcases books.there ready dangling with same | ⟨_, _, file, _⟩
      · rw [same] at free
        simp at free
      · cases file
  · exact .replaced listed rfl after
  · exact .source rfl after

theorem drop_absent (books : Accounted t start (created ++ [p]) previous dirs now)
    (absent : ∀ bytes, now.get? (start.place p) ≠ some (.file bytes)) : Accounted t start created previous dirs now := by
  refine ⟨books.workingDirectory, books.rooted, fun q listed => books.new q (mem_append_left _ listed), books.old, books.made,
    books.order, ?_⟩
  intro l
  cases books.account l with
  | same unchanged => exact .same unchanged
  | created listed place gone file =>
    rcases mem_append.mp listed with earlier | last
    · exact .created earlier place gone file
    · rw [mem_singleton.mp last] at place
      subst place
      exact absurd file (absent _)
  | replaced listed place file => exact .replaced listed place file
  | directory listed place => exact .directory listed place
  | source place file => exact .source place file

theorem drop_removed (ready : t.Ready start saved original) (books : Accounted t start (created ++ [p]) previous dirs now)
    (there : now.get? (start.place p) = some (.file bytes)) :
    Accounted t start created previous dirs (now.erase (start.place p)) := by
  have leaf : now.get? (start.place p) ≠ some .directory := by simp [there]
  have inner := ne_root_of_file there
  have changes := get?_erase inner now
  refine books.change_file (l := start.place p) rfl (books.rooted.erase inner (books.rooted.no_children leaf))
    (fun m other => by rw [changes, if_neg other]) leaf (by rw [changes, if_pos rfl]; simp)
    (fun q listed => mem_append_left _ listed) (fun e listed => listed) ?_
    (fun e listed _ => listed) ?_
  · intro q listed other
    rcases mem_append.mp listed with earlier | last
    · exact earlier
    · rw [mem_singleton.mp last] at other
      exact absurd rfl other
  · refine .same ?_
    rw [changes, if_pos rfl]
    rcases (books.new p (by simp)).2.1 with absent | dangling
    · exact absent.symm
    · rcases books.there ready dangling with same | ⟨_, _, file, _⟩
      · rw [there] at same
        cases same
      · cases file

theorem drop_restored {old : Bytes} (books : Accounted t start created ((p, old) :: previous) dirs now)
    (there : now.get? (start.place p) = some (.file bytes)) :
    Accounted t start created previous dirs (now.put (start.place p) (.file old)) := by
  have leaf : now.get? (start.place p) ≠ some .directory := by simp [there]
  have inner := ne_root_of_file there
  have changes := Tree.get?_put inner now (.file old)
  refine books.change_file (l := start.place p) rfl (books.rooted.put_file inner (books.rooted _ _ there) leaf)
    (fun m other => by rw [changes, if_neg other]) leaf (by rw [changes, if_pos rfl]; simp)
    (fun q listed => listed) (fun e listed => mem_cons_of_mem _ listed)
    (fun q listed _ => listed) ?_ ?_
  · intro e listed other
    rcases mem_cons.mp listed with rfl | later
    · exact absurd rfl other
    · exact later
  · refine .same ?_
    rw [changes, if_pos rfl]
    exact (books.old (p, old) mem_cons_self).2.symm

theorem last_directory_empty (ready : t.Ready start saved original)
    (books : Accounted t start [] [] (dirs ++ [p]) now) (name : Text) : now.get? (start.place p ++ [name]) = none := by
  have before := (books.made p (by simp)).2.2.1
  have nothing : start.get? (start.place p ++ [name]) = none := ready.rooted.no_children (by simp [before]) name
  cases books.account (start.place p ++ [name]) with
  | same unchanged => exact unchanged.trans nothing
  | created listed place gone file => cases listed
  | replaced listed place file => cases listed
  | @directory d listed place =>
    rcases mem_append.mp listed with earlier | last
    · have apart := (pairwise_append.mp books.order).2.2 d earlier p (by simp)
      exact absurd (by rw [← place]; exact prefix_append _ _) apart
    · rw [mem_singleton.mp last] at place
      simp at place
  | source place file =>
    rw [place, ready.source] at nothing
    cases nothing

theorem drop_directory (ready : t.Ready start saved original) (books : Accounted t start [] [] (dirs ++ [p]) now) :
    Accounted t start [] [] dirs (now.erase (start.place p)) := by
  obtain ⟨_, _, before, there, _⟩ := books.made p (by simp)
  have inner := ne_root_of_none before
  have changes := get?_erase inner now
  have order := pairwise_append.mp books.order
  have other : ∀ d ∈ dirs, start.place d ≠ start.place p := by
    intro d earlier same
    exact order.2.2 d earlier p (by simp) (by rw [same])
  refine ⟨books.workingDirectory, books.rooted.erase inner (books.last_directory_empty ready), by simp, by simp, ?_, order.1, ?_⟩
  · intro d earlier
    obtain ⟨reached, name, gone, kept, below⟩ := books.made d (mem_append_left _ earlier)
    refine ⟨reached, name, gone, ?_, below⟩
    rw [changes, if_neg (other d earlier), kept]
  · intro l
    by_cases same : l = start.place p
    · refine .same ?_
      rw [same, changes, if_pos rfl, before]
    · refine (books.account l).weaken (by rw [changes, if_neg same]) (by simp) (by simp) ?_
      rintro d listed rfl
      rcases mem_append.mp listed with earlier | last
      · exact earlier
      · rw [mem_singleton.mp last] at same
        exact absurd rfl same

theorem settled (ready : t.Ready start saved original) (books : Accounted t start [] [] [] now)
    (l : Location) : (now.put (start.place t.source) (.file original)).get? l = start.get? l := by
  have inner := ne_root_of_file ready.source
  rw [Tree.get?_put inner]
  split
  · rename_i same
    rw [same, ready.source]
  · rename_i other
    cases books.account l with
    | same unchanged => exact unchanged
    | created listed place gone file => cases listed
    | replaced listed place file => cases listed
    | directory listed place => cases listed
    | source place file => exact absurd place other

end Accounted

end ModuleSplit
