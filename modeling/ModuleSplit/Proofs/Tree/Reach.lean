import ModuleSplit.Proofs.Tree.Lookup

namespace ModuleSplit

open List

-- Paths that can be asked for: no null character, and neither a part nor the whole too long.
structure Path.Storable (p : Path) : Prop where
  accepted : p.parts.any (·.contains '\x00') = false
  short : ∀ part ∈ p.parts, Utf8.size part ≤ Tree.nameLimit
  brief : Utf8.size p.text < Tree.pathLimit

instance (p : Path) : Decidable p.Storable :=
  decidable_of_iff (p.parts.any (·.contains '\x00') = false ∧
      (∀ part ∈ p.parts, Utf8.size part ≤ Tree.nameLimit) ∧ Utf8.size p.text < Tree.pathLimit)
    ⟨fun ⟨accepted, short, brief⟩ => ⟨accepted, short, brief⟩,
      fun ⟨accepted, short, brief⟩ => ⟨accepted, short, brief⟩⟩

@[simp] theorem Utf8.size_append (a b : Text) : Utf8.size (a ++ b) = Utf8.size a + Utf8.size b := by
  simp [Utf8.size, Utf8.encode]

namespace Path

theorem size_intercalate_snoc (init : List Text) (name : Text) : Utf8.size (List.intercalate ['/'] init) ≤
      Utf8.size (List.intercalate ['/'] (init ++ [name])) := by
  induction init with
  | nil => exact Nat.zero_le _
  | cons part rest ih =>
    have whole : List.intercalate ['/'] (part :: (rest ++ [name])) = part ++ ['/'] ++ List.intercalate ['/'] (rest ++ [name]) :=
      intercalate_cons_of_ne_nil (by simp)
    rw [cons_append, whole, Utf8.size_append, Utf8.size_append]
    cases rest with
    | nil =>
      rw [intercalate_singleton]
      omega
    | cons next rest =>
      rw [intercalate_cons_cons, Utf8.size_append, Utf8.size_append]
      omega

@[simp] theorem parent_snoc (root : PathRoot) (init : List Text) (name : Text) : parent ⟨root, init ++ [name]⟩ = ⟨root, init⟩ := by
  rw [parent, dropLast_concat]

theorem brief_above {root : PathRoot} {init : List Text} {name : Text}
    (brief : Utf8.size (text ⟨root, init ++ [name]⟩) < Tree.pathLimit) : Utf8.size (text ⟨root, init⟩) < Tree.pathLimit := by
  have longer := size_intercalate_snoc init name
  have whole : text ⟨root, init ++ [name]⟩ = rootText root ++ List.intercalate ['/'] (init ++ [name]) := by
    cases root <;> cases init <;> rfl
  rw [whole, Utf8.size_append] at brief
  by_cases dot : root = .relative ∧ init = []
  · obtain ⟨rfl, rfl⟩ := dot
    decide
  · have part : text ⟨root, init⟩ = rootText root ++ List.intercalate ['/'] init := by
      unfold text
      split
      · simp_all
      · rfl
    rw [part, Utf8.size_append]
    omega

theorem Storable.above {root : PathRoot} {init : List Text} {name : Text}
    (storable : Storable ⟨root, init ++ [name]⟩) : Storable ⟨root, init⟩ := by
  obtain ⟨accepted, short, brief⟩ := storable
  refine ⟨?_, fun part member => short part (mem_append_left _ member), brief_above brief⟩
  rw [any_append, Bool.or_eq_false_iff] at accepted
  exact accepted.1

end Path

namespace Tree

variable {t u : Tree} {l m : Location} {p : Path} {part name : Text} {bytes : Bytes}
  {parts init : List Text} {root : PathRoot}

def enter (l : Location) (part : Text) : Location :=
  if part = "..".toList then l.dropLast else l ++ [part]

def place (t : Tree) (p : Path) : Location := (t.resolve p).parts

theorem place_eq (t : Tree) (p : Path) : t.place p = p.parts.foldl enter (t.start p) := rfl

theorem place_congr (same : u.workingDirectory = t.workingDirectory) (p : Path) : u.place p = t.place p := by
  rw [place_eq, place_eq, start, start, same]

theorem step_ok (stepped : t.step l part = .ok m) : t.get? l = some .directory ∧ m = enter l part ∧
      (part = "..".toList ∨ Utf8.size part ≤ nameLimit) := by
  unfold step at stepped
  split at stepped
  · rename_i there
    unfold enter
    split at stepped
    · rename_i up
      cases stepped
      exact ⟨there, (if_pos up).symm, .inl up⟩
    · rename_i down
      split at stepped
      · cases stepped
      · cases stepped
        exact ⟨there, (if_neg down).symm, .inr (by omega)⟩
  · cases stepped
  · cases stepped
  · cases stepped

theorem step_directory (there : t.get? l = some .directory)
    (short : part = "..".toList ∨ Utf8.size part ≤ nameLimit) : t.step l part = .ok (enter l part) := by
  unfold step enter
  rw [there]
  dsimp only
  split
  · rfl
  · rename_i down
    rcases short with up | short
    · exact absurd up down
    · rw [if_neg (by omega)]

theorem walk_cons {rest : List Text} (walked : (part :: rest).foldlM t.step l = .ok m) :
    t.get? l = some .directory ∧ (part = "..".toList ∨ Utf8.size part ≤ nameLimit) ∧
      rest.foldlM t.step (enter l part) = .ok m := by
  rw [foldlM_cons] at walked
  cases stepped : t.step l part with
  | error cause =>
    rw [stepped] at walked
    cases walked
  | ok next =>
    rw [stepped] at walked
    obtain ⟨there, rfl, short⟩ := step_ok stepped
    exact ⟨there, short, walked⟩

theorem walk_ok (walked : parts.foldlM t.step l = .ok m) : m = parts.foldl enter l := by
  induction parts generalizing l with
  | nil =>
    cases walked
    rfl
  | cons part rest ih =>
    obtain ⟨_, _, onward⟩ := walk_cons walked
    exact ih onward

theorem locate_walk (located : t.locate p = .ok l) : p.parts.foldlM t.step (t.start p) = .ok l := by
  unfold locate at located
  split at located
  · exact located
  · cases located

theorem locate_ok (located : t.locate p = .ok l) : l = t.place p := by
  exact walk_ok (locate_walk located)

-- Nothing that could be walked through is lost.
structure Keeps (t u : Tree) : Prop where
  workingDirectory : u.workingDirectory = t.workingDirectory
  directory : ∀ l, t.get? l = some .directory → u.get? l = some .directory

namespace Keeps

theorem trans {v : Tree} (first : t.Keeps u) (second : u.Keeps v) : t.Keeps v :=
  ⟨second.workingDirectory.trans first.workingDirectory, fun l there => second.directory l (first.directory l there)⟩

theorem place (keeps : t.Keeps u) (p : Path) : u.place p = t.place p :=
  place_congr keeps.workingDirectory p

theorem walk (keeps : t.Keeps u) {parts : List Text} (walked : parts.foldlM t.step l = .ok m) :
    parts.foldlM u.step l = .ok m := by
  induction parts generalizing l with
  | nil => exact walked
  | cons part rest ih =>
    obtain ⟨there, short, onward⟩ := walk_cons walked
    rw [foldlM_cons, step_directory (keeps.directory l there) short]
    exact ih onward

theorem locate (keeps : t.Keeps u) (located : t.locate p = .ok l) : u.locate p = .ok l := by
  unfold Tree.locate at located ⊢
  split at located
  · rename_i brief
    rw [if_pos brief, start, keeps.workingDirectory]
    exact keeps.walk located
  · cases located

end Keeps

theorem isDirectory_parts (found : t.isDirectory p = true) :
    t.locate p = .ok (t.place p) ∧ t.get? (t.place p) = some .directory := by
  unfold isDirectory find at found
  cases located : t.locate p with
  | error cause =>
    rw [located] at found
    cases found
  | ok l =>
    have place := locate_ok located
    subst place
    rw [located] at found
    refine ⟨rfl, ?_⟩
    cases there : t.get? (t.place p) with
    | none => simp [bind, Except.bind, there] at found
    | some n => cases n <;> simp [bind, Except.bind, there] at found ⊢

theorem isDirectory_of_get? (located : t.locate p = .ok l) (there : t.get? l = some .directory) : t.isDirectory p = true := by
  unfold isDirectory find
  rw [located]
  simp [bind, Except.bind, there]

theorem not_isDirectory (other : t.get? (t.place p) ≠ some .directory) : t.isDirectory p = false := by
  cases found : t.isDirectory p with
  | false => rfl
  | true => exact absurd (isDirectory_parts found).2 other

theorem Keeps.isDirectory (keeps : t.Keeps u) (found : t.isDirectory p = true) : u.isDirectory p = true := by
  obtain ⟨located, there⟩ := isDirectory_parts found
  exact isDirectory_of_get? (keeps.locate located) (keeps.directory _ there)

theorem ask_os {f : Failure} (failed : t.ask p = .error f) : ∃ e, f = .os e := by
  unfold ask at failed
  split at failed
  · cases failed
  · cases failed
  · cases failed
    exact ⟨_, rfl⟩
  · cases failed

theorem ask_some {n : Node} (found : t.ask p = .ok (some n)) : t.locate p = .ok (t.place p) ∧ t.get? (t.place p) = some n := by
  unfold ask at found
  split at found
  · cases found
  · rename_i same _
    cases found
    unfold find at same
    cases located : t.locate p with
    | error cause =>
      rw [located] at same
      cases same
    | ok l =>
      have place := locate_ok located
      subst place
      rw [located] at same
      refine ⟨rfl, ?_⟩
      cases there : t.get? (t.place p) with
      | none => simp [bind, Except.bind, there] at same
      | some node => cases node <;> simp_all [bind, Except.bind]
  · cases found
  · cases found

theorem ask_none (accepted : accept p = .ok ⟨⟩) (gone : t.ask p = .ok none) (located : t.locate p = .ok (t.place p)) :
    t.get? (t.place p) = none ∨ t.get? (t.place p) = some .dangling := by
  unfold ask find at gone
  rw [accepted, located] at gone
  cases there : t.get? (t.place p) with
  | none => exact .inl rfl
  | some n => cases n <;> simp_all [bind, Except.bind]

theorem not_isDirectory_asked (accepted : accept p = .ok ⟨⟩) (gone : t.ask p = .ok none) : t.isDirectory p = false := by
  cases found : t.isDirectory p with
  | false => rfl
  | true =>
    obtain ⟨located, there⟩ := isDirectory_parts found
    simpa [there] using ask_none accepted gone located

def Anchored (t : Tree) (p : Path) : Prop :=
  ∃ base below, p.parts = base ++ below ∧ t.isDirectory ⟨p.root, base⟩ = true ∧
    "..".toList ∉ below

theorem anchored_of_absolute (t : Tree) (absolute : p.isAbsolute = true) (down : "..".toList ∉ p.parts) : t.Anchored p := by
  refine ⟨[], p.parts, rfl, isDirectory_of_get? (l := []) ?_ rfl, down⟩
  have start : t.start ⟨p.root, []⟩ = [] := if_pos absolute
  have brief : Utf8.size (Path.text ⟨p.root, []⟩) < pathLimit := by
    cases p.root <;> decide
  rw [locate, if_pos brief, start]
  rfl

theorem Keeps.anchored (keeps : t.Keeps u) (anchored : t.Anchored p) : u.Anchored p := by
  obtain ⟨base, below, parts, found, down⟩ := anchored
  exact ⟨base, below, parts, keeps.isDirectory found, down⟩

theorem enter_down {below : List Text} (down : "..".toList ∉ below) (l : Location) : below.foldl enter l = l ++ below := by
  induction below generalizing l with
  | nil => simp
  | cons part rest ih =>
    rw [mem_cons, not_or] at down
    rw [foldl_cons, ih down.2, enter, if_neg (Ne.symm down.1), append_assoc, singleton_append]

theorem walk_down (rooted : t.Rooted) {below : List Text} (there : t.get? l = some .directory)
    (short : ∀ part ∈ below, Utf8.size part ≤ nameLimit) (down : "..".toList ∉ below) :
    below.foldlM t.step l = .ok (l ++ below) ∨ ∃ cause, below.foldlM t.step l = .error cause ∧ cause ≠ .nameTooLong ∧
        t.get? (l ++ below) = none := by
  induction below generalizing l with
  | nil =>
    rw [append_nil]
    exact .inl rfl
  | cons part rest ih =>
    rw [mem_cons, not_or] at down
    have first := step_directory there (.inr (short part mem_cons_self))
    rw [enter, if_neg (Ne.symm down.1)] at first
    have onward : (part :: rest).foldlM t.step l = rest.foldlM t.step (l ++ [part]) := by
      rw [foldlM_cons, first]
      rfl
    have split : l ++ part :: rest = (l ++ [part]) ++ rest := by simp
    rw [onward, split]
    cases rest with
    | nil =>
      rw [append_nil]
      exact .inl rfl
    | cons next rest =>
      -- Something that is no directory stops the walk, and nothing lies below it.
      have stops : ∀ cause, t.step (l ++ [part]) next = .error cause → cause ≠ .nameTooLong →
          t.get? (l ++ [part]) ≠ some .directory →
          ∃ cause, (next :: rest).foldlM t.step (l ++ [part]) = .error cause ∧
            cause ≠ .nameTooLong ∧ t.get? (l ++ [part] ++ (next :: rest)) = none := by
        intro cause refused usual other
        refine ⟨cause, ?_, usual, ?_⟩
        · rw [foldlM_cons, refused]
          rfl
        · cases found : t.get? (l ++ [part] ++ (next :: rest)) with
          | none => rfl
          | some n => exact absurd (rooted.above found (by simp)) other
      cases here : t.get? (l ++ [part]) with
      | none => exact .inr (stops .notFound (by rw [step, here]) (by simp) (by simp [here]))
      | some n =>
        cases n with
        | directory =>
          exact ih here (fun part member => short part (mem_cons_of_mem _ member)) down.2
        | file bytes =>
          exact .inr (stops .notDirectory (by rw [step, here]) (by simp) (by simp [here]))
        | dangling => exact .inr (stops .notFound (by rw [step, here]) (by simp) (by simp [here]))

theorem walk_short (walked : parts.foldlM t.step l = .ok m) : ∀ part ∈ parts, Utf8.size part ≤ nameLimit := by
  induction parts generalizing l with
  | nil => simp
  | cons first rest ih =>
    obtain ⟨_, first, onward⟩ := walk_cons walked
    rw [forall_mem_cons]
    refine ⟨?_, ih onward⟩
    rcases first with rfl | short
    · decide
    · exact short

theorem storable_of_located (accepted : accept p = .ok ⟨⟩) (located : t.locate p = .ok l) : p.Storable := by
  refine ⟨?_, walk_short (locate_walk located), ?_⟩
  · unfold accept at accepted
    split at accepted
    · cases accepted
    · rename_i plain
      simpa using plain
  · unfold locate at located
    split at located
    · assumption
    · cases located

structure Admits (t : Tree) (p : Path) : Prop where
  storable : p.Storable
  anchored : t.Anchored p

theorem Keeps.admits (keeps : t.Keeps u) (admitted : t.Admits p) : u.Admits p :=
  ⟨admitted.storable, keeps.anchored admitted.anchored⟩

theorem Admits.accept (admitted : t.Admits p) : accept p = .ok ⟨⟩ := by
  rw [Tree.accept, admitted.storable.accepted]
  rfl

theorem locate_admitted (rooted : t.Rooted) (admitted : t.Admits p) : t.locate p = .ok (t.place p) ∨
      ∃ cause, t.locate p = .error cause ∧ cause ≠ .nameTooLong ∧ t.get? (t.place p) = none := by
  obtain ⟨storable, base, below, parts, found, down⟩ := admitted
  obtain ⟨located, there⟩ := isDirectory_parts found
  have start : base.foldlM t.step (t.start p) = .ok (t.place ⟨p.root, base⟩) := locate_walk located
  have place : t.place p = t.place ⟨p.root, base⟩ ++ below := by
    rw [place_eq, place_eq, parts, foldl_append, enter_down down]
    rfl
  have walked : t.locate p = below.foldlM t.step (t.place ⟨p.root, base⟩) := by
    rw [locate, if_pos storable.brief, parts, foldlM_append, start]
    rfl
  rw [walked, place]
  exact walk_down rooted there (fun part member => storable.short part (by simp [parts, member])) down

theorem locate_there (rooted : t.Rooted) (admitted : t.Admits p) {n : Node}
    (there : t.get? (t.place p) = some n) : t.locate p = .ok (t.place p) := by
  rcases locate_admitted rooted admitted with located | ⟨_, _, _, absent⟩
  · exact located
  · rw [there] at absent
    cases absent

theorem ask_admitted (rooted : t.Rooted) (admitted : t.Admits p) :
    t.ask p = .ok ((t.get? (t.place p)).filter (· ≠ .dangling)) := by
  unfold ask find
  rw [admitted.accept]
  rcases locate_admitted rooted admitted with located | ⟨cause, refused, usual, absent⟩
  · rw [located]
    cases there : t.get? (t.place p) with
    | none => simp [bind, Except.bind, there]
    | some n => cases n <;> simp [bind, Except.bind, there, Option.filter_some]
  · rw [refused, absent]
    cases cause <;> simp_all [bind, Except.bind]

theorem find_file (rooted : t.Rooted) (admitted : t.Admits p)
    (there : t.get? (t.place p) = some (.file bytes)) : t.find p = .ok (.file bytes) := by
  unfold find
  rw [locate_there rooted admitted there]
  simp [bind, Except.bind, there]

theorem read_file (rooted : t.Rooted) (admitted : t.Admits p)
    (there : t.get? (t.place p) = some (.file bytes)) : t.read p = .ok bytes := by
  unfold read
  rw [admitted.accept, find_file rooted admitted there]
  rfl

-- What is no file cannot be read.
theorem read_other (rooted : t.Rooted) (admitted : t.Admits p)
    (other : ∀ bytes, t.get? (t.place p) ≠ some (.file bytes)) : ∃ e, t.read p = .error (.os e) := by
  unfold read find
  rw [admitted.accept]
  rcases locate_admitted rooted admitted with located | ⟨cause, refused, usual, absent⟩
  · rw [located]
    cases there : t.get? (t.place p) with
    | none => exact ⟨_, by simp [bind, Except.bind, there, fault]; rfl⟩
    | some n =>
      cases n with
      | file bytes => exact absurd there (other bytes)
      | directory => exact ⟨_, by simp [bind, Except.bind, there, fault]; rfl⟩
      | dangling => exact ⟨_, by simp [bind, Except.bind, there, fault]; rfl⟩
  · rw [refused]
    exact ⟨_, by simp [bind, Except.bind, fault]; rfl⟩

theorem write_parts (accepted : accept p = .ok ⟨⟩) (t : Tree) (bytes : Bytes) :
    (∃ e, t.write p bytes = .error (.os e)) ∨ (t.write p bytes = .ok (t.put (t.place p) (.file bytes)) ∧
        t.locate p = .ok (t.place p) ∧ (t.get? (t.place p) = none ∨ ∃ old, t.get? (t.place p) = some (.file old))) := by
  unfold write
  rw [accepted]
  cases located : t.locate p with
  | error cause => exact .inl ⟨_, rfl⟩
  | ok l =>
    have place := locate_ok located
    subst place
    cases there : t.get? (t.place p) with
    | none => exact .inr ⟨by simp [bind, Except.bind, there], rfl, .inl rfl⟩
    | some n =>
      cases n with
      | file old => exact .inr ⟨by simp [bind, Except.bind, there], rfl, .inr ⟨old, rfl⟩⟩
      | directory => exact .inl ⟨_, by simp [bind, Except.bind, there, fault]; rfl⟩
      | dangling => exact .inl ⟨_, by simp [bind, Except.bind, there, fault]; rfl⟩

theorem write_file (rooted : t.Rooted) (admitted : t.Admits p) {old : Bytes}
    (there : t.get? (t.place p) = some (.file old)) (bytes : Bytes) :
    t.write p bytes = .ok (t.put (t.place p) (.file bytes)) := by
  unfold write
  rw [admitted.accept, locate_there rooted admitted there]
  simp [bind, Except.bind, there]

theorem copy_eq {q : Path} (accepted : accept p = .ok ⟨⟩) (allowed : accept q = .ok ⟨⟩)
    (found : t.read p = .ok bytes) (leaf : t.isDirectory q = false) : t.copy p q = t.write q bytes := by
  unfold copy
  rw [accepted, allowed, found, leaf]
  rfl

theorem remove_file (rooted : t.Rooted) (admitted : t.Admits p)
    (there : t.get? (t.place p) = some (.file bytes)) : t.remove p = .ok (t.erase (t.place p)) := by
  unfold remove
  rw [admitted.accept, locate_there rooted admitted there]
  simp [bind, Except.bind, there]

theorem removeDirectory_empty (rooted : t.Rooted) (admitted : t.Admits p)
    (there : t.get? (t.place p) = some .directory) (name : p.name ≠ "..".toList)
    (empty : ∀ name, t.get? (t.place p ++ [name]) = none) : t.removeDirectory p = .ok (t.erase (t.place p)) := by
  unfold removeDirectory
  rw [admitted.accept, locate_there rooted admitted there]
  have none := children_eq_nil empty
  have free : ¬(p.name = "..".toList ∨ t.children (t.place p) ≠ []) := by
    rw [none]
    simpa using name
  dsimp only [Bind.bind, Except.bind]
  rw [there]
  exact if_neg free

theorem walk_snoc (walked : (parts ++ [part]).foldlM t.step l = .ok m) :
    ∃ above, parts.foldlM t.step l = .ok above ∧ t.get? above = some .directory ∧ m = enter above part := by
  rw [foldlM_append] at walked
  cases first : parts.foldlM t.step l with
  | error cause =>
    rw [first] at walked
    cases walked
  | ok above =>
    rw [first] at walked
    obtain ⟨there, _, ended⟩ := walk_cons walked
    exact ⟨above, rfl, there, walk_ok ended⟩

theorem parent_of_located (rooted : t.Rooted) (admitted : t.Admits p)
    (located : t.locate p = .ok l) : t.get? l.dropLast = some .directory := by
  obtain ⟨_, base, below, parts, found, down⟩ := admitted
  have walked := locate_walk located
  rcases eq_nil_or_concat below with rfl | ⟨init, name, rfl⟩
  · rw [append_nil] at parts
    obtain ⟨same, there⟩ := isDirectory_parts found
    subst parts
    have equal : l = t.place p := locate_ok located
    rw [equal]
    exact rooted _ _ there
  · rw [concat_eq_append] at parts down
    rw [parts, ← append_assoc] at walked
    obtain ⟨above, _, there, rfl⟩ := walk_snoc walked
    have child : name ≠ "..".toList := by
      rintro rfl
      simp at down
    rw [enter, if_neg child, dropLast_concat]
    exact there

theorem place_child (child : name ≠ "..".toList) : t.place ⟨root, init ++ [name]⟩ = t.place ⟨root, init⟩ ++ [name] := by
  rw [place_eq, place_eq, foldl_append, foldl_cons, foldl_nil]
  exact if_neg child

theorem locate_child (located : t.locate ⟨root, init⟩ = .ok l) (there : t.get? l = some .directory)
    (child : name ≠ "..".toList) (short : Utf8.size name ≤ nameLimit)
    (brief : Utf8.size (Path.text ⟨root, init ++ [name]⟩) < pathLimit) : t.locate ⟨root, init ++ [name]⟩ = .ok (l ++ [name]) := by
  have walked : init.foldlM t.step (t.start ⟨root, init⟩) = .ok l := locate_walk located
  have start : t.start ⟨root, init ++ [name]⟩ = t.start ⟨root, init⟩ := rfl
  rw [locate, if_pos brief, start, foldlM_append, walked]
  show [name].foldlM t.step l = _
  rw [foldlM_cons, step_directory there (.inr short), enter, if_neg child]
  rfl

theorem Admits.above (admitted : t.Admits ⟨root, init ++ [name]⟩) : t.Admits ⟨root, init⟩ := by
  obtain ⟨storable, base, below, parts, found, down⟩ := admitted
  have above := storable.above
  refine ⟨above, ?_⟩
  rcases eq_nil_or_concat below with rfl | ⟨rest, last, rfl⟩
  · -- The directory is the whole path: it was reached through the one above.
    rw [append_nil] at parts
    have parts : init ++ [name] = base := parts
    subst parts
    obtain ⟨outer, walked, there, _⟩ := walk_snoc (locate_walk (isDirectory_parts found).1)
    refine ⟨init, [], by simp, isDirectory_of_get? ?_ there, by simp⟩
    rw [locate, if_pos above.brief]
    exact walked
  · rw [concat_eq_append] at parts down
    have parts : init ++ [name] = base ++ (rest ++ [last]) := parts
    rw [← append_assoc] at parts
    obtain ⟨same, _⟩ := append_inj' parts rfl
    exact ⟨base, rest, same, found, fun member => down (mem_append_left _ member)⟩

theorem Admits.of_prefix {q : Path} (admitted : t.Admits p) (same : q.root = p.root)
    (shorter : q.parts <+: p.parts) : t.Admits q := by
  obtain ⟨root, parts⟩ := p
  obtain ⟨root', init⟩ := q
  obtain ⟨rest, rfl⟩ : ∃ rest, init ++ rest = parts := shorter
  obtain rfl : root' = root := same
  induction rest using List.reverseRecOn with
  | nil => rwa [append_nil] at admitted
  | append_singleton rest name ih =>
    rw [← append_assoc] at admitted
    exact ih admitted.above

theorem Admits.parent (admitted : t.Admits p) : t.Admits p.parent := by
  obtain ⟨root, parts⟩ := p
  rcases eq_nil_or_concat parts with rfl | ⟨init, name, rfl⟩
  · exact admitted
  · rw [concat_eq_append] at admitted ⊢
    rw [Path.parent_snoc]
    exact admitted.above

end Tree

end ModuleSplit
