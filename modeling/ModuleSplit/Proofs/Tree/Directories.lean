import ModuleSplit.Proofs.Result
import ModuleSplit.Proofs.Tree.Reach

-- Making a directory together with those above it: only absent places become directories.

namespace ModuleSplit.Tree

open List

variable {t u : Tree} {p : Path} {root : PathRoot} {parts above : List Text} {cause : OsCause}

theorem makeDirectory_ok (made : t.makeDirectory p = .ok u) : t.locate p = .ok (t.place p) ∧ t.get? (t.place p) = none ∧
      u = t.put (t.place p) .directory := by
  unfold makeDirectory at made
  cases located : t.locate p with
  | error cause =>
    rw [located] at made
    cases made
  | ok l =>
    have place := locate_ok located
    subst place
    rw [located] at made
    cases there : t.get? (t.place p) with
    | some n => simp [bind, Except.bind, there] at made
    | none =>
      refine ⟨rfl, rfl, ?_⟩
      simpa [bind, Except.bind, there] using made.symm

theorem makeDirectory_absent (located : t.locate p = .ok (t.place p)) (absent : t.get? (t.place p) = none) :
    t.makeDirectory p = .ok (t.put (t.place p) .directory) := by
  unfold makeDirectory
  rw [located]
  simp [bind, Except.bind, absent]

theorem makeDirectory_there (located : t.locate p = .ok (t.place p)) {n : Node}
    (there : t.get? (t.place p) = some n) : t.makeDirectory p = .error .exists := by
  unfold makeDirectory
  rw [located]
  simp [bind, Except.bind, there]

structure Grows (t u : Tree) (Allowed : Location → Prop) : Prop where
  workingDirectory : u.workingDirectory = t.workingDirectory
  change : ∀ l, u.get? l = t.get? l ∨
    (t.get? l = none ∧ u.get? l = some .directory ∧ Allowed l)
  rooted : u.Rooted

namespace Grows

variable {Allowed : Location → Prop}

theorem refl (rooted : t.Rooted) : t.Grows t Allowed := ⟨rfl, fun _ => .inl rfl, rooted⟩

theorem get?_some (grows : t.Grows u Allowed) {l : Location} {n : Node} (there : t.get? l = some n) : u.get? l = some n := by
  rcases grows.change l with same | ⟨absent, _, _⟩
  · rw [same, there]
  · rw [there] at absent
    cases absent

theorem keeps (grows : t.Grows u Allowed) : t.Keeps u :=
  ⟨grows.workingDirectory, fun _ there => grows.get?_some there⟩

theorem weaken {Wider : Location → Prop} (grows : t.Grows u Allowed) (wider : ∀ l, Allowed l → Wider l) : t.Grows u Wider := by
  refine ⟨grows.workingDirectory, ?_, grows.rooted⟩
  intro l
  rcases grows.change l with same | ⟨absent, directory, allowed⟩
  · exact .inl same
  · exact .inr ⟨absent, directory, wider l allowed⟩

end Grows

theorem parent_of_absent (rooted : t.Rooted) (home : t.get? t.workingDirectory = some .directory)
    (located : t.locate p = .ok (t.place p)) (absent : t.get? (t.place p) = none) :
    t.get? (t.place p).dropLast = some .directory := by
  have walked := locate_walk located
  rcases eq_nil_or_concat p.parts with none | ⟨init, name, parts⟩
  · have start : t.place p = t.start p := by rw [place_eq, none, foldl_nil]
    have there : t.get? (t.start p) = some .directory := by
      unfold Tree.start
      split
      · rfl
      · exact home
    rw [start, there] at absent
    cases absent
  · rw [concat_eq_append] at parts
    rw [parts] at walked
    obtain ⟨above, _, there, same⟩ := walk_snoc walked
    rw [same] at absent ⊢
    unfold enter at absent ⊢
    split
    · rename_i up
      rw [if_pos up, rooted _ _ there] at absent
      cases absent
    · rw [dropLast_concat]
      exact there

theorem makeDirectory_grows {Allowed : Location → Prop} {v : Tree} (grows : t.Grows u Allowed)
    (home : u.get? u.workingDirectory = some .directory) (allowed : Allowed (t.place p))
    (made : u.makeDirectory p = .ok v) : t.Grows v Allowed ∧ v.isDirectory p = true := by
  obtain ⟨located, absent, rfl⟩ := makeDirectory_ok made
  have inner := ne_root_of_none absent
  have changes := get?_put inner u .directory
  have parent := parent_of_absent grows.rooted home located absent
  have place : u.place p = t.place p := grows.keeps.place p
  have result : t.Grows (u.put (u.place p) .directory) Allowed := by
    refine ⟨grows.workingDirectory, ?_, grows.rooted.put_directory absent parent⟩
    intro l
    rw [changes]
    split
    · rename_i same
      subst same
      rcases grows.change (u.place p) with unchanged | ⟨before, _, _⟩
      · exact .inr ⟨by rw [← unchanged, absent], rfl, by rw [place]; exact allowed⟩
      · exact .inr ⟨before, rfl, by rw [place]; exact allowed⟩
    · exact grows.change l
  refine ⟨result, isDirectory_of_get? (l := u.place p) ?_ ?_⟩
  · have keeps : u.Keeps (u.put (u.place p) .directory) := by
      refine ⟨rfl, ?_⟩
      intro l there
      rw [changes]
      split
      · rfl
      · exact there
    exact keeps.locate located
  · rw [changes, if_pos rfl]

def OnTheWay (t : Tree) (p : Path) (l : Location) : Prop :=
  ∃ parts, parts <+: p.parts ∧ l = t.place ⟨p.root, parts⟩

theorem onTheWay_cons (part : Text) (l : Location) (further : t.OnTheWay ⟨root, above.reverse⟩ l) :
    t.OnTheWay ⟨root, (part :: above).reverse⟩ l := by
  obtain ⟨parts, shorter, same⟩ := further
  refine ⟨parts, shorter.trans ?_, same⟩
  show above.reverse <+: (part :: above).reverse
  rw [reverse_cons]
  exact prefix_append _ _

-- How making directories ends: the tree has grown, the directory is there unless it was refused,
-- and what is refused is refused by the tree.
structure Upward (t : Tree) (p : Path) (ending : Result Unit × Tree) : Prop where
  grows : t.Grows ending.2 (t.OnTheWay p)
  found : ending.1 = .ok ⟨⟩ → ending.2.isDirectory p = true
  refused : ∀ f, ending.1 = .error f → ∃ e, f = .os e

theorem Upward.answered {c : Prop} [Decidable c] (grows : t.Grows u (t.OnTheWay p)) (found : c → u.isDirectory p = true) :
    t.Upward p (if c then .ok ⟨⟩ else fault cause p, u) := by
  refine ⟨grows, ?_, ?_⟩
  · intro accepted
    by_cases holds : c
    · exact found holds
    · simp [holds, fault] at accepted
  · intro f failed
    by_cases holds : c
    · simp [holds] at failed
    · exact ⟨.at cause p.text, by simpa [holds, fault] using failed.symm⟩

theorem makeUpward_grows (rooted : t.Rooted) (home : t.get? t.workingDirectory = some .directory)
    (root : PathRoot) (parts : List Text) : t.Upward ⟨root, parts.reverse⟩ (t.makeUpward root parts) := by
  have here : ∀ p, t.OnTheWay p (t.place p) := fun p => ⟨p.parts, prefix_refl _, rfl⟩
  fun_induction Tree.makeUpward t root parts with
  | case1 parts p made accepted =>
    obtain ⟨grows, found⟩ := makeDirectory_grows (.refl rooted) home (here p) accepted
    exact ⟨grows, fun _ => found, fun _ failed => by cases failed⟩
  | case2 part above e made outer p missing ih =>
    rw [outer] at ih
    exact ⟨ih.grows.weaken (onTheWay_cons part), fun accepted => (by cases accepted), ih.refused⟩
  | case3 part above v made outer all p missing accepted ih =>
    rw [outer] at ih
    have grows := ih.grows.weaken (onTheWay_cons part)
    obtain ⟨grows, found⟩ := makeDirectory_grows grows
      (by rw [grows.workingDirectory]; exact grows.get?_some home) (here p) accepted
    exact ⟨grows, fun _ => found, fun _ failed => by cases failed⟩
  | case4 part above v made outer cause p missing refused ih =>
    rw [outer] at ih
    exact .answered (ih.grows.weaken (onTheWay_cons part)) And.right
  | case5 parts p cause refused other => exact .answered (.refl rooted) id

theorem makeDirectories_grows (rooted : t.Rooted)
    (home : t.get? t.workingDirectory = some .directory) (accepted : accept p = .ok ⟨⟩) : t.Upward p (t.makeDirectories p) := by
  unfold makeDirectories
  rw [accepted]
  have upward := makeUpward_grows rooted home p.root p.parts.reverse
  rwa [reverse_reverse] at upward

theorem missing_os {f : Failure} (failed : t.missing p = .error f) : ∃ e, f = .os e := by
  have above : ∀ parts, t.missingAbove p.root parts = .error f → ∃ e, f = .os e := by
    intro parts failed
    induction parts with
    | nil =>
      rcases Result.bind_error failed with refused | ⟨found, _, failed⟩
      · exact ask_os refused
      · cases failed
    | cons part above ih =>
      rcases Result.bind_error failed with refused | ⟨found, _, failed⟩
      · exact ask_os refused
      · cases found with
        | some n => cases failed
        | none =>
          rcases Result.bind_error failed with outer | ⟨made, _, failed⟩
          · exact ih outer
          · cases failed
  exact above p.parts.reverse failed

structure Made (t : Tree) (p : Path) (made : List Path) (u : Tree) : Prop where
  workingDirectory : u.workingDirectory = t.workingDirectory
  change : ∀ l, u.get? l = if l ∈ made.map t.place then some .directory else t.get? l
  absent : ∀ d ∈ made, t.get? (t.place d) = none
  outermost : made.Pairwise fun a b => ¬t.place b <+: t.place a
  above : ∀ d ∈ made, t.place d <+: t.place p
  prefixes : ∀ d ∈ made, d.root = p.root ∧ d.parts <+: p.parts ∧ d.name ≠ "..".toList
  there : u.get? (t.place p) = some .directory
  rooted : u.Rooted

namespace Made

variable {made : List Path}

theorem refl (rooted : t.Rooted) (there : t.get? (t.place p) = some .directory) : t.Made p [] t :=
  ⟨rfl, by simp, by simp, .nil, by simp, by simp, there, rooted⟩

theorem get?_some (all : t.Made p made u) {l : Location} {n : Node} (there : t.get? l = some n) : u.get? l = some n := by
  rw [all.change, if_neg, there]
  intro member
  obtain ⟨d, new, rfl⟩ := mem_map.mp member
  rw [all.absent d new] at there
  cases there

theorem keeps (all : t.Made p made u) : t.Keeps u :=
  ⟨all.workingDirectory, fun _ there => all.get?_some there⟩

theorem above_child (rooted : t.Rooted) (anchored : t.Anchored p) (all : t.Made p.parent made u)
    {d : Path} (member : d ∈ made) : t.place d <+: t.place p := by
  have above := all.above d member
  have gone := all.absent d member
  obtain ⟨root, parts⟩ := p
  rcases eq_nil_or_concat parts with rfl | ⟨init, name, rfl⟩
  · exact above
  · rw [concat_eq_append] at anchored above ⊢
    rw [Path.parent_snoc] at above
    by_cases up : name = "..".toList
    · -- The path leads to a directory by way of another, where nothing is missing.
      obtain ⟨base, below, same, found, down⟩ := anchored
      have base_eq : base = init ++ [name] := by
        rcases eq_nil_or_concat below with rfl | ⟨rest, last, rfl⟩
        · simpa using same.symm
        · rw [concat_eq_append, ← append_assoc] at same
          have last := (append_inj' same rfl).2
          simp_all
      subst base_eq
      obtain ⟨l, inner, there, _⟩ := walk_snoc (locate_walk (isDirectory_parts found).1)
      have place : l = t.place ⟨root, init⟩ := walk_ok inner
      rw [place] at there
      rw [rooted.of_prefix there above] at gone
      cases gone
    · rw [place_child up]
      exact above.trans (prefix_append _ _)

theorem snoc {init : List Text} {name : Text} (all : t.Made ⟨root, init⟩ made u)
    (admitted : t.Admits ⟨root, init ++ [name]⟩) (child : name ≠ "..".toList)
    (absent : t.get? (t.place ⟨root, init ++ [name]⟩) = none) : u.makeDirectory ⟨root, init ++ [name]⟩ =
        .ok (u.put (t.place ⟨root, init ++ [name]⟩) .directory) ∧ t.Made ⟨root, init ++ [name]⟩ (made ++ [⟨root, init ++ [name]⟩])
        (u.put (t.place ⟨root, init ++ [name]⟩) .directory) := by
  have place : t.place ⟨root, init ++ [name]⟩ = t.place ⟨root, init⟩ ++ [name] := place_child child
  -- The places made so far are shorter than the new one.
  have shorter : ∀ d ∈ made, ¬t.place ⟨root, init⟩ ++ [name] <+: t.place d := by
    intro d member longer
    have bound := (longer.trans (all.above d member)).length_le
    rw [length_append, length_singleton] at bound
    omega
  have stillAbsent : u.get? (t.place ⟨root, init⟩ ++ [name]) = none := by
    rw [all.change, if_neg, ← place, absent]
    intro member
    obtain ⟨d, inside, same⟩ := mem_map.mp member
    exact shorter d inside (by rw [same])
  have outer : u.locate ⟨root, init⟩ = .ok (t.place ⟨root, init⟩) := by
    rw [← all.keeps.place]
    refine locate_there all.rooted (all.keeps.admits admitted.above) (n := .directory) ?_
    rw [all.keeps.place, all.there]
  have located := locate_child outer all.there child (admitted.storable.short name (by simp)) admitted.storable.brief
  have same : u.place ⟨root, init ++ [name]⟩ = t.place ⟨root, init⟩ ++ [name] := by
    rw [all.keeps.place, place]
  have inner : t.place ⟨root, init⟩ ++ [name] ≠ [] := by simp
  have changes := get?_put inner u .directory
  rw [place]
  refine ⟨?_, all.workingDirectory, ?_, ?_, ?_, ?_, ?_, ?_, ?_⟩
  · rw [makeDirectory_absent (by rw [located, same]) (by rw [same, stillAbsent]), same]
  · intro l
    rw [changes, map_append, all.change]
    by_cases new : l = t.place ⟨root, init⟩ ++ [name]
    · simp [new, place]
    · simp [new, place]
  · intro d member
    rcases mem_append.mp member with old | new
    · exact all.absent d old
    · rw [mem_singleton.mp new]
      exact absent
  · refine pairwise_append.mpr ⟨all.outermost, pairwise_singleton _ _, ?_⟩
    intro d member e new
    rw [mem_singleton.mp new, place]
    exact shorter d member
  · intro d member
    rcases mem_append.mp member with old | new
    · rw [place]
      exact (all.above d old).trans (prefix_append _ _)
    · rw [mem_singleton.mp new]
  · intro d member
    rcases mem_append.mp member with old | new
    · obtain ⟨same, shorter, down⟩ := all.prefixes d old
      exact ⟨same, shorter.trans (prefix_append _ _), down⟩
    · rw [mem_singleton.mp new]
      refine ⟨rfl, prefix_refl _, ?_⟩
      simpa [Path.name] using child
  · rw [changes, place, if_pos rfl]
  · refine all.rooted.put_directory stillAbsent ?_
    rw [dropLast_concat, all.there]

end Made

theorem makeUpward_there (found : t.isDirectory ⟨root, parts.reverse⟩ = true) : t.makeUpward root parts = (.ok ⟨⟩, t) := by
  obtain ⟨located, there⟩ := isDirectory_parts found
  unfold makeUpward
  dsimp only
  rw [makeDirectory_there located there]
  dsimp only
  rw [if_pos found]

theorem missingAbove_there {n : Node}
    (found : t.ask ⟨root, parts.reverse⟩ = .ok (some n)) : t.missingAbove root parts = .ok [] := by
  cases parts with
  | nil =>
    rw [reverse_nil] at found
    rw [missingAbove, found]
    rfl
  | cons part above =>
    rw [missingAbove, found]
    rfl

theorem makeUpward_refused (refused : t.makeDirectory ⟨root, parts.reverse⟩ = .error cause) (final : cause ≠ .notFound)
    (other : t.isDirectory ⟨root, parts.reverse⟩ = false) : ∃ e, t.makeUpward root parts = (.error (.os e), t) := by
  refine ⟨.at cause (Path.text ⟨root, parts.reverse⟩), ?_⟩
  unfold makeUpward
  dsimp only
  rw [refused]
  cases parts <;> cases cause <;> simp_all [fault]

theorem makeDirectory_refused (refused : t.locate p = .error cause) : t.makeDirectory p = .error cause := by
  unfold makeDirectory
  rw [refused]
  rfl

theorem missingAbove_cons {part : Text} {found : Option Node}
    {made : List Path} (asked : t.ask ⟨root, (part :: above).reverse⟩ = .ok found)
    (outer : t.missingAbove root above = .ok made) : t.missingAbove root (part :: above) =
      .ok (if found.isSome then [] else made ++ [⟨root, (part :: above).reverse⟩]) := by
  rw [missingAbove, asked, outer]
  cases found <;> rfl

theorem makeUpward_above {part : Text} (missing : t.makeDirectory ⟨root, (part :: above).reverse⟩ = .error .notFound)
    (outer : t.makeUpward root above = (.ok ⟨⟩, u)) {v : Tree} (made : u.makeDirectory ⟨root, (part :: above).reverse⟩ = .ok v) :
    t.makeUpward root (part :: above) = (.ok ⟨⟩, v) := by
  unfold makeUpward
  dsimp only
  rw [missing]
  dsimp only
  rw [outer]
  dsimp only
  rw [made]

def Settles (t : Tree) (root : PathRoot) (parts : List Text) : Prop :=
  ∃ made, t.missingAbove root parts.reverse = .ok made ∧
    ((∃ e, t.makeUpward root parts.reverse = (.error (.os e), t)) ∨
      ∃ u, t.makeUpward root parts.reverse = (.ok ⟨⟩, u) ∧ t.Made ⟨root, parts⟩ made u)

theorem settles_there (rooted : t.Rooted) (admitted : t.Admits ⟨root, parts⟩)
    (there : t.get? (t.place ⟨root, parts⟩) = some .directory) : t.Settles root parts := by
  have found := isDirectory_of_get? (locate_there rooted admitted there) there
  have asked := ask_admitted rooted admitted
  rw [there] at asked
  refine ⟨[], missingAbove_there (n := .directory) ?_, .inr ⟨t, makeUpward_there ?_, ?_⟩⟩
  · rw [reverse_reverse]
    exact asked
  · rw [reverse_reverse]
    exact found
  · exact .refl rooted there

theorem settles_snoc (rooted : t.Rooted) {init : List Text} {name : Text}
    (admitted : t.Admits ⟨root, init ++ [name]⟩) (child : name ≠ "..".toList)
    (outer : t.Settles root init) : t.Settles root (init ++ [name]) := by
  by_cases directory : t.get? (t.place ⟨root, init ++ [name]⟩) = some .directory
  · exact settles_there rooted admitted directory
  obtain ⟨made, listed, outcome⟩ := outer
  have asked := ask_admitted rooted admitted
  have turned : (init ++ [name]).reverse = name :: init.reverse := by simp
  have back : (name :: init.reverse).reverse = init ++ [name] := by simp
  have further := missingAbove_cons (by rw [back]; exact asked) listed
  have notFound : t.isDirectory ⟨root, (name :: init.reverse).reverse⟩ = false := by
    rw [back]
    exact not_isDirectory directory
  unfold Settles
  rw [turned]
  refine ⟨_, further, ?_⟩
  cases there : t.get? (t.place ⟨root, init ++ [name]⟩) with
  | some n =>
    -- A file or a link is in the way.
    have located := locate_there rooted admitted there
    have failed := makeDirectory_there located there
    rw [← back] at failed
    exact .inl (makeUpward_refused failed (by simp) notFound)
  | none =>
    have absent : (if (Option.filter (· ≠ .dangling) (none : Option Node)).isSome = true then []
        else made ++ [⟨root, (name :: init.reverse).reverse⟩]) =
        made ++ [(⟨root, init ++ [name]⟩ : Path)] := by
      rw [back]
      rfl
    rw [absent]
    rcases locate_admitted rooted admitted with located | ⟨cause, refused, _, _⟩
    · -- The directory above is there, so that nothing else is missing.
      have parent := parent_of_located rooted admitted located
      rw [place_child child, dropLast_concat] at parent
      have asked := ask_admitted rooted admitted.above
      rw [parent] at asked
      rw [missingAbove_there (n := .directory) (by rwa [reverse_reverse])] at listed
      cases listed
      obtain ⟨accepted, all⟩ := (Made.refl rooted parent).snoc admitted child there
      refine .inr ⟨_, ?_, all⟩
      unfold makeUpward
      dsimp only
      rw [back, accepted]
    · have failed : t.makeDirectory ⟨root, (name :: init.reverse).reverse⟩ = .error cause := by
        rw [back]
        exact makeDirectory_refused refused
      by_cases missing : cause = .notFound
      · subst missing
        rcases outcome with ⟨e, outer⟩ | ⟨u, outer, all⟩
        · refine .inl ⟨e, ?_⟩
          unfold makeUpward
          dsimp only
          rw [failed]
          dsimp only
          rw [outer]
        · obtain ⟨accepted, all⟩ := all.snoc admitted child there
          refine .inr ⟨_, makeUpward_above failed outer ?_, all⟩
          rw [back]
          exact accepted
      · exact .inl (makeUpward_refused failed missing notFound)

theorem settles (rooted : t.Rooted) {base below : List Text}
    (found : t.isDirectory ⟨root, base⟩ = true) (down : "..".toList ∉ below)
    (admitted : t.Admits ⟨root, base ++ below⟩) : t.Settles root (base ++ below) := by
  induction below using List.reverseRecOn with
  | nil =>
    rw [append_nil] at admitted ⊢
    exact settles_there rooted admitted (isDirectory_parts found).2
  | append_singleton below name ih =>
    rw [mem_append, not_or, mem_singleton] at down
    rw [← append_assoc] at admitted ⊢
    exact settles_snoc rooted admitted (Ne.symm down.2) (ih down.1 admitted.above)

theorem makeDirectories_admitted (rooted : t.Rooted) (admitted : t.Admits p) : ∃ made, t.missing p = .ok made ∧
      ((∃ e, t.makeDirectories p = (.error (.os e), t)) ∨ ∃ u, t.makeDirectories p = (.ok ⟨⟩, u) ∧ t.Made p made u) := by
  obtain ⟨root, parts⟩ := p
  obtain ⟨base, below, same, found, down⟩ := admitted.anchored
  have same : parts = base ++ below := same
  subst same
  unfold missing makeDirectories
  rw [admitted.accept]
  exact settles rooted found down admitted

end ModuleSplit.Tree
