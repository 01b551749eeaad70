import ModuleSplit.Proofs.Tree.Refusals

namespace ModuleSplit.Tree

open List

variable {t u : Tree} {p dir : Path} {root : PathRoot} {init : List Text} {name : Text}

inductive Opens (t : Tree) (dir : Path) : Prop where
  | there (found : t.isDirectory dir = true)
  | new (above : t.isDirectory dir.parent = true) (absent : t.get? (t.place dir) = none)

structure Opened (t : Tree) (dir : Path) (u : Tree) : Prop where
  keeps : t.Keeps u
  rooted : u.Rooted
  found : u.isDirectory dir = true
  change : ∀ l, l ≠ t.place dir → u.get? l = t.get? l

theorem name_of_absent (rooted : t.Rooted) (above : t.isDirectory dir.parent = true) (absent : t.get? (t.place dir) = none) :
    ∃ name, name ≠ "..".toList ∧ dir = ⟨dir.root, dir.parent.parts ++ [name]⟩ := by
  obtain ⟨_, there⟩ := isDirectory_parts above
  obtain ⟨root, parts⟩ := dir
  rcases eq_nil_or_concat parts with rfl | ⟨init, name, rfl⟩
  · have here : t.get? (t.place ⟨root, []⟩) = some .directory := there
    rw [here] at absent
    cases absent
  · rw [concat_eq_append] at *
    rw [Path.parent_snoc] at *
    refine ⟨name, ?_, rfl⟩
    rintro rfl
    have up : t.place ⟨root, init ++ ["..".toList]⟩ = (t.place ⟨root, init⟩).dropLast := by
      rw [place_eq, place_eq, foldl_append]
      rfl
    rw [up, rooted _ _ there] at absent
    cases absent

theorem makeDirectories_new (rooted : t.Rooted) (admitted : t.Admits dir)
    (above : t.isDirectory dir.parent = true) (absent : t.get? (t.place dir) = none) : (t.makeDirectories dir).1 = .ok ⟨⟩ := by
  obtain ⟨name, child, same⟩ := name_of_absent rooted above absent
  obtain ⟨located, there⟩ := isDirectory_parts above
  have short : Utf8.size name ≤ nameLimit := by
    refine admitted.storable.short name ?_
    rw [same]
    simp
  have reached : t.locate dir = .ok (t.place dir) := by
    have brief := admitted.storable.brief
    rw [same] at brief ⊢
    rw [place_child child]
    exact locate_child located there child short brief
  unfold makeDirectories
  rw [admitted.accept]
  unfold makeUpward
  dsimp only
  rw [reverse_reverse, makeDirectory_absent reached absent]

theorem opened_of_made (rooted : t.Rooted) (opens : t.Opens dir) {made : List Path}
    (admitted : t.Admits dir) (all : t.Made dir made u) : t.Opened dir u := by
  have reached := locate_there all.rooted (all.keeps.admits admitted) (by rw [all.keeps.place]; exact all.there)
  refine ⟨all.keeps, all.rooted, isDirectory_of_get? reached ?_, ?_⟩
  · rw [all.keeps.place]
    exact all.there
  intro l other
  rw [all.change, if_neg]
  intro member
  obtain ⟨d, new, rfl⟩ := mem_map.mp member
  have gone := all.absent d new
  have upper := all.above d new
  cases opens with
  | there found =>
    rw [rooted.of_prefix (isDirectory_parts found).2 upper] at gone
    cases gone
  | new above absent =>
    obtain ⟨name, child, same⟩ := name_of_absent rooted above absent
    rw [same, place_child child] at upper other
    rcases prefix_concat_iff.mp upper with equal | outer
    · exact other equal
    · have directory := (isDirectory_parts above).2
      rw [rooted.of_prefix directory outer] at gone
      cases gone

theorem ask_directory (accepted : accept p = .ok ⟨⟩) (found : t.isDirectory p = true) : t.ask p = .ok (some .directory) := by
  obtain ⟨located, there⟩ := isDirectory_parts found
  unfold ask find
  rw [accepted, located]
  simp [bind, Except.bind, there]

theorem makeDirectories_there (accepted : accept dir = .ok ⟨⟩) (found : t.isDirectory dir = true) :
    t.missing dir = .ok [] ∧ t.makeDirectories dir = (.ok ⟨⟩, t) := by
  refine ⟨?_, ?_⟩
  · refine missingAbove_there (n := .directory) ?_
    rw [reverse_reverse]
    exact ask_directory accepted found
  · unfold makeDirectories
    rw [accepted]
    exact makeUpward_there (by rw [reverse_reverse]; exact found)

theorem makeDirectories_opens (rooted : t.Rooted) (admitted : t.Admits dir) (opens : t.Opens dir) :
    ∃ made u, t.missing dir = .ok made ∧ t.makeDirectories dir = (.ok ⟨⟩, u) ∧ t.Opened dir u := by
  have accepted : (t.makeDirectories dir).1 = .ok ⟨⟩ := by
    cases opens with
    | there found => rw [(makeDirectories_there admitted.accept found).2]
    | new above absent => exact makeDirectories_new rooted admitted above absent
  obtain ⟨made, missing, ⟨e, refused⟩ | ⟨u, done, all⟩⟩ := makeDirectories_admitted rooted admitted
  · rw [refused] at accepted
    cases accepted
  · exact ⟨made, u, missing, done, opened_of_made rooted opens admitted all⟩

theorem locate_asked (found : t.isDirectory ⟨root, init⟩ = true) (child : name ≠ "..".toList)
    (accepted : accept ⟨root, init ++ [name]⟩ = .ok ⟨⟩) {answer : Option Node}
    (asked : t.ask ⟨root, init ++ [name]⟩ = .ok answer) :
    t.locate ⟨root, init ++ [name]⟩ = .ok (t.place ⟨root, init ++ [name]⟩) := by
  obtain ⟨located, there⟩ := isDirectory_parts found
  -- A name or a path that is too long cannot be asked for.
  have short : t.locate ⟨root, init ++ [name]⟩ ≠ .error .nameTooLong := by
    intro long
    unfold ask find at asked
    rw [accepted, long] at asked
    cases asked
  have walked : init.foldlM t.step (t.start ⟨root, init ++ [name]⟩) = .ok (t.place ⟨root, init⟩) := locate_walk located
  have stepped : t.locate ⟨root, init ++ [name]⟩ = t.step (t.place ⟨root, init⟩) name := by
    have brief : Utf8.size (Path.text ⟨root, init ++ [name]⟩) < pathLimit := by
      by_contra long
      exact short (if_neg long)
    unfold locate
    rw [if_pos brief, foldlM_append, walked]
    show [name].foldlM t.step (t.place ⟨root, init⟩) = _
    rw [foldlM_cons]
    cases t.step (t.place ⟨root, init⟩) name with
    | ok l => rfl
    | error cause => rfl
  rw [stepped] at short ⊢
  rw [place_child child]
  unfold step at short ⊢
  rw [there] at short ⊢
  dsimp only at short ⊢
  rw [if_neg child] at short ⊢
  split
  · rename_i long
    rw [if_pos long] at short
    exact absurd rfl short
  · rfl

theorem write_free (accepted : accept p = .ok ⟨⟩) (located : t.locate p = .ok (t.place p))
    (absent : t.get? (t.place p) = none) (bytes : Bytes) : t.write p bytes = .ok (t.put (t.place p) (.file bytes)) := by
  unfold write
  rw [accepted, located]
  simp [bind, Except.bind, absent]

theorem file_parts (rooted : t.Rooted) (home : t.get? t.workingDirectory = some .directory)
    (storable : p.Storable) {bytes : Bytes} (located : t.locate p = .ok (t.place p))
    (there : t.get? (t.place p) = some (.file bytes)) :
    ∃ name, name ≠ "..".toList ∧ p = ⟨p.root, p.parent.parts ++ [name]⟩ ∧ t.isDirectory p.parent = true := by
  obtain ⟨root, parts⟩ := p
  rcases eq_nil_or_concat parts with rfl | ⟨init, name, rfl⟩
  · have start : t.get? (t.start ⟨root, []⟩) = some .directory := by
      unfold start
      split
      · rfl
      · exact home
    cases start.symm.trans there
  · rw [concat_eq_append] at *
    rw [Path.parent_snoc]
    obtain ⟨above, walked, directory, ended⟩ := walk_snoc (locate_walk located)
    have reached : t.locate ⟨root, init⟩ = .ok above := by
      unfold locate
      rw [if_pos storable.above.brief]
      exact walked
    refine ⟨name, ?_, rfl, isDirectory_of_get? reached directory⟩
    rintro rfl
    have up : enter above "..".toList = above.dropLast := if_pos rfl
    rw [ended, up, rooted _ _ directory] at there
    cases there

end ModuleSplit.Tree
