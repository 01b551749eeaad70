import ModuleSplit.Proofs.Tree.Refusals

-- What becomes of the files in a tree, whatever the tree: each change is opened once.

namespace ModuleSplit.Tree

variable {t u v : Tree} {p q : Path} {l m : Location} {bytes : Bytes}

theorem get?_erase_other (t : Tree) (other : l ≠ m) : (t.erase m).get? l = t.get? l := by
  by_cases root : l = []
  · rw [root]
    rfl
  · rw [get?_of_ne_root root, get?_of_ne_root root]
    exact (lookup_filter_ne t.entries m l).trans (if_neg other)

theorem write_ok (written : t.write p bytes = .ok u) :
    p.NullFree ∧ t.locate p = .ok (t.place p) ∧ u = t.put (t.place p) (.file bytes) ∧
      (t.get? (t.place p) = none ∨ ∃ old, t.get? (t.place p) = some (.file old)) := by
  obtain ⟨_, accepted, _⟩ := Result.bind_ok.mp written
  rcases write_parts accepted t bytes with ⟨e, refused⟩ | ⟨done, located, free⟩
  · rw [refused] at written
    cases written
  · rw [done] at written
    cases written
    exact ⟨Path.accept_ok.mp accepted, located, rfl, free⟩

theorem find_written (written : t.write p bytes = .ok u) : u.find p = .ok (.file bytes) := by
  obtain ⟨_, located, rfl, free⟩ := write_ok written
  have inner : t.place p ≠ [] := by
    intro root
    rw [root, get?_root] at free
    simp at free
  have changes := get?_put inner t (.file bytes)
  have keeps : t.Keeps (t.put (t.place p) (.file bytes)) := by
    refine ⟨rfl, ?_⟩
    intro l there
    rw [changes, if_neg, there]
    rintro rfl
    rw [there] at free
    simp at free
  unfold find
  rw [keeps.locate located]
  simp [bind, Except.bind, changes]

theorem read_of_find (free : p.NullFree) (found : t.find p = .ok (.file bytes)) : t.read p = .ok bytes := by
  unfold read
  rw [Path.accept_ok.mpr free, found]
  rfl

theorem read_ok (read : t.read p = .ok bytes) :
    p.NullFree ∧ t.locate p = .ok (t.place p) ∧ t.get? (t.place p) = some (.file bytes) := by
  obtain ⟨_, accepted, read⟩ := Result.bind_ok.mp read
  have found : t.find p = .ok (.file bytes) := by
    cases found : t.find p with
    | error cause =>
      rw [found] at read
      cases read
    | ok n =>
      rw [found] at read
      cases n <;> cases read
      rfl
  have asked : t.ask p = .ok (some (.file bytes)) := by
    unfold ask
    rw [accepted, found]
  exact ⟨Path.accept_ok.mp accepted, ask_some asked⟩

theorem ask_some_nullFree {n : Node} (found : t.ask p = .ok (some n)) : p.NullFree := by
  by_contra null
  unfold ask at found
  cases accepted : accept p with
  | ok _ => exact null (Path.accept_ok.mp accepted)
  | error f =>
    rw [accepted] at found
    cases found

theorem find_of_ask {n : Node} (found : t.ask p = .ok (some n)) : t.find p = .ok n := by
  unfold ask at found
  rw [Path.accept_ok.mpr (ask_some_nullFree found)] at found
  cases answer : t.find p with
  | ok m =>
    rw [answer] at found
    cases found
    rfl
  | error cause =>
    rw [answer] at found
    cases cause <;> cases found

theorem copy_ok (copied : t.copy p q = .ok u) (leaf : t.isDirectory q = false) :
    ∃ bytes, t.read p = .ok bytes ∧ t.write q bytes = .ok u := by
  obtain ⟨_, _, copied⟩ := Result.bind_ok.mp copied
  obtain ⟨_, _, copied⟩ := Result.bind_ok.mp copied
  obtain ⟨bytes, read, copied⟩ := Result.bind_ok.mp copied
  rw [leaf] at copied
  exact ⟨bytes, read, copied⟩

theorem remove_ok (removed : t.remove p = .ok u) : p.NullFree ∧ u = t.erase (t.place p) := by
  obtain ⟨_, accepted, removed⟩ := Result.bind_ok.mp removed
  refine ⟨Path.accept_ok.mp accepted, ?_⟩
  cases located : t.locate p with
  | error cause =>
    rw [located] at removed
    cases removed
  | ok l =>
    rw [← locate_ok located]
    rw [located] at removed
    dsimp only at removed
    split at removed <;> cases removed
    rfl

theorem removeDirectory_ok (removed : t.removeDirectory p = .ok u) :
    t.get? (t.place p) = some .directory ∧ u = t.erase (t.place p) := by
  obtain ⟨_, _, removed⟩ := Result.bind_ok.mp removed
  cases located : t.locate p with
  | error cause =>
    rw [located] at removed
    cases removed
  | ok l =>
    rw [← locate_ok located]
    rw [located] at removed
    dsimp only at removed
    split at removed
    · rename_i there
      split at removed <;> cases removed
      exact ⟨there, rfl⟩
    · cases removed
    · cases removed

structure Extends (t u : Tree) : Prop where
  workingDirectory : u.workingDirectory = t.workingDirectory
  there : ∀ l n, t.get? l = some n → u.get? l = some n

namespace Extends

theorem refl (t : Tree) : t.Extends t := ⟨rfl, fun _ _ there => there⟩

theorem trans (first : t.Extends u) (second : u.Extends v) : t.Extends v :=
  ⟨second.workingDirectory.trans first.workingDirectory, fun l n there => second.there l n (first.there l n there)⟩

theorem keeps (extends_ : t.Extends u) : t.Keeps u :=
  ⟨extends_.workingDirectory, fun l there => extends_.there l _ there⟩

theorem put (absent : t.get? l = none) (n : Node) : t.Extends (t.put l n) := by
  refine ⟨rfl, ?_⟩
  intro m node there
  rw [get?_put (ne_root_of_none absent), if_neg, there]
  rintro rfl
  rw [absent] at there
  cases there

end Extends

theorem makeDirectory_extends (made : t.makeDirectory p = .ok u) : t.Extends u ∧ u.isDirectory p = true := by
  obtain ⟨located, absent, rfl⟩ := makeDirectory_ok made
  have grown := Extends.put absent .directory
  refine ⟨grown, isDirectory_of_get? (grown.keeps.locate located) ?_⟩
  rw [get?_put (ne_root_of_none absent), if_pos rfl]

theorem makeUpward_extends (t : Tree) (root : PathRoot) (parts : List Text) : t.Extends (t.makeUpward root parts).2 ∧
      ((t.makeUpward root parts).1 = .ok ⟨⟩ → (t.makeUpward root parts).2.isDirectory ⟨root, parts.reverse⟩ = true) := by
  fun_induction Tree.makeUpward t root parts with
  | case1 parts p made accepted =>
    obtain ⟨grown, found⟩ := makeDirectory_extends accepted
    exact ⟨grown, fun _ => found⟩
  | case2 part above e made outer p missing ih =>
    rw [outer] at ih
    exact ⟨ih.1, fun accepted => by cases accepted⟩
  | case3 part above v made outer all p missing accepted ih =>
    rw [outer] at ih
    obtain ⟨grown, found⟩ := makeDirectory_extends accepted
    exact ⟨ih.1.trans grown, fun _ => found⟩
  | case4 part above v made outer cause p missing refused ih =>
    rw [outer] at ih
    refine ⟨ih.1, ?_⟩
    intro accepted
    by_cases found : cause ≠ .notFound ∧ made.isDirectory p = true
    · exact found.2
    · rw [if_neg found] at accepted
      cases accepted
  | case5 parts p cause refused other =>
    refine ⟨.refl t, ?_⟩
    intro accepted
    by_cases found : t.isDirectory p = true
    · exact found
    · rw [if_neg found] at accepted
      cases accepted

theorem makeDirectories_extends (t : Tree) (p : Path) : t.Extends (t.makeDirectories p).2 ∧
      ((t.makeDirectories p).1 = .ok ⟨⟩ → (t.makeDirectories p).2.isDirectory p = true) := by
  unfold makeDirectories
  split
  · have upward := makeUpward_extends t p.root p.parts.reverse
    rwa [List.reverse_reverse] at upward
  · rename_i refused other
    exact ⟨.refl t, fun accepted => absurd accepted (other ⟨⟩)⟩

structure Retains (t u : Tree) (Exposed : Location → Prop) : Prop where
  workingDirectory : u.workingDirectory = t.workingDirectory
  file : ∀ l bytes, t.get? l = some (.file bytes) →
    ∃ now, u.get? l = some (.file now) ∧ (¬Exposed l → now = bytes)

theorem Extends.retains (extends_ : t.Extends u) (Exposed : Location → Prop) : t.Retains u Exposed :=
  ⟨extends_.workingDirectory, fun l bytes there => ⟨bytes, extends_.there l _ there, fun _ => rfl⟩⟩

namespace Retains

variable {Exposed : Location → Prop}

theorem refl (t : Tree) (Exposed : Location → Prop) : t.Retains t Exposed :=
  (Extends.refl t).retains Exposed

theorem trans (first : t.Retains u Exposed) (second : u.Retains v Exposed) : t.Retains v Exposed := by
  refine ⟨second.workingDirectory.trans first.workingDirectory, ?_⟩
  intro l bytes there
  obtain ⟨middle, there, same⟩ := first.file l bytes there
  obtain ⟨last, there, again⟩ := second.file l middle there
  exact ⟨last, there, fun safe => (again safe).trans (same safe)⟩

theorem place (retains : t.Retains u Exposed) (p : Path) : u.place p = t.place p :=
  place_congr retains.workingDirectory p

theorem kept (retains : t.Retains u Exposed) (there : t.get? l = some (.file bytes))
    (safe : ¬Exposed l) : u.get? l = some (.file bytes) := by
  obtain ⟨now, there, same⟩ := retains.file l bytes there
  rw [there, same safe]

theorem makeDirectories (retains : t.Retains u Exposed) (p : Path) : t.Retains (u.makeDirectories p).2 Exposed :=
  retains.trans ((makeDirectories_extends u p).1.retains Exposed)

theorem write (retains : t.Retains u Exposed) (written : u.write p bytes = .ok v)
    (exposed : Exposed (t.place p)) : t.Retains v Exposed := by
  obtain ⟨_, _, rfl, free⟩ := write_ok written
  have inner : u.place p ≠ [] := by
    intro root
    rw [root, get?_root] at free
    simp at free
  refine ⟨retains.workingDirectory, ?_⟩
  intro l old there
  rw [get?_put inner]
  split
  · rename_i same
    refine ⟨bytes, rfl, fun safe => absurd ?_ safe⟩
    rwa [same, retains.place]
  · exact retains.file l old there

theorem remove (retains : t.Retains u Exposed) (removed : u.remove p = .ok v)
    (new : ∀ bytes, t.get? (t.place p) ≠ some (.file bytes)) : t.Retains v Exposed := by
  obtain ⟨_, rfl⟩ := remove_ok removed
  refine ⟨retains.workingDirectory, ?_⟩
  intro l bytes there
  rw [get?_erase_other]
  · exact retains.file l bytes there
  · rintro rfl
    rw [retains.place] at there
    exact new bytes there

theorem removeDirectory (retains : t.Retains u Exposed) (removed : u.removeDirectory p = .ok v) : t.Retains v Exposed := by
  obtain ⟨directory, rfl⟩ := removeDirectory_ok removed
  refine ⟨retains.workingDirectory, ?_⟩
  intro l bytes there
  obtain ⟨now, still, same⟩ := retains.file l bytes there
  refine ⟨now, ?_, same⟩
  rw [get?_erase_other, still]
  rintro rfl
  rw [directory] at still
  cases still

end Retains

theorem no_file_of_ask (free : p.NullFree) (directory : t.isDirectory p.parent = true)
    (gone : t.ask p = .ok none) (bytes : Bytes) : t.get? (t.place p) ≠ some (.file bytes) := by
  obtain ⟨located, outer⟩ := isDirectory_parts directory
  have asked : t.locate p ≠ .error .nameTooLong := by
    intro long
    unfold ask find at gone
    rw [Path.accept_ok.mpr free, long] at gone
    cases gone
  have reached : t.locate p = .ok (t.place p) := by
    obtain ⟨root, parts⟩ := p
    rcases List.eq_nil_or_concat parts with rfl | ⟨init, name, rfl⟩
    · exact located
    · rw [List.concat_eq_append] at *
      rw [Path.parent_snoc] at located outer
      have walked : init.foldlM t.step (t.start ⟨root, init ++ [name]⟩) = .ok (t.place ⟨root, init⟩) := locate_walk located
      have stepped : t.locate ⟨root, init ++ [name]⟩ = t.step (t.place ⟨root, init⟩) name := by
        unfold locate at asked ⊢
        split at asked
        · rename_i brief
          rw [if_pos brief, List.foldlM_append, walked]
          show [name].foldlM t.step (t.place ⟨root, init⟩) = _
          rw [List.foldlM_cons]
          cases t.step (t.place ⟨root, init⟩) name <;> rfl
        · exact absurd rfl asked
      have entered : t.place ⟨root, init ++ [name]⟩ = enter (t.place ⟨root, init⟩) name := by
        rw [place_eq, place_eq, List.foldl_append]
        rfl
      rw [stepped] at asked ⊢
      rw [entered]
      unfold step enter at *
      rw [outer] at asked ⊢
      dsimp only at asked ⊢
      split
      · rfl
      · rename_i down
        rw [if_neg down] at asked
        split
        · rename_i long
          rw [if_pos long] at asked
          exact absurd rfl asked
        · rfl
  rcases ask_none (Path.accept_ok.mpr free) gone reached with none | dangling
  · rw [none]
    simp
  · rw [dangling]
    simp

end ModuleSplit.Tree
