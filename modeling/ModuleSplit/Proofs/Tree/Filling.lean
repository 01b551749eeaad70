import ModuleSplit.Proofs.Tree.Opening

-- Files that are put into the directories of a tree: paths lead where they led before.

namespace ModuleSplit.Tree

variable {t u v : Tree} {p : Path} {l : Location} {root : PathRoot} {init : List Text} {name : Text}

theorem place_absolute (t : Tree) (absolute : p.isAbsolute = true) (down : "..".toList ∉ p.parts) : t.place p = p.parts := by
  have start : t.start p = [] := if_pos absolute
  rw [place_eq, start, enter_down down, List.nil_append]

def Linkless (t : Tree) : Prop := ∀ l, t.get? l ≠ some .dangling

theorem linkless_of_entries (solid : ∀ e ∈ t.entries, e.2 ≠ .dangling) : t.Linkless := by
  intro l there
  have inner : l ≠ [] := by
    rintro rfl
    cases there
  rw [get?_of_ne_root inner, List.lookup_eq_some_iff] at there
  obtain ⟨front, back, entries, _⟩ := there
  exact solid (l, .dangling) (by simp [entries]) rfl

theorem ask_error {f : Failure} (failed : t.ask p = .error f) : f = .os (.at .nameTooLong p.text) := by
  unfold ask at failed
  split at failed
  · cases failed
  · cases failed
  · cases failed
    rfl
  · cases failed

theorem ask_child (rooted : t.Rooted) (linkless : t.Linkless)
    (found : t.isDirectory ⟨root, init⟩ = true) (child : name ≠ "..".toList) (storable : Path.Storable ⟨root, init ++ [name]⟩) :
    t.ask ⟨root, init ++ [name]⟩ = .ok (t.get? (t.place ⟨root, init ++ [name]⟩)) := by
  have anchored : t.Anchored ⟨root, init ++ [name]⟩ := ⟨init, [name], rfl, found, by simpa using child.symm⟩
  rw [ask_admitted rooted ⟨storable, anchored⟩]
  have solid := linkless (t.place ⟨root, init ++ [name]⟩)
  cases there : t.get? (t.place ⟨root, init ++ [name]⟩) with
  | none => rfl
  | some n =>
    rw [there] at solid
    rw [Option.filter_some_pos (by simpa using solid)]

theorem ask_overlong (found : t.isDirectory ⟨root, init⟩ = true) (child : name ≠ "..".toList)
    (free : Path.NullFree ⟨root, init ++ [name]⟩) (long : ¬Path.Storable ⟨root, init ++ [name]⟩) :
    t.ask ⟨root, init ++ [name]⟩ = .error (.os (.at .nameTooLong (Path.text ⟨root, init ++ [name]⟩))) := by
  have accepted := Path.accept_ok.mpr free
  cases asked : t.ask ⟨root, init ++ [name]⟩ with
  | ok answer =>
    have located := locate_asked found child accepted asked
    exact absurd (storable_of_located accepted located) long
  | error f => rw [ask_error asked]

structure Filled (t u : Tree) : Prop where
  workingDirectory : u.workingDirectory = t.workingDirectory
  change : ∀ l, u.get? l = t.get? l ∨ ((∃ bytes, u.get? l = some (.file bytes)) ∧
    t.get? l ≠ some .directory ∧ t.get? l.dropLast = some .directory)

namespace Filled

theorem refl (t : Tree) : t.Filled t := ⟨rfl, fun _ => .inl rfl⟩

theorem keeps (filled : t.Filled u) : t.Keeps u := by
  refine ⟨filled.workingDirectory, ?_⟩
  intro l there
  rcases filled.change l with same | ⟨_, other, _⟩
  · rw [same, there]
  · exact absurd there other

theorem directory (filled : t.Filled u) (there : u.get? l = some .directory) : t.get? l = some .directory := by
  rcases filled.change l with same | ⟨⟨bytes, file⟩, _⟩
  · rw [← same, there]
  · rw [file] at there
    cases there

theorem trans (first : t.Filled u) (second : u.Filled v) : t.Filled v := by
  refine ⟨second.workingDirectory.trans first.workingDirectory, ?_⟩
  intro l
  rcases second.change l with same | ⟨file, other, parent⟩
  · rw [same]
    exact first.change l
  · refine .inr ⟨file, ?_, first.directory parent⟩
    intro there
    exact other (first.keeps.directory l there)

theorem rooted (filled : t.Filled u) (rooted : t.Rooted) : u.Rooted := by
  intro l n there
  apply filled.keeps.directory
  rcases filled.change l with same | ⟨_, _, parent⟩
  · exact rooted l n (by rw [← same, there])
  · exact parent

theorem linkless (filled : t.Filled u) (linkless : t.Linkless) : u.Linkless := by
  intro l
  rcases filled.change l with same | ⟨⟨bytes, file⟩, _⟩
  · rw [same]
    exact linkless l
  · simp [file]

theorem isSome (filled : t.Filled u) (there : (t.get? l).isSome = true) : (u.get? l).isSome = true := by
  rcases filled.change l with same | ⟨⟨bytes, file⟩, _⟩
  · rw [same, there]
  · rw [file]
    rfl

theorem ask_child (filled : t.Filled u) (rooted : t.Rooted) (linkless : t.Linkless)
    (found : t.isDirectory ⟨root, init⟩ = true) (child : name ≠ "..".toList)
    (free : Path.NullFree ⟨root, init ++ [name]⟩) (same : (u.get? (t.place ⟨root, init ++ [name]⟩)).isSome =
      (t.get? (t.place ⟨root, init ++ [name]⟩)).isSome) : (u.ask ⟨root, init ++ [name]⟩).map Option.isSome =
      (t.ask ⟨root, init ++ [name]⟩).map Option.isSome := by
  have still := filled.keeps.isDirectory found
  by_cases storable : Path.Storable ⟨root, init ++ [name]⟩
  · rw [Tree.ask_child rooted linkless found child storable,
      Tree.ask_child (filled.rooted rooted) (filled.linkless linkless) still child storable,
      filled.keeps.place]
    exact congrArg Except.ok same
  · rw [ask_overlong found child free storable, ask_overlong still child free storable]

end Filled

end ModuleSplit.Tree
