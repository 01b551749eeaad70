import ModuleSplit.Failure

namespace ModuleSplit

open List

theorem Result.bind_ok {α β : Type} {x : Result α} {f : α → Result β} {b : β} :
    (x >>= f) = .ok b ↔ ∃ a, x = .ok a ∧ f a = .ok b := by
  cases x <;> simp [bind, Except.bind]

@[simp] theorem Result.pure_ok {α : Type} {a b : α} : (pure a : Result α) = .ok b ↔ a = b := by
  simp [pure, Except.pure]

theorem Result.andThen_ok {x : Result PUnit} {f : PUnit → Result PUnit} :
    (x >>= f) = .ok ⟨⟩ ↔ x = .ok ⟨⟩ ∧ f ⟨⟩ = .ok ⟨⟩ := by
  cases x <;> simp [bind, Except.bind]

@[simp] theorem Result.mapError_ok {ε α : Type} {x : Except ε α} {f : ε → Failure} {a : α} :
    (x.mapError f : Result α) = .ok a ↔ x = .ok a := by
  cases x with
  | error e => exact ⟨nofun, nofun⟩
  | ok b => exact ⟨fun same => congrArg _ (Except.ok.inj same), fun same => congrArg _ (Except.ok.inj same)⟩

theorem Result.forM_ok {α : Type} {check : α → Result PUnit} {l : List α} :
    l.forM check = .ok ⟨⟩ ↔ ∀ x ∈ l, check x = .ok ⟨⟩ := by
  induction l with
  | nil => exact ⟨fun _ => by simp, fun _ => rfl⟩
  | cons first rest ih =>
    rw [List.forM_eq_forM, forM_cons, Result.andThen_ok, forall_mem_cons, ← ih]
    rfl

theorem Result.bind_error {α β : Type} {x : Result α} {f : α → Result β} {e : Failure}
    (failed : (x >>= f) = .error e) : x = .error e ∨ ∃ a, x = .ok a ∧ f a = .error e := by
  cases x with
  | error e' =>
    cases failed
    exact .inl rfl
  | ok a => exact .inr ⟨a, rfl, failed⟩

theorem Result.of_run {α β : Type} {x : Result α} {f : α → β} {b : β}
    (run : x.toOption.map f = some b) : ∃ a, x = .ok a ∧ f a = b := by
  cases x with
  | error e => cases run
  | ok a => exact ⟨a, rfl, Option.some.inj run⟩

theorem findM?_none {α : Type} {test : α → Result Bool} {l : List α}
    (found : l.findM? test = .ok none) : ∀ x ∈ l, test x = .ok false := by
  induction l with
  | nil => simp
  | cons first rest ih =>
    rw [List.findM?] at found
    obtain ⟨answer, tested, found⟩ := Result.bind_ok.mp found
    cases answer with
    | true => cases found
    | false =>
      intro x member
      rcases mem_cons.mp member with rfl | later
      · exact tested
      · exact ih found x later

theorem findM?_clear {α : Type} {test : α → Result Bool} {l : List α}
    (clear : ∀ x ∈ l, test x = .ok false) : l.findM? test = .ok none := by
  induction l with
  | nil => rfl
  | cons first rest ih =>
    rw [forall_mem_cons] at clear
    rw [List.findM?, clear.1]
    exact ih clear.2

theorem findM?_append {α : Type} {test : α → Result Bool} {front : List α}
    (passed : ∀ x ∈ front, test x = .ok false) (back : List α) : (front ++ back).findM? test = back.findM? test := by
  induction front with
  | nil => rfl
  | cons first rest ih =>
    rw [forall_mem_cons] at passed
    rw [cons_append, List.findM?, passed.1]
    exact ih passed.2

theorem findM?_congr {α : Type} {test other : α → Result Bool} {l : List α}
    (same : ∀ x ∈ l, test x = other x) : l.findM? test = l.findM? other := by
  induction l with
  | nil => rfl
  | cons first rest ih =>
    rw [forall_mem_cons] at same
    rw [List.findM?, List.findM?, same.1, ih same.2]

theorem findM?_error {α : Type} {test : α → Result Bool} {l : List α} {f : Failure}
    (failed : l.findM? test = .error f) : ∃ x ∈ l, test x = .error f := by
  induction l with
  | nil => cases failed
  | cons first rest ih =>
    rw [List.findM?] at failed
    rcases Result.bind_error failed with tested | ⟨answer, _, failed⟩
    · exact ⟨first, mem_cons_self, tested⟩
    · cases answer with
      | true => cases failed
      | false =>
        obtain ⟨x, member, wrong⟩ := ih failed
        exact ⟨x, mem_cons_of_mem _ member, wrong⟩

theorem filterMapM_ok {α β : Type} {f : α → Result (Option β)} {l : List α} {found : List β}
    (accepted : l.filterMapM f = .ok found) : ∀ b ∈ found, ∃ a ∈ l, f a = .ok (some b) := by
  induction l generalizing found with
  | nil =>
    cases accepted
    simp
  | cons first rest ih =>
    rw [filterMapM_cons] at accepted
    obtain ⟨one, made, accepted⟩ := Result.bind_ok.mp accepted
    intro b member
    cases one with
    | none =>
      obtain ⟨a, listed, same⟩ := ih accepted b member
      exact ⟨a, mem_cons_of_mem _ listed, same⟩
    | some c =>
      obtain ⟨others, later, same⟩ := Result.bind_ok.mp accepted
      cases same
      rcases mem_cons.mp member with rfl | further
      · exact ⟨first, mem_cons_self, made⟩
      · obtain ⟨a, listed, same⟩ := ih later b further
        exact ⟨a, mem_cons_of_mem _ listed, same⟩

theorem mapM_congr {α β : Type} {f g : α → Result β} {l : List α} (same : ∀ x ∈ l, f x = g x) : l.mapM f = l.mapM g := by
  induction l with
  | nil => rfl
  | cons first rest ih =>
    rw [forall_mem_cons] at same
    rw [mapM_cons, mapM_cons, same.1, ih same.2]

theorem mapM_ok {α β : Type} {f : α → Result β} {l : List α} {all : List β}
    (accepted : l.mapM f = .ok all) : ∀ x ∈ l, ∃ b, f x = .ok b := by
  induction l generalizing all with
  | nil => simp
  | cons first rest ih =>
    rw [mapM_cons] at accepted
    obtain ⟨b, made, accepted⟩ := Result.bind_ok.mp accepted
    obtain ⟨others, later, _⟩ := Result.bind_ok.mp accepted
    rw [forall_mem_cons]
    exact ⟨⟨b, made⟩, ih later⟩

theorem mapM_error {α β : Type} {f : α → Result β} {l : List α} {e : Failure}
    (refused : l.mapM f = .error e) : ∃ x ∈ l, f x = .error e := by
  induction l with
  | nil => cases refused
  | cons first rest ih =>
    rw [mapM_cons] at refused
    rcases Result.bind_error refused with failed | ⟨b, _, refused⟩
    · exact ⟨first, mem_cons_self, failed⟩
    · rcases Result.bind_error refused with later | ⟨others, _, refused⟩
      · obtain ⟨x, member, failed⟩ := ih later
        exact ⟨x, mem_cons_of_mem _ member, failed⟩
      · cases refused

end ModuleSplit
