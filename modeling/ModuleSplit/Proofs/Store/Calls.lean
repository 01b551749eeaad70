import ModuleSplit.Transaction.Run

-- What holds after an action, by how it ends, and what the calls of a provider can do.

namespace ModuleSplit

-- `done` holds when the action ends with a value, `failed` when it ends with a failure.
def After {ε σ α : Type} (action : EStateM ε σ α) (s : σ) (done : α → σ → Prop)
    (failed : ε → σ → Prop) : Prop :=
  match action s with
  | .ok a s => done a s
  | .error e s => failed e s

namespace After

variable {ε σ α β : Type} {action : EStateM ε σ α} {s : σ} {done done' : α → σ → Prop}
  {failed' failed : ε → σ → Prop}

theorem mono (after : After action s done failed)
    (good : ∀ a s, done a s → done' a s) (bad : ∀ e s, failed e s → failed' e s) : After action s done' failed' := by
  unfold After at after ⊢
  split
  · rename_i a s' ended
    rw [ended] at after
    exact good a s' after
  · rename_i e s' ended
    rw [ended] at after
    exact bad e s' after

theorem both (first : After action s done failed) (second : After action s done' failed') :
    After action s (fun a s => done a s ∧ done' a s) fun e s => failed e s ∧ failed' e s := by
  unfold After at *
  split at first
  · rename_i a s' ended
    rw [ended] at second
    exact ⟨first, second⟩
  · rename_i e s' ended
    rw [ended] at second
    exact ⟨first, second⟩

theorem ended {a : α} {s' : σ} (after : After action s done failed) (ended : action s = .ok a s') : done a s' := by
  unfold After at after
  rw [ended] at after
  exact after

theorem of_ended {a : α} {s' : σ} (ended : action s = .ok a s') (holds : done a s') : After action s done failed := by
  unfold After
  rw [ended]
  exact holds

theorem broke {e : ε} {s' : σ} (after : After action s done failed) (broke : action s = .error e s') : failed e s' := by
  unfold After at after
  rw [broke] at after
  exact after

theorem exact (action : EStateM ε σ α) (s : σ) :
    After action s (fun a s' => action s = .ok a s') fun e s' => action s = .error e s' := by
  unfold After
  split
  · assumption
  · assumption

theorem total (after : After action s done fun _ _ => False) : ∃ a s', action s = .ok a s' ∧ done a s' := by
  unfold After at after
  split at after
  · rename_i a s' ended
    exact ⟨a, s', ended, after⟩
  · exact absurd after id

theorem result {P : EStateM.Result ε σ α → Prop}
    (after : After action s (fun a s => P (.ok a s)) fun e s => P (.error e s)) : P (action s) := by
  unfold After at after
  split at after
  · rename_i a s' ended
    rw [ended]
    exact after
  · rename_i e s' ended
    rw [ended]
    exact after

theorem bind {next : α → EStateM ε σ β} {done : β → σ → Prop}
    (after : After action s (fun a s => After (next a) s done failed) failed) : After (action >>= next) s done failed := by
  unfold After at after ⊢
  dsimp only [Bind.bind, EStateM.bind]
  cases ended : action s with
  | ok a s' =>
    rw [ended] at after
    exact after
  | error e s' =>
    rw [ended] at after
    exact after

theorem recover {handle : ε → EStateM ε σ α} (after : After action s done fun e s => After (handle e) s done failed) :
    After (tryCatch action handle) s done failed := by
  unfold After at after ⊢
  dsimp only [tryCatch, tryCatchThe, MonadExceptOf.tryCatch, EStateM.tryCatch]
  cases ended : action s with
  | ok a s' =>
    rw [ended] at after
    exact after
  | error e s' =>
    rw [ended] at after
    exact after

end After

namespace After

variable {α : Type} {a : Attempt} {done : α → Attempt → Prop} {failed : Failure → Attempt → Prop}
  {name : Text → Failure}

theorem onStore {action : StoreM α} (after : After action a.store (fun v s => done v {a with store := s})
      fun f s => failed f {a with store := s}) : After (AttemptM.onStore action) a done failed := by
  unfold After AttemptM.onStore at *
  cases ended : action a.store with
  | ok v s =>
    rw [ended] at after
    exact after
  | error f s =>
    rw [ended] at after
    exact after

theorem progress {done : Progress → Attempt → Prop} (after : done a.progress a) : After AttemptM.progress a done failed := after

theorem update {done : PUnit → Attempt → Prop} {change : Progress → Progress}
    (after : done ⟨⟩ {a with progress := change a.progress}) : After (AttemptM.update change) a done failed := after

theorem named {action : AttemptM α} (after : After action a done fun f a => ∃ e, f = .os e ∧ failed (name e.message) a) :
    After (AttemptM.named name action) a done failed := by
  refine .recover (after.mono (fun _ _ good => good) ?_)
  rintro f a ⟨e, rfl, bad⟩
  exact bad

theorem named_always {P : Attempt → Prop} {action : AttemptM α}
    (after : After action a done fun _ => P) : After (AttemptM.named name action) a done fun _ => P := by
  refine .recover (after.mono (fun _ _ good => good) ?_)
  intro f b holds
  cases f <;> exact holds

end After

theorem bind_of_ended {ε σ α β : Type} {action : EStateM ε σ α} {next : α → EStateM ε σ β} {a : α}
    {s s' : σ} (ended : action s = .ok a s') : (action >>= next) s = next a s' := by
  dsimp only [Bind.bind, EStateM.bind]
  rw [ended]

def CallKind.looks : CallKind → Bool
  | .readBytes | .exists | .isFile => true
  | _ => false

namespace Store

variable {s : Store} {kind : CallKind} {p : Path}

def next (s : Store) (c : Call) (t : Tree) : Store := {s with tree := t, calls := c :: s.calls}

def OnlyErrors (s : Store) : Prop :=
  ∀ calls trouble, s.schedule calls = some trouble → ∃ words, trouble = .error words

def Calm (s : Store) : Prop := ∀ calls, s.schedule calls ≠ some .interrupt

theorem OnlyErrors.calm (errors : s.OnlyErrors) : s.Calm := by
  intro calls planned
  obtain ⟨_, other⟩ := errors calls _ planned
  cases other

-- From here on such calls are refused, in words that `may` admits, and nothing else happens to them.
def Refuses (s : Store) (such : Call → Prop) (may : Text → Prop) : Prop :=
  ∀ c made trouble, such c → s.schedule (c :: made ++ s.calls) = some trouble →
    ∃ words, trouble = .error words ∧ may words

theorem OnlyErrors.refuses (errors : s.OnlyErrors) (such : Call → Prop) : s.Refuses such fun _ => True := by
  intro c made trouble _ planned
  obtain ⟨words, same⟩ := errors _ _ planned
  exact ⟨words, same, trivial⟩

namespace Refuses

variable {such : Call → Prop} {may : Text → Prop} {c : Call}

theorem next (refuses : s.Refuses such may) (c : Call) (t : Tree) : (s.next c t).Refuses such may := by
  intro d made trouble listed planned
  refine refuses d (made ++ [c]) trouble listed ?_
  rw [← planned]
  simp [Store.next]

theorem errors (refuses : s.Refuses such may) (listed : such c) (trouble : Trouble)
    (planned : s.schedule (c :: s.calls) = some trouble) : ∃ words, trouble = .error words := by
  obtain ⟨words, same, _⟩ := refuses c [] trouble listed planned
  exact ⟨words, same⟩

theorem calm (refuses : s.Refuses such may) (listed : such c) : s.schedule (c :: s.calls) ≠ some .interrupt := by
  intro planned
  obtain ⟨_, other⟩ := refuses.errors listed _ planned
  cases other

end Refuses

def Refused (s : Store) (f : Failure) : Prop :=
  ∃ words, s.schedule s.calls = some (.error words) ∧ f = .os (.reported words)

def Stopped (s : Store) (f : Failure) : Prop :=
  s.Refused f ∨ (s.schedule s.calls = some .interrupt ∧ f = .interrupted)

theorem Stopped.refused {f : Failure} (stopped : s.Stopped f) (calm : s.schedule s.calls ≠ some .interrupt) : s.Refused f := by
  rcases stopped with refused | ⟨planned, _⟩
  · exact refused
  · exact absurd planned calm

-- Questions of this kind are not refused.
def Answers (s : Store) (kind : CallKind) : Prop :=
  ∀ p calls words, s.schedule (⟨kind, p⟩ :: calls) ≠ some (.error words)

-- Stopped at this call, the newest.
def StoppedAt (s : Store) (c : Call) (f : Failure) : Prop := s.calls.head? = some c ∧ s.Stopped f

theorem Answers.not_stoppedAt {f : Failure} (answers : s.Answers kind) (calm : s.Calm) : ¬s.StoppedAt ⟨kind, p⟩ f := by
  rintro ⟨newest, stopped⟩
  obtain ⟨words, planned, _⟩ := stopped.refused (calm _)
  obtain ⟨earlier, calls⟩ := List.head?_eq_some_iff.mp newest
  rw [calls] at planned
  exact answers p earlier words planned

-- Calls that look may have been made in between, but nothing has come of them.
structure Quiet (s s' : Store) : Prop where
  tree : s'.tree = s.tree
  schedule : s'.schedule = s.schedule
  calls : ∃ made, s'.calls = made ++ s.calls ∧ ∀ c ∈ made, c.kind.looks = true

namespace Quiet

variable {s' s'' : Store}

theorem refl (s : Store) : s.Quiet s := ⟨rfl, rfl, [], rfl, nofun⟩

theorem next (s : Store) (c : Call) (looks : c.kind.looks = true := by rfl) : s.Quiet (s.next c s.tree) :=
  ⟨rfl, rfl, [c], rfl, List.forall_mem_singleton.mpr looks⟩

theorem trans (first : s.Quiet s') (second : s'.Quiet s'') : s.Quiet s'' := by
  obtain ⟨early, before, looks⟩ := first.calls
  obtain ⟨late, after, look⟩ := second.calls
  refine ⟨second.tree.trans first.tree, second.schedule.trans first.schedule, late ++ early, ?_, ?_⟩
  · rw [after, before, List.append_assoc]
  · exact List.forall_mem_append.mpr ⟨look, looks⟩

theorem suffix (quiet : s.Quiet s') : s.calls <:+ s'.calls := by
  obtain ⟨made, calls, _⟩ := quiet.calls
  exact ⟨made, calls.symm⟩

theorem onlyErrors (quiet : s.Quiet s') (errors : s.OnlyErrors) : s'.OnlyErrors := by
  intro calls trouble planned
  rw [quiet.schedule] at planned
  exact errors calls trouble planned

theorem calm (quiet : s.Quiet s') (calm : s.Calm) : s'.Calm := by
  intro calls
  rw [quiet.schedule]
  exact calm calls

theorem answers (quiet : s.Quiet s') (answers : s.Answers kind) : s'.Answers kind := by
  intro p calls words
  rw [quiet.schedule]
  exact answers p calls words

end Quiet

theorem undisturbed_call (s : Store) (kind : CallKind) (p : Path) :
    After (undisturbed kind p) s (fun _ s' => s' = s.next ⟨kind, p⟩ s.tree)
      fun f s' => s' = s.next ⟨kind, p⟩ s.tree ∧ s'.Stopped f := by
  refine .bind ?_
  show After _ (s.next ⟨kind, p⟩ s.tree) _ _
  cases planned : s.schedule (⟨kind, p⟩ :: s.calls) with
  | none => rfl
  | some trouble =>
    cases trouble with
    | error words => exact ⟨rfl, .inl ⟨words, planned, rfl⟩⟩
    | interrupt => exact ⟨rfl, .inr ⟨planned, rfl⟩⟩
    | corrupt bytes => rfl

def Performs (action : StoreM PUnit) (c : Call) (change : Tree → Result Tree) : Prop :=
  ∀ s : Store, After action s (fun _ s' => ∃ u, change s.tree = .ok u ∧ s' = s.next c u)
    fun f s' => s' = s.next c s.tree ∧ (s'.Stopped f ∨ change s.tree = .error f)

theorem change_performs (kind : CallKind) (p : Path) (change : Tree → Result Tree) :
    Performs (do undisturbed kind p; setTree (← ofResult (change (← treeNow)))) ⟨kind, p⟩
      change := by
  intro s
  refine .bind ((undisturbed_call s kind p).mono ?_ ?_)
  · rintro _ s' rfl
    refine .bind ?_
    show After _ (s.next ⟨kind, p⟩ s.tree) _ _
    refine .bind ?_
    show After (ofResult (change s.tree)) (s.next ⟨kind, p⟩ s.tree) _ _
    cases changed : change s.tree with
    | ok u => exact ⟨u, rfl, rfl⟩
    | error f => exact ⟨rfl, .inr rfl⟩
  · rintro f s' ⟨same, stopped⟩
    exact ⟨same, .inl stopped⟩

theorem remove_performs (p : Path) : Performs (Store.remove p) ⟨.remove, p⟩ (·.remove p) :=
  change_performs .remove p _

theorem removeDir_performs (p : Path) : Performs (Store.removeDir p) ⟨.removeDir, p⟩ (·.removeDirectory p) :=
  change_performs .removeDir p _

theorem copy_performs (source destination : Path) :
    Performs (Store.copy source destination) ⟨.copy, destination⟩ (·.copy source destination) :=
  change_performs .copy destination _

theorem Performs.after {action : StoreM PUnit} {c : Call} {change : Tree → Result Tree}
    (performs : Performs action c change) (calm : s.schedule (c :: s.calls) ≠ some .interrupt) :
    After action s (fun _ s' => ∃ u, change s.tree = .ok u ∧ s' = s.next c u)
      fun f s' => s' = s.next c s.tree ∧ (s'.Refused f ∨ change s.tree = .error f) := by
  refine (performs s).mono (fun _ _ done => done) ?_
  rintro f s' ⟨rfl, stopped | failed⟩
  · exact ⟨rfl, .inl (stopped.refused calm)⟩
  · exact ⟨rfl, .inr failed⟩

theorem remove_after (p : Path) (calm : s.schedule (⟨.remove, p⟩ :: s.calls) ≠ some .interrupt) :
    After (Store.remove p) s (fun _ s' => ∃ u, s.tree.remove p = .ok u ∧ s' = s.next ⟨.remove, p⟩ u)
      fun f s' => s' = s.next ⟨.remove, p⟩ s.tree ∧ (s'.Refused f ∨ s.tree.remove p = .error f) :=
  (remove_performs p).after calm

theorem removeDir_after (p : Path) (calm : s.schedule (⟨.removeDir, p⟩ :: s.calls) ≠ some .interrupt) :
    After (Store.removeDir p) s (fun _ s' => ∃ u, s.tree.removeDirectory p = .ok u ∧ s' = s.next ⟨.removeDir, p⟩ u)
      fun f s' => s' = s.next ⟨.removeDir, p⟩ s.tree ∧ (s'.Refused f ∨ s.tree.removeDirectory p = .error f) :=
  (removeDir_performs p).after calm

theorem copy_after (source destination : Path) (calm : s.schedule (⟨.copy, destination⟩ :: s.calls) ≠ some .interrupt) :
    After (Store.copy source destination) s (fun _ s' => ∃ u, s.tree.copy source destination = .ok u ∧
        s' = s.next ⟨.copy, destination⟩ u) fun f s' => s' = s.next ⟨.copy, destination⟩ s.tree ∧
        (s'.Refused f ∨ s.tree.copy source destination = .error f) :=
  (copy_performs source destination).after calm

inductive Puts (s : Store) (p : Path) (bytes : Bytes) (s' : Store) : Prop where
  | written {u : Tree} (written : s.tree.write p bytes = .ok u)
      (same : s' = s.next ⟨.writeBytes, p⟩ u)
  | altered {other : Bytes} {u : Tree}
      (planned : s.schedule (⟨.writeBytes, p⟩ :: s.calls) = some (.corrupt (some other)))
      (written : s.tree.write p other = .ok u) (same : s' = s.next ⟨.writeBytes, p⟩ u)
  | dropped (planned : s.schedule (⟨.writeBytes, p⟩ :: s.calls) = some (.corrupt none))
      (same : s' = s.next ⟨.writeBytes, p⟩ s.tree)

theorem write_call (s : Store) (p : Path) (bytes : Bytes) :
    After (Store.write p bytes) s (fun _ s' => s.Puts p bytes s') fun f s' => s' = s.next ⟨.writeBytes, p⟩ s.tree ∧
        (s'.Stopped f ∨ ∃ other, s.tree.write p other = .error f ∧ (other = bytes ∨
          s.schedule (⟨.writeBytes, p⟩ :: s.calls) = some (.corrupt (some other)))) := by
  -- The tree takes the bytes or refuses them.
  have through : ∀ other, After (writeThrough p other) (s.next ⟨.writeBytes, p⟩ s.tree)
      (fun _ s' => ∃ u, s.tree.write p other = .ok u ∧ s' = s.next ⟨.writeBytes, p⟩ u)
      fun f s' => s' = s.next ⟨.writeBytes, p⟩ s.tree ∧ s.tree.write p other = .error f := by
    intro other
    refine .bind ?_
    show After _ (s.next ⟨.writeBytes, p⟩ s.tree) _ _
    refine .bind ?_
    show After (ofResult (s.tree.write p other)) (s.next ⟨.writeBytes, p⟩ s.tree) _ _
    cases changed : s.tree.write p other with
    | ok u => exact ⟨u, rfl, rfl⟩
    | error f => exact ⟨rfl, rfl⟩
  refine .bind ?_
  show After _ (s.next ⟨.writeBytes, p⟩ s.tree) _ _
  cases planned : s.schedule (⟨.writeBytes, p⟩ :: s.calls) with
  | none =>
    refine (through bytes).mono ?_ ?_
    · rintro _ s' ⟨u, written, same⟩
      exact .written written same
    · rintro f s' ⟨same, failed⟩
      exact ⟨same, .inr ⟨bytes, failed, .inl rfl⟩⟩
  | some trouble =>
    cases trouble with
    | error words => exact ⟨rfl, .inl (.inl ⟨words, planned, rfl⟩)⟩
    | interrupt => exact ⟨rfl, .inl (.inr ⟨planned, rfl⟩)⟩
    | corrupt content =>
      cases content with
      | none => exact .dropped planned rfl
      | some other =>
        refine (through other).mono ?_ ?_
        · rintro _ s' ⟨u, written, same⟩
          exact .altered planned written same
        · rintro f s' ⟨same, failed⟩
          exact ⟨same, .inr ⟨other, failed, .inr rfl⟩⟩

theorem write_after (p : Path) (bytes : Bytes)
    (errors : ∀ trouble, s.schedule (⟨.writeBytes, p⟩ :: s.calls) = some trouble → ∃ words, trouble = .error words) :
    After (Store.write p bytes) s (fun _ s' => ∃ u, s.tree.write p bytes = .ok u ∧ s' = s.next ⟨.writeBytes, p⟩ u)
      fun f s' => s' = s.next ⟨.writeBytes, p⟩ s.tree ∧ (s'.Refused f ∨ s.tree.write p bytes = .error f) := by
  have intact : ∀ content, s.schedule (⟨.writeBytes, p⟩ :: s.calls) ≠ some (.corrupt content) := by
    intro content planned
    obtain ⟨words, other⟩ := errors _ planned
    cases other
  have calm : s.schedule (⟨.writeBytes, p⟩ :: s.calls) ≠ some .interrupt := by
    intro planned
    obtain ⟨words, other⟩ := errors _ planned
    cases other
  refine (write_call s p bytes).mono ?_ ?_
  · intro _ s' puts
    cases puts with
    | written written same => exact ⟨_, written, same⟩
    | altered planned _ _ => exact absurd planned (intact _)
    | dropped planned _ => exact absurd planned (intact _)
  · rintro f s' ⟨rfl, stopped | ⟨other, failed, rfl | planned⟩⟩
    · exact ⟨rfl, .inl (stopped.refused calm)⟩
    · exact ⟨rfl, .inr failed⟩
    · exact absurd planned (intact _)

theorem read_call (s : Store) (p : Path) : After (Store.read p) s
      (fun bytes s' => s.tree.read p = .ok bytes ∧ s' = s.next ⟨.readBytes, p⟩ s.tree)
      fun f s' => s' = s.next ⟨.readBytes, p⟩ s.tree ∧ (s'.Stopped f ∨ s.tree.read p = .error f) := by
  refine .bind ((undisturbed_call s .readBytes p).mono ?_ ?_)
  · rintro _ s' rfl
    refine .bind ?_
    show After (ofResult (s.tree.read p)) (s.next ⟨.readBytes, p⟩ s.tree) _ _
    cases found : s.tree.read p with
    | ok bytes => exact ⟨rfl, rfl⟩
    | error f => exact ⟨rfl, .inr rfl⟩
  · rintro f s' ⟨same, stopped⟩
    exact ⟨same, .inl stopped⟩

theorem read_after (p : Path) (calm : s.schedule (⟨.readBytes, p⟩ :: s.calls) ≠ some .interrupt) :
    After (Store.read p) s (fun bytes s' => s.tree.read p = .ok bytes ∧ s' = s.next ⟨.readBytes, p⟩ s.tree)
      fun f s' => s' = s.next ⟨.readBytes, p⟩ s.tree ∧ (s'.Refused f ∨ s.tree.read p = .error f) := by
  refine (read_call s p).mono (fun _ _ done => done) ?_
  rintro f s' ⟨rfl, stopped | failed⟩
  · exact ⟨rfl, .inl (stopped.refused calm)⟩
  · exact ⟨rfl, .inr failed⟩

theorem makeDirs_call (s : Store) (p : Path) : After (Store.makeDirs p) s
      (fun made s' => ∃ u, s.tree.missing p = .ok made ∧ s.tree.makeDirectories p = (.ok ⟨⟩, u) ∧
        s' = s.next ⟨.makeDirs, p⟩ u) fun f s' =>
        (s' = s.next ⟨.makeDirs, p⟩ s.tree ∧ (s'.Stopped f ∨ s.tree.missing p = .error f)) ∨
        ∃ u, s.tree.makeDirectories p = (.error f, u) ∧ s' = s.next ⟨.makeDirs, p⟩ u := by
  refine .bind ((undisturbed_call s .makeDirs p).mono ?_ ?_)
  · rintro _ s' rfl
    refine .bind ?_
    show After _ (s.next ⟨.makeDirs, p⟩ s.tree) _ _
    refine .bind ?_
    show After (ofResult (s.tree.missing p)) (s.next ⟨.makeDirs, p⟩ s.tree) _ _
    cases listed : s.tree.missing p with
    | error f => exact .inl ⟨rfl, .inr rfl⟩
    | ok made =>
      refine .bind (?_ : After (setTree (s.tree.makeDirectories p).2) _ _ _)
      show After _ (s.next ⟨.makeDirs, p⟩ (s.tree.makeDirectories p).2) _ _
      refine .bind (?_ : After (ofResult (s.tree.makeDirectories p).1) _ _ _)
      cases outcome : s.tree.makeDirectories p with
      | mk result u =>
        cases result with
        | ok _ => exact ⟨u, rfl, rfl, rfl⟩
        | error f => exact .inr ⟨u, rfl, rfl⟩
  · rintro f s' ⟨same, stopped⟩
    exact .inl ⟨same, .inl stopped⟩

theorem makeDirs_after (p : Path) (calm : s.schedule (⟨.makeDirs, p⟩ :: s.calls) ≠ some .interrupt) : After (Store.makeDirs p) s
      (fun made s' => ∃ u, s.tree.missing p = .ok made ∧ s.tree.makeDirectories p = (.ok ⟨⟩, u) ∧
        s' = s.next ⟨.makeDirs, p⟩ u) fun f s' =>
        (s' = s.next ⟨.makeDirs, p⟩ s.tree ∧ (s'.Refused f ∨ s.tree.missing p = .error f)) ∨
        ∃ u, s.tree.makeDirectories p = (.error f, u) ∧ s' = s.next ⟨.makeDirs, p⟩ u := by
  refine (makeDirs_call s p).mono (fun _ _ done => done) ?_
  rintro f s' (⟨rfl, stopped | failed⟩ | refused)
  · exact .inl ⟨rfl, .inl (stopped.refused calm)⟩
  · exact .inl ⟨rfl, .inr failed⟩
  · exact .inr refused

-- A question about a path is a call like any other; an answer reads the tree as it stands.
theorem asking_call {answer : Option Node → Bool} (s : Store) (kind : CallKind) (p : Path) :
    After (do undisturbed kind p; return answer (← ofResult ((← treeNow).ask p))) s
      (fun a s' => ∃ found, s.tree.ask p = .ok found ∧ a = answer found ∧ s' = s.next ⟨kind, p⟩ s.tree)
      fun f s' => s' = s.next ⟨kind, p⟩ s.tree ∧ (s'.Stopped f ∨ s.tree.ask p = .error f) := by
  refine .bind ((undisturbed_call s kind p).mono ?_ ?_)
  · rintro _ s' rfl
    refine .bind ?_
    show After _ (s.next ⟨kind, p⟩ s.tree) _ _
    refine .bind ?_
    show After (ofResult (s.tree.ask p)) (s.next ⟨kind, p⟩ s.tree) _ _
    cases s.tree.ask p with
    | ok found => exact ⟨found, rfl, rfl, rfl⟩
    | error f => exact ⟨rfl, .inr rfl⟩
  · rintro f s' ⟨same, stopped⟩
    exact ⟨same, .inl stopped⟩

theorem exists_call (s : Store) (p : Path) : After (Store.exists p) s
      (fun answer s' => ∃ found, s.tree.ask p = .ok found ∧ answer = found.isSome ∧ s' = s.next ⟨.exists, p⟩ s.tree)
      fun f s' => s' = s.next ⟨.exists, p⟩ s.tree ∧ (s'.Stopped f ∨ s.tree.ask p = .error f) :=
  asking_call s .exists p

theorem exists_after {found : Option Node} (asked : s.tree.ask p = .ok found)
    (calm : s.schedule (⟨.exists, p⟩ :: s.calls) ≠ some .interrupt) : After (Store.exists p) s
      (fun answer s' => answer = found.isSome ∧ s' = s.next ⟨.exists, p⟩ s.tree)
      fun f s' => s' = s.next ⟨.exists, p⟩ s.tree ∧ s'.Refused f := by
  have call := exists_call s p
  rw [asked] at call
  refine call.mono ?_ ?_
  · rintro answer s' ⟨_, ⟨⟩, answered⟩
    exact answered
  · rintro f s' ⟨rfl, stopped | ⟨⟨⟩⟩⟩
    exact ⟨rfl, stopped.refused calm⟩

theorem isFile_call (s : Store) (p : Path) : After (Store.isFile p) s
      (fun answer s' => ∃ found, s.tree.ask p = .ok found ∧ (answer = true ↔ ∃ bytes, found = some (.file bytes)) ∧
        s' = s.next ⟨.isFile, p⟩ s.tree)
      fun f s' => s' = s.next ⟨.isFile, p⟩ s.tree ∧ (s'.Stopped f ∨ s.tree.ask p = .error f) := by
  refine (asking_call s .isFile p).mono ?_ fun _ _ failed => failed
  rintro answer s' ⟨found, asked, rfl, same⟩
  refine ⟨found, asked, ?_, same⟩
  cases found with
  | none => simp
  | some n => cases n <;> simp

theorem isFile_after {found : Option Node} (asked : s.tree.ask p = .ok found)
    (calm : s.schedule (⟨.isFile, p⟩ :: s.calls) ≠ some .interrupt) : After (Store.isFile p) s
      (fun answer s' => (answer = true ↔ ∃ bytes, found = some (.file bytes)) ∧ s' = s.next ⟨.isFile, p⟩ s.tree)
      fun f s' => s' = s.next ⟨.isFile, p⟩ s.tree ∧ s'.Refused f := by
  have call := isFile_call s p
  rw [asked] at call
  refine call.mono ?_ ?_
  · rintro answer s' ⟨_, ⟨⟩, answered⟩
    exact answered
  · rintro f s' ⟨rfl, stopped | ⟨⟨⟩⟩⟩
    exact ⟨rfl, stopped.refused calm⟩

-- A search that asks storage about each element goes as the same search in the tree would go,
-- unless the schedule stops it.
theorem findM?_call {α : Type} {test : α → StoreM Bool} (answer : Tree → α → Result Bool) (kind : CallKind)
    (asks : ∀ x s, After (test x) s (fun found s' => answer s.tree x = .ok found ∧ s.Quiet s')
      fun f s' => s.Quiet s' ∧ ((∃ p, s'.StoppedAt ⟨kind, p⟩ f) ∨ answer s.tree x = .error f)) (xs : List α) (s : Store) :
    After (xs.findM? test) s (fun found s' => xs.findM? (answer s.tree) = .ok found ∧ s.Quiet s')
      fun f s' => s.Quiet s' ∧ ((∃ p, s'.StoppedAt ⟨kind, p⟩ f) ∨ xs.findM? (answer s.tree) = .error f) := by
  induction xs generalizing s with
  | nil => exact ⟨rfl, .refl s⟩
  | cons x rest ih =>
    unfold List.findM?
    refine .bind ((asks x s).mono ?_ ?_)
    · rintro found s' ⟨answered, quiet⟩
      rw [answered]
      cases found with
      | true => exact ⟨rfl, quiet⟩
      | false =>
        have onward := ih s'
        rw [quiet.tree] at onward
        refine onward.mono ?_ ?_
        · rintro found s'' ⟨searched, further⟩
          exact ⟨searched, quiet.trans further⟩
        · rintro f s'' ⟨further, reason⟩
          exact ⟨quiet.trans further, reason⟩
    · rintro f s' ⟨quiet, stopped | refused⟩
      · exact ⟨quiet, .inl stopped⟩
      · rw [refused]
        exact ⟨quiet, .inr rfl⟩

end Store

-- An attempt that has only looked.
structure Attempt.Quiet (a b : Attempt) : Prop where
  progress : b.progress = a.progress
  store : a.store.Quiet b.store

theorem Attempt.Quiet.trans {a b c : Attempt} (first : a.Quiet b) (second : b.Quiet c) : a.Quiet c :=
  ⟨second.progress.trans first.progress, first.store.trans second.store⟩

end ModuleSplit
