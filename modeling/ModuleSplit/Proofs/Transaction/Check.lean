import ModuleSplit.Proofs.Store.Calls
import ModuleSplit.Proofs.Tree.Retention

-- What a transaction only looks at: the files in its way, the names for a backup, and in the end the
-- files it has written. Looking changes nothing, and what is found is so.

namespace ModuleSplit

variable {s s' : Store}

namespace Backup

-- The name that a search in this tree ends with.
def target (t : Tree) (dir source : Path) (m : Moment) : Result Path := do
  let candidate (attempt : Nat) := dir.child (fileName source m attempt)
  let free ← ((List.range (t.size + 1)).map candidate).findM? fun p => do
    return (← t.ask p).isNone
  return free.getD (candidate (t.size + 1))

theorem choose_call (s : Store) (dir source : Path) (m : Moment) : After (choose dir source m) s
      (fun p s' => target s.tree dir source m = .ok p ∧ s.Quiet s')
      fun f s' => s.Quiet s' ∧ ((∃ p, s'.StoppedAt ⟨.exists, p⟩ f) ∨ target s.tree dir source m = .error f) := by
  refine .bind ?_
  show After _ s _ _
  refine .bind ((Store.findM?_call (fun t p => do return (← t.ask p).isNone) .exists ?_ _ s).mono ?_ ?_)
  · intro p s
    refine .bind ((Store.exists_call s p).mono ?_ ?_)
    · rintro answer s' ⟨found, asked, rfl, rfl⟩
      refine ⟨?_, .next s _⟩
      rw [asked]
      cases found <;> rfl
    · rintro f s' ⟨rfl, stopped | refused⟩
      · exact ⟨.next s _, .inl ⟨p, rfl, stopped⟩⟩
      · rw [refused]
        exact ⟨.next s _, .inr rfl⟩
  · rintro found s' ⟨searched, quiet⟩
    refine ⟨?_, quiet⟩
    show (_ >>= _) = _
    rw [searched]
    rfl
  · rintro f s' ⟨quiet, stopped | searched⟩
    · exact ⟨quiet, .inl stopped⟩
    · refine ⟨quiet, .inr ?_⟩
      show (_ >>= _) = _
      rw [searched]
      rfl

end Backup

namespace Transaction

-- The file of this tree that is in the way.
def collision? (t : Transaction) (tree : Tree) : Result (Option Text) := do
  if t.overwrite then return none
  let taken ← t.files.findM? fun f =>
    if f.path = t.source then return false else do return (← tree.ask f.path).isSome
  return taken.map fun f => "refusing to overwrite existing file ".toList ++ f.path.text

theorem preflight_call (t : Transaction) (a : Attempt) : After t.preflight a
      (fun reason b => t.collision? a.store.tree = .ok reason ∧ a.Quiet b)
      fun f b => a.Quiet b ∧ ((∃ p, b.store.StoppedAt ⟨.exists, p⟩ f) ∨ t.collision? a.store.tree = .error f) := by
  unfold preflight collision?
  cases t.overwrite with
  | true => exact ⟨rfl, rfl, .refl _⟩
  | false =>
    refine .bind (.onStore ((Store.findM?_call (fun tree f =>
      if f.path = t.source then return false else do return (← tree.ask f.path).isSome) .exists ?_ _ a.store).mono ?_ ?_))
    · intro f s
      split
      · exact ⟨rfl, .refl s⟩
      · refine (Store.exists_call s f.path).mono ?_ ?_
        · rintro answer s' ⟨found, asked, rfl, rfl⟩
          rw [asked]
          exact ⟨rfl, .next s _⟩
        · rintro failure s' ⟨rfl, stopped | refused⟩
          · exact ⟨.next s _, .inl ⟨f.path, rfl, stopped⟩⟩
          · rw [refused]
            exact ⟨.next s _, .inr rfl⟩
    · rintro taken s ⟨searched, quiet⟩
      refine ⟨?_, rfl, quiet⟩
      show (_ >>= _) = _
      rw [searched]
      rfl
    · rintro f s ⟨quiet, stopped | searched⟩
      · exact ⟨⟨rfl, quiet⟩, .inl stopped⟩
      · refine ⟨⟨rfl, quiet⟩, .inr ?_⟩
        show (_ >>= _) = _
        rw [searched]
        rfl

theorem preflight_quiet (t : Transaction) (a : Attempt) : After t.preflight a (fun _ => a.Quiet) fun _ => a.Quiet :=
  (preflight_call t a).mono (fun _ _ answered => answered.2) fun _ _ refused => refused.1

end Transaction

def Passes (mode : DelimiterMode) (codec : Codec) (t : Tree) (p : Path) : Prop :=
  ∃ bytes text, t.ask p = .ok (some (.file bytes)) ∧ codec.decode bytes = .ok text ∧
    checkText mode text = none

inductive Offends (mode : DelimiterMode) (codec : Codec) (s : Store) (p : Path) :
    FileFault → Prop where
  | missing {found : Option Node} (asked : s.tree.ask p = .ok found)
      (none : ∀ bytes, found ≠ some (.file bytes)) : Offends mode codec s p .missing
  | refused {words : Text}
      (planned : s.schedule (⟨.readBytes, p⟩ :: s.calls) = some (.error words)) :
      Offends mode codec s p (.unreadable words)
  | undecodable {bytes : Bytes} {f : Failure} {words : Text}
      (there : s.tree.ask p = .ok (some (.file bytes))) (failed : codec.decode bytes = .error f) :
      Offends mode codec s p (.unreadable words)
  | text {bytes : Bytes} {t : Text} {fault : TextFault}
      (there : s.tree.ask p = .ok (some (.file bytes))) (decoded : codec.decode bytes = .ok t)
      (found : checkText mode t = some fault) : Offends mode codec s p (.text fault)

-- The first of some paths whose file fails its check. What is found there may depend on the calls
-- that the checks before it have made.
structure FirstFault (mode : DelimiterMode) (codec : Codec) (s : Store) (paths : List Path)
    (p : Path) (fault : FileFault) : Prop where
  split : ∃ earlier later, paths = earlier ++ p :: later ∧ ∀ q ∈ earlier, Passes mode codec s.tree q
  offends : ∃ s', s.Quiet s' ∧ Offends mode codec s' p fault

theorem FirstFault.behind {mode : DelimiterMode} {codec : Codec} {paths : List Path}
    {p q : Path} {fault : FileFault} (first : FirstFault mode codec s' paths p fault)
    (quiet : s.Quiet s') (passes : Passes mode codec s.tree q) : FirstFault mode codec s (q :: paths) p fault := by
  obtain ⟨earlier, later, rfl, passed⟩ := first.split
  obtain ⟨now, further, offends⟩ := first.offends
  rw [quiet.tree] at passed
  exact ⟨⟨q :: earlier, later, rfl, List.forall_mem_cons.mpr ⟨passes, passed⟩⟩, now, quiet.trans further, offends⟩

-- The call that asks whether the file is there is not part of what is caught here; nor is what a
-- codec may refuse with but a failure of decoding.
theorem checkFile_call (s : Store) (mode : DelimiterMode) (codec : Codec) (p : Path) : After (checkFile mode codec p) s
      (fun fault s' => s.Quiet s' ∧ (fault = none → Passes mode codec s.tree p) ∧
        ∀ f, fault = some f → ∃ s₁, s.Quiet s₁ ∧ Offends mode codec s₁ p f)
      fun f s' => s.Quiet s' ∧ ((s' = s.next ⟨.isFile, p⟩ s.tree ∧ (s'.Stopped f ∨ s.tree.ask p = .error f)) ∨
        s'.schedule s'.calls = some .interrupt ∨
        ∃ bytes, s.tree.ask p = .ok (some (.file bytes)) ∧ codec.decode bytes = .error f ∧ ∀ d, f ≠ .decode d) := by
  unfold checkFile
  refine .bind ((Store.isFile_call s p).mono ?_ ?_)
  · rintro answer s' ⟨found, asked, isFile, rfl⟩
    have asking := Store.Quiet.next s ⟨.isFile, p⟩
    cases answer with
    | false =>
      refine ⟨asking, nofun, ?_⟩
      rintro _ ⟨⟩
      exact ⟨s, .refl s, .missing asked fun bytes there => nomatch isFile.mpr ⟨bytes, there⟩⟩
    | true =>
      obtain ⟨bytes, rfl⟩ := isFile.mp rfl
      have reads := Tree.read_of_find (Tree.ask_some_nullFree asked) (Tree.find_of_ask asked)
      generalize s.next ⟨.isFile, p⟩ s.tree = s₁ at asking
      rw [← asking.tree] at reads asked ⊢
      have reading := asking.trans (.next s₁ ⟨.readBytes, p⟩)
      refine .bind (.recover (.bind ((Store.read_call s₁ p).mono ?_ ?_)))
      · rintro read s' ⟨same, rfl⟩
        rw [reads] at same
        cases same
        cases decoded : codec.decode bytes with
        | ok text =>
          refine ⟨reading, ?_, ?_⟩
          · intro none
            exact ⟨bytes, text, asked, decoded, Option.map_eq_none_iff.mp none⟩
          · intro f found
            obtain ⟨fault, checked, rfl⟩ := Option.map_eq_some_iff.mp found
            exact ⟨s₁, asking, .text asked decoded checked⟩
        | error f =>
          cases f with
          | os e =>
            refine ⟨reading, nofun, ?_⟩
            rintro _ ⟨⟩
            exact ⟨s₁, asking, .undecodable asked decoded⟩
          | decode d =>
            refine ⟨reading, nofun, ?_⟩
            rintro _ ⟨⟩
            exact ⟨s₁, asking, .undecodable asked decoded⟩
          | _ => exact ⟨reading, .inr (.inr ⟨bytes, asked, decoded, nofun⟩)⟩
      · rintro f s' ⟨rfl, (⟨words, planned, rfl⟩ | ⟨planned, rfl⟩) | failed⟩
        · refine ⟨reading, nofun, ?_⟩
          rintro _ ⟨⟩
          exact ⟨s₁, asking, .refused planned⟩
        · exact ⟨reading, .inr (.inl planned)⟩
        · rw [reads] at failed
          cases failed
  · rintro f s' ⟨rfl, reason⟩
    exact ⟨.next s _, .inl ⟨rfl, reason⟩⟩

theorem checkFile_quiet (s : Store) (mode : DelimiterMode) (codec : Codec) (p : Path) :
    After (checkFile mode codec p) s (fun _ => s.Quiet) fun _ => s.Quiet :=
  (checkFile_call s mode codec p).mono (fun _ _ found => found.1) fun _ _ bad => bad.1

end ModuleSplit
