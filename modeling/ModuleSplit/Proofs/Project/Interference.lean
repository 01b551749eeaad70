import ModuleSplit.Proofs.Project.Forecast

namespace ModuleSplit

open List ModuleSplit.Tree

variable {p : Project} {dir path : Path} {m : Moment} {t u v : Tree}

theorem Transaction.forecast_files {x : Transaction} {o : Outcome}
    {files : List (Path × Result Bytes)} (foreseen : x.forecast t = .ok (o, files)) :
    files = [] ∨ (x.files ≠ [] ∧ x.collision? t = .ok none ∧ files = x.files.map fun f => (f.path, x.encode f.text)) := by
  unfold forecast at foreseen
  split at foreseen
  · cases foreseen
    exact .inl rfl
  · rename_i some
    obtain ⟨reason, uncollided, foreseen⟩ := Result.bind_ok.mp foreseen
    cases reason with
    | some reason =>
      cases foreseen
      exact .inl rfl
    | none =>
      have verdict := congrArg Prod.snd (Except.ok.inj foreseen)
      unfold Transaction.verdict at verdict
      cases blemished : x.blemish? with
      | none =>
        rw [blemished] at verdict
        exact .inr ⟨by simpa using some, uncollided, verdict.symm⟩
      | some blemish =>
        rw [blemished] at verdict
        exact .inl verdict.symm

theorem Transaction.forecast_congr {x : Transaction} (collision : x.collision? u = x.collision? t) :
    x.forecast u = x.forecast t := by
  unfold forecast
  rw [collision]

namespace Project

def left (p : Project) (t : Tree) (path : Path) : List (Path × Result Bytes) :=
  match p.foretold t path with
  | .ok told => told.2
  | .error _ => []

theorem mem_left (configured : p.backupDir = .ok dir) {f : Path × Result Bytes}
    (member : f ∈ p.left t path) : ∃ plan, p.planFile t path = .ok plan ∧
      plan.isEmpty = false ∧ (p.split plan dir).collision? t = .ok none ∧ ∃ g ∈ (p.split plan dir).files, f.1 = g.path := by
  unfold left foretold at member
  cases foreseen : p.forecast t path with
  | error failure =>
    rw [foreseen] at member
    cases excuse : excused path failure <;> simp [excuse, Except.map] at member
  | ok told =>
    rw [foreseen] at member
    obtain ⟨plan, planned, rest⟩ := Result.bind_ok.mp foreseen
    obtain ⟨_, same, rest⟩ := Result.bind_ok.mp rest
    cases configured.symm.trans same
    obtain ⟨⟨o, files⟩, ending, same⟩ := Result.bind_ok.mp rest
    cases same
    rcases Transaction.forecast_files ending with none | ⟨some, uncollided, all⟩
    · simp [none] at member
    · refine ⟨plan, planned, filled_of_files p some, uncollided, ?_⟩
      rw [all] at member
      obtain ⟨g, listed, rfl⟩ := mem_map.mp member
      exact ⟨g, listed, rfl⟩

theorem left_places (cautious : p.Cautious dir t) (eligible : p.Eligible t path) : ∀ f ∈ p.left t path,
      (t.place f.1 = path.parts ∧ ∃ bytes, t.get? path.parts = some (.file bytes)) ∨
        (path.Beside (t.place f.1) ∧ t.get? (t.place f.1) = none) := by
  intro f member
  obtain ⟨plan, planned, filled, uncollided, g, listed, same⟩ := mem_left cautious.backups member
  obtain ⟨_, origin, _⟩ := planFile_parts planned
  obtain ⟨original, read⟩ := planFile_read planned
  rw [resolve_absolute eligible.absolute] at origin read
  rw [same]
  rw [split_files p dir filled] at listed
  rcases mem_append.mp listed with new | last
  · exact .inr ⟨(eligible.beside cautious.beside origin filled g new).1,
      (cautious.free eligible planned filled uncollided g new).2⟩
  · left
    rw [mem_singleton.mp last]
    refine ⟨by rw [origin, eligible.place], original, ?_⟩
    rw [← eligible.place]
    exact (read_ok read).2.2

section

variable {q : Path} (cautious : p.Cautious dir t) (one : p.Eligible t path)

include cautious one

theorem left_apart (two : p.Eligible t q) (other : path.parts ≠ q.parts) :
    ∀ f ∈ p.left t path, ∀ g ∈ p.left t q, t.place f.1 ≠ t.place g.1 := by
  intro f left g right same
  rcases left_places cautious one f left with ⟨place, bytes, file⟩ | ⟨beside, absent⟩
  · rcases left_places cautious two g right with ⟨place', _⟩ | ⟨_, absent⟩
    · exact other (by rw [← place, same, place'])
    · rw [← same, place, file] at absent
      cases absent
  · rcases left_places cautious two g right with ⟨place, bytes, file⟩ | ⟨beside', _⟩
    · rw [same, place, file] at absent
      cases absent
    · rw [same] at beside
      exact other (beside.source_eq beside' one.suffixed two.suffixed)

theorem left_not_backup {source : Path} {attempt : Nat} (free : t.get? (t.place (Backup.candidate dir source m attempt)) = none) :
    ∀ f ∈ p.left t path, t.place f.1 ≠ t.place (Backup.candidate dir source m attempt) := by
  intro f member same
  rcases left_places cautious one f member with ⟨place, bytes, file⟩ | ⟨beside, _⟩
  · rw [← same, place, file] at free
    cases free
  · rw [same, Backup.place_candidate] at beside
    exact beside.not_backup one.suffixed _ source m attempt rfl

end

-- Some files have had their turn; each report comes with the reading of the clock that it had.
structure Midway (p : Project) (dir : Path) (t : Tree) (reports : List (SplitReport × Moment)) (u : Tree) : Prop where
  eligible : ∀ r ∈ reports, p.Eligible t r.1.file
  filled : t.Filled u
  put : ∀ r ∈ reports, ∀ f ∈ p.left t r.1.file, ∃ bytes, f.2 = .ok bytes ∧
    u.get? (t.place f.1) = some (.file bytes)
  copied : ∀ r ∈ reports, ∀ b, r.1.backup = some b →
    (∃ attempt, b = Backup.candidate dir r.1.file r.2 attempt) ∧ t.get? (t.place b) = none ∧
      u.get? (t.place b) = t.get? (t.place r.1.file)
  kept : ∀ l, (∀ r ∈ reports, ∀ f ∈ p.left t r.1.file, l ≠ t.place f.1) →
    (∀ r ∈ reports, ∀ b, r.1.backup = some b → l ≠ t.place b) → u.get? l = t.get? l
  distinct : ((reports.filterMap (·.1.backup)).map t.place).Nodup

-- Files of one name whose turns come in one millisecond: their backups differ by a counter only.
def rivals (turns : List (Path × Moment)) (path : Path) (m : Moment) : List (Path × Moment) :=
  turns.filter fun e => e.1.name = path.name ∧ e.2.stamp = m.stamp

-- Enough names for the backups of a run: each file that comes to its backup finds as many free ones
-- as it has rivals, itself among them, before any that storage does not take.
def Roomy (p : Project) (dir : Path) (t : Tree) (turns : List (Path × Moment)) : Prop :=
  ∀ e ∈ turns, p.Splits dir t e.1 → ∃ k,
    (∀ attempt < k, (Backup.candidate dir e.1 e.2 attempt).Storable) ∧
    (rivals turns e.1 e.2).length ≤ ((List.range k).filter fun attempt =>
      (t.get? (t.place (Backup.candidate dir e.1 e.2 attempt))).isNone).length

theorem Cautious.filled (cautious : p.Cautious dir t) (filled : t.Filled u) : p.Cautious dir u := by
  have keeps := filled.keeps
  have accepted := Path.accept_ok.mpr (ask_some_nullFree cautious.found)
  refine ⟨filled.rooted cautious.rooted, ?_, filled.linkless cautious.linkless, cautious.backups,
    ask_directory accepted (keeps.isDirectory cautious.isDirectory), cautious.beside,
    cautious.refuses⟩
  rw [filled.workingDirectory]
  exact keeps.directory _ cautious.home

theorem Cautious.ask_candidate (cautious : p.Cautious dir t) {attempt : Nat}
    (storable : (Backup.candidate dir path m attempt).Storable) : t.ask (Backup.candidate dir path m attempt) =
      .ok (t.get? (t.place (Backup.candidate dir path m attempt))) :=
  Tree.ask_child cautious.rooted cautious.linkless cautious.isDirectory (Backup.fileName_ne_up path m attempt) storable

theorem Eligible.source (eligible : p.Eligible t path) : ∃ n, t.get? path.parts = some n := by
  obtain ⟨n, asked⟩ := eligible.there
  rw [← eligible.place]
  exact ⟨n, (ask_some asked).2⟩

namespace Midway

theorem start (p : Project) (dir : Path) (t : Tree) : Midway p dir t [] t :=
  ⟨by simp, .refl t, by simp, by simp, fun _ _ _ => rfl, .nil⟩

variable {reports : List (SplitReport × Moment)} {plan : Plan} (midway : Midway p dir t reports u)
  (cautious : p.Cautious dir t)

include midway cautious

theorem free_name {k : Nat} (fewer : (rivals (reports.map fun r => (r.1.file, r.2)) path m).length <
      ((List.range k).filter fun attempt => (t.get? (t.place (Backup.candidate dir path m attempt))).isNone).length) :
    ∃ attempt < k, u.get? (t.place (Backup.candidate dir path m attempt)) = none := by
  by_contra taken
  simp only [not_exists, not_and] at taken
  have listed : (((List.range k).filter fun attempt =>
      (t.get? (t.place (Backup.candidate dir path m attempt))).isNone).map fun attempt =>
        t.place (Backup.candidate dir path m attempt)) ⊆
      ((reports.filter fun r => r.1.file.name = path.name ∧ r.2.stamp = m.stamp).filterMap (·.1.backup)).map t.place := by
    intro l member
    obtain ⟨i, inside, rfl⟩ := mem_map.mp member
    obtain ⟨small, free⟩ := mem_filter.mp inside
    have free := Option.isNone_iff_eq_none.mp free
    -- The place is taken now, and only by a backup.
    obtain ⟨r, member, b, backup, same⟩ : ∃ r ∈ reports, ∃ b, r.1.backup = some b ∧
        t.place (Backup.candidate dir path m i) = t.place b := by
      by_contra none
      apply taken i (mem_range.mp small)
      rw [midway.kept, free]
      · intro r member f left
        exact (left_not_backup cautious (midway.eligible r member) free f left).symm
      · intro r member b backup same
        exact none ⟨r, member, b, backup, same⟩
    obtain ⟨⟨j, rfl⟩, _⟩ := midway.copied r member b backup
    have rival : r.1.file.name = path.name ∧ r.2.stamp = m.stamp := by
      rw [Backup.place_candidate, Backup.place_candidate] at same
      exact Backup.fileName_source (singleton_inj.mp (append_cancel_left same)).symm
    rw [same]
    exact mem_map_of_mem (mem_filterMap.mpr ⟨r, mem_filter.mpr ⟨member, by simpa using rival⟩, backup⟩)
  have bound := ((Backup.places_nodup t dir path m (nodup_range.filter _)).subperm listed).length_le
  have few := length_filterMap_le (·.1.backup) (reports.filter fun r => r.1.file.name = path.name ∧ r.2.stamp = m.stamp)
  have all : (rivals (reports.map fun r => (r.1.file, r.2)) path m).length =
      (reports.filter fun r => r.1.file.name = path.name ∧ r.2.stamp = m.stamp).length := by
    rw [rivals, filter_map, length_map]
    rfl
  simp only [length_map] at bound
  omega

variable (eligible : p.Eligible t path)

include eligible

theorem target_found {k i : Nat} (storable : ∀ attempt < k, (Backup.candidate dir path m attempt).Storable) (small : i < k)
    (absent : u.get? (t.place (Backup.candidate dir path m i)) = none) : ∃ saved, Backup.target u dir path m = .ok saved := by
  have now := cautious.filled midway.filled
  obtain ⟨j, taken, vacant, ended⟩ := Backup.target_first u dir m eligible.nameChar
  have early : j ≤ i := by
    by_contra late
    obtain ⟨n, asked⟩ := taken i (by omega)
    have there := (ask_some asked).2
    rw [midway.filled.keeps.place, absent] at there
    cases there
  rw [now.ask_candidate (storable j (by omega))] at ended vacant
  cases there : u.get? (u.place (Backup.candidate dir path m j)) with
  | some n => exact absurd (by rw [there]) (vacant n)
  | none =>
    rw [there] at ended
    exact ⟨_, ended⟩

variable (pending : ∀ r ∈ reports, r.1.file.parts ≠ path.parts)

include pending

theorem source_kept : u.get? path.parts = t.get? path.parts := by
  obtain ⟨n, there⟩ := eligible.source
  apply midway.kept
  · intro r member f left same
    rcases left_places cautious (midway.eligible r member) f left with ⟨place, _⟩ | ⟨_, absent⟩
    · exact pending r member (by rw [← place, same])
    · rw [← same, there] at absent
      cases absent
  · intro r member b backup same
    obtain ⟨_, absent, _⟩ := midway.copied r member b backup
    rw [← same, there] at absent
    cases absent

theorem beside_kept {l : Location} (beside : path.Beside l) : (u.get? l).isSome = (t.get? l).isSome := by
  by_cases written : ∃ r ∈ reports, ∃ f ∈ p.left t r.1.file, l = t.place f.1
  · obtain ⟨r, member, f, left, rfl⟩ := written
    rcases left_places cautious (midway.eligible r member) f left with
      ⟨place, bytes, file⟩ | ⟨also, _⟩
    · obtain ⟨_, _, now⟩ := midway.put r member f left
      rw [now, place, file]
      rfl
    · exact absurd (also.source_eq beside (midway.eligible r member).suffixed eligible.suffixed) (pending r member)
  · rw [midway.kept l]
    · intro r member f left same
      exact written ⟨r, member, f, left, same⟩
    · intro r member b backup same
      obtain ⟨⟨attempt, rfl⟩, _⟩ := midway.copied r member b backup
      rw [Backup.place_candidate] at same
      exact beside.not_backup eligible.suffixed _ _ _ _ same

theorem find_kept : u.find path = t.find path := by
  obtain ⟨n, asked⟩ := eligible.there
  obtain ⟨located, _⟩ := ask_some asked
  have same := midway.source_kept cautious eligible pending
  rw [← eligible.place] at same
  unfold Tree.find
  rw [midway.filled.keeps.locate located, located]
  dsimp only [bind, Except.bind]
  rw [same]

theorem planFile_kept : p.planFile u path = p.planFile t path := by
  have same := midway.find_kept cautious eligible pending
  unfold planFile load
  rw [resolve_absolute eligible.absolute]
  unfold Tree.read
  dsimp only
  rw [same]

theorem eligible_kept : p.Eligible u path := by
  obtain ⟨n, asked⟩ := eligible.there
  refine ⟨eligible.absolute, eligible.down, eligible.suffixed, eligible.single, ⟨n, ?_⟩, ?_⟩
  · rw [← asked]
    unfold Tree.ask
    rw [midway.find_kept cautious eligible pending]
  · rw [midway.planFile_kept cautious eligible pending]
    exact eligible.encodable

theorem collision?_kept (planned : p.planFile t path = .ok plan) :
    (p.split plan dir).collision? u = (p.split plan dir).collision? t := by
  obtain ⟨_, origin, _⟩ := planFile_parts planned
  obtain ⟨original, read⟩ := planFile_read planned
  rw [resolve_absolute eligible.absolute] at origin read
  have above := (read_source cautious.rooted cautious.home read).2
  have tested : ∀ f ∈ (p.split plan dir).files, (if f.path = (p.split plan dir).source then return false
      else do return (← u.ask f.path).isSome : Result Bool) = (if f.path = (p.split plan dir).source then return false
      else do return (← t.ask f.path).isSome : Result Bool) := by
    intro f member
    by_cases source : f.path = (p.split plan dir).source
    · rw [if_pos source, if_pos source]
    · have mapped : ∀ w : Tree, (do return (← w.ask f.path).isSome : Result Bool) = (w.ask f.path).map Option.isSome := by
        intro w
        cases w.ask f.path <;> rfl
      have filled := filled_of_files p (ne_nil_of_mem member)
      rw [split_files p dir filled] at member
      have new : f ∈ (p.synthesis plan).files := by
        rcases mem_append.mp member with new | last
        · exact new
        · rw [mem_singleton.mp last] at source
          exact absurd rfl source
      obtain ⟨beside, n, down, same⟩ := eligible.beside cautious.beside origin filled f new
      have free : f.path.NullFree := by
        apply Plan.synthesize_nullFree _ p.outputs f new
        rw [origin]
        exact eligible.nullFree
      have taken := midway.beside_kept cautious eligible pending beside
      rw [if_neg source, if_neg source, mapped, mapped]
      rw [same] at taken free ⊢
      exact midway.filled.ask_child cautious.rooted cautious.linkless above down free taken
  unfold Transaction.collision?
  rw [findM?_congr tested]

theorem splits_kept (splits : p.Splits dir u path) : p.Splits dir t path := by
  obtain ⟨plan, planned, filled, uncollided⟩ := splits
  rw [midway.planFile_kept cautious eligible pending] at planned
  rw [midway.collision?_kept cautious eligible pending planned] at uncollided
  exact ⟨plan, planned, filled, uncollided⟩

theorem target_kept {turns : List (Path × Moment)} (roomy : p.Roomy dir t turns) (turn : (path, m) ∈ turns)
    (fewer : (rivals (reports.map fun r => (r.1.file, r.2)) path m).length < (rivals turns path m).length)
    (splits : p.Splits dir u path) : ∃ saved, Backup.target u dir path m = .ok saved := by
  obtain ⟨k, storable, enough⟩ := roomy _ turn (midway.splits_kept cautious eligible pending splits)
  obtain ⟨i, small, absent⟩ := midway.free_name cautious (Nat.lt_of_lt_of_le fewer enough)
  exact midway.target_found cautious eligible storable small absent

theorem foretold_kept : p.foretold u path = p.foretold t path := by
  have same := midway.planFile_kept cautious eligible pending
  have forecast : p.forecast u path = p.forecast t path := by
    cases planned : p.planFile t path with
    | error f =>
      rw [planned] at same
      rw [Project.forecast, Project.forecast, same, planned]
      rfl
    | ok plan =>
      have ending := Transaction.forecast_congr (midway.collision?_kept cautious eligible pending planned)
      rw [forecast_planned (same.trans planned) cautious.backups, ending, forecast_planned planned cautious.backups]
  unfold foretold
  rw [forecast]

theorem step {report : SplitReport} (file : report.file = path)
    (leaves : Leaves dir path m (p.left t path) report.backup u v) : Midway p dir t (reports ++ [(report, m)]) v := by
  obtain ⟨filled, put, copied, kept⟩ := leaves
  simp only [midway.filled.keeps.place] at put copied kept
  have source := midway.source_kept cautious eligible pending
  rw [← eligible.place] at source
  -- What is there stays, unless the file puts something in its place.
  have stays : ∀ l, u.get? l ≠ none → (∀ f ∈ p.left t path, l ≠ t.place f.1) → v.get? l = u.get? l := by
    intro l there aside
    apply kept l aside
    rintro b backup rfl
    exact there (copied b backup).2.1
  have before : ∀ r ∈ reports, ∀ b, r.1.backup = some b → u.get? (t.place b) ≠ none := by
    intro r member b backup
    obtain ⟨n, there⟩ := (midway.eligible r member).source
    rw [(midway.copied r member b backup).2.2, (midway.eligible r member).place, there]
    simp
  refine ⟨?_, midway.filled.trans filled, ?_, ?_, ?_, ?_⟩
  · rw [forall_mem_append, forall_mem_singleton, file]
    exact ⟨midway.eligible, eligible⟩
  · rw [forall_mem_append, forall_mem_singleton, file]
    refine ⟨?_, put⟩
    intro r member f left
    obtain ⟨bytes, encoded, now⟩ := midway.put r member f left
    refine ⟨bytes, encoded, ?_⟩
    rw [stays _ (by simp [now]), now]
    exact left_apart cautious (midway.eligible r member) eligible (pending r member) f left
  · rw [forall_mem_append, forall_mem_singleton, file]
    refine ⟨?_, ?_⟩
    · intro r member b backup
      obtain ⟨⟨attempt, rfl⟩, absent, now⟩ := midway.copied r member b backup
      refine ⟨⟨attempt, rfl⟩, absent, ?_⟩
      rw [stays _ (before r member _ backup), now]
      intro f left
      exact (left_not_backup cautious eligible absent f left).symm
    · intro b backup
      obtain ⟨chosen, absent, now⟩ := copied b backup
      refine ⟨chosen, ?_, now.trans source⟩
      rw [← Option.not_isSome_iff_eq_none]
      intro there
      have after := midway.filled.isSome there
      rw [absent] at after
      cases after
  · intro l aside other
    rw [forall_mem_append, forall_mem_singleton, file] at aside
    rw [forall_mem_append, forall_mem_singleton] at other
    rw [kept l aside.2 other.2, midway.kept l aside.1 other.1]
  · rw [filterMap_append, map_append, nodup_append]
    refine ⟨midway.distinct, ?_, ?_⟩
    · cases backup : report.backup <;> simp [backup]
    · intro l earlier k last same
      obtain ⟨b, listed, rfl⟩ := mem_map.mp earlier
      obtain ⟨r, member, backup⟩ := mem_filterMap.mp listed
      obtain ⟨c, listed, rfl⟩ := mem_map.mp last
      obtain ⟨r', member', backup'⟩ := mem_filterMap.mp listed
      rw [mem_singleton.mp member'] at backup'
      apply before r member b backup
      rw [same]
      exact (copied c backup').2.1

end Midway

end Project

end ModuleSplit
