import ModuleSplit.Plan.Build
import ModuleSplit.Proofs.Result

namespace ModuleSplit

open List

def Patterns.bare : Patterns := ⟨[], none, none, []⟩

namespace Block

theorem category?_isSome {b : Block} {name : Option Text} {p : Patterns} {mode : DelimiterMode}
    {found : Option Category} (kind : b.kind ≠ .import_)
    (accepted : b.category? name p mode = .ok found) : ∃ c, found = some c := by
  unfold category? at accepted
  split at accepted
  · rename_i isImport
    exact absurd isImport kind
  · cases accepted
    exact ⟨_, rfl⟩
  · cases accepted
    exact ⟨_, rfl⟩
  · simp only [Result.bind_ok] at accepted
    obtain ⟨markup, _, accepted⟩ := accepted
    split at accepted
    · cases accepted
      exact ⟨_, rfl⟩
    · obtain ⟨c, _, same⟩ := Result.bind_ok.mp accepted
      cases same
      exact ⟨c, rfl⟩

end Block

theorem mapM_paired {p : Patterns} {mode : DelimiterMode} {name : Option Text} {blocks : List Block}
    {sorted : List (Block × Option Category)} (body : ∀ b ∈ blocks, b.kind ≠ .import_)
    (accepted : (blocks.mapM fun b => do return (b, ← b.category? name p mode)) = .ok sorted) :
    (sorted.filterMap fun (b, c) => c.map fun c => (b, c)).map (·.1) = blocks := by
  induction blocks generalizing sorted with
  | nil =>
    cases accepted
    rfl
  | cons b rest ih =>
    simp only [mapM_cons, Result.bind_ok, Result.pure_ok] at accepted
    obtain ⟨pair, ⟨found, category, rfl⟩, others, later, rfl⟩ := accepted
    obtain ⟨c, rfl⟩ := Block.category?_isSome (body b mem_cons_self) category
    have tail := ih (fun b member => body b (mem_cons_of_mem _ member)) later
    simpa using tail

theorem classify_blocks {p : Patterns} {mode : DelimiterMode} {name : Option Text}
    {blocks : List Block} {classified : List (Block × Category)} {missed : List Warning}
    (body : ∀ b ∈ blocks, b.kind ≠ .import_) (accepted : classify p mode name blocks = .ok (classified, missed)) :
    classified.map (·.1) = blocks := by
  unfold classify at accepted
  obtain ⟨sorted, paired, same⟩ := Result.bind_ok.mp accepted
  cases same
  exact mapM_paired body paired

def blocksOf (classified : List (Block × Category)) (c : Category) : List Block :=
  (classified.filter (·.2 = c)).map (·.1)

namespace Plan

variable {p : Patterns} {mode : DelimiterMode} {table : List Import}
  {classified : List (Block × Category)} {groups : List Group}

theorem makeGroup_blocks {c : Category} {blocks : List Block} {g : Group} (accepted : makeGroup p mode table c blocks = .ok g) :
    g.category = c ∧ g.blocks = blocks := by
  unfold makeGroup at accepted
  obtain ⟨markup, _, same⟩ := Result.bind_ok.mp accepted
  cases same
  exact ⟨rfl, rfl⟩

theorem filterMapM_groups {categories : List Category} (accepted : (categories.filterMapM fun category =>
      match (classified.filter (·.2 = category)).map (·.1) with
      | [] => (.ok none : Result (Option Group))
      | blocks => do return some (← makeGroup p mode table category blocks)) = .ok groups) :
    groups.map (fun g => (g.category, g.blocks)) = (categories.filter fun c => blocksOf classified c ≠ []).map
        fun c => (c, blocksOf classified c) := by
  induction categories generalizing groups with
  | nil =>
    cases accepted
    rfl
  | cons c rest ih =>
    rw [filterMapM_cons] at accepted
    obtain ⟨first, made, accepted⟩ := Result.bind_ok.mp accepted
    split at made
    · rename_i none
      cases made
      have empty : blocksOf classified c = [] := none
      rw [filter_cons_of_neg (by simp [empty])]
      exact ih accepted
    · rename_i some
      have full : blocksOf classified c ≠ [] := some
      obtain ⟨g, group, same⟩ := Result.bind_ok.mp made
      cases same
      obtain ⟨others, later, same⟩ := Result.bind_ok.mp accepted
      cases same
      obtain ⟨category, blocks⟩ := makeGroup_blocks group
      rw [filter_cons_of_pos (by simp [full]), map_cons, map_cons, ih later, category, blocks]
      rfl

theorem makeGroups_blocks
    (accepted : makeGroups p mode table classified = .ok groups) : groups.map (fun g => (g.category, g.blocks)) =
      (Category.all.filter fun c => blocksOf classified c ≠ []).map fun c => (c, blocksOf classified c) :=
  filterMapM_groups accepted

-- Each group imports what its text refers to; markup needs a name besides.
theorem makeGroups_imports (accepted : makeGroups p mode table classified = .ok groups) :
    ∀ g ∈ groups, ∃ markup, p.containsMarkup (codeText mode g.text) = .ok markup ∧
      g.imports = Import.select table g.text (if markup then markupNames else []) := by
  intro g member
  obtain ⟨c, _, made⟩ := filterMapM_ok accepted g member
  split at made
  · cases made
  · obtain ⟨g', group, same⟩ := Result.bind_ok.mp made
    cases same
    unfold makeGroup at group
    obtain ⟨markup, found, same⟩ := Result.bind_ok.mp group
    cases same
    exact ⟨markup, found, rfl⟩

def placements (p : Patterns) (mode : DelimiterMode) (source : Source) : List Placement :=
  (scan p mode source.lines).blocks.map (·.place)

structure Parts (source : Source) (p : Patterns) (mode : DelimiterMode) (plan : Plan)
    (classified : List (Block × Category)) : Prop where
  origin : plan.source = source
  sideEffects : plan.sideEffectImports = (placements p mode source).filterMap (·.sideEffect?)
  table : plan.importTable =
    Import.withoutRepeats ((placements p mode source).filterMap (·.binding?))
  reexports : plan.reexports = (placements p mode source).filterMap (·.reexport?)
  groups : plan.groups.map (fun g => (g.category, g.blocks)) =
    (Category.all.filter fun c => blocksOf classified c ≠ []).map
      fun c => (c, blocksOf classified c)
  imports : ∀ g ∈ plan.groups, ∃ markup, p.containsMarkup (codeText mode g.text) = .ok markup ∧
    g.imports = Import.select plan.importTable g.text (if markup then markupNames else [])
  defaultName : plan.defaultName = DefaultExport.name? p source.text
  aliases : ∀ entry ∈ plan.exportAliases, ∃ line,
    (entry, line) ∈ (placements p mode source).flatMap (·.aliasLines)
  classified : ∃ missed, classify p mode (DefaultExport.name? p source.text)
    ((placements p mode source).filterMap (·.body?)) = .ok (classified, missed)

theorem resolveAlias_kept {declared imported : List Text} {entries : List (Specifier × Nat)} {kept : Specifier}
    (member : kept ∈ (entries.map fun (entry, line) =>
      resolveAlias declared imported entry line).filterMap fun outcome => match outcome with
        | .kept entry => some entry
        | _ => none) : ∃ line, (kept, line) ∈ entries := by
  obtain ⟨outcome, resolved, same⟩ := mem_filterMap.mp member
  obtain ⟨⟨entry, line⟩, listed, rfl⟩ := mem_map.mp resolved
  dsimp only at same
  unfold resolveAlias at same
  split at same
  · rename_i found
    split at found
    · cases found
    · split at found
      · cases found
        cases same
        exact ⟨line, listed⟩
      · cases found
  · cases same

theorem build_parts {source : Source} {plan : Plan}
    (built : build source p mode = .ok plan) : ∃ classified, Parts source p mode plan classified := by
  unfold build at built
  obtain ⟨⟨classified, missed⟩, sorted, built⟩ := Result.bind_ok.mp built
  obtain ⟨groups, made, same⟩ := Result.bind_ok.mp built
  cases same
  exact ⟨classified, rfl, rfl, rfl, rfl, makeGroups_blocks made, makeGroups_imports made, rfl,
    fun _ member => resolveAlias_kept member, missed, sorted⟩

end Plan

end ModuleSplit
