import ModuleSplit.Proofs.Block.Closing
import ModuleSplit.Proofs.Plan.Groups

namespace ModuleSplit

open List Text Phrase

namespace Block

variable {b c : Block}

theorem body?_cases (kept : b.place.body? = some c) : (b.kind = .import_ ∧ c = b.asStatement) ∨ (b.kind ≠ .import_ ∧ c = b) := by
  unfold place at kept
  split at kept
  · rename_i kind
    refine .inl ⟨kind, ?_⟩
    unfold placeImport at kept
    split at kept
    · split at kept <;> cases kept
    · split at kept
      · cases kept
      · exact (Option.some.inj kept).symm
  · rename_i kind
    refine .inr ⟨kind, ?_⟩
    split at kept
    · cases kept
    · exact (Option.some.inj kept).symm

theorem body?_extent (kept : b.place.body? = some c) : c.start = b.start ∧ c.stop = b.stop ∧ c.text = b.text := by
  obtain ⟨_, rfl⟩ | ⟨_, rfl⟩ := body?_cases kept
  · exact ⟨rfl, rfl, rfl⟩
  · exact ⟨rfl, rfl, rfl⟩

theorem body?_kind (kept : b.place.body? = some c) : c.kind ≠ .import_ := by
  obtain ⟨_, rfl⟩ | ⟨kind, rfl⟩ := body?_cases kept
  · simp [asStatement]
  · exact kind

end Block

theorem ordered_filter_start {blocks : List Block} (ordered : blocks.Pairwise fun a b => a.stop ≤ b.start)
    (extent : ∀ b ∈ blocks, b.start < b.stop) {b : Block} (member : b ∈ blocks) : blocks.filter (·.start = b.start) = [b] := by
  induction ordered with
  | nil => cases member
  | @cons first rest above _ ih =>
    have shape := extent first mem_cons_self
    rcases mem_cons.mp member with rfl | later
    · rw [filter_cons_of_pos (by simp), filter_eq_nil_iff.mpr]
      intro c behind
      have := above c behind
      simp only [decide_eq_true_eq]
      omega
    · have := above b later
      rw [filter_cons_of_neg (by simp only [decide_eq_true_eq]; omega)]
      exact ih (fun c behind => extent c (mem_cons_of_mem _ behind)) later

namespace Plan

def blocksAt (plan : Plan) (start : Nat) : List Block :=
  (plan.groups.flatMap (·.blocks)).filter (·.start = start)

theorem flatMap_nonempty {α β : Type} (f : α → List β) [DecidableEq β] (l : List α) :
    (l.filter fun a => f a ≠ []).flatMap f = l.flatMap f := by
  induction l with
  | nil => rfl
  | cons a rest ih =>
    by_cases empty : f a = []
    · rw [filter_cons_of_neg (by simp [empty]), ih, flatMap_cons, empty, nil_append]
    · rw [filter_cons_of_pos (by simp [empty]), flatMap_cons, flatMap_cons, ih]

-- A block is classified once, so that it is in one of the categories once.
theorem flatMap_blocksOf_singleton (b : Block) (c : Category) : Category.all.flatMap (blocksOf [(b, c)]) = [b] := by
  cases c <;> rfl

namespace Parts

variable {source : Source} {p : Patterns} {mode : DelimiterMode} {plan : Plan} {g : Group}
  {classified : List (Block × Category)}

def bodyBlocks (p : Patterns) (mode : DelimiterMode) (source : Source) : List Block :=
  (scan p mode source.lines).blocks.filterMap (·.place.body?)

theorem classified_blocks (parts : Parts source p mode plan classified) : classified.map (·.1) = bodyBlocks p mode source := by
  obtain ⟨missed, sorted⟩ := parts.classified
  have body : (placements p mode source).filterMap (·.body?) = bodyBlocks p mode source := by
    rw [placements, filterMap_map]
    rfl
  rw [body] at sorted
  refine classify_blocks ?_ sorted
  intro c member
  obtain ⟨b, _, kept⟩ := mem_filterMap.mp member
  exact Block.body?_kind kept

theorem flatMap_groups (parts : Parts source p mode plan classified) :
    plan.groups.flatMap (·.blocks) = Category.all.flatMap (blocksOf classified) := by
  have flat := congrArg (List.flatMap (·.2)) parts.groups
  simp only [flatMap_map] at flat
  rw [flat]
  exact flatMap_nonempty (blocksOf classified) Category.all

theorem blocksAt_eq (parts : Parts source p mode plan classified) (start : Nat) : plan.blocksAt start =
      Category.all.flatMap (blocksOf (classified.filter fun entry => entry.1.start = start)) := by
  unfold blocksAt
  rw [parts.flatMap_groups, filter_flatMap]
  congr 1
  funext c
  simp only [blocksOf, filter_map, filter_filter, Function.comp_def, Bool.and_comm]

theorem body_at (b : Block) (member : b ∈ (scan p mode source.lines).blocks) :
    (bodyBlocks p mode source).filter (·.start = b.start) = b.place.body?.toList := by
  have single := ordered_filter_start (scan_blocks_ordered p mode source.lines)
    (fun c found => (scan_block_extent found).1) member
  have commute : (bodyBlocks p mode source).filter (·.start = b.start) =
      ((scan p mode source.lines).blocks.filter (·.start = b.start)).filterMap (·.place.body?) := by
    unfold bodyBlocks
    rw [filter_filterMap, filterMap_filter]
    congr 1
    funext first
    cases kept : first.place.body? with
    | none => simp
    | some c => simp [Option.filter, (Block.body?_extent kept).1]
  rw [commute, single]
  cases kept : b.place.body? with
  | none => exact filterMap_cons_none (f := fun c : Block => c.place.body?) kept
  | some c => exact filterMap_cons_some (f := fun c : Block => c.place.body?) kept

theorem blocksAt_block (parts : Parts source p mode plan classified) {b : Block}
    (member : b ∈ (scan p mode source.lines).blocks) : plan.blocksAt b.start = b.place.body?.toList := by
  have firsts : (classified.filter fun entry => entry.1.start = b.start).map (·.1) = b.place.body?.toList := by
    rw [← body_at b member, ← parts.classified_blocks, filter_map]
    rfl
  rw [parts.blocksAt_eq]
  cases kept : b.place.body? with
  | none =>
    rw [kept] at firsts
    rw [map_eq_nil_iff.mp firsts]
    rfl
  | some c =>
    rw [kept] at firsts
    obtain ⟨entry, same, rfl⟩ := map_eq_singleton_iff.mp firsts
    rw [same]
    exact flatMap_blocksOf_singleton entry.1 entry.2

theorem mem_groups (parts : Parts source p mode plan classified) (member : g ∈ plan.groups) :
    g.category ∈ Category.all ∧ g.blocks = blocksOf classified g.category ∧ g.blocks ≠ [] := by
  have listed : (g.category, g.blocks) ∈ plan.groups.map fun g => (g.category, g.blocks) := mem_map_of_mem member
  rw [parts.groups] at listed
  obtain ⟨c, chosen, same⟩ := mem_map.mp listed
  obtain ⟨isCategory, full⟩ := mem_filter.mp chosen
  obtain ⟨rfl, blocks⟩ := Prod.mk.inj same
  exact ⟨isCategory, blocks.symm, by rw [← blocks]; simpa using full⟩

theorem categories_sublist (parts : Parts source p mode plan classified) : plan.categories.Sublist Category.all := by
  have firsts := congrArg (List.map (·.1)) parts.groups
  simp only [map_map, Function.comp_def, map_id_fun'] at firsts
  rw [categories, firsts]
  exact filter_sublist

theorem group_sublist (parts : Parts source p mode plan classified)
    (member : g ∈ plan.groups) : g.blocks.Sublist (bodyBlocks p mode source) := by
  rw [(parts.mem_groups member).2.1, ← parts.classified_blocks]
  exact filter_sublist.map _

theorem group_ordered (parts : Parts source p mode plan classified)
    (member : g ∈ plan.groups) : g.blocks.Pairwise fun a b => a.stop ≤ b.start := by
  refine List.Pairwise.sublist (parts.group_sublist member) ?_
  refine List.Pairwise.filterMap _ ?_ (scan_blocks_ordered p mode source.lines)
  intro a b ordered c left d right
  obtain ⟨_, stop, _⟩ := Block.body?_extent left
  obtain ⟨start, _, _⟩ := Block.body?_extent right
  rw [stop, start]
  exact ordered

theorem group_origin (parts : Parts source p mode plan classified)
    (member : g ∈ plan.groups) {c : Block} (inside : c ∈ g.blocks) :
    ∃ b ∈ (scan p mode source.lines).blocks, b.place.body? = some c := by
  have kept := (parts.group_sublist member).subset inside
  exact mem_filterMap.mp kept

end Parts

end Plan

namespace Import

theorem withoutRepeats_subset {imports : List Import} {i : Import} (member : i ∈ withoutRepeats imports) : i ∈ imports := by
  induction imports with
  | nil => cases member
  | cons first rest ih =>
    rcases mem_cons.mp member with rfl | later
    · exact mem_cons_self
    · exact mem_cons_of_mem _ (ih (mem_filter.mp later).1)

theorem withoutRepeats_distinct (imports : List Import) :
    (withoutRepeats imports).Pairwise fun i j => i.toImportContent ≠ j.toImportContent := by
  induction imports with
  | nil => exact .nil
  | cons first rest ih =>
    refine .cons ?_ (ih.sublist filter_sublist)
    intro j later
    have different := (mem_filter.mp later).2
    exact Ne.symm (by simpa using different)

theorem withoutRepeats_represents {imports : List Import} {i : Import} (member : i ∈ imports) :
    ∃ j ∈ withoutRepeats imports, j.toImportContent = i.toImportContent := by
  induction imports with
  | nil => cases member
  | cons first rest ih =>
    by_cases same : first.toImportContent = i.toImportContent
    · exact ⟨first, mem_cons_self, same⟩
    · rcases mem_cons.mp member with rfl | later
      · exact absurd rfl same
      · obtain ⟨j, kept, equal⟩ := ih later
        refine ⟨j, mem_cons_of_mem _ (mem_filter.mpr ⟨kept, ?_⟩), equal⟩
        rw [equal]
        simpa using Ne.symm same

end Import

end ModuleSplit
