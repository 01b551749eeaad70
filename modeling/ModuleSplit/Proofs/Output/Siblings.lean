import ModuleSplit.Output.Synthesis
import ModuleSplit.Proofs.Import.Renaming

-- The import statements between the files of one source. Each is written for an import, and it is
-- read again as that import.

namespace ModuleSplit

open List Text Option

@[simp, grind =] theorem mem_distinct {α : Type} [DecidableEq α] {l : List α} {a : α} : a ∈ distinct l ↔ a ∈ l := by
  induction l with
  | nil => rfl
  | cons b rest ih =>
    rw [distinct, mem_cons, mem_cons, mem_filter, ih]
    by_cases same : a = b <;> simp [same]

theorem nodup_distinct {α : Type} [DecidableEq α] (l : List α) : (distinct l).Nodup := by
  induction l with
  | nil => exact .nil
  | cons b rest ih =>
    rw [distinct, nodup_cons]
    exact ⟨by simp, ih.filter _⟩

namespace Style

variable {s : Style} {source : Text} {default? : Option Text} {names : List Text}

def statement (s : Style) (source : Text) (default? : Option Text) (names : List Text) : Import where
  source := source
  specifiers := names.map fun n => ⟨n, n, false⟩
  defaultName := default?
  raw := s.importLine source default? names
  quote := s.quote
  semicolon := s.semicolons

@[simp] theorem statement_names : (s.statement source default? names).names = default?.toList ++ names := by
  simp [statement, ImportContent.names, Function.comp_def]

theorem statement_clause : (s.statement source default? names).clause =
    joinWith ", " (default?.toList ++ if names.isEmpty then [] else [braced (joinWith ", " names)]) := by
  have entries : (names.map fun n => (⟨n, n, false⟩ : Specifier)).map (·.render) = names := by
    simp [Specifier.render, Function.comp_def]
  unfold statement ImportContent.clause
  rw [entries, isEmpty_map, Option.map_none, toList_none, append_nil]
  rfl

theorem statement_render : (s.statement source default? names).raw = (s.statement source default? names).render := by
  by_cases nothing : default?.toList ++ names = []
  · obtain ⟨none, empty⟩ := append_eq_nil_iff.mp nothing
    rw [toList_eq_nil_iff.mp none, empty]
    rfl
  · have binding : (s.statement source default? names).isSideEffect = false := by
      rw [ImportContent.isSideEffect, statement_names]
      exact Bool.eq_false_iff.mpr fun empty => nothing (isEmpty_iff.mp empty)
    have parts : (default?.toList ++ if names.isEmpty then [] else [braced (joinWith ", " names)]).isEmpty = false := by
      refine Bool.eq_false_iff.mpr fun empty => nothing ?_
      obtain ⟨none, empty⟩ := append_eq_nil_iff.mp (isEmpty_iff.mp empty)
      rw [none, nil_append]
      split at empty
      · exact isEmpty_iff.mp (by assumption)
      · cases empty
    show importLine s source default? names = _
    unfold importLine Import.render
    dsimp only
    rw [binding, parts, statement_clause]
    simp only [Bool.false_eq_true, if_false, fromModule, moduleText, ending, append_assoc]
    rfl

theorem statement_read (isQuote : IsQuote s.quote) (legible : ModuleName.Legible source)
    (default : ∀ n, default? = some n → IsName n) (named : ∀ n ∈ names, IsName n) :
    Import.read? (s.statement source default? names).raw = some (s.statement source default? names) := by
  have written : (s.statement source default? names).raw = (s.statement source default? names).render := statement_render
  by_cases none : (s.statement source default? names).names = []
  · rw [written, Import.read?_render_bare none rfl isQuote legible, ← written]
  · have wellNamed : (s.statement source default? names).WellNamed := by
      refine ⟨?_, ?_⟩
      · rw [statement_names]
        exact forall_mem_append.mpr ⟨fun n member => default n (mem_toList.mp member), named⟩
      · simpa [statement] using named
    have binding : (s.statement source default? names).isSideEffect = false :=
      Bool.eq_false_iff.mpr fun unbound => none (isEmpty_iff.mp unbound)
    rw [written, Import.read?_render wellNamed binding isQuote legible, ← written]

end Style

namespace Layout

variable {l : Layout} {c : Category}

theorem categoryModule_eq (l : Layout) (c : Category) :
    l.categoryModule c = ("./".toList ++ l.baseName) ++ '-' :: c.text := by
  simp [categoryModule, categoryStem]

theorem categoryModule_injective (l : Layout) {c d : Category} (same : l.categoryModule c = l.categoryModule d) : c = d := by
  rw [categoryModule_eq, categoryModule_eq] at same
  have texts := (cons.inj (append_cancel_left same)).2
  revert texts
  cases c <;> cases d <;> decide

-- The file name of the source can stand in the quotes of an import, and so can those of its parts.
theorem categoryModule_legible : ModuleName.Legible (l.categoryModule c) ↔ ModuleName.Legible ("./".toList ++ l.baseName) := by
  have slash : '/' ∉ c.text := by cases c <;> decide
  have plain := visible_of_all (t := '-' :: c.text) (by cases c <;> decide)
  have quotes : QuoteFree ('-' :: c.text) := fun d inside => (plain d inside).1
  have visible : ∀ d ∈ '-' :: c.text, isBlank d = false := fun d inside => (plain d inside).2.1
  obtain ⟨block, _, ends, line⟩ := no_comment slash
  have blocks : HasBlockComment (l.categoryModule c) ↔ HasBlockComment ("./".toList ++ l.baseName) := by
    rw [categoryModule_eq, hasBlockComment_parted (by decide) (by decide)]
    simp [block, ends]
  have lines : HasLineComment false (l.categoryModule c) ↔ HasLineComment false ("./".toList ++ l.baseName) := by
    rw [categoryModule_eq, hasLineComment_parted (by decide) rfl]
    simp [line false]
  have single : Single true (l.categoryModule c) ↔ Single true ("./".toList ++ l.baseName) := by
    rw [categoryModule_eq, single_append]
    exact and_iff_left (single_visible visible _)
  have inner : QuoteFree (l.categoryModule c) ↔ QuoteFree ("./".toList ++ l.baseName) := by
    rw [categoryModule_eq]
    exact ⟨fun free => free.subset (subset_append_left _ _), fun free => free.append quotes⟩
  constructor
  · rintro ⟨_, free, noBlock, noLine, one⟩
    exact ⟨by simp, inner.mp free, blocks.not.mp noBlock, lines.not.mp noLine, single.mp one⟩
  · rintro ⟨_, free, noBlock, noLine, one⟩
    exact ⟨by simp [categoryModule_eq], inner.mpr free, blocks.not.mpr noBlock, lines.not.mpr noLine, single.mpr one⟩

end Layout

namespace Plan

variable {d other : Draft} {p plan : Plan} {l : Layout} {seen : List Text} {n : Text}

def siblings (p : Plan) (l : Layout) (d : Draft) (seen : List Text) : List Draft → List Import
  | [] => []
  | other :: rest =>
    if other.category = d.category then p.siblings l d seen rest
    else
      let (default?, names) := p.taken d other seen
      let later := p.siblings l d (seen ++ names ++ default?.toList) rest
      if default?.isNone ∧ names = [] ∧ d.category ≠ .main then later
      else p.style.statement (l.categoryModule other.category) default? names :: later

theorem siblingImports_eq (p : Plan) (l : Layout) (d : Draft) (seen : List Text) (drafts : List Draft) :
    p.siblingImports l d seen drafts = (p.siblings l d seen drafts).map (·.raw) := by
  induction drafts generalizing seen with
  | nil => rfl
  | cons other rest ih =>
    unfold siblingImports siblings
    dsimp only
    split
    · exact ih seen
    · split
      · exact ih _
      · rw [map_cons, ih]
        rfl

def Offers (p : Plan) (other : Draft) (n : Text) : Prop :=
  n ∈ other.named ∨ (other.holdsDefault = true ∧ p.defaultName = some n)

def takenNames (p : Plan) (d other : Draft) (seen : List Text) : List Text :=
  (p.taken d other seen).1.toList ++ (p.taken d other seen).2

@[simp, grind =] theorem mem_taken_names : n ∈ (p.taken d other seen).2 ↔ n ∈ other.named ∧ n ∉ seen ∧ references n d.body = true := by
  simp [taken]

theorem mem_taken_default : n ∈ (p.taken d other seen).1.toList ↔ p.defaultName = some n ∧ other.holdsDefault = true ∧
      n ∉ seen ∧ n ∉ (p.taken d other seen).2 ∧ references n d.body = true := by
  have defaults : (p.taken d other seen).1 = p.defaultName.filter fun n => other.holdsDefault &&
      !(seen ++ (p.taken d other seen).2).contains n && references n d.body := rfl
  rw [mem_toList, defaults, filter_eq_some_iff]
  simp only [Bool.and_eq_true, Bool.not_eq_true', contains_eq_mem, decide_eq_false_iff_not, mem_append, not_or, and_assoc]

theorem takenNames_nodup (p : Plan) (d other : Draft) (seen : List Text) : (p.takenNames d other seen).Nodup := by
  unfold takenNames
  rw [nodup_append]
  refine ⟨?_, (nodup_distinct _).filter _, ?_⟩
  · cases (p.taken d other seen).1 <;> simp
  · rintro n default m named rfl
    exact (mem_taken_default.mp default).2.2.2.1 named

@[grind =] theorem mem_takenNames : n ∈ p.takenNames d other seen ↔ n ∉ seen ∧ references n d.body = true ∧ p.Offers other n := by
  unfold takenNames Offers
  rw [mem_append, mem_taken_default, mem_taken_names]
  constructor
  · rintro (⟨default, held, fresh, _, refers⟩ | ⟨listed, fresh, refers⟩)
    · exact ⟨fresh, refers, .inr ⟨held, default⟩⟩
    · exact ⟨fresh, refers, .inl listed⟩
  · rintro ⟨fresh, refers, offered⟩
    by_cases listed : n ∈ other.named
    · exact .inr ⟨listed, fresh, refers⟩
    · obtain ⟨held, default⟩ := offered.resolve_left listed
      exact .inl ⟨default, held, fresh, fun taken => listed taken.1, refers⟩

theorem siblings_cons_names (p : Plan) (l : Layout) (d other : Draft) (seen : List Text) (rest : List Draft)
    (another : other.category ≠ d.category) : ∃ later, (∀ n, n ∈ later ↔ n ∈ seen ∨ n ∈ p.takenNames d other seen) ∧
      (p.siblings l d seen (other :: rest)).flatMap (·.names) =
        p.takenNames d other seen ++ (p.siblings l d later rest).flatMap (·.names) := by
  refine ⟨seen ++ (p.taken d other seen).2 ++ (p.taken d other seen).1.toList, fun n => ?_, ?_⟩
  · rw [takenNames, append_assoc, mem_append, mem_append, mem_append]
    exact or_congr_right Or.comm
  · rw [siblings, if_neg another]
    unfold takenNames
    dsimp only
    split
    · rename_i nothing
      rw [isNone_iff_eq_none.mp nothing.1, nothing.2.1]
      rfl
    · rw [flatMap_cons, Style.statement_names]

theorem siblings_names (p : Plan) (l : Layout) (d : Draft) (seen : List Text) (drafts : List Draft) :
    ((p.siblings l d seen drafts).flatMap (·.names)).Nodup ∧ ∀ n, n ∈ (p.siblings l d seen drafts).flatMap (·.names) ↔
        n ∉ seen ∧ references n d.body = true ∧ ∃ other ∈ drafts, other.category ≠ d.category ∧ p.Offers other n := by
  induction drafts generalizing seen with
  | nil => simp [siblings]
  | cons other rest ih =>
    by_cases same : other.category = d.category
    · rw [siblings, if_pos same]
      refine ⟨(ih seen).1, fun n => ((ih seen).2 n).trans ?_⟩
      simp [same]
    · obtain ⟨later, known, names⟩ := siblings_cons_names p l d other seen rest same
      rw [names]
      obtain ⟨single, bound⟩ := ih later
      constructor
      · rw [nodup_append]
        refine ⟨takenNames_nodup p d other seen, single, ?_⟩
        rintro n here m behind rfl
        exact ((bound n).mp behind).1 ((known n).mpr (.inr here))
      · intro n
        rw [mem_append, bound n, known n, not_or, mem_takenNames]
        constructor
        · rintro (⟨fresh, refers, offered⟩ | ⟨⟨fresh, _⟩, refers, further, member, offered⟩)
          · exact ⟨fresh, refers, other, mem_cons_self, same, offered⟩
          · exact ⟨fresh, refers, further, mem_cons_of_mem _ member, offered⟩
        · rintro ⟨fresh, refers, further, member, another, offered⟩
          by_cases here : p.Offers other n
          · exact .inl ⟨fresh, refers, here⟩
          · rcases mem_cons.mp member with rfl | behind
            · exact absurd offered here
            · exact .inr ⟨⟨fresh, fun taken => here taken.2.2⟩, refers, further, behind, another, offered⟩

-- The statement takes from the file of another category what that file exports, by name or as the
-- default. Only the main file has statements that take nothing.
structure FromSibling (plan : Plan) (l : Layout) (d : Draft) (other : Group) (i : Import) : Prop where
  listed : other ∈ plan.groups
  another : other.category ≠ d.category
  source : i.source = l.categoryModule other.category
  named : ∀ s ∈ i.specifiers, s.name = s.asName ∧ s.name ∈ (Draft.mk other).named
  default : ∀ n, i.defaultName = some n →
    (Draft.mk other).holdsDefault = true ∧ plan.defaultName = some n
  whole : i.namespaceName = none
  binding : d.category ≠ .main → i.names ≠ []
  written : i.raw = i.render

theorem siblings_from {groups : List Group} (listed : ∀ g ∈ groups, g ∈ p.groups) :
    ∀ i ∈ p.siblings l d seen (groups.map Draft.mk), ∃ other default? names, p.FromSibling l d other i ∧
      i = p.style.statement (l.categoryModule other.category) default? names := by
  induction groups generalizing seen with
  | nil => simp [siblings]
  | cons other rest ih =>
    rw [forall_mem_cons] at listed
    rw [map_cons, siblings]
    split
    · exact ih listed.2
    · rename_i another
      dsimp only
      split
      · exact ih listed.2
      · rename_i something
        rw [forall_mem_cons]
        refine ⟨⟨other, _, _, ⟨listed.1, another, rfl, ?_, ?_, rfl, ?_, Style.statement_render⟩, rfl⟩, ih listed.2⟩
        · simp only [Style.statement, List.forall_mem_map]
          exact fun n taken => ⟨trivial, (mem_taken_names.mp taken).1⟩
        · intro n same
          have taken := mem_taken_default.mp (mem_toList.mpr same)
          exact ⟨taken.2.1, taken.1⟩
        · intro ordinary nothing
          rw [Style.statement_names, append_eq_nil_iff, toList_eq_nil_iff] at nothing
          exact something ⟨isNone_iff_eq_none.mpr nothing.1, nothing.2, ordinary⟩

theorem siblings_main (main : d.category = .main) (seen : List Text) (drafts : List Draft) :
    (p.siblings l d seen drafts).map (·.source) =
      (drafts.filter (·.category ≠ .main)).map fun other => l.categoryModule other.category := by
  induction drafts generalizing seen with
  | nil => rfl
  | cons other rest ih =>
    rw [siblings]
    split
    · rename_i same
      rw [filter_cons_of_neg (by simp [same, main]), ih]
    · rename_i another
      rw [main] at another
      dsimp only
      rw [if_neg (by simp [main]), map_cons, ih, filter_cons_of_pos (by simpa using another), map_cons]
      rfl

end Plan

end ModuleSplit
