import ModuleSplit.Proofs.Output.Exports

-- One name has one supplier exactly when all its declarations are classified alike.

namespace ModuleSplit

open List Text

def Block.Supplies (b : Block) (n : Text) : Prop :=
  b.isDefaultStatement = false ∧ b.kind.isDeclaration = true ∧ n ∈ b.names

instance (b : Block) (n : Text) : Decidable (b.Supplies n) :=
  inferInstanceAs (Decidable (_ ∧ _ ∧ _))

theorem Block.body?_declaration {b : Block} (declares : b.kind.isDeclaration = true) : b.place.body? = some b := by
  have notImport : b.kind ≠ .import_ := by
    intro kind
    rw [kind] at declares
    cases declares
  have noList : b.exportAliases? = none := by
    refine if_neg fun list => ?_
    rw [list.1] at declares
    cases declares
  rw [place, if_neg notImport, noList]
  rfl

theorem classify_category {p : Patterns} {mode : DelimiterMode} {name : Option Text}
    {blocks : List Block} {classified : List (Block × Category)} {missed : List Warning}
    (accepted : classify p mode name blocks = .ok (classified, missed)) {b : Block} {c : Category}
    (member : (b, c) ∈ classified) : b.category? name p mode = .ok (some c) := by
  unfold classify at accepted
  obtain ⟨sorted, paired, same⟩ := Result.bind_ok.mp accepted
  cases same
  obtain ⟨⟨b', found⟩, listed, kept⟩ := mem_filterMap.mp member
  obtain ⟨c', rfl, same⟩ := Option.map_eq_some_iff.mp kept
  cases same
  clear member kept accepted
  induction blocks generalizing sorted with
  | nil =>
    cases paired
    cases listed
  | cons first rest ih =>
    simp only [mapM_cons, Result.bind_ok, Result.pure_ok] at paired
    obtain ⟨pair, ⟨found, category, rfl⟩, others, later, rfl⟩ := paired
    rcases mem_cons.mp listed with same | behind
    · cases same
      exact category
    · exact ih others later behind

theorem nodup_length_eq_one {α : Type} {l : List α} (nodup : l.Nodup) {a : α} (member : a ∈ l) :
    l.length = 1 ↔ ∀ x ∈ l, x = a := by
  constructor
  · intro one x other
    obtain ⟨y, rfl⟩ := length_eq_one_iff.mp one
    rw [mem_singleton.mp other, mem_singleton.mp member]
  · intro same
    have single : l.Perm [a] := by
      refine (perm_ext_iff_of_nodup nodup (nodup_singleton a)).mpr fun x => ?_
      rw [mem_singleton]
      exact ⟨same x, fun equal => equal ▸ member⟩
    exact single.length_eq

namespace Plan

def starLines (plan : Plan) (output : OutputMode) : List Text :=
  (exportOrder (plan.groups.map Draft.mk)).map fun c =>
    forwardAll plan.style ((Layout.mk plan.source.path output).categoryModule c)

-- The text that exports all that a module exports.
def starText (plan : Plan) (module : Text) : Text :=
  "export * from ".toList ++ plan.quote :: (module ++ plan.quote :: if plan.semicolons then [';'] else [])

theorem forwardAll_eq (plan : Plan) (module : Text) : forwardAll plan.style module = plan.starText module := by
  show "export * from ".toList ++ ((plan.quote :: module ++ [plan.quote]) ++ plan.style.ending) = _
  rw [append_assoc]
  rfl

theorem starText_inj {plan : Plan} {l : Layout} {c d : Category} (same : plan.starText (l.categoryModule c) = plan.starText (l.categoryModule d)) :
    c = d :=
  l.categoryModule_injective (append_cancel_right (List.cons.inj (append_cancel_left same)).2)

def suppliers (plan : Plan) (n : Text) : List Category :=
  (plan.groups.filter fun g => n ∈ (Draft.mk g).named).map (·.category)

structure SuppliedOnce (plan : Plan) (output : OutputMode) (n : Text) : Prop where
  listed : ((plan.synthesize output).namedExports.filter fun entry => n ∈ entry.2).length = 1
  forwarded : ((plan.starLines output).filter fun line => ∃ c ∈ plan.suppliers n,
    line = plan.starText ((Layout.mk plan.source.path output).categoryModule c)).length = 1

instance (plan : Plan) (output : OutputMode) (n : Text) : Decidable (plan.SuppliedOnce output n) :=
  decidable_of_iff (_ = 1 ∧ _ = 1)
    ⟨fun both => ⟨both.1, both.2⟩, fun once => ⟨once.listed, once.forwarded⟩⟩

variable {source : Source} {p : Patterns} {mode : DelimiterMode} {plan : Plan}
  {classified : List (Block × Category)} {n : Text}

theorem mem_suppliers {c : Category} : c ∈ plan.suppliers n ↔ ∃ g ∈ plan.groups, n ∈ (Draft.mk g).named ∧ g.category = c := by
  simp [suppliers, and_assoc]

namespace Parts

theorem categories_nodup (parts : Parts source p mode plan classified) : plan.categories.Nodup :=
  parts.categories_sublist.nodup (by decide)

theorem suppliers_nodup (parts : Parts source p mode plan classified) : (plan.suppliers n).Nodup :=
  parts.categories_nodup.sublist (filter_sublist.map _)

theorem category_classified (parts : Parts source p mode plan classified) {b : Block} {c : Category}
    (member : (b, c) ∈ classified) : b.category? plan.defaultName p mode = .ok (some c) := by
  obtain ⟨missed, accepted⟩ := parts.classified
  rw [parts.defaultName]
  exact classify_category accepted member

theorem declaration_grouped (parts : Parts source p mode plan classified) {b : Block}
    (scanned : b ∈ (scan p mode source.lines).blocks) (declares : b.kind.isDeclaration = true) :
    ∃ g ∈ plan.groups, b ∈ g.blocks ∧ b.category? plan.defaultName p mode = .ok (some g.category) := by
  have body : b ∈ classified.map (·.1) := by
    rw [parts.classified_blocks]
    exact mem_filterMap.mpr ⟨b, scanned, Block.body?_declaration declares⟩
  obtain ⟨⟨b, c⟩, member, rfl⟩ := mem_map.mp body
  have inside : b ∈ blocksOf classified c := mem_map.mpr ⟨(b, c), mem_filter.mpr ⟨member, decide_eq_true rfl⟩, rfl⟩
  have listed : (c, blocksOf classified c) ∈ plan.groups.map fun g => (g.category, g.blocks) := by
    rw [parts.groups]
    refine mem_map.mpr ⟨c, mem_filter.mpr ⟨by cases c <;> decide, ?_⟩, rfl⟩
    exact decide_eq_true (ne_nil_of_mem inside)
  obtain ⟨g, grouped, same⟩ := mem_map.mp listed
  obtain ⟨rfl, blocks⟩ := Prod.mk.inj same
  exact ⟨g, grouped, blocks ▸ inside, parts.category_classified member⟩

theorem mem_suppliers_iff (parts : Parts source p mode plan classified) {c : Category} :
    c ∈ plan.suppliers n ↔ ∃ b ∈ (scan p mode source.lines).blocks, b.Supplies n ∧
      b.category? plan.defaultName p mode = .ok (some c) := by
  rw [mem_suppliers]
  constructor
  · rintro ⟨g, member, named, rfl⟩
    obtain ⟨b, inside, supplies⟩ := mem_named.mp named
    have scanned := (parts.group_declares member inside (ne_nil_of_mem supplies.2.2)).1
    refine ⟨b, scanned, supplies, ?_⟩
    rw [(parts.mem_groups member).2.1] at inside
    obtain ⟨⟨_, c⟩, chosen, rfl⟩ := mem_map.mp inside
    obtain ⟨entry, category⟩ := mem_filter.mp chosen
    rw [← of_decide_eq_true category]
    exact parts.category_classified entry
  · rintro ⟨b, scanned, supplies, category⟩
    obtain ⟨g, member, inside, found⟩ := parts.declaration_grouped scanned supplies.2.1
    rw [category] at found
    cases found
    exact ⟨g, member, mem_named.mpr ⟨b, inside, supplies⟩, rfl⟩

theorem exportOrder_perm (parts : Parts source p mode plan classified) :
    (exportOrder (plan.groups.map Draft.mk)).Perm plan.categories := by
  have same : (plan.groups.map Draft.mk).map (·.category) = plan.categories := by
    rw [map_map]
    rfl
  have main : (mainDraft? (plan.groups.map Draft.mk)).toList.map (·.category) = plan.categories.filter (· = .main) := by
    cases found : mainDraft? (plan.groups.map Draft.mk) with
    | none =>
      refine (filter_eq_nil_iff.mpr fun c listed => ?_).symm
      obtain ⟨d, member, rfl⟩ := mem_map.mp (same ▸ listed)
      exact find?_eq_none.mp found d member
    | some d =>
      have isMain : d.category = .main := of_decide_eq_true (find?_some (p := fun d : Draft => decide (d.category = .main)) found)
      have listed : .main ∈ plan.categories := by
        rw [← same, ← isMain]
        exact mem_map_of_mem (mem_of_find?_eq_some found)
      rw [filter_eq, count_eq_one_of_mem parts.categories_nodup listed]
      exact congrArg (fun c => [c]) isMain
  rw [exportOrder, same, main]
  refine perm_append_comm.trans ?_
  simpa only [ne_eq, decide_not] using filter_append_perm (· = .main) plan.categories

end Parts

theorem namedExports_eq (plan : Plan) (output : OutputMode) : (plan.synthesize output).namedExports = plan.groups.map fun g =>
      ((Layout.mk plan.source.path output).categoryPath g.category, (Draft.mk g).named) := by
  unfold synthesize
  split
  · rename_i empty
    have none : plan.groups = [] := by simpa [isEmpty] using empty
    simp [none]
  · simp [Draft.category]

theorem length_listed (plan : Plan) (output : OutputMode) (n : Text) :
    ((plan.synthesize output).namedExports.filter fun entry => n ∈ entry.2).length = (plan.suppliers n).length := by
  rw [namedExports_eq, filter_map, length_map, suppliers, length_map]
  rfl

theorem Parts.length_forwarded (parts : Parts source p mode plan classified) (output : OutputMode) :
    ((plan.starLines output).filter fun line => ∃ c ∈ plan.suppliers n,
      line = plan.starText ((Layout.mk plan.source.path output).categoryModule c)).length = (plan.suppliers n).length := by
  have kept : (plan.categories.filter fun c => c ∈ plan.suppliers n).Perm (plan.suppliers n) := by
    refine (perm_ext_iff_of_nodup (parts.categories_nodup.filter _) parts.suppliers_nodup).mpr fun c => ?_
    rw [mem_filter, decide_eq_true_eq, and_iff_right_iff_imp]
    intro supplier
    obtain ⟨g, member, _, rfl⟩ := mem_suppliers.mp supplier
    exact mem_map_of_mem member
  have named : ∀ c, (∃ d ∈ plan.suppliers n, plan.starText ((Layout.mk plan.source.path output).categoryModule c) =
      plan.starText ((Layout.mk plan.source.path output).categoryModule d)) ↔ c ∈ plan.suppliers n := by
    refine fun c => ⟨?_, fun supplier => ⟨c, supplier, rfl⟩⟩
    rintro ⟨d, supplier, same⟩
    exact starText_inj same ▸ supplier
  rw [starLines, filter_map, length_map]
  simp only [Function.comp_def, forwardAll_eq, named]
  exact ((parts.exportOrder_perm.filter _).trans kept).length_eq

theorem Parts.suppliedOnce_iff (parts : Parts source p mode plan classified) (output : OutputMode) :
    plan.SuppliedOnce output n ↔ (plan.suppliers n).length = 1 := by
  constructor
  · intro once
    rw [← length_listed plan output]
    exact once.listed
  · intro one
    exact ⟨(length_listed plan output n).trans one, (parts.length_forwarded output).trans one⟩

theorem starLines_index (filled : plan.isEmpty = false) (output : OutputMode) : ∃ before after,
    ⟨(Layout.mk plan.source.path output).indexPath,
      closedLines (before ++ plan.starLines output ++ after)⟩ ∈ (plan.synthesize output).files := by
  obtain ⟨before, after, parted⟩ : ∃ before after, plan.indexLines ⟨plan.source.path, output⟩ (plan.groups.map Draft.mk) =
        before ++ plan.starLines output ++ after := by
    simp only [indexLines, starLines]
    rw [append_assoc, append_assoc]
    exact ⟨_, _, rfl⟩
  refine ⟨before, after, ?_⟩
  rw [← parted]
  unfold synthesize
  rw [filled]
  exact mem_append_right _ (mem_singleton.mpr rfl)

-- The signatures and the body of an overloaded function are declarations of one name, and they are
-- classified alike.
def overloadedSource : Source :=
  Source.ofText ("function f(a: string): void;\nfunction f(a: number): void;\n" ++
    "function f(a) \x7b return a; \x7d\ntype T = number;\n").toList (Path.ofString "/src/m.ts")

def mergedSource : Source :=
  Source.ofText "export type A = number;\nexport const A = 1;\n".toList (Path.ofString "/src/m.ts")

end Plan

end ModuleSplit
