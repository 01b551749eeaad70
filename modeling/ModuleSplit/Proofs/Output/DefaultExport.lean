import ModuleSplit.Proofs.Classification.DefaultExport
import ModuleSplit.Proofs.Output.Exports

namespace ModuleSplit

open List Text Phrase DefaultExport Option

-- What is found out about a statement in front of its module does not depend on the module.
namespace DefaultExport

variable {quote : Char} {f : Text} (isQuote : IsQuote quote) (x : Text)

include isQuote

theorem exportDefault?_front : (exportDefault? (f ++ quote :: x)).isSome = (exportDefault? f).isSome := by
  have ends : ∀ rest : Text, wordEnds (rest ++ quote :: x) = wordEnds rest := by
    intro rest
    cases rest with
    | nil => rcases isQuote with rfl | rfl <;> rfl
    | cons => rfl
  unfold exportDefault? keyword? dropLead?
  rw [spaced?_front (isQuote.not_mem "export" rfl) isQuote.visible]
  cases spaced? "export" f with
  | none => rfl
  | some rest =>
    simp only [Option.map_some, bind_eq_bind, bind_some]
    rw [after?_front (isQuote.not_mem "default" rfl)]
    cases after? "default".toList rest with
    | none => rfl
    | some behind =>
      simp only [Option.map_some, bind_some, ends]
      cases wordEnds behind <;> rfl

theorem namespaceName?_front : namespaceName? (f ++ quote :: x) = namespaceName? f := by
  have stop : isIdentChar quote = false := by rcases isQuote with rfl | rfl <;> rfl
  have name : ∀ t : Text, (t ++ quote :: x).takeWhile isIdentChar = t.takeWhile isIdentChar := by
    intro t
    rw [takeWhile_append]
    split
    · rw [takeWhile_cons_of_neg (by simp [stop]), append_nil]
      exact ((List.takeWhile_prefix isIdentChar).eq_of_length (by assumption)).symm
    · rfl
  unfold namespaceName? dropLead?
  rw [after?_front (isQuote.not_mem "export" rfl)]
  cases after? "export".toList f with
  | none => rfl
  | some rest =>
    simp only [Option.map_some, bind_eq_bind, bind_some]
    rw [dropBlanks_front isQuote.visible, after?_front (isQuote.not_mem "*" rfl)]
    cases after? "*".toList (dropBlanks rest) with
    | none => rfl
    | some behind =>
      simp only [Option.map_some, bind_some]
      rw [dropBlanks_front isQuote.visible, spaced?_front (isQuote.not_mem "as" rfl) isQuote.visible]
      cases spaced? "as" (dropBlanks behind) with
      | none => rfl
      | some found => simp only [Option.map_some, bind_some, name]

theorem listBody?_front {clause : Text} (found : ReExport.frontClause? f = some clause)
    (closed : clause.head? = some '{' → '}' ∈ clause) : listBody? (f ++ quote :: x) = listBody? f := by
  obtain ⟨rest, first, found⟩ := bind_eq_some_iff.mp found
  obtain ⟨c, tail, space, text, rfl⟩ := spaced?_eq_some.mp first
  split at found
  · rename_i mark g opening
    obtain ⟨marks, found⟩ := ite_none_right_eq_some.mp found
    obtain ⟨inner, behind, rfl⟩ := map_eq_some_iff.mp found
    have longer : f ++ quote :: x = "export".toList ++ c :: (tail ++ quote :: x) := by simp [text]
    have type : skipSpaced "type" (dropBlanks (tail ++ quote :: x)) = mark :: (g ++ quote :: x) := by
      rw [dropBlanks_front isQuote.visible, skipSpaced_front (isQuote.not_mem "type" rfl) isQuote.visible, opening]
      rfl
    rw [listBody?_eq space marks longer type, listBody?_eq space marks text opening]
    split
    · rename_i brace
      have inside : '}' ∈ mark :: inner := closed (by rw [brace]; rfl)
      have ends : '}' ∈ g := (ReExport.frontFrom_leads behind).subset (mem_of_ne_of_mem (by rw [brace]; decide) inside)
      rw [takeWhile_append, if_neg]
      intro whole
      have all := (List.takeWhile_prefix (· != '}')).eq_of_length whole
      rw [← all] at ends
      simpa using all_eq_true.mp all_takeWhile _ ends
    · rfl
  · cases found

theorem inPlain_front {clause : Text} (found : ReExport.frontClause? f = some clause)
    (closed : clause.head? = some '{' → '}' ∈ clause) : inPlain (f ++ quote :: x) = inPlain f := by
  unfold inPlain
  rw [exportDefault?_front isQuote, namespaceName?_front isQuote, listBody?_front isQuote x found closed]

end DefaultExport

theorem Import.read?_notDefault {raw : Text} {i : Import} (found : read? raw = some i) : exportsDefault raw = false := by
  have plain : ∀ {rest : Text}, plainText raw = "import".toList ++ rest → exportsDefault raw = false := by
    intro rest text
    rw [exportsDefault, text]
    rfl
  unfold read? at found
  rcases or_eq_some_iff.mp (orElse_eq_or.symm.trans found) with effect | ⟨_, bound⟩
  · obtain ⟨rest, lead, _⟩ := bind_eq_some_iff.mp effect
    exact plain (dropLead?_eq_some.mp lead)
  · obtain ⟨rest, lead, _⟩ := bind_eq_some_iff.mp bound
    obtain ⟨_, _, _, text, _⟩ := spaced?_eq_some.mp lead
    exact plain text

theorem ReExport.read?_raw {raw : Text} {r : ReExport} (found : ReExport.read? raw = some r) : r.raw = raw := by
  unfold read? at found
  obtain ⟨rest, _, found⟩ := bind_eq_some_iff.mp found
  dsimp only at found
  split at found
  · obtain ⟨_, found⟩ := ite_none_right_eq_some.mp found
    obtain ⟨_, _, same⟩ := bind_eq_some_iff.mp found
    cases same
    rfl
  · cases found

theorem ReExport.exportsDefault_rebase {raw : Text} {r : ReExport} (found : read? raw = some r) {depth : Nat}
    (movable : ModuleName.rebase depth r.source ≠ r.source → r.Movable) :
    exportsDefault (r.rebase depth).raw = exportsDefault r.raw := by
  by_cases same : ModuleName.rebase depth r.source = r.source
  · rw [rebase, withSource, if_pos same]
  · obtain ⟨free, inner, clause⟩ := movable same
    have written := read?_raw found
    rw [← written] at found
    obtain ⟨quoted, _, f, tail, front, plain, unquoted, kept⟩ := read?_parts found fun c listed => (clause c listed).1
    obtain ⟨_, inner'⟩ := ModuleName.rebase_inner quoted inner depth
    have changed := plainText_replaceFirst free quoted (fun c member => (inner c member).1) plain unquoted inner'
    have closed := (clause front (read?_front quoted unquoted plain kept).2).2
    rw [exportsDefault, exportsDefault, rebase_raw same, changed, plain]
    rw [DefaultExport.inPlain_front quoted.isQuote _ kept closed, DefaultExport.inPlain_front quoted.isQuote _ kept closed]

namespace Plan

@[simp] theorem inPlain_forwardAll (s : Style) (source : Text) : inPlain (forwardAll s source) = false := rfl

@[simp] theorem inPlain_forwardDefault (s : Style) (source : Text) : inPlain (forwardDefault s source) = true := rfl

@[simp] theorem inPlain_importLine (s : Style) (source : Text) (default? : Option Text) (names : List Text) :
    inPlain (s.importLine source default? names) = false := rfl

@[simp] theorem inPlain_own (name rest : Text) : inPlain ("export default ".toList ++ name ++ rest) = true := rfl

theorem inPlain_namespace {name : Text} (isName : IsName name) (other : name ≠ "default".toList)
    (rest : Text) : inPlain ("export * as ".toList ++ (name ++ ' ' :: rest)) = false := by
  have visible : dropBlanks (name ++ ' ' :: rest) = name ++ ' ' :: rest := by
    obtain ⟨c, tail, rfl⟩ := exists_cons_of_ne_nil isName.nonempty
    exact dropWhile_cons_of_neg (by simp [isName.visible c mem_cons_self])
  have run : (name ++ ' ' :: rest).takeWhile isIdentChar = name := by
    rw [takeWhile_append_of_pos isName.chars]
    simp [show isIdentChar ' ' = false from rfl]
  show (some ((dropBlanks (name ++ ' ' :: rest)).takeWhile isIdentChar) == some "default".toList) = false
  rw [visible, run, beq_eq_false_iff_ne]
  exact fun same => other (Option.some.inj same)

theorem inPlain_braced (typed : Bool) {t : Text} (rest : Text) (plain : ∀ c ∈ t, c ≠ '}' ∧ c ≠ ',') :
    inPlain ((if typed then "export type " else "export ").toList ++ (Style.braced t ++ rest)) =
      (lastWord (' ' :: t ++ [' ']) == "default".toList) := by
  have body : (' ' :: (t ++ (" \x7d".toList ++ rest))).takeWhile (· != '}') = ' ' :: t ++ [' '] := by
    rw [← cons_append, takeWhile_append_of_pos]
    · simp
    · intro c member
      rcases mem_cons.mp member with rfl | inside
      · rfl
      · simpa using (plain c inside).1
  have single : Text.splitOn ',' (' ' :: t ++ [' ']) = [' ' :: t ++ [' ']] := by
    refine Text.splitOn_eq_singleton ?_
    simp only [mem_append, mem_cons, not_mem_nil, or_false, not_or]
    exact ⟨⟨by decide, fun inside => (plain _ inside).2 rfl⟩, by decide⟩
  generalize same : (if typed then "export type " else "export ").toList ++ (Style.braced t ++ rest) = line
  have list : listBody? line = some (' ' :: t ++ [' ']) := by
    rw [← body, ← same, Style.braced, append_assoc, append_assoc]
    cases typed <;> rfl
  have own : exportDefault? line = none := by
    rw [← same]
    cases typed <;> rfl
  have all : namespaceName? line = none := by
    rw [← same]
    cases typed <;> rfl
  unfold inPlain
  rw [list, own, all]
  dsimp only
  rw [single]
  simp only [any_cons, any_nil, Bool.or_false, isSome_none, Bool.false_or]
  exact Bool.or_false _

end Plan

namespace Specifier

theorem render_eq (s : Specifier) : ∃ before, s.render = before ++ s.asName ∧
    (before = [] ∨ ∃ rest, before = rest ++ [' ']) ∧ ∀ c ∈ before, c ∈ s.name ∨ c ∈ "type as ".toList := by
  have typed : ∃ word : Text, s.render = word ++ (if s.name = s.asName then s.name
      else s.name ++ " as ".toList ++ s.asName) ∧ (word = [] ∨ ∃ rest, word = rest ++ [' ']) ∧
      ∀ c ∈ word, c ∈ "type as ".toList := by
    unfold render
    cases s.typeOnly
    · exact ⟨[], rfl, .inl rfl, by simp⟩
    · exact ⟨"type ".toList, rfl, .inr ⟨"type".toList, rfl⟩, List.IsPrefix.subset ⟨"as ".toList, rfl⟩⟩
  obtain ⟨word, same, apart, chars⟩ := typed
  rw [same]
  split
  · rename_i alike
    exact ⟨word, by rw [alike], apart, fun c member => .inr (chars c member)⟩
  · refine ⟨word ++ (s.name ++ " as ".toList), by simp, .inr ⟨word ++ (s.name ++ " as".toList), by simp⟩, ?_⟩
    intro c member
    rcases mem_append.mp member with front | behind
    · exact .inr (chars c front)
    · rcases mem_append.mp behind with name | as
      · exact .inl name
      · exact .inr (List.IsSuffix.subset ⟨"type".toList, rfl⟩ as)

theorem render_lastWord {s : Specifier} (name : IsName s.asName) : lastWord (' ' :: s.render ++ [' ']) = s.asName := by
  obtain ⟨before, same, apart, _⟩ := render_eq s
  refine EndsIn.lastWord_eq ⟨' ' :: before, [' '], by simp [same], all_eq_true.mp rfl, .inr ?_⟩ name.nonempty name.visible
  rcases apart with rfl | ⟨rest, rfl⟩
  · exact ⟨[], ' ', rfl, rfl⟩
  · exact ⟨' ' :: rest, ' ', rfl, rfl⟩

theorem render_plain {s : Specifier} (name : IsName s.name) (asName : IsName s.asName) : ∀ c ∈ s.render, c ≠ '}' ∧ c ≠ ',' := by
  have ident : ∀ {c : Char}, isIdentChar c = true → c ≠ '}' ∧ c ≠ ',' := by
    intro c inside
    constructor <;> rintro rfl <;> cases inside
  have words : ∀ c ∈ "type as ".toList, c ≠ '}' ∧ c ≠ ',' := by
    have letters : ∀ c ∈ "type as ".toList, (c != '}' && c != ',') = true := all_eq_true.mp rfl
    simpa only [Bool.and_eq_true, bne_iff_ne] using letters
  obtain ⟨before, same, _, chars⟩ := render_eq s
  intro c member
  rw [same] at member
  rcases mem_append.mp member with front | last
  · rcases chars c front with inside | word
    · exact ident (name.chars c inside)
    · exact words c word
  · exact ident (asName.chars c last)

end Specifier

namespace Plan

theorem inPlain_entry (typed : Bool) {s : Specifier} (name : IsName s.name) (asName : IsName s.asName) (rest : Text) :
    inPlain ((if typed then "export type " else "export ").toList ++
      (Style.braced s.render ++ rest)) = (s.asName == "default".toList) := by
  rw [inPlain_braced typed rest (Specifier.render_plain name asName), Specifier.render_lastWord asName]

theorem aliasLine?_plain {plan : Plan} {l : Layout} {drafts : List Draft} {entry : Specifier}
    {line : Text} (table : ∀ i ∈ plan.importTable, i.WellNamed) (name : IsName entry.name)
    (asName : IsName entry.asName) (other : entry.asName ≠ "default".toList)
    (found : plan.aliasLine? l drafts entry = some line) : inPlain line = false := by
  have differs : (entry.asName == "default".toList) = false := beq_eq_false_iff_ne.mpr other
  unfold aliasLine? at found
  dsimp only at found
  split at found
  · rw [← Option.some.inj found, append_assoc, append_assoc, inPlain_entry _ name asName]
    exact differs
  · split at found
    · cases found
    · rename_i i listed
      have wellNamed := table i (mem_of_find?_eq_some listed)
      split at found
      · rw [← Option.some.inj found, append_assoc]
        exact inPlain_namespace asName other _
      · rw [← Option.some.inj found, append_assoc]
        refine (inPlain_entry (s := ⟨_, entry.asName, false⟩) _ ?_ asName _).trans differs
        dsimp only
        split
        · exact ⟨by simp, all_eq_true.mp rfl⟩
        · cases imported : i.specifiers.find? (·.asName = entry.name) with
          | none => exact name
          | some s => exact wellNamed.listed s (mem_of_find?_eq_some imported)

theorem mainExports_count {plan : Plan} {l : Layout} {drafts : List Draft} {n : Text}
    (found : plan.mainName? l drafts = some n) (isName : IsName n) (other : n ≠ "default".toList) :
    (plan.mainExports l drafts).countP inPlain = if (defaultElsewhere? drafts).isSome then 0 else 1 := by
  have name : inPlain ("export ".toList ++ (Style.braced n ++ plan.style.ending)) = false := by
    have entry := inPlain_entry false (s := ⟨n, n, false⟩) isName isName plan.style.ending
    rw [beq_eq_false_iff_ne.mpr other] at entry
    simpa [Specifier.render] using entry
  have own : inPlain ("export default ".toList ++ n ++ plan.style.ending) = true := inPlain_own n plan.style.ending
  unfold mainExports
  rw [found]
  dsimp only
  rw [countP_append]
  have first : (if drafts.any (·.named.contains n) then []
      else ["export ".toList ++ Style.braced n ++ plan.style.ending]).countP inPlain = 0 := by
    split
    · rfl
    · simp only [countP_cons, append_assoc, name]
      rfl
  rw [first, Nat.zero_add]
  split
  · rfl
  · simp only [countP_cons, own]
    rfl

-- Of the lines that an index adds one is a default export. The statements that it takes over from
-- the source are none, as they were written there and as the index has them.
structure OneDefault (plan : Plan) (l : Layout) (text : Text) : Prop where
  parts : ∃ main exports : List Text,
    text = closedLines (plan.sideEffectImports.map (fun i => (i.rebase l.importDepth).raw) ++
      main ++ plan.reexports.map (fun r => (r.rebase l.importDepth).raw) ++ exports) ∧
    (∀ line ∈ main, inPlain line = false) ∧ exports.countP inPlain = 1
  effects : ∀ i ∈ plan.sideEffectImports, exportsDefault i.raw = false ∧
    ((ModuleName.rebase l.importDepth i.source ≠ i.source → i.Movable) →
      exportsDefault (i.rebase l.importDepth).raw = false)
  reexports : ∀ r ∈ plan.reexports, exportsDefault r.raw = false ∧
    ((ModuleName.rebase l.importDepth r.source ≠ r.source → r.Movable) →
      exportsDefault (r.rebase l.importDepth).raw = false)

variable {source : Source} {p : Patterns} {mode : DelimiterMode} {plan : Plan}
  {classified : List (Block × Category)}

theorem mainDraft?_eq (parts : Parts source p mode plan classified) {d : Draft}
    (member : d ∈ plan.groups.map Draft.mk) (main : d.category = .main) : mainDraft? (plan.groups.map Draft.mk) = some d := by
  have distinct : ((plan.groups.map Draft.mk).map (·.category)).Nodup := by
    rw [List.map_map]
    exact parts.categories_sublist.nodup (by decide)
  cases found : mainDraft? (plan.groups.map Draft.mk) with
  | none => exact absurd (decide_eq_true main) (find?_eq_none.mp found d member)
  | some first =>
    have isMain : first.category = .main := of_decide_eq_true
      (find?_some (p := fun d : Draft => decide (d.category = .main)) found)
    rw [inj_on_of_nodup_map distinct (mem_of_find?_eq_some found) member (isMain.trans main.symm)]

theorem mainName?_isSome (parts : Parts source p mode plan classified) (l : Layout)
    (holds : ∃ d ∈ plan.groups.map Draft.mk, d.holdsDefault = true)
    (elsewhere : defaultElsewhere? (plan.groups.map Draft.mk) = none) :
    ∃ n, plan.mainName? l (plan.groups.map Draft.mk) = some n := by
  obtain ⟨d, member, holds⟩ := holds
  have main : d.category = .main := by
    have outside := find?_eq_none.mp (map_eq_none_iff.mp elsewhere) d member
    simpa [holds] using outside
  rw [mainName?, mainDraft?_eq parts member main]
  exact ⟨_, by simp only [bind_eq_bind, bind_some, holds, if_true]; rfl⟩

theorem indexHasDefault_of_holds (parts : Parts source p mode plan classified) (l : Layout)
    (holds : ∃ d ∈ plan.groups.map Draft.mk, d.holdsDefault = true) :
    plan.indexHasDefault l (plan.groups.map Draft.mk) = true := by
  unfold indexHasDefault
  cases elsewhere : defaultElsewhere? (plan.groups.map Draft.mk) with
  | some c => rfl
  | none =>
    obtain ⟨n, found⟩ := mainName?_isSome parts l holds elsewhere
    rw [found]
    rfl

theorem indexExports_count (parts : Parts source p mode plan classified) (l : Layout)
    (holds : ∃ d ∈ plan.groups.map Draft.mk, d.holdsDefault = true)
    (other : plan.mainName? l (plan.groups.map Draft.mk) ≠ some "default".toList) (aliases : ∀ entry ∈ plan.exportAliases,
      IsName entry.name ∧ IsName entry.asName ∧ entry.asName ≠ "default".toList) :
    (plan.indexExports l (plan.groups.map Draft.mk)).countP inPlain = 1 := by
  have all : ((exportOrder (plan.groups.map Draft.mk)).map
      fun c => forwardAll plan.style (l.categoryModule c)).countP inPlain = 0 := by
    simp [countP_eq_zero]
  have table : ∀ i ∈ plan.importTable, i.WellNamed := by
    intro i listed
    obtain ⟨_, _, _, read, _⟩ := parts.importTable_origin listed
    exact Import.read?_wellNamed read
  have listed : (plan.exportAliases.filterMap (plan.aliasLine? l (plan.groups.map Draft.mk))).countP inPlain = 0 := by
    rw [countP_eq_zero]
    intro line member
    obtain ⟨entry, kept, found⟩ := mem_filterMap.mp member
    obtain ⟨name, asName, differs⟩ := aliases entry kept
    simp [aliasLine?_plain table name asName differs found]
  have main : ∀ n, plan.mainName? l (plan.groups.map Draft.mk) = some n →
      (plan.mainExports l (plan.groups.map Draft.mk)).countP inPlain =
        if (defaultElsewhere? (plan.groups.map Draft.mk)).isSome then 0 else 1 := by
    intro n found
    exact mainExports_count found (mainName?_isName parts found) (fun same => other (same ▸ found))
  unfold indexExports
  rw [countP_append, countP_append, countP_append, all, listed]
  cases elsewhere : defaultElsewhere? (plan.groups.map Draft.mk) with
  | some c =>
    rw [elsewhere] at main
    have none : (plan.mainExports l (plan.groups.map Draft.mk)).countP inPlain = 0 := by
      cases found : plan.mainName? l (plan.groups.map Draft.mk) with
      | some n => exact main n found
      | none =>
        rw [mainExports, found]
        rfl
    rw [none]
    simp
  | none =>
    rw [elsewhere] at main
    obtain ⟨n, found⟩ := mainName?_isSome parts l holds elsewhere
    rw [main n found]
    rfl

section Shown

variable (parts : Parts source p mode plan classified)
  (shown : ∀ b ∈ (scan p mode source.lines).blocks, exportsDefault b.text = true →
    b.kind ≠ .import_ ∧ b.isDefaultStatement = true)

include parts

theorem holds_of_shown {b : Block} (member : b ∈ (scan p mode source.lines).blocks)
    (kind : b.kind ≠ .import_) (default : b.isDefaultStatement = true) :
    ∃ d ∈ plan.groups.map Draft.mk, d.holdsDefault = true := by
  have kept := parts.blocksAt_block member
  rw [Block.place_of_default kind default] at kept
  have listed : b ∈ plan.blocksAt b.start := by
    rw [kept]
    exact mem_singleton_self b
  obtain ⟨g, grouped, inside⟩ := mem_flatMap.mp (mem_filter.mp listed).1
  exact ⟨⟨g⟩, mem_map_of_mem grouped, any_eq_true.mpr ⟨b, inside, default⟩⟩

include shown

theorem aliases_of_shown : ∀ entry ∈ plan.exportAliases,
    IsName entry.name ∧ IsName entry.asName ∧ entry.asName ≠ "default".toList := by
  intro entry kept
  obtain ⟨b, member, entries, start, placed, inside⟩ := parts.aliases_origin entry kept
  have read := Block.place_aliases placed
  obtain ⟨name, asName⟩ := ExportList.read?_isName read entry inside
  refine ⟨name, asName, fun default => ?_⟩
  obtain ⟨kind, statement⟩ := shown b member (ExportList.read?_default read inside default)
  rw [Block.place_of_default kind statement] at placed
  cases placed

theorem reexports_of_shown (l : Layout) : ∀ r ∈ plan.reexports, exportsDefault r.raw = false ∧
    ((ModuleName.rebase l.importDepth r.source ≠ r.source → r.Movable) →
      exportsDefault (r.rebase l.importDepth).raw = false) := by
  intro r listed
  rw [parts.reexports_eq] at listed
  obtain ⟨b, member, found⟩ := mem_filterMap.mp listed
  obtain ⟨⟨kind, _⟩, read⟩ := ite_none_right_eq_some.mp found
  have none : exportsDefault r.raw = false := by
    rw [ReExport.read?_raw read, Bool.eq_false_iff]
    exact fun default => (shown b member default).1 kind
  exact ⟨none, fun movable => (ReExport.exportsDefault_rebase read movable).trans none⟩

omit shown in
theorem effects_notDefault (l : Layout) : ∀ i ∈ plan.sideEffectImports, exportsDefault i.raw = false ∧
    ((ModuleName.rebase l.importDepth i.source ≠ i.source → i.Movable) →
      exportsDefault (i.rebase l.importDepth).raw = false) := by
  intro i listed
  rw [parts.sideEffectImports_eq] at listed
  obtain ⟨b, _, found⟩ := mem_filterMap.mp listed
  have read := (filter_eq_some_iff.mp (ite_none_right_eq_some.mp found).2).1
  have written := Import.read?_raw read
  rw [← written] at read
  refine ⟨Import.read?_notDefault read, fun movable => ?_⟩
  by_cases same : ModuleName.rebase l.importDepth i.source = i.source
  · rw [show i.rebase l.importDepth = i from if_pos same]
    exact Import.read?_notDefault read
  · obtain ⟨free, inner, clause⟩ := movable same
    exact Import.read?_notDefault (Import.read?_rebase read free inner clause l.importDepth)

theorem indexLines_oneDefault (l : Layout) (holds : ∃ d ∈ plan.groups.map Draft.mk, d.holdsDefault = true)
    (other : plan.mainName? l (plan.groups.map Draft.mk) ≠ some "default".toList) :
    OneDefault plan l (closedLines (plan.indexLines l (plan.groups.map Draft.mk))) where
  parts := by
    refine ⟨plan.mainImport l (plan.groups.map Draft.mk), plan.indexExports l (plan.groups.map Draft.mk), ?_, ?_,
      indexExports_count parts l holds other (aliases_of_shown parts shown)⟩
    · rw [indexLines_eq]
    · intro line member
      obtain ⟨main, same, _, taken⟩ := plan.mainImport_eq l
      rw [same] at member
      obtain ⟨i, listed, rfl⟩ := mem_map.mp member
      obtain ⟨_, _, statement⟩ := taken i listed
      rw [statement.statement]
      exact inPlain_importLine _ _ _ _
  effects := effects_notDefault parts l
  reexports := reexports_of_shown parts shown l

end Shown

-- Where some block exports a default binding and every block that does so shows it on its first
-- line and takes it from no other module, the index has one default export, which the replacement
-- forwards. The word itself names nothing in the index.
theorem build_default_survives (built : build source p mode = .ok plan)
    (exported : ∃ b ∈ (scan p mode source.lines).blocks, exportsDefault b.text = true)
    (shown : ∀ b ∈ (scan p mode source.lines).blocks, exportsDefault b.text = true →
      b.kind ≠ .import_ ∧ b.isDefaultStatement = true) (output : OutputMode)
    (named : (plan.synthesize output).mainName ≠ some "default".toList) :
    (plan.synthesize output).hasDefaultExport = true ∧ (plan.synthesize output).replacement = closedLines
        [forwardAll plan.style (Layout.mk source.path output).indexModule,
          forwardDefault plan.style (Layout.mk source.path output).indexModule] ∧
      ∃ index, ⟨(Layout.mk source.path output).indexPath, index⟩ ∈ (plan.synthesize output).files ∧
        OneDefault plan ⟨source.path, output⟩ index := by
  obtain ⟨classified, parts⟩ := build_parts built
  obtain ⟨b, member, default⟩ := exported
  obtain ⟨kind, statement⟩ := shown b member default
  have holds := holds_of_shown parts member kind statement
  have full : plan.isEmpty = false := by
    obtain ⟨_, drafted, _⟩ := holds
    obtain ⟨g, grouped, _⟩ := mem_map.mp drafted
    simpa [isEmpty] using ne_nil_of_mem grouped
  have has := indexHasDefault_of_holds parts ⟨source.path, output⟩ holds
  unfold synthesize at named ⊢
  rw [full] at named ⊢
  rw [parts.origin] at named ⊢
  refine ⟨has, ?_, _, mem_append_right _ (mem_singleton_self _), indexLines_oneDefault parts shown _ holds named⟩
  show closedLines (plan.replacementLines _ _) = _
  rw [replacementLines, has]
  rfl

-- A class that is no component, so that the default export is not in the main file, beside a list
-- of aliases.
def defaultClassSource : Source :=
  Source.ofText ("import B from './b';\nconst a = 1;\nexport \x7b a as z, B \x7d;\n" ++
    "export default class Store \x7b\x7d\n").toList (Path.ofString "/src/m.ts")

theorem build_default_survives_class : ∃ plan, build defaultClassSource .bare .literalAware = .ok plan ∧
      (∃ b ∈ (scan .bare .literalAware defaultClassSource.lines).blocks, exportsDefault b.text = true) ∧
      (∀ b ∈ (scan .bare .literalAware defaultClassSource.lines).blocks,
        exportsDefault b.text = true → b.kind ≠ .import_ ∧ b.isDefaultStatement = true) ∧
      (plan.synthesize .directory).mainName = none ∧ (plan.synthesize .directory).hasDefaultExport = true := by
  have exported : ∃ b ∈ (scan .bare .literalAware defaultClassSource.lines).blocks, exportsDefault b.text = true := by
    decide +kernel
  have shown : ∀ b ∈ (scan .bare .literalAware defaultClassSource.lines).blocks,
      exportsDefault b.text = true → b.kind ≠ .import_ ∧ b.isDefaultStatement = true := by
    decide +kernel
  have run : (build defaultClassSource .bare .literalAware).toOption.map (fun plan =>
      (plan.synthesize .directory).mainName) = some none := by
    decide +kernel
  obtain ⟨plan, built, values⟩ := Result.of_run run
  have unnamed := values
  exact ⟨plan, built, exported, shown, unnamed, (build_default_survives built exported shown .directory (by simp [unnamed])).1⟩

-- A list of exports over several lines: its first line does not show the default.
def brokenListSource : Source :=
  Source.ofText "const a = 1;\nexport \x7b\n  a as default\n\x7d;\n".toList
    (Path.ofString "/src/m.ts")

theorem build_default_survives_broken_list : ∃ plan,
    build brokenListSource .bare .literalAware = .ok plan ∧ plan.isEmpty = false ∧
      (∃ b ∈ (scan .bare .literalAware brokenListSource.lines).blocks, exportsDefault b.text = true) ∧
      (plan.synthesize .sibling).hasDefaultExport = false ∧
      (plan.synthesize .sibling).replacement = "export * from './m-index';\n".toList := by
  have exported : ∃ b ∈ (scan .bare .literalAware brokenListSource.lines).blocks, exportsDefault b.text = true := by
    decide +kernel
  have run : (build brokenListSource .bare .literalAware).toOption.map (fun plan =>
      (plan.isEmpty, (plan.synthesize .sibling).hasDefaultExport, (plan.synthesize .sibling).replacement)) =
      some (false, false, "export * from './m-index';\n".toList) := by
    decide +kernel
  obtain ⟨plan, built, values⟩ := Result.of_run run
  simp only [Prod.mk.injEq] at values
  exact ⟨plan, built, values.1, exported, values.2⟩

end Plan

end ModuleSplit
