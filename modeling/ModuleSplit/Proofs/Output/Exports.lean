import ModuleSplit.Proofs.Declaration.Opening
import ModuleSplit.Proofs.Output.Header

namespace ModuleSplit

open Text Phrase

namespace Text

def commonLead : Text → Text → Text
  | a :: as, b :: bs => if a = b then a :: commonLead as bs else []
  | _, _ => []

theorem commonLead_append (a b : Text) : ∃ x y, a = commonLead a b ++ x ∧ b = commonLead a b ++ y := by
  fun_induction commonLead a b with
  | case1 c as bs ih =>
    obtain ⟨x, y, left, right⟩ := ih
    exact ⟨x, y, by rw [List.cons_append, ← left], by rw [List.cons_append, ← right]⟩
  | case2 => exact ⟨_, _, rfl, rfl⟩
  | case3 => exact ⟨_, _, rfl, rfl⟩

end Text

def isPlainCode (c : Char) : Bool := c != '/' && c != '\'' && c != '"' && c != '`'

def Rendering.behind (shown : Text) (r : Rendering) : Rendering := {r with code := shown ++ r.code}

theorem Cursor.render_lead {lead : Text} (plain : ∀ c ∈ lead, isPlainCode c = true) (tally : Tally)
    (rest : Text) : Cursor.render {} tally (lead ++ rest) =
      (Cursor.render {} (lead.foldl Tally.count tally) rest).behind lead := by
  induction lead generalizing tally with
  | nil => rfl
  | cons c lead ih =>
    rw [List.forall_mem_cons] at plain
    have step : ∀ next, Cursor.move {} c next = .one c true {} := by
      intro next
      have apart := plain.1
      simp only [isPlainCode, Bool.and_eq_true, bne_iff_ne] at apart
      obtain ⟨⟨⟨slash, single⟩, double⟩, template⟩ := apart
      simp [Cursor.move, Cursor.moveCode, slash, single, double, template]
    rw [List.cons_append, Cursor.render_one step, if_pos rfl, ih plain.2]
    rfl

theorem Cursor.render_plain {lead : Text} (plain : ∀ c ∈ lead, isPlainCode c = true) (tally : Tally) (rest : Text) :
    ∃ later, (Cursor.render {} tally (lead ++ rest)).code = lead ++ later :=
  ⟨_, congrArg Rendering.code (Cursor.render_lead plain tally rest)⟩

theorem isPlainCode_of_isBlank {c : Char} (blank : isBlank c = true) : isPlainCode c = true := by
  have shown : ∀ d ∈ ['/', '\'', '"', '`'], (!isBlank d) = true := List.all_eq_true.mp rfl
  have apart : ∀ d ∈ ['/', '\'', '"', '`'], c ≠ d := by
    rintro d quote rfl
    have visible := shown _ quote
    rw [blank] at visible
    cases visible
  simpa [isPlainCode, and_assoc] using apart

theorem feed_export (mode : DelimiterMode) {indent : Text} (blank : ∀ c ∈ indent, isBlank c = true)
    (rest : Text) : ∃ later, ((Lexer.start mode).feed (indent ++ "export ".toList ++ rest)).1.code =
      indent ++ "export ".toList ++ later := by
  cases mode with
  | literalAware =>
    refine Cursor.render_plain ?_ {} rest
    intro c member
    rcases List.mem_append.mp member with inside | word
    · exact isPlainCode_of_isBlank (blank c inside)
    · exact List.all_eq_true.mp (show "export ".toList.all isPlainCode = true from rfl) c word
  | raw =>
    refine ⟨rest, ?_⟩
    obtain ⟨later, trimmed⟩ : ∃ later, trim (indent ++ "export ".toList ++ rest) = 'e' :: later := by
      rw [trim, trimBy, ← dropBlanks, List.append_assoc, dropBlanks_blanks blank]
      exact trimRight_cons rfl _
    have code : RawCursor.looksLikeComment (trim (indent ++ "export ".toList ++ rest)) = false := by
      rw [trimmed]
      rfl
    show (if false || RawCursor.looksLikeComment (trim (indent ++ "export ".toList ++ rest)) then []
      else indent ++ "export ".toList ++ rest) = _
    rw [code]
    rfl

theorem codeText_lead (mode : DelimiterMode) (t : Text) : ∃ tail,
    codeText mode t = ((Lexer.start mode).feed (cut '\n' t).1).1.code ++ tail := by
  obtain ⟨rest, first⟩ := splitOn_cut '\n' t
  rw [codeText, lines, first, summarize, Lexer.trace, List.map_cons, List.map_cons]
  generalize (List.map _ (List.map _ (Lexer.trace _ rest))) = others
  cases others with
  | nil => exact ⟨[], by simp⟩
  | cons second others => exact ⟨_, unlines_cons_cons _ second others⟩

theorem codeText_export (mode : DelimiterMode) {indent : Text}
    (blank : ∀ c ∈ indent, isBlank c = true) (line : '\n' ∉ indent) (more : Text) :
    ∃ later, codeText mode (indent ++ "export ".toList ++ more) = indent ++ "export ".toList ++ later := by
  have plain : '\n' ∉ indent ++ "export ".toList := by
    rw [List.mem_append, not_or]
    exact ⟨line, by decide⟩
  obtain ⟨tail, code⟩ := codeText_lead mode (indent ++ "export ".toList ++ more)
  rw [cut_append plain] at code
  obtain ⟨later, first⟩ := feed_export mode blank (cut '\n' more).1
  exact ⟨later ++ tail, by rw [code, first, List.append_assoc]⟩

namespace Block

def opening (mode : DelimiterMode) (b : Block) : Text :=
  dropBlanks (commonLead (cut '\n' (codeText mode b.text)).1 (cut '\n' b.text).1)

-- The code says that it exports, or the first line says what it declares before any comment or
-- literal.
def OpensPlainly (p : Patterns) (mode : DelimiterMode) (b : Block) : Prop :=
  (keyword? "export" (dropBlanks (codeText mode b.text))).isSome ∨
    Declaration.Exportable p (trimRight (b.opening mode))

instance (p : Patterns) (mode : DelimiterMode) (b : Block) : Decidable (b.OpensPlainly p mode) :=
  inferInstanceAs (Decidable (_ ∨ _))

variable {p : Patterns} {mode : DelimiterMode} {b : Block}

theorem opening_append (some : b.opening mode ≠ []) : (∃ rest, dropBlanks (cut '\n' b.text).1 = b.opening mode ++ rest) ∧
      ∃ rest, dropBlanks (codeText mode b.text) = b.opening mode ++ rest := by
  obtain ⟨x, y, code, line⟩ := commonLead_append (cut '\n' (codeText mode b.text)).1 (cut '\n' b.text).1
  obtain ⟨tail, whole, _⟩ := cut_tail '\n' (codeText mode b.text)
  constructor
  · refine ⟨y, ?_⟩
    conv_lhs => rw [line]
    exact dropBlanks_append some y
  · refine ⟨x ++ tail, ?_⟩
    conv_lhs => rw [whole, code, List.append_assoc]
    exact dropBlanks_append some (x ++ tail)

theorem OpensPlainly.exported_or (plainly : b.OpensPlainly p mode) :
    (keyword? "export" (dropBlanks (codeText mode b.text))).isSome ∨ isPromotable (dropBlanks (cut '\n' b.text).1) = true := by
  rcases plainly with exported | exportable
  · exact .inl exported
  · have some : b.opening mode ≠ [] := by
      intro none
      rw [none] at exportable
      exact exportable.declares rfl
    obtain ⟨⟨rest, line⟩, behind, code⟩ := opening_append some
    obtain ⟨blanks, trimmed⟩ := trimRight_append (b.opening mode)
    cases found : spaced? "export" (trimRight (b.opening mode)) with
    | some _ =>
      left
      rw [code, trimmed, List.append_assoc]
      have longer := spaced?_isSome_append (Option.isSome_of_eq_some found) (blanks ++ behind)
      exact keyword?_of_spaced? (Option.some_get longer).symm
    | none =>
      right
      rw [line, trimmed, List.append_assoc]
      exact exportable.promotable found _

-- The code of the block in its category file starts with the word `export`.
def IsExported (mode : DelimiterMode) (b : Block) : Prop :=
  (keyword? "export" (dropBlanks (codeText mode b.promoted))).isSome

instance (mode : DelimiterMode) (b : Block) : Decidable (b.IsExported mode) :=
  inferInstanceAs (Decidable (_ = true))

theorem isExported_of_promoted {indent more : Text} (blank : ∀ c ∈ indent, isBlank c = true)
    (line : '\n' ∉ indent) (text : b.promoted = indent ++ "export ".toList ++ more) : b.IsExported mode := by
  obtain ⟨later, code⟩ := codeText_export mode blank line more
  unfold IsExported
  rw [text, code, List.append_assoc, dropBlanks_blanks blank]
  rfl

theorem promoted_cases (declares : b.kind.isDeclaration = true) :
    (b.promoted = b.text ∧ (startsWith (dropBlanks (cut '\n' b.text).1) "export" = true ∨
      isPromotable (dropBlanks (cut '\n' b.text).1) = false)) ∨
    ∃ more, b.promoted = (cut '\n' b.text).1.takeWhile isBlank ++ "export ".toList ++ more := by
  unfold promoted
  rw [if_neg (by simp [declares])]
  dsimp only
  split
  · rename_i kept
    rw [Bool.or_eq_true, Bool.not_eq_true'] at kept
    exact .inl ⟨rfl, kept⟩
  · exact .inr ⟨_, List.append_assoc _ _ _⟩

theorem OpensPlainly.isExported (plainly : b.OpensPlainly p mode)
    (declares : b.kind.isDeclaration = true) : b.IsExported mode := by
  rcases promoted_cases declares with ⟨kept, line⟩ | ⟨more, added⟩
  · rcases plainly.exported_or with exported | promotable
    · rwa [IsExported, kept]
    · rcases line with starts | not
      · obtain ⟨rest, same⟩ := startsWith_iff.mp starts
        rw [same, isPromotable_export] at promotable
        cases promotable
      · rw [not] at promotable
        cases promotable
  · refine isExported_of_promoted (List.all_eq_true.mp List.all_takeWhile) ?_ added
    exact fun inside => not_mem_cut '\n' b.text ((List.takeWhile_prefix isBlank).subset inside)

end Block

namespace Layout

theorem identifierFor_isName (base : Text) : IsName (identifierFor base) := by
  have chars : ∀ t : Text, ∀ c ∈ t.map fun c => if isIdentChar c then c else '_', isIdentChar c = true := by
    intro t c member
    obtain ⟨d, _, rfl⟩ := List.mem_map.mp member
    split
    · assumption
    · rfl
  unfold identifierFor
  dsimp only
  split
  · exact ⟨by simp, List.all_eq_true.mp rfl⟩
  · rename_i c rest same
    split
    · exact ⟨by simp, List.forall_mem_cons.mpr ⟨by decide, chars _⟩⟩
    · exact ⟨by simp [same], chars _⟩

end Layout

namespace Plan

variable {classified : List (Block × Category)}

-- The names that are taken by name from the file of a category, as the written lines have them: by
-- the header of another file, by the index from the main file, or by the index for a list of
-- exports. Such a list may also name what is declared where it is exported as default, and that has
-- no other export.
inductive AsksFor (plan : Plan) (l : Layout) (c : Category) (n : Text) : Prop where
  | sibling {g : Group} {line : Text} {i : Import} (member : g ∈ plan.groups)
      (written : line ∈ plan.siblingImports l ⟨g⟩ g.declaredNames (plan.groups.map Draft.mk))
      (read : Import.read? line = some i) (source : i.source = l.categoryModule c)
      (named : ∃ s ∈ i.specifiers, s.name = n)
  | index {line : Text} {i : Import}
      (written : line ∈ plan.mainImport l (plan.groups.map Draft.mk))
      (read : Import.read? line = some i) (source : i.source = l.categoryModule c)
      (named : ∃ s ∈ i.specifiers, s.name = n)
  | list {entry asked : Specifier} {d : Draft} (kept : entry ∈ plan.exportAliases)
      (written : plan.aliasLine? l (plan.groups.map Draft.mk) entry =
        some (plan.exportLine asked.typeOnly (Style.braced asked.render) (l.categoryModule c)))
      (name : IsName asked.name) (asName : IsName asked.asName) (named : n = asked.name)
      (found : (plan.groups.map Draft.mk).find? (·.declares entry.name) = some d)
      (plain : ∀ b ∈ d.group.blocks, n ∈ b.names → b.isDefaultStatement = false)

variable {source : Source} {p : Patterns} {mode : DelimiterMode} {plan : Plan}

theorem mainName?_block {l : Layout} {drafts : List Draft} {main : Draft} {n : Text}
    (found : mainDraft? drafts = some main) (noDefault : main.holdsDefault = false)
    (name : plan.mainName? l drafts = some n) : ∃ b ∈ main.group.blocks, n ∈ b.names := by
  unfold mainName? at name
  rw [found] at name
  simp only [Option.bind_eq_bind, Option.bind_some, noDefault] at name
  obtain ⟨b, inside, first⟩ := List.exists_of_findSome?_eq_some name
  obtain ⟨head, _⟩ := Option.filter_eq_some_iff.mp first
  exact ⟨b, inside, List.mem_of_mem_head? head⟩

theorem mainName?_isName (parts : Parts source p mode plan classified) {l : Layout} {n : Text}
    (found : plan.mainName? l (plan.groups.map Draft.mk) = some n) : IsName n := by
  cases main : mainDraft? (plan.groups.map Draft.mk) with
  | none =>
    rw [mainName?, main] at found
    cases found
  | some d =>
    cases holds : d.holdsDefault with
    | true =>
      rw [mainName?, main] at found
      simp only [Option.bind_eq_bind, Option.bind_some, holds, if_true] at found
      cases found
      cases default : plan.defaultName with
      | none => exact Layout.identifierFor_isName _
      | some name =>
        rw [parts.defaultName] at default
        exact DefaultExport.name?_isName default
    | false =>
      obtain ⟨b, inside, named⟩ := mainName?_block main holds found
      obtain ⟨g, member, rfl⟩ := List.mem_map.mp (List.mem_of_find?_eq_some main)
      have scanned := (parts.group_declares member inside (List.ne_nil_of_mem named)).1
      exact scan_block_isName scanned n named

theorem Parts.aliases_origin (parts : Parts source p mode plan classified) :
    ∀ entry ∈ plan.exportAliases, ∃ b ∈ (scan p mode source.lines).blocks, ∃ entries start,
      b.place = .aliases entries start ∧ entry ∈ entries := by
  intro entry kept
  obtain ⟨line, placed⟩ := parts.aliases entry kept
  obtain ⟨placement, found, listed⟩ := List.mem_flatMap.mp placed
  obtain ⟨b, member, rfl⟩ := List.mem_map.mp found
  cases placed : b.place with
  | aliases entries start =>
    rw [placed] at listed
    obtain ⟨_, inside, same⟩ := List.mem_map.mp listed
    cases same
    exact ⟨b, member, entries, _, placed, inside⟩
  | _ =>
    rw [placed] at listed
    cases listed

theorem braced_inj {a b x y : Text} (plain : '}' ∉ a) (plain' : '}' ∉ b)
    (same : Style.braced a ++ x = Style.braced b ++ y) : a = b ∧ x = y := by
  have parts : ∀ t rest : Text, Style.braced t ++ rest = "\x7b ".toList ++ ((t ++ [' ']) ++ '}' :: rest) := by
    simp [Style.braced]
  have inside : ∀ {t : Text}, '}' ∉ t → '}' ∉ t ++ [' '] := by
    intro t plain
    simpa using plain
  rw [parts, parts] at same
  have pieces := congrArg (cut '}') (List.append_cancel_left same)
  rw [cut_some (inside plain), cut_some (inside plain')] at pieces
  obtain ⟨front, behind⟩ := Prod.mk.inj pieces
  exact ⟨List.append_cancel_right front, Option.some.inj behind⟩

theorem exportLine_inj {s t : Specifier} {m n : Text} (name : IsName s.name) (asName : IsName s.asName)
    (name' : IsName t.name) (asName' : IsName t.asName) (same : plan.exportLine s.typeOnly (Style.braced s.render) m =
      plan.exportLine t.typeOnly (Style.braced t.render) n) : s = t ∧ m = n := by
  have kinds : s.typeOnly = t.typeOnly := by
    have marks := congrArg (fun line => (line.drop 7).head?) same
    cases left : s.typeOnly <;> cases right : t.typeOnly <;> rw [left, right] at marks
    · exact absurd (Option.some.inj marks) (by decide)
    · exact absurd (Option.some.inj marks) (by decide)
  rw [exportLine, exportLine, kinds, List.append_assoc, List.append_assoc, List.append_assoc, List.append_assoc] at same
  obtain ⟨entries, modules⟩ := braced_inj (s.not_mem_render name asName rfl (by decide))
    (t.not_mem_render name' asName' rfl (by decide)) (List.append_cancel_left same)
  have read := Specifier.specifier?_render name asName
  rw [entries, Specifier.specifier?_render name' asName'] at read
  have quoted := List.append_cancel_right (List.append_cancel_left (List.append_cancel_left modules))
  exact ⟨(Option.some.inj read).symm, List.append_cancel_right (List.cons.inj quoted).2⟩

theorem asksFor_sibling (built : build source p mode = .ok plan) {l : Layout} {c : Category} {n line : Text} {d : Draft}
    {seen : List Text} {i : Import} (written : line ∈ plan.siblingImports l d seen (plan.groups.map Draft.mk))
    (read : Import.read? line = some i) (source : i.source = l.categoryModule c) (named : ∃ s ∈ i.specifiers, s.name = n) :
    ∃ g ∈ plan.groups, g.category = c ∧ n ∈ (Draft.mk g).named := by
  rw [siblingImports_eq] at written
  obtain ⟨k, listed, rfl⟩ := List.mem_map.mp written
  have legible := (Import.read?_legible read).2
  rw [source, Layout.categoryModule_legible] at legible
  rw [siblings_read built legible k listed] at read
  cases read
  obtain ⟨other, _, _, taken, _⟩ := siblings_from (fun _ listed => listed) _ listed
  obtain ⟨s, entry, rfl⟩ := named
  exact ⟨other, taken.listed, l.categoryModule_injective (taken.source.symm.trans source), (taken.named s entry).2⟩

theorem asksFor_index (built : build source p mode = .ok plan) {l : Layout} {c : Category} {n line : Text} {i : Import}
    (written : line ∈ plan.mainImport l (plan.groups.map Draft.mk)) (read : Import.read? line = some i)
    (source : i.source = l.categoryModule c) (named : ∃ s ∈ i.specifiers, s.name = n) :
    ∃ g ∈ plan.groups, g.category = c ∧ n ∈ (Draft.mk g).named := by
  obtain ⟨classified, parts⟩ := build_parts built
  obtain ⟨imports, same, _, taken⟩ := plan.mainImport_eq l
  rw [same] at written
  obtain ⟨k, listed, rfl⟩ := List.mem_map.mp written
  obtain ⟨main, m, found, name, rfl, _⟩ := taken k listed
  have legible := (Import.read?_legible read).2
  rw [source, Layout.categoryModule_legible] at legible
  have isName := mainName?_isName parts name
  rw [Style.statement_read (build_quote built) (Layout.categoryModule_legible.mpr legible) ?_ ?_] at read
  · cases read
    have isMain := l.categoryModule_injective source
    obtain ⟨s, entry, rfl⟩ := named
    cases holds : main.holdsDefault with
    | true =>
      rw [holds] at entry
      cases entry
    | false =>
      rw [holds] at entry
      cases List.mem_singleton.mp entry
      obtain ⟨g, member, rfl⟩ := List.mem_map.mp (List.mem_of_find?_eq_some found)
      have first : g.category = .main :=
        of_decide_eq_true (List.find?_some (p := fun d : Draft => decide (d.category = .main)) found)
      obtain ⟨b, inside, named⟩ := mainName?_block found holds name
      have plain : b.isDefaultStatement = false := by
        simpa using List.any_eq_false.mp holds b inside
      exact ⟨g, member, first.trans isMain, mem_named.mpr
        ⟨b, inside, plain, (parts.group_declares member inside (List.ne_nil_of_mem named)).2, named⟩⟩
  · intro n default
    split at default
    · cases default
      exact isName
    · cases default
  · split
    · simp
    · simpa using isName

theorem asksFor_named (built : build source p mode = .ok plan) {l : Layout} {c : Category} {n : Text} (asked : plan.AsksFor l c n) :
    ∃ g ∈ plan.groups, g.category = c ∧ n ∈ (Draft.mk g).named := by
  obtain ⟨classified, parts⟩ := build_parts built
  cases asked with
  | sibling _ written read source named => exact asksFor_sibling built written read source named
  | index written read source named => exact asksFor_index built written read source named
  | @list entry asked d kept written name asName named found plain =>
    obtain ⟨b, _, entries, start, placed, inside⟩ := parts.aliases_origin entry kept
    obtain ⟨name', asName'⟩ := ExportList.read?_isName (Block.place_aliases placed) entry inside
    have line : plan.aliasLine? l (plan.groups.map Draft.mk) entry =
        some (plan.exportLine entry.typeOnly (Style.braced entry.render) (l.categoryModule d.category)) := by
      rw [aliasLine?, found]
      rfl
    rw [line] at written
    obtain ⟨rfl, modules⟩ := exportLine_inj name' asName' name asName (Option.some.inj written)
    obtain ⟨g, member, rfl⟩ := List.mem_map.mp (List.mem_of_find?_eq_some found)
    have declared := List.find?_some found
    rw [← named] at declared
    obtain ⟨b, inside, named⟩ : ∃ b ∈ g.blocks, n ∈ b.names := by
      simpa [Draft.declares, Group.declaredNames] using declared
    exact ⟨g, member, l.categoryModule_injective modules, mem_named.mpr ⟨b, inside, plain b inside named,
      (parts.group_declares member inside (List.ne_nil_of_mem named)).2, named⟩⟩

theorem mem_namedExports {output : OutputMode} {path : Path} {names : List Text} :
    (path, names) ∈ (plan.synthesize output).namedExports ↔ ∃ g ∈ plan.groups,
      path = (Layout.mk plan.source.path output).categoryPath g.category ∧ names = (Draft.mk g).named := by
  unfold synthesize
  split
  · rename_i empty
    have none : plan.groups = [] := by simpa [isEmpty] using empty
    simp [none]
  · simp [Draft.category, eq_comm]

-- A name that is listed for a file is exported there by a block that declares it, if that block
-- opens plainly; and the other files ask for listed names only.
theorem build_named_exported (built : build source p mode = .ok plan) (output : OutputMode) {n : Text}
    (plainly : ∀ b ∈ (scan p mode source.lines).blocks, n ∈ b.names → b.OpensPlainly p mode) :
    (∀ path names, (path, names) ∈ (plan.synthesize output).namedExports → n ∈ names → ∃ g ∈ plan.groups, ∃ header,
        ⟨path, header ++ joinWith "\n\n" (g.blocks.map (·.promoted)) ++ ['\n']⟩ ∈ (plan.synthesize output).files ∧
        ∃ b ∈ g.blocks, n ∈ b.names ∧ b.IsExported mode) ∧ ∀ c, plan.AsksFor ⟨source.path, output⟩ c n →
      ∃ names, ((Layout.mk source.path output).categoryPath c, names) ∈ (plan.synthesize output).namedExports ∧ n ∈ names := by
  obtain ⟨classified, parts⟩ := build_parts built
  constructor
  · intro path names listed named
    obtain ⟨g, member, rfl, rfl⟩ := mem_namedExports.mp listed
    have file := category_file output member rfl rfl
    obtain ⟨b, inside, _, declares, named⟩ := mem_named.mp named
    have scanned := (parts.group_declares member inside (List.ne_nil_of_mem named)).1
    exact ⟨g, member, _, file, b, inside, named, (plainly b scanned named).isExported declares⟩
  · intro c asked
    obtain ⟨g, member, rfl, named⟩ := asksFor_named built asked
    exact ⟨_, mem_namedExports.mpr ⟨g, member, by rw [parts.origin], rfl⟩, named⟩

def patternSource : Source :=
  Source.ofText "const \x7b a = '\x7d', b \x7d = f(); // list\nasync function f() \x7b\x7d\n".toList
    (Path.ofString "/src/m.ts")

theorem build_named_exported_pattern : ∃ plan path names g, build patternSource .bare .literalAware = .ok plan ∧
      (path, names) ∈ (plan.synthesize .sibling).namedExports ∧ "b".toList ∈ names ∧
      (∀ b ∈ (scan .bare .literalAware patternSource.lines).blocks, "b".toList ∈ b.names → b.OpensPlainly .bare .literalAware) ∧
      g ∈ plan.groups ∧ ∃ b ∈ g.blocks, "b".toList ∈ b.names ∧ b.IsExported .literalAware := by
  have run : (build patternSource .bare .literalAware).toOption.map (fun plan =>
      (plan.synthesize .sibling).namedExports.map (·.2)) =
      some [["a".toList, "b".toList], ["f".toList]] := by
    decide +kernel
  have plainly : ∀ b ∈ (scan .bare .literalAware patternSource.lines).blocks, "b".toList ∈ b.names →
      b.OpensPlainly .bare .literalAware := by
    decide +kernel
  obtain ⟨plan, built, values⟩ := Result.of_run run
  have listed : ["a".toList, "b".toList] ∈ (plan.synthesize .sibling).namedExports.map (·.2) := by
    rw [values]
    exact List.mem_cons_self
  obtain ⟨⟨path, names⟩, member, rfl⟩ := List.mem_map.mp listed
  obtain ⟨g, grouped, _, _, exported⟩ := (build_named_exported built .sibling plainly).1 path _ member (by decide)
  exact ⟨plan, path, _, g, built, member, by decide, plainly, grouped, exported⟩

-- A comment in front of the declaration: the name is listed and not exported.
def commentedSource : Source :=
  Source.ofText "/* c */ const x = 1;\n".toList (Path.ofString "/src/m.ts")

theorem build_named_exported_commented : ∃ plan, build commentedSource .bare .literalAware = .ok plan ∧
      (plan.synthesize .sibling).namedExports.map (·.2) = [["x".toList]] ∧
      ∀ g ∈ plan.groups, ∀ b ∈ g.blocks, ¬b.IsExported .literalAware := by
  have run : (build commentedSource .bare .literalAware).toOption.map (fun plan =>
      ((plan.synthesize .sibling).namedExports.map (·.2),
        decide (∀ g ∈ plan.groups, ∀ b ∈ g.blocks, ¬b.IsExported .literalAware))) =
      some ([["x".toList]], true) := by
    decide +kernel
  obtain ⟨plan, built, values⟩ := Result.of_run run
  simp only [Prod.mk.injEq] at values
  exact ⟨plan, built, values.1, of_decide_eq_true values.2⟩

end Plan

end ModuleSplit
