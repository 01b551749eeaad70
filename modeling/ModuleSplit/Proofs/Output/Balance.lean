import ModuleSplit.Proofs.Block.Endings
import ModuleSplit.Proofs.Block.Rendering
import ModuleSplit.Proofs.Output.DefaultExport
import ModuleSplit.Proofs.Output.Rebasing
import ModuleSplit.Proofs.Output.Suppliers

-- A category file counts the braces of its own blocks: all that is added to them balances.

namespace ModuleSplit

open List Text Option

def Piece (t : Text) : Prop :=
  (t.all fun c => isPlainCode c && c != '\n') = true ∧ (Tally.ofText t).braces = 0

namespace Piece

variable {t : Text}

theorem append {a b : Text} (left : Piece a) (right : Piece b) : Piece (a ++ b) := by
  refine ⟨?_, ?_⟩
  · rw [all_append, left.1, right.1]
    rfl
  · rw [Tally.ofText_append, left.2, right.2]
    rfl

theorem joinWith {sep : String} (between : Piece sep.toList) {ts : List Text}
    (pieces : ∀ t ∈ ts, Piece t) : Piece (joinWith sep ts) := by
  induction ts with
  | nil => exact ⟨rfl, rfl⟩
  | cons t ts ih =>
    rw [forall_mem_cons] at pieces
    cases ts with
    | nil =>
      rw [Text.joinWith, intercalate_singleton]
      exact pieces.1
    | cons u ts =>
      rw [Text.joinWith, intercalate_cons_cons]
      exact (pieces.1.append between).append (ih pieces.2)

theorem braced (piece : Piece t) : Piece (Style.braced t) := by
  refine ⟨?_, ?_⟩
  · rw [Style.braced, all_append, all_append, piece.1]
    rfl
  · rw [Style.braced, Tally.ofText_append, Tally.ofText_append, piece.2]
    rfl

theorem isPlainCode (piece : Piece t) : ∀ c ∈ t, isPlainCode c = true := fun c member =>
  (Bool.and_eq_true_iff.mp (all_eq_true.mp piece.1 c member)).1

theorem line (piece : Piece t) : '\n' ∉ t := fun inside =>
  absurd (all_eq_true.mp piece.1 '\n' inside) (by decide)

theorem neutral (piece : Piece t) : Neutral t := by
  have swept : Cursor.sweep {} t = ({}, 0) := by
    have alone := Cursor.sweep_lead piece.isPlainCode []
    rw [append_nil, piece.2] at alone
    exact alone
  exact .of_line piece.line (by rw [swept]; rfl) (by rw [swept])

theorem neutral_quoted {lead m ending : Text} {quote : Char} (piece : Piece lead)
    (isQuote : IsQuote quote) (inner : InQuotes m) (ends : ending = [] ∨ ending = [';']) :
    Neutral (lead ++ (Import.quoted quote m ++ ending)) := by
  obtain ⟨closed, level⟩ := Cursor.sweep_quoted piece.isPlainCode isQuote (inner.not_mem isQuote) ends
  refine .of_line ?_ closed (level.trans piece.2)
  have quotes : quote ≠ '\n' := by
    rcases isQuote with rfl | rfl <;> decide
  have behind : '\n' ∉ ending := by
    rcases ends with rfl | rfl <;> simp
  simp [Import.quoted, piece.line, inner.line, quotes.symm, behind]

end Piece

inductive Added (Module : Text → Prop) : Text → Prop where
  | piece {t : Text} (piece : Piece t) : Added Module t
  | naming {lead m : Text} {s : Style} (piece : Piece lead) (isQuote : IsQuote s.quote)
      (inner : Module m) : Added Module (lead ++ s.moduleText m)

namespace Added

variable {Module : Text → Prop}

theorem neutral {line : Text} (added : Added InQuotes line) : Neutral line := by
  cases added with
  | piece piece => exact piece.neutral
  | @naming lead m s piece isQuote inner => exact piece.neutral_quoted isQuote inner s.ending_cases

theorem fromModule {lead m : Text} (piece : Piece lead) {s : Style} (isQuote : IsQuote s.quote)
    (inner : Module m) : Added Module (lead ++ [' '] ++ s.fromModule m) := by
  have whole : lead ++ [' '] ++ s.fromModule m = lead ++ " from ".toList ++ s.moduleText m := by
    rw [append_assoc, append_assoc]
    rfl
  rw [whole]
  exact .naming (piece.append ⟨rfl, rfl⟩) isQuote inner

theorem forwardAll {m : Text} {s : Style} (isQuote : IsQuote s.quote) (inner : Module m) :
    Added Module (Plan.forwardAll s m) := by
  rw [forwardAll_eq]
  exact .naming ⟨rfl, rfl⟩ isQuote inner

theorem forwardDefault {m : Text} {s : Style} (isQuote : IsQuote s.quote) (inner : Module m) :
    Added Module (Plan.forwardDefault s m) := by
  rw [forwardDefault_eq]
  exact .naming ⟨rfl, rfl⟩ isQuote inner

end Added

theorem IsName.piece {n : Text} (name : IsName n) : Piece n := by
  have others : ∀ d ∈ ['/', '\'', '"', '`', '\n', '\x7b', '\x7d'], (!isIdentChar d) = true := List.all_eq_true.mp rfl
  have apart : ∀ c ∈ n, ∀ d ∈ ['/', '\'', '"', '`', '\n', '\x7b', '\x7d'], c ≠ d := by
    rintro c member d other rfl
    have outside := others _ other
    rw [name.chars _ member] at outside
    cases outside
  refine ⟨all_eq_true.mpr fun c member => ?_, Tally.braces_of_plain ?_ ?_⟩
  · have plain := apart c member
    simp only [forall_mem_cons] at plain
    simp [isPlainCode, plain.1, plain.2.1, plain.2.2.1, plain.2.2.2.1, plain.2.2.2.2.1]
  · exact fun inside => apart _ inside '\x7b' (by simp) rfl
  · exact fun inside => apart _ inside '\x7d' (by simp) rfl

theorem Specifier.render_piece {s : Specifier} (name : IsName s.name) (other : IsName s.asName) : Piece s.render := by
  unfold Specifier.render
  refine Piece.append ?_ ?_
  · split <;> exact ⟨rfl, rfl⟩
  · split
    · exact name.piece
    · exact (name.piece.append ⟨rfl, rfl⟩).append other.piece

theorem Style.importLine_added {Module : Text → Prop} {s : Style} (isQuote : IsQuote s.quote)
    {source : Text} (inner : Module source) {default? : Option Text} {names : List Text}
    (first : ∀ n, default? = some n → IsName n) (listed : ∀ n ∈ names, IsName n) :
    Added Module (s.importLine source default? names) := by
  have word : Piece "import ".toList := ⟨rfl, rfl⟩
  have parts : Piece (joinWith ", " (default?.toList ++ if names.isEmpty then [] else [braced (joinWith ", " names)])) := by
    refine Piece.joinWith ⟨rfl, rfl⟩ fun t member => ?_
    rcases mem_append.mp member with default | braced
    · exact (first t (mem_toList.mp default)).piece
    · split at braced
      · cases braced
      · rw [mem_singleton.mp braced]
        exact (Piece.joinWith ⟨rfl, rfl⟩ fun n member => (listed n member).piece).braced
  unfold Style.importLine
  dsimp only
  generalize default?.toList ++ _ = bindings at parts
  split
  · exact .naming word isQuote inner
  · rw [← append_assoc, ← append_assoc]
    exact .fromModule (word.append parts) isQuote inner

theorem Import.render_neutral {i : Import} (named : i.WellNamed) (isQuote : IsQuote i.quote)
    (inner : InQuotes i.source) : Neutral i.render := by
  have ends : (if i.semicolon then [';'] else []) = [] ∨ (if i.semicolon then [';'] else []) = [';'] := by
    cases i.semicolon <;> simp
  have bound : ∀ n, n ∈ i.names → IsName n := named.bound
  unfold ImportContent.names at bound
  simp only [forall_mem_append] at bound
  obtain ⟨⟨default, space⟩, listed⟩ := bound
  unfold Import.render
  dsimp only
  split
  · exact Piece.neutral_quoted (show Piece "import ".toList from ⟨rfl, rfl⟩) isQuote inner ends
  · refine Piece.neutral_quoted (Piece.append (Piece.append ?_ ?_) ⟨rfl, rfl⟩) isQuote inner ends
    · split <;> exact ⟨rfl, rfl⟩
    · refine Piece.joinWith ⟨rfl, rfl⟩ fun t member => ?_
      rcases mem_append.mp member with outside | braced
      · rcases mem_append.mp outside with own | star
        · exact (default t own).piece
        · obtain ⟨n, same, rfl⟩ := map_eq_some_iff.mp (mem_toList.mp star)
          exact Piece.append ⟨rfl, rfl⟩ (space n (mem_toList.mpr same)).piece
      · split at braced
        · cases braced
        · rw [mem_singleton.mp braced]
          refine Piece.braced (Piece.joinWith ⟨rfl, rfl⟩ fun u member => ?_)
          obtain ⟨s, known, rfl⟩ := mem_map.mp member
          exact s.render_piece (named.listed s known) (listed _ (mem_map_of_mem known))

theorem Layout.categoryModule_inQuotes {l : Layout} (base : InQuotes l.baseName) (c : Category) :
    InQuotes (l.categoryModule c) := by
  have word : InQuotes c.text := by
    cases c <;> exact inQuotes_of_all rfl
  exact (inQuotes_of_all rfl).append ((base.append (inQuotes_of_all rfl)).append word)

theorem Layout.indexModule_inQuotes {l : Layout} (base : InQuotes l.baseName) : InQuotes l.indexModule := by
  unfold Layout.indexModule
  cases l.mode <;> exact ((inQuotes_of_all (m := "./".toList) rfl).append base).append (inQuotes_of_all rfl)

section Blocks

variable {p : Patterns} {lines : List Text} {b : Block}

structure Block.CleanIn (b : Block) (lines : List Text) : Prop where
  start : contextAt lines b.start = {}
  stop : contextAt lines b.stop = {}

theorem scan_block_visible (member : b ∈ (scan p .literalAware lines).blocks) : ∃ c ∈ b.text, isBlank c = false := by
  have shown : ∀ (lines : List Text) (s : Cursor), ∀ step ∈ (Lexer.literal s).trace lines,
      ∀ c ∈ step.1.code, c = ' ' ∨ c ∈ step.1.text := by
    intro lines
    induction lines with
    | nil => simp [Lexer.trace]
    | cons line rest ih =>
      intro s
      rw [Lexer.trace, forall_mem_cons]
      exact ⟨s.atLineStart.render_shown {} line, ih _⟩
  obtain ⟨e, found, rfl⟩ := mem_scan_blocks.mp member
  obtain ⟨extent, bound, line, here, code⟩ := scan_block_extent member
  obtain ⟨c, inside, visible⟩ : ∃ c ∈ line.code, isBlank c = false := by
    simpa [LineSummary.isBlankCode, isBlankText] using code
  have listed : line ∈ linesBetween e.start e.stop (summarize .literalAware lines) := by
    refine mem_of_getElem? (i := 0) ?_
    have positive : 0 < e.stop - e.start := Nat.sub_pos_of_lt extent
    rw [linesBetween, getElem?_take_of_lt positive, getElem?_drop]
    exact here
  refine ⟨c, (infix_intercalate (mem_map_of_mem listed)).subset ?_, visible⟩
  obtain ⟨step, traced, rfl⟩ := mem_map.mp (mem_of_getElem? here)
  rcases shown lines {} step traced c inside with rfl | own
  · cases visible
  · exact own

theorem scan_block_sealed (plain : ∀ l ∈ lines, '\n' ∉ l)
    (member : b ∈ (scan p .literalAware lines).blocks) (clean : b.CleanIn lines) : Sealed b.text := by
  obtain ⟨extent, -, -⟩ := scan_block_extent member
  have context := contextAt_add lines b.start (b.stop - b.start)
  rw [Nat.add_sub_cancel' (Nat.le_of_lt extent), clean.start, clean.stop] at context
  rw [Sealed, scan_block_lines plain member]
  exact context.symm

theorem summarize_between (lines : List Text) (start stop : Nat) :
    ((linesBetween start stop (summarize .literalAware lines)).map (·.braceDelta)).sum =
      (contextAt lines start).balance (linesBetween start stop lines) := by
  rw [linesBetween, linesBetween, summarize, ← map_drop, ← map_take, Lexer.start,
    Lexer.trace_drop, Lexer.trace_take, Cursor.lexer_after_literal, List.map_map, contextAt,
    Cursor.balance_atLineStart, ← Cursor.balance_trace]
  rfl

theorem scan_import_neutral (plain : ∀ l ∈ lines, '\n' ∉ l)
    (member : b ∈ (scan p .literalAware lines).blocks) (clean : b.CleanIn lines) (kind : b.kind = .import_)
    (calm : ∀ w ∈ (scan p .literalAware lines).warnings, ¬b.Holds w) : Neutral b.text := by
  refine ⟨scan_block_sealed plain member clean, ?_⟩
  rw [braceBalance_literalAware, scan_block_lines plain member, ← clean.start, ← summarize_between]
  obtain ⟨e, found, rfl⟩ := mem_scan_blocks.mp member
  obtain ⟨ends, declaration, -⟩ := extents_end p .literalAware lines e found
  have extent : e.start < e.stop := (scan_block_extent member).1
  have braces : (declarationAt p (summarize .literalAware lines) e.start).countsBraces = true := by
    rw [← declaration, Declaration.countsBraces]
    have shown : e.kind p (summarize .literalAware lines) = .import_ := kind
    unfold Extent.kind at shown
    split at shown
    · rename_i list
      rw [list]
      rfl
    · split at shown
      · cases shown
      · simp [shown]
  have quiet : e.warning? = none := by
    rw [eq_none_iff_forall_ne_some]
    exact fun w warned => calm w (mem_filterMap.mpr ⟨e, found, warned⟩) (Extent.warning?_line extent warned)
  have closing : e.closing = .complete := by
    unfold Extent.warning? at quiet
    cases closing : e.closing with
    | complete => rfl
    | unbalanced =>
      rw [closing] at quiet
      cases quiet
    | endOfSource =>
      rw [closing] at quiet
      cases quiet
  rw [closing] at ends
  cases ends with
  | complete _ _ closes =>
    have level := closes.level
    rw [Nat.sub_add_cancel (Nat.one_le_of_lt extent), depthBefore, runningDepth, braces] at level
    exact level

end Blocks

def Group.ownBalance (g : Group) : Int := (g.blocks.map fun b => braceBalance .literalAware b.text).sum

def imbalance (n : Int) : TextFault := if 0 < n then .unclosed n.natAbs else .unmatched n.natAbs

theorem checkText_visible {mode : DelimiterMode} {t : Text} (visible : isBlankText t = false) : checkText mode t =
      if braceBalance mode t = 0 then none else some (imbalance (braceBalance mode t)) := by
  rw [checkText, if_neg (by simp [visible])]
  generalize braceBalance mode t = n
  cases n with
  | negSucc n => rfl
  | ofNat n =>
    cases n with
    | zero => rfl
    | succ n =>
      have positive : 0 < Int.ofNat (n + 1) := Int.natCast_succ_pos n
      rw [if_neg (Int.ne_of_gt positive), imbalance, if_pos positive]
      rfl

def Group.faultLine (l : Layout) (g : Group) : Text :=
  (l.categoryPath g.category).name ++ ": ".toList ++ (imbalance g.ownBalance).message

-- A source whose blocks start and stop in plain code, and whose imports close as they should.
structure CleanCut (source : Source) (p : Patterns) : Prop where
  plain : ∀ l ∈ source.lines, '\n' ∉ l
  base : InQuotes source.path.stem
  blocks : ∀ b ∈ (scan p .literalAware source.lines).blocks, b.CleanIn source.lines
  imports : ∀ b ∈ (scan p .literalAware source.lines).importBlocks,
    ∀ w ∈ (scan p .literalAware source.lines).warnings, ¬b.Holds w

namespace Plan

def modules (plan : Plan) : List Text :=
  plan.importTable.map (·.source) ++ plan.sideEffectImports.map (·.source) ++
    plan.reexports.map (·.source)

section Added

variable {source : Source} {p : Patterns} {mode : DelimiterMode} {plan : Plan} {l : Layout}
  {classified : List (Block × Category)} {Module : Text → Prop}
  (parts : Parts source p mode plan classified)

include parts

theorem mainExports_added : ∀ line ∈ plan.mainExports l (plan.groups.map Draft.mk), Added Module line := by
  have ending : Piece plan.style.ending := by
    rcases plan.style.ending_cases with none | semicolon
    · rw [none]
      exact ⟨rfl, rfl⟩
    · rw [semicolon]
      exact ⟨rfl, rfl⟩
  unfold mainExports
  split
  · simp
  · rename_i name found
    have isName := mainName?_isName parts found
    intro line member
    rcases mem_append.mp member with named | default
    · split at named
      · cases named
      · rw [mem_singleton.mp named]
        exact .piece ((Piece.append ⟨rfl, rfl⟩ isName.piece.braced).append ending)
    · split at default
      · cases default
      · rw [mem_singleton.mp default]
        exact .piece ((Piece.append ⟨rfl, rfl⟩ isName.piece).append ending)

variable (isQuote : IsQuote plan.style.quote) (modules : ∀ c, Module (l.categoryModule c))

include isQuote modules

theorem siblingImports_added {d : Draft} {seen : List Text} {groups : List Group} (listed : ∀ g ∈ groups, g ∈ plan.groups) :
    ∀ line ∈ plan.siblingImports l d seen (groups.map Draft.mk), Added Module line := by
  induction groups generalizing seen with
  | nil => simp [siblingImports]
  | cons other rest ih =>
    rw [forall_mem_cons] at listed
    rw [map_cons, siblingImports]
    split
    · exact ih listed.2
    · dsimp only
      split
      · exact ih listed.2
      · rw [forall_mem_cons]
        refine ⟨Style.importLine_added isQuote (modules _) ?_ ?_, ih listed.2⟩
        · intro n same
          have known := (mem_taken_default.mp (mem_toList.mpr same)).1
          rw [parts.defaultName] at known
          exact DefaultExport.name?_isName known
        · exact fun n taken => named_isName parts listed.1 n (mem_taken_names.mp taken).1

theorem mainImport_added : ∀ line ∈ plan.mainImport l (plan.groups.map Draft.mk), Added Module line := by
  unfold mainImport
  split
  · rename_i main name _ found
    have isName := mainName?_isName parts found
    intro line member
    rw [mem_singleton.mp member]
    split
    · exact Style.importLine_added isQuote (modules _) (by rintro n ⟨⟩; exact isName) (by simp)
    · exact Style.importLine_added isQuote (modules _) (by simp) (by simpa using isName)
  · simp

variable (imported : ∀ i ∈ plan.importTable, Module (i.rebase l.importDepth).source ∧ i.WellNamed)

include imported

theorem aliasLine?_added {entry : Specifier} (listed : entry ∈ plan.exportAliases) {line : Text}
    (found : plan.aliasLine? l (plan.groups.map Draft.mk) entry = some line) : Added Module line := by
  obtain ⟨b, -, entries, start, placed, inside⟩ := parts.aliases_origin entry listed
  obtain ⟨name, asName⟩ := ExportList.read?_isName (Block.place_aliases placed) entry inside
  have word : Piece (if entry.typeOnly then "export type " else "export ").toList := by
    split <;> exact ⟨rfl, rfl⟩
  unfold aliasLine? at found
  dsimp only at found
  split at found
  · cases found
    exact .fromModule (word.append (entry.render_piece name asName).braced) isQuote (modules _)
  · split at found
    · cases found
    · rename_i i known
      obtain ⟨rebased, named⟩ := imported i (mem_of_find?_eq_some known)
      split at found
      · cases found
        rw [← append_assoc]
        exact .fromModule (Piece.append ⟨rfl, rfl⟩ asName.piece) isQuote rebased
      · cases found
        rw [← append_assoc]
        refine .fromModule (word.append (Specifier.render_piece (s := ⟨_, entry.asName, false⟩) ?_ asName).braced) isQuote rebased
        dsimp only
        split
        · exact ⟨by simp, all_eq_true.mp rfl⟩
        · cases original : i.specifiers.find? (·.asName = entry.name) with
          | none => exact name
          | some s => exact named.listed s (mem_of_find?_eq_some original)

theorem indexLines_cases {line : Text} (member : line ∈ plan.indexLines l (plan.groups.map Draft.mk)) :
    (∃ i ∈ plan.sideEffectImports, (i.rebase l.importDepth).raw = line) ∨
      (∃ r ∈ plan.reexports, (r.rebase l.importDepth).raw = line) ∨ Added Module line := by
  unfold indexLines at member
  simp only [mem_append] at member
  rcases member with (((((effect | main) | forwarded) | all) | exported) | default) | renamed
  · exact .inl (mem_map.mp effect)
  · exact .inr (.inr (mainImport_added parts isQuote modules line main))
  · exact .inr (.inl (mem_map.mp forwarded))
  · obtain ⟨c, -, rfl⟩ := mem_map.mp all
    exact .inr (.inr (.forwardAll isQuote (modules c)))
  · exact .inr (.inr (mainExports_added parts line exported))
  · obtain ⟨c, -, rfl⟩ := mem_map.mp default
    exact .inr (.inr (.forwardDefault isQuote (modules c)))
  · obtain ⟨entry, listed, found⟩ := mem_filterMap.mp renamed
    exact .inr (.inr (aliasLine?_added parts isQuote modules imported listed found))

end Added

section Clean

variable {source : Source} {p : Patterns} {plan : Plan} {l : Layout} {g : Group}
  {classified : List (Block × Category)} (clean : CleanCut source p)
  (parts : Parts source p .literalAware plan classified)

include clean

theorem import_block_neutral {b : Block} (member : b ∈ (scan p .literalAware source.lines).blocks)
    (kind : b.kind = .import_) : Neutral b.text :=
  scan_import_neutral clean.plain member (clean.blocks b member) kind (clean.imports b (mem_filter.mpr ⟨member, by simp [kind]⟩))

include parts

theorem importTable_clean {i : Import} (listed : i ∈ plan.importTable) : Neutral i.raw ∧
    IsQuote i.quote ∧ InQuotes i.source ∧ i.WellNamed := by
  obtain ⟨b, member, kind, read, -⟩ := parts.importTable_origin listed
  have quoted := Import.read?_quoted read
  refine ⟨?_, quoted.isQuote, quoted.inQuotes, Import.read?_wellNamed read⟩
  rw [Import.read?_raw read]
  exact import_block_neutral clean member kind

theorem sideEffect_clean {i : Import} (listed : i ∈ plan.sideEffectImports) : Neutral i.raw ∧
    IsQuote i.quote ∧ InQuotes i.source := by
  rw [parts.sideEffectImports_eq] at listed
  obtain ⟨b, member, found⟩ := mem_filterMap.mp listed
  obtain ⟨kind, found⟩ := ite_none_right_eq_some.mp found
  have read := (filter_eq_some_iff.mp found).1
  have quoted := Import.read?_quoted read
  refine ⟨?_, quoted.isQuote, quoted.inQuotes⟩
  rw [Import.read?_raw read]
  exact import_block_neutral clean member kind

theorem reexport_clean {r : ReExport} (listed : r ∈ plan.reexports) : Neutral r.raw ∧ IsQuote r.quote ∧ InQuotes r.source := by
  rw [parts.reexports_eq] at listed
  obtain ⟨b, member, found⟩ := mem_filterMap.mp listed
  obtain ⟨⟨kind, -⟩, read⟩ := ite_none_right_eq_some.mp found
  have quoted := ReExport.read?_quoted read
  refine ⟨?_, quoted.isQuote, quoted.inQuotes⟩
  rw [ReExport.read?_raw read]
  exact import_block_neutral clean member kind

theorem group_import_neutral (member : g ∈ plan.groups) {i : Import}
    (listed : i ∈ g.imports) (keeps : ∀ m ∈ plan.modules, l.Keeps m) : Neutral (i.rebase l.importDepth).raw := by
  obtain ⟨markup, -, imports⟩ := parts.imports g member
  rw [imports] at listed
  obtain ⟨j, known, part, _⟩ := Import.select_part listed
  obtain ⟨neutral, isQuote, inner, named⟩ := importTable_clean clean parts known
  have kept : l.Keeps j.source := keeps _ (mem_append_left _ (mem_append_left _ (mem_map_of_mem known)))
  rw [← part.quote] at isQuote
  rw [← part.source] at inner kept
  refine (Import.alike_rebase isQuote inner kept).neutral ?_
  rcases part.written with rfl | anew
  · exact neutral
  · rw [anew]
    exact Import.render_neutral (part.wellNamed named) isQuote inner

variable (isQuote : IsQuote plan.style.quote) (base : InQuotes l.baseName)

include isQuote base

theorem indexLines_neutral (keeps : ∀ m ∈ plan.modules, l.Keeps m) :
    ∀ line ∈ plan.indexLines l (plan.groups.map Draft.mk), Neutral line := by
  intro line member
  have imported : ∀ i ∈ plan.importTable, InQuotes (i.rebase l.importDepth).source ∧ i.WellNamed := by
    intro i listed
    obtain ⟨-, -, inner, named⟩ := importTable_clean clean parts listed
    rw [Import.rebase_source]
    exact ⟨ModuleName.rebase_inQuotes inner _, named⟩
  obtain ⟨i, listed, rfl⟩ | ⟨r, listed, rfl⟩ | added :=
    indexLines_cases parts isQuote (Layout.categoryModule_inQuotes base) imported member
  · obtain ⟨neutral, isQuote, inner⟩ := sideEffect_clean clean parts listed
    have kept := keeps i.source (mem_append_left _ (mem_append_right _ (mem_map_of_mem listed)))
    exact (Import.alike_rebase isQuote inner kept).neutral neutral
  · obtain ⟨neutral, isQuote, inner⟩ := reexport_clean clean parts listed
    have kept := keeps r.source (mem_append_right _ (mem_map_of_mem listed))
    exact (ReExport.alike_rebase isQuote inner kept).neutral neutral
  · exact added.neutral

omit parts isQuote base in
theorem group_block_alike (parts : Parts source p .literalAware plan classified)
    (member : g ∈ plan.groups) {b : Block} (inside : b ∈ g.blocks) :
    Sealed b.text ∧ Exported b.text b.promoted ∧ ∃ c ∈ b.text, isBlank c = false := by
  obtain ⟨c, scanned, kept⟩ := parts.group_origin member inside
  obtain ⟨-, -, text⟩ := Block.body?_extent kept
  have rest := scan_block_rest clean.plain scanned
  rw [← text] at rest
  refine ⟨?_, promoted_exported rest, ?_⟩
  · rw [text]
    exact scan_block_sealed clean.plain scanned (clean.blocks c scanned)
  · rw [text]
    exact scan_block_visible scanned

theorem categoryText_balance (keeps : ∀ m ∈ plan.modules, l.Keeps m) (member : g ∈ plan.groups) :
    braceBalance .literalAware (plan.categoryText l (plan.groups.map Draft.mk) ⟨g⟩) = g.ownBalance := by
  have blank : "\n\n".toList = ['\n'] ∨ "\n\n".toList = ['\n', '\n'] := .inr rfl
  have blocks : ∀ t ∈ g.blocks.map (·.promoted), Sealed t := by
    intro t listed
    obtain ⟨b, inside, rfl⟩ := mem_map.mp listed
    obtain ⟨closed, exported, -⟩ := group_block_alike clean parts member inside
    exact exported.alike.isSealed closed
  have own : ((g.blocks.map (·.promoted)).map (braceBalance .literalAware)).sum = g.ownBalance := by
    rw [List.map_map, Group.ownBalance]
    congr 1
    refine map_congr_left fun b inside => ?_
    exact (group_block_alike clean parts member inside).2.1.alike.balance.symm
  obtain ⟨body, balance⟩ := intercalate_balance blank blocks
  have header : Neutral (unlines (g.imports.map (fun i => (i.rebase l.importDepth).raw) ++
      plan.siblingImports l ⟨g⟩ g.declaredNames (plan.groups.map Draft.mk))) := by
    refine Neutral.unlines fun line listed => ?_
    rcases mem_append.mp listed with imported | sibling
    · obtain ⟨i, inside, rfl⟩ := mem_map.mp imported
      exact group_import_neutral clean parts member inside keeps
    · exact (siblingImports_added parts isQuote (Layout.categoryModule_inQuotes base) (fun _ known => known) line sibling).neutral
  unfold categoryText
  dsimp only
  split
  · exact body.closed.trans (balance.trans own)
  · obtain ⟨whole, sum⟩ := header.isSealed.join blank body
    refine whole.closed.trans (sum.trans ?_)
    rw [header.level, Int.zero_add, balance, own]

omit isQuote base in
theorem categoryText_visible (member : g ∈ plan.groups) :
    isBlankText (plan.categoryText l (plan.groups.map Draft.mk) ⟨g⟩) = false := by
  obtain ⟨b, inside⟩ := exists_mem_of_ne_nil _ (parts.mem_groups member).2.2
  obtain ⟨-, exported, c, own, visible⟩ := group_block_alike clean parts member inside
  obtain ⟨d, shown, visible⟩ : ∃ d ∈ b.promoted, isBlank d = false := by
    rcases exported with same | ⟨rest, -, added⟩
    · rw [same]
      exact ⟨c, own, visible⟩
    · rw [added]
      exact ⟨'e', by simp, rfl⟩
  rw [isBlankText, List.all_eq_false]
  refine ⟨d, ?_, by simp [visible]⟩
  have body : d ∈ (Draft.mk g).body := (infix_intercalate (mem_map_of_mem inside)).subset shown
  simp [categoryText, body]

theorem category_faults (keeps : ∀ m ∈ plan.modules, l.Keeps m) {groups : List Group}
    (known : ∀ g ∈ groups, g ∈ plan.groups) : (groups.map fun g => (⟨l.categoryPath g.category,
      plan.categoryText l (plan.groups.map Draft.mk) ⟨g⟩⟩ : OutputFile)).filterMap (·.fault? .literalAware) =
      (groups.filter (·.ownBalance ≠ 0)).map (·.faultLine l) := by
  induction groups with
  | nil => rfl
  | cons g groups ih =>
    rw [forall_mem_cons] at known
    rw [map_cons, filterMap_cons, OutputFile.fault?, checkText_visible (categoryText_visible clean parts known.1),
      categoryText_balance clean parts isQuote base keeps known.1, ih known.2]
    by_cases level : g.ownBalance = 0
    · rw [if_pos level, filter_cons_of_neg (by simp [level])]
      rfl
    · rw [if_neg level, filter_cons_of_pos (by simp [level])]
      rfl

omit clean isQuote base in
theorem indexLines_visible : plan.isEmpty = false →
    isBlankText (closedLines (plan.indexLines l (plan.groups.map Draft.mk))) = false := by
  intro filled
  have categories : plan.categories ≠ [] := by
    simpa [Plan.categories, Plan.isEmpty, List.isEmpty_iff] using filled
  obtain ⟨c, listed⟩ := exists_mem_of_ne_nil _ categories
  have order : c ∈ exportOrder (plan.groups.map Draft.mk) := parts.exportOrder_perm.mem_iff.mpr listed
  rw [isBlankText, List.all_eq_false]
  have line : forwardAll plan.style (l.categoryModule c) ∈ plan.indexLines l (plan.groups.map Draft.mk) := by
    simp only [indexLines, mem_append]
    exact .inl (.inl (.inl (.inr (mem_map_of_mem order))))
  refine ⟨'e', mem_append_left _ ((infix_intercalate line).subset ?_), by decide⟩
  rw [forwardAll_eq]
  exact mem_append_left _ (by decide)

omit clean parts in
theorem replacement_balance :
    braceBalance .literalAware (closedLines (plan.replacementLines l (plan.groups.map Draft.mk))) = 0 := by
  have inner := Layout.indexModule_inQuotes base
  have neutral : Neutral (unlines (plan.replacementLines l (plan.groups.map Draft.mk))) := by
    refine Neutral.unlines (forall_mem_cons.mpr ⟨?_, ?_⟩)
    · exact (Added.forwardAll isQuote inner).neutral
    · split
      · rw [forall_mem_singleton]
        exact (Added.forwardDefault isQuote inner).neutral
      · simp
  exact neutral.isSealed.closed.trans neutral.level

end Clean

end Plan

-- The braces of a synthesis are those of the blocks, and the check reports them as such.
structure BracesExact (plan : Plan) (s : Synthesis) : Prop where
  files : ∃ (text : Group → Text) (index : Text),
    s.files = plan.groups.map (fun g => ⟨s.layout.categoryPath g.category, text g⟩) ++
      (if plan.isEmpty then [] else [⟨s.layout.indexPath, index⟩]) ∧
    (∀ g ∈ plan.groups, braceBalance .literalAware (text g) = g.ownBalance) ∧
    braceBalance .literalAware index = 0
  replacement : braceBalance .literalAware s.replacement = 0
  errors : (analyze plan s .literalAware).errors =
    (plan.groups.filter (·.ownBalance ≠ 0)).map (·.faultLine s.layout)

namespace Plan

-- A category file counts the braces of its own blocks, the index and the replacement balance, and
-- the check names exactly the files whose own blocks do not. A relative module name must not lose
-- steps and hold what the lexer stops at.
theorem build_braces_exact {source : Source} {p : Patterns} {plan : Plan} (clean : CleanCut source p)
    (built : build source p .literalAware = .ok plan) (output : OutputMode)
    (keeps : output = .directory → ∀ m ∈ plan.modules, startsWith m "." = true →
      ModuleName.RebasesPlainly m) : BracesExact plan (plan.synthesize output) := by
  obtain ⟨classified, parts⟩ := build_parts built
  have isQuote := build_quote built
  have base : InQuotes (Layout.baseName ⟨plan.source.path, output⟩) := by
    rw [parts.origin]
    exact clean.base
  have kept : ∀ m ∈ plan.modules, (Layout.mk plan.source.path output).Keeps m :=
    fun m listed directory => keeps directory m listed
  have closed : Neutral (unlines (plan.indexLines ⟨plan.source.path, output⟩ (plan.groups.map Draft.mk))) :=
    Neutral.unlines (indexLines_neutral clean parts isQuote base kept)
  cases filled : plan.isEmpty with
  | true =>
    have none : plan.groups = [] := List.isEmpty_iff.mp filled
    have empty : plan.synthesize output = {layout := ⟨plan.source.path, output⟩} := if_pos filled
    rw [empty]
    refine ⟨⟨fun _ => [], [], ?_, ?_, rfl⟩, rfl, ?_⟩
    · simp [none, filled]
    · simp [none]
    · simp [none, analyze, Synthesis.isEmpty]
  | false =>
    have made : plan.synthesize output = _ := if_neg (by simp [filled])
    have level : braceBalance .literalAware (closedLines (plan.indexLines ⟨plan.source.path, output⟩
        (plan.groups.map Draft.mk))) = 0 := closed.isSealed.closed.trans closed.level
    rw [made, List.map_map]
    refine ⟨⟨_, _, ?_, fun g member => categoryText_balance clean parts isQuote base kept member,
      level⟩, replacement_balance isQuote base, ?_⟩
    · rw [filled, if_neg Bool.false_ne_true]
      rfl
    · have index : OutputFile.fault? .literalAware ⟨Layout.indexPath ⟨plan.source.path, output⟩,
          closedLines (plan.indexLines ⟨plan.source.path, output⟩ (plan.groups.map Draft.mk))⟩ =
          none := by
        rw [OutputFile.fault?, checkText_visible (indexLines_visible parts filled), if_pos level]
        rfl
      have faults := category_faults clean parts isQuote base kept fun _ known => known
      rw [analyze, if_neg (by simp [Synthesis.isEmpty])]
      show List.filterMap _ (_ ++ [_]) = _
      rw [filterMap_append, filterMap_cons, index]
      exact (append_nil _).trans faults

-- Two files take a part each of one import, an effect and a re-export go to the index, braces stand
-- in literals and comments, and the last block is left open.
def unfinishedSource : Source :=
  Source.ofText ("import \x7b a, b \x7d from './kit';\nimport \"../setup\";\n".toList ++
    "export * from './x y';\ntype T = \x7b k: 'x\x7d' \x7d;\nconst c = a(\x7b k: 1 \x7d); // \x7d\n".toList ++
    "function f() \x7b return `\x7b$\x7bb(c)\x7d`; \x7d\nconst o = \x7b\n".toList)
    (Path.ofString "/src/m.ts")

theorem build_braces_exact_unfinished : ∃ plan,
    build unfinishedSource .bare .literalAware = .ok plan ∧ CleanCut unfinishedSource .bare ∧
      (∀ m ∈ plan.modules, startsWith m "." = true → ModuleName.RebasesPlainly m) ∧
      BracesExact plan (plan.synthesize .directory) ∧ plan.groups.map (·.ownBalance) = [0, 1, 0] := by
  have run : (build unfinishedSource .bare .literalAware).toOption.map (fun plan =>
      (plan.modules, plan.groups.map (·.ownBalance))) =
      some (["./kit".toList, "../setup".toList, "./x y".toList], [0, 1, 0]) := by
    decide +kernel
  have contexts : ∀ b ∈ (scan .bare .literalAware unfinishedSource.lines).blocks,
      contextAt unfinishedSource.lines b.start = {} ∧ contextAt unfinishedSource.lines b.stop = {} := by
    decide +kernel
  have clean : CleanCut unfinishedSource .bare := ⟨source_lines_plain _ _, inQuotes_of_all (by decide +kernel),
      fun b member => ⟨(contexts b member).1, (contexts b member).2⟩, by decide +kernel⟩
  obtain ⟨plan, built, values⟩ := Result.of_run run
  obtain ⟨modules, balances⟩ := Prod.mk.inj values
  have keeps : ∀ m ∈ plan.modules, startsWith m "." = true → ModuleName.RebasesPlainly m := by
    rw [modules]
    decide +kernel
  exact ⟨plan, built, clean, keeps, build_braces_exact clean built .directory fun _ => keeps, balances⟩

-- Without its last slash the name ends in a backslash, which hides the quote behind it, and with it
-- the brace that the second line closes.
def backslashSource : Source :=
  Source.ofText "const a = 1;\nexport * from './b\\/'; \x7b\n\x7d\n".toList (Path.ofString "/src/m.ts")

theorem build_dropped_slash_unbalances_index : ∃ plan,
    build backslashSource .bare .literalAware = .ok plan ∧ CleanCut backslashSource .bare ∧ plan.groups.map (·.ownBalance) = [0] ∧
      (plan.synthesize .directory).files.map (fun f => braceBalance .literalAware f.text) = [0, -1] ∧
      (analyze plan (plan.synthesize .directory) .literalAware).errors =
        ["index.ts: unbalanced braces (1 unmatched '\x7d')".toList] := by
  have run : (build backslashSource .bare .literalAware).toOption.map (fun plan => (plan.groups.map (·.ownBalance),
        (plan.synthesize .directory).files.map (fun f => braceBalance .literalAware f.text),
        (analyze plan (plan.synthesize .directory) .literalAware).errors)) =
      some ([0], [0, -1], ["index.ts: unbalanced braces (1 unmatched '\x7d')".toList]) := by
    decide +kernel
  have contexts : ∀ b ∈ (scan .bare .literalAware backslashSource.lines).blocks,
      contextAt backslashSource.lines b.start = {} ∧ contextAt backslashSource.lines b.stop = {} := by
    decide +kernel
  have clean : CleanCut backslashSource .bare := ⟨source_lines_plain _ _, inQuotes_of_all (by decide +kernel),
      fun b member => ⟨(contexts b member).1, (contexts b member).2⟩, by decide +kernel⟩
  obtain ⟨plan, built, values⟩ := Result.of_run run
  obtain ⟨own, values⟩ := Prod.mk.inj values
  obtain ⟨files, errors⟩ := Prod.mk.inj values
  exact ⟨plan, built, clean, own, files, errors⟩

end Plan

end ModuleSplit
