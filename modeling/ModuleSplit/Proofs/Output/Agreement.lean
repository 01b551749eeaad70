import ModuleSplit.Proofs.Import.Comments
import ModuleSplit.Proofs.Output.Balance

namespace ModuleSplit

open List Text

variable {t line : Text}

structure PlainLine (line : Text) : Prop where
  quotes : ∀ c ∈ line, c ∉ ['\'', '"', '`']
  lineComment : ¬['/', '/'] <:+: line
  blockComment : ¬['/', '*'] <:+: line
  star : (trim line).head? ≠ some '*'

-- Code without literals and comments, and without lines that look like the inside of a comment.
structure LiteralFree (t : Text) : Prop where
  quotes : ∀ c ∈ t, c ∉ ['\'', '"', '`']
  lineComment : ¬['/', '/'] <:+: t
  blockComment : ¬['/', '*'] <:+: t
  star : ∀ line ∈ lines t, (trim line).head? ≠ some '*'

def PlainLines (t : Text) : Prop := ∀ line ∈ lines t, PlainLine line

theorem LiteralFree.plainLines (free : LiteralFree t) : PlainLines t := by
  intro line member
  have inside : line <:+: t := by
    rw [← unlines_lines t]
    exact infix_intercalate member
  exact ⟨fun c own => free.quotes c (inside.subset own), fun comment => free.lineComment (comment.trans inside),
    fun comment => free.blockComment (comment.trans inside), free.star line member⟩

theorem PlainLine.of_returned {plain : Text} (returned : Returned line plain) (known : PlainLine line) : PlainLine plain := by
  rcases returned with rfl | rfl
  · exact known
  · have inside : plain <:+: plain ++ ['\r'] := (prefix_append _ _).isInfix
    refine ⟨fun c own => known.quotes c (inside.subset own), fun comment => known.lineComment (comment.trans inside),
      fun comment => known.blockComment (comment.trans inside), ?_⟩
    have star := known.star
    rwa [trim_return] at star

theorem lines_foldCrLf (t : Text) : List.Forall₂ Returned (lines t) (lines (foldCrLf t)) := by
  fun_induction foldCrLf t with
  | case1 => exact .cons (.inl rfl) .nil
  | case2 rest ih => exact .cons (.inr rfl) ih
  | case3 c rest other ih =>
    unfold lines at ih ⊢
    rw [Text.splitOn, Text.splitOn]
    split
    · exact .cons (.inl rfl) ih
    · generalize Text.splitOn '\n' rest = old, Text.splitOn '\n' (foldCrLf rest) = new at ih ⊢
      cases ih with
      | nil => exact .cons (.inl rfl) .nil
      | cons first more =>
        refine .cons ?_ more
        rcases first with rfl | rfl
        · exact .inl rfl
        · exact .inr rfl

namespace Cursor

-- In structural code a character is taken as it is, unless it opens a literal or a comment.
theorem move_plain {c : Char} {next : Option Char} (quotes : c ∉ ['\'', '"', '`'])
    (comment : ¬(c = '/' ∧ (next = some '/' ∨ next = some '*'))) : Cursor.move {} c next = .one c true {} := by
  simp only [List.mem_cons, List.not_mem_nil, or_false, not_or] at quotes
  have line : ¬(c = '/' ∧ next = some '/') := fun both => comment ⟨both.1, .inl both.2⟩
  have block : ¬(c = '/' ∧ next = some '*') := fun both => comment ⟨both.1, .inr both.2⟩
  simp [move, moveCode, line, block, quotes]

theorem render_plainLine {line : Text} (quotes : ∀ c ∈ line, c ∉ ['\'', '"', '`'])
    (lineComment : ¬['/', '/'] <:+: line) (blockComment : ¬['/', '*'] <:+: line) (tally : Tally) :
    Cursor.render {} tally line = ⟨line, {}, line.foldl Tally.count tally⟩ := by
  induction line generalizing tally with
  | nil => rfl
  | cons c rest ih =>
    rw [forall_mem_cons] at quotes
    have later : rest <:+: c :: rest := (suffix_cons c rest).isInfix
    have step : Cursor.move {} c rest.head? = .one c true {} := by
      refine move_plain quotes.1 ?_
      rintro ⟨rfl, next⟩
      cases rest with
      | nil => simp at next
      | cons d rest =>
        have first : ['/', d] <:+: '/' :: d :: rest := (prefix_append ['/', d] rest).isInfix
        rcases next with same | same
        · cases same
          exact lineComment first
        · cases same
          exact blockComment first
    have rendered := ih quotes.2 (fun comment => lineComment (comment.trans later))
      (fun comment => blockComment (comment.trans later)) (tally.count c)
    cases rest with
    | nil => simp [render, show Cursor.move {} c none = _ from step]
    | cons d rest =>
      rw [render, show Cursor.move {} c (some d) = _ from step]
      exact congrArg (·.lead c) rendered

end Cursor

namespace PlainLine

variable {line : Text} (plain : PlainLine line)

include plain

theorem feed_literal : Cursor.feed {} line = (LineSummary.ofTally line line (Tally.ofText line) true false, {}) := by
  have rendered := Cursor.render_plainLine plain.quotes plain.lineComment plain.blockComment {}
  rw [Cursor.feed]
  simp only [show Cursor.atLineStart {} = {} from rfl, rendered]
  rfl

theorem feed_raw : RawCursor.feed {} line = (LineSummary.ofTally line line (Tally.ofText line) true false, {}) := by
  obtain ⟨left, right, whole, -, -⟩ := trim_append line
  have inside : trim line <:+: line := ⟨left, right, whole.symm⟩
  have apart : ∀ {lead : Text}, ¬lead <:+: line → lead.isPrefixOf (trim line) = false := by
    intro lead clear
    rw [Bool.eq_false_iff]
    exact fun starts => clear ((List.isPrefixOf_iff_prefix.mp starts).isInfix.trans inside)
  have star : startsWith (trim line) "*" = false := by
    rw [Bool.eq_false_iff]
    intro starts
    obtain ⟨tail, whole⟩ := isPrefixOf_iff_prefix.mp starts
    exact plain.star (whole ▸ rfl)
  have slashes : startsWith (trim line) "//" = false := apart plain.lineComment
  have block : startsWith (trim line) "/*" = false := apart plain.blockComment
  have code : RawCursor.looksLikeComment (trim line) = false := by
    rw [RawCursor.looksLikeComment, slashes, block, star]
    rfl
  have calm : RawCursor.opensComment (trim line) = false := by
    unfold RawCursor.opensComment
    split
    · rename_i inner found
      have starts : trim line = ['/', '*'] ++ inner := after?_eq_some.mp found
      exact absurd (starts ▸ prefix_append _ _ : ['/', '*'] <+: trim line).isInfix
        fun comment => plain.blockComment (comment.trans inside)
    · rfl
  simp [RawCursor.feed, RawCursor.next, code, calm]

end PlainLine

section Modes

variable {p : Patterns} {ls : List Text} (plain : ∀ line ∈ ls, PlainLine line)

include plain

theorem summarize_modes : summarize .raw ls = summarize .literalAware ls := by
  unfold summarize Lexer.start
  induction ls with
  | nil => rfl
  | cons line rest ih =>
    rw [forall_mem_cons] at plain
    simp only [Lexer.trace, Lexer.feed, plain.1.feed_raw, plain.1.feed_literal, map_cons]
    exact congrArg (_ :: ·) (ih plain.2)

theorem scan_modes : scan p .raw ls = scan p .literalAware ls := by
  rw [scan, scan, summarize_modes plain]

theorem scan_block_plainLines (unbroken : ∀ line ∈ ls, '\n' ∉ line) {mode : DelimiterMode}
    {b : Block} (member : b ∈ (scan p mode ls).blocks) : PlainLines b.text := by
  rw [PlainLines, scan_block_lines unbroken member]
  exact fun line inside => plain line (linesBetween_subset inside)

end Modes

theorem codeText_modes (plain : PlainLines t) : codeText .raw t = codeText .literalAware t := by
  rw [codeText, codeText, summarize_modes plain]

theorem classify_modes {p : Patterns} {name : Option Text} {blocks : List Block}
    (plain : ∀ b ∈ blocks, PlainLines b.text) : classify p .raw name blocks = classify p .literalAware name blocks := by
  unfold classify
  rw [mapM_congr fun b member => ?_]
  unfold Block.category?
  rw [summarize_modes (plain b member)]

theorem PlainLines.joinWith {ts : List Text} (plain : ∀ t ∈ ts, PlainLines t) : PlainLines (joinWith "\n\n" ts) := by
  have empty : PlainLine [] := ⟨by simp, by simp, by simp, by simp [trim, trimBy, trimRightBy, trimLeftBy]⟩
  induction ts with
  | nil => exact forall_mem_singleton.mpr empty
  | cons t ts ih =>
    rw [forall_mem_cons] at plain
    cases ts with
    | nil =>
      rw [Text.joinWith, intercalate_singleton]
      exact plain.1
    | cons u ts =>
      rw [Text.joinWith, intercalate_cons_cons, append_assoc]
      show PlainLines (t ++ '\n' :: ([] ++ '\n' :: _))
      rw [PlainLines, lines_append, lines_append]
      simp only [forall_mem_append]
      exact ⟨plain.1, forall_mem_singleton.mpr empty, ih plain.2⟩

namespace Plan

theorem makeGroups_modes {p : Patterns} {table : List Import} {classified : List (Block × Category)}
    (plain : ∀ b ∈ classified.map (·.1), PlainLines b.text) :
    makeGroups p .raw table classified = makeGroups p .literalAware table classified := by
  unfold makeGroups
  refine congrArg (Category.all.filterMapM ·) (funext fun c => ?_)
  split
  · rfl
  · have joined : PlainLines (Group.text ⟨c, (classified.filter (·.2 = c)).map (·.1), []⟩) :=
      .joinWith (forall_mem_map.mpr fun b member => plain b ((filter_sublist.map _).subset member))
    unfold makeGroup
    dsimp only
    rw [codeText_modes joined]

theorem build_modes {source : Source} {p : Patterns} (unbroken : ∀ line ∈ source.lines, '\n' ∉ line)
    (plain : ∀ line ∈ source.lines, PlainLine line) : build source p .raw = build source p .literalAware := by
  have bodies : ∀ b ∈ ((scan p .literalAware source.lines).blocks.map (·.place)).filterMap
      (·.body?), b.kind ≠ .import_ ∧ PlainLines b.text := by
    intro b member
    obtain ⟨placement, placed, kept⟩ := mem_filterMap.mp member
    obtain ⟨a, scanned, rfl⟩ := mem_map.mp placed
    refine ⟨Block.body?_kind kept, ?_⟩
    rw [(Block.body?_extent kept).2.2]
    exact scan_block_plainLines plain unbroken scanned
  unfold build
  dsimp only
  rw [scan_modes plain, classify_modes fun b member => (bodies b member).2]
  cases sorted : classify p .literalAware (DefaultExport.name? p source.text)
    (((scan p .literalAware source.lines).blocks.map (·.place)).filterMap (·.body?)) with
  | error fault => rfl
  | ok found =>
    obtain ⟨classified, missed⟩ := found
    have same := classify_blocks (fun b member => (bodies b member).1) sorted
    have groups : ∀ b ∈ classified.map (·.1), PlainLines b.text := by
      rw [same]
      exact fun b member => (bodies b member).2
    dsimp only [bind, Except.bind]
    rw [makeGroups_modes groups]

end Plan

theorem braceBalance_raw (t : Text) : braceBalance .raw t = (Tally.ofText t).braces := by
  have newline : ∀ u : Text, (Tally.ofText ('\n' :: u)).braces = (Tally.ofText u).braces := fun _ => rfl
  have run : ∀ (ls : List Text) (s : RawCursor), (((Lexer.raw s).trace ls).map fun step => step.1.braceDelta).sum =
        (Tally.ofText (unlines ls)).braces := by
    intro ls
    induction ls with
    | nil => exact fun _ => rfl
    | cons line rest ih =>
      intro s
      rw [Lexer.trace, map_cons, sum_cons]
      have later := ih (s.next line)
      cases rest with
      | nil =>
        rw [unlines_singleton]
        exact Int.add_zero (Tally.ofText line).braces
      | cons second others =>
        rw [unlines_cons_cons, Tally.ofText_append, newline, ← later]
        rfl
  rw [braceBalance_eq, summarize, map_map, ← unlines_lines t, ← run _ {}, unlines_lines]
  rfl

structure Fair (t : Text) : Prop where
  isSealed : Sealed t
  level : braceBalance .literalAware t = (Tally.ofText t).braces

namespace Fair

theorem verdict {t : Text} (fair : Fair t) : checkText .raw t = checkText .literalAware t := by
  rw [checkText, checkText, braceBalance_raw, fair.level]

theorem of_plainLines {t : Text} (plain : PlainLines t) : Fair t := by
  have stays : ∀ ls : List Text, (∀ line ∈ ls, PlainLine line) → Cursor.after {} ls = {} := by
    intro ls plain
    induction ls with
    | nil => rfl
    | cons line rest ih =>
      rw [forall_mem_cons] at plain
      rw [Cursor.after, foldl_cons, plain.1.feed_literal]
      exact ih plain.2
  constructor
  · rw [Sealed, stays _ plain]
    rfl
  · rw [← braceBalance_raw, braceBalance, braceBalance, summarize_modes plain]

theorem join {sep a b : Text} (seam : sep = ['\n'] ∨ sep = ['\n', '\n']) (left : Fair a)
    (right : Fair b) : Fair (a ++ sep ++ b) := by
  obtain ⟨whole, sum⟩ := left.isSealed.join seam right.isSealed
  refine ⟨whole, ?_⟩
  have nothing : (Tally.ofText sep).braces = 0 := by
    rcases seam with rfl | rfl <;> rfl
  rw [sum, left.level, right.level, Tally.ofText_append, Tally.ofText_append, nothing, Int.add_zero]

theorem nil : Fair [] := ⟨neutral_nil.isSealed, neutral_nil.level⟩

theorem intercalate {sep : Text} (seam : sep = ['\n'] ∨ sep = ['\n', '\n']) {ts : List Text}
    (fair : ∀ t ∈ ts, Fair t) : Fair (sep.intercalate ts) := by
  induction ts with
  | nil => exact nil
  | cons t ts ih =>
    rw [forall_mem_cons] at fair
    cases ts with
    | nil =>
      rw [intercalate_singleton]
      exact fair.1
    | cons u ts =>
      rw [intercalate_cons_cons]
      exact fair.1.join seam (ih fair.2)

theorem closedLines {ls : List Text} (fair : ∀ line ∈ ls, Fair line) : Fair (Plan.closedLines ls) := by
  have whole := (intercalate (.inl rfl) fair).join (.inl rfl) nil
  rwa [append_nil] at whole

theorem exported {text output : Text} (fair : Fair text) (exported : Exported text output) : Fair output := by
  have alike := exported.alike
  refine ⟨alike.isSealed fair.isSealed, alike.balance.symm.trans (fair.level.trans ?_)⟩
  rcases exported with rfl | ⟨rest, whole, added⟩
  · rfl
  · have word : (Tally.ofText "export ".toList).braces = 0 := rfl
    rw [added]
    nth_rewrite 1 [whole]
    rw [Tally.ofText_append, Tally.ofText_append, Tally.ofText_append, word, Int.add_zero]

end Fair

-- A name that can stand between quotes and has as many opening as closing braces.
structure LevelName (m : Text) : Prop where
  inner : InQuotes m
  level : (Tally.ofText m).braces = 0

namespace LevelName

theorem append {a b : Text} (left : LevelName a) (right : LevelName b) : LevelName (a ++ b) :=
  ⟨left.inner.append right.inner, by rw [Tally.ofText_append, left.level, right.level]; rfl⟩

theorem categoryModule {l : Layout} (base : LevelName l.baseName) (c : Category) : LevelName (l.categoryModule c) := by
  have word : LevelName c.text := by
    cases c <;> exact ⟨inQuotes_of_all rfl, rfl⟩
  exact .append ⟨inQuotes_of_all rfl, rfl⟩ ((base.append ⟨inQuotes_of_all rfl, rfl⟩).append word)

theorem indexModule {l : Layout} (base : LevelName l.baseName) : LevelName l.indexModule := by
  unfold Layout.indexModule
  cases l.mode <;> exact (LevelName.append ⟨inQuotes_of_all (m := "./".toList) rfl, rfl⟩ base).append ⟨inQuotes_of_all rfl, rfl⟩

end LevelName

theorem Added.fair (added : Added LevelName line) : Fair line := by
  cases added with
  | piece piece => exact ⟨piece.neutral.isSealed, piece.neutral.level.trans piece.2.symm⟩
  | @naming lead m s piece isQuote name =>
    have neutral := (Added.naming piece isQuote name.inner).neutral
    refine ⟨neutral.isSealed, neutral.level.trans ?_⟩
    have quote : (Tally.ofText [s.quote]).braces = 0 := by
      rcases isQuote with same | same <;> rw [same] <;> rfl
    have ending : (Tally.ofText s.ending).braces = 0 := by
      rcases s.ending_cases with same | same <;> rw [same] <;> rfl
    have whole : lead ++ s.moduleText m = lead ++ ([s.quote] ++ m ++ [s.quote] ++ s.ending) := rfl
    rw [whole]
    simp only [Tally.ofText_append, piece.2, quote, name.level, ending, Int.add_zero]

theorem Import.mem_plainText {raw : Text} {c : Char} (visible : isBlank c = false) (member : c ∈ plainText raw) : c ∈ raw := by
  have kept : ∀ {t u : Text}, Thins t u → c ∈ u → c ∈ t := by
    intro t u thins
    induction thins with
    | nil t => simp
    | keep d rest ih =>
      exact fun inside => mem_cons.mpr ((mem_cons.mp inside).imp_right ih)
    | gap blank lost rest ih =>
      intro inside
      rcases mem_cons.mp inside with rfl | later
      · rw [visible] at blank
        cases blank
      · exact mem_append_right _ (ih later)
  rw [plainText_eq] at member
  obtain ⟨⟨lost, u, whole, thins⟩, -⟩ := squeeze_thins (stripLineComments true false (stripBlockComments 0 raw))
  have stripped : c ∈ stripLineComments true false (stripBlockComments 0 raw) := by
    rw [whole]
    exact mem_append_right _ (kept thins member)
  exact kept (stripBlockComments_thins 0 raw) (kept (stripLineComments_thins true _).1 stripped)

theorem PlainLines.unquoted (plain : PlainLines t) {quote : Char} (isQuote : IsQuote quote) : quote ∉ Import.plainText t := by
  intro member
  have own : quote ∈ t := by
    refine Import.mem_plainText ?_ member
    rcases isQuote with rfl | rfl <;> rfl
  rw [← unlines_lines t] at own
  rcases @mem_joinWith "\n" (lines t) quote own with newline | ⟨line, listed, inside⟩
  · rcases isQuote with rfl | rfl <;> simp at newline
  · have none := (plain line listed).quotes quote inside
    rcases isQuote with rfl | rfl <;> simp at none

namespace Plan

section LiteralFree

variable {source : Source} {p : Patterns} {plan : Plan} {l : Layout}
  {classified : List (Block × Category)}
  (unbroken : ∀ line ∈ source.lines, '\n' ∉ line) (plain : ∀ line ∈ source.lines, PlainLine line)
  (parts : Parts source p .literalAware plan classified)

include unbroken plain

theorem block_unread {b : Block} (member : b ∈ (scan p .literalAware source.lines).blocks) :
    Import.read? b.text = none ∧ ReExport.read? b.text = none := by
  have lines := scan_block_plainLines plain unbroken member
  constructor
  · rw [Option.eq_none_iff_forall_ne_some]
    intro i found
    have quoted := Import.read?_quoted found
    exact lines.unquoted quoted.isQuote quoted.present
  · rw [Option.eq_none_iff_forall_ne_some]
    intro r found
    have quoted := ReExport.read?_quoted found
    exact lines.unquoted quoted.isQuote quoted.present

include parts

theorem names_no_module : plan.importTable = [] ∧ plan.sideEffectImports = [] ∧ plan.reexports = [] := by
  refine ⟨eq_nil_iff_forall_not_mem.mpr fun i listed => ?_, ?_, ?_⟩
  · obtain ⟨b, member, -, read, -⟩ := parts.importTable_origin listed
    rw [(block_unread unbroken plain member).1] at read
    cases read
  · rw [parts.sideEffectImports_eq, filterMap_eq_nil_iff]
    intro b member
    rw [(block_unread unbroken plain member).1]
    simp
  · rw [parts.reexports_eq, filterMap_eq_nil_iff]
    intro b member
    rw [(block_unread unbroken plain member).2]
    simp

theorem body_fair {g : Group} (member : g ∈ plan.groups) : Fair (Draft.mk g).body := by
  refine .intercalate (.inr rfl) (forall_mem_map.mpr fun b inside => ?_)
  obtain ⟨c, scanned, kept⟩ := parts.group_origin member inside
  obtain ⟨-, -, text⟩ := Block.body?_extent kept
  have rest := scan_block_rest unbroken scanned
  rw [← text] at rest
  refine Fair.exported (.of_plainLines ?_) (promoted_exported rest)
  rw [text]
  exact scan_block_plainLines plain unbroken scanned

variable (isQuote : IsQuote plan.style.quote) (base : LevelName l.baseName)

include isQuote base

theorem categoryText_fair {g : Group} (member : g ∈ plan.groups) : Fair (plan.categoryText l (plan.groups.map Draft.mk) ⟨g⟩) := by
  have none : g.imports = [] := by
    obtain ⟨markup, -, imports⟩ := parts.imports g member
    rw [imports, (names_no_module unbroken plain parts).1]
    rfl
  have siblings : ∀ line ∈ plan.siblingImports l ⟨g⟩ g.declaredNames (plan.groups.map Draft.mk), Fair line := fun line listed =>
    (siblingImports_added parts isQuote (LevelName.categoryModule base) (fun _ known => known) line listed).fair
  have body := (body_fair unbroken plain parts member).join (.inl rfl) .nil
  unfold categoryText
  dsimp only
  rw [none, map_nil, nil_append]
  split
  · rwa [append_nil] at body
  · have whole := (Fair.intercalate (.inl rfl) siblings).join (.inr rfl) body
    rwa [append_nil, ← append_assoc] at whole

theorem indexLines_fair : ∀ line ∈ plan.indexLines l (plan.groups.map Draft.mk), Fair line := by
  obtain ⟨table, effects, forwarded⟩ := names_no_module unbroken plain parts
  intro line member
  obtain ⟨i, listed, -⟩ | ⟨r, listed, -⟩ | added :=
    indexLines_cases parts isQuote (LevelName.categoryModule base) (by simp [table]) member
  · simp [effects] at listed
  · simp [forwarded] at listed
  · exact added.fair

omit unbroken plain parts in
theorem replacementLines_fair : ∀ line ∈ plan.replacementLines l (plan.groups.map Draft.mk), Fair line := by
  have name := LevelName.indexModule base
  refine forall_mem_cons.mpr ⟨(Added.forwardAll isQuote name).fair, ?_⟩
  split
  · exact forall_mem_singleton.mpr (Added.forwardDefault isQuote name).fair
  · simp

end LiteralFree

theorem synthesize_fair {source : Source} {p : Patterns} {plan : Plan} (unbroken : ∀ line ∈ source.lines, '\n' ∉ line)
    (plain : ∀ line ∈ source.lines, PlainLine line) (base : LevelName source.path.stem)
    (built : build source p .literalAware = .ok plan) (output : OutputMode) :
    (∀ file ∈ (plan.synthesize output).files, Fair file.text) ∧ Fair (plan.synthesize output).replacement := by
  obtain ⟨classified, parts⟩ := build_parts built
  have isQuote := build_quote built
  have name : LevelName (Layout.baseName ⟨plan.source.path, output⟩) := by
    rw [parts.origin]
    exact base
  unfold synthesize
  dsimp only
  split
  · exact ⟨by simp, .nil⟩
  · refine ⟨?_, .closedLines (replacementLines_fair isQuote name)⟩
    simp only [forall_mem_append, map_map, forall_mem_map, forall_mem_singleton]
    exact ⟨fun g member => categoryText_fair unbroken plain parts isQuote name member,
      .closedLines (indexLines_fair unbroken plain parts isQuote name)⟩

end Plan

theorem analyze_modes {plan : Plan} {s : Synthesis} (fair : ∀ file ∈ s.files, Fair file.text) :
    analyze plan s .raw = analyze plan s .literalAware := by
  have faults : s.files.filterMap (·.fault? .raw) = s.files.filterMap (·.fault? .literalAware) := by
    refine filterMap_congr fun file listed => ?_
    rw [OutputFile.fault?, OutputFile.fault?, (fair file listed).verdict]
  rw [analyze, analyze, faults]

theorem LiteralFree.source_lines (free : LiteralFree t) (path : Path) :
    ∀ line ∈ (Source.ofText t path).lines, PlainLine line := by
  have folded : PlainLines (foldCrLf t) := by
    have known := free.plainLines
    have returned := lines_foldCrLf t
    unfold PlainLines at known ⊢
    generalize lines t = old, lines (foldCrLf t) = new at known returned ⊢
    induction returned with
    | nil => simp
    | cons first rest ih =>
      rw [forall_mem_cons] at known ⊢
      exact ⟨known.1.of_returned first, ih known.2⟩
  have body : PlainLines (if endsWith (foldCrLf t) "\n" then (foldCrLf t).dropLast else foldCrLf t) := by
    split
    · rename_i trailing
      obtain ⟨front, whole⟩ := isSuffixOf_iff_suffix.mp trailing
      have parts : foldCrLf t = front ++ '\n' :: [] := whole.symm
      rw [parts] at folded ⊢
      rw [PlainLines, lines_append, forall_mem_append] at folded
      rw [dropLast_concat]
      exact folded.1
    · exact folded
  unfold Source.ofText
  dsimp only
  generalize (if endsWith (foldCrLf t) "\n" then (foldCrLf t).dropLast else foldCrLf t) = u at body ⊢
  split
  · simp
  · exact body

-- Code without literals and comments has the same summaries, blocks, categories, plan and verdicts
-- in both delimiter modes. The files that are made of it name modules by the source; the check finds
-- the same in them if these names are no more than names.
theorem modes_agree_on_literal_free {t : Text} (free : LiteralFree t) (path : Path) (p : Patterns) :
    summarize .raw (lines t) = summarize .literalAware (lines t) ∧ scan p .raw (lines t) = scan p .literalAware (lines t) ∧
    (∀ name, classify p .raw name (scan p .raw (lines t)).blocks =
      classify p .literalAware name (scan p .literalAware (lines t)).blocks) ∧
    Plan.build (.ofText t path) p .raw = Plan.build (.ofText t path) p .literalAware ∧
    checkText .raw t = checkText .literalAware t ∧
    (LevelName path.stem → ∀ plan output, Plan.build (.ofText t path) p .raw = .ok plan →
      (∀ file ∈ (plan.synthesize output).files, checkText .raw file.text = checkText .literalAware file.text) ∧
      checkText .raw (plan.synthesize output).replacement =
        checkText .literalAware (plan.synthesize output).replacement ∧ analyze plan (plan.synthesize output) .raw =
        analyze plan (plan.synthesize output) .literalAware) := by
  have plain := free.plainLines
  have built := Plan.build_modes (p := p) (source_lines_plain t path) (free.source_lines path)
  refine ⟨summarize_modes plain, scan_modes plain, fun name => ?_, built,
    (Fair.of_plainLines plain).verdict, fun base plan output made => ?_⟩
  · rw [scan_modes plain]
    exact classify_modes fun b member => scan_block_plainLines plain (newline_not_mem_lines t) member
  · rw [built] at made
    obtain ⟨files, replacement⟩ := Plan.synthesize_fair (source_lines_plain t path) (free.source_lines path) base made output
    exact ⟨fun file listed => (files file listed).verdict, replacement.verdict, analyze_modes files⟩

-- Slashes and stars that begin no comment, a line break of two characters, and a block that is left
-- open.
def divisionSource : Text :=
  ("type T = \x7b a: number \x7d\r\nfunction f(x) \x7b\n" ++
    "  return x / 2 * (x\n/ 3);\n\x7d\nconst o = \x7b\n").toList

theorem divisionSource_literalFree : LiteralFree divisionSource := by
  have none : (divisionSource.all fun c => ! ['\'', '"', '`'].contains c) = true := by decide +kernel
  refine ⟨fun c member => ?_, by decide +kernel, by decide +kernel, by decide +kernel⟩
  simpa using List.all_eq_true.mp none c member

theorem modes_agree_on_division : ∃ plan, LiteralFree divisionSource ∧ LevelName (Path.ofString "/src/m.ts").stem ∧
      Plan.build (.ofText divisionSource (Path.ofString "/src/m.ts")) .bare .raw = .ok plan ∧
      analyze plan (plan.synthesize .directory) .raw = analyze plan (plan.synthesize .directory) .literalAware ∧
      (analyze plan (plan.synthesize .directory) .raw).errors.length = 1 := by
  have run : (Plan.build (.ofText divisionSource (Path.ofString "/src/m.ts")) .bare .raw).toOption.map (fun plan =>
        (analyze plan (plan.synthesize .directory) .raw).errors.length) = some 1 := by
    decide +kernel
  have name : LevelName (Path.ofString "/src/m.ts").stem := ⟨inQuotes_of_all (by decide +kernel), by decide +kernel⟩
  obtain ⟨plan, built, errors⟩ := Result.of_run run
  obtain ⟨-, -, -, -, -, agree⟩ := modes_agree_on_literal_free divisionSource_literalFree (Path.ofString "/src/m.ts") .bare
  exact ⟨plan, divisionSource_literalFree, name, built, (agree name plan .directory built).2.2, errors⟩

-- Where the name of a source opens a brace, so do the names of the modules that are made of it, and
-- the raw count takes them for code.
theorem raw_counts_module_names : ∃ t path plan, LiteralFree t ∧ Plan.build (.ofText t path) .bare .raw = .ok plan ∧
      Plan.build (.ofText t path) .bare .literalAware = .ok plan ∧
      (analyze plan (plan.synthesize .sibling) .literalAware).errors = [] ∧
      (analyze plan (plan.synthesize .sibling) .raw).errors =
        ["a\x7b-index.ts: unbalanced braces (1 unclosed '\x7b')".toList] := by
  have free : LiteralFree "const a = 1;\n".toList := ⟨List.forall_iff_forall_mem.mp (by simp), by decide, by decide, by decide⟩
  have run : (Plan.build (.ofText "const a = 1;\n".toList (Path.ofString "a\x7b.ts")) .bare
      .raw).toOption.map (fun plan => ((analyze plan (plan.synthesize .sibling) .literalAware).errors,
          (analyze plan (plan.synthesize .sibling) .raw).errors)) =
      some ([], ["a\x7b-index.ts: unbalanced braces (1 unclosed '\x7b')".toList]) := by
    decide +kernel
  obtain ⟨plan, built, values⟩ := Result.of_run run
  obtain ⟨fine, faulty⟩ := Prod.mk.inj values
  refine ⟨_, _, plan, free, built, ?_, fine, faulty⟩
  rw [← Plan.build_modes (source_lines_plain _ _) (free.source_lines _), built]

end ModuleSplit
