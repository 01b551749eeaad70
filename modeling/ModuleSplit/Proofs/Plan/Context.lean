import ModuleSplit.Proofs.Delimiter.Context
import ModuleSplit.Proofs.Plan.Placement

namespace ModuleSplit

open List Text

variable {source : List Text}

def scannedCode (source : List Text) (b : Block) : List Text :=
  (linesBetween b.start b.stop (summarize .literalAware source)).map (·.code)

-- Every block is read on as the block in front of it left off, the first one from `c`.
def KeepsContext (source : List Text) (c : Cursor) : List Block → Prop
  | [] => True
  | b :: rest => contextAt source b.start = c ∧ KeepsContext source (contextAt source b.stop) rest

theorem scannedCode_eq (source : List Text) (b : Block) : scannedCode source b =
      (contextAt source b.start).codes (linesBetween b.start b.stop source) := by
  unfold scannedCode
  rw [linesBetween_map, summarize_codes]
  unfold linesBetween
  rw [codes_drop, codes_take]

theorem scannedCode_ne_nil {b : Block} (extent : b.start < b.stop)
    (bound : b.stop ≤ source.length) : scannedCode source b ≠ [] := by
  intro none
  refine linesBetween_ne_nil extent bound (length_eq_zero_iff.mp ?_)
  rw [← Cursor.codes_length (contextAt source b.start), ← scannedCode_eq, none, length_nil]

theorem contextAt_stop (source : List Text) {b : Block} (extent : b.start < b.stop) : contextAt source b.stop =
      ((contextAt source b.start).after (linesBetween b.start b.stop source)).atLineStart := by
  have count : b.stop = b.start + (b.stop - b.start) := by omega
  rw [linesBetween, ← contextAt_add, ← count]

-- The induction is on the blocks. Behind each of them, the empty line in between shows nothing and
-- leaves the cursor at the start of the next line.
theorem KeepsContext.codes {c : Cursor} {blocks : List Block}
    (extent : ∀ b ∈ blocks, b.start < b.stop) (keeps : KeepsContext source c blocks) :
    c.codes ([[]].intercalate (blocks.map fun b => linesBetween b.start b.stop source)) =
      [[]].intercalate (blocks.map (scannedCode source)) := by
  induction blocks generalizing c with
  | nil => rfl
  | cons b rest ih =>
    obtain ⟨rfl, later⟩ := keeps
    have shape := extent b mem_cons_self
    have behind := ih (fun b member => extent b (mem_cons_of_mem _ member)) later
    cases rest with
    | nil => simp [List.intercalate, scannedCode_eq]
    | cons next rest =>
      rw [map_cons, intercalate_cons_of_ne_nil (by simp)]
      rw [map_cons (f := scannedCode source), intercalate_cons_of_ne_nil (by simp)]
      rw [← behind, scannedCode_eq, contextAt_stop source shape, Cursor.codes_atLineStart]
      simp only [append_assoc, Cursor.codes_append, singleton_append, Cursor.codes_blank_line]

theorem summarize_context {before rest : List LineSummary} {line : LineSummary}
    (split : summarize .literalAware source = before ++ line :: rest) :
    line = ((contextAt source before.length).feed line.text).1 ∧ contextAt source (before.length + 1) =
        ((contextAt source before.length).feed line.text).2.atLineStart := by
  have texts := summarize_texts .literalAware source
  rw [split, map_append, map_cons] at texts
  have here : contextAt source before.length = (Cursor.after {} (before.map (·.text))).atLineStart := by
    rw [contextAt, ← texts, take_left' (length_map _)]
  have same := summarize_split split
  rw [Lexer.start, Cursor.lexer_after_literal] at same
  refine ⟨?_, ?_⟩
  · rw [here, Cursor.feed_atLineStart]
    exact same
  · have next : (source.drop before.length).take 1 = [line.text] := by
      rw [← texts, drop_left' (length_map _)]
      rfl
    rw [contextAt_add, next]
    rfl

-- Whether code can follow decides between a block that is complete and one that the source cuts
-- short. A closer without an opener can end a block inside a literal, so it has to be excluded.
def Extent.Bounded (source : List Text) (e : Extent) : Prop :=
  (contextAt source e.start).OutsideLiterals ∧
    ((contextAt source e.stop).OutsideLiterals ∨
      ∀ i, e.stop ≤ i → ¬CodeAt (summarize .literalAware source) i)

theorem extents_bounded (p : Patterns) (source : List Text)
    (balanced : ∀ e ∈ extents p none 0 (summarize .literalAware source), e.closing ≠ .unbalanced) :
    ∀ e ∈ extents p none 0 (summarize .literalAware source), e.Bounded source := by
  have keeps : ScanInvariant p (summarize .literalAware source) (·.closing ≠ .unbalanced)
      (fun before => (contextAt source before.length).OutsideLiterals)
      (fun before b => (contextAt source b.start).OutsideLiterals ∧ OpenAt (summarize .literalAware source) before.length b)
      (Extent.Bounded source) := {
    passes := by
      intro before line rest split idle blank
      obtain ⟨same, next⟩ := summarize_context split
      rw [length_append, length_singleton, next]
      rw [same] at blank
      exact Cursor.feed_blank (by rwa [contextAt, Cursor.atLineStart_idem]) blank
    opens := by
      intro before line rest split idle code
      rw [split]
      exact ⟨idle, openBlock_openAt p code⟩
    goesOn := by
      intro before line rest b next split valid read
      obtain ⟨started, opened⟩ := valid
      rw [split] at opened ⊢
      obtain ⟨same, further⟩ := opened.next read
      rw [length_append, length_singleton, same]
      exact ⟨started, further⟩
    closes := by
      intro before line rest b e split valid read allowed
      obtain ⟨started, opened⟩ := valid
      obtain ⟨same, next⟩ := summarize_context split
      have step := b.reading before.length line rest
      rw [read] at step
      cases step with
      | unbalanced below => exact absurd rfl allowed
      | complete level code settled finished =>
        have ends : line.endsInLiteral = false := by
          simp only [OpenBlock.settled, Bool.and_eq_true, Bool.not_eq_true'] at settled
          exact settled.1.2
        rw [same] at ends
        have outside := Cursor.feed_ends_outside ends
        rw [← next] at outside
        rw [length_append, length_singleton]
        exact ⟨⟨started, .inl outside⟩, outside⟩
    ends := by
      rintro b ⟨started, opened⟩
      refine ⟨started, .inr ?_⟩
      intro i above code
      exact opened.blank i above code.lt_length code }
  exact keeps.scanned Cursor.outsideLiterals_start balanced

theorem scan_blocks_bounded {p : Patterns}
    (balanced : ∀ w ∈ (scan p .literalAware source).warnings, w.finding ≠ .unbalancedCloser)
    {b : Block} (member : b ∈ (scan p .literalAware source).blocks) : (contextAt source b.start).OutsideLiterals ∧
      ((contextAt source b.stop).OutsideLiterals ∨ ∀ i, b.stop ≤ i → ¬CodeAt (summarize .literalAware source) i) := by
  have closings : ∀ e ∈ extents p none 0 (summarize .literalAware source), e.closing ≠ .unbalanced := by
    intro e found unbalanced
    refine balanced ⟨e.stop, .unbalancedCloser⟩ ?_ rfl
    refine mem_filterMap.mpr ⟨e, found, ?_⟩
    rw [Extent.warning?, unbalanced]
  obtain ⟨e, found, rfl⟩ := mem_scan_blocks.mp member
  exact extents_bounded p source closings e found

theorem keepsContext_of_plain {blocks : List Block} (starts : ∀ b ∈ blocks, contextAt source b.start = {})
    (stops : ∀ b ∈ blocks.dropLast, contextAt source b.stop = {}) : KeepsContext source {} blocks := by
  induction blocks with
  | nil => trivial
  | cons b rest ih =>
    refine ⟨starts b mem_cons_self, ?_⟩
    cases rest with
    | nil => trivial
    | cons next rest =>
      rw [stops b mem_cons_self]
      refine ih (fun c member => starts c (mem_cons_of_mem _ member)) ?_
      intro c member
      exact stops c (mem_cons_of_mem _ member)

namespace Plan.Parts

variable {source : Source} {p : Patterns} {plan : Plan} {classified : List (Block × Category)}

theorem group_bounded (parts : Parts source p .literalAware plan classified)
    (balanced : ∀ w ∈ (scan p .literalAware source.lines).warnings, w.finding ≠ .unbalancedCloser)
    {g : Group} (member : g ∈ plan.groups) : (∀ b ∈ g.blocks, (contextAt source.lines b.start).OutsideLiterals) ∧
      ∀ b ∈ g.blocks.dropLast, (contextAt source.lines b.stop).OutsideLiterals := by
  refine ⟨?_, ?_⟩
  · intro c inside
    obtain ⟨b, scanned, kept⟩ := parts.group_origin member inside
    rw [(Block.body?_extent kept).1]
    exact (scan_blocks_bounded balanced scanned).1
  · intro c inside
    have follows : ∃ i, c.stop ≤ i ∧ CodeAt (summarize .literalAware source.lines) i := by
      refine code_follows (parts.group_ordered member) ?_ inside
      intro d among
      obtain ⟨b, scanned, kept⟩ := parts.group_origin member among
      rw [(Block.body?_extent kept).1]
      exact (scan_block_extent scanned).2.2
    obtain ⟨b, scanned, kept⟩ := parts.group_origin member (dropLast_subset _ inside)
    obtain ⟨i, behind, code⟩ := follows
    rw [(Block.body?_extent kept).2.1] at behind ⊢
    rcases (scan_blocks_bounded balanced scanned).2 with outside | last
    · exact outside
    · exact absurd code (last i behind)

theorem group_block_lines (parts : Parts source p .literalAware plan classified)
    (plain : ∀ l ∈ source.lines, '\n' ∉ l) {g : Group} (member : g ∈ plan.groups) {c : Block} (inside : c ∈ g.blocks) :
    c.start < c.stop ∧ c.stop ≤ source.lines.length ∧ lines c.text = linesBetween c.start c.stop source.lines := by
  obtain ⟨b, scanned, kept⟩ := parts.group_origin member inside
  obtain ⟨start, stop, text⟩ := Block.body?_extent kept
  obtain ⟨extent, bound, _⟩ := scan_block_extent scanned
  rw [start, stop, text]
  exact ⟨extent, bound, scan_block_lines plain scanned⟩

end Plan.Parts

namespace Plan

-- The code of a group is the code that the scan saw in its blocks, one blank line between them,
-- when each block is read on as its predecessor left off, and the code of a block is what the scan
-- saw when the block starts in plain code. Only an unbalanced closer, or a block comment that is
-- open where a block starts or stops, can be in the way.
theorem build_keeps_code {source : Source} {p : Patterns} {plan : Plan} {g : Group}
    (plain : ∀ l ∈ source.lines, '\n' ∉ l) (built : build source p .literalAware = .ok plan)
    (member : g ∈ plan.groups) : (KeepsContext source.lines {} g.blocks → codeText .literalAware g.text =
      joinWith "\n\n" (g.blocks.map fun b => unlines (scannedCode source.lines b))) ∧
    (∀ b ∈ g.blocks, contextAt source.lines b.start = {} → codeText .literalAware b.text = unlines (scannedCode source.lines b)) ∧
    ((∀ w ∈ (scan p .literalAware source.lines).warnings, w.finding ≠ .unbalancedCloser) →
      (∀ b ∈ g.blocks, (contextAt source.lines b.start).state ≠ .blockComment) →
      (∀ b ∈ g.blocks.dropLast, (contextAt source.lines b.stop).state ≠ .blockComment) →
      KeepsContext source.lines {} g.blocks ∧ ∀ b ∈ g.blocks, contextAt source.lines b.start = {}) := by
  obtain ⟨classified, parts⟩ := build_parts built
  have block : ∀ b ∈ g.blocks, b.start < b.stop ∧ b.stop ≤ source.lines.length ∧
      lines b.text = linesBetween b.start b.stop source.lines :=
    fun b inside => parts.group_block_lines plain member inside
  refine ⟨?_, ?_, ?_⟩
  · intro keeps
    have texts : g.blocks.map (fun b => lines b.text) = g.blocks.map fun b => linesBetween b.start b.stop source.lines :=
      map_congr_left fun b inside => (block b inside).2.2
    have shown := keeps.codes fun b inside => (block b inside).1
    rw [codeText_literalAware, Group.text, lines_joinWith_blank, map_map, Function.comp_def,
      texts, shown, unlines_intercalate_blank, map_map, Function.comp_def]
    · intro group listed
      obtain ⟨b, inside, rfl⟩ := mem_map.mp listed
      exact scannedCode_ne_nil (block b inside).1 (block b inside).2.1
    · simpa using (parts.mem_groups member).2.2
  · intro b inside start
    rw [codeText_literalAware, (block b inside).2.2, scannedCode_eq, start]
  · intro balanced starts stops
    obtain ⟨outsideStart, outsideStop⟩ := parts.group_bounded balanced member
    have atStart : ∀ b ∈ g.blocks, contextAt source.lines b.start = {} :=
      fun b inside => (outsideStart b inside).eq_start (starts b inside)
    have atStop : ∀ b ∈ g.blocks.dropLast, contextAt source.lines b.stop = {} :=
      fun b inside => (outsideStop b inside).eq_start (stops b inside)
    exact ⟨keepsContext_of_plain atStart atStop, atStart⟩

def literalSource : Source :=
  Source.ofText "const x = `a \x7b\n /* b`;\nconst y = 2; // z\n".toList
    (Path.ofString "/src/m.ts")

theorem build_keeps_code_literal : ∃ plan g, build literalSource .bare .literalAware = .ok plan ∧ g ∈ plan.groups ∧
      g.blocks.map (fun b => (b.start, b.stop)) = [(0, 2), (2, 3)] ∧ codeText .literalAware g.text =
        joinWith "\n\n" (g.blocks.map fun b => unlines (scannedCode literalSource.lines b)) := by
  have run : (build literalSource .bare .literalAware).toOption.map (fun plan =>
      plan.groups.map fun g => g.blocks.map fun b => (b.start, b.stop)) =
      some [[(0, 2), (2, 3)]] := by
    decide +kernel
  obtain ⟨plan, built, values⟩ := Result.of_run run
  obtain ⟨g, single, extents⟩ := map_eq_singleton_iff.mp values
  have member : g ∈ plan.groups := by
    rw [single]
    exact mem_singleton_self g
  obtain ⟨b, rest, blocks, first, others⟩ := map_eq_cons_iff.mp extents
  obtain ⟨c, rfl, second⟩ := map_eq_singleton_iff.mp others
  obtain ⟨bStart, bStop⟩ := Prod.mk.inj first
  obtain ⟨cStart, cStop⟩ := Prod.mk.inj second
  have keeps : KeepsContext literalSource.lines {} g.blocks := by
    rw [blocks, KeepsContext, KeepsContext, bStart, bStop, cStart]
    exact ⟨by decide +kernel, by decide +kernel, trivial⟩
  exact ⟨plan, g, built, member, extents, (build_keeps_code (source_lines_plain _ _) built member).1 keeps⟩

-- A comment that is open at the end of a block: the code of the next block is lost in it.
def commentSource : Source :=
  Source.ofText "const x = 1; /* note\n end */\nconst y = 2;\n".toList (Path.ofString "/src/m.ts")

theorem build_open_comment_hides_code : ∃ plan g, build commentSource .bare .literalAware = .ok plan ∧ g ∈ plan.groups ∧
      codeText .literalAware g.text ≠ joinWith "\n\n" (g.blocks.map fun b => unlines (scannedCode commentSource.lines b)) := by
  have run : (build commentSource .bare .literalAware).toOption.map (fun plan =>
      plan.groups.map fun g => decide (codeText .literalAware g.text =
        joinWith "\n\n" (g.blocks.map fun b => unlines (scannedCode commentSource.lines b)))) =
      some [false] := by
    decide +kernel
  obtain ⟨plan, built, values⟩ := Result.of_run run
  obtain ⟨g, single, differs⟩ := map_eq_singleton_iff.mp values
  refine ⟨plan, g, built, ?_, of_decide_eq_false differs⟩
  rw [single]
  exact mem_singleton_self g

end Plan

end ModuleSplit
