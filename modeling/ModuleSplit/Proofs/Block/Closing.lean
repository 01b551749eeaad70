import ModuleSplit.Proofs.Block.Partition
import ModuleSplit.Proofs.Delimiter.Depth

namespace ModuleSplit

open List Text

variable {mode : DelimiterMode} {lines : List Text} {before rest : List LineSummary}

theorem summarize_level {line : LineSummary} (split : summarize mode lines = before ++ line :: rest) :
    line.minDepth ≤ 0 ∧ line.minDepth ≤ line.depthDelta := by
  rw [summarize_split split]
  exact Lexer.feed_level _ _

theorem summarize_empty {line : LineSummary} (split : summarize mode lines = before ++ line :: rest) (empty : line.text = []) :
    line.isBlankCode = true ∧ line.braceDelta = 0 ∧ line.minDepth = 0 := by
  have same := summarize_split split
  rw [empty] at same
  obtain ⟨code, braces, low⟩ := Lexer.feed_empty ((Lexer.start mode).after (before.map (·.text)))
  rw [same]
  refine ⟨?_, braces, low⟩
  rw [LineSummary.isBlankCode, code]
  rfl

namespace OpenBlock

theorem lowest_le_deepen {line : LineSummary} (low : line.minDepth ≤ line.depthDelta)
    (b : OpenBlock) : b.lowest line ≤ (b.deepen line).depth := by
  unfold lowest deepen
  split
  · have := Int.min_le_left line.braceDelta 0
    dsimp only
    omega
  · dsimp only
    omega

theorem read_depth {b next : OpenBlock} {index : Nat} {line : LineSummary} {rest : List LineSummary}
    (low : line.minDepth ≤ line.depthDelta) (read : b.read index line rest = .inl next) : 0 ≤ next.depth := by
  have bound := b.lowest_le_deepen low
  have step := b.reading index line rest
  rw [read] at step
  cases step with
  | blank level empty => exact Int.le_trans level bound
  | goesOn level shows unfinished => exact Int.le_trans level bound

end OpenBlock

def Extent.LastLine (e : Extent) (summaries : List LineSummary) (line : LineSummary) : Prop :=
  e.start < e.stop ∧ summaries[e.stop - 1]? = some line

theorem extent_last_line (p : Patterns) (mode : DelimiterMode) (lines : List Text) :
    ∀ e ∈ extents p none 0 (summarize mode lines), ∃ line, e.LastLine (summarize mode lines) line ∧ line.text ≠ [] := by
  -- A line of code is not empty.
  have shown : ∀ i, CodeAt (summarize mode lines) i → ∃ line, (summarize mode lines)[i]? = some line ∧ line.text ≠ [] := by
    rintro i ⟨line, found, code⟩
    refine ⟨line, found, ?_⟩
    intro empty
    obtain ⟨inside, same⟩ := List.getElem?_eq_some_iff.mp found
    have split := take_append_drop i (summarize mode lines)
    rw [drop_eq_getElem_cons inside, same] at split
    simp [(summarize_empty split.symm empty).1] at code
  have keeps : ScanInvariant p (summarize mode lines) (fun _ => True) (fun _ => True)
      (fun before b => OpenAt (summarize mode lines) before.length b ∧ 0 ≤ b.depth)
      (fun e => ∃ line, e.LastLine (summarize mode lines) line ∧ line.text ≠ []) := {
    passes := fun _ _ _ _ _ _ => trivial
    opens := by
      intro before line rest split _ code
      rw [split]
      exact ⟨openBlock_openAt p code, Int.le_refl 0⟩
    goesOn := by
      rintro before line rest b next split ⟨valid, _⟩ read
      refine ⟨?_, OpenBlock.read_depth (summarize_level split).2 read⟩
      rw [split] at valid ⊢
      simpa using (valid.next read).2
    closes := by
      rintro before line rest b e split ⟨valid, level⟩ read _
      obtain ⟨start, stop⟩ := OpenAt.closed read
      refine ⟨⟨line, ⟨?_, ?_⟩, ?_⟩, trivial⟩
      · have := valid.started
        omega
      · simp [stop, split]
      · intro empty
        obtain ⟨blank, braces, low⟩ := summarize_empty split empty
        have step := b.reading before.length line rest
        rw [read] at step
        cases step with
        | unbalanced below =>
          have : b.lowest line = b.depth := by
            simp [OpenBlock.lowest, braces, low]
          omega
        | complete level code settled finished => simp [blank] at code
    ends := by
      rintro b ⟨valid, _⟩
      obtain ⟨line, found, full⟩ := shown _ valid.last
      exact ⟨line, ⟨valid.begun, found⟩, full⟩ }
  exact keeps.scanned trivial (fun _ _ => trivial)

theorem scan_block_last_line {p : Patterns} {b : Block}
    (member : b ∈ (scan p mode lines).blocks) : ∃ line, lines[b.stop - 1]? = some line ∧ line ≠ [] := by
  obtain ⟨e, found, rfl⟩ := mem_scan_blocks.mp member
  obtain ⟨line, ⟨_, last⟩, full⟩ := extent_last_line p mode lines e found
  refine ⟨line.text, ?_, full⟩
  show lines[e.stop - 1]? = some line.text
  rw [← summarize_texts mode lines, getElem?_map, last]
  rfl

theorem code_follows {summaries : List LineSummary} {blocks : List Block} (ordered : blocks.Pairwise fun a b => a.stop ≤ b.start)
    (code : ∀ b ∈ blocks, CodeAt summaries b.start) {b : Block} (member : b ∈ blocks.dropLast) :
    ∃ i, b.stop ≤ i ∧ CodeAt summaries i := by
  induction ordered with
  | nil => cases member
  | @cons first rest above _ ih =>
    cases rest with
    | nil => cases member
    | cons next rest =>
      rcases mem_cons.mp member with rfl | later
      · exact ⟨next.start, above next mem_cons_self, code next (mem_cons_of_mem _ mem_cons_self)⟩
      · exact ih (fun c inside => code c (mem_cons_of_mem _ inside)) later

end ModuleSplit
