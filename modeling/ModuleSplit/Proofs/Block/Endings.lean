import Mathlib.Algebra.BigOperators.Group.List.Basic
import Mathlib.Algebra.Ring.Int.Defs
import ModuleSplit.Proofs.Block.Closing

namespace ModuleSplit

open List Text

def Declaration.countsBraces (d : Declaration) : Bool := d.exportList || d.kind = .import_

def Declaration.scanState (d : Declaration) : ScanState :=
  if d.exportList then .inImport else .ofKind d.kind

namespace LineSummary

def change (braces : Bool) (line : LineSummary) : Int :=
  if braces then line.braceDelta else line.depthDelta

def dip (braces : Bool) (line : LineSummary) : Int :=
  if braces then min line.braceDelta 0 else line.minDepth

end LineSummary

def runningDepth (braces : Bool) (lines : List LineSummary) : Int :=
  (lines.map (·.change braces)).sum

@[simp] theorem runningDepth_snoc (braces : Bool) (lines : List LineSummary) (line : LineSummary) :
    runningDepth braces (lines ++ [line]) = runningDepth braces lines + line.change braces := by
  simp [runningDepth]

@[simp] theorem linesBetween_self {α : Type} (start : Nat) (lines : List α) : linesBetween start start lines = [] := by
  simp [linesBetween]

theorem linesBetween_snoc {α : Type} {start index : Nat} {lines : List α} {line : α}
    (started : start ≤ index) (found : lines[index]? = some line) :
    linesBetween start (index + 1) lines = linesBetween start index lines ++ [line] := by
  have place : index = start + (index - start) := by omega
  rw [place, ← getElem?_drop] at found
  have count : index + 1 - start = index - start + 1 := by omega
  rw [linesBetween, linesBetween, count, take_add_one, found]
  rfl

section Conditions

variable (p : Patterns) (whole : List LineSummary)

def declarationAt (start : Nat) : Declaration :=
  Declaration.describe p (trim ((whole[start]?.map (·.code)).getD [])) (nextCode (whole.drop (start + 1)))

def depthBefore (start i : Nat) : Int :=
  runningDepth (declarationAt p whole start).countsBraces (linesBetween start i whole)

-- Line `i` closes something that was open before the block.
def FallsAt (start i : Nat) : Prop :=
  ∃ line, whole[i]? = some line ∧
    depthBefore p whole start i + line.dip (declarationAt p whole start).countsBraces < 0

-- Line `i` shows code, and with it a block that starts with line `start` can be over: nothing is
-- open, an awaited body has begun or is not to come, and the statement is complete.
structure ClosesAt (start i : Nat) : Prop where
  line : ∃ line, whole[i]? = some line ∧ line.isBlankCode = false ∧ line.endsInLiteral = false ∧
    statementComplete line (whole.drop (i + 1)) = true
  level : depthBefore p whole start (i + 1) = 0
  body : (declarationAt p whole start).awaitsBody = true →
    ∃ line ∈ linesBetween start (i + 1) whole,
      line.openedBrace = true ∨ line.hasTerminator = true

def StaysOpen (start stop : Nat) : Prop :=
  ∀ i, start ≤ i → i < stop → ¬FallsAt p whole start i ∧ ¬ClosesAt p whole start i

-- How a block ends that has the lines from `start` up to `stop`.
inductive EndsAs (start stop : Nat) : Closing → Prop where
  | complete (opened : StaysOpen p whole start (stop - 1)) (level : ¬FallsAt p whole start (stop - 1))
      (closes : ClosesAt p whole start (stop - 1)) : EndsAs start stop .complete
  | unbalanced (opened : StaysOpen p whole start (stop - 1))
      (falls : FallsAt p whole start (stop - 1)) : EndsAs start stop .unbalanced
  | endOfSource (opened : StaysOpen p whole start whole.length) (code : CodeAt whole (stop - 1))
      (last : ∀ i, stop ≤ i → ¬CodeAt whole i) : EndsAs start stop .endOfSource

end Conditions

variable {p : Patterns} {whole : List LineSummary}

theorem EndsAs.unique {start stop : Nat} (extent : start < stop) (bound : stop ≤ whole.length)
    {a b : Closing} (left : EndsAs p whole start stop a) (right : EndsAs p whole start stop b) : a = b := by
  have inside : start ≤ stop - 1 ∧ stop - 1 < whole.length := by omega
  cases left with
  | complete _ level closes =>
    cases right with
    | complete => rfl
    | unbalanced _ falls => exact absurd falls level
    | endOfSource opened => exact absurd closes (opened _ inside.1 inside.2).2
  | unbalanced _ falls =>
    cases right with
    | complete _ level => exact absurd falls level
    | unbalanced => rfl
    | endOfSource opened => exact absurd falls (opened _ inside.1 inside.2).1
  | endOfSource opened =>
    cases right with
    | complete _ _ closes => exact absurd closes (opened _ inside.1 inside.2).2
    | unbalanced _ falls => exact absurd falls (opened _ inside.1 inside.2).1
    | endOfSource => rfl

-- The state of an open block in front of line `index` is what its lines so far come to.
structure Tracks (p : Patterns) (whole : List LineSummary) (index : Nat) (b : OpenBlock) : Prop where
  started : b.start ≤ index
  declaration : b.declaration = declarationAt p whole b.start
  depth : b.depth = depthBefore p whole b.start index
  opened : b.opened = (linesBetween b.start index whole).any (·.openedBrace)
  terminated : b.terminated = (linesBetween b.start index whole).any (·.hasTerminator)
  stays : StaysOpen p whole b.start index

theorem OpenBlock.state_eq (b : OpenBlock) : b.state = .inImport ↔ b.declaration.countsBraces = true := by
  unfold OpenBlock.state Declaration.countsBraces
  cases b.declaration.exportList with
  | true => simp
  | false => cases kind : b.declaration.kind <;> simp [ScanState.ofKind]

theorem OpenBlock.lowest_eq (b : OpenBlock) (line : LineSummary) :
    b.lowest line = b.depth + line.dip b.declaration.countsBraces := by
  simp only [lowest, LineSummary.dip, b.state_eq]
  split <;> rfl

theorem OpenBlock.deepen_depth (b : OpenBlock) (line : LineSummary) :
    (b.deepen line).depth = b.depth + line.change b.declaration.countsBraces := by
  simp only [deepen, LineSummary.change, b.state_eq]

namespace Tracks

variable {before rest : List LineSummary} {line : LineSummary} {b : OpenBlock}

theorem openBlock (p : Patterns) (before rest : List LineSummary) (line : LineSummary) :
    Tracks p (before ++ line :: rest) before.length (openBlock p before.length line rest) where
  started := Nat.le_refl _
  declaration := by simp [declarationAt, ModuleSplit.openBlock]
  depth := by simp [depthBefore, ModuleSplit.openBlock, runningDepth]
  opened := by simp [ModuleSplit.openBlock]
  terminated := by simp [ModuleSplit.openBlock]
  stays := by
    intro i above below
    exact absurd above (Nat.not_le.mpr below)

variable (split : whole = before ++ line :: rest) (tracks : Tracks p whole before.length b)

include split

theorem here : whole[before.length]? = some line ∧ whole.drop (before.length + 1) = rest := by
  subst split
  simp

include tracks

theorem falls_iff : FallsAt p whole b.start before.length ↔ b.lowest line < 0 := by
  rw [b.lowest_eq, tracks.depth, tracks.declaration]
  simp [FallsAt, (here split).1]

theorem lines : linesBetween b.start (before.length + 1) whole = linesBetween b.start before.length whole ++ [line] :=
  linesBetween_snoc tracks.started (here split).1

theorem deepened : (b.deepen line).depth = depthBefore p whole b.start (before.length + 1) ∧ (b.deepen line).opened =
      (linesBetween b.start (before.length + 1) whole).any (·.openedBrace) ∧ (b.deepen line).terminated =
      (linesBetween b.start (before.length + 1) whole).any (·.hasTerminator) := by
  refine ⟨?_, ?_, ?_⟩
  · rw [b.deepen_depth, depthBefore, tracks.lines split, runningDepth_snoc, tracks.depth, tracks.declaration]
    rfl
  · simp [tracks.lines split, OpenBlock.deepen, tracks.opened]
  · simp [tracks.lines split, OpenBlock.deepen, tracks.terminated]

-- The test of the scan is the condition on the lines. That the depth is not positive comes to its
-- being zero, since it is not negative.
theorem closes_iff (level : 0 ≤ (b.deepen line).depth) : ClosesAt p whole b.start before.length ↔ line.isBlankCode = false ∧
      (({b.deepen line with lastCode := before.length + 1}).settled line && statementComplete line rest) = true := by
  obtain ⟨depth, opened, terminated⟩ := tracks.deepened split
  obtain ⟨found, behind⟩ := here split
  have awaits : (b.deepen line).declaration = declarationAt p whole b.start := tracks.declaration
  have settled : ({b.deepen line with lastCode := before.length + 1}).settled line = true ↔
      (b.deepen line).depth = 0 ∧ line.endsInLiteral = false ∧ ((declarationAt p whole b.start).awaitsBody = true →
          ∃ l ∈ linesBetween b.start (before.length + 1) whole, l.openedBrace = true ∨ l.hasTerminator = true) := by
    have zero : (b.deepen line).depth ≤ 0 ↔ (b.deepen line).depth = 0 := by omega
    have body : (∃ l ∈ linesBetween b.start (before.length + 1) whole, l.openedBrace = true ∨ l.hasTerminator = true) ↔
        ((b.deepen line).opened || (b.deepen line).terminated) = true := by
      rw [opened, terminated]
      simp only [Bool.or_eq_true, any_eq_true, and_or_left, exists_or]
    rw [body, ← zero, ← awaits]
    unfold OpenBlock.settled
    cases (b.deepen line).declaration.awaitsBody <;> cases (b.deepen line).opened <;> cases (b.deepen line).terminated <;> simp
  rw [Bool.and_eq_true, settled, depth]
  constructor
  · rintro ⟨⟨l, there, code, outside, complete⟩, level, body⟩
    cases found.symm.trans there
    rw [behind] at complete
    exact ⟨code, ⟨level, outside, body⟩, complete⟩
  · rintro ⟨code, ⟨level, outside, body⟩, complete⟩
    exact ⟨⟨line, found, code, outside, behind ▸ complete⟩, level, body⟩

-- What one reading keeps: the block stays open because the line neither falls nor closes.
theorem next (low : line.minDepth ≤ line.depthDelta) {after : OpenBlock}
    (read : b.read before.length line rest = .inl after) : Tracks p whole (before.length + 1) after := by
  have bound := b.lowest_le_deepen low
  have step := b.reading before.length line rest
  rw [read] at step
  obtain ⟨depth, opened, terminated⟩ := tracks.deepened split
  have stays : ∀ level : 0 ≤ b.lowest line, (¬ClosesAt p whole b.start before.length) →
      StaysOpen p whole b.start (before.length + 1) := by
    intro level unclosed i above below
    rcases Nat.lt_succ_iff_lt_or_eq.mp below with earlier | rfl
    · exact tracks.stays i above earlier
    · exact ⟨fun falls => absurd ((tracks.falls_iff split).mp falls) (by omega), unclosed⟩
  cases step with
  | blank level empty =>
    refine ⟨Nat.le_succ_of_le tracks.started, tracks.declaration, depth, opened, terminated, stays level ?_⟩
    rw [tracks.closes_iff split (by omega), empty]
    simp
  | goesOn level shows unfinished =>
    refine ⟨Nat.le_succ_of_le tracks.started, tracks.declaration, depth, opened, terminated, stays level ?_⟩
    rw [tracks.closes_iff split (by omega), unfinished]
    simp

theorem closed (low : line.minDepth ≤ line.depthDelta) {e : Extent}
    (read : b.read before.length line rest = .inr e) : EndsAs p whole e.start e.stop e.closing := by
  have bound := b.lowest_le_deepen low
  have step := b.reading before.length line rest
  rw [read] at step
  cases step with
  | unbalanced below => exact .unbalanced tracks.stays ((tracks.falls_iff split).mpr below)
  | complete level code settled finished =>
    refine .complete tracks.stays ?_ ((tracks.closes_iff split (by omega)).mpr ⟨code, ?_⟩)
    · intro falls
      have below := (tracks.falls_iff split).mp falls
      omega
    · rw [settled, finished]
      rfl

end Tracks

theorem extents_end (p : Patterns) (mode : DelimiterMode) (lines : List Text) :
    ∀ e ∈ extents p none 0 (summarize mode lines), EndsAs p (summarize mode lines) e.start e.stop e.closing ∧
        e.declaration = declarationAt p (summarize mode lines) e.start ∧ e.state = e.declaration.scanState := by
  have keeps : ScanInvariant p (summarize mode lines) (fun _ => True) (fun _ => True)
      (fun before b => Tracks p (summarize mode lines) before.length b ∧ OpenAt (summarize mode lines) before.length b)
      (fun e => EndsAs p (summarize mode lines) e.start e.stop e.closing ∧
        e.declaration = declarationAt p (summarize mode lines) e.start ∧
        e.state = e.declaration.scanState) := {
    passes := fun _ _ _ _ _ _ => trivial
    opens := by
      intro before line rest split _ code
      rw [split]
      exact ⟨.openBlock p before rest line, openBlock_openAt p code⟩
    goesOn := by
      rintro before line rest b next split ⟨tracks, valid⟩ read
      rw [length_append, length_singleton]
      refine ⟨tracks.next split (summarize_level split).2 read, ?_⟩
      rw [split] at valid ⊢
      exact (valid.next read).2
    closes := by
      rintro before line rest b e split ⟨tracks, _⟩ read _
      refine ⟨⟨tracks.closed split (summarize_level split).2 read, ?_⟩, trivial⟩
      have step := b.reading before.length line rest
      rw [read] at step
      cases step <;> exact ⟨tracks.declaration, rfl⟩
    ends := by
      rintro b ⟨tracks, valid⟩
      refine ⟨.endOfSource tracks.stays valid.last ?_, tracks.declaration, rfl⟩
      intro i above code
      exact valid.blank i above code.lt_length code }
  exact keeps.scanned trivial fun _ _ => trivial

def Closing.warnings (d : Declaration) (start stop : Nat) : Closing → List Warning
  | .complete => []
  | .unbalanced => [⟨stop, .unbalancedCloser⟩]
  | .endOfSource => [⟨start + 1, .unterminated d.scanState⟩]

def Block.Holds (b : Block) (w : Warning) : Prop := b.start < w.line ∧ w.line ≤ b.stop

instance (b : Block) (w : Warning) : Decidable (b.Holds w) := inferInstanceAs (Decidable (_ ∧ _))

theorem Extent.warning?_line {e : Extent} (extent : e.start < e.stop) {w : Warning}
    (warned : e.warning? = some w) : e.start < w.line ∧ w.line ≤ e.stop := by
  unfold Extent.warning? at warned
  split at warned
  · cases warned
  · cases warned
    exact ⟨extent, Nat.le_refl _⟩
  · cases warned
    exact ⟨Nat.lt_succ_self _, extent⟩

-- Extents in order do not share a line, so that a warning is within one of them only.
theorem warnings_within {found : List Extent} (ordered : found.Pairwise fun a b => a.stop ≤ b.start)
    (extent : ∀ e ∈ found, e.start < e.stop) {e : Extent} (member : e ∈ found) :
    (found.filterMap (·.warning?)).filter (fun w => e.start < w.line ∧ w.line ≤ e.stop) = e.warning?.toList := by
  induction ordered with
  | nil => cases member
  | @cons first rest above _ ih =>
    rw [forall_mem_cons] at extent
    have parted : (first :: rest).filterMap (·.warning?) = first.warning?.toList ++ rest.filterMap (·.warning?) := by
      cases warned : first.warning? <;> simp [warned]
    rw [parted, filter_append]
    rcases mem_cons.mp member with rfl | later
    · have own : e.warning?.toList.filter (fun w => e.start < w.line ∧ w.line ≤ e.stop) = e.warning?.toList := by
        refine filter_eq_self.mpr fun w warned => ?_
        exact decide_eq_true (Extent.warning?_line extent.1 (Option.mem_toList.mp warned))
      rw [own, filter_eq_nil_iff.mpr, append_nil]
      intro w warned
      obtain ⟨other, behind, same⟩ := mem_filterMap.mp warned
      have := above other behind
      have := Extent.warning?_line (extent.2 other behind) same
      simp only [decide_eq_true_eq]
      omega
    · rw [ih extent.2 later, filter_eq_nil_iff.mpr, nil_append]
      intro w warned
      have := above e later
      have := Extent.warning?_line extent.1 (Option.mem_toList.mp warned)
      simp only [decide_eq_true_eq]
      omega

theorem Extent.warning?_eq {e : Extent} (state : e.state = e.declaration.scanState) :
    e.warning?.toList = e.closing.warnings e.declaration e.start e.stop := by
  unfold Extent.warning?
  cases e.closing with
  | complete => rfl
  | unbalanced => rfl
  | endOfSource =>
    rw [state]
    rfl

theorem scan_last_block {mode : DelimiterMode} {lines : List Text} {b : Block} (member : b ∈ (scan p mode lines).blocks)
    (last : ∀ i, b.stop ≤ i → ¬CodeAt (summarize mode lines) i) : (scan p mode lines).blocks.getLast? = some b := by
  have some := ne_nil_of_mem member
  have parted := dropLast_append_getLast some
  rw [← parted] at member
  rcases mem_append.mp member with earlier | final
  · obtain ⟨i, behind, code⟩ := code_follows (scan_blocks_ordered p mode lines)
      (fun c found => (scan_block_extent found).2.2) earlier
    exact absurd code (last i behind)
  · rw [getLast?_eq_some_getLast some, mem_singleton.mp final]

-- Each block ends in exactly one of three ways, by the lines of the source alone, and the warnings
-- within it are those of this way; it is marked as unterminated, and is the last one, where it lasts
-- to the end of the source. No warning is outside of the blocks.
theorem scan_blocks_end (p : Patterns) (mode : DelimiterMode) (lines : List Text) : (∀ b ∈ (scan p mode lines).blocks,
      ∃! closing, EndsAs p (summarize mode lines) b.start b.stop closing ∧
        (scan p mode lines).warnings.filter (fun w => b.Holds w) =
          closing.warnings (declarationAt p (summarize mode lines) b.start) b.start b.stop ∧
        (b.unterminated = true ↔ closing = .endOfSource) ∧
        (closing = .endOfSource → (scan p mode lines).blocks.getLast? = some b)) ∧
    ∀ w ∈ (scan p mode lines).warnings, ∃ b ∈ (scan p mode lines).blocks, b.Holds w := by
  have tiles := scan_tiles p mode lines
  constructor
  · intro b member
    obtain ⟨extent, bound, _⟩ := scan_block_extent member
    obtain ⟨e, found, rfl⟩ := mem_scan_blocks.mp member
    obtain ⟨ends, declared, state⟩ := extents_end p mode lines e found
    refine ⟨e.closing, ⟨ends, ?_, by simp [Extent.toBlock], ?_⟩, ?_⟩
    · have within := warnings_within tiles.ordered (fun e found => (tiles.extent e found).1) found
      rw [Extent.warning?_eq state, declared] at within
      exact within
    · intro unterminated
      refine scan_last_block member ?_
      rw [unterminated] at ends
      cases ends with
      | endOfSource _ _ last => exact last
    · rintro other ⟨also, _⟩
      exact also.unique extent (by rwa [summarize_length]) ends
  · intro w warned
    obtain ⟨e, found, same⟩ := mem_filterMap.mp warned
    exact ⟨_, mem_scan_blocks.mpr ⟨e, found, rfl⟩, Extent.warning?_line (tiles.extent e found).1 same⟩

end ModuleSplit
