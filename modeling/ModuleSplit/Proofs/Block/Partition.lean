import Mathlib.Logic.ExistsUnique
import ModuleSplit.Proofs.Block.Reading
import ModuleSplit.Proofs.Delimiter.Trace

-- The blocks of a scan partition the lines of code, whatever the patterns and the lines: blocks
-- lie one behind the other, each line of code is in exactly one of them, and nothing else is code.

namespace ModuleSplit

open List Text

variable {b : Block} {p : Patterns} {mode : DelimiterMode} {start stop i : Nat} {lines : List Text}
  {before rest : List LineSummary}

def CodeAt (summaries : List LineSummary) (i : Nat) : Prop :=
  ∃ line, summaries[i]? = some line ∧ line.isBlankCode = false

@[simp] theorem codeAt_append {line : LineSummary} : CodeAt (before ++ line :: rest) before.length ↔ line.isBlankCode = false := by
  simp [CodeAt]

theorem CodeAt.lt_length {summaries : List LineSummary} (code : CodeAt summaries i) : i < summaries.length := by
  obtain ⟨line, found, _⟩ := code
  exact (List.getElem?_eq_some_iff.mp found).1

-- Extents that lie one behind the other from a line on. No code is passed over on the way to one
-- of them, nor behind the last.
def Tiles (summaries : List LineSummary) (first : Nat) : List Extent → Prop
  | [] => ∀ i, first ≤ i → ¬CodeAt summaries i
  | e :: rest =>
    first ≤ e.start ∧ e.start < e.stop ∧ e.stop ≤ summaries.length ∧ CodeAt summaries e.start ∧
      (∀ i, first ≤ i → i < e.start → ¬CodeAt summaries i) ∧ Tiles summaries e.stop rest

namespace Tiles

variable {summaries : List LineSummary} {first : Nat} {found : List Extent}

theorem lower {next : Nat} (tiles : Tiles summaries next found) (le : first ≤ next)
    (blank : ∀ i, first ≤ i → i < next → ¬CodeAt summaries i) : Tiles summaries first found := by
  cases found with
  | nil =>
    intro i above
    by_cases passed : i < next
    · exact blank i above passed
    · exact tiles i (by omega)
  | cons e rest =>
    obtain ⟨start, extent, bound, code, gap, later⟩ := tiles
    refine ⟨by omega, extent, bound, code, ?_, later⟩
    intro i above below
    by_cases passed : i < next
    · exact blank i above passed
    · exact gap i (by omega) below

theorem first_le (tiles : Tiles summaries first found) : ∀ e ∈ found, first ≤ e.start := by
  induction found generalizing first with
  | nil => simp
  | cons e rest ih =>
    obtain ⟨start, extent, _, _, _, later⟩ := tiles
    intro other member
    rcases mem_cons.mp member with rfl | behind
    · exact start
    · have := ih later other behind
      omega

theorem ordered (tiles : Tiles summaries first found) : found.Pairwise fun a b => a.stop ≤ b.start := by
  induction found generalizing first with
  | nil => exact .nil
  | cons e rest ih =>
    obtain ⟨_, _, _, _, _, later⟩ := tiles
    exact .cons later.first_le (ih later)

theorem extent (tiles : Tiles summaries first found) :
    ∀ e ∈ found, e.start < e.stop ∧ e.stop ≤ summaries.length ∧ CodeAt summaries e.start := by
  induction found generalizing first with
  | nil => simp
  | cons e rest ih =>
    obtain ⟨_, extent, bound, code, _, later⟩ := tiles
    intro other member
    rcases mem_cons.mp member with rfl | behind
    · exact ⟨extent, bound, code⟩
    · exact ih later other behind

theorem covered (tiles : Tiles summaries first found) {i : Nat} (above : first ≤ i)
    (code : CodeAt summaries i) : ∃ e ∈ found, e.start ≤ i ∧ i < e.stop := by
  induction found generalizing first with
  | nil => exact absurd code (tiles i above)
  | cons e rest ih =>
    obtain ⟨_, _, _, _, gap, later⟩ := tiles
    by_cases before : i < e.start
    · exact absurd code (gap i above before)
    · by_cases inside : i < e.stop
      · exact ⟨e, mem_cons_self, by omega, inside⟩
      · obtain ⟨other, member, range⟩ := ih later (by omega)
        exact ⟨other, mem_cons_of_mem _ member, range⟩

end Tiles

-- What is known about a block when line `index` is about to be read. This includes a block that
-- the line itself has just opened.
structure OpenAt (summaries : List LineSummary) (index : Nat) (b : OpenBlock) : Prop where
  started : b.start ≤ index
  begun : b.start < b.lastCode
  code : CodeAt summaries b.start
  last : CodeAt summaries (b.lastCode - 1)
  blank : ∀ i, b.lastCode ≤ i → i < index → ¬CodeAt summaries i

theorem openBlock_openAt (p : Patterns) {line : LineSummary} (code : line.isBlankCode = false) :
    OpenAt (before ++ line :: rest) before.length (openBlock p before.length line rest) := by
  refine ⟨Nat.le_refl _, Nat.lt_succ_self _, codeAt_append.mpr code, codeAt_append.mpr code, ?_⟩
  intro i above below
  have : before.length + 1 ≤ i := above
  omega

namespace OpenAt

variable {before rest : List LineSummary} {line : LineSummary} {b : OpenBlock}

theorem next (valid : OpenAt (before ++ line :: rest) before.length b) {after : OpenBlock}
    (read : b.read before.length line rest = .inl after) :
    after.start = b.start ∧ OpenAt (before ++ line :: rest) (before.length + 1) after := by
  have step := b.reading before.length line rest
  rw [read] at step
  obtain ⟨started, begun, code, last, blank⟩ := valid
  cases step with
  | blank level empty =>
    refine ⟨rfl, Nat.le_succ_of_le started, begun, code, last, ?_⟩
    intro i above below
    rcases Nat.lt_succ_iff_lt_or_eq.mp below with earlier | rfl
    · exact blank i above earlier
    · simp [empty]
  | goesOn level shows unfinished =>
    refine ⟨rfl, Nat.le_succ_of_le started, Nat.lt_succ_of_le started, code, codeAt_append.mpr shows, ?_⟩
    intro i above below
    have : before.length + 1 ≤ i := above
    omega

theorem closed {e : Extent} (read : b.read before.length line rest = .inr e) :
    e.start = b.start ∧ e.stop = before.length + 1 := by
  have step := b.reading before.length line rest
  rw [read] at step
  cases step <;> exact ⟨rfl, rfl⟩

end OpenAt

-- The line from which the extents still to come have to cover all code.
def pendingFrom (current : Option OpenBlock) (index : Nat) : Nat :=
  match current with
  | some b => b.start
  | none => index

-- The induction is on the lines still to be read; `before` holds those already read.
theorem extents_tiles (p : Patterns) (before rest : List LineSummary) (current : Option OpenBlock)
    (valid : ∀ b, current = some b → OpenAt (before ++ rest) before.length b) :
    Tiles (before ++ rest) (pendingFrom current before.length) (extents p current before.length rest) := by
  induction rest generalizing before current with
  | nil =>
    cases current with
    | none =>
      intro i above code
      have := code.lt_length
      simp only [append_nil] at this
      exact absurd above (Nat.not_le.mpr this)
    | some b =>
      obtain ⟨started, begun, code, last, blank⟩ := valid b rfl
      have bound := last.lt_length
      refine ⟨Nat.le_refl _, begun, ?_, code, ?_, ?_⟩
      · show b.lastCode ≤ _
        omega
      · intro i above below
        exact absurd above (Nat.not_le.mpr below)
      · intro i above other
        have := other.lt_length
        rw [append_nil] at this
        exact blank i above this other
  | cons line rest ih =>
    have shift : before ++ line :: rest = (before ++ [line]) ++ rest := by simp
    have place : before.length + 1 = (before ++ [line]).length := by simp
    -- A block that reads this line, whether it was open before or is opened by it.
    have step : ∀ b, OpenAt (before ++ line :: rest) before.length b → Tiles (before ++ line :: rest) b.start
          (extents p (some b) before.length (line :: rest)) := by
      intro b opened
      cases read : b.read before.length line rest with
      | inl after =>
        obtain ⟨same, further⟩ := opened.next read
        rw [extents_goesOn read, ← same]
        rw [shift, place] at further ⊢
        exact ih (before ++ [line]) (some after) (by rintro _ ⟨⟩; exact further)
      | inr e =>
        obtain ⟨same, stop⟩ := OpenAt.closed read
        rw [extents_closes read]
        refine ⟨by omega, by have := opened.started; omega, ?_, by rw [same]; exact opened.code, ?_, ?_⟩
        · rw [stop, length_append, length_cons]
          omega
        · intro i above below
          omega
        · rw [stop, shift, place]
          exact ih (before ++ [line]) none (by simp)
    cases current with
    | some b => exact step b (valid b rfl)
    | none =>
      cases code : line.isBlankCode with
      | true =>
        rw [extents_blank code, shift, place]
        refine (ih (before ++ [line]) none (by simp)).lower ?_ ?_
        · show before.length ≤ (before ++ [line]).length
          omega
        · intro i above below
          have : i = before.length := by
            have : before.length ≤ i := above
            have : i < (before ++ [line]).length := below
            omega
          rw [this, ← shift, codeAt_append, code]
          simp
      | false =>
        rw [extents_code code]
        exact step _ (openBlock_openAt p code)

theorem linesBetween_map {α β : Type} (f : α → β) (start stop : Nat) (lines : List α) :
    (linesBetween start stop lines).map f = linesBetween start stop (lines.map f) := by
  simp [linesBetween, map_take, map_drop]

theorem linesBetween_getLast? {α : Type} {lines : List α} (some : start < stop)
    (bound : stop ≤ lines.length) : (linesBetween start stop lines).getLast? = lines[stop - 1]? := by
  have length : (linesBetween start stop lines).length = stop - start := by
    simp [linesBetween]
    omega
  rw [getLast?_eq_getElem?, length]
  unfold linesBetween
  rw [getElem?_take_of_lt (by omega), getElem?_drop]
  congr 1
  omega

theorem linesBetween_ne_nil {α : Type} {lines : List α} (some : start < stop)
    (bound : stop ≤ lines.length) : linesBetween start stop lines ≠ [] := by
  intro none
  have length := congrArg List.length none
  simp [linesBetween] at length
  omega

theorem linesBetween_subset {α : Type} {lines : List α} {line : α}
    (member : line ∈ linesBetween start stop lines) : line ∈ lines :=
  mem_of_mem_drop (mem_of_mem_take member)

theorem scan_tiles (p : Patterns) (mode : DelimiterMode) (lines : List Text) :
    Tiles (summarize mode lines) 0 (extents p none 0 (summarize mode lines)) :=
  extents_tiles p [] (summarize mode lines) none (by simp)

theorem mem_scan_blocks : b ∈ (scan p mode lines).blocks ↔
      ∃ e ∈ extents p none 0 (summarize mode lines), e.toBlock p (summarize mode lines) = b := by
  simp [scan]

theorem scan_blocks_ordered (p : Patterns) (mode : DelimiterMode) (lines : List Text) :
    (scan p mode lines).blocks.Pairwise fun a b => a.stop ≤ b.start :=
  pairwise_map.mpr (scan_tiles p mode lines).ordered

theorem scan_block_text (member : b ∈ (scan p mode lines).blocks) : b.text = unlines (linesBetween b.start b.stop lines) := by
  obtain ⟨e, _, rfl⟩ := mem_scan_blocks.mp member
  show unlines ((linesBetween e.start e.stop (summarize mode lines)).map (·.text)) = _
  rw [linesBetween_map, summarize_texts]
  rfl

theorem scan_block_extent (member : b ∈ (scan p mode lines).blocks) :
    b.start < b.stop ∧ b.stop ≤ lines.length ∧ CodeAt (summarize mode lines) b.start := by
  obtain ⟨e, found, rfl⟩ := mem_scan_blocks.mp member
  have extent := (scan_tiles p mode lines).extent e found
  rwa [summarize_length] at extent

theorem scan_block_lines {source : List Text} (plain : ∀ l ∈ source, '\n' ∉ l) (member : b ∈ (scan p mode source).blocks) :
    Text.lines b.text = linesBetween b.start b.stop source := by
  obtain ⟨extent, bound, _⟩ := scan_block_extent member
  rw [scan_block_text member]
  exact lines_unlines (linesBetween_ne_nil extent bound) (fun l inside => plain l (linesBetween_subset inside))

theorem ordered_unique {blocks : List Block} (ordered : blocks.Pairwise fun a b => a.stop ≤ b.start)
    {a : Block} (left : a ∈ blocks) (right : b ∈ blocks)
    (inLeft : a.start ≤ i ∧ i < a.stop) (inRight : b.start ≤ i ∧ i < b.stop) : a = b := by
  induction ordered with
  | nil => cases left
  | cons above _ ih =>
    rcases mem_cons.mp left with rfl | later <;> rcases mem_cons.mp right with rfl | behind
    · rfl
    · have := above b behind
      omega
    · have := above a later
      omega
    · exact ih later behind

-- The partition as a whole: the ranges of the blocks are not empty and lie one behind the other,
-- each begins with code and has the text of its lines; every line of code lies in exactly one of
-- them, and a line in none of them has no code.
theorem scan_partitions_code (p : Patterns) (mode : DelimiterMode) (lines : List Text) :
    (scan p mode lines).blocks.Pairwise (fun a b => a.stop ≤ b.start) ∧
    (∀ b ∈ (scan p mode lines).blocks, b.start < b.stop ∧ b.stop ≤ lines.length ∧
      CodeAt (summarize mode lines) b.start ∧ b.text = unlines (linesBetween b.start b.stop lines)) ∧
    (∀ i, CodeAt (summarize mode lines) i → ∃! b, b ∈ (scan p mode lines).blocks ∧ b.start ≤ i ∧ i < b.stop) ∧
    ∀ i line, (summarize mode lines)[i]? = some line → (∀ b ∈ (scan p mode lines).blocks, ¬(b.start ≤ i ∧ i < b.stop)) →
      line.isBlankCode = true := by
  have covered : ∀ i, CodeAt (summarize mode lines) i → ∃ b ∈ (scan p mode lines).blocks, b.start ≤ i ∧ i < b.stop := by
    intro i code
    obtain ⟨e, found, range⟩ := (scan_tiles p mode lines).covered (Nat.zero_le i) code
    exact ⟨_, mem_scan_blocks.mpr ⟨e, found, rfl⟩, range⟩
  refine ⟨scan_blocks_ordered p mode lines, ?_, ?_, ?_⟩
  · intro b member
    obtain ⟨extent, bound, code⟩ := scan_block_extent member
    exact ⟨extent, bound, code, scan_block_text member⟩
  · intro i code
    obtain ⟨b, member, range⟩ := covered i code
    refine ⟨b, ⟨member, range⟩, ?_⟩
    rintro c ⟨other, shared⟩
    exact ordered_unique (scan_blocks_ordered p mode lines) other member shared range
  · intro i line found outside
    cases blank : line.isBlankCode with
    | true => rfl
    | false =>
      obtain ⟨b, member, range⟩ := covered i ⟨line, found, blank⟩
      exact absurd range (outside b member)

end ModuleSplit
