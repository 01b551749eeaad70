import ModuleSplit.Proofs.Block.Partition
import ModuleSplit.Proofs.Declaration.LookAhead

-- Scanning is local: where nothing is open between two parts, each has its own blocks.

namespace ModuleSplit

open List Text

namespace Lexer

-- No template literal, template expression or block comment is open. A quoted string may be: it
-- ends with its line.
def AtRest : Lexer → Prop
  | .literal s => s.state ≠ .template ∧ s.state ≠ .blockComment ∧ s.expressions = []
  | .raw s => s.inBlockComment = false

instance : (lexer : Lexer) → Decidable lexer.AtRest
  | .literal s =>
    inferInstanceAs (Decidable (s.state ≠ .template ∧ s.state ≠ .blockComment ∧ s.expressions = []))
  | .raw s => inferInstanceAs (Decidable (s.inBlockComment = false))

theorem AtRest.trace {mode : DelimiterMode} {a : List Text} (rest : ((start mode).after a).AtRest)
    (b : List Text) : ((start mode).after a).trace b = (start mode).trace b := by
  cases mode with
  | literalAware =>
    rw [start, Cursor.lexer_after_literal] at rest ⊢
    generalize Cursor.after {} a = s at rest
    obtain ⟨noTemplate, noComment, noExpression⟩ := rest
    have same : s.atLineStart = {} := by
      obtain ⟨state, expressions⟩ := s
      cases noExpression
      cases state with
      | template => exact absurd rfl noTemplate
      | blockComment => exact absurd rfl noComment
      | code => rfl
      | singleQuote => rfl
      | doubleQuote => rfl
      | lineComment => rfl
    cases b with
    | nil => rfl
    | cons line b =>
      have fed : s.feed line = Cursor.feed {} line := by rw [← s.feed_atLineStart, same]
      simp only [Lexer.trace, feed, fed]
  | raw =>
    cases after : (start .raw).after a with
    | literal s =>
      have kept : ∀ (s : RawCursor) (ls : List Text), ∃ r, (raw s).after ls = raw r := by
        intro s ls
        induction ls generalizing s with
        | nil => exact ⟨s, rfl⟩
        | cons line ls ih => exact ih (s.feed line).2
      obtain ⟨r, same⟩ := kept {} a
      rw [start, same] at after
      cases after
    | raw s =>
      rw [after] at rest
      obtain ⟨comment⟩ := s
      cases rest
      rfl

end Lexer

section Boundary

variable {p : Patterns} {b : OpenBlock} {index : Nat} {line : LineSummary}
  {rest after : List LineSummary}

theorem nextCode_blank (blank : rest.find? (!·.isBlankCode) = none) : nextCode rest = [] := by
  rw [nextCode, blank]

theorem nextCode_append_blank (blank : rest.find? (!·.isBlankCode) = none) : nextCode (rest ++ after) = nextCode after := by
  rw [nextCode, find?_append, blank]
  rfl

theorem nextCode_append_code {next : LineSummary} (code : rest.find? (!·.isBlankCode) = some next) :
    nextCode (rest ++ after) = nextCode rest := by
  rw [nextCode, nextCode, find?_append, code]
  rfl

theorem statementComplete_append (begins : Declaration.startsOpen (nextCode after) = false) :
    statementComplete line (rest ++ after) = statementComplete line rest := by
  unfold statementComplete
  cases next : rest.find? (!·.isBlankCode) with
  | none =>
    rw [nextCode_append_blank next, nextCode_blank next, begins]
    rfl
  | some _ => rw [nextCode_append_code next]

theorem read_append (begins : Declaration.startsOpen (nextCode after) = false) :
    b.read index line (rest ++ after) = b.read index line rest := by
  unfold OpenBlock.read
  rw [statementComplete_append begins]

theorem extents_unfinished (p : Patterns) (b : OpenBlock) (index : Nat) (blank : rest.find? (!·.isBlankCode) = none) :
    ∃ e ∈ extents p (some b) index rest, e.closing ≠ .complete := by
  induction rest generalizing b index with
  | nil => exact ⟨_, mem_singleton_self _, Closing.noConfusion⟩
  | cons line rest ih =>
    have shown : line.isBlankCode = true ∧ rest.find? (!·.isBlankCode) = none := by
      simpa using blank
    have step := b.reading index line rest
    cases read : b.read index line rest with
    | inl next =>
      rw [extents_goesOn read]
      exact ih next (index + 1) shown.2
    | inr e =>
      rw [extents_closes read]
      rw [read] at step
      refine ⟨e, mem_cons_self, ?_⟩
      cases step with
      | unbalanced below => exact Closing.noConfusion
      | complete level code settled finished =>
        rw [shown.1] at code
        cases code

theorem statementComplete_equals (ends : line.code.EndsInEquals) (rest : List LineSummary) :
    statementComplete line rest = false := by
  obtain ⟨before, trimmed⟩ := ends.trimRight_eq
  have other : ∀ token : String, token.toList ≠ [] → token.toList.getLast? ≠ some '=' →
      endsWith (before ++ ['=']) token = false := by
    intro token some last
    cases ended : endsWith (before ++ ['=']) token with
    | false => rfl
    | true => exact (endsWith_last ended).elim (absurd · some) (absurd · last)
  have open_ : Declaration.endsOpen (before ++ ['=']) = true := by
    unfold Declaration.endsOpen
    dsimp only
    rw [trimRight_visible rfl, other "++" (by decide) (by decide), other "--" (by decide) (by decide),
      Bool.or_false, Bool.not_false, Bool.true_and, any_eq_true]
    exact ⟨"=", by decide, isSuffixOf_iff_suffix.mpr (suffix_append before _)⟩
  unfold statementComplete
  dsimp only
  rw [trimmed, other ";" (by decide) (by decide), open_]
  rfl

-- The line that opens a block is understood without what comes behind the part: were it not, it
-- would be unfinished there.
theorem openBlock_append (begins : Declaration.startsOpen (nextCode after) = false)
    (closed : ∀ e ∈ extents p (some (openBlock p index line rest)) index (line :: rest), e.closing = .complete) :
    openBlock p index line (rest ++ after) = openBlock p index line rest := by
  unfold openBlock
  cases next : rest.find? (!·.isBlankCode) with
  | some _ => rw [nextCode_append_code next]
  | none =>
    have ends : ¬(trim line.code).EndsInEquals := by
      intro equals
      have unfinished := statementComplete_equals equals.of_trim rest
      have step := (openBlock p index line rest).reading index line rest
      cases read : (openBlock p index line rest).read index line rest with
      | inl b =>
        rw [extents_goesOn read] at closed
        obtain ⟨e, member, other⟩ := extents_unfinished p b (index + 1) next
        exact other (closed e member)
      | inr e =>
        rw [extents_closes read] at closed
        have complete := closed e mem_cons_self
        rw [read] at step
        cases step with
        | unbalanced below => cases complete
        | complete level code settled finished =>
          rw [unfinished] at finished
          cases finished
    rw [nextCode_append_blank next, nextCode_blank next, Declaration.describe_next p begins ends]

-- The induction is on the lines of the first part. While it is read no line is understood otherwise
-- than it is there, and it ends with no block open.
theorem extents_append (p : Patterns) (current : Option OpenBlock) (index : Nat)
    (before after : List LineSummary) (begins : Declaration.startsOpen (nextCode after) = false)
    (closed : ∀ e ∈ extents p current index before, e.closing = .complete) : extents p current index (before ++ after) =
      extents p current index before ++ extents p none (index + before.length) after := by
  induction before generalizing current index with
  | nil =>
    cases current with
    | none => rfl
    | some b => cases closed _ (mem_singleton_self _)
  | cons line rest ih =>
    have place : index + (line :: rest).length = index + 1 + rest.length := by
      rw [length_cons]
      omega
    rw [place]
    have step : ∀ b, (∀ e ∈ extents p (some b) index (line :: rest), e.closing = .complete) →
        extents p (some b) index (line :: (rest ++ after)) = extents p (some b) index (line :: rest) ++
            extents p none (index + 1 + rest.length) after := by
      intro b closed
      have same : b.read index line (rest ++ after) = b.read index line rest := read_append begins
      cases read : b.read index line rest with
      | inl next =>
        rw [read] at same
        rw [extents_goesOn read] at closed ⊢
        rw [extents_goesOn same, ih _ _ closed]
      | inr e =>
        rw [read] at same
        rw [extents_closes read] at closed ⊢
        rw [extents_closes same, ih _ _ (fun e member => closed e (mem_cons_of_mem _ member)), cons_append]
    cases current with
    | some b => exact step b closed
    | none =>
      cases code : line.isBlankCode with
      | true =>
        rw [extents_blank code] at closed ⊢
        rw [cons_append, extents_blank code, ih _ _ closed]
      | false =>
        rw [extents_code code] at closed ⊢
        rw [cons_append, extents_code code, openBlock_append begins closed]
        exact step _ closed

end Boundary

def OpenBlock.shift (n : Nat) (b : OpenBlock) : OpenBlock :=
  {b with start := b.start + n, lastCode := b.lastCode + n}

def Extent.shift (n : Nat) (e : Extent) : Extent :=
  {e with start := e.start + n, stop := e.stop + n}

def Block.shift (n : Nat) (b : Block) : Block := {b with start := b.start + n, stop := b.stop + n}

def Warning.shift (n : Nat) (w : Warning) : Warning := {w with line := w.line + n}

theorem read_shift (n : Nat) (b : OpenBlock) (index : Nat) (line : LineSummary) (rest : List LineSummary) :
    (b.shift n).read (index + n) line rest = (b.read index line rest).map (·.shift n) (·.shift n) := by
  have place : index + n + 1 = index + 1 + n := by omega
  have lowest : (b.shift n).lowest line = b.lowest line := rfl
  have settled : OpenBlock.settled {(b.shift n).deepen line with lastCode := index + 1 + n} line =
      OpenBlock.settled {b.deepen line with lastCode := index + 1} line := rfl
  unfold OpenBlock.read
  rw [lowest, place]
  dsimp only
  rw [settled]
  split
  · rfl
  · split
    · rfl
    · split <;> rfl

theorem openBlock_shift (n : Nat) (p : Patterns) (index : Nat) (line : LineSummary) (rest : List LineSummary) :
    openBlock p (index + n) line rest = (openBlock p index line rest).shift n := by
  have place : index + n + 1 = index + 1 + n := by omega
  unfold openBlock
  rw [place]
  rfl

theorem extents_shift (n : Nat) (p : Patterns) (current : Option OpenBlock) (index : Nat)
    (summaries : List LineSummary) : extents p (current.map (·.shift n)) (index + n) summaries =
      (extents p current index summaries).map (·.shift n) := by
  induction summaries generalizing current index with
  | nil => cases current <;> rfl
  | cons line rest ih =>
    have place : index + n + 1 = index + 1 + n := by omega
    have step : ∀ b : OpenBlock, extents p (some (b.shift n)) (index + n) (line :: rest) =
        (extents p (some b) index (line :: rest)).map (·.shift n) := by
      intro b
      have moved := read_shift n b index line rest
      cases read : b.read index line rest with
      | inl next =>
        rw [read] at moved
        rw [extents_goesOn moved, extents_goesOn read, place]
        exact ih (some next) (index + 1)
      | inr e =>
        rw [read] at moved
        rw [extents_closes moved, extents_closes read, place, map_cons]
        exact congrArg _ (ih none (index + 1))
    cases current with
    | some b => exact step b
    | none =>
      rw [Option.map_none]
      cases code : line.isBlankCode with
      | true =>
        rw [extents_blank code, extents_blank code, place]
        exact ih none (index + 1)
      | false =>
        rw [extents_code code, extents_code code, openBlock_shift]
        exact step _

theorem toBlock_before {e : Extent} (p : Patterns) {before : List LineSummary}
    (bound : e.stop ≤ before.length) (after : List LineSummary) : e.toBlock p (before ++ after) = e.toBlock p before := by
  have lines : linesBetween e.start e.stop (before ++ after) = linesBetween e.start e.stop before := by
    unfold linesBetween
    rw [← drop_take, ← drop_take, take_append_of_le_length bound]
  unfold Extent.toBlock Extent.kind
  rw [lines]

theorem toBlock_after (e : Extent) (p : Patterns) (before after : List LineSummary) :
    (e.shift before.length).toBlock p (before ++ after) = (e.toBlock p after).shift before.length := by
  have lines : linesBetween (e.start + before.length) (e.stop + before.length) (before ++ after) =
      linesBetween e.start e.stop after := by
    unfold linesBetween
    rw [Nat.add_sub_add_right, Nat.add_comm, ← drop_drop, drop_left]
  unfold Extent.toBlock Extent.kind Extent.shift
  dsimp only
  rw [lines]
  rfl

theorem warning_shift (n : Nat) (e : Extent) : (e.shift n).warning? = e.warning?.map (·.shift n) := by
  unfold Extent.warning? Extent.shift
  cases e.closing with
  | complete => rfl
  | unbalanced => rfl
  | endOfSource =>
    rw [Nat.add_right_comm]
    rfl

theorem complete_of_warning {e : Extent} (none : e.warning? = none) : e.closing = .complete := by
  cases closing : e.closing with
  | complete => rfl
  | unbalanced => simp [Extent.warning?, closing] at none
  | endOfSource => simp [Extent.warning?, closing] at none

-- The scan of two parts one behind the other is the scan of each, the second moved down.
theorem scan_append (p : Patterns) (mode : DelimiterMode) (a b : List Text)
    (clean : (scan p mode a).warnings = []) (rest : ((Lexer.start mode).after a).AtRest)
    (begins : Declaration.startsOpen (nextCode (summarize mode b)) = false) : (scan p mode (a ++ b)).blocks =
      (scan p mode a).blocks ++ (scan p mode b).blocks.map (·.shift a.length) ∧
    (scan p mode (a ++ b)).warnings = (scan p mode b).warnings.map (·.shift a.length) := by
  have lexed : summarize mode (a ++ b) = summarize mode a ++ summarize mode b := by
    rw [summarize_append, rest.trace, ← summarize]
  have closed : ∀ e ∈ extents p none 0 (summarize mode a), e.closing = .complete :=
    fun e member => complete_of_warning (filterMap_eq_nil_iff.mp clean e member)
  have found : extents p none 0 (summarize mode (a ++ b)) = extents p none 0 (summarize mode a) ++
      (extents p none 0 (summarize mode b)).map (·.shift a.length) := by
    have moved := extents_shift a.length p none 0 (summarize mode b)
    rw [lexed, extents_append p none 0 _ _ begins closed, summarize_length]
    exact congrArg _ moved
  unfold scan at clean ⊢
  dsimp only at clean ⊢
  rw [found]
  constructor
  · rw [map_append, map_map, map_map]
    congr 1
    · refine map_congr_left fun e member => ?_
      rw [lexed]
      exact toBlock_before p ((scan_tiles p mode a).extent e member).2.1 _
    · refine map_congr_left fun e _ => ?_
      rw [lexed]
      have moved := toBlock_after e p (summarize mode a) (summarize mode b)
      rwa [summarize_length] at moved
  · rw [filterMap_append, clean, nil_append, filterMap_map, map_filterMap]
    refine filterMap_congr fun e _ => ?_
    exact warning_shift a.length e

-- The first part ends in a string that is not closed, the second begins with a line without code and
-- has an initializer on a line of its own.
def upperLines : List Text :=
  ["class A".toList, "\x7b \x7d // end".toList, "let s = 'x".toList]

def lowerLines : List Text := ["".toList, "const x =".toList, "  () => 1".toList, ")".toList]

theorem scan_append_upper_lower : (scan ⟨[], none, none, []⟩ .literalAware upperLines).warnings = [] ∧
    (scan ⟨[], none, none, []⟩ .literalAware (upperLines ++ lowerLines)).blocks =
      (scan ⟨[], none, none, []⟩ .literalAware upperLines).blocks ++
        (scan ⟨[], none, none, []⟩ .literalAware lowerLines).blocks.map (·.shift 3) ∧
    (scan ⟨[], none, none, []⟩ .literalAware (upperLines ++ lowerLines)).warnings = [⟨7, .unbalancedCloser⟩] := by
  have parts := scan_append ⟨[], none, none, []⟩ .literalAware upperLines lowerLines
    (by decide +kernel) (by decide +kernel) (by decide +kernel)
  exact ⟨by decide +kernel, parts.1, parts.2.trans (by decide +kernel)⟩

end ModuleSplit
