import ModuleSplit.Proofs.Block.Endings
import ModuleSplit.Proofs.Block.Locality
import ModuleSplit.Proofs.Declaration.Opening
import ModuleSplit.Proofs.Declaration.Terminator

namespace ModuleSplit

open List Text

namespace Cursor

@[grind] def Move.NoComment : Move → Prop
  | .one _ _ next => next.state ≠ .lineComment
  | .pair next => next.state ≠ .lineComment
  | .restOfLine => True

theorem moveExpression_one (s : Cursor) (depth : Int) (outer : List Int) (c : Char) :
    ∃ next, s.moveExpression depth outer c = .one ' ' false next ∧ (next.state = s.state ∨ next.state = .template) := by
  grind [moveExpression]

theorem move_noComment (s : Cursor) (c : Char) (next : Option Char) : Move.NoComment (s.move c next) := by
  unfold move
  split
  · trivial
  · grind [moveBlockComment]
  · grind [moveQuoted]
  · grind [moveQuoted]
  · grind [moveTemplate]
  · cases inside : s.expressions with
    | nil => grind [moveCode]
    | cons depth outer =>
      obtain ⟨_, moved, _⟩ := s.moveExpression_one depth outer c
      grind [moveCode]

theorem render_lineComment (s : Cursor) (tally : Tally) (line : Text)
    (outside : s.state ≠ .lineComment) (comment : (s.render tally line).cursor.state = .lineComment) :
    (s.render tally line).code.getLast? = some ' ' := by
  fun_induction Cursor.render s tally line with
  | case1 s tally => exact absurd comment outside
  | case2 s tally c shown counted next moved =>
    have other := s.move_noComment c none
    rw [moved] at other
    exact absurd comment other
  | case3 s tally c next moved =>
    have other := s.move_noComment c none
    rw [moved] at other
    exact absurd comment other
  | case4 s tally c moved => rfl
  | case5 s tally c d rest shown counted next moved ih =>
    have other := s.move_noComment c (some d)
    rw [moved] at other
    simp [Rendering.lead, getLast?_cons, ih other comment]
  | case6 s tally c d rest next moved ih =>
    have other := s.move_noComment c (some d)
    rw [moved] at other
    simp [Rendering.lead, getLast?_cons, ih other comment]
  | case7 s tally c d rest moved =>
    simp [getLast?_replicate]

theorem inStructuralCode_iff {s : Cursor} : s.inStructuralCode = true ↔ s = {} := by
  obtain ⟨state, expressions⟩ := s
  cases state <;> cases expressions <;> simp [inStructuralCode]

theorem move_semicolon (s : Cursor) (c : Char) : s.move c (some ';') = s.move c none := by
  unfold move
  split <;> simp [moveBlockComment, moveTemplate, moveCode]

theorem move_pair_last {s next : Cursor} {c : Char} (moved : s.move c none = .pair next) : next ≠ {} := by
  rintro rfl
  unfold move at moved
  split at moved
  · cases moved
  · grind [moveBlockComment]
  · grind [moveQuoted]
  · grind [moveQuoted]
  · grind [moveTemplate]
  · cases inside : s.expressions with
    | nil => grind [moveCode]
    | cons depth outer =>
      obtain ⟨_, moved, _⟩ := s.moveExpression_one depth outer c
      grind [moveCode]

-- The induction is that of the rendering. A line that ends in plain code has been read to its end,
-- so that the semicolon is read alone.
theorem render_semicolon (s : Cursor) (tally : Tally) (line : Text) (ends : (s.render tally line).cursor = {}) :
    s.render tally (line ++ [';']) = ⟨(s.render tally line).code ++ [';'], {}, (s.render tally line).tally.count ';'⟩ := by
  have mark : ∀ tally, Cursor.render {} tally [';'] = ⟨[';'], {}, tally.count ';'⟩ := fun _ => rfl
  fun_induction Cursor.render s tally line with
  | case1 s tally =>
    subst ends
    exact mark tally
  | case2 s tally c shown counted next moved =>
    have code : next = {} := ends
    rw [singleton_append, Cursor.render, move_semicolon, moved, code]
    simp only [mark]
    rfl
  | case3 s tally c next moved => exact absurd ends (move_pair_last moved)
  | case4 s tally c moved => cases ends
  | case5 s tally c d rest shown counted next moved ih =>
    rw [cons_append, cons_append, Cursor.render, moved]
    exact congrArg (Rendering.lead shown) (ih ends)
  | case6 s tally c d rest next moved ih =>
    rw [cons_append, cons_append, Cursor.render, moved]
    exact congrArg (fun r => (Rendering.lead ' ' r).lead ' ') (ih ends)
  | case7 s tally c d rest moved => cases ends

end Cursor

namespace LineSummary

def terminated (line : LineSummary) : LineSummary :=
  {line with text := line.text ++ [';'], code := line.code ++ [';'], hasTerminator := true}

@[simp] theorem terminated_isBlankCode (line : LineSummary) : line.terminated.isBlankCode = false := by
  simp [isBlankCode, terminated, isBlankText, isBlank]

@[simp] theorem terminated_complete (line : LineSummary) (rest : List LineSummary) : statementComplete line.terminated rest = true := by
  have trimmed : trimRight (line.code ++ [';']) = line.code ++ [';'] := trimRight_visible (c := ';') rfl _
  have ends : endsWith (line.code ++ [';']) ";" = true := isSuffixOf_iff_suffix.mpr (suffix_append _ _)
  simp [statementComplete, terminated, trimmed, ends]

end LineSummary

theorem Cursor.feed_semicolon {s : Cursor} {line : Text} (ends : (s.atLineStart.render {} line).cursor = {}) :
    s.feed (line ++ [';']) = ((s.feed line).1.terminated, (s.feed line).2) := by
  have count : ∀ tally : Tally, tally.count ';' = {tally with terminated := true} := fun _ => rfl
  simp only [feed, render_semicolon _ _ _ ends, ends, count]
  rfl

theorem Cursor.render_of_feed {s : Cursor} {line : Text} {c : Char} (behind : (s.feed line).2.inStructuralCode = true)
    (shown : (s.feed line).1.code.getLast? = some c) (kept : c ≠ ' ') : (s.atLineStart.render {} line).cursor = {} := by
  have level : (s.atLineStart.render {} line).cursor.atLineEnd = {} := inStructuralCode_iff.mp behind
  have outside : s.atLineStart.state ≠ .lineComment := by
    unfold atLineStart
    split <;> simp_all [enter]
  have noComment : (s.atLineStart.render {} line).cursor.state ≠ .lineComment := by
    intro comment
    have last := s.atLineStart.render_lineComment {} line outside comment
    exact kept (Option.some.inj (shown.symm.trans last))
  unfold atLineEnd at level
  split at level
  · exact absurd ‹_› noComment
  · exact level

structure OpenBlock.InStep (a b : OpenBlock) : Prop where
  start : b.start = a.start
  depth : b.depth = a.depth
  opened : b.opened = a.opened
  terminated : b.terminated = a.terminated
  lastCode : b.lastCode = a.lastCode
  braces : b.declaration.countsBraces = a.declaration.countsBraces
  body : b.declaration.awaitsBody = a.declaration.awaitsBody

def Extent.outline (e : Extent) : Nat × Nat × Closing := (e.start, e.stop, e.closing)

theorem Declaration.describe_countsBraces (p : Patterns) (code next : Text) :
    (describe p code next).countsBraces = (isImportStart code || isExportList code) := by
  have plain : ∀ {d : Declaration}, d.exportList = false → d.kind ≠ .import_ → d.countsBraces = false := by
    intro d list kind
    simp [countsBraces, list, kind]
  unfold describe
  split
  · simp_all [countsBraces]
  split
  · simp_all [countsBraces]
  have other : (isImportStart code || isExportList code) = false := by simp_all
  rw [other]
  split
  · exact plain rfl BlockKind.noConfusion
  split
  · obtain ⟨declares, list⟩ := describeBinding_isDeclaration code next p ‹_›
    apply plain list
    intro kind
    rw [kind] at declares
    cases declares
  split
  · exact plain rfl BlockKind.noConfusion
  split
  · exact plain rfl BlockKind.noConfusion
  split
  · unfold describeDefault
    split
    · exact plain rfl BlockKind.noConfusion
    · split <;> exact plain rfl BlockKind.noConfusion
  · exact plain rfl BlockKind.noConfusion

section Extents

variable {p : Patterns} {index : Nat} {line : LineSummary} {before after : List LineSummary}
  {e : Extent} {b a : OpenBlock} {current : Option OpenBlock}

theorem nextCode_terminated (before : List LineSummary) (line : LineSummary)
    (code : line.isBlankCode = false) (after : List LineSummary) :
    WithEnding (nextCode (before ++ line :: after)) (nextCode (before ++ line.terminated :: after)) := by
  cases found : before.find? (!·.isBlankCode) with
  | some first =>
    rw [nextCode_append_code found, nextCode_append_code found]
    exact .refl _
  | none =>
    rw [nextCode_append_blank found, nextCode_append_blank found]
    have here : ∀ {l : LineSummary}, l.isBlankCode = false → nextCode (l :: after) = trim l.code := by
      intro l code
      simp [nextCode, code]
    rw [here code, here line.terminated_isBlankCode]
    exact WithEnding.trim ⟨[';'], rfl, by simp [IsEnding]⟩

theorem statementComplete_terminated (first : LineSummary) (code : line.isBlankCode = false) :
    statementComplete first (before ++ line.terminated :: after) = statementComplete first (before ++ line :: after) := by
  have ahead := nextCode_terminated before line code after
  simp only [statementComplete, Declaration.startsOpen_ended ahead]

theorem read_inStep (step : a.InStep b) (first : LineSummary) (code : line.isBlankCode = false) :
    (∃ x y, a.read index first (before ++ line :: after) = .inl x ∧
      b.read index first (before ++ line.terminated :: after) = .inl y ∧ x.InStep y) ∨
    (∃ x y, a.read index first (before ++ line :: after) = .inr x ∧
      b.read index first (before ++ line.terminated :: after) = .inr y ∧ y.outline = x.outline ∧ x.stop = index + 1) := by
  have lowest : b.lowest first = a.lowest first := by
    rw [OpenBlock.lowest_eq, OpenBlock.lowest_eq, step.depth, step.braces]
  have deeper : (a.deepen first).InStep (b.deepen first) := by
    refine ⟨step.start, ?_, ?_, ?_, step.lastCode, step.braces, step.body⟩
    · rw [OpenBlock.deepen_depth, OpenBlock.deepen_depth, step.depth, step.braces]
    · simp [OpenBlock.deepen, step.opened]
    · simp [OpenBlock.deepen, step.terminated]
  have settled : ({b.deepen first with lastCode := index + 1}).settled first =
      ({a.deepen first with lastCode := index + 1}).settled first := by
    simp [OpenBlock.settled, deeper.depth, deeper.opened, deeper.terminated, deeper.body]
  unfold OpenBlock.read
  simp only [lowest, settled, statementComplete_terminated first code]
  split
  · exact .inr ⟨_, _, rfl, rfl, by simp [Extent.outline, OpenBlock.close, deeper.start], rfl⟩
  split
  · exact .inl ⟨_, _, rfl, rfl, deeper⟩
  split
  · exact .inr ⟨_, _, rfl, rfl, by simp [Extent.outline, OpenBlock.close, deeper.start], rfl⟩
  · exact .inl ⟨_, _, rfl, rfl, {deeper with lastCode := rfl}⟩

theorem read_terminated (start : b.start = a.start) (depth : b.depth = a.depth)
    (braces : b.declaration.countsBraces = a.declaration.countsBraces)
    (read : a.read index line after = .inr e) (complete : e.closing = .complete) :
    ∃ x, b.read index line.terminated after = .inr x ∧ x.outline = e.outline := by
  have step := a.reading index line after
  rw [read] at step
  cases step with
  | unbalanced below => cases complete
  | complete level code settled finished =>
    have lowest : b.lowest line.terminated = a.lowest line := by
      rw [OpenBlock.lowest_eq, OpenBlock.lowest_eq, depth, braces]
      rfl
    have deeper : (b.deepen line.terminated).depth = (a.deepen line).depth := by
      rw [OpenBlock.deepen_depth, OpenBlock.deepen_depth, depth, braces]
      rfl
    have ended : (b.deepen line.terminated).terminated = true := by
      simp [OpenBlock.deepen, LineSummary.terminated]
    have literal : line.terminated.endsInLiteral = line.endsInLiteral := rfl
    have low : ¬b.lowest line.terminated < 0 := by omega
    have done : ({b.deepen line.terminated with lastCode := index + 1}).settled line.terminated = true := by
      simp_all [OpenBlock.settled]
    refine ⟨({b.deepen line.terminated with lastCode := index + 1}).close (index + 1) .complete, ?_, ?_⟩
    · unfold OpenBlock.read
      simp [low, done]
    · simp [Extent.outline, OpenBlock.close, OpenBlock.deepen, start]

theorem read_stop (read : b.read index line after = .inr e) : e.stop = index + 1 := by
  have step := b.reading index line after
  rw [read] at step
  cases step <;> rfl

theorem complete_stop {rest : List LineSummary}
    (member : e ∈ extents p current index rest) (complete : e.closing = .complete) : index < e.stop := by
  induction rest generalizing current index with
  | nil =>
    cases current with
    | none => cases member
    | some b =>
      rw [mem_singleton.mp member] at complete
      cases complete
  | cons line rest ih =>
    have step : ∀ b : OpenBlock, e ∈ extents p (some b) index (line :: rest) → index < e.stop := by
      intro b member
      cases read : b.read index line rest with
      | inl next =>
        rw [extents_goesOn read] at member
        have later := ih member
        omega
      | inr first =>
        rw [extents_closes read] at member
        rcases mem_cons.mp member with rfl | behind
        · have stop := read_stop read
          omega
        · have later := ih behind
          omega
    cases current with
    | some b => exact step b member
    | none =>
      cases code : line.isBlankCode with
      | true =>
        rw [extents_blank code] at member
        have later := ih member
        omega
      | false =>
        rw [extents_code code] at member
        exact step _ member

-- The induction is on the lines in front of the semicolon. Up to it the two scans are in step, and
-- behind it they are one.
theorem extents_terminated (code : line.isBlankCode = false) {other : Option OpenBlock}
    (step : Option.Rel OpenBlock.InStep current other)
    (member : e ∈ extents p current index (before ++ line :: after)) (complete : e.closing = .complete)
    (stop : e.stop = index + before.length + 1) : (extents p other index (before ++ line.terminated :: after)).map (·.outline) =
      (extents p current index (before ++ line :: after)).map (·.outline) := by
  induction before generalizing current other index with
  | nil =>
    have closing : ∀ a b : OpenBlock, b.start = a.start → b.depth = a.depth →
        b.declaration.countsBraces = a.declaration.countsBraces →
        e ∈ extents p (some a) index (line :: after) →
        (extents p (some b) index (line.terminated :: after)).map (·.outline) =
          (extents p (some a) index (line :: after)).map (·.outline) := by
      intro a b start depth braces member
      cases read : a.read index line after with
      | inl next =>
        rw [extents_goesOn read] at member
        have later := complete_stop member complete
        simp only [length_nil] at stop
        omega
      | inr first =>
        rw [extents_closes read] at member ⊢
        rcases mem_cons.mp member with rfl | behind
        · obtain ⟨x, closes, same⟩ := read_terminated start depth braces read complete
          simp [extents_closes closes, same]
        · have later := complete_stop behind complete
          simp only [length_nil] at stop
          omega
    simp only [nil_append] at member ⊢
    cases step with
    | some level => exact closing _ _ level.start level.depth level.braces member
    | none =>
      rw [extents_code code] at member ⊢
      rw [extents_code line.terminated_isBlankCode]
      refine closing _ _ rfl rfl ?_ member
      have ended : WithEnding (trim line.code) (trim line.terminated.code) := WithEnding.trim ⟨[';'], rfl, by simp [IsEnding]⟩
      simp only [openBlock, Declaration.describe_countsBraces,
        Declaration.isImportStart_ended ended, Declaration.isExportList_ended ended]
  | cons first before ih =>
    have place : e.stop = index + 1 + before.length + 1 := by
      rw [length_cons] at stop
      omega
    have going : ∀ a b : OpenBlock, a.InStep b → e ∈ extents p (some a) index (first :: (before ++ line :: after)) →
        (extents p (some b) index (first :: (before ++ line.terminated :: after))).map (·.outline) =
          (extents p (some a) index (first :: (before ++ line :: after))).map (·.outline) := by
      intro a b level member
      rcases read_inStep level first code with ⟨x, y, left, right, next⟩ | ⟨x, y, left, right, same, near⟩
      · rw [extents_goesOn left] at member ⊢
        rw [extents_goesOn right]
        exact ih (.some next) member place
      · rw [extents_closes left] at member ⊢
        rw [extents_closes right, map_cons, map_cons, same]
        rcases mem_cons.mp member with rfl | behind
        · omega
        · congr 1
          exact ih .none behind place
    simp only [cons_append] at member ⊢
    cases step with
    | some level => exact going _ _ level member
    | none =>
      cases shown : first.isBlankCode with
      | true =>
        rw [extents_blank shown] at member ⊢
        rw [extents_blank shown]
        exact ih .none member place
      | false =>
        rw [extents_code shown] at member ⊢
        rw [extents_code shown]
        refine going _ _ ?_ member
        have ahead := nextCode_terminated before line code after
        refine ⟨rfl, rfl, rfl, rfl, rfl, ?_, Declaration.awaitsBody_ended p _ ahead⟩
        simp only [openBlock, Declaration.describe_countsBraces]

end Extents

-- A line ends in plain code where the lexer is in plain code behind it and its last character is one
-- that is not blanked.
structure EndsInCode (lines : List Text) (i : Nat) : Prop where
  behind : (Cursor.after {} (lines.take (i + 1))).inStructuralCode = true
  shown : ∃ line c, (summarize .literalAware lines)[i]? = some line ∧
    line.code.getLast? = some c ∧ c ≠ ' '

theorem summarize_terminated {lines : List Text} {i : Nat} (ends : EndsInCode lines i) :
    ∃ before line after, before.length = i ∧ summarize .literalAware lines = before ++ line :: after ∧
      summarize .literalAware (lines.modify i (· ++ [';'])) = before ++ line.terminated :: after := by
  obtain ⟨behind, line, c, found, shown, kept⟩ := ends
  have bound : i < lines.length := by
    have inside := (List.getElem?_eq_some_iff.mp found).1
    rwa [summarize_length] at inside
  obtain ⟨front, text, back, rfl, rfl⟩ : ∃ front text back, lines = front ++ text :: back ∧ front.length = i :=
    ⟨lines.take i, lines[i], lines.drop (i + 1), by simp, by simp; omega⟩
  have parts : ∀ text, summarize .literalAware (front ++ text :: back) =
      summarize .literalAware front ++ ((Cursor.after {} front).feed text).1 ::
        ((Lexer.literal ((Cursor.after {} front).feed text).2).trace back).map (·.1) := by
    intro text
    rw [summarize_append, Lexer.start, Cursor.lexer_after_literal]
    rfl
  have count : (summarize .literalAware front).length = front.length := summarize_length _ _
  have here : line = ((Cursor.after {} front).feed text).1 := by
    simpa [parts, count] using found.symm
  have plain : (((Cursor.after {} front).feed text).2).inStructuralCode = true := by
    have taken : (front ++ text :: back).take (front.length + 1) = front ++ [text] := by
      simp [take_append, take_of_length_le]
    rw [taken, Cursor.after_append] at behind
    exact behind
  have render := Cursor.render_of_feed plain (here ▸ shown) kept
  have changed : (front ++ text :: back).modify front.length (· ++ [';']) = front ++ (text ++ [';']) :: back := by
    simp [modify_eq_take_cons_drop]
  refine ⟨_, _, _, count, parts text, ?_⟩
  rw [changed, parts, Cursor.feed_semicolon render]

theorem scan_ranges (p : Patterns) (mode : DelimiterMode) (lines : List Text) :
    (scan p mode lines).blocks.map (fun b => (b.start, b.stop)) =
      ((extents p none 0 (summarize mode lines)).map (·.outline)).map fun o => (o.1, o.2.1) := by
  simp [scan, Extent.outline, Extent.toBlock]

theorem scan_clean_iff {p : Patterns} {mode : DelimiterMode} {lines : List Text} : (scan p mode lines).warnings = [] ↔
      ∀ o ∈ (extents p none 0 (summarize mode lines)).map (·.outline), o.2.2 = .complete := by
  have complete : ∀ e : Extent, e.warning? = none ↔ e.closing = .complete := by
    intro e
    refine ⟨complete_of_warning, ?_⟩
    intro closing
    simp [Extent.warning?, closing]
  simp [scan, Extent.outline, filterMap_eq_nil_iff, complete]

-- A semicolon behind the last line of a block changes no block's range and brings no warning. It may
-- be the second one there.
theorem scan_terminated (p : Patterns) (lines : List Text) {b : Block} (clean : (scan p .literalAware lines).warnings = [])
    (member : b ∈ (scan p .literalAware lines).blocks) (ends : EndsInCode lines (b.stop - 1)) :
    (scan p .literalAware (lines.modify (b.stop - 1) (· ++ [';']))).blocks.map (fun b => (b.start, b.stop)) =
      (scan p .literalAware lines).blocks.map (fun b => (b.start, b.stop)) ∧
    (scan p .literalAware (lines.modify (b.stop - 1) (· ++ [';']))).warnings = [] := by
  obtain ⟨e, found, rfl⟩ := mem_scan_blocks.mp member
  have extent := (scan_tiles p .literalAware lines).extent e found
  have complete : e.closing = .complete := scan_clean_iff.mp clean _ (mem_map_of_mem found)
  obtain ⟨before, line, after, place, whole, changed⟩ := summarize_terminated (i := e.stop - 1) ends
  have code : line.isBlankCode = false := by
    obtain ⟨ending, _, _⟩ := extents_end p .literalAware lines e found
    rw [complete] at ending
    cases ending with
    | complete _ _ closes =>
      obtain ⟨last, there, code, _⟩ := closes.line
      have same : line = last := by simpa [whole, ← place] using there
      rwa [same]
  have same : (extents p none 0 (before ++ line.terminated :: after)).map (·.outline) =
      (extents p none 0 (before ++ line :: after)).map (·.outline) := by
    rw [whole] at found
    apply extents_terminated code .none found complete
    omega
  rw [← changed, ← whole] at same
  constructor
  · rw [scan_ranges, scan_ranges]
    exact congrArg _ same
  · rw [scan_clean_iff] at clean ⊢
    rw [← same] at clean
    exact clean

-- A body that starts below its class, and a sum over two lines; the second ends with the semicolon.
def openLines : List Text :=
  ["const f =".toList, "  class A".toList, "{ }".toList, "const b = a".toList, "  + 2".toList]

theorem scan_terminated_sum : (scan ⟨[], none, none, []⟩ .literalAware openLines).warnings = [] ∧
    (scan ⟨[], none, none, []⟩ .literalAware (openLines.modify 4 (· ++ [';']))).blocks.map
      (fun b => (b.start, b.stop)) = [(0, 3), (3, 5)] ∧
    (scan ⟨[], none, none, []⟩ .literalAware (openLines.modify 4 (· ++ [';']))).warnings = [] := by
  have clean : (scan ⟨[], none, none, []⟩ .literalAware openLines).warnings = [] := by decide +kernel
  have ends : EndsInCode openLines 4 := ⟨by decide +kernel, _, '2', rfl, by decide +kernel, by decide⟩
  have kept := scan_terminated ⟨[], none, none, []⟩ openLines clean
    (b := ⟨3, 5, .constant, "const b = a\n  + 2".toList, ["b".toList], false⟩) (by decide +kernel) ends
  exact ⟨clean, kept.1.trans (by decide +kernel), kept.2⟩

end ModuleSplit
