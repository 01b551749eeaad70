import ModuleSplit.Proofs.Delimiter.Trace

-- Where a line break falls: in plain code, in a comment, or inside a literal.

namespace ModuleSplit

namespace Cursor

variable {s : Cursor} {line : Text}

structure OutsideLiterals (s : Cursor) : Prop where
  noExpression : s.expressions = []
  state : s.state = .code ∨ s.state = .blockComment

theorem outsideLiterals_start : OutsideLiterals {} := ⟨rfl, .inl rfl⟩

theorem OutsideLiterals.eq_start (outside : s.OutsideLiterals) (noComment : s.state ≠ .blockComment) : s = {} := by
  obtain ⟨noExpression, state⟩ := outside
  cases s with
  | mk state expressions =>
    cases noExpression
    rcases state with rfl | comment
    · rfl
    · exact absurd comment noComment

def Move.KeepsOutside : Move → Prop
  | .one shown _ next => Text.isBlank shown = true → next.OutsideLiterals
  | .pair next => next.OutsideLiterals
  | .restOfLine => True

theorem moveCode_outside (noExpression : s.expressions = []) (state : s.state = .code)
    (c : Char) (next : Option Char) : Move.KeepsOutside (s.moveCode c next) := by
  have outside : s.OutsideLiterals := ⟨noExpression, .inl state⟩
  -- A quote is shown, so that moving to it is no blank.
  have opening : ∀ quote counted next, Text.isBlank quote = false → Move.KeepsOutside (.one (s.shown quote) counted next) := by
    intro quote counted next visible blank
    have shows : s.shown quote = quote := by simp [shown, noExpression]
    rw [shows, visible] at blank
    cases blank
  unfold moveCode
  split
  · trivial
  · split
    · exact ⟨noExpression, .inr rfl⟩
    · split
      · subst c
        exact opening _ _ _ (by decide)
      · split
        · subst c
          exact opening _ _ _ (by decide)
        · split
          · subst c
            exact opening _ _ _ (by decide)
          · rw [noExpression]
            intro _
            exact outside

theorem OutsideLiterals.move (outside : s.OutsideLiterals) (c : Char)
    (next : Option Char) : Move.KeepsOutside (s.move c next) := by
  obtain ⟨noExpression, state⟩ := outside
  unfold Cursor.move
  rcases state with code | comment
  · rw [code]
    exact moveCode_outside noExpression code c next
  · rw [comment]
    dsimp only
    unfold moveBlockComment
    split
    · exact ⟨noExpression, .inl rfl⟩
    · intro _
      exact ⟨noExpression, .inr comment⟩

theorem OutsideLiterals.render {tally : Tally} (outside : s.OutsideLiterals)
    (blank : Text.isBlankText (s.render tally line).code = true) : (s.render tally line).cursor.atLineStart.OutsideLiterals := by
  have rested : ∀ t : Cursor, t.OutsideLiterals → t.atLineStart.OutsideLiterals := by
    rintro t ⟨noExpression, code | comment⟩
    · simpa [atLineStart, code] using (⟨noExpression, .inl code⟩ : t.OutsideLiterals)
    · simpa [atLineStart, comment] using (⟨noExpression, .inr comment⟩ : t.OutsideLiterals)
  fun_induction Cursor.render s tally line with
  | case1 s tally => exact rested s outside
  | case2 s tally c shown counted next moved =>
    have keeps := outside.move c none
    rw [moved] at keeps
    exact rested next (keeps (by simpa [Text.isBlankText] using blank))
  | case3 s tally c next moved =>
    have keeps := outside.move c none
    rw [moved] at keeps
    exact rested next keeps
  | case4 s tally c moved => exact ⟨outside.noExpression, .inl rfl⟩
  | case5 s tally c d rest shown counted next moved ih =>
    have keeps := outside.move c (some d)
    rw [moved] at keeps
    have both : Text.isBlank shown = true ∧ Text.isBlankText
        (next.render (if counted = true then tally.count c else tally) (d :: rest)).code = true := by
      simpa [Text.isBlankText, Rendering.lead] using blank
    exact ih (keeps both.1) both.2
  | case6 s tally c d rest next moved ih =>
    have keeps := outside.move c (some d)
    rw [moved] at keeps
    have both : Text.isBlank ' ' = true ∧ Text.isBlankText (next.render tally rest).code = true := by
      simpa [Text.isBlankText, Rendering.lead] using blank
    exact ih keeps both.2
  | case7 s tally c d rest moved => exact ⟨outside.noExpression, .inl rfl⟩

@[simp] theorem atLineStart_atLineEnd (s : Cursor) : s.atLineEnd.atLineStart = s.atLineStart := by
  unfold atLineEnd
  split
  · rename_i comment
    simp [atLineStart, comment, enter]
  · rfl

theorem feed_blank (outside : s.atLineStart.OutsideLiterals)
    (blank : (s.feed line).1.isBlankCode = true) : (s.feed line).2.atLineStart.OutsideLiterals := by
  show ((s.atLineStart.render {} line).cursor.atLineEnd).atLineStart.OutsideLiterals
  rw [atLineStart_atLineEnd]
  exact outside.render blank

theorem feed_ends_outside (ends : (s.feed line).1.endsInLiteral = false) : (s.feed line).2.atLineStart.OutsideLiterals := by
  have both : (s.feed line).2.state ≠ .template ∧ (s.feed line).2.expressions = [] := by
    have split : ((s.feed line).2.state == .template || !(s.feed line).2.expressions.isEmpty) = false := ends
    simpa using split
  obtain ⟨noTemplate, noExpression⟩ := both
  generalize (s.feed line).2 = t at noTemplate noExpression
  unfold atLineStart
  split
  · exact ⟨noExpression, .inl rfl⟩
  · exact ⟨noExpression, .inl rfl⟩
  · exact ⟨noExpression, .inl rfl⟩
  · refine ⟨noExpression, ?_⟩
    cases state : t.state <;> simp_all

end Cursor

def contextAt (lines : List Text) (n : Nat) : Cursor :=
  (Cursor.after {} (lines.take n)).atLineStart

theorem contextAt_add (lines : List Text) (start count : Nat) : contextAt lines (start + count) =
      ((contextAt lines start).after ((lines.drop start).take count)).atLineStart := by
  unfold contextAt
  rw [List.take_add, Cursor.after_append, Cursor.after_atLineStart]

theorem codes_drop (lines : List Text) (start : Nat) :
    (Cursor.codes {} lines).drop start = (contextAt lines start).codes (lines.drop start) := by
  rw [← Cursor.trace_literal, ← List.map_drop, Lexer.trace_drop, Cursor.lexer_after_literal,
    Cursor.trace_literal, contextAt, Cursor.codes_atLineStart]

@[simp] theorem codes_take (s : Cursor) (lines : List Text) (count : Nat) : (s.codes lines).take count = s.codes (lines.take count) := by
  rw [← Cursor.trace_literal, ← List.map_take, Lexer.trace_take, Cursor.trace_literal]

end ModuleSplit
