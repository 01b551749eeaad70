import Mathlib.Data.List.Induction
import ModuleSplit.Proofs.Block.Rendering
import ModuleSplit.Proofs.Delimiter.Depth
import ModuleSplit.Proofs.Delimiter.LineBreaks
import ModuleSplit.Proofs.Delimiter.Literals

-- The rendering of a line is a projection of it: place for place it has the line's character or a
-- blank, it has all that the line counts, and rendering it again changes nothing.

namespace ModuleSplit

open List

def Text.braces (t : Text) : Int := t.count '{' - t.count '}'

def Text.brackets (t : Text) : Int := (t.count '(' + t.count '[') - (t.count ')' + t.count ']')

-- A text has been counted. The lowest depth is that of one of its beginnings, and none is lower.
structure Tally.Counts (tally : Tally) (t : Text) : Prop where
  braces : tally.braces = Text.braces t
  brackets : tally.brackets = Text.brackets t
  opened : tally.opened = true ↔ '{' ∈ t
  terminated : tally.terminated = true ↔ ';' ∈ t
  below : ∀ front, front <+: t → tally.low ≤ Text.braces front + Text.brackets front
  reached : ∃ front, front <+: t ∧ tally.low = Text.braces front + Text.brackets front

namespace Tally

theorem counts_nil : Counts {} [] := by
  refine ⟨rfl, rfl, by simp, by simp, ?_, [], prefix_rfl, rfl⟩
  intro front empty
  rw [prefix_nil.mp empty]
  exact Int.le_refl 0

theorem count_parts (tally : Tally) (t : Text) (c : Char) :
    (tally.count c).braces - tally.braces = Text.braces (t ++ [c]) - Text.braces t ∧
    (tally.count c).brackets - tally.brackets = Text.brackets (t ++ [c]) - Text.brackets t ∧
    ((tally.count c).opened = true ↔ tally.opened = true ∨ c = '{') ∧
    ((tally.count c).terminated = true ↔ tally.terminated = true ∨ c = ';') := by
  unfold count Text.braces Text.brackets lowered
  grind

theorem count_low (tally : Tally) (c : Char) : (tally.count c).low ≤ tally.low ∧
    ((tally.count c).low = tally.low ∨ (tally.count c).low = (tally.count c).depth) := by
  have lowered : ∀ t : Tally, t.lowered.low ≤ t.low ∧ (t.lowered.low = t.low ∨ t.lowered.low = t.lowered.depth) := by
    intro t
    have low : t.lowered.low = min t.low t.lowered.depth := rfl
    omega
  unfold count
  split
  · exact lowered {tally with braces := tally.braces + 1, opened := true}
  · split
    · exact lowered {tally with braces := tally.braces - 1}
    · split
      · exact lowered {tally with brackets := tally.brackets + 1}
      · split
        · exact lowered {tally with brackets := tally.brackets - 1}
        · split <;> exact ⟨Int.le_refl _, .inl rfl⟩

theorem Counts.concat {tally : Tally} {t : Text} (counts : Counts tally t) (level : tally.Level)
    (c : Char) : Counts (tally.count c) (t ++ [c]) := by
  obtain ⟨braces, brackets, opened, terminated⟩ := count_parts tally t c
  obtain ⟨lower, low⟩ := tally.count_low c
  rw [counts.braces, Int.sub_left_inj] at braces
  rw [counts.brackets, Int.sub_left_inj] at brackets
  have depth : (tally.count c).depth = Text.braces (t ++ [c]) + Text.brackets (t ++ [c]) := by
    rw [Tally.depth, braces, brackets]
  refine ⟨braces, brackets, ?_, ?_, ?_, ?_⟩
  · simp [opened, counts.opened, eq_comm]
  · simp [terminated, counts.terminated, eq_comm]
  · intro front inside
    rcases prefix_concat_iff.mp inside with rfl | shorter
    · exact depth ▸ (level.count c).2
    · exact Int.le_trans lower (counts.below front shorter)
  · rcases low with same | new
    · obtain ⟨front, shorter, reached⟩ := counts.reached
      exact ⟨front, shorter.trans (prefix_append _ _), same.trans reached⟩
    · exact ⟨_, prefix_rfl, new.trans depth⟩

theorem ofText_counts (t : Text) : Counts (ofText t) t := by
  induction t using List.reverseRecOn with
  | nil => exact counts_nil
  | append_singleton t c ih =>
    rw [ofText, foldl_append]
    exact ih.concat (ofText_level t) c

end Tally

namespace Cursor

variable {s : Cursor}

@[grind] def Nested (s : Cursor) : Prop := ∀ depth ∈ s.expressions, 0 ≤ depth

-- A counted character is shown; of the others only blanks and quotes are, which count for nothing.
@[grind] def Move.Faithful (c : Char) : Move → Prop
  | .one shown counted next =>
    (if counted then shown = c else shown ∈ [' ', '\'', '"', '`']) ∧ next.Nested
  | .pair next => next.Nested
  | .restOfLine => True

theorem move_faithful (nested : s.Nested) (c : Char) (next : Option Char) : Move.Faithful c (s.move c next) := by
  unfold move
  split
  · trivial
  · grind [moveBlockComment]
  · grind [moveQuoted]
  · grind [moveQuoted]
  · grind [moveTemplate]
  · cases inside : s.expressions with
    | nil => grind [moveCode]
    | cons depth outer =>
      have level : 0 ≤ depth := nested depth (by simp [inside])
      grind [moveCode, moveExpression]

theorem render_faithful (nested : s.Nested) (tally : Tally) (line : Text) : (s.render tally line).cursor.Nested ∧
      (s.render tally line).tally = (s.render tally line).code.foldl Tally.count tally := by
  have blanks : ∀ (n : Nat) (tally : Tally), (List.replicate n ' ').foldl Tally.count tally = tally := by
    intro n
    induction n with
    | zero => exact fun _ => rfl
    | succ n ih => exact ih
  have one : ∀ {s next : Cursor} {c shown : Char} {after : Option Char} {counted : Bool},
      s.Nested → s.move c after = .one shown counted next →
      next.Nested ∧ ∀ tally : Tally, tally.count shown = if counted then tally.count c else tally := by
    intro s next c shown after counted nested moved
    have faithful := move_faithful nested c after
    rw [moved] at faithful
    refine ⟨faithful.2, fun tally => ?_⟩
    cases counted with
    | true => exact congrArg _ faithful.1
    | false =>
      have quiet : shown ∈ [' ', '\'', '"', '`'] := faithful.1
      simp only [mem_cons, not_mem_nil, or_false] at quiet
      rcases quiet with rfl | rfl | rfl | rfl <;> rfl
  have pair : ∀ {s next : Cursor} {c : Char} {after : Option Char}, s.Nested → s.move c after = .pair next → next.Nested := by
    intro s next c after nested moved
    have faithful := move_faithful nested c after
    rwa [moved] at faithful
  fun_induction render s tally line with
  | case1 => exact ⟨nested, rfl⟩
  | case2 s tally c shown counted next moved =>
    exact ⟨(one nested moved).1, ((one nested moved).2 tally).symm⟩
  | case3 s tally c next moved => exact ⟨pair nested moved, rfl⟩
  | case4 => exact ⟨nested, rfl⟩
  | case5 s tally c d rest shown counted next moved ih =>
    obtain ⟨after, counts⟩ := one nested moved
    rw [← counts] at ih ⊢
    exact ih after
  | case6 s tally c d rest next moved ih => exact ih (pair nested moved)
  | case7 => exact ⟨nested, (blanks _ _).symm⟩

theorem Nested.atLineStart (nested : s.Nested) : s.atLineStart.Nested := by
  unfold Cursor.atLineStart
  split <;> exact nested

theorem feed_nested (nested : s.Nested) (line : Text) : (s.feed line).2.Nested := by
  have last := (render_faithful nested.atLineStart {} line).1
  show Nested (atLineEnd _)
  unfold atLineEnd
  split <;> exact last

theorem after_nested (lines : List Text) : (after {} lines).Nested := by
  induction lines using List.reverseRecOn with
  | nil => exact forall_mem_nil _
  | append_singleton lines line ih =>
    rw [after_append]
    exact feed_nested ih line

end Cursor

theorem RawCursor.feed_again (s : RawCursor) (line : Text) :
    (feed {} (s.feed line).1.code).1.code = (s.feed line).1.code ∧ (feed {} (s.feed line).1.code).2 = {} := by
  have code : (s.feed line).1.code = if s.inBlockComment || looksLikeComment (Text.trim line) then [] else line := rfl
  rw [code]
  split
  · exact ⟨rfl, rfl⟩
  · rename_i visible
    rw [Bool.not_eq_true, Bool.or_eq_false_iff] at visible
    have unopened : Text.startsWith (Text.trim line) "/*" = false := by
      have parts := visible.2
      rw [looksLikeComment, Bool.or_eq_false_iff, Bool.or_eq_false_iff] at parts
      exact parts.1.2
    have opens : opensComment (Text.trim line) = false := by
      unfold opensComment
      cases lead : Text.dropLead? "/*" (Text.trim line) with
      | none => rfl
      | some inner =>
        have whole := isPrefixOf?_eq_some_iff_append_eq.mp lead
        rw [Text.startsWith, isPrefixOf_iff_prefix.mpr ⟨inner, whole⟩] at unopened
        cases unopened
    refine ⟨if_neg ?_, congrArg RawCursor.mk opens⟩
    simpa using visible.2

theorem Lexer.feed_plain (lexer : Lexer) {line : Text} (plain : '\n' ∉ line) : '\n' ∉ (lexer.feed line).1.code := by
  cases lexer with
  | literal s =>
    intro inside
    rcases s.atLineStart.render_shown {} line '\n' inside with blank | inside
    · cases blank
    · exact plain inside
  | raw s =>
    show '\n' ∉ if _ then [] else line
    split
    · exact not_mem_nil
    · exact plain

theorem lines_codeText (mode : DelimiterMode) (t : Text) :
    Text.lines (codeText mode t) = (summarize mode (Text.lines t)).map (·.code) := by
  have plain : ∀ (ls : List Text) (lexer : Lexer), (∀ l ∈ ls, '\n' ∉ l) → ∀ step ∈ lexer.trace ls, '\n' ∉ step.1.code := by
    intro ls
    induction ls with
    | nil => simp [Lexer.trace]
    | cons line rest ih =>
      intro lexer plain
      rw [forall_mem_cons] at plain
      rw [Lexer.trace, forall_mem_cons]
      exact ⟨lexer.feed_plain plain.1, ih _ plain.2⟩
  rw [codeText, Text.lines_unlines]
  · intro empty
    have length := congrArg List.length empty
    rw [length_map, summarize_length] at length
    obtain ⟨others, cut⟩ := Text.splitOn_cut '\n' t
    rw [Text.lines, cut] at length
    cases length
  · intro l shown
    obtain ⟨s, listed, rfl⟩ := mem_map.mp shown
    obtain ⟨step, read, rfl⟩ := mem_map.mp listed
    exact plain _ _ (Text.newline_not_mem_lines t) step read

theorem summarize_again (mode : DelimiterMode) (lines : List Text) :
    (summarize mode ((summarize mode lines).map (·.code))).map (·.code) = (summarize mode lines).map (·.code) := by
  cases mode with
  | literalAware =>
    have again := congrArg (List.map (·.code)) (summarize_rendered lines)
    rwa [map_map, map_map] at again
  | raw =>
    have run : ∀ s : RawCursor, ((Lexer.raw {}).trace (((Lexer.raw s).trace lines).map (·.1.code))).map
        (·.1.code) = ((Lexer.raw s).trace lines).map (·.1.code) := by
      induction lines with
      | nil => exact fun _ => rfl
      | cons line rest ih =>
        intro s
        obtain ⟨same, next⟩ := s.feed_again line
        simp only [Lexer.trace, map_cons, Lexer.feed]
        rw [same, next, ih]
    simpa [summarize, Lexer.start, Function.comp_def] using run {}

@[simp] theorem codeText_again (mode : DelimiterMode) (t : Text) : codeText mode (codeText mode t) = codeText mode t := by
  rw [codeText, lines_codeText, summarize_again]
  rfl

theorem braceBalance_codeText (t : Text) :
    braceBalance .literalAware (codeText .literalAware t) = braceBalance .literalAware t := by
  have again := congrArg (List.map (·.braceDelta)) (summarize_rendered (Text.lines t))
  rw [map_map, map_map] at again
  rw [braceBalance_eq, lines_codeText, braceBalance_eq]
  exact congrArg List.sum again

-- Whatever lines came before, the rendering of a line is a projection of it with the same counts, and
-- the brace counts of open template expressions stay level. A rendered text is its own rendering.
theorem rendering_projects (before : List Text) (line : Text) : let read := (Cursor.after {} before).feed line
    (read.1.code.length = line.length ∧ List.Forall₂ (fun x c => x = c ∨ x = ' ') read.1.code line) ∧
    read.1.tally.Counts read.1.code ∧ (∀ depth ∈ read.2.expressions, 0 ≤ depth) ∧
    (∀ mode t, codeText mode (codeText mode t) = codeText mode t) ∧
    ∀ t, braceBalance .literalAware (codeText .literalAware t) = braceBalance .literalAware t := by
  intro read
  have nested := Cursor.after_nested before
  have aligned := (Cursor.after {} before).atLineStart.render_aligned {} line
  have tally : read.1.tally = Tally.ofText read.1.code := (Cursor.render_faithful nested.atLineStart {} line).2
  refine ⟨⟨aligned.length_eq, aligned⟩, ?_, Cursor.feed_nested nested line, codeText_again, braceBalance_codeText⟩
  rw [tally]
  exact Tally.ofText_counts _

end ModuleSplit
