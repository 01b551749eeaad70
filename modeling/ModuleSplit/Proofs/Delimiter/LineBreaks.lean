import Mathlib.Algebra.BigOperators.Group.List.Basic
import Mathlib.Algebra.Ring.Int.Defs
import ModuleSplit.Delimiter.Lexer
import ModuleSplit.Proofs.Delimiter.Trace

namespace ModuleSplit

open List

namespace Text

-- Every line break written as `newline`.
def breakLines (newline t : Text) : Text := t.flatMap fun c => if c = '\n' then newline else [c]

@[simp] theorem breakLines_append (newline a b : Text) : breakLines newline (a ++ b) = breakLines newline a ++ breakLines newline b :=
  flatMap_append

theorem breakLines_plain (newline : Text) {t : Text} (plain : '\n' ∉ t) : breakLines newline t = t := by
  induction t with
  | nil => rfl
  | cons c t ih =>
    rw [mem_cons, not_or] at plain
    rw [breakLines, flatMap_cons, if_neg (Ne.symm plain.1)]
    exact congrArg _ (ih plain.2)

theorem breakLines_feed (t : Text) : breakLines ['\n'] t = t := by
  induction t with
  | nil => rfl
  | cons c t ih =>
    rw [breakLines, flatMap_cons]
    split
    · rename_i same
      rw [same]
      exact congrArg _ ih
    · exact congrArg _ ih

theorem foldCrLf_breakLines (t : Text) : foldCrLf (breakLines ['\r', '\n'] t) = t := by
  induction t with
  | nil => rfl
  | cons c t ih =>
    by_cases broken : c = '\n'
    · subst broken
      exact congrArg _ ih
    · have first : breakLines ['\r', '\n'] (c :: t) = c :: breakLines ['\r', '\n'] t := by
        rw [breakLines, flatMap_cons, if_neg broken]
        rfl
      rw [first, foldCrLf]
      · rw [ih]
      · rintro rest rfl same
        cases t with
        | nil => cases same
        | cons d t =>
          rw [breakLines, flatMap_cons] at same
          split at same
          · cases same
          · rename_i other
            exact other (List.cons.inj same).1

theorem lines_single {l : Text} (plain : '\n' ∉ l) : lines l = [l] := splitOn_eq_singleton plain

def Returned (line plain : Text) : Prop := line = plain ∨ line = plain ++ ['\r']

theorem lines_breakLines (t : Text) : List.Forall₂ Returned (lines (breakLines ['\r', '\n'] t)) (lines t) := by
  have whole : ∀ ls : List Text, ls ≠ [] → (∀ l ∈ ls, '\n' ∉ l) →
      List.Forall₂ Returned (lines (breakLines ['\r', '\n'] (unlines ls))) ls := by
    intro ls some plain
    induction ls with
    | nil => exact absurd rfl some
    | cons first rest ih =>
      rw [forall_mem_cons] at plain
      cases rest with
      | nil =>
        rw [unlines_singleton, breakLines_plain _ plain.1, lines_single plain.1]
        exact .cons (.inl rfl) .nil
      | cons second others =>
        have joined : breakLines ['\r', '\n'] (unlines (first :: second :: others)) =
            (first ++ ['\r']) ++ '\n' :: breakLines ['\r', '\n'] (unlines (second :: others)) := by
          rw [unlines_cons_cons, breakLines_append, breakLines_plain _ plain.1, append_assoc]
          rfl
        rw [joined, lines_append, lines_single (by simpa using plain.1)]
        exact .cons (.inr rfl) (ih nofun plain.2)
  have some : lines t ≠ [] := by
    rw [lines, splitOn_eq]
    exact splitOn_ne_nil '\n' t
  have same := whole (lines t) some (newline_not_mem_lines t)
  rwa [unlines_lines] at same

@[simp] theorem isBlankText_breakLines (t : Text) : isBlankText (breakLines ['\r', '\n'] t) = isBlankText t := by
  unfold isBlankText breakLines
  rw [all_flatMap]
  congr 1
  funext c
  split
  · rename_i broken
    rw [broken]
    rfl
  · exact Bool.and_true _

@[simp] theorem trim_return (t : Text) : trim (t ++ ['\r']) = trim t := by
  unfold trim trimBy trimRightBy trimLeftBy
  rw [dropWhile_append]
  split
  · rename_i none
    rw [isEmpty_iff.mp none]
    rfl
  · rw [reverse_append]
    rfl

@[simp] theorem holds_return (t : Text) : holds (t ++ ['\r']) "*/" = holds t "*/" := by
  unfold holds
  induction t with
  | nil => rfl
  | cons c t ih =>
    rw [cons_append, occursIn, occursIn, ih]
    cases t with
    | nil => simp [List.isPrefixOf]
    | cons d t => rfl

end Text

namespace Cursor

@[simp] theorem move_return (s : Cursor) (c : Char) : s.move c (some '\r') = s.move c none := by
  unfold move
  split <;> simp [moveBlockComment, moveTemplate, moveCode]

theorem render_return (s : Cursor) (tally : Tally) :
    (s.render tally ['\r']).cursor = s ∧ (s.render tally ['\r']).tally = tally := by
  obtain ⟨state, expressions⟩ := s
  cases state with
  | code => cases expressions <;> exact ⟨rfl, rfl⟩
  | singleQuote => exact ⟨rfl, rfl⟩
  | doubleQuote => exact ⟨rfl, rfl⟩
  | template => exact ⟨rfl, rfl⟩
  | lineComment => exact ⟨rfl, rfl⟩
  | blockComment => exact ⟨rfl, rfl⟩

-- The induction is that of the rendering: a carriage return behind the last character is either
-- read alone or taken together with it.
theorem render_append_return (s : Cursor) (tally : Tally) (line : Text) :
    (s.render tally (line ++ ['\r'])).cursor = (s.render tally line).cursor ∧
      (s.render tally (line ++ ['\r'])).tally = (s.render tally line).tally := by
  fun_induction Cursor.render s tally line with
  | case1 s tally => exact render_return s tally
  | case2 s tally c shown counted next moved =>
    rw [singleton_append, Cursor.render, move_return, moved]
    exact render_return next _
  | case3 s tally c next moved =>
    rw [singleton_append, Cursor.render, move_return, moved]
    exact ⟨rfl, rfl⟩
  | case4 s tally c moved =>
    rw [singleton_append, Cursor.render, move_return, moved]
    exact ⟨rfl, rfl⟩
  | case5 s tally c d rest shown counted next moved ih =>
    rw [cons_append, cons_append, Cursor.render, moved]
    exact ih
  | case6 s tally c d rest next moved ih =>
    rw [cons_append, cons_append, Cursor.render, moved]
    exact ih
  | case7 s tally c d rest moved =>
    rw [cons_append, cons_append, Cursor.render, moved]
    exact ⟨rfl, rfl⟩

end Cursor

theorem Tally.ofText_return (t : Text) : ofText (t ++ ['\r']) = ofText t := by
  unfold ofText
  rw [foldl_append]
  rfl

theorem Lexer.feed_return (lexer : Lexer) {line plain : Text} (returned : Text.Returned line plain) :
    (lexer.feed line).1.braceDelta = (lexer.feed plain).1.braceDelta ∧ (lexer.feed line).2 = (lexer.feed plain).2 := by
  rcases returned with rfl | rfl
  · exact ⟨rfl, rfl⟩
  · cases lexer with
    | literal s =>
      obtain ⟨cursor, tally⟩ := s.atLineStart.render_append_return {} plain
      exact ⟨congrArg Tally.braces tally, congrArg (fun c : Cursor => Lexer.literal c.atLineEnd) cursor⟩
    | raw s =>
      refine ⟨congrArg Tally.braces (Tally.ofText_return plain), congrArg Lexer.raw ?_⟩
      show s.next (plain ++ ['\r']) = s.next plain
      rw [RawCursor.next, RawCursor.next, Text.holds_return, Text.trim_return]

-- All lines, by induction on them.
theorem Lexer.trace_return (lexer : Lexer) {lines plain : List Text} (returned : List.Forall₂ Text.Returned lines plain) :
    (lexer.trace lines).map (·.1.braceDelta) = (lexer.trace plain).map (·.1.braceDelta) := by
  induction returned generalizing lexer with
  | nil => rfl
  | cons line _ ih =>
    obtain ⟨delta, next⟩ := lexer.feed_return line
    rw [trace, trace, map_cons, map_cons, delta, next, ih]

theorem braceBalance_eq (mode : DelimiterMode) (t : Text) :
    braceBalance mode t = ((summarize mode (Text.lines t)).map (·.braceDelta)).sum := by
  have run : ∀ (ss : List LineSummary) (total : Int), ss.foldl (fun total s => total + s.braceDelta) total =
        total + (ss.map (·.braceDelta)).sum := by
    intro ss
    induction ss with
    | nil => simp
    | cons s ss ih =>
      intro total
      rw [foldl_cons, ih, map_cons, sum_cons, Int.add_assoc]
  rw [braceBalance, run, Int.zero_add]

@[simp] theorem braceBalance_breakLines (mode : DelimiterMode) (t : Text) :
    braceBalance mode (Text.breakLines ['\r', '\n'] t) = braceBalance mode t := by
  have same := (Lexer.start mode).trace_return (Text.lines_breakLines t)
  rw [braceBalance_eq, braceBalance_eq, summarize, summarize, map_map, map_map]
  exact congrArg List.sum same

@[simp] theorem checkText_breakLines (mode : DelimiterMode) (newline : Newline) (t : Text) :
    checkText mode (Text.breakLines newline.text t) = checkText mode t := by
  cases newline with
  | lf => exact congrArg (checkText mode) (Text.breakLines_feed t)
  | crlf =>
    show checkText mode (Text.breakLines ['\r', '\n'] t) = _
    rw [checkText, checkText, Text.isBlankText_breakLines, braceBalance_breakLines]

theorem checkText_eq_none {mode : DelimiterMode} {t : Text} :
    checkText mode t = none ↔ Text.isBlankText t = false ∧ braceBalance mode t = 0 := by
  unfold checkText
  split
  · simp_all
  · split <;> simp_all

end ModuleSplit
