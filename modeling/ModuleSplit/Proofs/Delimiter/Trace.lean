import ModuleSplit.Delimiter.Lexer
import ModuleSplit.Proofs.Text.Lines

namespace ModuleSplit

namespace Lexer

def after (lexer : Lexer) (lines : List Text) : Lexer :=
  lines.foldl (fun lexer line => (lexer.feed line).2) lexer

theorem trace_append (lexer : Lexer) (a b : List Text) : lexer.trace (a ++ b) = lexer.trace a ++ (lexer.after a).trace b := by
  induction a generalizing lexer with
  | nil => rfl
  | cons line rest ih => simp [trace, after, ih]

theorem trace_drop (lexer : Lexer) (lines : List Text) (n : Nat) :
    (lexer.trace lines).drop n = (lexer.after (lines.take n)).trace (lines.drop n) := by
  induction lines generalizing lexer n with
  | nil => simp [trace]
  | cons line rest ih =>
    cases n with
    | zero => rfl
    | succ n => exact ih (lexer.feed line).2 n

theorem trace_take (lexer : Lexer) (lines : List Text) (n : Nat) : (lexer.trace lines).take n = lexer.trace (lines.take n) := by
  induction lines generalizing lexer n with
  | nil => simp [trace]
  | cons line rest ih =>
    cases n with
    | zero => rfl
    | succ n => exact congrArg (_ :: ·) (ih (lexer.feed line).2 n)

@[simp] theorem feed_text (lexer : Lexer) (line : Text) : (lexer.feed line).1.text = line := by
  cases lexer <;> rfl

@[simp] theorem trace_texts (lexer : Lexer) (lines : List Text) : (lexer.trace lines).map (·.1.text) = lines := by
  induction lines generalizing lexer with
  | nil => rfl
  | cons line rest ih => simp [trace, ih]

end Lexer

@[simp] theorem summarize_texts (mode : DelimiterMode) (lines : List Text) : (summarize mode lines).map (·.text) = lines := by
  simp [summarize, Function.comp_def]

@[simp] theorem summarize_length (mode : DelimiterMode) (lines : List Text) : (summarize mode lines).length = lines.length := by
  simpa only [List.length_map] using congrArg List.length (summarize_texts mode lines)

theorem summarize_append (mode : DelimiterMode) (a b : List Text) : summarize mode (a ++ b) =
      summarize mode a ++ (((Lexer.start mode).after a).trace b).map (·.1) := by
  simp [summarize, Lexer.trace_append]

theorem summarize_split {mode : DelimiterMode} {lines : List Text} {before rest : List LineSummary}
    {line : LineSummary} (split : summarize mode lines = before ++ line :: rest) :
    line = (((Lexer.start mode).after (before.map (·.text))).feed line.text).1 := by
  have texts := summarize_texts mode lines
  rw [split, List.map_append, List.map_cons] at texts
  rw [← texts, summarize_append] at split
  have lengths : (summarize mode (before.map (·.text))).length = before.length := by
    rw [summarize_length, List.length_map]
  have tails := (List.append_inj split lengths).2
  exact (List.cons.inj tails).1.symm

namespace Cursor

theorem render_one {s next : Cursor} {c shown : Char} {counted : Bool}
    (move : ∀ following, s.move c following = .one shown counted next) (tally : Tally)
    (rest : Text) : s.render tally (c :: rest) = (next.render (if counted then tally.count c else tally) rest).lead shown := by
  cases rest with
  | nil => simp only [render, move, Rendering.lead]
  | cons d rest => rw [render, move]

def after (s : Cursor) (lines : List Text) : Cursor := lines.foldl (fun s line => (s.feed line).2) s

def codes (s : Cursor) : List Text → List Text
  | [] => []
  | line :: rest => (s.feed line).1.code :: codes (s.feed line).2 rest

theorem trace_literal (s : Cursor) (lines : List Text) : ((Lexer.literal s).trace lines).map (·.1.code) = s.codes lines := by
  induction lines generalizing s with
  | nil => rfl
  | cons line rest ih => simpa [Lexer.trace, codes, Lexer.feed] using ih (s.feed line).2

@[simp] theorem lexer_after_literal (s : Cursor) (lines : List Text) : (Lexer.literal s).after lines = .literal (s.after lines) := by
  induction lines generalizing s with
  | nil => rfl
  | cons line rest ih => exact ih (s.feed line).2

@[simp] theorem after_append (s : Cursor) (a b : List Text) : s.after (a ++ b) = (s.after a).after b := by
  simp [after]

@[simp] theorem codes_append (s : Cursor) (a b : List Text) : s.codes (a ++ b) = s.codes a ++ (s.after a).codes b := by
  induction a generalizing s with
  | nil => rfl
  | cons line rest ih => simp [codes, after, ih]

@[simp] theorem codes_length (s : Cursor) (lines : List Text) : (s.codes lines).length = lines.length := by
  induction lines generalizing s with
  | nil => rfl
  | cons line rest ih => simp [codes, ih]

@[simp] theorem atLineStart_idem (s : Cursor) : s.atLineStart.atLineStart = s.atLineStart := by
  unfold atLineStart
  cases state : s.state <;> simp [enter, state]

@[simp] theorem feed_atLineStart (s : Cursor) (line : Text) : s.atLineStart.feed line = s.feed line := by
  unfold feed
  rw [atLineStart_idem]

@[simp] theorem codes_atLineStart (s : Cursor) (lines : List Text) : s.atLineStart.codes lines = s.codes lines := by
  cases lines with
  | nil => rfl
  | cons line rest => simp only [codes, feed_atLineStart]

@[simp] theorem after_atLineStart (s : Cursor) (lines : List Text) :
    (s.atLineStart.after lines).atLineStart = (s.after lines).atLineStart := by
  cases lines with
  | nil => exact atLineStart_idem s
  | cons line rest => simp only [after, List.foldl_cons, feed_atLineStart]

@[simp] theorem codes_blank_line (s : Cursor) (lines : List Text) : s.codes ([] :: lines) = [] :: s.codes lines := by
  have same : (s.feed []).2.atLineStart = s.atLineStart := by
    unfold feed atLineStart
    cases state : s.state <;> simp [render, enter, atLineEnd, state]
  rw [codes, ← codes_atLineStart _ lines, same, codes_atLineStart]
  rfl

end Cursor

theorem summarize_codes (lines : List Text) : (summarize .literalAware lines).map (·.code) = Cursor.codes {} lines := by
  simpa [summarize, Lexer.start, Function.comp_def] using Cursor.trace_literal {} lines

theorem codeText_literalAware (t : Text) : codeText .literalAware t = Text.unlines (Cursor.codes {} (Text.lines t)) := by
  rw [codeText, summarize_codes]

end ModuleSplit
