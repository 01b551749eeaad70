import ModuleSplit.Proofs.Delimiter.Trace

namespace ModuleSplit

namespace Tally

def Level (t : Tally) : Prop := t.low ≤ 0 ∧ t.low ≤ t.depth

theorem level_empty : Level {} := by
  simp [Level, depth]

theorem level_lowered (t : Tally) (start : t.low ≤ 0) : t.lowered.Level := by
  have left := Int.min_le_left t.low t.depth
  have right := Int.min_le_right t.low t.depth
  exact ⟨Int.le_trans left start, right⟩

theorem Level.count {t : Tally} (level : t.Level) (c : Char) : (t.count c).Level := by
  unfold Tally.count
  split
  · exact level_lowered _ level.1
  · split
    · exact level_lowered _ level.1
    · split
      · exact level_lowered _ level.1
      · split
        · exact level_lowered _ level.1
        · split
          · exact level
          · exact level

theorem ofText_level (t : Text) : (ofText t).Level := by
  have run : ∀ tally : Tally, tally.Level → (t.foldl Tally.count tally).Level := by
    induction t with
    | nil => exact fun _ level => level
    | cons c rest ih => exact fun tally level => ih _ (level.count c)
  exact run {} level_empty

end Tally

theorem Cursor.render_level (s : Cursor) {tally : Tally} (level : tally.Level) (line : Text) :
    (s.render tally line).tally.Level := by
  fun_induction Cursor.render s tally line with
  | case1 => exact level
  | case2 s tally c shown counted next moved =>
    cases counted
    · exact level
    · exact level.count c
  | case3 => exact level
  | case4 => exact level
  | case5 s tally c d rest shown counted next moved ih =>
    apply ih
    split
    · exact level.count c
    · exact level
  | case6 s tally c d rest next moved ih => exact ih level
  | case7 => exact level

theorem Lexer.feed_level (lexer : Lexer) (line : Text) : (lexer.feed line).1.minDepth ≤ 0 ∧
      (lexer.feed line).1.minDepth ≤ (lexer.feed line).1.depthDelta := by
  cases lexer with
  | literal s => exact s.atLineStart.render_level Tally.level_empty line
  | raw s => exact Tally.ofText_level line

theorem Lexer.feed_empty (lexer : Lexer) : (lexer.feed []).1.code = [] ∧ (lexer.feed []).1.braceDelta = 0 ∧
      (lexer.feed []).1.minDepth = 0 := by
  cases lexer with
  | literal s => exact ⟨rfl, rfl, rfl⟩
  | raw s =>
    refine ⟨?_, rfl, rfl⟩
    show (if _ then [] else []) = ([] : Text)
    split <;> rfl

end ModuleSplit
