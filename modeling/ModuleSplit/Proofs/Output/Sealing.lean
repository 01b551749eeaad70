import Mathlib.Data.List.Induction
import ModuleSplit.Output.Analysis
import ModuleSplit.Proofs.Delimiter.Context
import ModuleSplit.Proofs.Output.Forwarding

namespace ModuleSplit

open List Text

namespace Cursor

variable {s : Cursor} {c quote : Char} {rest lead m ending : Text}

def sweep (s : Cursor) (t : Text) : Cursor × Int :=
  ((s.render {} t).cursor, (s.render {} t).tally.braces)

theorem counted_braces (tally : Tally) (counted : Bool) (c : Char) : (if counted then tally.count c else tally).braces =
      tally.braces + (if counted then Tally.count {} c else {}).braces := by
  cases counted with
  | true => exact tally.count_braces c
  | false => simp

theorem render_sweep (s : Cursor) (tally : Tally) (t : Text) : (s.render tally t).cursor = (s.sweep t).1 ∧
      (s.render tally t).tally.braces = tally.braces + (s.sweep t).2 := by
  unfold sweep
  induction t using List.twoStepInduction generalizing s tally with
  | nil => simp [render]
  | singleton c =>
    unfold render
    cases s.move c none with
    | one shown counted next => exact ⟨rfl, counted_braces tally counted c⟩
    | pair next => simp
    | restOfLine => simp
  | cons_cons c d rest behind following =>
    unfold render
    cases s.move c (some d) with
    | one shown counted next =>
      obtain ⟨cursor, braces⟩ := following d next (if counted then tally.count c else tally)
      obtain ⟨alone, own⟩ := following d next (if counted then Tally.count {} c else {})
      refine ⟨cursor.trans alone.symm, ?_⟩
      have total := counted_braces tally counted c
      simp only [Rendering.lead]
      omega
    | pair next => exact behind next tally
    | restOfLine => simp

@[simp] theorem sweep_nil (s : Cursor) : s.sweep [] = (s, 0) := rfl

theorem sweep_one {next : Cursor} {shown : Char} {counted : Bool}
    (step : s.move c rest.head? = .one shown counted next) : s.sweep (c :: rest) = ((next.sweep rest).1,
      (if counted then Tally.count {} c else {}).braces + (next.sweep rest).2) := by
  cases rest with
  | nil =>
    have taken : s.render {} [c] = ⟨[shown], next, if counted then Tally.count {} c else {}⟩ := by
      rw [render, show s.move c none = _ from step]
    rw [sweep, taken, sweep_nil, Int.add_zero]
  | cons d rest =>
    have taken : s.render {} (c :: d :: rest) =
        (next.render (if counted then Tally.count {} c else {}) (d :: rest)).lead shown := by
      rw [render, show s.move c (some d) = _ from step]
    obtain ⟨cursor, braces⟩ := render_sweep next (if counted then Tally.count {} c else {}) (d :: rest)
    rw [← cursor, ← braces, sweep, taken]
    rfl

theorem sweep_pair {next : Cursor} {d : Char}
    (step : s.move c (some d) = .pair next) : s.sweep (c :: d :: rest) = next.sweep rest := by
  rw [sweep, render, step]
  rfl

theorem sweep_restOfLine (step : s.move c rest.head? = .restOfLine) : s.sweep (c :: rest) = (s.enter .lineComment, 0) := by
  cases rest with
  | nil => rw [sweep, render, show s.move c none = _ from step]
  | cons d rest => rw [sweep, render, show s.move c (some d) = _ from step]

theorem sweep_lead (plain : ∀ c ∈ lead, isPlainCode c = true) (rest : Text) : Cursor.sweep {} (lead ++ rest) =
      ((Cursor.sweep {} rest).1, (Tally.ofText lead).braces + (Cursor.sweep {} rest).2) := by
  obtain ⟨cursor, braces⟩ := render_sweep {} (Tally.ofText lead) rest
  rw [← cursor, ← braces, sweep, render_lead plain]
  rfl

theorem sweep_skip (step : s.move c rest.head? = s.skip) : s.sweep (c :: rest) = s.sweep rest := by
  rw [sweep_one step, if_neg Bool.false_ne_true]
  exact Prod.ext rfl (Int.zero_add _)

theorem sweep_string (isQuote : IsQuote quote)
    (inside : ∀ c next, s.move c next = s.moveQuoted quote c) (opened : s.atLineStart = {})
    (closes : ∀ next, s.move quote next = .one quote false {}) (inner : quote ∉ m) (ends : ending = [] ∨ ending = [';']) :
    (s.sweep (m ++ quote :: ending)).1.atLineStart = {} ∧ (s.sweep (m ++ quote :: ending)).2 = 0 := by
  have escaped : ∀ next, s.move '\\' next = .pair s := fun next => inside '\\' next
  have skipped : ∀ c, c ≠ quote → c ≠ '\\' → ∀ rest, s.sweep (c :: rest) = s.sweep rest := by
    intro c apart plain rest
    refine sweep_skip ?_
    rw [inside, moveQuoted, if_neg plain, if_neg apart]
  have closed : (s.sweep (quote :: ending)).1.atLineStart = {} ∧ (s.sweep (quote :: ending)).2 = 0 := by
    rw [sweep_one (closes _)]
    rcases ends with rfl | rfl <;> exact ⟨rfl, rfl⟩
  have unclosed : (s.sweep ending).1.atLineStart = {} ∧ (s.sweep ending).2 = 0 := by
    rcases ends with rfl | rfl
    · exact ⟨opened, rfl⟩
    · rw [skipped ';' (by rcases isQuote with rfl | rfl <;> decide) (by decide)]
      exact ⟨opened, rfl⟩
  induction m using List.twoStepInduction with
  | nil => exact closed
  | singleton c =>
    by_cases escape : c = '\\'
    · rw [escape, singleton_append, sweep_pair (escaped _)]
      exact unclosed
    · rw [singleton_append, skipped c (fun same => inner (by simp [same])) escape]
      exact closed
  | cons_cons c d rest behind following =>
    rw [mem_cons, mem_cons, not_or, not_or] at inner
    by_cases escape : c = '\\'
    · rw [escape, cons_append, cons_append, sweep_pair (escaped _)]
      exact behind inner.2.2
    · rw [cons_append, skipped c (Ne.symm inner.1) escape]
      exact following d (by simp [inner.2])

theorem sweep_quoted (plain : ∀ c ∈ lead, isPlainCode c = true) (isQuote : IsQuote quote) (inner : quote ∉ m)
    (ends : ending = [] ∨ ending = [';']) : (Cursor.sweep {} (lead ++ (Import.quoted quote m ++ ending))).1.atLineStart = {} ∧
      (Cursor.sweep {} (lead ++ (Import.quoted quote m ++ ending))).2 = (Tally.ofText lead).braces := by
  have cut : Import.quoted quote m ++ ending = quote :: (m ++ quote :: ending) := by
    simp [Import.quoted]
  have behind : (Cursor.sweep {} (quote :: (m ++ quote :: ending))).1.atLineStart = {} ∧
      (Cursor.sweep {} (quote :: (m ++ quote :: ending))).2 = 0 := by
    have opens : ∀ s : Cursor, (∀ next, Cursor.move {} quote next = .one quote false s) →
        (s.sweep (m ++ quote :: ending)).1.atLineStart = {} ∧ (s.sweep (m ++ quote :: ending)).2 = 0 →
        (Cursor.sweep {} (quote :: (m ++ quote :: ending))).1.atLineStart = {} ∧
          (Cursor.sweep {} (quote :: (m ++ quote :: ending))).2 = 0 := by
      intro s step string
      rw [sweep_one (step _), if_neg Bool.false_ne_true]
      exact ⟨string.1, (Int.zero_add _).trans string.2⟩
    rcases isQuote with rfl | rfl
    · exact opens ⟨.singleQuote, []⟩ (fun _ => rfl) (sweep_string (.inl rfl) (fun _ _ => rfl) rfl (fun _ => rfl) inner ends)
    · exact opens ⟨.doubleQuote, []⟩ (fun _ => rfl) (sweep_string (.inr rfl) (fun _ _ => rfl) rfl (fun _ => rfl) inner ends)
  rw [sweep_lead plain, cut]
  exact ⟨behind.1, by rw [behind.2, Int.add_zero]⟩

end Cursor

def isInert (c : Char) : Bool := !"'\"`\\\x7b\x7d*".toList.contains c

-- A module name that means nothing to the lexer. Two slashes would start a comment.
structure InertModule (m : Text) : Prop where
  inert : ∀ c ∈ m, isInert c = true
  single : holds m "//" = false

instance (m : Text) : Decidable (InertModule m) :=
  decidable_of_iff (m.all isInert = true ∧ holds m "//" = false)
    ⟨fun both => ⟨all_eq_true.mp both.1, both.2⟩,
      fun inert => ⟨all_eq_true.mpr inert.inert, inert.single⟩⟩

theorem isInert_iff {c : Char} : isInert c = true ↔ c ≠ '\'' ∧ c ≠ '"' ∧ c ≠ '`' ∧ c ≠ '\\' ∧ c ≠ '{' ∧ c ≠ '}' ∧ c ≠ '*' := by
  simp [isInert]

namespace Cursor

theorem sweep_lineComment {s : Cursor} (comment : s.state = .lineComment) (c : Char) (rest : Text) :
    s.sweep (c :: rest) = (s.enter .lineComment, 0) := by
  refine sweep_restOfLine ?_
  rw [move, comment]

theorem move_inert {s : Cursor} (code : s.state ≠ .lineComment) {c d : Char}
    (inert : isInert c = true) (next : isInert d = true ∨ IsQuote d)
    (single : ¬(c = '/' ∧ d = '/')) : ∃ shown counted, s.move c (some d) = .one shown counted s ∧
      (if counted then Tally.count {} c else {}).braces = 0 := by
  obtain ⟨one, two, tick, escape, opening, closing, star⟩ := isInert_iff.mp inert
  have later : d ≠ '{' ∧ d ≠ '*' := by
    rcases next with plain | quote
    · exact ⟨(isInert_iff.mp plain).2.2.2.2.1, (isInert_iff.mp plain).2.2.2.2.2.2⟩
    · rcases quote with rfl | rfl <;> decide
  have skipped : s.move c (some d) = s.skip → ∃ shown counted, s.move c (some d) = .one shown counted s ∧
        (if counted then Tally.count {} c else {}).braces = 0 :=
    fun skip => ⟨' ', false, skip, rfl⟩
  cases state : s.state with
  | lineComment => exact absurd state code
  | blockComment =>
    refine skipped ?_
    rw [move, state]
    exact if_neg fun both => star both.1
  | singleQuote =>
    refine skipped ?_
    rw [move, state]
    exact (if_neg escape).trans (if_neg one)
  | doubleQuote =>
    refine skipped ?_
    rw [move, state]
    exact (if_neg escape).trans (if_neg two)
  | template =>
    refine skipped ?_
    rw [move, state]
    exact (if_neg escape).trans ((if_neg tick).trans (if_neg fun both => later.1 (Option.some.inj both.2)))
  | code =>
    have noComment : ¬(c = '/' ∧ some d = some '/') := fun both => single ⟨both.1, Option.some.inj both.2⟩
    have noBlock : ¬(c = '/' ∧ some d = some '*') := fun both => later.2 (Option.some.inj both.2)
    cases expressions : s.expressions with
    | cons depth outer =>
      refine skipped ?_
      simp only [move, state, moveCode, if_neg noComment, if_neg noBlock, if_neg one, if_neg two,
        if_neg tick, expressions, moveExpression, if_neg opening, if_neg closing]
    | nil =>
      refine ⟨c, true, ?_, ?_⟩
      · simp only [move, state, moveCode, if_neg noComment, if_neg noBlock, if_neg one, if_neg two, if_neg tick, expressions]
      · exact Tally.braces_of_plain (t := [c]) (by simpa using Ne.symm opening) (by simpa using Ne.symm closing)

theorem sweep_inert (s : Cursor) {m : Text} (inert : InertModule m) {d : Char}
    (next : isInert d = true ∨ IsQuote d) (apart : d ≠ '/' ∨ m.getLast? ≠ some '/') (rest : Text) :
    s.sweep (m ++ d :: rest) = s.sweep (d :: rest) := by
  by_cases comment : s.state = .lineComment
  · cases m with
    | nil => rfl
    | cons c m => rw [List.cons_append, sweep_lineComment comment, sweep_lineComment comment]
  · induction m with
    | nil => rfl
    | cons c m ih =>
      have single := Bool.or_eq_false_iff.mp inert.single
      have shorter : InertModule m := ⟨fun e member => inert.inert e (List.mem_cons_of_mem c member), single.2⟩
      obtain ⟨e, head, following, noComment⟩ : ∃ e, (m ++ d :: rest).head? = some e ∧
          (isInert e = true ∨ IsQuote e) ∧ ¬(c = '/' ∧ e = '/') := by
        cases m with
        | nil =>
          refine ⟨d, rfl, next, ?_⟩
          rintro ⟨rfl, rfl⟩
          simp at apart
        | cons e m =>
          refine ⟨e, rfl, .inl (inert.inert e (by simp)), ?_⟩
          rintro ⟨rfl, rfl⟩
          cases single.1
      have last : d ≠ '/' ∨ m.getLast? ≠ some '/' := by
        refine apart.imp_right fun clash same => clash ?_
        rw [List.getLast?_cons, same]
        rfl
      obtain ⟨shown, counted, moved, braces⟩ := move_inert comment (inert.inert c List.mem_cons_self) following noComment
      rw [← head] at moved
      rw [List.cons_append, sweep_one moved, braces, ih shorter last]
      exact Prod.ext rfl (Int.zero_add _)

end Cursor

def Interchangeable (m n : Text) : Prop := ∀ (s : Cursor) (quote : Char) (rest : Text),
  IsQuote quote → s.sweep (m ++ quote :: rest) = s.sweep (n ++ quote :: rest)

theorem InertModule.interchangeable {m n : Text} (old : InertModule m) (new : InertModule n) : Interchangeable m n := by
  intro s quote rest isQuote
  have apart : quote ≠ '/' := by
    rcases isQuote with rfl | rfl <;> decide
  rw [s.sweep_inert old (.inr isQuote) (.inl apart), s.sweep_inert new (.inr isQuote) (.inl apart)]

theorem interchangeable_up (m : Text) : Interchangeable ("./".toList ++ m) ("../".toList ++ m) ∧
      Interchangeable ('.' :: m) ("../".toList ++ '.' :: m) := by
  have dot : InertModule ['.'] := by decide
  have dots : InertModule ['.', '.'] := by decide
  have up : InertModule ['.', '.', '/'] := by decide
  have slash : isInert '/' = true ∨ IsQuote '/' := .inl rfl
  constructor
  · intro s quote rest _
    have here := s.sweep_inert dot slash (.inr (by decide)) (m ++ quote :: rest)
    have above := s.sweep_inert dots slash (.inr (by decide)) (m ++ quote :: rest)
    exact here.trans above.symm
  · intro s quote rest _
    exact (s.sweep_inert up (.inl rfl) (.inl (by decide)) (m ++ quote :: rest)).symm

namespace Cursor

theorem move_quote (s : Cursor) {quote : Char} (isQuote : IsQuote quote) : (∀ next, s.move quote next = .restOfLine) ∨
      ∃ shown behind, ∀ next, s.move quote next = .one shown false behind := by
  rcases isQuote with rfl | rfl <;> cases state : s.state <;>
    simp [move, state, moveBlockComment, moveTemplate, moveQuoted, moveCode, skip]

theorem sweep_cons_congr {s : Cursor} {c d : Char} {u v : Text}
    (alone : ∀ next : Cursor, next.sweep (d :: u) = next.sweep (d :: v))
    (pair : ∀ next : Cursor, next.sweep u = next.sweep v) : s.sweep (c :: d :: u) = s.sweep (c :: d :: v) := by
  cases moved : s.move c (some d) with
  | one shown counted next =>
    rw [sweep_one (show s.move c (d :: u).head? = _ from moved),
      sweep_one (show s.move c (d :: v).head? = _ from moved), alone next]
  | pair next => rw [sweep_pair moved, sweep_pair moved, pair next]
  | restOfLine => rw [sweep_restOfLine (show s.move c (d :: u).head? = _ from moved),
      sweep_restOfLine (show s.move c (d :: v).head? = _ from moved)]

theorem sweep_replaced (s : Cursor) {m n : Text} (same : Interchangeable m n) {quote : Char}
    (isQuote : IsQuote quote) (front rest : Text) : s.sweep (front ++ (Import.quoted quote m ++ rest)) =
      s.sweep (front ++ (Import.quoted quote n ++ rest)) := by
  have cut : ∀ t, Import.quoted quote t ++ rest = quote :: (t ++ quote :: rest) := by
    simp [Import.quoted]
  have inner : ∀ s : Cursor, s.sweep (m ++ quote :: rest) = s.sweep (n ++ quote :: rest) := fun s => same s quote rest isQuote
  have opening : ∀ s : Cursor, s.sweep (quote :: (m ++ quote :: rest)) = s.sweep (quote :: (n ++ quote :: rest)) := by
    intro s
    rcases s.move_quote isQuote with comment | ⟨shown, behind, taken⟩
    · rw [sweep_restOfLine (comment _), sweep_restOfLine (comment _)]
    · rw [sweep_one (taken _), sweep_one (taken _), inner behind]
  rw [cut, cut]
  induction front using List.twoStepInduction generalizing s with
  | nil => exact opening s
  | singleton c => exact sweep_cons_congr opening inner
  | cons_cons c d front behind following => exact sweep_cons_congr (following d) behind

def balance (s : Cursor) : List Text → Int
  | [] => 0
  | line :: rest => (s.feed line).1.braceDelta + balance (s.feed line).2 rest

@[simp] theorem balance_append (s : Cursor) (a b : List Text) : s.balance (a ++ b) = s.balance a + (s.after a).balance b := by
  induction a generalizing s with
  | nil => exact (Int.zero_add _).symm
  | cons line a ih =>
    rw [List.cons_append, balance, balance, ih, Int.add_assoc]
    rfl

@[simp] theorem balance_atLineStart (s : Cursor) (lines : List Text) : s.atLineStart.balance lines = s.balance lines := by
  cases lines with
  | nil => rfl
  | cons line rest => rw [balance, balance, feed_atLineStart]

theorem balance_trace (s : Cursor) (lines : List Text) :
    (((Lexer.literal s).trace lines).map fun step => step.1.braceDelta).sum = s.balance lines := by
  induction lines generalizing s with
  | nil => rfl
  | cons line rest ih =>
    rw [Lexer.trace, List.map_cons, List.sum_cons, balance, ← ih]
    rfl

theorem exchange_line {s : Cursor} {above : List Text} {line other : Text}
    (same : (s.after above).atLineStart.sweep line = (s.after above).atLineStart.sweep other)
    (below : List Text) : s.after (above ++ line :: below) = s.after (above ++ other :: below) ∧
      s.balance (above ++ line :: below) = s.balance (above ++ other :: below) := by
  have next : ((s.after above).feed line).2 = ((s.after above).feed other).2 := congrArg (fun swept => swept.1.atLineEnd) same
  have braces : ((s.after above).feed line).1.braceDelta =
      ((s.after above).feed other).1.braceDelta := congrArg (fun swept => swept.2) same
  constructor
  · rw [after_append, after_append]
    exact congrArg (fun t : Cursor => t.after below) next
  · rw [balance_append, balance_append, balance, balance, next, braces]

end Cursor

theorem braceBalance_literalAware (t : Text) : braceBalance .literalAware t = Cursor.balance {} (lines t) := by
  rw [braceBalance_eq, summarize, List.map_map, ← Cursor.balance_trace]
  rfl

def Sealed (t : Text) : Prop := (Cursor.after {} (lines t)).atLineStart = {}

structure Neutral (t : Text) : Prop where
  isSealed : Sealed t
  level : braceBalance .literalAware t = 0

structure Alike (t u : Text) : Prop where
  behind : Cursor.after {} (lines t) = Cursor.after {} (lines u)
  balance : braceBalance .literalAware t = braceBalance .literalAware u

namespace Alike

theorem isSealed {t u : Text} (alike : Alike t u) (closed : Sealed t) : Sealed u := by
  rwa [Sealed, ← alike.behind]

theorem neutral {t u : Text} (alike : Alike t u) (neutral : Neutral t) : Neutral u :=
  ⟨alike.isSealed neutral.isSealed, alike.balance.symm.trans neutral.level⟩

theorem refl (t : Text) : Alike t t := ⟨rfl, rfl⟩

theorem of_line {t u line other : Text} {above below : List Text}
    (left : lines t = above ++ line :: below) (right : lines u = above ++ other :: below)
    (same : (Cursor.after {} above).atLineStart.sweep line = (Cursor.after {} above).atLineStart.sweep other) : Alike t u := by
  obtain ⟨behind, balance⟩ := Cursor.exchange_line same below
  refine ⟨?_, ?_⟩
  · rw [left, right, behind]
  · rw [braceBalance_literalAware, braceBalance_literalAware, left, right, balance]

end Alike

theorem neutral_nil : Neutral [] := ⟨rfl, rfl⟩

theorem Neutral.of_line {line : Text} (plain : '\n' ∉ line)
    (ends : (Cursor.sweep {} line).1.atLineStart = {}) (level : (Cursor.sweep {} line).2 = 0) : Neutral line := by
  constructor
  · rw [Sealed, lines_single plain]
    exact (Cursor.atLineStart_atLineEnd _).trans ends
  · rw [braceBalance_literalAware, lines_single plain]
    exact (Int.add_zero _).trans level

theorem Sealed.append {a b : Text} (left : Sealed a) : (Sealed b → Sealed (a ++ '\n' :: b)) ∧
    braceBalance .literalAware (a ++ '\n' :: b) = braceBalance .literalAware a + braceBalance .literalAware b := by
  constructor
  · intro right
    rw [Sealed, lines_append, Cursor.after_append, ← Cursor.after_atLineStart, left]
    exact right
  · rw [braceBalance_literalAware, braceBalance_literalAware, braceBalance_literalAware,
      lines_append, Cursor.balance_append, ← Cursor.balance_atLineStart (Cursor.after {} (lines a)),
      show (Cursor.after {} (lines a)).atLineStart = {} from left]

theorem Sealed.join {sep a b : Text} (seam : sep = ['\n'] ∨ sep = ['\n', '\n']) (left : Sealed a)
    (right : Sealed b) : Sealed (a ++ sep ++ b) ∧ braceBalance .literalAware (a ++ sep ++ b) =
      braceBalance .literalAware a + braceBalance .literalAware b := by
  rw [List.append_assoc]
  rcases seam with rfl | rfl
  · exact ⟨left.append.1 right, left.append.2⟩
  · have below : Sealed ('\n' :: b) := neutral_nil.isSealed.append.1 right
    have same : braceBalance .literalAware ('\n' :: b) = braceBalance .literalAware b :=
      neutral_nil.isSealed.append.2.trans (by rw [neutral_nil.level, Int.zero_add])
    exact ⟨left.append.1 below, left.append.2.trans (congrArg _ same)⟩

theorem intercalate_balance {sep : Text} (seam : sep = ['\n'] ∨ sep = ['\n', '\n'])
    {ts : List Text} (closed : ∀ t ∈ ts, Sealed t) : Sealed (sep.intercalate ts) ∧
      braceBalance .literalAware (sep.intercalate ts) = (ts.map (braceBalance .literalAware)).sum := by
  induction ts with
  | nil => exact ⟨neutral_nil.isSealed, neutral_nil.level⟩
  | cons t ts ih =>
    rw [List.forall_mem_cons] at closed
    obtain ⟨later, total⟩ := ih closed.2
    cases ts with
    | nil => simpa [List.intercalate] using closed.1
    | cons u ts =>
      rw [List.intercalate_cons_cons]
      obtain ⟨whole, sum⟩ := closed.1.join seam later
      exact ⟨whole, by rw [sum, total]; rfl⟩

theorem Sealed.closed {t : Text} (closed : Sealed t) :
    braceBalance .literalAware (t ++ ['\n']) = braceBalance .literalAware t := by
  rw [closed.append.2, neutral_nil.level, Int.add_zero]

theorem Neutral.unlines {ls : List Text} (neutral : ∀ l ∈ ls, Neutral l) : Neutral (unlines ls) := by
  obtain ⟨closed, balance⟩ := intercalate_balance (.inl rfl) fun l member => (neutral l member).isSealed
  refine ⟨closed, balance.trans (List.sum_eq_zero ?_)⟩
  intro n member
  obtain ⟨l, listed, rfl⟩ := List.mem_map.mp member
  exact (neutral l listed).level

theorem lines_lead {inner back tail : Text} {below : List Text} (plain : '\n' ∉ inner)
    (behind : lines back = tail :: below) : lines (inner ++ back) = (inner ++ tail) :: below := by
  induction inner with
  | nil => exact behind
  | cons c inner ih =>
    rw [List.mem_cons, not_or] at plain
    have later : Text.splitOn '\n' (inner ++ back) = (inner ++ tail) :: below := ih plain.2
    rw [lines, List.cons_append, Text.splitOn, if_neg (Ne.symm plain.1), later]
    rfl

theorem lines_around (front back : Text) : ∃ above lead tail below, ∀ inner, '\n' ∉ inner →
    lines (front ++ (inner ++ back)) = above ++ (lead ++ (inner ++ tail)) :: below := by
  induction front with
  | nil =>
    obtain ⟨below, behind⟩ := splitOn_cut '\n' back
    refine ⟨[], [], (cut '\n' back).1, below, fun inner plain => ?_⟩
    rw [List.nil_append, List.nil_append]
    exact lines_lead plain behind
  | cons c front ih =>
    obtain ⟨above, lead, tail, below, same⟩ := ih
    by_cases newline : c = '\n'
    · refine ⟨[] :: above, lead, tail, below, fun inner plain => ?_⟩
      have later : Text.splitOn '\n' (front ++ (inner ++ back)) = _ := same inner plain
      rw [lines, List.cons_append, Text.splitOn, if_pos newline, later, List.cons_append]
    · cases above with
      | nil =>
        refine ⟨[], c :: lead, tail, below, fun inner plain => ?_⟩
        have later : Text.splitOn '\n' (front ++ (inner ++ back)) = _ := same inner plain
        rw [lines, List.cons_append, Text.splitOn, if_neg newline, later]
        rfl
      | cons first above =>
        refine ⟨(c :: first) :: above, lead, tail, below, fun inner plain => ?_⟩
        have later : Text.splitOn '\n' (front ++ (inner ++ back)) = _ := same inner plain
        rw [lines, List.cons_append, Text.splitOn, if_neg newline, later]
        rfl

theorem replaceFirst_cases (old new t : Text) : replaceFirst old new t = t ∨
    ∃ front back, t = front ++ (old ++ back) ∧ replaceFirst old new t = front ++ (new ++ back) := by
  induction t with
  | nil =>
    rw [replaceFirst]
    split
    · rename_i empty
      rw [List.isEmpty_iff] at empty
      exact .inr ⟨[], [], by simp [empty], by simp⟩
    · exact .inl rfl
  | cons c rest ih =>
    rw [replaceFirst]
    cases found : after? old (c :: rest) with
    | some tail =>
      have whole : c :: rest = old ++ tail := after?_eq_some.mp found
      exact .inr ⟨[], tail, whole, rfl⟩
    | none =>
      rcases ih with kept | ⟨front, back, whole, replaced⟩
      · exact .inl (congrArg (c :: ·) kept)
      · exact .inr ⟨c :: front, back, by rw [whole]; rfl, congrArg (c :: ·) replaced⟩

theorem Alike.replaceFirst {m n : Text} (same : Interchangeable m n) (old : '\n' ∉ m)
    (new : '\n' ∉ n) {quote : Char} (isQuote : IsQuote quote) (raw : Text) :
    Alike raw (replaceFirst (Import.quoted quote m) (Import.quoted quote n) raw) := by
  have line : ∀ t : Text, '\n' ∉ t → '\n' ∉ Import.quoted quote t := by
    intro t plain
    rcases isQuote with rfl | rfl <;> simpa [Import.quoted] using plain
  rcases replaceFirst_cases (Import.quoted quote m) (Import.quoted quote n) raw with
    kept | ⟨front, back, whole, replaced⟩
  · rw [kept]
    exact .refl raw
  · obtain ⟨above, lead, tail, below, around⟩ := lines_around front back
    rw [replaced, whole]
    exact .of_line (around _ (line m old)) (around _ (line n new)) (Cursor.sweep_replaced _ same isQuote lead tail)

theorem Exported.alike {text output : Text} (exported : Exported text output) : Alike text output := by
  rcases exported with rfl | ⟨rest, whole, added⟩
  · exact .refl _
  · have blank : ∀ c ∈ (cut '\n' text).1.takeWhile isBlank, isPlainCode c = true := fun c member =>
      isPlainCode_of_isBlank (List.all_eq_true.mp List.all_takeWhile c member)
    have line : '\n' ∉ (cut '\n' text).1.takeWhile isBlank := fun inside =>
      not_mem_cut '\n' text ((List.takeWhile_prefix isBlank).subset inside)
    generalize (cut '\n' text).1.takeWhile isBlank = indent at *
    obtain ⟨below, behind⟩ := splitOn_cut '\n' rest
    have word : '\n' ∉ indent ++ "export ".toList := by
      rw [List.mem_append, not_or]
      exact ⟨line, by decide⟩
    have plain : ∀ c ∈ indent ++ "export ".toList, isPlainCode c = true := by
      intro c member
      rcases List.mem_append.mp member with inside | word
      · exact blank c inside
      · exact List.all_eq_true.mp (show "export ".toList.all isPlainCode = true from rfl) c word
    rw [whole, added]
    refine .of_line (show lines _ = [] ++ _ :: below from lines_lead line behind)
      (show lines _ = [] ++ _ :: below from lines_lead word behind) ?_
    show Cursor.sweep {} _ = Cursor.sweep {} _
    rw [Cursor.sweep_lead blank, Cursor.sweep_lead plain, Tally.ofText_append,
      show (Tally.ofText "export ".toList).braces = 0 from rfl, Int.add_zero]

end ModuleSplit
