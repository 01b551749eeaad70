import Mathlib.Data.List.Forall2
import ModuleSplit.Proofs.Block.Partition

namespace ModuleSplit

namespace Cursor

-- The cursor at this place of the rendering. All of a template expression is blanked, so that it
-- looks like more of the template around it.
def rendered (s : Cursor) : Cursor :=
  if s.expressions = [] then
    match s.state with
    | .lineComment | .blockComment => {}
    | _ => s
  else {state := .template}

theorem rendered_inside {s : Cursor} (inside : s.expressions ≠ []) : s.rendered = {state := .template} :=
  if_neg inside

theorem rendered_template (expressions : List Int) :
    rendered {state := .template, expressions := expressions} = {state := .template} := by
  cases expressions <;> rfl

@[simp] theorem rendered_atLineStart (s : Cursor) : s.rendered.atLineStart = s.atLineStart.rendered := by
  obtain ⟨state, expressions⟩ := s
  cases expressions <;> cases state <;> rfl

@[simp] theorem rendered_atLineEnd (s : Cursor) : s.rendered.atLineEnd = s.atLineEnd.rendered := by
  obtain ⟨state, expressions⟩ := s
  cases expressions <;> cases state <;> rfl

theorem rendered_inLiteral (s : Cursor) : (s.rendered.state == .template || !s.rendered.expressions.isEmpty) =
      (s.state == .template || !s.expressions.isEmpty) := by
  obtain ⟨state, expressions⟩ := s
  cases expressions <;> cases state <;> rfl

end Cursor

-- A character is blanked, and then the rendering stays where it is; or it is shown as it is, and
-- then source and rendering are read alike, also where the next character is blanked.
def Move.Renders (s : Cursor) (c : Char) (next : Option Char) : Move → Prop
  | .one shown counted after =>
    (shown = ' ' ∧ counted = false ∧ after.rendered = s.rendered) ∨
    (shown = c ∧ s.rendered = s ∧ after.rendered = after ∧
      s.move c (next.map fun _ => ' ') = .one shown counted after)
  | .pair after => after.rendered = s.rendered
  | .restOfLine => (s.enter .lineComment).rendered = s.rendered

namespace Cursor

theorem moveExpression_renders {s : Cursor} {depth : Int} {outer : List Int}
    (inside : s.expressions = depth :: outer) (c : Char) (next : Option Char) :
    Move.Renders s c next (s.moveExpression depth outer c) := by
  have here : s.rendered = {state := .template} := rendered_inside (inside ▸ List.cons_ne_nil depth outer)
  have deeper : ∀ d, rendered {s with expressions := d :: outer} = s.rendered := by
    intro d
    rw [here]
    exact rendered_inside (List.cons_ne_nil d outer)
  unfold moveExpression
  split
  · exact .inl ⟨rfl, rfl, deeper _⟩
  · split
    · split
      · exact .inl ⟨rfl, rfl, (rendered_template outer).trans here.symm⟩
      · exact .inl ⟨rfl, rfl, deeper _⟩
    · exact .inl ⟨rfl, rfl, rfl⟩

theorem move_renders_inside {s : Cursor} (inside : s.expressions ≠ []) (c : Char)
    (next : Option Char) : Move.Renders s c next (s.move c next) := by
  have here := rendered_inside inside
  have stays : ∀ state, (s.enter state).rendered = s.rendered := by
    intro state
    rw [here]
    exact rendered_inside inside
  have skipped : Move.Renders s c next s.skip := .inl ⟨rfl, rfl, rfl⟩
  have crossed : ∀ (q : Char) state, Move.Renders s c next (.one (s.shown q) false (s.enter state)) := by
    intro q state
    have hidden : s.shown q = ' ' := by simp [shown, inside]
    exact .inl ⟨hidden, rfl, stays state⟩
  have quoted : ∀ quote, Move.Renders s c next (s.moveQuoted quote c) := by
    intro quote
    unfold moveQuoted
    split
    · exact rfl
    · split
      · exact crossed _ _
      · exact skipped
  unfold move
  split
  · exact stays _
  · unfold moveBlockComment
    split
    · exact stays _
    · exact skipped
  · exact quoted _
  · exact quoted _
  · unfold moveTemplate
    split
    · exact rfl
    · split
      · exact crossed _ _
      · split
        · exact (rendered_inside (List.cons_ne_nil _ _)).trans here.symm
        · exact skipped
  · unfold moveCode
    split
    · exact stays _
    · split
      · exact stays _
      · split
        · exact crossed _ _
        · split
          · exact crossed _ _
          · split
            · exact crossed _ _
            · split
              · exact moveExpression_renders ‹_› c next
              · contradiction

theorem move_renders_outside (state : LexState) (c : Char) (next : Option Char) :
    Move.Renders {state := state} c next (move {state := state} c next) := by
  have quoted : ∀ (state : LexState) (quote : Char), rendered {state := state} = {state := state} →
      (∀ next, move {state := state} quote next = .one quote false {}) →
      Move.Renders {state := state} c next (moveQuoted {state := state} quote c) := by
    intro state quote same closes
    unfold moveQuoted
    split
    · exact rfl
    · split
      · rename_i _ closing
        subst closing
        exact .inr ⟨rfl, same, rfl, closes _⟩
      · exact .inl ⟨rfl, rfl, rfl⟩
  cases state with
  | lineComment => exact rfl
  | blockComment =>
    show Move.Renders _ c next (moveBlockComment _ c next)
    unfold moveBlockComment
    split
    · exact rfl
    · exact .inl ⟨rfl, rfl, rfl⟩
  | singleQuote => exact quoted .singleQuote '\'' rfl (fun _ => rfl)
  | doubleQuote => exact quoted .doubleQuote '"' rfl (fun _ => rfl)
  | template =>
    show Move.Renders _ c next (moveTemplate _ c next)
    unfold moveTemplate
    split
    · exact rfl
    · split
      · rename_i _ closing
        subst closing
        exact .inr ⟨rfl, rfl, rfl, rfl⟩
      · split
        · exact rfl
        · exact .inl ⟨rfl, rfl, rfl⟩
  | code =>
    show Move.Renders _ c next (moveCode _ c next)
    unfold moveCode
    split
    · exact rfl
    · split
      · exact rfl
      · split
        · rename_i quote
          subst quote
          exact .inr ⟨rfl, rfl, rfl, rfl⟩
        · split
          · rename_i quote
            subst quote
            exact .inr ⟨rfl, rfl, rfl, rfl⟩
          · split
            · rename_i quote
              subst quote
              exact .inr ⟨rfl, rfl, rfl, rfl⟩
            · refine .inr ⟨rfl, rfl, rfl, ?_⟩
              show moveCode _ c _ = _
              simp [moveCode, *]

theorem move_renders (s : Cursor) (c : Char) (next : Option Char) : Move.Renders s c next (s.move c next) := by
  obtain ⟨state, expressions⟩ := s
  cases expressions with
  | nil => exact move_renders_outside state c next
  | cons depth outer => exact move_renders_inside (List.cons_ne_nil depth outer) c next

theorem rendered_move_blank (s : Cursor) : ∃ counted, ∀ next, s.rendered.move ' ' next = .one ' ' counted s.rendered := by
  obtain ⟨state, expressions⟩ := s
  cases expressions with
  | cons depth outer =>
    rw [rendered_inside (List.cons_ne_nil depth outer)]
    exact ⟨false, fun _ => rfl⟩
  | nil =>
    cases state with
    | code => exact ⟨true, fun _ => rfl⟩
    | lineComment => exact ⟨true, fun _ => rfl⟩
    | blockComment => exact ⟨true, fun _ => rfl⟩
    | singleQuote => exact ⟨false, fun _ => rfl⟩
    | doubleQuote => exact ⟨false, fun _ => rfl⟩
    | template => exact ⟨false, fun _ => rfl⟩

theorem rendered_blank (s : Cursor) (tally : Tally) (code : Text) :
    s.rendered.render tally (' ' :: code) = (s.rendered.render tally code).lead ' ' := by
  obtain ⟨counted, step⟩ := s.rendered_move_blank
  rw [render_one step]
  cases counted <;> rfl

theorem rendered_blanks (s : Cursor) (tally : Tally) (count : Nat) :
    s.rendered.render tally (List.replicate count ' ') = ⟨List.replicate count ' ', s.rendered, tally⟩ := by
  induction count with
  | zero => rfl
  | succ count ih =>
    rw [List.replicate_succ, rendered_blank, ih]
    rfl

theorem render_aligned (s : Cursor) (tally : Tally) (line : Text) :
    List.Forall₂ (fun x c => x = c ∨ x = ' ') (s.render tally line).code line := by
  have own : ∀ {s after : Cursor} {c x : Char} {next : Option Char} {counted : Bool},
      s.move c next = .one x counted after → x = c ∨ x = ' ' := by
    intro s after c x next counted moved
    have renders := s.move_renders c next
    rw [moved] at renders
    exact renders.symm.imp (·.1) (·.1)
  have blanks : ∀ t : Text, List.Forall₂ (fun x c => x = c ∨ x = ' ') (List.replicate t.length ' ') t := by
    intro t
    induction t with
    | nil => exact .nil
    | cons c t ih => exact .cons (.inr rfl) ih
  fun_induction render s tally line with
  | case1 => exact .nil
  | case2 s tally c shown counted next moved => exact .cons (own moved) .nil
  | case3 => exact .cons (.inr rfl) .nil
  | case4 => exact .cons (.inr rfl) .nil
  | case5 s tally c d rest shown counted next moved ih => exact .cons (own moved) ih
  | case6 s tally c d rest next moved ih => exact .cons (.inr rfl) (.cons (.inr rfl) ih)
  | case7 s tally c d rest moved => exact blanks (c :: d :: rest)

theorem render_shown (s : Cursor) (tally : Tally) (t : Text) : ∀ c ∈ (s.render tally t).code, c = ' ' ∨ c ∈ t := by
  have aligned := s.render_aligned tally t
  generalize (s.render tally t).code = code at aligned ⊢
  induction aligned with
  | nil => simp
  | cons shows _ ih =>
    intro c member
    rcases List.mem_cons.mp member with rfl | later
    · exact shows.symm.imp_right (by rintro rfl; exact List.mem_cons_self)
    · exact (ih c later).imp_right (List.mem_cons_of_mem _)

-- The rendering of a line is its own rendering, with the same counts. The induction is that of the
-- rendering.
theorem render_rendered (s : Cursor) (tally : Tally) (line : Text) : s.rendered.render tally (s.render tally line).code =
      ⟨(s.render tally line).code, (s.render tally line).cursor.rendered, (s.render tally line).tally⟩ := by
  fun_induction render s tally line with
  | case1 s tally => rfl
  | case2 s tally c shown counted next moved =>
    have renders := s.move_renders c none
    rw [moved] at renders
    rcases renders with ⟨rfl, rfl, stays⟩ | ⟨rfl, same, after, _⟩
    · rw [rendered_blank, stays]
      rfl
    · rw [same, after, render, moved]
  | case3 s tally c next moved =>
    have renders := s.move_renders c none
    rw [moved] at renders
    rw [rendered_blank, renders]
    rfl
  | case4 s tally c moved =>
    have renders := s.move_renders c none
    rw [moved] at renders
    rw [rendered_blank, renders]
    rfl
  | case5 s tally c d rest shown counted next moved ih =>
    have renders := s.move_renders c (some d)
    rw [moved] at renders
    rcases renders with ⟨rfl, rfl, stays⟩ | ⟨rfl, same, after, blanked⟩
    · rw [if_neg Bool.false_ne_true] at ih ⊢
      show s.rendered.render tally (' ' :: _) = _
      rw [rendered_blank, ← stays, ih]
      rfl
    · -- The next character may be blanked in the rendering, which makes no difference to this one.
      generalize later : next.render _ (d :: rest) = r at ih ⊢
      have aligned := next.render_aligned (if counted then tally.count shown else tally) (d :: rest)
      rw [later] at aligned
      obtain ⟨x, code, shows, _, head⟩ := List.forall₂_cons_right_iff.mp aligned
      have step : s.move shown (some x) = .one shown counted next := by
        rcases shows with rfl | rfl
        · exact moved
        · exact blanked
      have taken : s.render tally (shown :: r.code) =
          (next.render (if counted then tally.count shown else tally) r.code).lead shown := by
        rw [head, render, step]
      show s.rendered.render tally (shown :: r.code) = _
      rw [after] at ih
      rw [same, taken, ih]
      rfl
  | case6 s tally c d rest next moved ih =>
    have renders := s.move_renders c (some d)
    rw [moved] at renders
    show s.rendered.render tally (' ' :: ' ' :: _) = _
    rw [rendered_blank, rendered_blank, ← renders, ih]
    rfl
  | case7 s tally c d rest moved =>
    have renders := s.move_renders c (some d)
    rw [moved] at renders
    rw [rendered_blanks, renders]

end Cursor

def LineSummary.counts (s : LineSummary) : LineSummary := {s with text := [], startsInCode := true}

namespace Cursor

theorem feed_of_render {s : Cursor} {line : Text} {r : Rendering} (made : s.atLineStart.render {} line = r) :
    s.feed line = (LineSummary.ofTally line r.code r.tally s.atLineStart.inStructuralCode
      (r.cursor.atLineEnd.state == .template || !r.cursor.atLineEnd.expressions.isEmpty), r.cursor.atLineEnd) := by
  subst made
  rfl

theorem feed_rendered (s : Cursor) (line : Text) : (s.rendered.feed (s.feed line).1.code).1.counts = (s.feed line).1.counts ∧
      (s.rendered.feed (s.feed line).1.code).2 = (s.feed line).2.rendered := by
  have again := s.atLineStart.render_rendered {} line
  rw [← rendered_atLineStart] at again
  have code : (s.feed line).1.code = (s.atLineStart.render {} line).code := rfl
  rw [code, feed_of_render again, feed_of_render rfl, rendered_atLineEnd, rendered_inLiteral]
  exact ⟨rfl, rfl⟩

-- All lines, by induction on them.
theorem trace_rendered (s : Cursor) (lines : List Text) : ((Lexer.literal s.rendered).trace (s.codes lines)).map (·.1.counts) =
      ((Lexer.literal s).trace lines).map (·.1.counts) := by
  induction lines generalizing s with
  | nil => rfl
  | cons line rest ih =>
    obtain ⟨same, next⟩ := s.feed_rendered line
    simp only [codes, Lexer.trace, List.map_cons, Lexer.feed]
    rw [same, next, ih]

end Cursor

theorem summarize_rendered (lines : List Text) :
    (summarize .literalAware ((summarize .literalAware lines).map (·.code))).map (·.counts) =
      (summarize .literalAware lines).map (·.counts) := by
  rw [summarize_codes, summarize, summarize, List.map_map, List.map_map]
  exact Cursor.trace_rendered {} lines

@[simp] theorem nextCode_counts (rest : List LineSummary) : nextCode (rest.map (·.counts)) = nextCode rest := by
  have found : (rest.map (·.counts)).find? (!·.isBlankCode) = (rest.find? (!·.isBlankCode)).map (·.counts) := by
    rw [List.find?_map]
    rfl
  unfold nextCode
  rw [found]
  cases rest.find? (!·.isBlankCode) <;> rfl

@[simp] theorem read_counts (b : OpenBlock) (index : Nat) (line : LineSummary) (rest : List LineSummary) :
    b.read index line.counts (rest.map (·.counts)) = b.read index line rest := by
  have complete : statementComplete line.counts (rest.map (·.counts)) = statementComplete line rest := by
    unfold statementComplete
    rw [nextCode_counts]
    rfl
  unfold OpenBlock.read
  rw [complete]
  rfl

@[simp] theorem openBlock_counts (p : Patterns) (index : Nat) (line : LineSummary) (rest : List LineSummary) :
    openBlock p index line.counts (rest.map (·.counts)) = openBlock p index line rest := by
  unfold openBlock
  rw [nextCode_counts]
  rfl

@[simp] theorem extents_counts (p : Patterns) (current : Option OpenBlock) (index : Nat) (summaries : List LineSummary) :
    extents p current index (summaries.map (·.counts)) = extents p current index summaries := by
  induction summaries generalizing current index with
  | nil => rfl
  | cons line rest ih =>
    have step : ∀ b, extents p (some b) index ((line :: rest).map (·.counts)) = extents p (some b) index (line :: rest) := by
      intro b
      have same := read_counts b index line rest
      cases read : b.read index line rest with
      | inl next =>
        rw [read] at same
        rw [List.map_cons, extents_goesOn same, extents_goesOn read, ih]
      | inr e =>
        rw [read] at same
        rw [List.map_cons, extents_closes same, extents_closes read, ih]
    cases current with
    | some b => exact step b
    | none =>
      cases code : line.isBlankCode with
      | true =>
        have blank : line.counts.isBlankCode = true := code
        rw [List.map_cons, extents_blank blank, extents_blank code, ih]
      | false =>
        have shows : line.counts.isBlankCode = false := code
        rw [List.map_cons, extents_code shows, extents_code code, openBlock_counts]
        exact step _

def Block.outline (b : Block) : Block := {b with text := []}

def Scan.outline (s : Scan) : Scan := {s with blocks := s.blocks.map (·.outline)}

theorem outline_counts (e : Extent) (p : Patterns) (summaries : List LineSummary) :
    (e.toBlock p (summaries.map (·.counts))).outline = (e.toBlock p summaries).outline := by
  have codes : (linesBetween e.start e.stop (summaries.map (·.counts))).map (·.code) =
      (linesBetween e.start e.stop summaries).map (·.code) := by
    rw [linesBetween_map, linesBetween_map, List.map_map]
    rfl
  have kind : e.kind p (summaries.map (·.counts)) = e.kind p summaries := by
    unfold Extent.kind
    rw [codes]
  unfold Extent.toBlock Block.outline
  rw [kind]

theorem scan_outline_of_counts (p : Patterns) {mode : DelimiterMode} {a b : List Text}
    (same : (summarize mode a).map (·.counts) = (summarize mode b).map (·.counts)) :
    (scan p mode a).outline = (scan p mode b).outline := by
  have found : extents p none 0 (summarize mode a) = extents p none 0 (summarize mode b) := by
    rw [← extents_counts p none 0 (summarize mode a), same, extents_counts]
  have blocks : ∀ e : Extent, (e.toBlock p (summarize mode a)).outline = (e.toBlock p (summarize mode b)).outline := by
    intro e
    rw [← outline_counts, same, outline_counts]
  unfold Scan.outline scan
  simp only [found, List.map_map, Function.comp_def, blocks]

-- Literals and comments make no difference to a scan: it finds the same in the rendering, and so
-- the same in any two sources with one rendering.
theorem scan_ignores_literals (p : Patterns) (lines : List Text) :
    (scan p .literalAware ((summarize .literalAware lines).map (·.code))).outline =
      (scan p .literalAware lines).outline ∧ ∀ other, (summarize .literalAware other).map (·.code) =
        (summarize .literalAware lines).map (·.code) →
      (scan p .literalAware other).outline = (scan p .literalAware lines).outline := by
  have rendered : ∀ source : List Text, (scan p .literalAware ((summarize .literalAware source).map (·.code))).outline =
        (scan p .literalAware source).outline :=
    fun source => scan_outline_of_counts p (summarize_rendered source)
  refine ⟨rendered lines, ?_⟩
  intro other same
  rw [← rendered other, same, rendered lines]

def quotedLines : List Text :=
  ["const a = 'b\x7b'; // (".toList, "let t = `$\x7b (".toList, " \x7d`;".toList]

def requotedLines : List Text :=
  ["const a = '\\''; // ]".toList, "let t = `x/* ".toList, "\x7b)`;".toList]

theorem scan_ignores_literals_requoted : (summarize .literalAware requotedLines).map (·.code) =
      (summarize .literalAware quotedLines).map (·.code) ∧ (scan ⟨[], none, none, []⟩ .literalAware requotedLines).outline =
      (scan ⟨[], none, none, []⟩ .literalAware quotedLines).outline ∧
    (scan ⟨[], none, none, []⟩ .literalAware quotedLines).blocks.map (fun b => (b.start, b.stop)) = [(0, 1), (1, 3)] := by
  have same : (summarize .literalAware requotedLines).map (·.code) = (summarize .literalAware quotedLines).map (·.code) := by
    decide +kernel
  exact ⟨same, (scan_ignores_literals _ quotedLines).2 requotedLines same, by decide +kernel⟩

end ModuleSplit
