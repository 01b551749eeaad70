import ModuleSplit.Proofs.Delimiter.Context

namespace ModuleSplit

open List

def Text.blanked (t : Text) : Text := t.map fun c => if c = '\n' then '\n' else ' '

namespace Literal

inductive StringBody (quote : Char) : Text → Prop where
  | nil : StringBody quote []
  | escape {c : Char} {rest : Text} (line : c ≠ '\n') (further : StringBody quote rest) :
      StringBody quote ('\\' :: c :: rest)
  | plain {c : Char} {rest : Text} (escape : c ≠ '\\') (close : c ≠ quote) (line : c ≠ '\n')
      (further : StringBody quote rest) : StringBody quote (c :: rest)

def CommentBody (body : Text) : Prop := ¬['*', '/'] <:+: body

inductive Place where
  | template
  | expression

-- What stands between the quotes of a template literal, and between the braces of an expression in
-- it. Where two characters together would mean something else, the second is ruled out.
inductive Inside : Place → Text → Prop where
  | templateEnd : Inside .template []
  | escape {rest : Text} (c : Char) (further : Inside .template rest) :
      Inside .template ('\\' :: c :: rest)
  | plain {c : Char} {rest : Text} (escape : c ≠ '\\') (close : c ≠ '`')
      (alone : c = '$' → rest.head? ≠ some '\x7b') (further : Inside .template rest) :
      Inside .template (c :: rest)
  | substitution {inner rest : Text} (expression : Inside .expression inner)
      (further : Inside .template rest) :
      Inside .template ('$' :: '\x7b' :: inner ++ '\x7d' :: rest)
  | expressionEnd : Inside .expression []
  | code {c : Char} {rest : Text} (plain : c ∉ ['\'', '"', '`', '\x7b', '\x7d'])
      (alone : c = '/' → rest.head? ≠ some '/' ∧ rest.head? ≠ some '*')
      (further : Inside .expression rest) : Inside .expression (c :: rest)
  | braces {inner rest : Text} (expression : Inside .expression inner)
      (further : Inside .expression rest) :
      Inside .expression ('\x7b' :: inner ++ '\x7d' :: rest)
  | string {quote : Char} {body rest : Text} (quotes : quote = '\'' ∨ quote = '"')
      (string : StringBody quote body) (further : Inside .expression rest) :
      Inside .expression (quote :: body ++ quote :: rest)
  | comment {body rest : Text} (comment : CommentBody body) (further : Inside .expression rest) :
      Inside .expression ('/' :: '*' :: body ++ '*' :: '/' :: rest)
  | lineComment {body rest : Text} (line : '\n' ∉ body) (further : Inside .expression rest) :
      Inside .expression ('/' :: '/' :: body ++ '\n' :: rest)
  | template {inner rest : Text} (template : Inside .template inner)
      (further : Inside .expression rest) : Inside .expression ('`' :: inner ++ '`' :: rest)

end Literal

inductive Literal : Text → Text → Prop where
  | string {quote : Char} {body : Text} (quotes : quote = '\'' ∨ quote = '"')
      (string : Literal.StringBody quote body) :
      Literal (quote :: body ++ [quote]) (quote :: body.blanked ++ [quote])
  | comment {body : Text} (comment : Literal.CommentBody body) :
      Literal ('/' :: '*' :: body ++ ['*', '/']) (Text.blanked ('/' :: '*' :: body ++ ['*', '/']))
  | template {body : Text} (template : Literal.Inside .template body) :
      Literal ('`' :: body ++ ['`']) ('`' :: Text.blanked body ++ ['`'])

-- What is left to read of a text: the rendering and the count of each line, and the cursor at the
-- end. The first line may have begun earlier.
structure Passage where
  lines : List (Text × Tally)
  cursor : Cursor

namespace Passage

def lead (c : Char) (p : Passage) : Passage :=
  {p with lines := p.lines.modifyHead fun line => (c :: line.1, line.2)}

def below (line : Text × Tally) (p : Passage) : Passage := {p with lines := line :: p.lines}

-- `shown` stands in front and counts nothing. Every line has a count of its own.
def behind (shown : Text) (tally : Tally) (further : Tally → Passage) : Passage :=
  match shown with
  | [] => further tally
  | c :: shown =>
    if c = '\n' then (behind shown {} further).below ([], tally)
    else (behind shown tally further).lead c

@[simp] theorem behind_append (a b : Text) (tally : Tally) (further : Tally → Passage) :
    behind (a ++ b) tally further = behind a tally fun tally => behind b tally further := by
  induction a generalizing tally with
  | nil => rfl
  | cons c a ih => rw [List.cons_append, behind, behind, ih, ih]

theorem behind_line {shown : Text} (line : '\n' ∉ shown) (tally : Tally) (further : Tally → Passage) :
    behind (shown ++ ['\n']) tally further = (further {}).below (shown, tally) := by
  induction shown with
  | nil => rfl
  | cons c shown ih =>
    rw [List.mem_cons, not_or] at line
    rw [List.cons_append, behind, if_neg (Ne.symm line.1), ih line.2]
    rfl

end Passage

namespace Cursor

def passLines (s : Cursor) (tally : Tally) : List Text → Passage
  | [] => ⟨[], s⟩
  | [line] =>
    let r := s.render tally line
    ⟨[(r.code, r.tally)], r.cursor⟩
  | line :: next :: rest =>
    let r := s.render tally line
    (passLines r.cursor.atLineStart {} (next :: rest)).below (r.code, r.tally)

def pass (s : Cursor) (tally : Tally) (t : Text) : Passage := s.passLines tally (Text.lines t)

variable {s next last : Cursor} {tally : Tally} {c d shown : Char} {a b aShown bShown rest : Text}

theorem passLines_lead {line more : Text} (first : s.render tally line = (next.render tally more).lead shown) (rest : List Text) :
    s.passLines tally (line :: rest) = (next.passLines tally (more :: rest)).lead shown := by
  cases rest with
  | nil =>
    rw [passLines, passLines, first]
    rfl
  | cons second rest =>
    rw [passLines, passLines, first]
    rfl

def following : Text → Option Char
  | [] => none
  | c :: _ => if c = '\n' then none else some c

theorem lines_cons (line : c ≠ '\n') (t : Text) : ∃ first others, Text.lines t = first :: others ∧
      Text.lines (c :: t) = (c :: first) :: others ∧ first.head? = following t := by
  obtain ⟨others, cut⟩ := Text.splitOn_cut '\n' t
  refine ⟨_, others, cut, ?_, ?_⟩
  · rw [Text.lines, Text.splitOn, if_neg line, cut]
  · cases t with
    | nil => rfl
    | cons d t =>
      by_cases broken : d = '\n' <;> simp [Text.cut, following, broken]

theorem pass_newline (s : Cursor) (tally : Tally) (t : Text) :
    s.pass tally ('\n' :: t) = (s.atLineStart.pass {} t).below ([], tally) := by
  obtain ⟨others, cut⟩ := Text.splitOn_cut '\n' t
  have broken : Text.lines ('\n' :: t) = [] :: Text.lines t := by simp [Text.lines, Text.splitOn]
  rw [pass, pass, broken, Text.lines, cut]
  rfl

theorem pass_one (line : c ≠ '\n') (moved : s.move c (following rest) = .one shown false next) :
    s.pass tally (c :: rest) = (next.pass tally rest).lead shown := by
  obtain ⟨first, others, here, extended, head⟩ := lines_cons line rest
  rw [pass, pass, here, extended]
  apply passLines_lead
  rw [← head] at moved
  cases first with
  | nil =>
    rw [render, render, show s.move c none = _ from moved]
    rfl
  | cons d first =>
    rw [render, show s.move c (some d) = _ from moved]
    rfl

theorem pass_pair (line : c ≠ '\n') (later : d ≠ '\n') (moved : s.move c (some d) = .pair next) :
    s.pass tally (c :: d :: rest) = ((next.pass tally rest).lead ' ').lead ' ' := by
  obtain ⟨first, others, here, extended, _⟩ := lines_cons later rest
  obtain ⟨_, _, same, whole, _⟩ := lines_cons line (d :: rest)
  rw [extended] at same
  cases same
  have read : s.render tally (c :: d :: first) = ((next.render tally first).lead ' ').lead ' ' := by
    rw [render, moved]
  rw [pass, pass, here, whole]
  cases others with
  | nil =>
    rw [passLines, passLines, read]
    rfl
  | cons second others =>
    rw [passLines, passLines, read]
    rfl

theorem pass_broken (line : c ≠ '\n') (moved : s.move c none = .pair next) :
    s.pass tally (c :: '\n' :: rest) = (next.pass tally ('\n' :: rest)).lead ' ' := by
  obtain ⟨first, others, here, extended, head⟩ := lines_cons line ('\n' :: rest)
  have empty : first = [] := by simpa [following] using head
  subst empty
  rw [pass, pass, here, extended]
  apply passLines_lead
  rw [render, render, moved]
  rfl

-- From `s` to `next` over `a`, which shows `aShown` and counts nothing, in front of `rest`.
def Passes (s : Cursor) (a aShown : Text) (next : Cursor) (rest : Text) : Prop :=
  ∀ tally, s.pass tally (a ++ rest) = .behind aShown tally fun tally => next.pass tally rest

theorem Passes.nil (s : Cursor) (rest : Text) : s.Passes [] [] s rest := fun _ => rfl

theorem Passes.append (first : s.Passes a aShown next (b ++ rest))
    (second : next.Passes b bShown last rest) : s.Passes (a ++ b) (aShown ++ bShown) last rest := by
  intro tally
  rw [List.append_assoc, first, Passage.behind_append]
  exact congrArg _ (funext second)

theorem passes_newline (s : Cursor) (rest : Text) : s.Passes ['\n'] ['\n'] s.atLineStart rest :=
  fun tally => pass_newline s tally rest

theorem passes_one (line : c ≠ '\n') (visible : shown ≠ '\n')
    (moved : s.move c (following rest) = .one shown false next) : s.Passes [c] [shown] next rest := by
  intro tally
  rw [Passage.behind, if_neg visible]
  exact pass_one line moved

theorem following_ne {last : Char} (absent : a.head? ≠ some c) (other : last ≠ c) (rest : Text) :
    following (a ++ last :: rest) ≠ some c := by
  cases a with
  | nil =>
    rw [List.nil_append, following]
    split
    · simp
    · simpa using other
  | cons d a =>
    rw [List.cons_append, following]
    split
    · simp
    · simpa using absent

-- From `s` to `next` over `a`, of which only blanks are shown.
def Blanks (s : Cursor) (a : Text) (next : Cursor) (rest : Text) : Prop :=
  s.Passes a a.blanked next rest

theorem Blanks.nil (s : Cursor) (rest : Text) : s.Blanks [] s rest := Passes.nil s rest

theorem Blanks.append (first : s.Blanks a next (b ++ rest)) (second : next.Blanks b last rest) : s.Blanks (a ++ b) last rest := by
  have both := Passes.append first second
  rwa [Text.blanked, Text.blanked, ← List.map_append] at both

theorem Blanks.cons (first : s.Blanks [c] next (a ++ rest)) (second : next.Blanks a last rest) : s.Blanks (c :: a) last rest :=
  first.append second

theorem blanks_skipped (resumed : s.atLineStart = s)
    (skipped : c ≠ '\n' → s.move c (following rest) = s.skip) : s.Blanks [c] s rest := by
  by_cases line : c = '\n'
  · subst line
    have broken := passes_newline s rest
    rwa [resumed] at broken
  · have one := passes_one line (by decide) (skipped line)
    simpa [Blanks, Text.blanked, line] using one

theorem blanks_one (line : c ≠ '\n') (moved : s.move c (following rest) = .one ' ' false next) : s.Blanks [c] next rest := by
  simpa [Blanks, Text.blanked, line] using passes_one line (by decide) moved

theorem blanks_pair (line : c ≠ '\n') (later : d ≠ '\n') (moved : s.move c (some d) = .pair next) :
    s.Blanks [c, d] next rest := by
  have blank : Text.blanked [c, d] = [' ', ' '] := by simp [Text.blanked, line, later]
  rw [Blanks, blank]
  exact fun tally => pass_pair line later moved

theorem blanks_escape (resumed : next.atLineStart = next) (line : c ≠ '\n')
    (moved : ∀ following, s.move c following = .pair next) : s.Blanks [c, d] next rest := by
  by_cases later : d = '\n'
  · subst later
    have blank : Text.blanked [c, '\n'] = [' ', '\n'] := by simp [Text.blanked, line]
    rw [Blanks, blank]
    intro tally
    have broken : s.pass tally (c :: '\n' :: rest) = _ := pass_broken line (moved none)
    rw [pass_newline, resumed] at broken
    exact broken
  · exact blanks_pair line later (moved _)

end Cursor

namespace Literal

open Cursor Text

variable {s : Cursor} {quote : Char} {body inner rest : Text}

theorem StringBody.blanks (string : StringBody quote body)
    (quoting : ∀ c next, s.move c next = s.moveQuoted quote c) : s.Blanks body s rest := by
  induction string with
  | nil => exact .nil s rest
  | @escape c more line further ih =>
    exact (blanks_pair (by decide) line (by rw [quoting]; rfl)).append ih
  | @plain c more escape close line further ih =>
    refine .cons (blanks_one line ?_) ih
    rw [quoting, moveQuoted, if_neg escape, if_neg close]
    rfl

theorem StringBody.passes (string : StringBody quote body)
    (quotes : quote = '\'' ∨ quote = '"') (outer : List Int) (rest : Text) : Passes ⟨.code, outer⟩ (quote :: body ++ [quote])
      (shown ⟨.code, outer⟩ quote :: body.blanked ++ [shown ⟨.code, outer⟩ quote]) ⟨.code, outer⟩ rest := by
  have visible : shown ⟨.code, outer⟩ quote ≠ '\n' := by
    unfold shown
    rcases quotes with rfl | rfl <;> split <;> decide
  have line : quote ≠ '\n' := by rcases quotes with rfl | rfl <;> decide
  have escape : quote ≠ '\\' := by rcases quotes with rfl | rfl <;> decide
  -- `state` is the one between the quotes.
  obtain ⟨state, opens, quoting⟩ : ∃ state, (∀ next, (⟨.code, outer⟩ : Cursor).move quote next =
        .one (shown ⟨.code, outer⟩ quote) false ⟨state, outer⟩) ∧
      ∀ c next, (⟨state, outer⟩ : Cursor).move c next = (⟨state, outer⟩ : Cursor).moveQuoted quote c := by
    rcases quotes with rfl | rfl
    · exact ⟨.singleQuote, fun _ => rfl, fun _ _ => rfl⟩
    · exact ⟨.doubleQuote, fun _ => rfl, fun _ _ => rfl⟩
  have opening : Passes ⟨.code, outer⟩ [quote] [shown ⟨.code, outer⟩ quote] ⟨state, outer⟩
      (body ++ [quote] ++ rest) := passes_one line visible (opens _)
  have closing : Passes ⟨state, outer⟩ [quote] [shown ⟨.code, outer⟩ quote] ⟨.code, outer⟩ rest := by
    refine passes_one line visible ?_
    rw [quoting, moveQuoted, if_neg escape, if_pos rfl]
    rfl
  exact opening.append (Passes.append (string.blanks quoting) closing)

theorem CommentBody.blanks_inside (comment : CommentBody body) (outer : List Int) (rest : Text) :
    Blanks ⟨.blockComment, outer⟩ body ⟨.blockComment, outer⟩ ('*' :: '/' :: rest) := by
  induction body with
  | nil => exact .nil _ _
  | cons c body ih =>
    have further := ih fun inside => comment (inside.trans (suffix_cons c body).isInfix)
    refine .cons (blanks_skipped rfl fun _ => if_neg ?_) further
    rintro ⟨rfl, next⟩
    refine following_ne (c := '/') ?_ (by decide) _ next
    intro head
    cases body with
    | nil => cases head
    | cons d body =>
      cases head
      exact comment ⟨[], body, rfl⟩

theorem CommentBody.blanks (comment : CommentBody body) (outer : List Int) (rest : Text) :
    Blanks ⟨.code, outer⟩ ('/' :: '*' :: body ++ ['*', '/']) ⟨.code, outer⟩ rest := by
  have opening : Blanks ⟨.code, outer⟩ ['/', '*'] ⟨.blockComment, outer⟩
      (body ++ ['*', '/'] ++ rest) := blanks_pair (by decide) (by decide) rfl
  have closing : Blanks ⟨.blockComment, outer⟩ ['*', '/'] ⟨.code, outer⟩ rest := blanks_pair (by decide) (by decide) rfl
  exact opening.append ((comment.blanks_inside outer rest).append closing)

theorem lineComment_blanks (line : '\n' ∉ body) (outer : List Int) (rest : Text) :
    Blanks ⟨.code, outer⟩ ('/' :: '/' :: body ++ ['\n']) ⟨.code, outer⟩ rest := by
  have whole : '\n' ∉ '/' :: '/' :: body := by simpa using line
  have blank : blanked ('/' :: '/' :: body ++ ['\n']) = List.replicate (body.length + 2) ' ' ++ ['\n'] := by
    rw [blanked, map_append, map_eq_replicate_iff.mpr]
    · rfl
    · intro c inside
      refine if_neg ?_
      rintro rfl
      exact whole inside
  obtain ⟨others, cut⟩ := splitOn_cut '\n' rest
  intro tally
  rw [blank, Passage.behind_line (by simp [mem_replicate]), Cursor.pass, Cursor.pass, append_assoc,
    singleton_append, lines_append, lines, Text.splitOn_eq_singleton whole, lines, cut]
  rfl

def Place.Blanked : Place → Text → Prop
  | .template, l => ∀ outer rest,
    Blanks ⟨.template, outer⟩ l ⟨.template, outer⟩ ('`' :: rest)
  | .expression, l => ∀ depth, 0 ≤ depth → ∀ outer rest,
    Blanks ⟨.code, depth :: outer⟩ l ⟨.code, depth :: outer⟩ ('\x7d' :: rest)

-- Around an expression the stack grows by its brace counter; around braces the counter grows.
theorem substitution_blanked (expression : Place.Blanked .expression inner) (outer : List Int) (rest : Text) :
    Blanks ⟨.template, outer⟩ ('$' :: '\x7b' :: inner ++ ['\x7d']) ⟨.template, outer⟩ rest := by
  have opening : Blanks ⟨.template, outer⟩ ['$', '\x7b'] ⟨.code, 0 :: outer⟩
      (inner ++ ['\x7d'] ++ rest) := blanks_pair (by decide) (by decide) rfl
  have closing : Blanks ⟨.code, 0 :: outer⟩ ['\x7d'] ⟨.template, outer⟩ rest := blanks_one (by decide) rfl
  have middle := expression 0 (Int.le_refl 0) outer rest
  exact opening.append (middle.append closing)

theorem braces_blanked (expression : Place.Blanked .expression inner) {depth : Int}
    (level : 0 ≤ depth) (outer : List Int) (rest : Text) :
    Blanks ⟨.code, depth :: outer⟩ ('\x7b' :: inner ++ ['\x7d']) ⟨.code, depth :: outer⟩ rest := by
  have opening : Blanks ⟨.code, depth :: outer⟩ ['\x7b'] ⟨.code, (depth + 1) :: outer⟩
      (inner ++ ['\x7d'] ++ rest) := blanks_one (by decide) rfl
  have closing : Blanks ⟨.code, (depth + 1) :: outer⟩ ['\x7d'] ⟨.code, depth :: outer⟩ rest := by
    refine blanks_one (by decide) ?_
    show moveExpression _ (depth + 1) outer '\x7d' = _
    simp [moveExpression, show depth + 1 ≠ 0 by omega]
  have middle := expression (depth + 1) (by omega) outer rest
  exact opening.append (middle.append closing)

theorem template_passes (template : Place.Blanked .template inner) (outer : List Int)
    (rest : Text) : Passes ⟨.code, outer⟩ ('`' :: inner ++ ['`'])
      (shown ⟨.code, outer⟩ '`' :: inner.blanked ++ [shown ⟨.code, outer⟩ '`']) ⟨.code, outer⟩ rest := by
  have visible : shown ⟨.code, outer⟩ '`' ≠ '\n' := by
    unfold shown
    split <;> decide
  have opening : Passes ⟨.code, outer⟩ ['`'] [shown ⟨.code, outer⟩ '`'] ⟨.template, outer⟩
      (inner ++ ['`'] ++ rest) := passes_one (by decide) visible rfl
  have closing : Passes ⟨.template, outer⟩ ['`'] [shown ⟨.code, outer⟩ '`'] ⟨.code, outer⟩ rest :=
    passes_one (by decide) visible rfl
  have middle := template outer rest
  exact opening.append (Passes.append middle closing)

theorem blanks_of_passes {l : Text} {depth : Int} {outer : List Int} (line : quote ≠ '\n')
    (passes : Passes ⟨.code, depth :: outer⟩ (quote :: l ++ [quote])
      (shown ⟨.code, depth :: outer⟩ quote :: l.blanked ++ [shown ⟨.code, depth :: outer⟩ quote]) ⟨.code, depth :: outer⟩ rest) :
    Blanks ⟨.code, depth :: outer⟩ (quote :: l ++ [quote]) ⟨.code, depth :: outer⟩ rest := by
  simpa [Blanks, blanked, shown, line] using passes

theorem part_blanked {part : Text} (first : ∀ depth, 0 ≤ depth → ∀ outer rest,
      Blanks ⟨.code, depth :: outer⟩ part ⟨.code, depth :: outer⟩ rest)
    (further : Place.Blanked .expression rest) : Place.Blanked .expression (part ++ rest) :=
  fun depth level outer more => (first depth level outer _).append (further depth level outer more)

theorem Inside.blanked {place : Place} {l : Text} (inside : Inside place l) : place.Blanked l := by
  induction inside with
  | templateEnd => exact fun _ _ => .nil _ _
  | escape c _ further =>
    intro outer rest
    exact (blanks_escape rfl (by decide) fun _ => rfl).append (further outer rest)
  | plain escape close alone _ further =>
    intro outer rest
    refine .cons (blanks_skipped rfl fun _ => ?_) (further outer rest)
    show moveTemplate _ _ _ = _
    rw [moveTemplate, if_neg escape, if_neg close, if_neg]
    rintro ⟨rfl, next⟩
    exact following_ne (alone rfl) (by decide) _ next
  | substitution _ _ expression further =>
    intro outer rest
    have whole := (substitution_blanked expression outer _).append (further outer rest)
    rwa [append_assoc] at whole
  | expressionEnd => exact fun _ _ _ _ => .nil _ _
  | @code c rest plain alone _ further =>
    intro depth level outer more
    refine .cons (blanks_skipped rfl fun _ => ?_) (further depth level outer more)
    have slash : ∀ d, d = '/' ∨ d = '*' → ¬(c = '/' ∧ following (rest ++ '\x7d' :: more) = some d) := by
      rintro d marks ⟨rfl, next⟩
      rcases marks with rfl | rfl
      · exact following_ne (alone rfl).1 (by decide) _ next
      · exact following_ne (alone rfl).2 (by decide) _ next
    simp only [mem_cons, not_mem_nil, or_false, not_or] at plain
    show moveCode _ _ _ = _
    rw [moveCode, if_neg (slash _ (.inl rfl)), if_neg (slash _ (.inr rfl)), if_neg plain.1, if_neg plain.2.1, if_neg plain.2.2.1]
    exact (if_neg plain.2.2.2.1).trans (if_neg plain.2.2.2.2)
  | @braces inner rest _ _ expression further =>
    have whole := part_blanked (fun _ => braces_blanked expression) further
    rwa [append_assoc] at whole
  | @string quote body rest quotes string _ further =>
    have line : quote ≠ '\n' := by rcases quotes with rfl | rfl <;> decide
    have whole := part_blanked (fun depth _ outer more =>
      blanks_of_passes line (string.passes quotes (depth :: outer) more)) further
    rwa [append_assoc] at whole
  | comment comment _ further =>
    have whole := part_blanked (fun depth _ outer => comment.blanks (depth :: outer)) further
    rwa [append_assoc] at whole
  | lineComment line _ further =>
    have whole := part_blanked (fun depth _ outer => lineComment_blanks line (depth :: outer)) further
    rwa [append_assoc] at whole
  | template _ _ template further =>
    have whole := part_blanked (fun depth _ outer more =>
      blanks_of_passes (by decide) (template_passes template (depth :: outer) more)) further
    rwa [append_assoc] at whole

end Literal

theorem Literal.passes {l shown : Text} (literal : Literal l shown) (rest : Text) : Cursor.Passes {} l shown {} rest := by
  cases literal with
  | string quotes string => exact string.passes quotes [] rest
  | comment comment => exact comment.blanks [] rest
  | template template => exact template_passes template.blanked [] rest

def LineSummary.tally (s : LineSummary) : Tally :=
  ⟨s.braceDelta, s.bracketDelta, s.minDepth, s.openedBrace, s.hasTerminator⟩

namespace Cursor

theorem trace_passLines (s : Cursor) (ls : List Text) :
    ((Lexer.literal s).trace ls).map (fun read => (read.1.code, read.1.tally)) = (s.atLineStart.passLines {} ls).lines := by
  induction ls generalizing s with
  | nil => rfl
  | cons line rest ih =>
    have later := ih (s.feed line).2
    have resumed : (s.feed line).2.atLineStart = (s.atLineStart.render {} line).cursor.atLineStart := atLineStart_atLineEnd _
    rw [resumed] at later
    cases rest with
    | nil => rfl
    | cons next rest =>
      rw [Lexer.trace, map_cons]
      exact congrArg _ later

theorem after_passLines (s : Cursor) {ls : List Text} (some : ls ≠ []) :
    s.after ls = (s.atLineStart.passLines {} ls).cursor.atLineEnd := by
  induction ls generalizing s with
  | nil => exact absurd rfl some
  | cons line rest ih =>
    cases rest with
    | nil => rfl
    | cons next rest =>
      have later := ih (s.feed line).2 (by simp)
      have resumed : (s.feed line).2.atLineStart = (s.atLineStart.render {} line).cursor.atLineStart := atLineStart_atLineEnd _
      rw [resumed] at later
      exact later

end Cursor

theorem Passage.behind_start (shown : Text) (s : Cursor) : behind shown {} (fun tally => ⟨[([], tally)], s⟩) =
      ⟨(Text.lines shown).map fun line => (line, {}), s⟩ := by
  induction shown with
  | nil => rfl
  | cons c shown ih =>
    rw [behind, ih]
    split
    · rename_i line
      rw [line, show Text.lines ('\n' :: shown) = [] :: Text.lines shown from rfl]
      rfl
    · rename_i line
      obtain ⟨first, others, here, extended, _⟩ := Cursor.lines_cons line shown
      rw [here, extended]
      rfl

theorem Literal.summarized {l shown : Text} (literal : Literal l shown) :
    (summarize .literalAware (Text.lines l)).map (fun s => (s.code, s.tally)) =
        (Text.lines shown).map (fun line => (line, {})) ∧ Cursor.after {} (Text.lines l) = {} := by
  have read := literal.passes [] {}
  rw [append_nil] at read
  have whole : Cursor.pass {} {} l = ⟨(Text.lines shown).map fun line => (line, {}), {}⟩ :=
    read.trans (Passage.behind_start shown {})
  have some : Text.lines l ≠ [] := by
    obtain ⟨others, cut⟩ := Text.splitOn_cut '\n' l
    rw [Text.lines, cut]
    simp
  constructor
  · rw [summarize, map_map]
    exact (Cursor.trace_passLines {} (Text.lines l)).trans (congrArg Passage.lines whole)
  · exact (Cursor.after_passLines {} some).trans (congrArg (·.cursor.atLineEnd) whole)

-- Fed by itself, a literal counts nothing on any of its lines, shows its quotes only and ends in
-- plain code. Amid other text the same holds of its part of the first and of the last line,
-- whatever has been counted before it and whatever stands behind it.
theorem Literal.read_through {l shown : Text} (literal : Literal l shown) : (∀ s ∈ summarize .literalAware (Text.lines l),
      s.braceDelta = 0 ∧ s.bracketDelta = 0 ∧ s.minDepth = 0 ∧ s.hasTerminator = false) ∧
    codeText .literalAware l = shown ∧ Cursor.after {} (Text.lines l) = {} ∧
    ∀ tally rest, Cursor.pass {} tally (l ++ rest) = .behind shown tally fun tally => Cursor.pass {} tally rest := by
  obtain ⟨lines, ending⟩ := literal.summarized
  refine ⟨?_, ?_, ending, fun tally rest => literal.passes rest tally⟩
  · intro s member
    have listed := mem_map_of_mem (f := fun s : LineSummary => (s.code, s.tally)) member
    rw [lines] at listed
    obtain ⟨_, _, same⟩ := mem_map.mp listed
    have none : s.tally = {} := (Prod.mk.inj same).2.symm
    exact ⟨congrArg Tally.braces none, congrArg Tally.brackets none, congrArg Tally.low none, congrArg Tally.terminated none⟩
  · have codes := congrArg (List.map Prod.fst) lines
    rw [map_map, map_map] at codes
    have same : (summarize .literalAware (Text.lines l)).map (·.code) = Text.lines shown := codes.trans (map_id _)
    rw [codeText, same, Text.unlines_lines]

-- An expression over three lines with a template of its own, a string and both kinds of comments.
theorem Literal.read_through_nested :
    codeText .literalAware "`$\x7bf(\x7b// \x7d\n`$\x7b'\x7d'\x7d\\``\x7d)/*\x7d*/\x7d`".toList =
        "`         \n                  `".toList ∧ Cursor.after {} (Text.lines
        "`$\x7bf(\x7b// \x7d\n`$\x7b'\x7d'\x7d\\``\x7d)/*\x7d*/\x7d`".toList) = {} := by
  have inner : Inside .template "$\x7b'\x7d'\x7d\\`".toList := .substitution
      (.string (.inl rfl) (.plain (by decide) (by decide) (by decide) .nil) .expressionEnd)
      (.escape '`' .templateEnd)
  have braced : Inside .expression "// \x7d\n`$\x7b'\x7d'\x7d\\``".toList :=
    @Inside.lineComment [' ', '\x7d'] _ (by decide) (.template inner .expressionEnd)
  have commented : Inside .expression ")/*\x7d*/".toList := .code (by decide) (by decide)
      (@Inside.comment ['\x7d'] _ (by unfold CommentBody; decide) .expressionEnd)
  have literal : Literal "`$\x7bf(\x7b// \x7d\n`$\x7b'\x7d'\x7d\\``\x7d)/*\x7d*/\x7d`".toList
      "`         \n                  `".toList :=
    .template (.substitution (.code (by decide) (by decide) (.code (by decide) (by decide)
      (.braces braced commented))) .templateEnd)
  exact ⟨literal.read_through.2.1, literal.read_through.2.2.1⟩

end ModuleSplit
