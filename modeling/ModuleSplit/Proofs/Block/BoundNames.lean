import ModuleSplit.Proofs.Block.Endings
import ModuleSplit.Proofs.Declaration.Binding
import ModuleSplit.Proofs.Plan.Context

namespace ModuleSplit.Binding

open List Text Phrase Declaration Option

structure Slot where
  before : Text
  core : Text
  after : Text
  bound : Option Text
  blank : isBlankText before = true ∧ isBlankText after = true
  entry : Entry core bound
  line : '\n' ∉ core

def Slot.text (s : Slot) : Text := s.before ++ (s.core ++ s.after)

def rowText (s : Slot) (rest : List Slot) : Text := s.text ++ rest.flatMap fun s => ',' :: s.text

def shownNames : List Slot → List Text
  | [] => []
  | s :: rest =>
    if '\n' ∈ s.before then []
    else s.bound.toList ++ if '\n' ∈ s.after then [] else shownNames rest

theorem rowText_cons (s next : Slot) (rest : List Slot) : rowText s (next :: rest) = s.text ++ ',' :: rowText next rest := by
  simp [rowText]

theorem cut_leads (t : Text) : (cut '\n' t).1 <+: t := by
  obtain ⟨tail, same, _⟩ := cut_tail '\n' t
  exact ⟨tail, same.symm⟩

theorem cut_cons {c : Char} (single : c ≠ '\n') (t : Text) : (cut '\n' (c :: t)).1 = c :: (cut '\n' t).1 := by
  rw [cut, if_neg single]

-- The induction is on the entries. A break in front of an entry leaves blanks on the line, and one
-- behind it leaves the entry.
theorem row_shown (s : Slot) (rest : List Slot) : Row (cut '\n' (rowText s rest)).1 (shownNames (s :: rest)) := by
  have blankCut {t : Text} (blank : isBlankText t) : isBlankText (cut '\n' t).1 :=
    isBlankText_of_subset blank (cut_leads t).subset
  induction rest generalizing s with
  | nil =>
    rw [rowText, flatMap_nil, append_nil, Slot.text, shownNames]
    split
    · rename_i broken
      rw [cut_inside broken]
      exact .last (.hole (blankCut s.blank.1))
    · rename_i whole
      rw [cut_append whole, cut_append s.line, shownNames, ite_self, append_nil]
      exact .last (s.entry.pad s.blank.1 (blankCut s.blank.2))
  | cons next rest ih =>
    rw [rowText_cons, Slot.text, append_assoc, append_assoc, shownNames]
    split
    · rename_i broken
      rw [cut_inside broken]
      exact .last (.hole (blankCut s.blank.1))
    rename_i whole
    rw [cut_append whole, cut_append s.line]
    split
    · rename_i broken
      rw [cut_inside broken, append_nil]
      exact .last (s.entry.pad s.blank.1 (blankCut s.blank.2))
    · rename_i unbroken
      have row := Row.more (s.entry.pad s.blank.1 s.blank.2) (ih next)
      rw [cut_append unbroken, cut_cons (by decide)]
      simpa using row

theorem shownNames_leading (slots : List Slot) : shownNames slots <+: slots.flatMap (·.bound.toList) := by
  induction slots with
  | nil => exact prefix_rfl
  | cons s rest ih =>
    rw [shownNames, flatMap_cons]
    split
    · exact nil_prefix
    · rw [prefix_append_right_inj]
      split
      · exact nil_prefix
      · exact ih

theorem shownNames_unbroken (s : Slot) (rest : List Slot) (unbroken : '\n' ∉ rowText s rest) :
    shownNames (s :: rest) = (s :: rest).flatMap (·.bound.toList) := by
  induction rest generalizing s with
  | nil =>
    simp only [rowText, Slot.text, mem_append, not_or] at unbroken
    simp [shownNames, unbroken]
  | cons next rest ih =>
    rw [rowText_cons, Slot.text] at unbroken
    simp only [mem_append, mem_cons, not_or] at unbroken
    rw [shownNames, ih next unbroken.2.2]
    simp [unbroken]

-- What a declarator binds: a name, or a flat pattern between its delimiters. The closing one is in
-- no entry.
inductive Target where
  | name (name : Text) (ident : isIdent name = true)
  | pattern (opener closer : Char) (first : Slot) (rest : List Slot)
      (pair : Delimiters opener closer) (closed : ∀ s ∈ first :: rest, closer ∉ s.core)

namespace Target

def text : Target → Text
  | .name n _ => n
  | .pattern opener closer first rest _ _ => opener :: (rowText first rest ++ [closer])

def bound : Target → List Text
  | .name n _ => [n]
  | .pattern _ _ first rest _ _ => (first :: rest).flatMap (·.bound.toList)

def shown : Target → List Text
  | .name n _ => [n]
  | .pattern _ _ first rest _ _ => shownNames (first :: rest)

def isPattern : Target → Bool
  | .name .. => false
  | .pattern .. => true

-- The line that a target begins on, without the blanks at its end; `behind` follows the target.
def line (target : Target) (behind : Text) : Text := trimRight (cut '\n' (target.text ++ behind)).1

theorem shown_leading (target : Target) : target.shown <+: target.bound := by
  cases target with
  | name => exact prefix_rfl
  | pattern => exact shownNames_leading _

theorem shown_unbroken {target : Target} (unbroken : '\n' ∉ target.text) : target.shown = target.bound := by
  cases target with
  | name => rfl
  | pattern opener closer first rest =>
    refine shownNames_unbroken first rest fun inside => unbroken ?_
    simp [text, inside]

variable {behind : Text}

theorem line_name {name : Text} (ident : isIdent name = true) :
    (Target.name name ident).line behind = name ++ trimRight (cut '\n' behind).1 := by
  rw [line, text, cut_append (not_mem_ident ident rfl)]
  exact trimRightBy_name isBlank_edge ident [] _

theorem closer_not_mem {closer : Char} {first : Slot} {rest : List Slot} (visible : isBlank closer = false) (other : closer ≠ ',')
    (closed : ∀ s ∈ first :: rest, closer ∉ s.core) : closer ∉ rowText first rest := by
  have inSlot : ∀ s ∈ first :: rest, closer ∉ s.text := by
    intro s member
    have left := not_mem_blank s.blank.1 visible
    have right := not_mem_blank s.blank.2 visible
    simp [Slot.text, left, right, closed s member]
  simp only [rowText, mem_append, mem_flatMap, mem_cons, not_or, not_exists, not_and]
  exact ⟨inSlot first mem_cons_self, fun s member => ⟨other, inSlot s (mem_cons_of_mem _ member)⟩⟩

def ReadsAs (line : Text) (exported : Bool) (names : List Text) : Prop :=
  ∃ form, bindingTarget? exported line = some form ∧
    ∀ code next p, (describeBinding code next p form).names = names

theorem read_name {name : Text} (ident : isIdent name = true) (follows : Follows behind)
    (line : '\n' ∉ behind) (exported : Bool) : ReadsAs (name ++ behind) exported [name] := by
  obtain ⟨form, read⟩ := bindingRest?_follows follows line exported name
  have same := bindingRest?_target read
  refine ⟨form, by rw [follows.ended.bindingTarget?_name ident, read], fun code next p => ?_⟩
  rw [(describeBinding_names code next p form).1 (by rw [same, ident]), same]

section Patterns

variable {opener closer : Char} {row : Text} {names : List Text}
  (pair : Delimiters opener closer) (read : Row row names) (inside : closer ∉ row)

include pair read inside

theorem read_whole (follows : Follows behind) (line : '\n' ∉ behind) (exported : Bool) :
    ReadsAs (opener :: (row ++ closer :: behind)) exported names := by
  obtain ⟨form, found, same⟩ := patternBinding?_whole exported opener inside follows line
  refine ⟨form, by rw [bindingTarget?_pattern pair, found], fun code next p => ?_⟩
  rw [(describeBinding_names code next p form).2 _ _ _ pair same, same]
  exact (Row.destructured pair read).2

theorem read_open (exported : Bool) : ReadsAs (opener :: row) exported names := by
  obtain ⟨form, found, same⟩ := patternBinding?_open exported opener inside
  refine ⟨form, by rw [bindingTarget?_pattern pair, found], fun code next p => ?_⟩
  rw [(describeBinding_names code next p form).2 _ _ _ pair same, same]
  exact (Row.destructured pair read).1

end Patterns

theorem text_cons (target : Target) : ∃ c x, target.text = c :: x ∧ isBlank c = false := by
  cases target with
  | name n ident =>
    obtain ⟨c, rest, rfl, start⟩ := isIdent_cons ident
    exact ⟨c, rest, rfl, isBlank_edge.ident c (isIdentChar_of_start start)⟩
  | pattern opener closer first rest pair => exact ⟨opener, _, rfl, pair.edges.2.2.1⟩

theorem visible_ne {c : Char} (visible : isBlank c = false) : c ≠ '\n' := by
  rintro rfl
  cases visible

theorem read (target : Target) (follows : Follows (cut '\n' behind).1) (exported : Bool) :
    namedBody? "enum" (target.line behind) = none ∧ ReadsAs (target.line behind) exported target.shown := by
  obtain ⟨blanks, trimmed⟩ := trimRight_append (cut '\n' behind).1
  have lead : trimRight (cut '\n' behind).1 <+: (cut '\n' behind).1 := ⟨blanks, trimmed.symm⟩
  have shorter := follows.of_leading lead
  have single : '\n' ∉ trimRight (cut '\n' behind).1 := fun inside => not_mem_cut _ _ (lead.subset inside)
  cases target with
  | name name ident =>
    rw [line_name ident]
    exact ⟨shorter.ended.namedBody?_enum ident, read_name ident shorter single exported⟩
  | pattern opener closer first rest pair closed =>
    obtain ⟨_, _, visible, closing, comma⟩ := pair.edges
    have inside := closer_not_mem closing comma closed
    have shown := row_shown first rest
    have opened : (Target.pattern opener closer first rest pair closed).line behind =
        opener :: trimRight (cut '\n' (rowText first rest ++ closer :: behind)).1 := by
      rw [line, text, cons_append, append_assoc, cut_cons (visible_ne visible)]
      exact trimRightBy_stop visible [] _
    rw [opened]
    refine ⟨by cases pair <;> rfl, ?_⟩
    by_cases broken : '\n' ∈ rowText first rest
    · rw [cut_inside broken]
      refine read_open pair (shown.trimRight isBlank_edge) (fun member => inside ?_) exported
      exact (cut_leads _).subset (trimRightBy_subset _ _ member)
    · rw [cut_none broken] at shown
      rw [cut_append broken, cut_cons (visible_ne closing), trimRight, trimRightBy_stop closing]
      exact read_whole pair shown inside shorter single exported

end Target

structure Declarator where
  before : Text
  target : Target
  gap : Text
  value : Option Text
  blank : isBlankText before = true ∧ isBlankText gap = true
  starts : ∀ v ∈ value, ∃ c rest, v = c :: rest ∧ c ≠ '=' ∧ c ≠ '>'
  given : target.isPattern = true → value.isSome = true

def Declarator.behind (d : Declarator) : Text := d.gap ++ (d.value.map ('=' :: ·)).getD []

def Declarator.text (d : Declarator) : Text := d.before ++ (d.target.text ++ d.behind)

inductive Margin : Text → Prop where
  | plain {indent : Text} (blank : isBlankText indent) : Margin indent
  | exported {indent gap : Text} (blank : isBlankText indent) (apart : isBlankText gap)
      (some : gap ≠ []) : Margin (indent ++ ("export".toList ++ gap))

-- A statement that binds names. Its first target begins on its first line.
structure Statement where
  margin : Text
  word : String
  first : Declarator
  others : List Declarator
  ending : Text
  leads : Margin margin
  binds : word ∈ bindingWords
  spaced : first.before ≠ []
  line : '\n' ∉ margin ++ first.before
  ends : isBlankText ending = true ∨ ∃ tail, isBlankText tail = true ∧ ending = ';' :: tail

namespace Statement

-- All that follows the first target.
def behind (s : Statement) : Text :=
  s.first.behind ++ ((s.others.flatMap fun d => ',' :: d.text) ++ s.ending)

def text (s : Statement) : Text :=
  s.margin ++ (s.word.toList ++ (s.first.before ++ (s.first.target.text ++ s.behind)))

def bound (s : Statement) : List Text := (s.first :: s.others).flatMap (·.target.bound)

def Hides (s : Statement) : Prop :=
  s.first.value = none ∧ s.others ≠ [] ∧ '\n' ∉ s.first.gap

instance (s : Statement) : Decidable s.Hides := inferInstanceAs (Decidable (_ ∧ _ ∧ _))

def shown (s : Statement) : List Text := if s.Hides then [] else s.first.target.shown

variable (s : Statement)

theorem behind_follows (clear : ¬s.Hides) : Follows (cut '\n' s.behind).1 := by
  have lead := cut_leads s.behind
  cases value : s.first.value with
  | some v =>
    obtain ⟨c, rest, rfl, starts⟩ := s.first.starts v value
    refine Follows.of_leading ?_ lead
    rw [behind, Declarator.behind, value, map_some, getD_some, append_assoc, cons_append]
    refine .value s.first.blank.2 ?_
    rintro d ⟨⟩
    exact starts
  | none =>
    have text : s.behind = s.first.gap ++ ((s.others.flatMap fun d => ',' :: d.text) ++ s.ending) := by
      rw [behind, Declarator.behind, value, map_none, getD_none, append_nil]
    by_cases broken : '\n' ∈ s.first.gap
    · rw [text, cut_inside broken]
      exact .blank (isBlankText_of_subset s.first.blank.2 (cut_leads _).subset)
    · have alone : s.others = [] := by
        by_contra more
        exact clear ⟨value, more, broken⟩
      refine Follows.of_leading ?_ lead
      rw [text, alone, flatMap_nil, nil_append]
      rcases s.ends with blank | ⟨tail, blank, same⟩
      · exact .blank (by rw [isBlankText_append, s.first.blank.2, blank]; rfl)
      · rw [same]
        exact .semicolon s.first.blank.2 blank

theorem behind_comma (hides : s.Hides) : ∃ x, trimRight (cut '\n' s.behind).1 = s.first.gap ++ ',' :: x := by
  obtain ⟨value, more, line⟩ := hides
  obtain ⟨d, others, same⟩ := exists_cons_of_ne_nil more
  have text : s.behind = s.first.gap ++ ',' :: (d.text ++ ((others.flatMap fun d => ',' :: d.text) ++ s.ending)) := by
    simp [behind, Declarator.behind, value, same]
  rw [text, cut_append line, cut_cons (by decide)]
  exact ⟨_, trimRightBy_stop rfl _ _⟩

theorem target_read (exported : Bool) : namedBody? "enum" (s.first.target.line s.behind) = none ∧
      (s.shown = [] ∧ bindingTarget? exported (s.first.target.line s.behind) = none ∨
        Target.ReadsAs (s.first.target.line s.behind) exported s.shown) := by
  by_cases hides : s.Hides
  · have shown : s.shown = [] := if_pos hides
    obtain ⟨x, comma⟩ := s.behind_comma hides
    cases target : s.first.target with
    | name name ident =>
      have ended := ended_mark s.first.blank.2 (c := ',') ⟨rfl, rfl⟩ x
      rw [Target.line_name ident, comma]
      refine ⟨ended.namedBody?_enum ident, .inl ⟨shown, ?_⟩⟩
      rw [ended.bindingTarget?_name ident, bindingRest?_comma s.first.blank.2]
    | pattern =>
      have given := s.first.given (by rw [target]; rfl)
      rw [hides.1] at given
      cases given
  · have shown : s.shown = s.first.target.shown := if_neg hides
    rw [shown]
    obtain ⟨enum, read⟩ := s.first.target.read (s.behind_follows hides) exported
    exact ⟨enum, .inr read⟩

def opening : Text := s.word.toList ++ (s.first.before ++ s.first.target.line s.behind)

theorem word_visible : '\n' ∉ s.word.toList ∧ ∃ w tail, s.word.toList = w :: tail ∧ isBlank w = false := by
  rcases bindingWords_cases s.binds with same | same | same <;> rw [same] <;> exact ⟨by decide, _, _, rfl, rfl⟩

theorem opening_read : spaced? s.word s.opening = some (s.first.target.line s.behind) := by
  obtain ⟨c, x, text, visible⟩ := s.first.target.text_cons
  have line : ∃ y, s.first.target.line s.behind = c :: y := by
    rw [Target.line, text, cons_append, cut_cons (Target.visible_ne visible)]
    exact trimRight_cons visible _
  obtain ⟨y, line⟩ := line
  obtain ⟨b, gap, before⟩ := exists_cons_of_ne_nil s.spaced
  have blank := s.first.blank.1
  rw [before, isBlankText, all_cons, Bool.and_eq_true] at blank
  rw [opening, before, line]
  exact spaced?_eq_some.mpr ⟨b, _, blank.1, rfl, (dropBlanks_mark blank.2 visible _).symm⟩

theorem trim_line {margin : Text} (leads : Margin margin) (tail : Text)
    (ends : ∀ lead, trimRight (lead ++ (s.word.toList ++ tail)) = lead ++ s.opening) :
    spaced? "export" (trim (margin ++ (s.word.toList ++ tail))) = some s.opening ∨
      trim (margin ++ (s.word.toList ++ tail)) = s.opening := by
  obtain ⟨_, w, word, same, visible⟩ := s.word_visible
  cases leads with
  | plain blank =>
    right
    have cleared := dropBlanks_mark blank visible (word ++ tail)
    rw [← cons_append, ← same] at cleared
    rw [trim, trimBy, ← dropBlanks, cleared]
    exact ends []
  | exported blank apart some =>
    rename_i indent gap
    left
    obtain ⟨g, gap, rfl⟩ := exists_cons_of_ne_nil some
    rw [isBlankText, all_cons, Bool.and_eq_true] at apart
    have cleared := dropBlanks_mark blank (c := 'e') rfl ("xport".toList ++ (g :: gap ++ (s.word.toList ++ tail)))
    have trimmed : trim (indent ++ ("export".toList ++ g :: gap) ++ (s.word.toList ++ tail)) =
        "export".toList ++ g :: gap ++ s.opening := by
      rw [trim, trimBy, ← dropBlanks, append_assoc, append_assoc]
      exact (congrArg trimRight cleared).trans (ends ("export".toList ++ g :: gap))
    rw [trimmed, append_assoc, opening, same, cons_append]
    exact spaced?_eq_some.mpr ⟨g, _, apart.1, rfl, (dropBlanks_mark apart.2 visible _).symm⟩

theorem describe_names (p : Patterns) (next : Text) : (describe p (trim (cut '\n' s.text).1) next).names = s.shown := by
  obtain ⟨c, x, text, visible⟩ := s.first.target.text_cons
  have line := s.line
  rw [mem_append, not_or] at line
  have first : (cut '\n' s.text).1 = s.margin ++ (s.word.toList ++
      (s.first.before ++ (cut '\n' (s.first.target.text ++ s.behind)).1)) := by
    rw [Statement.text, cut_append line.1, cut_append s.word_visible.1, cut_append line.2]
  -- The target is visible, so only its own line is trimmed.
  have opened := s.trim_line s.leads (s.first.before ++ (cut '\n' (s.first.target.text ++ s.behind)).1) (by
      intro lead
      have whole := trimRightBy_stop visible (lead ++ (s.word.toList ++ s.first.before)) (cut '\n' (x ++ s.behind)).1
      have own := trimRightBy_stop visible [] (cut '\n' (x ++ s.behind)).1
      rw [nil_append, nil_append] at own
      rw [opening, Target.line, text, cons_append, cut_cons (Target.visible_ne visible), trimRight, trimRight, own]
      simpa using whole)
  rw [first]
  obtain ⟨enum, hidden | ⟨form, found, names⟩⟩ := s.target_read _
  · rw [hidden.1]
    exact (describe_binding s.binds opened s.opening_read p next enum).2 hidden.2
  · rw [(describe_binding s.binds opened s.opening_read p next enum).1 form found, names]

theorem shown_leading : s.shown <+: s.bound := by
  rw [shown, bound, flatMap_cons]
  split
  · exact nil_prefix
  · exact s.first.target.shown_leading.trans (prefix_append _ _)

theorem shown_alone (alone : s.others = []) (unbroken : '\n' ∉ s.first.target.text) : s.shown = s.bound := by
  have clear : ¬s.Hides := fun hides => hides.2.1 alone
  rw [shown, if_neg clear, bound, alone, Target.shown_unbroken unbroken]
  simp

end Statement

theorem scannedCode_head (source : List Text) {b : Block} (extent : b.start < b.stop) :
    (scannedCode source b).head? = (summarize .literalAware source)[b.start]?.map (·.code) := by
  rw [scannedCode, head?_map, linesBetween, head?_take, if_neg (by omega), head?_drop]

theorem scan_bound_names (p : Patterns) (source : List Text) {b : Block}
    (member : b ∈ (scan p .literalAware source).blocks) (s : Statement) (code : scannedCode source b = lines s.text) :
    b.names = s.shown ∧ s.shown <+: s.bound ∧ (s.others = [] → '\n' ∉ s.first.target.text → b.names = s.bound) := by
  have names : b.names = s.shown := by
    obtain ⟨extent, _⟩ := scan_block_extent member
    have head := scannedCode_head source extent
    obtain ⟨rest, first⟩ := splitOn_cut '\n' s.text
    rw [code, lines, first, head?_cons] at head
    obtain ⟨e, found, rfl⟩ := mem_scan_blocks.mp member
    obtain ⟨_, declared, _⟩ := extents_end p .literalAware source e found
    have described : e.declaration.names = s.shown := by
      rw [declared, declarationAt, ← s.describe_names p]
      rw [show (summarize .literalAware source)[e.start]?.map (·.code) = _ from head.symm]
      rfl
    have filled : ∀ n ∈ e.declaration.names, (!n.isEmpty) = true := by
      intro n listed
      rw [declared, declarationAt] at listed
      simpa using (describe_isName p _ _ n listed).nonempty
    show e.declaration.names.filter (!·.isEmpty) = s.shown
    rw [filter_eq_self.mpr filled, described]
  exact ⟨names, s.shown_leading, fun alone unbroken => names.trans (s.shown_alone alone unbroken)⟩

def patternStatement (gap : Text) (blank : isBlankText gap = true) : Statement where
  margin := []
  word := "const"
  first :=
    { before := " ".toList
      target := .pattern '{' '}'
        ⟨gap, "a".toList, [], some "a".toList, ⟨blank, rfl⟩,
          @Entry.name [] "a".toList [] (@Lead.dots [] [] [] rfl (.inl rfl) rfl) rfl (.none rfl),
          by decide⟩
        [⟨gap, "b: renamed".toList, " ".toList, some "renamed".toList, ⟨blank, rfl⟩,
          @Entry.name "b: ".toList "renamed".toList []
            (@Lead.key "b".toList " ".toList (by decide) rfl) rfl (.none rfl),
          by decide⟩]
        .object (by simp)
      gap := " ".toList
      value := some " source".toList
      blank := ⟨rfl, rfl⟩
      starts := by simp
      given := fun _ => rfl }
  others := []
  ending := ";".toList
  leads := .plain rfl
  binds := by decide
  spaced := by simp
  line := by simp
  ends := .inr ⟨[], rfl, rfl⟩

theorem scan_bound_names_pattern : ∃ b ∈ (scan .bare .literalAware ["const \x7b a, b: renamed \x7d = source;".toList]).blocks,
      b.names = ["a".toList, "renamed".toList] := by
  have run : ∃ b ∈ (scan .bare .literalAware ["const \x7b a, b: renamed \x7d = source;".toList]).blocks,
      scannedCode ["const \x7b a, b: renamed \x7d = source;".toList] b = lines (patternStatement " ".toList rfl).text := by
    decide +kernel
  obtain ⟨b, member, code⟩ := run
  exact ⟨b, member, (scan_bound_names .bare _ member (patternStatement " ".toList rfl) code).2.2 rfl (by decide)⟩

-- The same pattern with each entry on a line of its own: no name is left.
theorem scan_broken_pattern_unnamed : ∃ b ∈ (scan .bare .literalAware
        ["const \x7b".toList, "  a,".toList, "  b: renamed \x7d = source;".toList]).blocks,
      scannedCode ["const \x7b".toList, "  a,".toList, "  b: renamed \x7d = source;".toList] b =
        lines (patternStatement "\n  ".toList rfl).text ∧ b.names = [] ∧
      (patternStatement "\n  ".toList rfl).bound = ["a".toList, "renamed".toList] := by
  decide +kernel

end ModuleSplit.Binding
