import ModuleSplit.Proofs.Declaration.FlatPattern

namespace ModuleSplit.Declaration

open List Text Phrase

variable {t gap u : Text}

def bindingWords : List String := ["const", "let", "var"]

def otherWords : List String :=
  ["import", "export", "*", "type", "\x7b", "default", "declare", "interface", "enum", "namespace",
    "module", "async", "function", "abstract", "class"]

theorem bindingWords_cases {word : String} (binds : word ∈ bindingWords) : word = "const" ∨ word = "let" ∨ word = "var" := by
  simpa [bindingWords] using binds

theorem other_not_read {word : String} (binds : word ∈ bindingWords) (rest : Text) (other : String)
    (listed : other ∈ otherWords) : spaced? other (word.toList ++ rest) = none ∧ keyword? other (word.toList ++ rest) = none ∧
      skipSpaced other (word.toList ++ rest) = word.toList ++ rest ∧ startsWith (word.toList ++ rest) other = false := by
  have clash : ∀ word ∈ bindingWords, ∀ other ∈ otherWords,
      ¬other.toList <+: word.toList ∧ ¬word.toList <+: other.toList := by decide
  obtain ⟨longer, shorter⟩ := clash word binds other listed
  have differ : ¬other.toList <+: word.toList ++ rest := by
    intro lead
    rcases prefix_or_prefix_of_prefix lead (prefix_append word.toList rest) with
      short | long
    · exact longer short
    · exact shorter long
  have unread : dropLead? other (word.toList ++ rest) = none := by
    rw [Option.eq_none_iff_forall_ne_some]
    exact fun tail found => differ ⟨tail, (dropLead?_eq_some.mp found).symm⟩
  refine ⟨by rw [spaced?, unread]; rfl, by rw [keyword?, unread]; rfl, by rw [skipSpaced, spaced?, unread]; rfl, ?_⟩
  rw [startsWith, ← Bool.not_eq_true, isPrefixOf_iff_prefix]
  exact differ

section Opening

variable {word : String} {code rest : Text} (binds : word ∈ bindingWords)
  (opened : spaced? "export" code = some (word.toList ++ rest) ∨ code = word.toList ++ rest)

include binds opened

theorem skipSpaced_export : skipSpaced "export" code = word.toList ++ rest := by
  rcases opened with exported | rfl
  · rw [skipSpaced, exported]
    rfl
  · exact (other_not_read binds _ _ (by decide)).2.2.1

theorem afterModifiers_binding : afterModifiers code = word.toList ++ rest := by
  have other := other_not_read binds rest
  rw [afterModifiers, skipSpaced_export binds opened, (other "default" (by decide)).2.2.1, (other "declare" (by decide)).2.2.1]

theorem other_forms : isImportStart code = false ∧ isExportList code = false ∧ isDeclareBlock code = false ∧
      functionForm? code = none ∧ classForm? code = none ∧ exportDefaultRest? code = none := by
  have other := other_not_read binds rest
  have modified := afterModifiers_binding binds opened
  have import_ : keyword? "import" code = none := by
    rcases opened with exported | rfl
    · obtain ⟨c, tail, _, rfl, _⟩ := spaced?_eq_some.mp exported
      rfl
    · exact (other _ (by decide)).2.1
  have exports : spaced? "export" code = some (word.toList ++ rest) ∨ spaced? "export" code = none := by
    rcases opened with exported | rfl
    · exact .inl exported
    · exact .inr (other _ (by decide)).1
  refine ⟨?_, ?_, ?_, ?_, ?_, ?_⟩
  · rcases exports with exported | plain
    · simp [isImportStart, import_, exported, other "*" (by decide)]
    · simp [isImportStart, import_, plain]
  · rcases exports with exported | plain
    · simp [isExportList, exported, other "type" (by decide), other "\x7b" (by decide)]
    · simp [isExportList, plain]
  · simp [isDeclareBlock, skipSpaced_export binds opened, other "declare" (by decide)]
  · simp [functionForm?, modified, other "async" (by decide), other "function" (by decide)]
  · simp [classForm?, modified, other "abstract" (by decide), other "class" (by decide)]
  · rcases exports with exported | plain
    · simp [exportDefaultRest?, exported, other "default" (by decide)]
    · simp [exportDefaultRest?, plain]

variable {target : Text} (read : spaced? word (word.toList ++ rest) = some target)

include read

theorem typeForm?_binding (plain : namedBody? "enum" target = none) : typeForm? code = none := by
  have other := other_not_read binds rest
  have enum : namedBody? "enum" (skipSpaced "const" (word.toList ++ rest)) = none := by
    have own : namedBody? "enum" (word.toList ++ rest) = none := by
      simp [namedBody?, other "enum" (by decide)]
    rcases bindingWords_cases binds with rfl | rfl | rfl
    · rwa [skipSpaced, read]
    · exact own
    · exact own
  simp only [typeForm?, afterModifiers_binding binds opened, enum]
  simp [namedBody?, typeAlias?, module?, other "interface" (by decide), other "type" (by decide),
    other "namespace" (by decide), other "module" (by decide)]

theorem bindingForm?_binding : bindingForm? code = bindingTarget? (spaced? "export" code).isSome target := by
  have found : (spaced? "const" (word.toList ++ rest) <|> spaced? "let" (word.toList ++ rest) <|>
      spaced? "var" (word.toList ++ rest)) = some target := by
    rcases bindingWords_cases binds with rfl | rfl | rfl <;> rw [read] <;> rfl
  unfold bindingForm?
  rw [skipSpaced_export binds opened, (other_not_read binds _ "declare" (by decide)).2.2.1]
  dsimp only
  rw [found]
  rfl

theorem describe_binding (p : Patterns) (next : Text) (plain : namedBody? "enum" target = none) :
    (∀ form, bindingTarget? (spaced? "export" code).isSome target = some form →
      describe p code next = describeBinding code next p form) ∧
    (bindingTarget? (spaced? "export" code).isSome target = none → (describe p code next).names = []) := by
  obtain ⟨import_, list, block, function, class_, default⟩ := other_forms binds opened
  have type := typeForm?_binding binds opened read plain
  have form := bindingForm?_binding binds opened read
  constructor
  · intro bound found
    simp [describe, import_, list, type, block, form, found]
  · intro none
    simp [describe, import_, list, type, block, form, none, function, class_, default]

end Opening

inductive Follows : Text → Prop where
  | blank {t : Text} (blank : isBlankText t) : Follows t
  | semicolon {gap tail : Text} (blank : isBlankText gap) (ends : isBlankText tail) :
      Follows (gap ++ ';' :: tail)
  | value {gap value : Text} (blank : isBlankText gap)
      (starts : ∀ c ∈ value.head?, c ≠ '=' ∧ c ≠ '>') : Follows (gap ++ '=' :: value)

theorem prefix_append_cons {x : Text} {c : Char} (lead : u <+: gap ++ c :: x) : u <+: gap ∨ ∃ v, v <+: x ∧ u = gap ++ c :: v := by
  rcases prefix_or_prefix_of_prefix lead (prefix_append gap _) with short | ⟨v, rfl⟩
  · exact .inl short
  · have inside := (prefix_append_right_inj gap).mp lead
    rcases prefix_cons_iff.mp inside with rfl | ⟨w, rfl, within⟩
    · exact .inl (by simp)
    · exact .inr ⟨w, within, rfl⟩

theorem Follows.of_leading (follows : Follows t) (lead : u <+: t) : Follows u := by
  cases follows with
  | blank blank => exact .blank (isBlankText_of_subset blank lead.subset)
  | semicolon blank ends =>
    rcases prefix_append_cons lead with short | ⟨v, inside, rfl⟩
    · exact .blank (isBlankText_of_subset blank short.subset)
    · exact .semicolon blank (isBlankText_of_subset ends inside.subset)
  | value blank starts =>
    rcases prefix_append_cons lead with short | ⟨v, ⟨x, rfl⟩, rfl⟩
    · exact .blank (isBlankText_of_subset blank short.subset)
    · refine .value blank fun c first => starts c ?_
      cases v with
      | nil => cases first
      | cons d v => exact first

theorem ident?_append {name : Text} (ident : isIdent name = true)
    (ends : ∀ c ∈ t.head?, isIdentChar c = false) : ident? (name ++ t) = some (name, t) := by
  have isName := isIdent_isName ident
  obtain ⟨c, tail, rfl, start⟩ := isIdent_cons ident
  have chars : ∀ d ∈ tail, isIdentChar d = true := fun d member => isName.chars d (mem_cons_of_mem _ member)
  rw [cons_append, ident?, if_pos start, takeWhile_append_of_pos chars, dropWhile_append_of_pos chars]
  cases t with
  | nil => simp
  | cons d rest => simp [ends d rfl]

def Ended (t : Text) : Prop :=
  ∃ gap x, isBlankText gap = true ∧ t = gap ++ x ∧
    ∀ c ∈ x.head?, isIdentChar c = false ∧ isBlank c = false

theorem ended_mark (blank : isBlankText gap) {c : Char}
    (mark : isIdentChar c = false ∧ isBlank c = false) (x : Text) : Ended (gap ++ c :: x) := by
  refine ⟨gap, c :: x, blank, rfl, ?_⟩
  rintro d ⟨⟩
  exact mark

theorem Follows.ended (follows : Follows t) : Ended t := by
  cases follows with
  | blank blank => exact ⟨t, [], blank, by simp, by simp⟩
  | semicolon blank ends => exact ended_mark blank ⟨rfl, rfl⟩ _
  | value blank starts => exact ended_mark blank ⟨rfl, rfl⟩ _

namespace Ended

variable {t : Text} (ended : Ended t)

include ended

theorem head : ∀ c ∈ t.head?, isIdentChar c = false := by
  obtain ⟨gap, x, blank, rfl, mark⟩ := ended
  cases gap with
  | nil => exact fun c first => (mark c first).1
  | cons d gap =>
    rintro c ⟨⟩
    exact isIdentChar_of_isBlank (all_eq_true.mp blank d mem_cons_self)

theorem unnamed : identName? (dropBlanks t) = none := by
  obtain ⟨gap, x, blank, rfl, mark⟩ := ended
  cases x with
  | nil => rw [append_nil, dropBlanks_blank blank]; rfl
  | cons c x =>
    obtain ⟨other, visible⟩ := mark c rfl
    have start : isIdentStart c ≠ true := fun start => by
      rw [isIdentChar_of_start start] at other
      cases other
    rw [dropBlanks_mark blank visible, identName?, ident?, if_neg start]
    rfl

theorem namedBody?_enum {name : Text} (ident : isIdent name = true) : namedBody? "enum" (name ++ t) = none := by
  rw [namedBody?]
  cases found : spaced? "enum" (name ++ t) with
  | none => rfl
  | some rest =>
    obtain ⟨c, tail, blank, same, rfl⟩ := spaced?_eq_some.mp found
    have keyword : ident? ("enum".toList ++ c :: tail) = some ("enum".toList, c :: tail) := by
      refine ident?_append rfl ?_
      rintro d ⟨⟩
      exact isIdentChar_of_isBlank blank
    have whole := ident?_append ident ended.head
    rw [same, keyword, Option.some.injEq, Prod.mk.injEq] at whole
    have unnamed := ended.unnamed
    rw [← whole.2, dropBlanks, trimLeftBy, dropWhile_cons_of_pos blank] at unnamed
    have empty : identName? (dropBlanks tail) = none := unnamed
    simp [empty]

theorem bindingTarget?_name {name : Text} (ident : isIdent name = true) (exported : Bool) :
    bindingTarget? exported (name ++ t) = bindingRest? exported name t := by
  have read := ident?_append ident ended.head
  obtain ⟨c, tail, rfl, start⟩ := isIdent_cons ident
  unfold bindingTarget?
  split
  · rename_i same
    cases same
    cases start
  · rename_i same
    cases same
    cases start
  · rw [read]
    rfl

end Ended

theorem bindingRest?_follows (follows : Follows t) (line : '\n' ∉ t) (exported : Bool)
    (target : Text) : ∃ form, bindingRest? exported target t = some form := by
  rw [← Option.isSome_iff_exists]
  cases follows with
  | blank blank =>
    rw [bindingRest?, dropBlanks_blank blank]
    rfl
  | semicolon blank ends =>
    rename_i gap tail
    have read : initializer? (';' :: tail) = some none := by
      show (if (dropBlanks tail).isEmpty then some none else none) = _
      rw [dropBlanks_blank ends]
      rfl
    rw [bindingRest?, dropBlanks_mark blank rfl]
    simp [read]
  | value blank starts =>
    rename_i gap value
    have plain : (startsWith value "=" || startsWith value ">") = false := by
      cases value with
      | nil => rfl
      | cons c rest =>
        obtain ⟨equals, arrow⟩ := starts c rfl
        show ('=' == c && _ || '>' == c && _) = false
        simp [Ne.symm equals, Ne.symm arrow]
    have whole : (dropBlanks value).dropWhile (· != '\n') = [] := by
      refine dropWhile_eq_nil_iff.mpr fun c member => ?_
      rw [bne_iff_ne]
      rintro rfl
      exact line (by simpa using .inr (trimLeftBy_subset isBlank value member))
    have read : ∃ init, initializer? ('=' :: value) = some init := by
      simp only [initializer?, plain, lastLine?, whole]
      exact ⟨_, rfl⟩
    obtain ⟨init, read⟩ := read
    rw [bindingRest?, dropBlanks_mark blank rfl]
    simp [read]

theorem bindingRest?_comma (blank : isBlankText gap) (exported : Bool)
    (target x : Text) : bindingRest? exported target (gap ++ ',' :: x) = none := by
  rw [bindingRest?, dropBlanks_mark blank rfl]
  rfl

theorem describeBinding_names (code next : Text) (p : Patterns) (form : BindingForm) :
    (isIdent form.target = true → (describeBinding code next p form).names = [form.target]) ∧
    (∀ opener closer rest, Delimiters opener closer → form.target = opener :: rest →
      (describeBinding code next p form).names = destructuredNames form.target) := by
  unfold describeBinding
  dsimp only
  generalize isFunctionInitializer p _ = function
  constructor
  · intro ident
    cases function
    all_goals
      simp only [reduceIte, Bool.false_eq_true]
      split
      · rename_i same
        rw [same] at ident
        cases ident
      · rename_i same
        rw [same] at ident
        cases ident
      · rfl
  · rintro opener closer rest (_ | _) same <;> cases function <;> simp [same]

section Patterns

variable {row rest : Text} {names : List Text} {opener closer : Char}

theorem patternBinding?_whole (exported : Bool) (opener : Char) (inside : closer ∉ row)
    (follows : Follows rest) (line : '\n' ∉ rest) :
    ∃ form, patternBinding? exported opener closer (row ++ closer :: rest) = some form ∧
      form.target = opener :: row ++ [closer] := by
  have inner : (row ++ closer :: rest).takeWhile (· != closer) = row := by
    have before : ∀ c ∈ row, (c != closer) = true := fun c member => bne_iff_ne.mpr fun same => inside (same ▸ member)
    rw [takeWhile_append_of_pos before]
    simp
  obtain ⟨form, read⟩ := bindingRest?_follows follows line exported (opener :: row ++ [closer])
  refine ⟨form, ?_, bindingRest?_target read⟩
  simp only [patternBinding?, inner, drop_left, read]
  rfl

theorem patternBinding?_open (exported : Bool) (opener : Char) (inside : closer ∉ row) :
    ∃ form, patternBinding? exported opener closer row = some form ∧ form.target = opener :: row := by
  have inner : row.takeWhile (· != closer) = row := takeWhile_eq_self_iff.mpr fun c member =>
      bne_iff_ne.mpr fun same => inside (same ▸ member)
  obtain ⟨form, read⟩ := bindingRest?_follows (.blank (t := []) rfl) (by simp) exported (opener :: row)
  refine ⟨form, ?_, bindingRest?_target read⟩
  simp only [patternBinding?, inner, drop_length, range_succ, reverse_append]
  simp [read]

theorem bindingTarget?_pattern (pair : Delimiters opener closer) (exported : Bool) (body : Text) :
    bindingTarget? exported (opener :: body) = patternBinding? exported opener closer body := by
  cases pair <;> rfl

end Patterns

end ModuleSplit.Declaration
