import ModuleSplit.Proofs.Declaration.LookAhead

namespace ModuleSplit

open Text Phrase

namespace Text

open List Option

variable {t u : Text}

def IsEnding (t : Text) : Prop := ∀ c ∈ t, isBlank c = true ∨ c = ';'

def WithEnding (t u : Text) : Prop := ∃ ending, u = t ++ ending ∧ IsEnding ending

def isSolid (word : Text) : Bool := !word.isEmpty && word.all fun c => !isBlank c && c != ';'

theorem isSolid_iff {word : Text} : isSolid word = true ↔ word ≠ [] ∧ ∀ c ∈ word, isBlank c = false ∧ c ≠ ';' := by
  simp [isSolid]

theorem IsEnding.isWord {c : Char} (ending : IsEnding (c :: t)) : isWord c = false := by
  rcases ending c mem_cons_self with blank | rfl
  · exact isWord_of_isBlank blank
  · rfl

theorem IsEnding.isIdentChar {c : Char} (ending : IsEnding (c :: t)) : isIdentChar c = false := by
  rcases ending c mem_cons_self with blank | rfl
  · exact isIdentChar_of_isBlank blank
  · rfl

theorem IsEnding.of_suffix (ending : IsEnding t) (part : u <:+ t) : IsEnding u :=
  fun c member => ending c (part.subset member)

theorem WithEnding.refl (t : Text) : WithEnding t t := ⟨[], by simp, by simp [IsEnding]⟩

theorem WithEnding.of_ending (ending : IsEnding t) : WithEnding [] t := ⟨t, rfl, ending⟩

theorem WithEnding.dropBlanks (ended : WithEnding t u) : WithEnding (dropBlanks t) (dropBlanks u) := by
  obtain ⟨ending, rfl, blank⟩ := ended
  cases left : Text.dropBlanks t with
  | nil =>
    apply WithEnding.of_ending
    have gone := dropBlanks_blanks (dropWhile_eq_nil_iff.mp left) ending
    exact gone ▸ blank.of_suffix (dropBlanks_suffix ending)
  | cons c rest =>
    have kept := dropBlanks_append (a := t) (by simp [left]) ending
    exact ⟨ending, by rw [kept, left], blank⟩

theorem WithEnding.trimRight (ended : WithEnding t u) : WithEnding (trimRight t) (trimRight u) := by
  obtain ⟨ending, rfl, blank⟩ := ended
  by_cases mark : ';' ∈ ending
  · -- Nothing in front of the semicolon is trimmed, so that the blanks of the first text stay.
    obtain ⟨front, back, rfl⟩ := append_of_mem mark
    have whole : t = Text.trimRight t ++ (t.reverse.takeWhile isBlank).reverse := by
      rw [Text.trimRight, trimRightBy, ← reverse_append, takeWhile_append_dropWhile, reverse_reverse]
    have stays : Text.trimRight (t ++ (front ++ ';' :: back)) = t ++ front ++ ';' :: Text.trimRight back := by
      rw [← append_assoc]
      exact trimRightBy_stop rfl _ _
    refine ⟨(t.reverse.takeWhile isBlank).reverse ++ front ++ ';' :: Text.trimRight back, ?_, ?_⟩
    · rw [stays]
      simp [← append_assoc, ← whole]
    · intro c member
      simp only [mem_append, mem_cons, mem_reverse] at member
      rcases member with (gap | inside) | rfl | behind
      · exact .inl (mem_takeWhile_imp gap)
      · exact blank c (by simp [inside])
      · exact .inr rfl
      · exact blank c (by simp [trimRightBy_subset isBlank back behind])
  · have blanks : ∀ c ∈ ending.reverse, isBlank c = true := by
      intro c member
      have inside := mem_reverse.mp member
      exact (blank c inside).resolve_right fun same => mark (same ▸ inside)
    have gone : Text.trimRight (t ++ ending) = Text.trimRight t := by
      simp only [Text.trimRight, trimRightBy, reverse_append, dropWhile_append_of_pos blanks]
    rw [gone]
    exact .refl _

theorem WithEnding.trim (ended : WithEnding t u) : WithEnding (trim t) (trim u) :=
  ended.dropBlanks.trimRight

def EndedRests (a b : Option Text) : Prop :=
  (a = none ∧ b = none) ∨ ∃ t u, a = some t ∧ b = some u ∧ WithEnding t u

theorem EndedRests.isSome {a b : Option Text} (both : EndedRests a b) : b.isSome = a.isSome := by
  rcases both with ⟨rfl, rfl⟩ | ⟨_, _, rfl, rfl, _⟩
  · rfl
  · rfl

theorem WithEnding.after? (ended : WithEnding t u) (word : Text) (solid : isSolid word = true) :
    EndedRests (after? word t) (after? word u) := by
  obtain ⟨ending, rfl, blank⟩ := ended
  obtain ⟨_, letters⟩ := isSolid_iff.mp solid
  cases found : Text.after? word t with
  | some rest =>
    have later : Text.after? word (t ++ ending) = some (rest ++ ending) := by
      simp [after?_eq_some.mp found]
    exact .inr ⟨rest, _, rfl, later, ending, rfl, blank⟩
  | none =>
    refine .inl ⟨rfl, eq_none_iff_forall_ne_some.mpr ?_⟩
    intro rest longer
    rcases append_eq_append_iff.mp (after?_eq_some.mp longer) with
      ⟨more, split, behind⟩ | ⟨inside, split, _⟩
    · cases more with
      | nil =>
        have whole : Text.after? word t = some [] := after?_eq_some.mpr (by simpa using split.symm)
        simp [found] at whole
      | cons c more =>
        have letter := letters c (by simp [split])
        rcases blank c (by simp [behind]) with gap | mark
        · simp [letter.1] at gap
        · exact letter.2 mark
    · have whole := after?_eq_some.mpr split
      simp [found] at whole

theorem WithEnding.startsWith (ended : WithEnding t u) (word : String)
    (solid : isSolid word.toList = true) : startsWith u word = startsWith t word := by
  have found : ∀ v, Text.startsWith v word = (Text.after? word.toList v).isSome := by
    intro v
    rw [Bool.eq_iff_iff, startsWith_iff, isSome_iff_exists]
    simp only [after?_eq_some]
  rw [found, found]
  exact (ended.after? word.toList solid).isSome

theorem WithEnding.holds (ended : WithEnding t u) (word : String)
    (solid : isSolid word.toList = true) : holds u word = holds t word := by
  obtain ⟨ending, rfl, blank⟩ := ended
  unfold Text.holds
  induction t with
  | nil =>
    induction ending with
    | nil => rfl
    | cons c ending ih =>
      have first := (WithEnding.of_ending blank).startsWith word solid
      have rest := ih (blank.of_suffix (suffix_cons c ending))
      simp_all [occursIn, Text.startsWith]
  | cons c t ih =>
    have first := WithEnding.startsWith ⟨ending, rfl, blank⟩ word solid (t := c :: t)
    unfold Text.startsWith at first
    rw [cons_append, occursIn, occursIn, ih, ← first, cons_append]

theorem WithEnding.countChar (ended : WithEnding t u) (c : Char) (visible : isBlank c = false)
    (other : c ≠ ';') : countChar c u = countChar c t := by
  obtain ⟨ending, rfl, blank⟩ := ended
  have absent : c ∉ ending := by
    intro member
    rcases blank c member with gap | mark
    · simp [visible] at gap
    · exact other mark
  simp [Text.countChar, count_eq_zero_of_not_mem absent]

end Text

namespace Phrase

open List Option

variable {t u : Text}

theorem wordEnds_ended (ended : WithEnding t u) : wordEnds u = wordEnds t := by
  obtain ⟨ending, rfl, blank⟩ := ended
  cases t with
  | cons c rest => rfl
  | nil =>
    cases ending with
    | nil => rfl
    | cons c rest => simp [wordEnds, blank.isWord]

theorem keyword?_ended (ended : WithEnding t u) (word : String) (solid : isSolid word.toList = true) :
    EndedRests (keyword? word t) (keyword? word u) := by
  unfold keyword? dropLead?
  rcases ended.after? word.toList solid with ⟨none, also⟩ | ⟨r, s, found, also, rests⟩
  · exact .inl (by simp [none, also])
  · simp only [found, also, bind_eq_bind, bind_some, wordEnds_ended rests]
    split
    · exact .inr ⟨r, s, rfl, rfl, rests⟩
    · exact .inl ⟨rfl, rfl⟩

theorem spaced?_ended (ended : WithEnding t u) (word : String) (solid : isSolid word.toList = true) :
    EndedRests (spaced? word t) (spaced? word u) ∨ t = word.toList ∧ spaced? word t = none ∧
        ∃ rest, spaced? word u = some rest ∧ IsEnding rest := by
  unfold spaced? dropLead?
  rcases ended.after? word.toList solid with ⟨none, also⟩ | ⟨r, s, found, also, ending, rfl, blank⟩
  · exact .inl (.inl (by simp [none, also]))
  · simp only [found, also, bind_eq_bind, bind_some]
    cases r with
    | cons c rest =>
      left
      by_cases gap : isBlank c = true
      · have behind : WithEnding rest (rest ++ ending) := ⟨ending, rfl, blank⟩
        exact .inr ⟨_, _, by simp [blanks?, gap], by simp [blanks?, gap], behind.dropBlanks⟩
      · exact .inl (by simp [blanks?, gap])
    | nil =>
      cases ending with
      | nil => exact .inl (.inl ⟨rfl, rfl⟩)
      | cons c ending =>
        by_cases gap : isBlank c = true
        · refine .inr ⟨by simpa using after?_eq_some.mp found, rfl, dropBlanks ending, ?_, ?_⟩
          · simp [blanks?, gap]
          · exact blank.of_suffix ((dropBlanks_suffix ending).trans (suffix_cons c ending))
        · exact .inl (.inl (by simp [blanks?, gap]))

theorem skipSpaced_ended (read : Text → Bool) (ended : WithEnding t u) (word : String)
    (solid : isSolid word.toList = true) (same : ∀ {t u}, WithEnding t u → read u = read t)
    (none : read [] = false) (alone : read word.toList = false) : read (skipSpaced word u) = read (skipSpaced word t) := by
  unfold skipSpaced
  rcases spaced?_ended ended word solid with (⟨absent, also⟩ | ⟨r, s, found, also, rests⟩) | ⟨rfl, absent, rest, also, ending⟩
  · simpa [absent, also] using same ended
  · simpa [found, also] using same rests
  · simpa [absent, also, alone, none] using same (.of_ending ending)

theorem takeWhile_ended {q : Char → Bool} {ending : Text} (stops : ∀ c ∈ ending.head?, q c = false)
    (t : Text) : (t ++ ending).takeWhile q = t.takeWhile q ∧ (t ++ ending).dropWhile q = t.dropWhile q ++ ending := by
  induction t with
  | nil =>
    cases ending with
    | nil => simp
    | cons c ending => simp [stops c rfl]
  | cons c t ih => by_cases inside : q c = true <;> simp [inside, ih]

theorem ident?_ended (ended : WithEnding t u) : (ident? t = none ∧ ident? u = none) ∨
      ∃ name r s, ident? t = some (name, r) ∧ ident? u = some (name, s) ∧ WithEnding r s := by
  obtain ⟨ending, rfl, blank⟩ := ended
  have stops : ∀ c ∈ ending.head?, isIdentChar c = false := by
    cases ending with
    | nil => simp
    | cons c ending => simpa using blank.isIdentChar
  cases t with
  | nil =>
    left
    cases ending with
    | nil => exact ⟨rfl, rfl⟩
    | cons c ending =>
      have other : isIdentStart c = false := by
        rw [Bool.eq_false_iff]
        intro start
        simpa [blank.isIdentChar] using isIdentChar_of_start start
      simp [ident?, other]
  | cons c rest =>
    by_cases start : isIdentStart c = true
    · right
      refine ⟨c :: rest.takeWhile isIdentChar, rest.dropWhile isIdentChar,
        rest.dropWhile isIdentChar ++ ending, ?_, ?_, ending, rfl, blank⟩
      · simp [ident?, start]
      · simp [ident?, start, takeWhile_ended stops]
    · left
      simp [ident?, start]

theorem callOpening?_isSome {stops : Char → Bool} (closed : stops '(' = true) :
    (callOpening? stops t).isSome = true ↔ (∃ rest, t = '(' :: rest) ∨
      ∃ inner rest, t = '<' :: (inner ++ '(' :: rest) ∧ (∀ c ∈ inner, stops c = false) ∧
        endsWith (trimRight inner) ">" = true := by
  constructor
  · intro opened
    unfold callOpening? at opened
    split at opened
    · exact .inl ⟨_, rfl⟩
    · rename_i rest
      split at opened
      · rename_i more found
        split at opened
        · rename_i ends
          refine .inr ⟨rest.takeWhile (!stops ·), more, ?_, ?_, ends⟩
          · rw [← found, takeWhile_append_dropWhile]
          · intro c member
            simpa using mem_takeWhile_imp member
        · cases opened
      · cases opened
    · cases opened
  · rintro (⟨rest, rfl⟩ | ⟨inner, rest, rfl, passed, ends⟩)
    · rfl
    · have passing : ∀ c ∈ inner, (!stops c) = true := by simpa using passed
      simp [callOpening?, takeWhile_append_of_pos passing, dropWhile_append_of_pos passing, closed, ends]

theorem callOpening?_ended (stops : Char → Bool) (ended : WithEnding t u) (closed : stops '(' = true) :
    (callOpening? stops u).isSome = (callOpening? stops t).isSome := by
  obtain ⟨ending, rfl, blank⟩ := ended
  have outside : '(' ∉ ending ∧ '<' ∉ ending := by
    constructor <;> intro member <;> rcases blank _ member with gap | mark <;> simp_all [isBlank]
  rw [Bool.eq_iff_iff, callOpening?_isSome closed, callOpening?_isSome closed]
  constructor
  · rintro (⟨rest, opened⟩ | ⟨inner, rest, opened, passed, ends⟩)
    · cases t with
      | nil => exact absurd (show '(' ∈ ending by simp_all) outside.1
      | cons c t => exact .inl ⟨t, by simp_all⟩
    · cases t with
      | nil => exact absurd (show '<' ∈ ending by simp_all) outside.2
      | cons c t =>
        right
        obtain ⟨rfl, behind⟩ := List.cons.inj opened
        rcases append_eq_append_iff.mp behind with ⟨more, split, left⟩ | ⟨more, split, left⟩
        · exact absurd (show '(' ∈ ending by simp [left]) outside.1
        · cases more with
          | nil =>
            have same : '(' :: rest = ending := left
            exact absurd (same ▸ mem_cons_self) outside.1
          | cons d more =>
            obtain ⟨rfl, _⟩ := List.cons.inj left
            exact ⟨inner, more, by simp [split], passed, ends⟩
  · rintro (⟨rest, rfl⟩ | ⟨inner, rest, rfl, passed, ends⟩)
    · exact .inl ⟨rest ++ ending, rfl⟩
    · exact .inr ⟨inner, rest ++ ending, by simp, passed, ends⟩

end Phrase

namespace Declaration

open List Option

variable {t u : Text}

theorem startsOpen_ended (ended : WithEnding t u) : startsOpen u = startsOpen t := by
  have front := ended.dropBlanks
  have tokens : ∀ token ∈ continuationStarts, isSolid token.toList = true := all_eq_true.mp rfl
  have any : (continuationStarts.any fun token => startsWith (dropBlanks u) token) =
      continuationStarts.any fun token => startsWith (dropBlanks t) token := by
    rw [Bool.eq_iff_iff, List.any_eq_true, List.any_eq_true]
    apply exists_congr
    intro token
    apply and_congr_right
    intro listed
    rw [front.startsWith token (tokens token listed)]
  unfold startsOpen
  simp only [any, front.startsWith "++" rfl, front.startsWith "--" rfl,
    (keyword?_ended front "extends" rfl).isSome,
    (keyword?_ended front "implements" rfl).isSome]

theorem isImportStart_ended (ended : WithEnding t u) : isImportStart u = isImportStart t := by
  unfold isImportStart
  congr 1
  · rcases keyword?_ended ended "import" rfl with ⟨absent, also⟩ | ⟨r, s, found, also, rests⟩
    · simp only [absent, also]
    · simp only [found, also, rests.dropBlanks.startsWith "(" rfl]
  · rcases spaced?_ended ended "export" rfl with
      (⟨absent, also⟩ | ⟨r, s, found, also, rests⟩) | ⟨rfl, absent, rest, also, ending⟩
    · simp only [absent, also]
    · simp only [found, also, rests.startsWith "*" rfl]
    · simp only [absent, also, (WithEnding.of_ending ending).startsWith "*" rfl]
      rfl

theorem isExportList_ended (ended : WithEnding t u) : isExportList u = isExportList t := by
  have list : ∀ {t u}, WithEnding t u → startsWith (skipSpaced "type" u) "\x7b" = startsWith (skipSpaced "type" t) "\x7b" := by
    intro t u ended
    exact skipSpaced_ended (startsWith · "\x7b") ended "type" rfl (fun ended => ended.startsWith "\x7b" rfl) rfl rfl
  unfold isExportList
  rcases spaced?_ended ended "export" rfl with
    (⟨absent, also⟩ | ⟨r, s, found, also, rests⟩) | ⟨rfl, absent, rest, also, ending⟩
  · simp only [absent, also]
  · simp only [found, also, list rests]
  · simp only [absent, also, list (.of_ending ending)]
    rfl

theorem isArrowOfName_ended (ended : WithEnding t u) : isArrowOfName u = isArrowOfName t := by
  unfold isArrowOfName
  dsimp only
  congr 1
  · rcases spaced?_ended ended "async" rfl with
      (⟨absent, also⟩ | ⟨r, s, found, also, rests⟩) | ⟨rfl, absent, rest, also, ending⟩
    · simp only [absent, also]
    · rcases ident?_ended rests with ⟨none, other⟩ | ⟨name, x, y, some, other, behind⟩
      · simp only [found, also, none, other]
      · simp only [found, also, some, other, behind.dropBlanks.startsWith "=>" rfl]
    · rcases ident?_ended (.of_ending ending) with ⟨_, other⟩ | ⟨name, x, y, some, _⟩
      · simp only [absent, also, other]
      · cases some
  · rcases ident?_ended ended with ⟨none, other⟩ | ⟨name, x, y, some, other, behind⟩
    · simp only [none, other]
    · simp only [some, other, behind.dropBlanks.startsWith "=>" rfl]

theorem opensParameters_ended (ended : WithEnding t u) : opensParameters u = opensParameters t := by
  unfold opensParameters dropLead?
  rcases ended.after? "async".toList rfl with ⟨absent, also⟩ | ⟨r, s, found, also, rests⟩
  · simp only [absent, also, callOpening?_ended isParen ended rfl]
  · simp only [found, also, callOpening?_ended isParen rests.dropBlanks rfl]

-- The name of a wrapper may be any text, also one with blanks or semicolons at its end; but what
-- opens the call is behind it.
theorem wrapperArgument?_ended (name : Text) (ended : WithEnding t u) :
    (Patterns.wrapperArgument? name u).isSome = (Patterns.wrapperArgument? name t).isSome := by
  have opened : ∀ {t u}, WithEnding t u → (callOpening? (· == '(') (dropBlanks u)).isSome =
      (callOpening? (· == '(') (dropBlanks t)).isSome :=
    fun ended => callOpening?_ended _ ended.dropBlanks rfl
  obtain ⟨ending, rfl, blank⟩ := ended
  have argument : ∀ v, (Patterns.wrapperArgument? name v).isSome = true ↔
      ∃ rest, v = name ++ rest ∧ (callOpening? (· == '(') (dropBlanks rest)).isSome = true := by
    intro v
    simp [Patterns.wrapperArgument?, isSome_bind, Option.any_eq_true]
  rw [Bool.eq_iff_iff, argument, argument]
  constructor
  · rintro ⟨rest, whole, call⟩
    rcases append_eq_append_iff.mp whole with ⟨more, _, behind⟩ | ⟨more, split, rfl⟩
    · have part : IsEnding rest := blank.of_suffix ⟨more, behind.symm⟩
      rw [opened (.of_ending part)] at call
      cases call
    · refine ⟨more, split, ?_⟩
      rw [← opened ⟨ending, rfl, blank⟩]
      exact call
  · rintro ⟨rest, rfl, call⟩
    exact ⟨rest ++ ending, by simp, (opened ⟨ending, rfl, blank⟩).trans call⟩

theorem isWrapperCall_ended (p : Patterns) (ended : WithEnding t u) : p.isWrapperCall u = p.isWrapperCall t := by
  unfold Patterns.isWrapperCall Patterns.findWrapper?
  cases p.wrappers with
  | none => rfl
  | some names =>
    rw [Bool.eq_iff_iff]
    simp [findSome?_isSome_iff, wrapperArgument?_ended _ ended]

theorem isWrapperCall_nil (p : Patterns) : p.isWrapperCall [] = false := by
  have absent : ∀ name, Patterns.wrapperArgument? name [] = none := by
    intro name
    cases name with
    | nil => rfl
    | cons c name => rfl
  unfold Patterns.isWrapperCall Patterns.findWrapper?
  cases p.wrappers with
  | none => rfl
  | some names => simp [absent]

theorem isFunctionInitializer_ended (p : Patterns) (ended : WithEnding t u) :
    isFunctionInitializer p u = isFunctionInitializer p t := by
  have front := ended.trim
  have function := skipSpaced_ended (fun v => (keyword? "function" v).isSome) front "async" rfl
    (fun ended => (keyword?_ended ended "function" rfl).isSome) rfl rfl
  unfold isFunctionInitializer
  simp only [function, (keyword?_ended front "class" rfl).isSome, isArrowOfName_ended front,
    opensParameters_ended front, front.holds "=>" rfl, front.countChar '(' rfl (by decide),
    front.countChar ')' rfl (by decide),
    isWrapperCall_ended p front]
  cases first : trim t with
  | cons c rest =>
    obtain ⟨ending, more, _⟩ := front
    simp [more, first]
  | nil =>
    have none : (keyword? "function" (skipSpaced "async" [])).isSome = false ∧
        (keyword? "class" []).isSome = false ∧ isArrowOfName [] = false ∧
        opensParameters [] = false := ⟨rfl, rfl, rfl, rfl⟩
    simp [none, isWrapperCall_nil]

theorem awaitsBody_ended (p : Patterns) (code : Text) (ended : WithEnding t u) :
    (describe p code u).awaitsBody = (describe p code t).awaitsBody := by
  have binding : ∀ form, (describeBinding code u p form).awaitsBody = (describeBinding code t p form).awaitsBody := by
    intro form
    unfold describeBinding
    cases given : form.initializer with
    | none => rfl
    | some init =>
      cases blank : isBlankText init with
      | false => simp only [blank, Bool.false_eq_true, if_false]
      | true =>
        have front := ended.trim
        have function := isFunctionInitializer_ended p front
        simp only [blank, if_true]
        cases starts : isFunctionInitializer p (trim t) with
        | false => simp [awaitsBody, starts, function]
        | true => simp [awaitsBody, starts, function, (keyword?_ended front "class" rfl).isSome]
  unfold describe
  split
  · rfl
  split
  · rfl
  split
  · rfl
  split
  · exact binding _
  split
  · rfl
  split
  · rfl
  · rfl

end Declaration

end ModuleSplit
