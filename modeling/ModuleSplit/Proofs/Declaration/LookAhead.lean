import Mathlib.Data.List.TakeWhile
import ModuleSplit.Declaration.Phrase
import ModuleSplit.Proofs.Declaration.Phrase

namespace ModuleSplit

open List Text Phrase Option

namespace Text

variable {t : Text}

theorem dropBlanks_suffix (t : Text) : dropBlanks t <:+ t := dropWhile_suffix isBlank

theorem dropBlanks_head {tail : Text} {c : Char} (visible : dropBlanks t = c :: tail) : isBlank c = false := by
  have head := head?_dropWhile_not isBlank t
  rw [← trimLeftBy, ← dropBlanks, visible] at head
  simpa using head

def EndsInEquals (t : Text) : Prop := ∃ blanks, ('=' :: blanks) <:+ t ∧ ∀ c ∈ blanks, isBlank c = true

theorem EndsInEquals.of_suffix {whole : Text} (ends : t.EndsInEquals) (part : t <:+ whole) : whole.EndsInEquals := by
  obtain ⟨blanks, suffix, blank⟩ := ends
  exact ⟨blanks, suffix.trans part, blank⟩

theorem EndsInEquals.of_trim (ends : (trim t).EndsInEquals) : t.EndsInEquals := by
  obtain ⟨left, right, same, _, after⟩ := trim_append t
  obtain ⟨blanks, ⟨before, front⟩, blank⟩ := ends
  refine ⟨blanks ++ right, ⟨left ++ before, ?_⟩, forall_mem_append.mpr ⟨blank, after⟩⟩
  rw [same, ← front]
  simp only [append_assoc, cons_append]

theorem EndsInEquals.trimRight_eq (ends : t.EndsInEquals) : ∃ before, trimRight t = before ++ ['='] := by
  obtain ⟨blanks, ⟨before, rfl⟩, blank⟩ := ends
  refine ⟨before, ?_⟩
  have behind : trimRight (before ++ ['='] ++ blanks) = trimRight (before ++ ['=']) := by
    unfold trimRight trimRightBy
    rw [reverse_append, dropWhile_append_of_pos (by simpa using blank)]
  rw [append_cons, behind, trimRight_visible rfl]

end Text

namespace Phrase

theorem spaced?_suffix {word : String} {t rest : Text} (found : spaced? word t = some rest) : rest <:+ t := by
  obtain ⟨c, tail, _, rfl, rfl⟩ := spaced?_eq_some.mp found
  exact (dropBlanks_suffix tail).trans ⟨word.toList ++ [c], by simp⟩

theorem skipSpaced_suffix (word : String) (t : Text) : skipSpaced word t <:+ t := by
  unfold skipSpaced
  cases found : spaced? word t with
  | none => exact suffix_rfl
  | some rest => exact spaced?_suffix found

end Phrase

namespace Declaration

variable {init code next : Text} {form : BindingForm}

theorem initializer?_blank {t : Text} (found : initializer? t = some (some init))
    (blank : isBlankText init = true) : t.EndsInEquals := by
  unfold initializer? at found
  split at found
  · rename_i rest
    obtain ⟨_, found⟩ := ite_none_left_eq_some.mp found
    obtain ⟨line, read, same⟩ := map_eq_some_iff.mp found
    cases same
    refine ⟨rest, suffix_rfl, ?_⟩
    cases visible : dropBlanks rest with
    | nil => exact dropWhile_eq_nil_iff.mp visible
    | cons c tail =>
      have shown := dropBlanks_head visible
      have first : c ≠ '\n' := by
        rintro rfl
        cases shown
      rw [visible, lastLine?] at read
      obtain ⟨_, read⟩ := ite_none_right_eq_some.mp read
      cases read
      simp [isBlankText, first, shown] at blank
  · obtain ⟨_, same⟩ := ite_none_right_eq_some.mp found
    cases same

theorem typeSpan_suffix (t : Text) : (typeSpan t).2 <:+ t := by
  fun_induction typeSpan t with
  | case1 => exact suffix_rfl
  | case2 rest a r spanned ih =>
    rw [spanned] at ih
    exact ih.trans ⟨['=', '>'], rfl⟩
  | case3 => exact suffix_rfl
  | case4 c rest _ _ a r spanned ih =>
    rw [spanned] at ih
    exact ih.trans (suffix_cons c rest)

theorem bindingRest?_blank {exported : Bool} {target rest : Text}
    (found : bindingRest? exported target rest = some form) (given : form.initializer = some init)
    (blank : isBlankText init = true) : rest.EndsInEquals := by
  unfold bindingRest? at found
  split at found
  · rename_i more colon
    obtain ⟨initializer, read, same⟩ := bind_eq_some_iff.mp found
    cases same
    cases given
    have tail : (typeSpan (dropBlanks more)).2 <:+ ':' :: more :=
      ((typeSpan_suffix _).trans (dropBlanks_suffix more)).trans (suffix_cons _ _)
    rw [← colon] at tail
    exact (initializer?_blank read blank).of_suffix (tail.trans (dropBlanks_suffix rest))
  · obtain ⟨initializer, read, same⟩ := bind_eq_some_iff.mp found
    cases same
    cases given
    exact (initializer?_blank read blank).of_suffix (dropBlanks_suffix rest)

theorem patternBinding?_blank {exported : Bool} {opener closer : Char} {body : Text}
    (found : patternBinding? exported opener closer body = some form)
    (given : form.initializer = some init) (blank : isBlankText init = true) : body.EndsInEquals := by
  unfold patternBinding? at found
  simp only [orElse_eq_orElse, orElse_eq_or, or_eq_some_iff] at found
  rcases found with whole | ⟨_, part⟩
  · split at whole
    · rename_i closing tail left
      have behind : tail <:+ body := by
        have dropped := drop_suffix (body.takeWhile (· != closer)).length body
        rw [left] at dropped
        exact (suffix_cons closing tail).trans dropped
      exact (bindingRest?_blank whole given blank).of_suffix behind
    · cases whole
  · obtain ⟨n, _, part⟩ := exists_of_findSome?_eq_some part
    refine (bindingRest?_blank part given blank).of_suffix ⟨(body.takeWhile (· != closer)).take n, ?_⟩
    rw [← append_assoc, take_append_drop]
    exact prefix_iff_eq_append.mp (List.takeWhile_prefix _)

theorem bindingForm?_blank (found : bindingForm? code = some form) (given : form.initializer = some init)
    (blank : isBlankText init = true) : code.EndsInEquals := by
  unfold bindingForm? at found
  obtain ⟨rest, word, found⟩ := bind_eq_some_iff.mp found
  have part : rest <:+ code := by
    have modified : skipSpaced "declare" (skipSpaced "export" code) <:+ code :=
      (skipSpaced_suffix _ _).trans (skipSpaced_suffix _ _)
    simp only [orElse_eq_orElse, orElse_eq_or, or_eq_some_iff] at word
    rcases word with binding | ⟨_, binding | ⟨_, binding⟩⟩
    · exact (spaced?_suffix binding).trans modified
    · exact (spaced?_suffix binding).trans modified
    · exact (spaced?_suffix binding).trans modified
  refine EndsInEquals.of_suffix ?_ part
  unfold bindingTarget? at found
  split at found
  · exact (patternBinding?_blank found given blank).of_suffix (suffix_cons _ _)
  · exact (patternBinding?_blank found given blank).of_suffix (suffix_cons _ _)
  · obtain ⟨⟨name, tail⟩, read, found⟩ := bind_eq_some_iff.mp found
    exact (bindingRest?_blank found given blank).of_suffix ⟨name, (ident?_eq read).symm⟩

theorem extendsAt?_eq_none (starts : startsOpen next = false) : extendsAt? next = none := by
  unfold extendsAt?
  cases found : spaced? "extends" next with
  | none => rfl
  | some rest =>
    obtain ⟨c, tail, _, same, _⟩ := spaced?_eq_some.mp found
    have first : dropBlanks next = next := by
      rw [same]
      rfl
    have attached : startsOpen next = true := by
      unfold startsOpen
      dsimp only
      rw [first, keyword?_of_spaced? found, same]
      rfl
    rw [attached] at starts
    cases starts

-- What follows makes no difference to a declaration whose line does not end in an equals sign,
-- unless it begins with what goes on over a line break.
theorem describe_next (p : Patterns) (starts : startsOpen next = false)
    (ends : ¬code.EndsInEquals) : describe p code next = describe p code [] := by
  have binding : ∀ form, bindingForm? code = some form → describeBinding code next p form = describeBinding code [] p form := by
    intro form found
    unfold describeBinding
    cases given : form.initializer with
    | none => rfl
    | some init =>
      cases blank : isBlankText init with
      | true => exact absurd (bindingForm?_blank found given blank) ends
      | false => simp only [blank, Bool.false_eq_true, if_false]
  have extended : baseClass? code next = baseClass? code [] := by
    unfold baseClass?
    rw [extendsAt?_eq_none starts]
    rfl
  unfold describe
  split
  · rfl
  split
  · rfl
  split
  · rfl
  split
  · exact binding _ ‹_›
  split
  · rfl
  split
  · unfold describeClass
    rw [extended]
  · rfl

end Declaration

end ModuleSplit
