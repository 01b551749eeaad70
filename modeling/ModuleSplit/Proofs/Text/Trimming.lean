import ModuleSplit.Text.Class

namespace ModuleSplit.Text

open List

variable {c : Char}

theorem dropBlanks_append {a : Text} (left : dropBlanks a ≠ []) (more : Text) :
    dropBlanks (a ++ more) = dropBlanks a ++ more := by
  unfold dropBlanks trimLeftBy at left ⊢
  rw [dropWhile_append, if_neg (by simpa using left)]

theorem trim_append (t : Text) : ∃ left right, t = left ++ trim t ++ right ∧
    (∀ c ∈ left, isBlank c = true) ∧ ∀ c ∈ right, isBlank c = true := by
  refine ⟨t.takeWhile isBlank, ((dropBlanks t).reverse.takeWhile isBlank).reverse, ?_, all_eq_true.mp all_takeWhile, ?_⟩
  · unfold trim trimBy trimRightBy
    rw [append_assoc, ← reverse_append, ← dropBlanks, takeWhile_append_dropWhile, reverse_reverse]
    exact takeWhile_append_dropWhile.symm
  · intro c member
    exact all_eq_true.mp all_takeWhile c (mem_reverse.mp member)

theorem trimRight_append (t : Text) : ∃ blanks, t = trimRight t ++ blanks := by
  refine ⟨(t.reverse.takeWhile isBlank).reverse, ?_⟩
  unfold trimRight trimRightBy
  rw [← reverse_append, takeWhile_append_dropWhile, reverse_reverse]

section Stops

variable {q : Char → Bool} {c : Char}

theorem trimLeftBy_stop (stop : q c = false) (a b : Text) : trimLeftBy q (a ++ c :: b) = trimLeftBy q a ++ c :: b := by
  have kept : (c :: b).dropWhile q = c :: b := dropWhile_cons_of_neg (by simp [stop])
  rw [trimLeftBy, dropWhile_append, kept]
  split
  · rename_i gone
    rw [trimLeftBy, isEmpty_iff.mp gone, nil_append]
  · rfl

theorem trimRightBy_stop (stop : q c = false) (a b : Text) : trimRightBy q (a ++ c :: b) = a ++ c :: trimRightBy q b := by
  have mirrored := trimLeftBy_stop stop b.reverse a.reverse
  unfold trimLeftBy at mirrored
  rw [trimRightBy, reverse_append, reverse_cons, append_assoc, singleton_append, mirrored]
  simp [trimRightBy]

theorem trimBy_cons (edge : q c = true) (t : Text) : trimBy q (c :: t) = trimBy q t := by
  rw [trimBy, trimLeftBy, dropWhile_cons_of_pos edge, trimBy, trimLeftBy]

theorem trimBy_concat (edge : q c = true) (t : Text) : trimBy q (t ++ [c]) = trimBy q t := by
  unfold trimBy trimLeftBy
  rw [dropWhile_append]
  split
  · rename_i gone
    rw [isEmpty_iff.mp gone]
    simp [edge]
  · simp [trimRightBy, edge]

end Stops

theorem trimRight_cons (visible : isBlank c = false) (t : Text) :
    ∃ rest, trimRight (c :: t) = c :: rest := ⟨_, trimRightBy_stop visible [] t⟩

theorem dropBlanks_blanks {indent : Text} (blank : ∀ c ∈ indent, isBlank c = true) (t : Text) :
    dropBlanks (indent ++ t) = dropBlanks t := by
  unfold dropBlanks trimLeftBy
  rw [dropWhile_append_of_pos blank]

theorem trimRight_visible (visible : isBlank c = false) (t : Text) :
    trimRight (t ++ [c]) = t ++ [c] := trimRightBy_stop visible t []

theorem trim_visible {t front : Text} {d : Char} (starts : ∃ rest, t = c :: rest)
    (first : isBlank c = false) (ends : t = front ++ [d]) (last : isBlank d = false) : trim t = t := by
  obtain ⟨rest, rfl⟩ := starts
  have left : trimLeftBy isBlank (c :: rest) = c :: rest := by
    simp [trimLeftBy, first]
  rw [trim, trimBy, left, ends]
  exact trimRight_visible last front

section Blanks

variable {t : Text}

@[simp] theorem isBlankText_append (a b : Text) : isBlankText (a ++ b) = (isBlankText a && isBlankText b) := all_append

theorem isBlankText_of_subset {u : Text} (blank : isBlankText t) (inside : u ⊆ t) : isBlankText u :=
  all_eq_true.mpr fun c member => all_eq_true.mp blank c (inside member)

theorem trimLeftBy_subset (q : Char → Bool) (t : Text) : trimLeftBy q t ⊆ t :=
  (dropWhile_sublist q).subset

theorem trimRightBy_subset (q : Char → Bool) (t : Text) : trimRightBy q t ⊆ t := fun _ member =>
  mem_reverse.mp (trimLeftBy_subset q _ (mem_reverse.mp member))

theorem dropBlanks_blank (blank : isBlankText t) : dropBlanks t = [] := by
  have cleared := dropBlanks_blanks (all_eq_true.mp blank) []
  rwa [append_nil] at cleared

theorem trimRight_blank (blank : isBlankText t) : trimRight t = [] := by
  have mirrored := dropBlanks_blank (t := t.reverse) (by simpa [isBlankText] using blank)
  rw [trimRight, trimRightBy, ← trimLeftBy, ← dropBlanks, mirrored]
  rfl

theorem not_mem_blank (blank : isBlankText t) {c : Char} (visible : isBlank c = false) : c ∉ t := by
  intro member
  rw [all_eq_true.mp blank c member] at visible
  cases visible

theorem dropBlanks_mark (blank : isBlankText t) {c : Char} (visible : isBlank c = false)
    (x : Text) : dropBlanks (t ++ c :: x) = c :: x := by
  rw [dropBlanks, trimLeftBy_stop visible, ← dropBlanks, dropBlanks_blank blank, nil_append]

end Blanks

theorem endsWith_last {t : Text} {token : String} (ends : endsWith (t ++ [c]) token = true) :
    token.toList = [] ∨ token.toList.getLast? = some c := by
  obtain ⟨before, same⟩ := isSuffixOf_iff_suffix.mp ends
  rcases eq_nil_or_concat token.toList with none | ⟨front, last, some⟩
  · exact .inl none
  · rw [concat_eq_append] at some
    rw [some, ← append_assoc] at same
    have equal : last = c := by simpa using append_inj_right' same rfl
    right
    rw [some, getLast?_concat, equal]

end ModuleSplit.Text
