import ModuleSplit.Proofs.Output.Places

namespace ModuleSplit

open List

-- Cut in two behind which there are as many separators.
theorem cut_unique {a b c d : Text} {sep : Char} (same : a ++ sep :: b = c ++ sep :: d)
    (counts : b.count sep = d.count sep) : a = c ∧ b = d := by
  rcases append_eq_append_iff.mp same with ⟨more, rfl, tail⟩ | ⟨more, rfl, tail⟩
  · cases more with
    | nil =>
      simp only [nil_append, List.cons.injEq, true_and] at tail
      simp [tail]
    | cons first more =>
      obtain ⟨rfl, rest⟩ := List.cons.inj tail
      have count := congrArg (List.count sep) rest
      rw [append_eq, count_append, count_cons_self] at count
      omega
  · cases more with
    | nil =>
      simp only [nil_append, List.cons.injEq, true_and] at tail
      simp [tail]
    | cons first more =>
      obtain ⟨rfl, rest⟩ := List.cons.inj tail
      have count := congrArg (List.count sep) rest
      rw [append_eq, count_append, count_cons_self] at count
      omega

theorem last_cut_unique {a b c d : Text} {sep : Char} (same : a ++ sep :: b = c ++ sep :: d)
    (left : sep ∉ b) (right : sep ∉ d) : a = c ∧ b = d :=
  cut_unique same (by rw [count_eq_zero_of_not_mem left, count_eq_zero_of_not_mem right])

theorem Path.last_point {name : Text} {fromEnd : Nat} (found : name.reverse.findIdx? (· == '.') = some fromEnd) :
    ∃ front e, name = front ++ '.' :: e ∧ '.' ∉ e ∧ e.length = fromEnd := by
  obtain ⟨bound, point, behind⟩ := findIdx?_eq_some_iff_getElem.mp found
  have split : name.reverse = name.reverse.take fromEnd ++ '.' :: name.reverse.drop (fromEnd + 1) := by
    conv_lhs => rw [← take_append_drop fromEnd name.reverse, drop_eq_getElem_cons bound]
    rw [beq_iff_eq.mp point]
  refine ⟨(name.reverse.drop (fromEnd + 1)).reverse, (name.reverse.take fromEnd).reverse, ?_, ?_, ?_⟩
  · have whole := congrArg List.reverse split
    rw [reverse_reverse] at whole
    exact whole.trans (by simp)
  · rw [mem_reverse]
    intro inside
    obtain ⟨j, small, same⟩ := mem_iff_getElem.mp inside
    rw [getElem_take] at same
    rw [length_take] at small
    exact behind j (by omega) (by simp [same])
  · rw [length_reverse, length_take]
    omega

theorem Path.pointIndex_eq {name : Text} {i : Nat} (found : pointIndex name = some i) :
    ∃ front e, name = front ++ '.' :: e ∧ '.' ∉ e ∧ i = front.length := by
  unfold pointIndex at found
  split at found
  · cases found
  · rename_i fromEnd last
    obtain ⟨front, e, whole, plain, rfl⟩ := last_point last
    dsimp only at found
    split at found
    · cases found
      exact ⟨front, e, whole, plain, by simp [whole]⟩
    · cases found

theorem Path.suffix_eq {p : Path} (some : p.suffix ≠ []) : ∃ e, p.suffix = '.' :: e ∧ '.' ∉ e := by
  unfold suffix at *
  split
  · rename_i i found
    obtain ⟨front, e, whole, plain, rfl⟩ := pointIndex_eq found
    exact ⟨e, by rw [whole, drop_left], plain⟩
  · rename_i none
    rw [none] at some
    exact absurd rfl some

theorem Path.parts_of_suffix {p : Path} (some : p.suffix ≠ []) : p.parts = p.parts.dropLast ++ [p.name] := by
  rcases eq_nil_or_concat p.parts with none | ⟨init, last, whole⟩
  · have empty : p.name = [] := by rw [name, none]; rfl
    have cut := p.stem_append_suffix
    rw [empty, append_eq_nil_iff] at cut
    exact absurd cut.2 some
  · simp [name, whole]

namespace Layout

def IsWord (w : Text) : Prop := w ≠ [] ∧ ∀ c ∈ w, c.isLower = true

theorem IsWord.not_mem {w : Text} (word : IsWord w) {c : Char} (other : c.isLower = false) : c ∉ w := by
  intro inside
  rw [word.2 c inside] at other
  cases other

variable {l : Layout} {categories : List Category}

theorem names_sibling (sibling : l.mode = .sibling) {n : Text} (member : n ∈ l.names categories) :
    ∃ w, IsWord w ∧ n = l.baseName ++ '-' :: w ++ l.extension := by
  rcases mem_append.mp member with category | index
  · obtain ⟨c, _, rfl⟩ := mem_map.mp category
    refine ⟨c.text, ?_, by simp [categoryStem]⟩
    cases c <;> exact ⟨by decide, all_eq_true.mp (by decide)⟩
  · rw [mem_singleton.mp index, indexName, sibling]
    exact ⟨"index".toList, ⟨by decide, all_eq_true.mp (by decide)⟩, by simp⟩

end Layout

theorem Text.ofNat_last (n : Nat) : ∃ front last, ofNat n = front ++ [last] ∧ last.isDigit = true := by
  have some : ofNat n ≠ [] := by
    unfold ofNat
    rw [Nat.toList_repr]
    exact Nat.toDigits_ne_nil
  refine ⟨_, _, (dropLast_append_getLast some).symm, ?_⟩
  exact ofNat_digit (getLast_mem some)

theorem not_lower_of_digit {c : Char} (digit : c.isDigit = true) : c.isLower = false := by
  rw [Bool.eq_false_iff]
  intro lower
  obtain ⟨small, _⟩ := Bool.and_eq_true_iff.mp lower
  obtain ⟨_, large⟩ := Bool.and_eq_true_iff.mp digit
  exact absurd (UInt32.le_trans (of_decide_eq_true small) (of_decide_eq_true large)) (by decide)

theorem Text.hyphen_not_mem_ofNat (n : Nat) : '-' ∉ ofNat n := by
  intro hyphen
  simpa using ofNat_digit hyphen

namespace Moment

theorem hyphen_not_mem_digits (width n : Nat) : '-' ∉ digits width n := by
  unfold digits Text.padLeft
  intro hyphen
  rcases mem_append.mp hyphen with filled | shown
  · cases eq_of_mem_replicate filled
  · exact Text.hyphen_not_mem_ofNat n shown

theorem count_stamp (m : Moment) : m.stamp.count '-' = 5 := by
  have none : ∀ width n, (digits width n).count '-' = 0 :=
    fun width n => count_eq_zero_of_not_mem (hyphen_not_mem_digits width n)
  simp [stamp, secondsText, dateText, Text.joinWith, intercalate_cons_cons, none]

end Moment

namespace Backup

variable {p q : Path} {m n : Moment} {i j : Nat}

theorem fileName_first (p : Path) (m : Moment) : fileName p m 0 = p.name ++ '-' :: m.stamp ++ ".backup".toList := by
  simp [fileName]

theorem fileName_further (p : Path) (m : Moment) {attempt : Nat} (further : attempt ≠ 0) : fileName p m attempt =
      p.name ++ '-' :: m.stamp ++ '-' :: Text.ofNat attempt ++ ".backup".toList := by
  simp [fileName, further]

theorem stamp_last (m : Moment) : ∃ front, m.stamp = front ++ ['Z'] := ⟨_, rfl⟩

theorem fileName_ending (p : Path) (m : Moment) (attempt : Nat) : ∃ front last,
    fileName p m attempt = front ++ [last] ++ ".backup".toList ∧ last.isLower = false := by
  by_cases first : attempt = 0
  · obtain ⟨front, stamp⟩ := stamp_last m
    refine ⟨p.name ++ '-' :: front, 'Z', ?_, by decide⟩
    simp [first, fileName_first, stamp]
  · obtain ⟨front, last, digits, digit⟩ := Text.ofNat_last attempt
    refine ⟨p.name ++ '-' :: m.stamp ++ '-' :: front, last, ?_, not_lower_of_digit digit⟩
    simp [fileName_further p m first, digits]

theorem fileName_counted (counted : j ≠ 0) : fileName p m 0 ≠ fileName q n j := by
  intro same
  obtain ⟨front, stamp⟩ := stamp_last m
  obtain ⟨digits, last, number, digit⟩ := Text.ofNat_last j
  rw [fileName_first, fileName_further q n counted, stamp, number] at same
  have lasts := congrArg List.getLast? (append_cancel_right same)
  simp only [← cons_append, ← append_assoc, getLast?_concat] at lasts
  cases lasts
  simp at digit

-- A backup tells the name of its source and, to the millisecond, when it was taken.
theorem fileName_source (same : fileName p m i = fileName q n j) : p.name = q.name ∧ m.stamp = n.stamp := by
  have counts : m.stamp.count '-' = n.stamp.count '-' := by rw [m.count_stamp, n.count_stamp]
  by_cases first : i = 0 <;> by_cases second : j = 0
  · rw [first, second, fileName_first, fileName_first] at same
    exact cut_unique (append_cancel_right same) counts
  · rw [first] at same
    exact absurd same (fileName_counted second)
  · rw [second] at same
    exact absurd same.symm (fileName_counted first)
  · rw [fileName_further p m first, fileName_further q n second] at same
    have cut := last_cut_unique (append_cancel_right same) (Text.hyphen_not_mem_ofNat i) (Text.hyphen_not_mem_ofNat j)
    exact cut_unique cut.1 counts

end Backup

def Path.Beside (p : Path) (l : Location) : Prop :=
  ∃ w, Layout.IsWord w ∧ l = p.parts.dropLast ++ [p.stem ++ '-' :: w ++ p.suffix]

namespace Path.Beside

variable {p q : Path} {l : Location}

theorem source_eq (left : p.Beside l) (right : q.Beside l) (suffixed : p.suffix ≠ [])
    (also : q.suffix ≠ []) : p.parts = q.parts := by
  obtain ⟨w, word, rfl⟩ := left
  obtain ⟨v, other, same⟩ := right
  obtain ⟨above, names⟩ := append_inj' same rfl
  have names := singleton_inj.mp names
  obtain ⟨e, dot, plain⟩ := suffix_eq suffixed
  obtain ⟨d, point, clear⟩ := suffix_eq also
  rw [dot, point] at names
  obtain ⟨stems, rfl⟩ := last_cut_unique names plain clear
  obtain ⟨stem, rfl⟩ := last_cut_unique stems (word.not_mem (by decide)) (other.not_mem (by decide))
  have whole : p.name = q.name := by
    rw [← stem_append_suffix, ← stem_append_suffix, stem, dot, point]
  rw [parts_of_suffix suffixed, parts_of_suffix also, above, whole]

theorem not_backup (beside : p.Beside l) (suffixed : p.suffix ≠ []) (dir : Location) (q : Path)
    (m : Moment) (attempt : Nat) : l ≠ dir ++ [Backup.fileName q m attempt] := by
  obtain ⟨w, word, rfl⟩ := beside
  intro same
  have names := singleton_inj.mp (append_inj' same rfl).2
  obtain ⟨e, dot, plain⟩ := suffix_eq suffixed
  obtain ⟨front, last, ending, other⟩ := Backup.fileName_ending q m attempt
  have cut : p.stem ++ '-' :: w ++ '.' :: e = front ++ [last] ++ '.' :: "backup".toList := by
    rw [← dot, names, ending]
    rfl
  have fronts := (last_cut_unique cut plain (by decide)).1
  obtain ⟨init, final, rfl⟩ := eq_nil_or_concat w |>.resolve_left word.1
  have lasts := congrArg List.getLast? fronts
  rw [concat_eq_append, ← cons_append, ← append_assoc, getLast?_concat, getLast?_concat] at lasts
  cases lasts
  rw [word.2 last (by simp)] at other
  cases other

theorem ne_source (beside : p.Beside l) : l ≠ p.parts := by
  obtain ⟨w, word, rfl⟩ := beside
  intro same
  have names : p.name = p.stem ++ '-' :: w ++ p.suffix := by
    rw [name, ← same, getLast?_concat]
    rfl
  have lengths := congrArg List.length names
  rw [← p.length_stem_suffix] at lengths
  simp only [length_append, length_cons] at lengths
  omega

end Path.Beside

end ModuleSplit
