import ModuleSplit.Proofs.Import.References
import ModuleSplit.Proofs.Text.Trimming

namespace ModuleSplit

open List Text Option

@[simp] theorem Text.dropLead?_eq_some {word : String} {t rest : Text} : dropLead? word t = some rest ↔ t = word.toList ++ rest := by
  rw [dropLead?, after?_eq_some]

theorem Text.startsWith_iff {word : String} {t : Text} : startsWith t word = true ↔ ∃ rest, t = word.toList ++ rest := by
  rw [startsWith, isPrefixOf_iff_prefix]
  exact ⟨fun ⟨rest, same⟩ => ⟨rest, same.symm⟩, fun ⟨rest, same⟩ => ⟨rest, same.symm⟩⟩

theorem Text.isIdentChar_of_start {c : Char} (start : isIdentStart c = true) : isIdentChar c = true := by
  unfold isIdentStart at start
  rw [Bool.or_eq_true, Bool.or_eq_true] at start
  rcases start with (letter | underscore) | dollar
  · have narrow : c.toNat < 128 := by
      simp only [isAsciiLetter, Bool.or_eq_true, Bool.and_eq_true, decide_eq_true_eq] at letter
      have upper : c.val ≤ 'z'.val := by
        rcases letter with ⟨_, below⟩ | ⟨_, below⟩
        · exact UInt32.le_trans below (by decide)
        · exact below
      have bound := UInt32.le_iff_toNat_le.mp upper
      exact Nat.lt_of_le_of_lt bound (by decide)
    simp [isIdentChar, isWord, narrow, letter]
  · rw [beq_iff_eq.mp underscore]
    rfl
  · rw [isIdentChar, dollar, Bool.or_true]

namespace Phrase

variable {word : String} {t rest name tail : Text}

theorem keyword?_eq_some : keyword? word t = some rest ↔ t = word.toList ++ rest ∧ wordEnds rest = true := by
  simp only [keyword?, bind_eq_bind, bind_eq_some_iff, dropLead?_eq_some]
  constructor
  · rintro ⟨found, same, ends⟩
    split at ends
    · rename_i ended
      cases ends
      exact ⟨same, ended⟩
    · cases ends
  · rintro ⟨same, ends⟩
    exact ⟨rest, same, if_pos ends⟩

theorem blanks?_eq_some : blanks? t = some rest ↔ ∃ c tail, isBlank c = true ∧ t = c :: tail ∧ rest = dropBlanks tail := by
  cases t with
  | nil => simp [blanks?]
  | cons c tail =>
    rw [blanks?]
    constructor
    · intro found
      split at found
      · rename_i blank
        exact ⟨c, tail, blank, rfl, (Option.some.inj found).symm⟩
      · cases found
    · rintro ⟨_, _, blank, same, rfl⟩
      cases same
      exact if_pos blank

theorem spaced?_eq_some : spaced? word t = some rest ↔
    ∃ c tail, isBlank c = true ∧ t = word.toList ++ c :: tail ∧ rest = dropBlanks tail := by
  simp only [spaced?, bind_eq_bind, bind_eq_some_iff, dropLead?_eq_some, blanks?_eq_some]
  constructor
  · rintro ⟨_, same, c, tail, blank, rfl, ended⟩
    exact ⟨c, tail, blank, same, ended⟩
  · rintro ⟨c, tail, blank, same, ended⟩
    exact ⟨_, same, c, tail, blank, rfl, ended⟩

def apart (a b : String) : Bool :=
  match a.toList, b.toList with
  | c :: _, d :: _ => c != d
  | _, _ => false

theorem apart_iff {a b : String} : apart a b = true ↔ ∃ c d s t, a.toList = c :: s ∧ b.toList = d :: t ∧ c ≠ d := by
  unfold apart
  split
  · rename_i first second
    simp [first, second]
  · rename_i neither
    constructor
    · rintro ⟨⟩
    · rintro ⟨c, d, s, t, first, second, _⟩
      exact absurd second (neither c s d t first)

theorem spaced?_eq_none {other : String} (words : apart word other = true) : spaced? word (other.toList ++ tail) = none := by
  obtain ⟨c, d, s, t, first, second, differ⟩ := apart_iff.mp words
  rw [eq_none_iff_forall_ne_some]
  intro rest found
  obtain ⟨_, _, _, same, _⟩ := spaced?_eq_some.mp found
  rw [first, second, cons_append, cons_append, List.cons.injEq] at same
  exact differ same.1.symm

theorem keyword?_of_spaced? (found : spaced? word t = some rest) : (keyword? word t).isSome := by
  obtain ⟨c, tail, blank, same, _⟩ := spaced?_eq_some.mp found
  have ended : keyword? word t = some (c :: tail) := keyword?_eq_some.mpr ⟨same, by simp [wordEnds, isWord_of_isBlank blank]⟩
  rw [ended]
  rfl

theorem keyword?_append (found : keyword? word t = some rest) (left : rest ≠ []) (more : Text) :
    keyword? word (t ++ more) = some (rest ++ more) := by
  obtain ⟨rfl, ends⟩ := keyword?_eq_some.mp found
  obtain ⟨c, tail, rfl⟩ := exists_cons_of_ne_nil left
  exact keyword?_eq_some.mpr ⟨by simp, ends⟩

theorem spaced?_isSome_append (found : (spaced? word t).isSome) (more : Text) : (spaced? word (t ++ more)).isSome := by
  obtain ⟨rest, found⟩ := isSome_iff_exists.mp found
  obtain ⟨c, tail, blank, rfl, _⟩ := spaced?_eq_some.mp found
  rw [isSome_iff_exists]
  exact ⟨_, spaced?_eq_some.mpr ⟨c, tail ++ more, blank, by simp, rfl⟩⟩

theorem spaced?_append (found : spaced? word t = some rest) (left : rest ≠ []) (more : Text) :
    spaced? word (t ++ more) = some (rest ++ more) := by
  obtain ⟨c, tail, blank, rfl, rfl⟩ := spaced?_eq_some.mp found
  exact spaced?_eq_some.mpr ⟨c, tail ++ more, blank, by simp, (dropBlanks_append left more).symm⟩

theorem skipSpaced_append {other : String} (words : apart word other = true)
    (skipped : skipSpaced word t = other.toList ++ tail) (more : Text) :
    skipSpaced word (t ++ more) = skipSpaced word t ++ more := by
  unfold skipSpaced at skipped ⊢
  cases found : spaced? word t with
  | none =>
    rw [found, getD_none] at skipped
    rw [skipped, append_assoc, spaced?_eq_none words, getD_none, getD_none, append_assoc]
  | some rest =>
    rw [found, getD_some] at skipped
    obtain ⟨_, d, _, _, _, letters, _⟩ := apart_iff.mp words
    rw [spaced?_append found (by simp [skipped, letters]) more]
    rfl

theorem ident?_eq {t rest : Text} (found : ident? t = some (name, rest)) : t = name ++ rest := by
  cases t with
  | nil => cases found
  | cons c tail =>
    rw [ident?] at found
    split at found
    · cases found
      rw [cons_append, takeWhile_append_dropWhile]
    · cases found

theorem ident?_isName {t rest : Text} (found : ident? t = some (name, rest)) : IsName name := by
  cases t with
  | nil => cases found
  | cons c tail =>
    rw [ident?] at found
    split at found
    · rename_i start
      cases found
      exact ⟨by simp, forall_mem_cons.mpr ⟨isIdentChar_of_start start, all_eq_true.mp all_takeWhile⟩⟩
    · cases found

theorem identName?_isName {t : Text} (found : identName? t = some name) : IsName name := by
  obtain ⟨⟨read, rest⟩, same, rfl⟩ := map_eq_some_iff.mp found
  exact ident?_isName same

theorem isIdent_isName {t : Text} (whole : isIdent t = true) : IsName t := by
  unfold isIdent at whole
  split at whole
  · rename_i name rest found
    have same := ident?_eq found
    rw [isEmpty_iff.mp whole, append_nil] at same
    rw [same]
    exact ident?_isName found
  · cases whole

end Phrase

end ModuleSplit
