import Mathlib.Data.List.Infix
import Mathlib.Logic.Basic
import ModuleSplit.Import.Select
import ModuleSplit.Output.Draft
import ModuleSplit.Proofs.Text.Lines

-- A name is referenced where it is one of the runs of identifier characters of a text.

namespace ModuleSplit

open List

variable {n t : Text}

namespace Text

def wideBlanks : List Nat :=
  [0x85, 0xa0, 0x1680, 0x2000, 0x2001, 0x2002, 0x2003, 0x2004, 0x2005, 0x2006, 0x2007, 0x2008,
    0x2009, 0x200a, 0x2028, 0x2029, 0x202f, 0x205f, 0x3000]

theorem wideBlanks_outside : ∀ n ∈ wideBlanks, insideFlips wordFlips n = false := by
  have listed : ∀ n, insideFlips wordFlips n =
      wordFlips.toList.foldl (fun inside flip => if flip ≤ n then !inside else inside) false := by
    intro n
    rw [insideFlips, Array.foldl_toList]
  simp only [listed]
  decide +kernel

theorem isWord_of_isBlank {c : Char} (blank : isBlank c = true) : isWord c = false := by
  have ascii : ∀ n < 128, isBlank (Char.ofNat n) = true → isWord (Char.ofNat n) = false := by
    decide +kernel
  by_cases narrow : c.toNat < 128
  · have same := ascii c.toNat narrow
    rw [Char.ofNat_toNat] at same
    exact same blank
  · rw [isWord, if_neg narrow]
    refine wideBlanks_outside c.toNat ?_
    simp only [isBlank, Bool.or_eq_true, Bool.and_eq_true, decide_eq_true_eq, beq_iff_eq] at blank
    simp only [wideBlanks, mem_cons, not_mem_nil, or_false]
    omega

theorem isIdentChar_of_isBlank {c : Char} (blank : isBlank c = true) : isIdentChar c = false := by
  rw [isIdentChar, isWord_of_isBlank blank, Bool.false_or, beq_eq_false_iff_ne]
  rintro rfl
  cases blank

end Text

open Text

-- Runs of identifier characters; where two other characters meet there is an empty one.
def identRuns (t : Text) : List Text := t.splitOnP fun c => !isIdentChar c

structure IsName (n : Text) : Prop where
  nonempty : n ≠ []
  chars : ∀ c ∈ n, isIdentChar c = true

theorem IsName.visible {n : Text} (name : IsName n) : ∀ c ∈ n, isBlank c = false := by
  intro c member
  rw [Bool.eq_false_iff]
  intro blank
  have outside := isIdentChar_of_isBlank blank
  rw [name.chars c member] at outside
  cases outside

theorem isName_word (plain : (!t.isEmpty && t.all isIdentChar) = true) : IsName t := by
  obtain ⟨filled, chars⟩ := Bool.and_eq_true_iff.mp plain
  exact ⟨by simpa using filled, all_eq_true.mp chars⟩

theorem identRuns_append (a b : Text) {c : Char} (apart : isIdentChar c = false) :
    identRuns (a ++ c :: b) = identRuns a ++ identRuns b :=
  splitOnP_append_cons a b (by simp [apart])

theorem identRuns_eq (t : Text) : identRuns t = t.takeWhile isIdentChar :: (identRuns t).tail := by
  induction t with
  | nil => rfl
  | cons c rest ih =>
    unfold identRuns at ih ⊢
    rw [splitOnP_cons_eq_if_modifyHead, takeWhile_cons]
    cases inside : isIdentChar c with
    | false => simp
    | true =>
      rw [ih]
      simp

@[simp] theorem Text.after?_eq_some {lead rest : Text} : after? lead t = some rest ↔ t = lead ++ rest := by
  rw [after?, isPrefixOf?_eq_some_iff_append_eq, eq_comm]

theorem ends_here (chars : ∀ c ∈ n, isIdentChar c = true) :
    (match after? n t with
      | some (c :: _) => !isIdentChar c
      | some [] => true
      | none => false) = true ↔ t.takeWhile isIdentChar = n := by
  cases found : after? n t with
  | none =>
    have other : t.takeWhile isIdentChar ≠ n := by
      intro same
      obtain ⟨rest, whole⟩ := takeWhile_prefix isIdentChar (l := t)
      rw [same] at whole
      rw [after?_eq_some.mpr whole.symm] at found
      cases found
    simp [other]
  | some rest =>
    rw [after?_eq_some.mp found, takeWhile_append_of_pos chars]
    cases rest with
    | nil => simp
    | cons c tail => cases inside : isIdentChar c <;> simp [inside]

theorem referencesFrom_iff (name : IsName n) (inside : Bool) : referencesFrom n inside t = true ↔
      n ∈ if inside then (identRuns t).tail else identRuns t := by
  induction t generalizing inside with
  | nil =>
    unfold referencesFrom
    rw [Bool.or_false, Bool.and_eq_true]
    refine (and_congr_right' (ends_here name.chars)).trans ?_
    cases inside <;> simp [identRuns, splitOnP_nil, name.nonempty, eq_comm]
  | cons c rest ih =>
    unfold referencesFrom
    rw [Bool.or_eq_true, Bool.and_eq_true]
    refine (or_congr (and_congr_right' (ends_here name.chars)) (ih (isIdentChar c))).trans ?_
    have runs : identRuns (c :: rest) = if isIdentChar c then
        (c :: rest.takeWhile isIdentChar) :: (identRuns rest).tail else [] :: identRuns rest := by
      rw [identRuns, splitOnP_cons_eq_if_modifyHead, ← identRuns, identRuns_eq rest]
      cases isIdentChar c <;> simp
    rw [runs, takeWhile_cons]
    cases isIdentChar c <;> cases inside <;> simp [name.nonempty, eq_comm]

theorem references_iff (name : IsName n) : references n t = true ↔ n ∈ identRuns t := referencesFrom_iff name false

theorem references_append (name : IsName n) (a b : Text) {c : Char} (apart : isIdentChar c = false) :
    references n (a ++ c :: b) = true ↔ references n a = true ∨ references n b = true := by
  simp only [references_iff name, identRuns_append a b apart, mem_append]

@[simp] theorem references_nil (name : IsName n) : references n [] = false := by
  rw [Bool.eq_false_iff, ne_eq, references_iff name]
  simpa [identRuns, splitOnP_nil] using name.nonempty

theorem references_blanks (name : IsName n) (t : Text) {indent : Text}
    (blank : ∀ c ∈ indent, isBlank c = true) : references n (indent ++ t) = true ↔ references n t = true := by
  induction indent with
  | nil => rfl
  | cons c rest ih =>
    rw [forall_mem_cons] at blank
    have front := references_append name [] (rest ++ t) (isIdentChar_of_isBlank blank.1)
    rw [nil_append, references_nil name, ih blank.2] at front
    rw [cons_append, front]
    simp

theorem references_joined (name : IsName n) (parts : List Text) :
    references n (joinWith "\n\n" parts) = true ↔ ∃ part ∈ parts, references n part = true := by
  unfold joinWith
  induction parts with
  | nil => simp [references_nil name]
  | cons part rest ih =>
    cases rest with
    | nil => simp
    | cons next rest =>
      have separated : List.intercalate "\n\n".toList (part :: next :: rest) =
          part ++ '\n' :: ('\n' :: List.intercalate "\n\n".toList (next :: rest)) := by
        rw [intercalate_cons_cons, append_assoc]
        rfl
      have line := references_blanks name (List.intercalate "\n\n".toList (next :: rest))
        (show ∀ c ∈ ['\n'], isBlank c = true from all_eq_true.mp rfl)
      rw [singleton_append] at line
      rw [separated, references_append name _ _ (by decide), line, ih]
      simp only [mem_cons, exists_eq_or_imp]

theorem references_export (name : IsName n) (other : n ≠ "export".toList) (t : Text) :
    references n ("export ".toList ++ t) = true ↔ references n t = true := by
  have letters : ∀ c ∈ "export".toList, isIdentChar c = true := all_eq_true.mp rfl
  have word : references n "export".toList = false := by
    rw [Bool.eq_false_iff, ne_eq, references_iff name, identRuns, splitOnP_eq_singleton (by simpa using letters), mem_singleton]
    exact other
  have split : "export ".toList ++ t = "export".toList ++ ' ' :: t := rfl
  rw [split, references_append name _ _ (by decide), word]
  simp

theorem references_promoted (name : IsName n) (other : n ≠ "export".toList) (b : Block) :
    references n b.promoted = true ↔ references n b.text = true := by
  unfold Block.promoted
  split
  · rfl
  · dsimp only
    split
    · rfl
    · have text := cut_eq '\n' b.text
      generalize (cut '\n' b.text).1 = first at text ⊢
      have indent : first.takeWhile isBlank ++ dropBlanks first = first := takeWhile_append_dropWhile
      have blank : ∀ c ∈ first.takeWhile isBlank, isBlank c = true := all_eq_true.mp all_takeWhile
      have promoted : ∀ tail, references n (first.takeWhile isBlank ++ "export ".toList ++
          dropBlanks first ++ tail) = true ↔ references n (first ++ tail) = true := by
        intro tail
        have whole : references n (first ++ tail) = true ↔ references n (dropBlanks first ++ tail) = true := by
          rw [← references_blanks name (dropBlanks first ++ tail) blank, ← append_assoc, indent]
        rw [append_assoc, append_assoc, references_blanks name _ blank, references_export name other, whole]
      split
      · rename_i none
        rw [none] at text
        rw [promoted, text]
      · rename_i ends
        rw [ends] at text
        rw [promoted, text, references_append name first [] (by decide), references_nil name]
        simp
      · rename_i rest _ more
        rw [more] at text
        rw [promoted, text]

theorem references_body (name : IsName n) (other : n ≠ "export".toList) (d : Draft) :
    references n d.body = true ↔ references n d.group.text = true := by
  unfold Draft.body Group.text
  rw [references_joined name, references_joined name]
  simp only [mem_map, exists_exists_and_eq_and, references_promoted name other]

end ModuleSplit
