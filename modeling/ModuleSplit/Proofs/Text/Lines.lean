import ModuleSplit.Block.Basic

namespace ModuleSplit.Text

open List

variable {sep : Char} {t lead : Text}

theorem splitOn_eq (sep : Char) (t : Text) : splitOn sep t = List.splitOn sep t := by
  induction t with
  | nil => rfl
  | cons c rest ih =>
    rw [splitOn, splitOn_cons_eq_if_modifyHead, ih]
    have some := splitOn_ne_nil sep rest
    by_cases equal : c = sep
    · simp [equal]
    · simp only [equal, if_false, beq_iff_eq]
      cases pieces : List.splitOn sep rest with
      | nil => exact absurd pieces some
      | cons piece pieces => rfl

theorem mem_joinWith {sep : String} {ts : List Text} {c : Char} (member : c ∈ joinWith sep ts) :
    c ∈ sep.toList ∨ ∃ t ∈ ts, c ∈ t := by
  induction ts with
  | nil => cases member
  | cons t ts ih =>
    cases ts with
    | nil => exact .inr ⟨t, mem_cons_self, by simpa [joinWith] using member⟩
    | cons u ts =>
      rw [joinWith, intercalate_cons_cons, mem_append, mem_append] at member
      rcases member with (first | between) | later
      · exact .inr ⟨t, mem_cons_self, first⟩
      · exact .inl between
      · rcases ih later with between | ⟨v, listed, inside⟩
        · exact .inl between
        · exact .inr ⟨v, mem_cons_of_mem _ listed, inside⟩

@[simp] theorem unlines_lines (t : Text) : unlines (lines t) = t := by
  rw [lines, splitOn_eq]
  exact intercalate_splitOn '\n'

theorem lines_unlines {ls : List Text} (some : ls ≠ []) (plain : ∀ l ∈ ls, '\n' ∉ l) : lines (unlines ls) = ls := by
  rw [lines, splitOn_eq]
  exact splitOn_intercalate '\n' plain some

theorem lines_append (a b : Text) : lines (a ++ '\n' :: b) = lines a ++ lines b := by
  simp only [lines, splitOn_eq]
  exact splitOn_append_cons_self a b

theorem not_mem_splitOn (sep : Char) (t : Text) : ∀ piece ∈ splitOn sep t, sep ∉ piece := by
  induction t with
  | nil => simp [splitOn]
  | cons c rest ih =>
    rw [splitOn]
    split
    · simpa using ih
    · rename_i other
      cases split : splitOn sep rest with
      | nil => simpa using Ne.symm other
      | cons piece pieces =>
        rw [split] at ih
        intro l member
        rcases mem_cons.mp member with rfl | later
        · simpa using ⟨Ne.symm other, ih piece mem_cons_self⟩
        · exact ih l (mem_cons_of_mem _ later)

theorem splitOn_eq_singleton (absent : sep ∉ t) : splitOn sep t = [t] := by
  rw [splitOn_eq]
  exact List.splitOn_eq_singleton absent

theorem newline_not_mem_lines (t : Text) : ∀ l ∈ lines t, '\n' ∉ l := not_mem_splitOn '\n' t

theorem source_lines_plain (t : Text) (path : Path) : ∀ l ∈ (Source.ofText t path).lines, '\n' ∉ l := by
  unfold Source.ofText
  dsimp only
  generalize (if endsWith (foldCrLf t) "\n" then (foldCrLf t).dropLast else foldCrLf t) = body
  split
  · simp
  · exact newline_not_mem_lines _

@[simp] theorem unlines_singleton (l : Text) : unlines [l] = l := intercalate_singleton

@[simp] theorem unlines_cons_cons (a b : Text) (rest : List Text) : unlines (a :: b :: rest) = a ++ '\n' :: unlines (b :: rest) := by
  simp [unlines]

theorem unlines_append {a b : List Text} (left : a ≠ []) (right : b ≠ []) :
    unlines (a ++ b) = unlines a ++ '\n' :: unlines b := by
  induction a with
  | nil => exact absurd rfl left
  | cons first rest ih =>
    cases rest with
    | nil =>
      obtain ⟨second, others, rfl⟩ := exists_cons_of_ne_nil right
      simp
    | cons second others =>
      rw [cons_append, cons_append, unlines_cons_cons, unlines_cons_cons, ← cons_append, ih (by simp)]
      simp

theorem infix_intercalate {sep : Text} {ts : List Text} (listed : t ∈ ts) : t <:+: sep.intercalate ts := by
  induction ts with
  | nil => cases listed
  | cons u ts ih =>
    cases ts with
    | nil =>
      rw [intercalate_singleton]
      exact ⟨[], [], by simp [mem_singleton.mp listed]⟩
    | cons v ts =>
      rw [intercalate_cons_cons]
      rcases mem_cons.mp listed with rfl | later
      · exact ⟨[], sep ++ sep.intercalate (v :: ts), by simp⟩
      · exact (ih later).trans (suffix_append _ _).isInfix

theorem occursIn_of_part {needle : Text} (inside : needle <:+: t) : occursIn needle t = true := by
  obtain ⟨front, back, rfl⟩ := inside
  induction front with
  | nil =>
    have starts : needle.isPrefixOf (needle ++ back) = true := isPrefixOf_iff_prefix.mpr (prefix_append _ _)
    rw [nil_append]
    cases whole : needle ++ back with
    | nil => simp_all [occursIn]
    | cons c rest => rw [occursIn, ← whole, starts, Bool.true_or]
  | cons c front ih => rw [cons_append, cons_append, occursIn, ih, Bool.or_true]

theorem cut_eq (sep : Char) (t : Text) :
    t = (cut sep t).1 ++ match (cut sep t).2 with
      | some rest => sep :: rest
      | none => [] := by
  induction t with
  | nil => rfl
  | cons c rest ih =>
    unfold cut
    split
    · rename_i same
      simp [same]
    · simpa using ih

theorem cut_tail (sep : Char) (t : Text) : ∃ tail, t = (cut sep t).1 ++ tail ∧ (tail = [] ∨ ∃ rest, tail = sep :: rest) := by
  refine ⟨_, cut_eq sep t, ?_⟩
  cases (cut sep t).2 with
  | none => exact .inl rfl
  | some rest => exact .inr ⟨rest, rfl⟩

theorem splitOn_cut (sep : Char) (t : Text) : ∃ rest, splitOn sep t = (cut sep t).1 :: rest := by
  induction t with
  | nil => exact ⟨[], rfl⟩
  | cons c tail ih =>
    obtain ⟨rest, same⟩ := ih
    rw [splitOn, cut]
    split
    · exact ⟨_, rfl⟩
    · rw [same]
      exact ⟨rest, rfl⟩

theorem not_mem_cut (sep : Char) (t : Text) : sep ∉ (cut sep t).1 := by
  induction t with
  | nil => simp [cut]
  | cons c rest ih =>
    rw [cut]
    split
    · simp
    · rename_i other
      simp [Ne.symm other, ih]

theorem cut_append (inside : sep ∉ lead) (more : Text) : (cut sep (lead ++ more)).1 = lead ++ (cut sep more).1 := by
  induction lead with
  | nil => rfl
  | cons c rest ih =>
    rw [mem_cons, not_or] at inside
    rw [cons_append, cut, if_neg (Ne.symm inside.1)]
    simp [ih inside.2]

theorem cut_inside (inside : sep ∈ lead) (more : Text) : (cut sep (lead ++ more)).1 = (cut sep lead).1 := by
  induction lead with
  | nil => cases inside
  | cons c rest ih =>
    rw [cons_append, cut, cut]
    split
    · rfl
    · rename_i other
      simp [ih ((mem_cons.mp inside).resolve_left (Ne.symm other))]

theorem cut_none (absent : sep ∉ t) : cut sep t = (t, none) := by
  induction t with
  | nil => rfl
  | cons c rest ih =>
    rw [mem_cons, not_or] at absent
    rw [cut, if_neg (Ne.symm absent.1), ih absent.2]

theorem cut_some (absent : sep ∉ lead) (more : Text) : cut sep (lead ++ sep :: more) = (lead, some more) := by
  induction lead with
  | nil => simp [cut]
  | cons c rest ih =>
    rw [mem_cons, not_or] at absent
    rw [cons_append, cut, if_neg (Ne.symm absent.1), ih absent.2]

theorem lines_joinWith_blank (ts : List Text) (some : ts ≠ []) :
    lines (joinWith "\n\n" ts) = [[]].intercalate (ts.map lines) := by
  induction ts with
  | nil => exact absurd rfl some
  | cons first rest ih =>
    cases rest with
    | nil => simp [joinWith]
    | cons second others =>
      have split : joinWith "\n\n" (first :: second :: others) =
          first ++ '\n' :: ([] ++ '\n' :: joinWith "\n\n" (second :: others)) := by
        simp [joinWith]
      rw [split, lines_append, lines_append, ih (by simp)]
      simp [lines, splitOn]

theorem unlines_intercalate_blank (groups : List (List Text)) (some : ∀ g ∈ groups, g ≠ []) :
    unlines ([[]].intercalate groups) = joinWith "\n\n" (groups.map unlines) := by
  induction groups with
  | nil => rfl
  | cons first rest ih =>
    cases rest with
    | nil => simp [joinWith]
    | cons second others =>
      have tail : [[]].intercalate (second :: others) ≠ [] := by
        obtain ⟨line, lines, same⟩ := exists_cons_of_ne_nil (some second (by simp))
        cases others <;> simp [same]
      rw [intercalate_cons_cons, append_assoc, unlines_append (some first (by simp)) (by simp), unlines_append (by simp) tail,
        ih (fun g member => some g (mem_cons_of_mem _ member))]
      simp [joinWith]

end ModuleSplit.Text
