import ModuleSplit.Proofs.Import.PlainText

namespace ModuleSplit

open List Text

namespace Text

variable {t : Text} {c : Char}

def OpensComment (t : Text) : Prop := ∃ before after, t = before ++ '/' :: '*' :: after

def EndsComment (t : Text) : Prop := ∃ before after, t = before ++ '*' :: '/' :: after

def HasBlockComment (t : Text) : Prop :=
  ∃ before inner, t = before ++ '/' :: '*' :: inner ∧ EndsComment inner

def HasLineComment (afterBlank : Bool) (t : Text) : Prop :=
  ∃ before after, t = before ++ '/' :: '/' :: after ∧ (before = [] → afterBlank = true) ∧
    ∀ c ∈ before.getLast?, isBlank c = true

-- A line comment may also be at the very start.
structure CommentFree (t : Text) : Prop where
  block : ¬HasBlockComment t
  line : ¬HasLineComment true t

@[simp] theorem opensComment_nil : ¬OpensComment [] := by simp [OpensComment]

@[simp] theorem endsComment_nil : ¬EndsComment [] := by simp [EndsComment]

@[simp] theorem hasBlockComment_nil : ¬HasBlockComment [] := by simp [HasBlockComment]

@[simp] theorem hasLineComment_nil (afterBlank : Bool) : ¬HasLineComment afterBlank [] := by
  simp [HasLineComment]

theorem no_comment (plain : '/' ∉ t) : ¬HasBlockComment t ∧ ¬OpensComment t ∧ ¬EndsComment t ∧ ∀ a, ¬HasLineComment a t := by
  refine ⟨?_, ?_, ?_, ?_⟩
  · rintro ⟨before, inner, rfl, _⟩
    simp at plain
  · rintro ⟨before, after, rfl⟩
    simp at plain
  · rintro ⟨before, after, rfl⟩
    simp at plain
  · rintro a ⟨before, after, rfl, _⟩
    simp at plain

theorem EndsComment.append (ends : EndsComment t) (front : Text) : EndsComment (front ++ t) := by
  obtain ⟨before, after, rfl⟩ := ends
  exact ⟨front ++ before, after, by simp⟩

theorem HasBlockComment.append (comment : HasBlockComment t) (front back : Text) : HasBlockComment (front ++ (t ++ back)) := by
  obtain ⟨before, _, rfl, inner, after, rfl⟩ := comment
  exact ⟨front ++ before, inner ++ '*' :: '/' :: (after ++ back), by simp, inner, after ++ back, rfl⟩

theorem mark_cons {a b : Char} : (∃ before after, c :: t = before ++ a :: b :: after) ↔
      (c = a ∧ ∃ after, t = b :: after) ∨ ∃ before after, t = before ++ a :: b :: after := by
  constructor
  · rintro ⟨before, after, whole⟩
    cases before with
    | nil =>
      obtain ⟨rfl, rfl⟩ := List.cons.inj whole
      exact .inl ⟨rfl, after, rfl⟩
    | cons d before =>
      obtain ⟨-, rfl⟩ := List.cons.inj whole
      exact .inr ⟨before, after, rfl⟩
  · rintro (⟨rfl, after, rfl⟩ | ⟨before, after, rfl⟩)
    · exact ⟨[], after, rfl⟩
    · exact ⟨c :: before, after, rfl⟩

theorem endsComment_cons : EndsComment (c :: t) ↔ (c = '*' ∧ ∃ after, t = '/' :: after) ∨ EndsComment t := mark_cons

theorem opensComment_cons : OpensComment (c :: t) ↔ (c = '/' ∧ ∃ inner, t = '*' :: inner) ∨ OpensComment t := mark_cons

theorem hasBlockComment_cons : HasBlockComment (c :: t) ↔
      (c = '/' ∧ ∃ inner, t = '*' :: inner ∧ EndsComment inner) ∨ HasBlockComment t := by
  constructor
  · rintro ⟨before, inner, whole, ends⟩
    cases before with
    | nil =>
      obtain ⟨rfl, rfl⟩ := List.cons.inj whole
      exact .inl ⟨rfl, inner, rfl, ends⟩
    | cons d before =>
      obtain ⟨-, rfl⟩ := List.cons.inj whole
      exact .inr ⟨before, inner, rfl, ends⟩
  · rintro (⟨rfl, inner, rfl, ends⟩ | ⟨before, inner, rfl, ends⟩)
    · exact ⟨[], inner, rfl, ends⟩
    · exact ⟨c :: before, inner, rfl, ends⟩

theorem hasLineComment_cons {afterBlank : Bool} : HasLineComment afterBlank (c :: t) ↔
      (afterBlank = true ∧ c = '/' ∧ ∃ after, t = '/' :: after) ∨ HasLineComment (isBlank c) t := by
  constructor
  · rintro ⟨before, after, whole, first, last⟩
    cases before with
    | nil =>
      obtain ⟨rfl, rfl⟩ := List.cons.inj whole
      exact .inl ⟨first rfl, rfl, after, rfl⟩
    | cons d before =>
      obtain ⟨rfl, rfl⟩ := List.cons.inj whole
      refine .inr ⟨before, after, rfl, ?_, ?_⟩
      · rintro rfl
        exact last c rfl
      · intro e member
        exact last e (mem_getLast?_cons member)
  · rintro (⟨blank, rfl, after, rfl⟩ | ⟨before, after, rfl, first, last⟩)
    · exact ⟨[], after, rfl, fun _ => blank, by simp⟩
    · refine ⟨c :: before, after, rfl, by simp, ?_⟩
      intro e member
      cases before with
      | nil =>
        cases member
        exact first rfl
      | cons f before => exact last e (by simpa [getLast?_cons] using member)

section Parted

variable {q : Char} (slash : q ≠ '/') (star : q ≠ '*') {x y : Text}

include slash star

theorem endsComment_parted : EndsComment (x ++ q :: y) ↔ EndsComment x ∨ EndsComment y := by
  induction x with
  | nil => simp [endsComment_cons, star]
  | cons c x ih =>
    rw [cons_append, endsComment_cons, endsComment_cons, ih, or_assoc]
    cases x with
    | nil => simp [slash]
    | cons d x => simp

theorem hasBlockComment_parted : HasBlockComment (x ++ q :: y) ↔
    HasBlockComment x ∨ HasBlockComment y ∨ (OpensComment x ∧ EndsComment y) := by
  induction x with
  | nil => simp [hasBlockComment_cons, slash]
  | cons c x ih =>
    rw [cons_append, hasBlockComment_cons, hasBlockComment_cons, opensComment_cons, ih]
    cases x with
    | nil => simp [star]
    | cons d x =>
      have ends := endsComment_parted slash star (x := x) (y := y)
      simp only [cons_append, List.cons.injEq]
      grind

omit star

theorem hasLineComment_parted (visible : isBlank q = false) {a : Bool} :
    HasLineComment a (x ++ q :: y) ↔ HasLineComment a x ∨ HasLineComment false y := by
  induction x generalizing a with
  | nil => simp [hasLineComment_cons, slash, visible]
  | cons c x ih =>
    rw [cons_append, hasLineComment_cons, hasLineComment_cons, ih, or_assoc]
    cases x with
    | nil => simp [slash]
    | cons d x => simp

end Parted

-- Characters of the first text in their order. Those that are neighbours in the second text are so
-- in the first, but for blanks, behind which the first may have lost some.
inductive Thins : Text → Text → Prop where
  | nil (t : Text) : Thins t []
  | keep (c : Char) {t u : Text} (rest : Thins t u) : Thins (c :: t) (c :: u)
  | gap {b : Char} (blank : isBlank b = true) (lost : Text) {t u : Text} (rest : Thins t u) :
      Thins (lost ++ t) (b :: u)

namespace Thins

variable {t u : Text}

theorem endsComment (thins : Thins t u) (ends : EndsComment u) : EndsComment t := by
  induction thins with
  | nil t => exact absurd ends endsComment_nil
  | @keep c t u rest ih =>
    rcases endsComment_cons.mp ends with ⟨rfl, after, rfl⟩ | later
    · cases rest with
      | keep => exact ⟨[], _, rfl⟩
      | gap blank => simp [isBlank] at blank
    · exact (ih later).append [c]
  | @gap b blank lost t u rest ih =>
    rcases endsComment_cons.mp ends with ⟨rfl, _⟩ | later
    · simp [isBlank] at blank
    · exact (ih later).append lost

theorem hasBlockComment (thins : Thins t u) (comment : HasBlockComment u) : HasBlockComment t := by
  induction thins with
  | nil t => exact absurd comment hasBlockComment_nil
  | @keep c t u rest ih =>
    rcases hasBlockComment_cons.mp comment with ⟨rfl, inner, rfl, ends⟩ | later
    · cases rest with
      | keep _ rest => exact ⟨[], _, rfl, rest.endsComment ends⟩
      | gap blank => simp [isBlank] at blank
    · simpa using (ih later).append [c] []
  | @gap b blank lost t u rest ih =>
    rcases hasBlockComment_cons.mp comment with ⟨rfl, _⟩ | later
    · simp [isBlank] at blank
    · simpa using (ih later).append lost []

theorem mem (thins : Thins t u) {c : Char} (visible : isBlank c = false) (member : c ∈ u) : c ∈ t := by
  induction thins with
  | nil => cases member
  | keep d rest ih =>
    rcases mem_cons.mp member with rfl | later
    · exact mem_cons_self
    · exact mem_cons_of_mem d (ih later)
  | gap blank lost rest ih =>
    rcases mem_cons.mp member with rfl | later
    · simp [visible] at blank
    · exact mem_append_right lost (ih later)

theorem lose (c : Char) (thins : Thins t u) (blank : ∀ d ∈ u.head?, isBlank d = true) : Thins (c :: t) u := by
  cases thins with
  | nil => exact .nil _
  | keep d rest => exact .gap (blank d rfl) [c, d] rest
  | gap isGap lost rest => exact .gap isGap (c :: lost) rest

end Thins

end Text

namespace Import

variable {t : Text}

theorem afterComment?_isSome : (afterComment? t).isSome = true ↔ EndsComment t := by
  fun_induction afterComment? t with
  | case1 => simp
  | case2 rest => simpa using endsComment_cons.mpr (.inl ⟨rfl, rest, rfl⟩)
  | case3 c rest other ih =>
    rw [ih, endsComment_cons]
    constructor
    · exact .inr
    · rintro (⟨rfl, after, rfl⟩ | later)
      · exact absurd rfl (other after rfl)
      · exact later

theorem comment_here {c : Char} : ((dropLead? "/*" (c :: t)).bind afterComment?).isSome = true ↔
      c = '/' ∧ ∃ inner, t = '*' :: inner ∧ EndsComment inner := by
  simp only [Option.isSome_bind, Option.any_eq_true, dropLead?_eq_some, afterComment?_isSome]
  constructor
  · rintro ⟨inner, whole, ends⟩
    obtain ⟨rfl, rfl⟩ := List.cons.inj whole
    exact ⟨rfl, inner, rfl, ends⟩
  · rintro ⟨rfl, inner, rfl, ends⟩
    exact ⟨inner, rfl, ends⟩

theorem stripBlockComments_eq_self (free : ¬HasBlockComment t) : stripBlockComments 0 t = t := by
  induction t with
  | nil => rfl
  | cons c t ih =>
    rw [hasBlockComment_cons, not_or, ← comment_here, Bool.not_eq_true, Option.isSome_eq_false_iff,
      Option.isNone_iff_eq_none] at free
    rw [stripBlockComments, free.1, ih free.2]

theorem stripBlockComments_thins (skip : Nat) (t : Text) : Thins (t.drop skip) (stripBlockComments skip t) := by
  induction t generalizing skip with
  | nil => simpa [stripBlockComments] using Thins.nil []
  | cons c t ih =>
    cases skip with
    | succ skip => exact ih skip
    | zero =>
      rw [stripBlockComments]
      split
      · rename_i tail _
        have rest := ih (t.length - tail.length)
        have whole : List.drop 0 (c :: t) = (c :: t.take (t.length - tail.length)) ++ t.drop (t.length - tail.length) := by simp
        rw [whole]
        exact .gap rfl _ rest
      · exact .keep c (ih 0)

theorem stripBlockComments_free (skip : Nat) (t : Text) : ¬HasBlockComment (stripBlockComments skip t) := by
  induction t generalizing skip with
  | nil => simp [stripBlockComments]
  | cons c t ih =>
    cases skip with
    | succ skip => exact ih skip
    | zero =>
      rw [stripBlockComments]
      split
      · rw [hasBlockComment_cons]
        rintro (⟨other, _⟩ | later)
        · cases other
        · exact ih _ later
      · rename_i none
        rw [hasBlockComment_cons]
        rintro (⟨rfl, inner, opened, ends⟩ | later)
        · have thins := stripBlockComments_thins 0 t
          rw [opened] at thins
          have here : ((dropLead? "/*" ('/' :: t)).bind afterComment?).isSome = true := by
            cases thins with
            | keep _ rest => exact comment_here.mpr ⟨rfl, _, rfl, rest.endsComment ends⟩
            | gap blank => simp [isBlank] at blank
          simp [none] at here
        · exact ih 0 later

theorem stripLineComments_eq_self {afterBlank : Bool}
    (free : ¬HasLineComment afterBlank t) : stripLineComments afterBlank false t = t := by
  induction t generalizing afterBlank with
  | nil => rfl
  | cons c t ih =>
    rw [hasLineComment_cons, not_or] at free
    have noComment : (afterBlank && startsWith (c :: t) "//") = false := by
      rw [Bool.eq_false_iff, ne_eq, Bool.and_eq_true, startsWith_iff]
      rintro ⟨blank, after, whole⟩
      obtain ⟨rfl, rfl⟩ := List.cons.inj whole
      exact free.1 ⟨blank, rfl, after, rfl⟩
    rw [stripLineComments, noComment, ih free.2]
    simp

theorem stripLineComments_break (t : Text) : ∀ c ∈ (stripLineComments false true t).head?, c = '\n' := by
  induction t with
  | nil => simp [stripLineComments]
  | cons c t ih =>
    rw [stripLineComments]
    split
    · exact ih
    · rename_i other
      simp_all

theorem stripLineComments_thins (afterBlank : Bool) (t : Text) :
    Thins t (stripLineComments afterBlank false t) ∧ Thins t (stripLineComments false true t) := by
  have lost : ∀ (c : Char) {t : Text}, Thins t (stripLineComments false true t) →
      Thins (c :: t) (stripLineComments false true t) := by
    intro c t rest
    apply rest.lose
    intro d first
    rw [stripLineComments_break t d first]
    rfl
  induction t generalizing afterBlank with
  | nil => exact ⟨.nil [], .nil []⟩
  | cons c t ih =>
    constructor
    · rw [stripLineComments]
      split
      · simp_all
      · split
        · exact lost c (ih false).2
        · exact .keep c (ih (isBlank c)).1
    · rw [stripLineComments]
      split
      · exact lost c (ih false).2
      · exact .keep c (ih (isBlank c)).1

theorem stripLineComments_free (afterBlank : Bool) (t : Text) :
    ¬HasLineComment afterBlank (stripLineComments afterBlank false t) ∧
      ∀ behind, ¬HasLineComment behind (stripLineComments false true t) := by
  induction t generalizing afterBlank with
  | nil => simp [stripLineComments]
  | cons c t ih =>
    constructor
    · rw [stripLineComments]
      split
      · simp_all
      · split
        · exact (ih false).2 afterBlank
        · rename_i other
          rw [hasLineComment_cons]
          rintro (⟨rfl, rfl, after, opened⟩ | later)
          · have thins := (stripLineComments_thins (isBlank '/') t).1
            rw [opened] at thins
            cases thins with
            | keep => simp [startsWith] at other
            | gap blank => simp [isBlank] at blank
          · exact (ih (isBlank c)).1 later
    · intro behind
      rw [stripLineComments]
      split
      · exact (ih false).2 behind
      · rename_i other
        have line : c = '\n' := by simpa using other
        subst line
        rw [Bool.false_and, if_neg Bool.false_ne_true, hasLineComment_cons]
        rintro (⟨_, first, _⟩ | later)
        · cases first
        · exact (ih true).1 later

end Import

namespace Text

variable {t : Text}

def squeezeTail (t : Text) : Text :=
  if words t = [] then [] else if t.head?.any isBlank then ' ' :: squeeze t else squeeze t

theorem squeeze_cons {c : Char} (visible : isBlank c = false) (t : Text) : squeeze (c :: t) = c :: squeezeTail t := by
  have alone : words [c] = [[c]] := by
    rw [words.eq_def]
    exact if_neg (by simp [visible])
  cases t with
  | nil =>
    rw [squeeze, alone]
    rfl
  | cons d t =>
    unfold squeezeTail squeeze
    cases next : isBlank d with
    | true =>
      rw [words_apart visible next]
      by_cases none : words (d :: t) = []
      · simp [none, joinWith]
      · simp [none, next, joinWith_cons none]
    | false =>
      cases found : words (d :: t) with
      | nil => exact absurd found (words_visible next t)
      | cons w ws =>
        rw [words_close visible next found]
        cases ws <;> simp [next, joinWith]

theorem squeezeTail_visible {c : Char} (visible : isBlank c = false) (t : Text) : squeezeTail (c :: t) = squeeze (c :: t) := by
  rw [squeezeTail, if_neg (words_visible visible t), if_neg (by simp [visible])]

theorem squeezeTail_blank {c : Char} (blank : isBlank c = true) (t : Text) :
    squeezeTail (c :: t) = if words t = [] then [] else ' ' :: squeeze t := by
  rw [squeezeTail, squeeze_blank blank, words_blank blank]
  simp [blank]

def Single (afterVisible : Bool) : Text → Prop
  | [] => True
  | c :: t => (isBlank c = true → c = ' ' ∧ afterVisible = true) ∧ Single (!isBlank c) t

theorem Single.mono (single : Single false t) : Single true t := by
  cases t with
  | nil => trivial
  | cons c t => exact ⟨fun blank => ⟨(single.1 blank).1, rfl⟩, single.2⟩

theorem single_append {a : Bool} {x y : Text} :
    Single a (x ++ y) ↔ Single a x ∧ Single ((x.getLast?.map (!isBlank ·)).getD a) y := by
  induction x generalizing a with
  | nil => simp [Single]
  | cons c x ih =>
    rw [cons_append, Single, Single, ih, and_assoc]
    cases x with
    | nil => simp
    | cons d x => simp [getLast?_cons]

theorem squeeze_single (t : Text) : Single false (squeeze t) := by
  induction t with
  | nil => trivial
  | cons c t ih =>
    cases blank : isBlank c with
    | true =>
      rw [squeeze_blank blank]
      exact ih
    | false =>
      rw [squeeze_cons blank]
      refine ⟨by simp [blank], ?_⟩
      rw [blank, squeezeTail]
      split
      · trivial
      · split
        · exact ⟨fun _ => ⟨rfl, rfl⟩, ih⟩
        · exact ih.mono

theorem squeeze_eq_self (last : ∀ c ∈ t.getLast?, isBlank c = false) :
    (Single false t → squeeze t = t) ∧ (Single true t → squeezeTail t = t) := by
  induction t with
  | nil => exact ⟨fun _ => rfl, fun _ => rfl⟩
  | cons c t ih =>
    have behind : ∀ d ∈ t.getLast?, isBlank d = false := by
      intro d member
      exact last d (mem_getLast?_cons member)
    obtain ⟨anew, onward⟩ := ih behind
    cases blank : isBlank c with
    | false =>
      have whole : ∀ {a}, Single a (c :: t) → squeeze (c :: t) = c :: t := by
        intro a single
        have rest : Single (!isBlank c) t := single.2
        rw [blank] at rest
        rw [squeeze_cons blank, onward rest]
      refine ⟨whole, fun single => ?_⟩
      rw [squeezeTail_visible blank, whole single]
    | true =>
      constructor
      · intro single
        cases (single.1 blank).2
      · intro single
        have rest : Single (!isBlank c) t := single.2
        rw [blank] at rest
        obtain ⟨d, u, rfl⟩ : ∃ d u, t = d :: u := by
          apply exists_cons_of_ne_nil
          rintro rfl
          simp [blank] at last
        have visible : isBlank d = false := by
          rw [Bool.eq_false_iff]
          intro also
          cases (rest.1 also).2
        rw [squeezeTail_blank blank, if_neg (words_visible visible u), anew rest, (single.1 blank).1]

theorem squeeze_thins (t : Text) : (∃ lost u, t = lost ++ u ∧ Thins u (squeeze t)) ∧ Thins t (squeezeTail t) := by
  induction t with
  | nil => exact ⟨⟨[], [], rfl, .nil []⟩, .nil []⟩
  | cons c t ih =>
    obtain ⟨⟨lost, u, whole, rest⟩, tail⟩ := ih
    cases blank : isBlank c with
    | true =>
      refine ⟨⟨c :: lost, u, by simp [whole], by rwa [squeeze_blank blank]⟩, ?_⟩
      rw [squeezeTail_blank blank]
      split
      · exact .nil _
      · have parts : c :: t = (c :: lost) ++ u := by simp [whole]
        rw [parts]
        exact .gap rfl _ rest
    | false =>
      have kept : Thins (c :: t) (squeeze (c :: t)) := by
        rw [squeeze_cons blank]
        exact .keep c tail
      refine ⟨⟨[], _, rfl, kept⟩, ?_⟩
      rw [squeezeTail_visible blank]
      exact kept

theorem hasBlockComment_of_squeeze (comment : HasBlockComment (squeeze t)) : HasBlockComment t := by
  obtain ⟨⟨lost, u, rfl, thins⟩, _⟩ := squeeze_thins t
  simpa using (thins.hasBlockComment comment).append lost []

theorem hasLineComment_of_squeeze : (HasLineComment true (squeeze t) → HasLineComment true t) ∧
      (HasLineComment false (squeezeTail t) → HasLineComment false t) := by
  induction t with
  | nil => exact ⟨id, id⟩
  | cons c t ih =>
    cases blank : isBlank c with
    | true =>
      refine ⟨?_, ?_⟩
      · rw [squeeze_blank blank, hasLineComment_cons, blank]
        exact fun comment => .inr (ih.1 comment)
      · rw [squeezeTail_blank blank]
        split
        · simp
        · rw [hasLineComment_cons, hasLineComment_cons, blank]
          rintro (⟨other, _⟩ | comment)
          · cases other
          · exact .inr (ih.1 comment)
    | false =>
      have visible : ∀ a, HasLineComment a (squeeze (c :: t)) → HasLineComment a (c :: t) := by
        intro a
        rw [squeeze_cons blank, hasLineComment_cons, hasLineComment_cons, blank]
        rintro (⟨behind, rfl, after, opened⟩ | later)
        · have thins := (squeeze_thins t).2
          rw [opened] at thins
          cases thins with
          | keep => exact .inl ⟨behind, rfl, _, rfl⟩
          | gap blank => simp [isBlank] at blank
        · exact .inr (ih.2 later)
      refine ⟨visible true, ?_⟩
      rw [squeezeTail_visible blank]
      exact visible false

end Text

namespace Import

theorem plainText_plain (raw : Text) : CommentFree (plainText raw) ∧ Single false (plainText raw) := by
  rw [plainText_eq]
  refine ⟨⟨?_, ?_⟩, squeeze_single _⟩
  · intro comment
    have thins := (stripLineComments_thins true (stripBlockComments 0 raw)).1
    exact stripBlockComments_free 0 raw (thins.hasBlockComment (hasBlockComment_of_squeeze comment))
  · intro comment
    exact (stripLineComments_free true _).1 (hasLineComment_of_squeeze.1 comment)

theorem plainText_of_free {t : Text} (free : CommentFree t) : plainText t = squeeze t := by
  rw [plainText_eq, stripBlockComments_eq_self free.block, stripLineComments_eq_self free.line]

end Import

end ModuleSplit
