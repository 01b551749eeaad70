import ModuleSplit.Import.Reader
import ModuleSplit.Proofs.Declaration.Phrase

-- What the readers of imports see of a statement that names a module beside it: comments are taken
-- out before anything is read, also where the name of the module looks like one, but the quotes
-- around the name stay where they are.

namespace ModuleSplit

open List Text Option

namespace Text

variable {c : Char} {t w : Text}

theorem words_blank (blank : isBlank c = true) (t : Text) : words (c :: t) = words t := by
  rw [words.eq_def]
  exact if_pos blank

theorem words_apart {d : Char} (visible : isBlank c = false) (blank : isBlank d = true)
    (t : Text) : words (c :: d :: t) = [c] :: words (d :: t) := by
  rw [words.eq_def]
  exact (if_neg (by simp [visible])).trans (if_pos blank)

theorem words_close {d : Char} (visible : isBlank c = false) (next : isBlank d = false) {ws : List Text}
    (rest : words (d :: t) = w :: ws) : words (c :: d :: t) = (c :: w) :: ws := by
  rw [words.eq_def]
  refine (if_neg (by simp [visible])).trans ((if_neg (by simp [next])).trans ?_)
  rw [rest]

theorem words_visible (visible : isBlank c = false) (t : Text) : words (c :: t) ≠ [] := by
  rw [words.eq_def]
  dsimp only
  rw [if_neg (by simp [visible])]
  split
  · simp
  · split
    · simp
    · split <;> simp

theorem words_ne_nil (inside : c ∈ t) (visible : isBlank c = false) : words t ≠ [] := by
  induction t with
  | nil => cases inside
  | cons d t ih =>
    cases blank : isBlank d with
    | false => exact words_visible blank t
    | true =>
      rw [words_blank blank]
      refine ih ((mem_cons.mp inside).resolve_left ?_)
      rintro rfl
      rw [visible] at blank
      cases blank

def squeeze (t : Text) : Text := joinWith " " (words t)

theorem squeeze_blank (blank : isBlank c = true) (t : Text) : squeeze (c :: t) = squeeze t := by
  rw [squeeze, words_blank blank, squeeze]

theorem joinWith_cons {ts : List Text} (more : ts ≠ []) : joinWith " " (t :: ts) = t ++ ' ' :: joinWith " " ts := by
  obtain ⟨u, us, rfl⟩ := exists_cons_of_ne_nil more
  simp [joinWith]

theorem squeeze_word (some : w ≠ []) (visible : ∀ c ∈ w, isBlank c = false)
    (more : words t ≠ []) : squeeze (w ++ ' ' :: t) = w ++ ' ' :: squeeze t := by
  have first : words (w ++ ' ' :: t) = w :: words t := by
    induction w with
    | nil => exact absurd rfl some
    | cons c w ih =>
      rw [forall_mem_cons] at visible
      cases w with
      | nil => exact (words_apart visible.1 rfl t).trans (congrArg _ (words_blank rfl t))
      | cons d w => exact words_close visible.1 (visible.2 d mem_cons_self) (ih nofun visible.2)
  rw [squeeze, first, joinWith_cons more, squeeze]

theorem squeeze_visible (visible : isBlank c = false) (more : words t ≠ []) :
    squeeze (c :: t) = c :: squeeze t ∨ squeeze (c :: t) = c :: ' ' :: squeeze t := by
  cases t with
  | nil => exact absurd rfl more
  | cons d rest =>
    unfold squeeze
    cases next : isBlank d with
    | true =>
      rw [words_apart visible next]
      exact .inr (joinWith_cons more)
    | false =>
      left
      cases found : words (d :: rest) with
      | nil => exact absurd found more
      | cons w ws =>
        rw [words_close visible next found]
        cases ws <;> simp [joinWith]

theorem squeeze_before {quote : Char} {tail : Text} (visible : isBlank quote = false)
    (kept : squeeze (quote :: tail) = quote :: tail) (t : Text) :
    ∃ u, squeeze (t ++ quote :: tail) = u ++ quote :: tail ∧ (∀ c ∈ u, c ∈ t ∨ c = ' ') ∧
      (u = [] → ∀ c ∈ t, isBlank c = true) := by
  induction t with
  | nil => exact ⟨[], kept, by simp, by simp⟩
  | cons c t ih =>
    obtain ⟨u, same, chars, empty⟩ := ih
    have more : words (t ++ quote :: tail) ≠ [] := words_ne_nil (by simp) visible
    have older : ∀ d ∈ u, d ∈ c :: t ∨ d = ' ' := fun d member => (chars d member).imp_left (mem_cons_of_mem c)
    rw [cons_append]
    cases blank : isBlank c with
    | true =>
      rw [squeeze_blank blank, same]
      refine ⟨u, rfl, older, fun none => ?_⟩
      exact forall_mem_cons.mpr ⟨blank, empty none⟩
    | false =>
      rcases squeeze_visible blank more with close | apart
      · rw [close, same]
        exact ⟨c :: u, rfl, forall_mem_cons.mpr ⟨by simp, older⟩, nofun⟩
      · rw [apart, same]
        refine ⟨c :: ' ' :: u, rfl, ?_, nofun⟩
        exact forall_mem_cons.mpr ⟨by simp, forall_mem_cons.mpr ⟨by simp, older⟩⟩

end Text

namespace Import

variable {t : Text}

theorem plainText_eq (raw : Text) : plainText raw = squeeze (stripLineComments true false (stripBlockComments 0 raw)) := rfl

theorem stripBlockComments_plain {lead : Text} (plain : '/' ∉ lead) (rest : Text) :
    stripBlockComments 0 (lead ++ rest) = lead ++ stripBlockComments 0 rest := by
  induction lead with
  | nil => rfl
  | cons c lead ih =>
    rw [mem_cons, not_or] at plain
    have noComment : dropLead? "/*" (c :: (lead ++ rest)) = none := by
      rw [eq_none_iff_forall_ne_some]
      intro tail found
      exact plain.1 (List.cons.inj (dropLead?_eq_some.mp found)).1.symm
    rw [cons_append, stripBlockComments, noComment, ih plain.2]
    rfl

theorem stripBlockComments_none (plain : '/' ∉ t) : stripBlockComments 0 t = t := by
  simpa [stripBlockComments] using stripBlockComments_plain plain []

theorem stripBlockComments_skip (a t : Text) : stripBlockComments a.length (a ++ t) =  stripBlockComments 0 t := by
  induction a with
  | nil => rfl
  | cons c a ih => rw [cons_append, length_cons, stripBlockComments, ih]

theorem afterComment?_none (plain : '/' ∉ t) : afterComment? t = none := by
  fun_induction afterComment? t with
  | case1 => rfl
  | case2 rest => simp at plain
  | case3 c rest _ ih => exact ih (fun inside => plain (mem_cons_of_mem c inside))

theorem afterComment?_slash {dir : Text} (plain : '/' ∉ dir) (last : '/' ∉ t) :
    afterComment? (dir ++ '/' :: t) = none ∨ afterComment? (dir ++ '/' :: t) = some t := by
  induction dir with
  | nil =>
    left
    rw [nil_append, afterComment?]
    · exact afterComment?_none last
    · rintro rest ⟨⟩
  | cons c dir ih =>
    rw [mem_cons, not_or] at plain
    cases dir with
    | nil =>
      by_cases star : c = '*'
      · subst star
        exact .inr rfl
      · left
        rw [cons_append, afterComment?]
        · rw [nil_append, afterComment?]
          · exact afterComment?_none last
          · rintro rest ⟨⟩
        · rintro rest same
          exact absurd same star
    | cons d dir =>
      rw [cons_append, afterComment?]
      · exact ih plain.2
      · rintro rest - same
        simp [(List.cons.inj same).1] at plain

theorem comment_opens {inner : Text} (opened : dropLead? "/*" ('/' :: t) = some inner) : t = '*' :: inner :=
  (List.cons.inj (dropLead?_eq_some.mp opened)).2

theorem stripBlockComments_slash {name : Text} (plain : '/' ∉ name) : stripBlockComments 0 ('/' :: name) = '/' :: name := by
  have noComment : (dropLead? "/*" ('/' :: name)).bind afterComment? = none := by
    rw [eq_none_iff_forall_ne_some]
    intro tail found
    obtain ⟨inner, opened, ended⟩ := bind_eq_some_iff.mp found
    rw [comment_opens opened] at plain
    rw [afterComment?_none (fun inside => plain (mem_cons_of_mem _ inside))] at ended
    cases ended
  rw [stripBlockComments, noComment, stripBlockComments_none plain]

theorem stripBlockComments_directory {dir name : Text} (outer : '/' ∉ dir) (plain : '/' ∉ name) :
    stripBlockComments 0 ('/' :: (dir ++ '/' :: name)) = '/' :: (dir ++ '/' :: name) ∨
      stripBlockComments 0 ('/' :: (dir ++ '/' :: name)) = ' ' :: name := by
  rw [stripBlockComments]
  cases found : (dropLead? "/*" ('/' :: (dir ++ '/' :: name))).bind afterComment? with
  | none =>
    left
    rw [stripBlockComments_plain outer, stripBlockComments_slash plain]
  | some tail =>
    right
    obtain ⟨inner, opened, ended⟩ := bind_eq_some_iff.mp found
    have start := comment_opens opened
    have same : tail = name := by
      cases dir with
      | nil => cases start
      | cons c dir =>
        rw [mem_cons, not_or] at outer
        rw [← (List.cons.inj start).2] at ended
        rcases afterComment?_slash outer.2 plain with never | found
        · exact nomatch never.symm.trans ended
        · exact (Option.some.inj (found.symm.trans ended)).symm
    have length : (dir ++ '/' :: name).length - tail.length = (dir ++ ['/']).length := by
      rw [same, length_append, length_append, length_cons, length_singleton]
      omega
    have cut : dir ++ '/' :: name = (dir ++ ['/']) ++ name := by simp
    dsimp only
    rw [length, cut, stripBlockComments_skip, stripBlockComments_none plain]

theorem stripLineComments_plain {lead : Text} (plain : '/' ∉ lead) (afterBlank : Bool) :
    ∃ last, ∀ rest, stripLineComments afterBlank false (lead ++ rest) = lead ++ stripLineComments last false rest := by
  induction lead generalizing afterBlank with
  | nil => exact ⟨afterBlank, fun _ => rfl⟩
  | cons c lead ih =>
    rw [mem_cons, not_or] at plain
    obtain ⟨last, same⟩ := ih plain.2 (isBlank c)
    refine ⟨last, fun rest => ?_⟩
    have noComment : startsWith (c :: (lead ++ rest)) "//" = false := by
      rw [Bool.eq_false_iff, ne_eq, startsWith_iff]
      rintro ⟨tail, found⟩
      exact plain.1 (List.cons.inj found).1.symm
    rw [cons_append, stripLineComments, noComment, same]
    simp

theorem stripLineComments_none (plain : '/' ∉ t) (afterBlank : Bool) : stripLineComments afterBlank false t = t := by
  obtain ⟨last, same⟩ := stripLineComments_plain plain afterBlank
  simpa [stripLineComments] using same []

theorem stripLineComments_slash {afterBlank : Bool} (apart : afterBlank = false ∨ startsWith t "/" = false) :
    stripLineComments afterBlank false ('/' :: t) = '/' :: stripLineComments false false t := by
  have noComment : (afterBlank && startsWith ('/' :: t) "//") = false := by
    rcases apart with visible | other
    · rw [visible, Bool.false_and]
    · rw [show startsWith ('/' :: t) "//" = startsWith t "/" from rfl, other, Bool.and_false]
  rw [stripLineComments, noComment]
  rfl

end Import

inductive LocalModule : Text → Prop
  | beside {name : Text} (plain : '/' ∉ name) : LocalModule ("./".toList ++ name)
  | below {dir name : Text} (outer : '/' ∉ dir) (plain : '/' ∉ name) (some : name ≠ []) :
      LocalModule ("./".toList ++ dir ++ '/' :: name)

namespace Import

theorem stripComments_module {m : Text} (named : LocalModule m) {lead tail : Text} (front : '/' ∉ lead) (behind : '/' ∉ tail) :
    ∃ inner, stripLineComments true false (stripBlockComments 0 (lead ++ m ++ tail)) =
      lead ++ '.' :: inner ++ tail ∧ ∀ c ∈ inner, c ∈ m ∨ c = ' ' := by
  have dot : '/' ∉ lead ++ ['.'] := by simpa using front
  have joined : ∀ {u v : Text}, '/' ∉ u → '/' ∉ v → '/' ∉ u ++ v := by
    intro u v left right
    simpa using ⟨left, right⟩
  have noBlank : ∀ rest : Text, stripLineComments true false (lead ++ '.' :: rest) =
      lead ++ '.' :: stripLineComments false false rest := by
    intro rest
    obtain ⟨last, same⟩ := stripLineComments_plain front true
    rw [same, stripLineComments, show startsWith ('.' :: rest) "//" = false from rfl, Bool.and_false]
    rfl
  cases named with
  | @beside name plain =>
    have cut : lead ++ ("./".toList ++ name) ++ tail = (lead ++ ['.']) ++ '/' :: (name ++ tail) := by
      simp
    refine ⟨'/' :: name, ?_, fun c member => .inl (mem_cons_of_mem '.' member)⟩
    rw [cut, stripBlockComments_plain dot, stripBlockComments_slash (joined plain behind),
      append_assoc, singleton_append, noBlank, stripLineComments_slash (.inl rfl),
      stripLineComments_none (joined plain behind)]
    simp
  | @below dir name outer plain some =>
    have cut : lead ++ ("./".toList ++ dir ++ '/' :: name) ++ tail =
        (lead ++ ['.']) ++ '/' :: (dir ++ '/' :: (name ++ tail)) := by
      simp
    rw [cut, stripBlockComments_plain dot]
    rcases stripBlockComments_directory outer (joined plain behind) with same | comment
    · refine ⟨'/' :: (dir ++ '/' :: name), ?_, fun c member => .inl (mem_cons_of_mem '.' member)⟩
      obtain ⟨last, passed⟩ := stripLineComments_plain outer false
      have single : startsWith (name ++ tail) "/" = false := by
        obtain ⟨c, rest, rfl⟩ := exists_cons_of_ne_nil some
        rw [Bool.eq_false_iff, ne_eq, startsWith_iff]
        rintro ⟨more, found⟩
        exact plain ((List.cons.inj found).1 ▸ mem_cons_self)
      rw [same, append_assoc, singleton_append, noBlank, stripLineComments_slash (.inl rfl),
        passed, stripLineComments_slash (.inr single), stripLineComments_none (joined plain behind)]
      simp
    · refine ⟨' ' :: name, ?_, by simp +contextual⟩
      have space : '/' ∉ ' ' :: (name ++ tail) := by simpa using ⟨plain, behind⟩
      rw [comment, append_assoc, singleton_append, noBlank, stripLineComments_none space]
      simp

end Import

end ModuleSplit
