import ModuleSplit.Proofs.Import.Resolution
import ModuleSplit.Proofs.Import.RoundTrip

namespace ModuleSplit

open List Text Phrase Option

namespace Text

theorem squeeze_front {q : Char} (visible : isBlank q = false) (t : Text) :
    (∃ u, (∀ c ∈ u, c ∈ t ∨ c = ' ') ∧ ∀ y, squeeze (t ++ q :: y) = u ++ q :: squeezeTail y) ∧
      ∃ u, (∀ c ∈ u, c ∈ t ∨ c = ' ') ∧ ∀ y, squeezeTail (t ++ q :: y) = u ++ q :: squeezeTail y := by
  induction t with
  | nil =>
    refine ⟨⟨[], by simp, squeeze_cons visible⟩, [], by simp, fun y => ?_⟩
    rw [nil_append, squeezeTail_visible visible, squeeze_cons visible]
    rfl
  | cons c t ih =>
    obtain ⟨⟨u, inside, anew⟩, v, within, onward⟩ := ih
    have older : ∀ {w : Text}, (∀ d ∈ w, d ∈ t ∨ d = ' ') → ∀ d ∈ w, d ∈ c :: t ∨ d = ' ' :=
      fun known d member => (known d member).imp_left (mem_cons_of_mem c)
    cases blank : isBlank c with
    | true =>
      refine ⟨⟨u, older inside, fun y => ?_⟩, ' ' :: u, ?_, fun y => ?_⟩
      · rw [cons_append, squeeze_blank blank, anew]
      · exact forall_mem_cons.mpr ⟨.inr rfl, older inside⟩
      · have more : words (t ++ q :: y) ≠ [] := words_ne_nil (by simp) visible
        rw [cons_append, squeezeTail_blank blank, if_neg more, anew]
        rfl
    | false =>
      have first : ∀ y, squeeze (c :: t ++ q :: y) = c :: v ++ q :: squeezeTail y := by
        intro y
        rw [cons_append, squeeze_cons blank, onward]
        rfl
      have chars : ∀ d ∈ c :: v, d ∈ c :: t ∨ d = ' ' :=
        forall_mem_cons.mpr ⟨.inl mem_cons_self, older within⟩
      refine ⟨⟨c :: v, chars, first⟩, c :: v, chars, fun y => ?_⟩
      rw [← first, cons_append, squeezeTail_visible blank]

theorem squeezeTail_append {w : Text} (visible : ∀ c ∈ w, isBlank c = false) (t : Text) :
    squeezeTail (w ++ t) = w ++ squeezeTail t := by
  induction w with
  | nil => rfl
  | cons c w ih =>
    rw [forall_mem_cons] at visible
    rw [cons_append, squeezeTail_visible visible.1, squeeze_cons visible.1, ih visible.2]
    rfl

theorem squeezeTail_word {w t y : Text} (visible : ∀ c ∈ w, isBlank c = false)
    (same : squeezeTail t = w ++ y) : ∃ rest, t = w ++ rest ∧ squeezeTail rest = y := by
  induction w generalizing t with
  | nil => exact ⟨t, rfl, same⟩
  | cons c w ih =>
    rw [forall_mem_cons] at visible
    cases t with
    | nil => cases same
    | cons d t =>
      cases blank : isBlank d with
      | true =>
        rw [squeezeTail_blank blank] at same
        split at same
        · cases same
        · obtain ⟨rfl, -⟩ := List.cons.inj same
          cases visible.1
      | false =>
        rw [squeezeTail_visible blank, squeeze_cons blank] at same
        obtain ⟨rfl, later⟩ := List.cons.inj same
        obtain ⟨rest, rfl, behind⟩ := ih visible.2 later
        exact ⟨rest, rfl, behind⟩

end Text

theorem QuoteFree.unique {f g x y : Text} {p q : Char} (left : QuoteFree f) (right : QuoteFree g)
    (isQuote : IsQuote p) (other : IsQuote q) (same : f ++ p :: x = g ++ q :: y) : f = g ∧ p = q ∧ x = y := by
  induction f generalizing g with
  | nil =>
    cases g with
    | nil =>
      obtain ⟨rfl, rfl⟩ := List.cons.inj same
      exact ⟨rfl, rfl, rfl⟩
    | cons d g =>
      obtain ⟨rfl, -⟩ := List.cons.inj same
      exact absurd isQuote (right p mem_cons_self)
  | cons c f ih =>
    cases g with
    | nil =>
      obtain ⟨rfl, -⟩ := List.cons.inj same
      exact absurd other (left c mem_cons_self)
    | cons d g =>
      obtain ⟨rfl, later⟩ := List.cons.inj same
      obtain ⟨rfl, rest⟩ := ih (left.subset (subset_cons_self c f))
        (right.subset (subset_cons_self c g)) later
      exact ⟨rfl, rest⟩

theorem exists_first_quote {t : Text} {c : Char} (member : c ∈ t) (isQuote : IsQuote c) :
    ∃ f q x, t = f ++ q :: x ∧ QuoteFree f ∧ IsQuote q := by
  induction t with
  | nil => cases member
  | cons d t ih =>
    by_cases here : IsQuote d
    · exact ⟨[], d, t, rfl, by simp [QuoteFree], here⟩
    · have later : c ∈ t := (mem_cons.mp member).resolve_left fun same => here (same ▸ isQuote)
      obtain ⟨f, q, x, rfl, free, found⟩ := ih later
      exact ⟨d :: f, q, x, rfl, forall_mem_cons.mpr ⟨here, free⟩, found⟩

section Renaming

variable {raw f m tail : Text} {quote : Char}

theorem plainText_quoted (free : CommentFree raw) (quoted : Quoted quote m) (visible : ∀ c ∈ m, isBlank c = false)
    (plain : Import.plainText raw = f ++ quote :: (m ++ quote :: tail)) (front : QuoteFree f) :
    ∃ lead rest, raw = lead ++ quote :: (m ++ quote :: rest) ∧ QuoteFree lead ∧ ∀ n, (∀ c ∈ n, isBlank c = false) →
        squeeze (lead ++ quote :: (n ++ quote :: rest)) = f ++ quote :: (n ++ quote :: tail) := by
  have seen := quoted.isQuote.visible
  rw [Import.plainText_of_free free] at plain
  have inside : quote ∈ raw := by
    obtain ⟨⟨lost, kept, whole, thins⟩, -⟩ := squeeze_thins raw
    rw [whole]
    exact mem_append_right lost (thins.mem seen (by simp [plain]))
  obtain ⟨lead, q, rest, rfl, leading, isQuote⟩ := exists_first_quote inside quoted.isQuote
  obtain ⟨⟨u, chars, squeezed⟩, -⟩ := squeeze_front isQuote.visible lead
  have blankFree : QuoteFree u := by
    intro c member other
    rcases chars c member with own | rfl
    · exact leading c own other
    · rcases other with space | space <;> cases space
  rw [squeezed] at plain
  obtain ⟨rfl, rfl, behind⟩ := blankFree.unique front isQuote quoted.isQuote plain
  have word : ∀ {n : Text}, (∀ c ∈ n, isBlank c = false) → ∀ c ∈ n ++ [q], isBlank c = false :=
    fun visible => forall_mem_append.mpr ⟨visible, by simpa using seen⟩
  rw [append_cons] at behind
  obtain ⟨rest, rfl, rfl⟩ := squeezeTail_word (word visible) behind
  refine ⟨lead, rest, by simp, leading, fun n visible => ?_⟩
  have behind := squeezeTail_append (word visible) rest
  simp only [append_assoc, singleton_append] at behind
  rw [squeezed, behind]

theorem replaceFirst_quoted {lead : Text} (free : QuoteFree lead) (isQuote : IsQuote quote)
    (m n rest : Text) : replaceFirst (Import.quoted quote m) (Import.quoted quote n)
      (lead ++ quote :: (m ++ quote :: rest)) = lead ++ quote :: (n ++ quote :: rest) := by
  induction lead with
  | nil =>
    have found : after? (Import.quoted quote m) (quote :: (m ++ quote :: rest)) = some rest :=
      after?_eq_some.mpr (by simp [Import.quoted])
    rw [nil_append, replaceFirst, found]
    simp [Import.quoted]
  | cons c lead ih =>
    have other : c ≠ quote := by
      rintro rfl
      exact free c mem_cons_self isQuote
    have passed : after? (Import.quoted quote m) (c :: (lead ++ quote :: (m ++ quote :: rest))) = none := by
      rw [eq_none_iff_forall_ne_some]
      intro behind found
      exact other (List.cons.inj (after?_eq_some.mp found)).1
    rw [cons_append, replaceFirst, passed, ih (free.subset (subset_cons_self c lead))]
    rfl

theorem no_comment_inside {n : Text} (inner : ∀ c ∈ n, isBlank c = false ∧ c ≠ '*') :
    ¬OpensComment n ∧ ¬EndsComment n ∧ ¬HasBlockComment n ∧ ¬HasLineComment false n := by
  refine ⟨?_, ?_, ?_, ?_⟩
  · rintro ⟨before, after, rfl⟩
    exact (inner '*' (by simp)).2 rfl
  · rintro ⟨before, after, rfl⟩
    exact (inner '*' (by simp)).2 rfl
  · rintro ⟨before, after, rfl, _⟩
    exact (inner '*' (by simp)).2 rfl
  · rintro ⟨before, after, rfl, first, last⟩
    cases ends : before.getLast? with
    | none => cases first (getLast?_eq_none_iff.mp ends)
    | some c =>
      have blank := last c ends
      rw [(inner c (by simp [mem_of_getLast? ends])).1] at blank
      cases blank

theorem plainText_replaceFirst (free : CommentFree raw) (quoted : Quoted quote m) (visible : ∀ c ∈ m, isBlank c = false)
    (plain : Import.plainText raw = f ++ quote :: (m ++ quote :: tail)) (front : QuoteFree f)
    {n : Text} (inner : ∀ c ∈ n, isBlank c = false ∧ c ≠ '*') :
    Import.plainText (replaceFirst (Import.quoted quote m) (Import.quoted quote n) raw) =
      f ++ quote :: (n ++ quote :: tail) := by
  obtain ⟨lead, rest, rfl, leading, squeezed⟩ := plainText_quoted free quoted visible plain front
  obtain ⟨opens, ends, block, line⟩ := no_comment_inside inner
  have kept : CommentFree (lead ++ quote :: (n ++ quote :: rest)) := by
    rw [commentFree_quoted quoted.isQuote] at free ⊢
    obtain ⟨⟨noBlock, ⟨-, noBlock', -⟩, apart⟩, noLine, -, noLine'⟩ := free
    refine ⟨⟨noBlock, ⟨block, noBlock', fun both => opens both.1⟩, ?_⟩, noLine, line, noLine'⟩
    rintro ⟨opened, inside | behind⟩
    · exact ends inside
    · exact apart ⟨opened, .inr behind⟩
  rw [replaceFirst_quoted leading quoted.isQuote, Import.plainText_of_free kept]
  exact squeezed n fun c member => (inner c member).1

end Renaming

namespace ModuleName

theorem legible_of_visible {m : Text} (filled : m ≠ []) (plain : ∀ c ∈ m, ¬IsQuote c ∧ isBlank c = false ∧ c ≠ '*') : Legible m := by
  obtain ⟨-, -, block, line⟩ := no_comment_inside fun c member => (plain c member).2
  exact ⟨filled, fun c member => (plain c member).1, block, line, single_visible (fun c member => (plain c member).2.1) true⟩

theorem rebase_inner {m : Text} {quote : Char} (quoted : Quoted quote m)
    (inner : ∀ c ∈ m, isBlank c = false ∧ c ≠ '*') (depth : Nat) :
    Quoted quote (rebase depth m) ∧ ∀ c ∈ rebase depth m, isBlank c = false ∧ c ≠ '*' := by
  refine ⟨⟨quoted.isQuote, ?_, ?_⟩, ?_⟩
  · cases relative : startsWith m "." with
    | false =>
      rw [rebase_fixed relative]
      exact quoted.filled
    | true =>
      by_cases deeper : depth = 0
      · rw [deeper]
        exact quoted.filled
      · obtain ⟨rest, first⟩ := startsWith_iff.mp (rebase_relative deeper relative)
        rw [first]
        simp
  · intro c member
    rcases mem_rebase member with own | rfl | rfl
    · exact quoted.inner c own
    · simp [IsQuote]
    · simp [IsQuote]
  · intro c member
    rcases mem_rebase member with own | rfl | rfl
    · exact inner c own
    · exact ⟨rfl, by decide⟩
    · exact ⟨rfl, by decide⟩

end ModuleName

namespace Import

theorem read?_elsewhere {raw other f m n tail : Text} {quote : Char} {semicolon : Bool}
    (quoted : Quoted quote m) (renamed : Quoted quote n) (free : QuoteFree f) (ends : ending? tail = some semicolon)
    (plain : plainText raw = f ++ quote :: (m ++ quote :: tail))
    (changed : plainText other = f ++ quote :: (n ++ quote :: tail)) :
    read? other = (read? raw).map fun i => {i with source := n, raw := other} := by
  rw [read?_front quoted plain free ends, read?_front renamed changed free ends]
  split
  · rfl
  · rw [Option.map_map]
    refine congrArg (Option.map · (frontBinding? f)) (funext fun found => ?_)
    rw [contentOf_elsewhere found.1 found.2 m]
    rfl

theorem read?_rebase {raw : Text} {i : Import} (found : read? raw = some i) (free : CommentFree raw)
    (inner : ∀ c ∈ i.source, isBlank c = false ∧ c ≠ '*') (clause : ∀ c ∈ clauseText? raw, QuoteFree c) (depth : Nat) :
    read? (i.rebase depth).raw =
      some {i with source := ModuleName.rebase depth i.source, raw := (i.rebase depth).raw} := by
  have written := read?_raw found
  obtain ⟨quoted, f, tail, plain, ends, front⟩ := read?_namesModule found
  have unquoted := front clause
  have visible : ∀ c ∈ i.source, isBlank c = false := fun c member => (inner c member).1
  obtain ⟨renamed, inner'⟩ := ModuleName.rebase_inner quoted inner depth
  have changed := plainText_replaceFirst free quoted visible plain unquoted inner'
  have read := read?_elsewhere quoted renamed unquoted ends plain changed
  rw [found, ← written] at read
  unfold rebase
  dsimp only
  split
  · rename_i same
    rw [same, written, found, ← written]
  · exact read

-- The module that the statement names is the first text in quotes that reads like it, and the only one.
structure Movable (i : Import) : Prop where
  free : CommentFree i.raw
  inner : ∀ c ∈ i.source, isBlank c = false ∧ c ≠ '*'
  clause : ∀ c ∈ clauseText? i.raw, QuoteFree c

theorem rebase_render {i : Import} (named : i.WellNamed) (binding : i.isSideEffect = false)
    (isQuote : IsQuote i.quote) (written : i.raw = i.render) (depth : Nat) : (i.rebase depth).raw = (i.rebase depth).render := by
  unfold rebase
  dsimp only
  split
  · exact written
  · have anew := render_eq (i := {i with source := ModuleName.rebase depth i.source}) binding
    rw [written, render_eq binding]
    exact (replaceFirst_quoted (quoteFree_front named) isQuote i.source _ _).trans anew.symm

theorem PartOf.read?_rebase {raw : Text} {i k : Import} (found : read? raw = some i) (part : PartOf k i)
    (binding : k.names ≠ []) {depth : Nat} (movable : ModuleName.rebase depth i.source ≠ i.source → i.Movable) :
    read? (k.rebase depth).raw = some (k.rebase depth) := by
  have named := part.wellNamed (read?_wellNamed found)
  have binds : k.isSideEffect = false := Bool.eq_false_iff.mpr fun none => binding (isEmpty_iff.mp none)
  obtain ⟨isQuote, legible⟩ := read?_legible found
  rw [← part.quote] at isQuote
  by_cases same : ModuleName.rebase depth k.source = k.source
  · have stays : k.rebase depth = k := if_pos same
    rw [stays]
    rcases part.written with rfl | anew
    · rw [read?_raw found, found]
    · rw [anew, read?_render named binds isQuote (part.source ▸ legible), ← anew]
  · obtain ⟨free, inner, clause⟩ := movable (part.source ▸ same)
    rcases part.written with rfl | anew
    · have written := read?_raw found
      rw [written] at free clause
      rw [Import.read?_rebase found free inner clause depth, ← rebase_eq]
    · obtain ⟨quoted, inner⟩ := ModuleName.rebase_inner (legible.quoted isQuote) inner depth
      have renamed : ModuleName.Legible (ModuleName.rebase depth i.source) :=
        ModuleName.legible_of_visible quoted.filled fun c member => ⟨quoted.inner c member, inner c member⟩
      have rendered := rebase_render named binds isQuote anew depth
      have moved : (k.rebase depth).WellNamed ∧ (k.rebase depth).isSideEffect = false ∧ IsQuote (k.rebase depth).quote ∧
          ModuleName.Legible (k.rebase depth).source := by
        rw [rebase_eq, part.source]
        exact ⟨⟨named.bound, named.listed⟩, binds, isQuote, renamed⟩
      obtain ⟨named, binds, isQuote, legible⟩ := moved
      rw [rendered, read?_render named binds isQuote legible, ← rendered]

end Import

namespace Phrase

def passedOver {α : Type} (read : Text → Option α) (afterWord : Bool) : Text → Text
  | [] => []
  | c :: rest =>
    if !afterWord && (read (c :: rest)).isSome then [] else c :: passedOver read (isWord c) rest

theorem findAtWordStart_passedOver {α : Type} {read : Text → Option α} (empty : read [] = none)
    {afterWord : Bool} {t : Text} {a : α} (found : findAtWordStart read afterWord t = some a) :
    ∃ u, t = passedOver read afterWord t ++ u ∧ read u = some a := by
  induction t generalizing afterWord with
  | nil =>
    rw [findAtWordStart, empty, ite_self] at found
    cases found
  | cons c t ih =>
    rw [findAtWordStart] at found
    rw [passedOver]
    cases here : (if afterWord then none else read (c :: t)) with
    | some b =>
      obtain ⟨start, success⟩ := ite_none_left_eq_some.mp here
      rw [here] at found
      cases found
      refine ⟨c :: t, ?_, success⟩
      simp [start, success]
    | none =>
      rw [here] at found
      obtain ⟨u, whole, success⟩ := ih found
      refine ⟨u, ?_, success⟩
      have passed : (!afterWord && (read (c :: t)).isSome) = false := by
        cases afterWord with
        | true => rfl
        | false => simpa using here
      rw [passed, if_neg Bool.false_ne_true, cons_append, ← whole]

end Phrase

namespace ReExport

def clauseText? (raw : Text) : Option Text :=
  (spaced? "export" (Import.plainText raw)).map fun rest =>
    passedOver Declaration.fromClauseAt? false (skipSpaced "type" rest)

-- The text in front of the word `from`, which nothing but blanks follow.
def frontFrom (afterWord : Bool) : Text → Option Text
  | [] => none
  | c :: g =>
    if !afterWord && isBare "from" (c :: g) then some [] else (frontFrom (isWord c) g).map (c :: ·)

theorem frontFrom_leads {g clause : Text} {afterWord : Bool} (found : frontFrom afterWord g = some clause) : clause <+: g := by
  induction g generalizing afterWord clause with
  | nil => cases found
  | cons c g ih =>
    rw [frontFrom] at found
    split at found
    · cases found
      exact nil_prefix
    · obtain ⟨rest, behind, rfl⟩ := map_eq_some_iff.mp found
      exact (prefix_cons_inj c).mpr (ih behind)

def frontClause? (f : Text) : Option Text := do
  match skipSpaced "type" (← spaced? "export" f) with
  | c :: g => if c = '*' ∨ c = '{' then (frontFrom false g).map (c :: ·) else none
  | [] => none

theorem skipSpaced_lead (word : String) (plain : (word.toList.all fun c => c != '\'' && c != '"') = true) (t : Text) :
    ∃ lead, QuoteFree lead ∧ t = lead ++ skipSpaced word t := by
  unfold skipSpaced
  cases found : spaced? word t with
  | none => exact ⟨[], by simp [QuoteFree], rfl⟩
  | some rest => exact spaced?_lead plain found

theorem fromClauseAt?_mark {c : Char} (mark : c = '*' ∨ c = '{') (t : Text) :
    Declaration.fromClauseAt? (c :: t) = none := by
  rcases mark with rfl | rfl <;> rfl

section Front

variable {quote : Char} {source f g clause tail y x : Text} (quoted : Quoted quote source)
  {afterWord : Bool}

include quoted

theorem findAtWordStart_front (free : QuoteFree g) (tail : Text) (found : frontFrom afterWord g = some clause) :
    findAtWordStart Declaration.fromClauseAt? afterWord (g ++ quote :: (source ++ quote :: tail)) =
        some (quote, source, tail) ∧
      passedOver Declaration.fromClauseAt? afterWord (g ++ quote :: (source ++ quote :: tail)) = clause := by
  induction g generalizing afterWord clause with
  | nil => cases found
  | cons c g ih =>
    have here := fromClauseAt?_front quoted free tail
    have later := free.subset (List.subset_cons_self c g)
    rw [List.cons_append] at here ⊢
    rw [frontFrom] at found
    rw [findAtWordStart, passedOver, here]
    split at found
    · rename_i place
      cases found
      obtain ⟨start, bare⟩ := Bool.and_eq_true_iff.mp place
      rw [Bool.not_eq_true'] at start
      simp [start, bare]
    · rename_i passed
      obtain ⟨inner, behind, rfl⟩ := Option.map_eq_some_iff.mp found
      obtain ⟨read, before⟩ := ih later behind
      cases afterWord with
      | true => simp [read, before]
      | false =>
        have bare : isBare "from" (c :: g) = false := by simpa using passed
        simp [bare, read, before]

theorem passedOver_front (free : QuoteFree g) (tail : Text)
    (none : frontFrom afterWord g = none) : g <+: passedOver Declaration.fromClauseAt? afterWord
      (g ++ quote :: (source ++ quote :: tail)) := by
  induction g generalizing afterWord with
  | nil => exact List.nil_prefix
  | cons c g ih =>
    have here := fromClauseAt?_front quoted free tail
    have later := free.subset (List.subset_cons_self c g)
    rw [List.cons_append] at here ⊢
    rw [frontFrom] at none
    rw [passedOver, here]
    split at none
    · cases none
    · rename_i passed
      have behind := ih later (Option.map_eq_none_iff.mp none)
      cases afterWord with
      | true => simpa using behind
      | false =>
        have bare : isBare "from" (c :: g) = false := by simpa using passed
        simpa [bare] using behind

theorem frontFrom_of_passedOver {p gap : Text} (free : QuoteFree (p ++ ("from".toList ++ gap)))
    (passed : passedOver Declaration.fromClauseAt? afterWord
      (p ++ ("from".toList ++ gap) ++ quote :: (source ++ quote :: tail)) = p) :
    frontFrom afterWord (p ++ ("from".toList ++ gap)) = some p := by
  cases found : frontFrom afterWord (p ++ ("from".toList ++ gap)) with
  | none =>
    have longer := (passedOver_front quoted free tail found).length_le
    have word : "from".toList.length = 4 := rfl
    rw [passed, List.length_append, List.length_append] at longer
    omega
  | some clause => rw [← passed, (findAtWordStart_front quoted free tail found).2]

theorem spaced?_unquoted {word : String}
    (plain : (word.toList.all fun c => c != '\'' && c != '"') = true)
    (found : spaced? word (f ++ quote :: x) = some (y ++ quote :: x)) : spaced? word f = some y := by
  rw [spaced?_front (quoted.not_mem word plain) quoted.isQuote.visible] at found
  obtain ⟨rest, found, same⟩ := map_eq_some_iff.mp found
  rw [found, append_cancel_right same]

theorem skipSpaced_unquoted {word : String}
    (plain : (word.toList.all fun c => c != '\'' && c != '"') = true)
    (found : skipSpaced word (f ++ quote :: x) = y ++ quote :: x) : skipSpaced word f = y := by
  rw [skipSpaced_front (quoted.not_mem word plain) quoted.isQuote.visible] at found
  exact List.append_cancel_right found

theorem read?_front {raw : Text} (free : QuoteFree f)
    (plain : Import.plainText raw = f ++ quote :: (source ++ quote :: tail)) (found : frontClause? f = some clause) :
    read? raw = some ⟨source, raw, quote⟩ ∧ clauseText? raw = some clause := by
  have visible := quoted.isQuote.visible
  obtain ⟨rest, first, found⟩ := Option.bind_eq_some_iff.mp found
  have word := spaced?_front (f := f) (x := source ++ quote :: tail) (quoted.not_mem "export" rfl) visible
  have type := skipSpaced_front (f := rest) (x := source ++ quote :: tail) (quoted.not_mem "type" rfl) visible
  rw [first, Option.map_some] at word
  split at found
  · rename_i c g text
    obtain ⟨mark, found⟩ := Option.ite_none_right_eq_some.mp found
    obtain ⟨inner, behind, rfl⟩ := Option.map_eq_some_iff.mp found
    have inside : QuoteFree (c :: g) := by
      rw [← text]
      exact (free.subset (spaced?_suffix first).subset).subset (skipSpaced_suffix "type" rest).subset
    obtain ⟨read, before⟩ := findAtWordStart_front quoted (inside.subset (List.subset_cons_self c g)) tail behind
    rw [text, List.cons_append] at type
    constructor
    · unfold read? findWord?
      rw [plain, word]
      simp only [Option.bind_eq_bind, Option.bind_some, type]
      rw [if_pos mark, read]
      rfl
    · have opening := fromClauseAt?_mark mark (g ++ quote :: (source ++ quote :: tail))
      have apart : isWord c = false := by rcases mark with rfl | rfl <;> rfl
      rw [clauseText?, plain, word, Option.map_some, type, passedOver, opening, apart, before]
      rfl
  · cases found

end Front

theorem read?_parts {raw : Text} {r : ReExport} (found : read? raw = some r)
    (clause : ∀ c ∈ clauseText? raw, QuoteFree c) : Quoted r.quote r.source ∧ r.raw = raw ∧
      ∃ f tail clause, Import.plainText raw = f ++ r.quote :: (r.source ++ r.quote :: tail) ∧
        QuoteFree f ∧ frontClause? f = some clause := by
  obtain ⟨rest, first, found⟩ := Option.bind_eq_some_iff.mp found
  split at found
  · rename_i c t text
    obtain ⟨mark, found⟩ := Option.ite_none_right_eq_some.mp found
    obtain ⟨⟨quote, source, tail⟩, behind, same⟩ := Option.bind_eq_some_iff.mp found
    cases same
    obtain ⟨u, whole, success⟩ := findAtWordStart_passedOver rfl behind
    obtain ⟨quoted, gap, blank, rfl⟩ := fromClauseAt?_parts success
    refine ⟨quoted, rfl, ?_⟩
    have apart : isWord c = false := by rcases mark with rfl | rfl <;> rfl
    have read : clauseText? raw = some (c :: passedOver Declaration.fromClauseAt? false t) := by
      rw [clauseText?, first, Option.map_some, text, passedOver, fromClauseAt?_mark mark, apart]
      rfl
    have inner := clause _ read
    generalize before : passedOver Declaration.fromClauseAt? false t = p at whole inner
    have word : QuoteFree ("from".toList ++ gap) := (quoteFree_word "from" rfl).append (quoteFree_blank blank)
    have split : t = p ++ ("from".toList ++ gap) ++ quote :: (source ++ quote :: tail) := by
      simp [whole]
    obtain ⟨lead, leading, plain⟩ := spaced?_lead rfl first
    obtain ⟨modifier, modifying, typed⟩ := skipSpaced_lead "type" rfl rest
    rw [text, split, ← List.cons_append, ← List.append_assoc] at typed
    rw [split, ← List.cons_append] at text
    rw [split] at before
    rw [plain, typed, ← List.append_assoc] at first
    rw [typed] at text
    have free := inner.append word
    have later : QuoteFree (p ++ ("from".toList ++ gap)) := free.subset (List.subset_cons_self c _)
    refine ⟨lead ++ (modifier ++ c :: (p ++ ("from".toList ++ gap))), tail, c :: p, ?_,
      leading.append (modifying.append free), ?_⟩
    · rw [plain, typed, ← List.append_assoc]
    · unfold frontClause?
      rw [spaced?_unquoted quoted rfl first]
      simp only [Option.bind_eq_bind, Option.bind_some, skipSpaced_unquoted quoted rfl text]
      rw [if_pos mark, frontFrom_of_passedOver quoted later before]
      rfl
  · cases found

-- As for imports; a list of names is closed in front of the module.
structure Movable (r : ReExport) : Prop where
  free : CommentFree r.raw
  inner : ∀ c ∈ r.source, isBlank c = false ∧ c ≠ '*'
  clause : ∀ c ∈ clauseText? r.raw, QuoteFree c ∧ (c.head? = some '{' → '}' ∈ c)

theorem rebase_raw {r : ReExport} {depth : Nat} (changed : ModuleName.rebase depth r.source ≠ r.source) :
    (r.rebase depth).raw = replaceFirst (Import.quoted r.quote r.source)
      (Import.quoted r.quote (ModuleName.rebase depth r.source)) r.raw := by
  rw [rebase, withSource, if_neg changed]

theorem read?_rebase {raw : Text} {r : ReExport} (found : read? raw = some r)
    (free : CommentFree raw) (inner : ∀ c ∈ r.source, isBlank c = false ∧ c ≠ '*')
    (clause : ∀ c ∈ clauseText? raw, QuoteFree c) (depth : Nat) : read? (r.rebase depth).raw =
        some {r with source := ModuleName.rebase depth r.source, raw := (r.rebase depth).raw} ∧
      clauseText? (r.rebase depth).raw = clauseText? raw := by
  obtain ⟨quoted, written, f, tail, inside, plain, front, kept⟩ := read?_parts found clause
  have visible : ∀ c ∈ r.source, isBlank c = false := fun c member => (inner c member).1
  obtain ⟨renamed, inner'⟩ := ModuleName.rebase_inner quoted inner depth
  have changed := plainText_replaceFirst free quoted visible plain front inner'
  obtain ⟨read, bound⟩ := read?_front renamed front changed kept
  have before := (read?_front quoted front plain kept).2
  unfold rebase withSource
  split
  · rename_i same
    rw [same, written, found, ← written]
    exact ⟨rfl, rfl⟩
  · rw [before, ← bound, ← written]
    rw [← written] at read
    exact ⟨read, rfl⟩

end ReExport

-- Rebased names lead to the modules they led to, and rebased statements are read with them.
theorem rebase_same_module : (∀ (directory : Path) (names : List Text) (m : Text),
      (∀ n ∈ names, Path.IsDirectoryName n) → startsWith m "." = true →
      (names.foldl Path.child directory).resolve (ModuleName.rebase names.length m) = directory.resolve m) ∧
    (∀ (a b : Nat) (m : Text), ModuleName.rebase b (ModuleName.rebase a m) = ModuleName.rebase (a + b) m) ∧
    (∀ (depth : Nat) (m : Text), startsWith m "." = false → ModuleName.rebase depth m = m) ∧
    (∀ (raw : Text) (i : Import) (depth : Nat), Import.read? raw = some i → CommentFree raw →
      (∀ c ∈ i.source, isBlank c = false ∧ c ≠ '*') → (∀ clause ∈ Import.clauseText? raw, QuoteFree clause) →
      Import.read? (i.rebase depth).raw =
        some {i with source := ModuleName.rebase depth i.source, raw := (i.rebase depth).raw}) ∧
    ∀ (raw : Text) (r : ReExport) (depth : Nat), ReExport.read? raw = some r → CommentFree raw →
      (∀ c ∈ r.source, isBlank c = false ∧ c ≠ '*') → (∀ clause ∈ ReExport.clauseText? raw, QuoteFree clause) →
      ReExport.read? (r.rebase depth).raw =
          some {r with source := ModuleName.rebase depth r.source, raw := (r.rebase depth).raw} ∧
        ReExport.clauseText? (r.rebase depth).raw = ReExport.clauseText? raw := by
  refine ⟨?_, ModuleName.rebase_add, ?_, ?_, ?_⟩
  · exact fun directory names m below relative => Path.resolve_rebase directory below relative
  · exact fun depth m fixed => ModuleName.rebase_fixed fixed depth
  · exact fun raw i depth found free inner clause => Import.read?_rebase found free inner clause depth
  · exact fun raw r depth found free inner clause => ReExport.read?_rebase found free inner clause depth

def nestedImport : Import where
  source := "../lib//x/./..".toList
  specifiers := [⟨"b".toList, "from".toList, false⟩]
  defaultName := some "a".toList
  raw := "import a, \x7b b as from \x7d\n  from \"../lib//x/./..\" ;\n".toList
  quote := '"'

def nestedExport : ReExport where
  source := "./m".toList
  raw := "export type * as from  from './m' ; 'm'".toList

theorem rebase_same_module_nested :
    (["x".toList, "y".toList].foldl Path.child ⟨.slash, ["a".toList, "b".toList]⟩).resolve
      "../../../lib".toList = ⟨.slash, ["a".toList, "lib".toList]⟩ ∧
    ModuleName.rebase 1 (ModuleName.rebase 2 nestedImport.source) = "../../../../lib".toList ∧
    ModuleName.rebase 3 "m/../n".toList = "m/../n".toList ∧
    Import.read? (nestedImport.rebase 2).raw = some {nestedImport with
      source := "../../../lib".toList
      raw := "import a, \x7b b as from \x7d\n  from \"../../../lib\" ;\n".toList} ∧
    ReExport.read? (nestedExport.rebase 1).raw = some {nestedExport with
      source := "../m".toList
      raw := "export type * as from  from '../m' ; 'm'".toList} := by
  obtain ⟨resolved, added, fixed, imports, reExports⟩ := rebase_same_module
  have source : ModuleName.rebase 2 nestedImport.source = "../../../lib".toList := by decide +kernel
  have below : ∀ n ∈ ["x".toList, "y".toList], Path.IsDirectoryName n := by
    have plain : ∀ n ∈ ["x".toList, "y".toList], Path.isPart n = true ∧ n ≠ "..".toList ∧ '/' ∉ n := by decide
    exact fun n member => ⟨(plain n member).1, (plain n member).2.1, (plain n member).2.2⟩
  refine ⟨?_, ?_, fixed 3 _ rfl, ?_, ?_⟩
  · have same := resolved ⟨.slash, ["a".toList, "b".toList]⟩ ["x".toList, "y".toList] nestedImport.source below rfl
    rw [length_cons, length_singleton, source] at same
    rw [same]
    decide +kernel
  · rw [added]
    decide +kernel
  · have found : Import.read? nestedImport.raw = some nestedImport := by decide +kernel
    have inner : ∀ c ∈ nestedImport.source, isBlank c = false ∧ c ≠ '*' := by
      simpa using all_eq_true.mp (rfl : (nestedImport.source.all fun c => !isBlank c && c != '*') = true)
    have free : CommentFree nestedImport.raw := by
      obtain ⟨-, -, block, line⟩ := no_comment_inside inner
      exact commentFree_between (f := "import a, \x7b b as from \x7d\n  from ".toList)
        (e := " ;\n".toList) (.inr rfl) (by decide) (by decide) block line
    have clause : Import.clauseText? nestedImport.raw = some "a, \x7b b as from \x7d".toList := by
      decide +kernel
    have text : (nestedImport.rebase 2).raw =
      "import a, \x7b b as from \x7d\n  from \"../../../lib\" ;\n".toList := by decide +kernel
    rw [imports nestedImport.raw nestedImport 2 found free inner
      (by rw [clause]; simp [QuoteFree, IsQuote]), source, text]
  · have found : ReExport.read? nestedExport.raw = some nestedExport := by decide +kernel
    have inner : ∀ c ∈ nestedExport.source, isBlank c = false ∧ c ≠ '*' := by
      simpa using all_eq_true.mp (rfl : (nestedExport.source.all fun c => !isBlank c && c != '*') = true)
    have free : CommentFree nestedExport.raw := by
      obtain ⟨-, -, block, line⟩ := no_comment_inside inner
      exact commentFree_between (f := "export type * as from  from ".toList)
        (e := " ; 'm'".toList) (.inl rfl) (by decide) (by decide) block line
    have clause : ReExport.clauseText? nestedExport.raw = some "* as from ".toList := by
      decide +kernel
    have text : (nestedExport.rebase 1).raw = "export type * as from  from '../m' ; 'm'".toList := by
      decide +kernel
    rw [(reExports nestedExport.raw nestedExport 1 found free inner
      (by rw [clause]; simp [QuoteFree, IsQuote])).1, text]
    rfl

end ModuleSplit
