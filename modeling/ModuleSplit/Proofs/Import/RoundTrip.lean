import ModuleSplit.Proofs.Import.Front
import ModuleSplit.Proofs.Import.Select

namespace ModuleSplit

open List Text Phrase Option

namespace Text

variable {ts : List Text}

structure Neat (t : Text) : Prop where
  filled : t ≠ []
  single : Single false t
  last : ∀ c ∈ t.getLast?, isBlank c = false

theorem single_visible {t : Text} (visible : ∀ c ∈ t, isBlank c = false) (a : Bool) : Single a t := by
  induction t generalizing a with
  | nil => trivial
  | cons c t ih =>
    rw [forall_mem_cons] at visible
    exact ⟨by simp [visible.1], ih visible.2 _⟩

theorem neat_visible {t : Text} (filled : t ≠ []) (visible : ∀ c ∈ t, isBlank c = false) :
    Neat t := ⟨filled, single_visible visible false, fun c last =>
      visible c (mem_of_getLast? last)⟩

theorem neat_mark {c : Char} (visible : isBlank c = false) : Neat [c] :=
  neat_visible (by simp) (forall_mem_singleton.mpr visible)

theorem neat_word {t : Text} (plain : (!t.isEmpty && t.all (!isBlank ·)) = true) : Neat t := by
  obtain ⟨filled, visible⟩ := Bool.and_eq_true_iff.mp plain
  exact neat_visible (by simpa using filled) (by simpa using visible)

namespace Neat

variable {t u : Text}

theorem onward (neat : Neat t) (single : Single true u) (last : ∀ c ∈ u.getLast?, isBlank c = false) : Neat (t ++ u) := by
  obtain ⟨c, ends⟩ := getLast?_isSome.mpr neat.filled |> isSome_iff_exists.mp
  have visible := neat.last c ends
  refine ⟨by simp [neat.filled], single_append.mpr ⟨neat.single, ?_⟩, ?_⟩
  · simpa [ends, visible] using single
  · intro d member
    rw [getLast?_append, ends] at member
    cases behind : u.getLast? with
    | none => simp_all
    | some e => simp_all

theorem append (left : Neat t) (right : Neat u) : Neat (t ++ u) :=
  left.onward right.single.mono right.last

theorem spaced (left : Neat t) (right : Neat u) : Neat (t ++ ' ' :: u) := by
  refine left.onward ⟨fun _ => ⟨rfl, rfl⟩, right.single⟩ ?_
  intro c member
  rw [getLast?_cons] at member
  cases behind : u.getLast? with
  | none => exact absurd (getLast?_eq_none_iff.mp behind) right.filled
  | some d => exact right.last c (by simpa [behind] using member)

theorem head (neat : Neat t) : ∃ c rest, t = c :: rest ∧ isBlank c = false := by
  obtain ⟨c, rest, rfl⟩ := exists_cons_of_ne_nil neat.filled
  refine ⟨c, rest, rfl, ?_⟩
  rw [Bool.eq_false_iff]
  intro blank
  cases (neat.single.1 blank).2

theorem dropBlanks (neat : Neat t) (more : Text) : Text.dropBlanks (t ++ more) = t ++ more := by
  obtain ⟨c, rest, rfl, visible⟩ := neat.head
  exact dropWhile_cons_of_neg (by simp [visible])

theorem trim (neat : Neat t) : Text.trim t = t := by
  obtain ⟨c, rest, starts, first⟩ := neat.head
  obtain ⟨d, ends⟩ := isSome_iff_exists.mp (getLast?_isSome.mpr neat.filled)
  obtain ⟨front, whole⟩ := getLast?_eq_some_iff.mp ends
  exact trim_visible ⟨rest, starts⟩ first whole (neat.last d ends)

theorem plainText (neat : Neat t) (free : CommentFree t) : Import.plainText t = t := by
  rw [Import.plainText_of_free free, (squeeze_eq_self neat.last).1 neat.single]

end Neat

@[simp] theorem joinWith_cons_cons (sep : String) (t u : Text) (ts : List Text) :
    joinWith sep (t :: u :: ts) = t ++ (sep.toList ++ joinWith sep (u :: ts)) := by
  simp [joinWith]

theorem joinWith_first (t : Text) (ts : List Text) : ∃ more, joinWith ", " (t :: ts) = t ++ more ∧ ∀ c ∈ more.head?, c = ',' := by
  cases ts with
  | nil => exact ⟨[], by simp [joinWith], by simp⟩
  | cons u ts => exact ⟨_, joinWith_cons_cons ", " t u ts, by simp⟩

theorem neat_joinWith (some : ts ≠ []) (neat : ∀ t ∈ ts, Neat t) : Neat (joinWith ", " ts) := by
  induction ts with
  | nil => exact absurd rfl some
  | cons t ts ih =>
    rw [forall_mem_cons] at neat
    cases ts with
    | nil => simpa [joinWith] using neat.1
    | cons u ts =>
      have comma : Neat [','] := neat_mark rfl
      have rest := (neat.1.append comma).spaced (ih (by simp) neat.2)
      rw [joinWith_cons_cons]
      simpa using rest

def entries (t : Text) : List Text := (splitOn ',' t).map trim

theorem entries_comma {a : Text} (plain : ',' ∉ a) (b : Text) : entries (a ++ ',' :: b) = trim a :: entries b := by
  unfold entries
  rw [splitOn_eq, splitOn_append_cons_self, ← splitOn_eq, ← splitOn_eq, splitOn_eq_singleton plain]
  rfl

theorem entries_plain {a : Text} (plain : ',' ∉ a) : entries a = [trim a] := by
  rw [entries, splitOn_eq_singleton plain]
  rfl

theorem entries_space (t : Text) : entries (' ' :: t) = entries t := by
  unfold entries
  rw [splitOn, if_neg (by decide)]
  cases pieces : splitOn ',' t with
  | nil => simp [splitOn_eq] at pieces
  | cons piece rest => simp [trim, trimBy_cons (show isBlank ' ' = true from rfl)]

theorem entries_joinWith (back : Text) (some : ts ≠ []) (plain : ∀ t ∈ ts, ',' ∉ t)
    (trimmed : ∀ t, trim (t ++ back) = trim t) (free : ',' ∉ back) : entries (joinWith ", " ts ++ back) = ts.map trim := by
  induction ts with
  | nil => exact absurd rfl some
  | cons t ts ih =>
    rw [forall_mem_cons] at plain
    cases ts with
    | nil =>
      have whole : ',' ∉ t ++ back := by simp [plain.1, free]
      simpa [joinWith, entries_plain whole] using trimmed t
    | cons u ts =>
      have parts : joinWith ", " (t :: u :: ts) ++ back = t ++ ',' :: ' ' :: (joinWith ", " (u :: ts) ++ back) := by
        simp
      rw [parts, entries_comma plain.1, entries_space, ih (by simp) plain.2]
      rfl

theorem entries_closed (plain : ∀ t ∈ ts, ',' ∉ t) : entries (ts.flatMap (· ++ ", ".toList)) = ts.map trim ++ [[]] := by
  induction ts with
  | nil => rfl
  | cons t ts ih =>
    rw [forall_mem_cons] at plain
    have parts : (t :: ts).flatMap (· ++ ", ".toList) = t ++ ',' :: ' ' :: ts.flatMap (· ++ ", ".toList) := by simp
    rw [parts, entries_comma plain.1, entries_space, ih plain.2]
    rfl

theorem joinWith_concat (ts : List Text) (last : Text) :
    joinWith ", " (ts ++ [last]) = ts.flatMap (· ++ ", ".toList) ++ last := by
  induction ts with
  | nil => simp [joinWith]
  | cons t ts ih =>
    cases ts with
    | nil => simp [joinWith]
    | cons u ts =>
      rw [cons_append, cons_append, joinWith_cons_cons, ← cons_append, ih]
      simp

end Text

namespace IsName

variable {n : Text}

theorem neat (named : IsName n) : Neat n := neat_visible named.nonempty named.visible

theorem not_mem (named : IsName n) {c : Char} (other : isIdentChar c = false) : c ∉ n := by
  intro member
  simp [named.chars c member] at other

theorem spaced? (named : IsName n) (word : String) : Phrase.spaced? word n = none := by
  rw [eq_none_iff_forall_ne_some]
  intro rest found
  obtain ⟨c, tail, space, rfl, _⟩ := spaced?_eq_some.mp found
  simp [named.visible c (by simp)] at space

theorem nameRun? (named : IsName n) (rest : Text) (stop : ∀ c ∈ rest.head?, isIdentChar c = false) :
    Import.nameRun? (n ++ rest) = some (n, rest) := by
  have whole : (n ++ rest).takeWhile isIdentChar = n := by
    rw [takeWhile_append_of_pos named.chars]
    cases rest with
    | nil => simp
    | cons c rest => simp [stop c rfl]
  unfold Import.nameRun?
  rw [whole]
  simp [named.nonempty]

theorem nameRun?_alone (named : IsName n) : Import.nameRun? n = some (n, []) := by
  simpa using named.nameRun? [] (by simp)

theorem wholeName? (named : IsName n) : Import.wholeName? n = some n := by
  simp [Import.wholeName?, named.nameRun?_alone]

theorem dropBlanks (named : IsName n) : Text.dropBlanks n = n := by
  simpa using named.neat.dropBlanks []

theorem nameRun?_spaced (named : IsName n) (rest : Text) : Import.nameRun? (n ++ ' ' :: rest) = some (n, ' ' :: rest) :=
  named.nameRun? _ (by simp; rfl)

theorem plainSpecifier?_alone (named : IsName n) (typeOnly : Bool) :
    Import.plainSpecifier? typeOnly n = some ⟨n, n, typeOnly⟩ := by
  simp [Import.plainSpecifier?, named.nameRun?_alone]

theorem plainSpecifier?_spaced (named : IsName n) (typeOnly : Bool) (rest : Text) :
    Import.plainSpecifier? typeOnly (n ++ ' ' :: rest) =
      ((Phrase.spaced? "as" (Text.dropBlanks rest)).bind Import.wholeName?).map (⟨n, ·, typeOnly⟩) := by
  have gap : blanks? (' ' :: rest) = some (Text.dropBlanks rest) := rfl
  simp only [Import.plainSpecifier?, named.nameRun?_spaced, gap, bind_eq_bind, bind_some, isEmpty_cons]
  cases Phrase.spaced? "as" (Text.dropBlanks rest) with
  | none => rfl
  | some other => cases found : Import.wholeName? other <;> simp [found]

end IsName

def Specifier.plain (s : Specifier) : Text :=
  if s.name = s.asName then s.name else s.name ++ ' ' :: ("as".toList ++ ' ' :: s.asName)

namespace Specifier

variable {s : Specifier}

theorem render_eq_plain (s : Specifier) : s.render = if s.typeOnly then "type".toList ++ ' ' :: s.plain else s.plain := by
  unfold render plain
  cases s.typeOnly <;> simp

variable (name : IsName s.name) (asName : IsName s.asName)

include name asName

theorem plain_neat : Neat s.plain := by
  have word : Neat "as".toList := neat_word rfl
  unfold plain
  split
  · exact name.neat
  · exact name.neat.spaced (word.spaced asName.neat)

theorem render_neat : Neat s.render := by
  have word : Neat "type".toList := neat_word rfl
  rw [render_eq_plain]
  split
  · exact word.spaced (plain_neat name asName)
  · exact plain_neat name asName

theorem not_mem_render {c : Char} (other : isIdentChar c = false) (space : c ≠ ' ') : c ∉ s.render := by
  have type : c ∉ "type".toList := (isName_word rfl).not_mem other
  have as : c ∉ "as".toList := (isName_word rfl).not_mem other
  have plain : c ∉ s.plain := by
    unfold plain
    split
    · exact name.not_mem other
    · simp only [mem_append, mem_cons, not_or]
      exact ⟨name.not_mem other, space, as, space, asName.not_mem other⟩
  rw [render_eq_plain]
  split
  · simp only [mem_append, mem_cons, not_or]
    exact ⟨type, space, plain⟩
  · exact plain

theorem plainSpecifier?_plain (typeOnly : Bool) :
    Import.plainSpecifier? typeOnly s.plain = some ⟨s.name, s.asName, typeOnly⟩ := by
  unfold plain
  split
  · rename_i same
    rw [← same]
    exact name.plainSpecifier?_alone typeOnly
  · have behind : Phrase.spaced? "as" ("as".toList ++ ' ' :: s.asName) = some s.asName :=
      spaced?_eq_some.mpr ⟨' ', s.asName, rfl, rfl, asName.dropBlanks.symm⟩
    have gap : Text.dropBlanks ("as".toList ++ ' ' :: s.asName) = "as".toList ++ ' ' :: s.asName := rfl
    rw [name.plainSpecifier?_spaced, gap, behind, bind_some, asName.wholeName?]
    rfl

theorem untyped : (Phrase.spaced? "type" s.plain).bind (Import.plainSpecifier? true) = none := by
  cases found : Phrase.spaced? "type" s.plain with
  | none => rfl
  | some rest =>
    obtain ⟨c, tail, space, whole, rfl⟩ := spaced?_eq_some.mp found
    unfold plain at whole
    split at whole
    · have none := name.spaced? "type"
      rw [whole, spaced?_eq_some.mpr ⟨c, tail, space, rfl, rfl⟩] at none
      cases none
    · have type : IsName "type".toList := isName_word rfl
      have as : IsName "as".toList := isName_word rfl
      have run := type.nameRun? (c :: tail) (by simpa using isIdentChar_of_isBlank space)
      rw [← whole, name.nameRun?_spaced] at run
      obtain ⟨-, rfl⟩ := List.cons.inj (Prod.mk.inj (Option.some.inj run)).2
      exact (as.plainSpecifier?_spaced true s.asName).trans (by
        rw [asName.dropBlanks, asName.spaced?]
        rfl)

theorem specifier?_render : Import.specifier? s.render = some s := by
  unfold Import.specifier?
  rw [render_eq_plain]
  cases typed : s.typeOnly with
  | true =>
    have rest : Phrase.spaced? "type" ("type".toList ++ ' ' :: s.plain) = some s.plain := by
      refine spaced?_eq_some.mpr ⟨' ', s.plain, rfl, rfl, ?_⟩
      simpa using ((plain_neat name asName).dropBlanks []).symm
    rw [if_pos rfl, rest, bind_some, plainSpecifier?_plain name asName, ← typed]
    rfl
  | false =>
    rw [if_neg Bool.false_ne_true, untyped name asName, plainSpecifier?_plain name asName, ← typed]
    rfl

end Specifier

namespace Import

theorem specifierList_eq (body : Text) : specifierList body = (entries body).filterMap specifier? := by
  rw [specifierList, entries, filterMap_map]
  rfl

theorem specifierList_render {ss : List Specifier} (some : ss ≠ []) (named : ∀ s ∈ ss, IsName s.name ∧ IsName s.asName) :
    specifierList (' ' :: (joinWith ", " (ss.map (·.render)) ++ [' '])) = ss := by
  have plain : ∀ t ∈ ss.map (·.render), ',' ∉ t := by
    intro t member
    obtain ⟨s, listed, rfl⟩ := mem_map.mp member
    exact Specifier.not_mem_render (named s listed).1 (named s listed).2 rfl (by decide)
  have back : ∀ t, trim (t ++ [' ']) = trim t := trimBy_concat rfl
  have each : ∀ s ∈ ss, specifier? (trim s.render) = Option.some s := by
    intro s listed
    obtain ⟨name, asName⟩ := named s listed
    rw [(Specifier.render_neat name asName).trim, Specifier.specifier?_render name asName]
  rw [specifierList_eq, entries_space, entries_joinWith _ (by simpa using some) plain back (by decide),
    List.map_map, filterMap_map]
  exact (filterMap_congr each).trans filterMap_some

theorem bracePart?_braces {before : Text} (plain : '{' ∉ before) (body : Text) :
    bracePart? (before ++ '{' :: (body ++ ['}'])) = some (body, before) := by
  have front : (before ++ '{' :: (body ++ ['}'])).takeWhile (· != '{') = before := by
    rw [takeWhile_append_of_pos]
    · simp
    · intro c member
      rw [bne_iff_ne]
      rintro rfl
      exact plain member
  unfold bracePart?
  rw [front]
  simp

theorem bracePart?_plain {t : Text} (plain : '{' ∉ t) : bracePart? t = none := by
  have whole : t.takeWhile (· != '{') = t := by
    rw [takeWhile_eq_self_iff]
    intro c member
    rw [bne_iff_ne]
    rintro rfl
    exact plain member
  unfold bracePart?
  rw [whole]
  simp

theorem contentOf_plain {clause source : Text} {typeOnly : Bool} (none : bracePart? clause = none) :
    contentOf typeOnly clause source = (entries clause).foldl addBinding {source := source, typeOnly := typeOnly} := by
  unfold contentOf
  rw [none]
  rfl

theorem contentOf_braces {clause source body outside : Text} {typeOnly : Bool}
    (found : bracePart? clause = some (body, outside)) : contentOf typeOnly clause source = (entries outside).foldl addBinding
      {source := source, specifiers := specifierList body, typeOnly := typeOnly} := by
  unfold contentOf
  rw [found]
  rfl

theorem addBinding_name {n : Text} (named : IsName n) (i : ImportContent) : addBinding i n = {i with defaultName := some n} := by
  have star : namespaceName? n = none := by
    unfold namespaceName?
    cases lead : dropLead? "*" n with
    | none => rfl
    | some rest =>
      have first : '*' ∈ n := by simp [dropLead?_eq_some.mp lead]
      exact absurd first (named.not_mem rfl)
  unfold addBinding
  rw [star, named.wholeName?]

theorem addBinding_namespace {n : Text} (named : IsName n) (i : ImportContent) :
    addBinding i ("* as ".toList ++ n) = {i with namespaceName := some n} := by
  have read : namespaceName? ("* as ".toList ++ n) = some n := by
    have word : spaced? "as" ("as ".toList ++ n) = some n := spaced?_eq_some.mpr ⟨' ', n, rfl, rfl, named.dropBlanks.symm⟩
    unfold namespaceName?
    exact (congrArg (·.bind wholeName?) word).trans named.wholeName?
  unfold addBinding
  rw [read]

end Import

namespace ImportContent

def outside (i : ImportContent) : List Text :=
  i.defaultName.toList ++ (i.namespaceName.map ("* as ".toList ++ ·)).toList

theorem clause_eq (i : ImportContent) : i.clause = if i.specifiers = [] then joinWith ", " i.outside
    else i.outside.flatMap (· ++ ", ".toList) ++
      '{' :: (' ' :: (joinWith ", " (i.specifiers.map (·.render)) ++ [' ']) ++ ['}']) := by
  change joinWith ", " (i.outside ++ if i.specifiers.isEmpty then [] else
    ["\x7b ".toList ++ joinWith ", " (i.specifiers.map (·.render)) ++ " \x7d".toList]) = _
  by_cases none : i.specifiers = []
  · simp [none]
  · simp [none, joinWith_concat]

variable {i : ImportContent} (named : i.WellNamed)

namespace WellNamed

include named

theorem default {n : Text} (found : i.defaultName = some n) : IsName n :=
  named.bound n (by simp [names, found])

theorem whole {n : Text} (found : i.namespaceName = some n) : IsName n :=
  named.bound n (by simp [names, found])

theorem entry {s : Specifier} (listed : s ∈ i.specifiers) : IsName s.name ∧ IsName s.asName := by
  refine ⟨named.listed s listed, named.bound s.asName ?_⟩
  simp only [names, mem_append, List.mem_map]
  exact .inr ⟨s, listed, rfl⟩

theorem outside {t : Text} (member : t ∈ i.outside) : Neat t ∧ ∀ c, isIdentChar c = false → c ≠ '*' → c ≠ ' ' → c ∉ t := by
  rcases mem_append.mp member with first | second
  · have name := named.default (mem_toList.mp first)
    exact ⟨name.neat, fun c other _ _ => name.not_mem other⟩
  · obtain ⟨n, found, rfl⟩ := map_eq_some_iff.mp (mem_toList.mp second)
    have name := named.whole found
    have word : Neat "as".toList := neat_word rfl
    refine ⟨(neat_mark (c := '*') rfl).spaced (word.spaced name.neat), ?_⟩
    intro c other star space
    have letters := all_eq_true.mp (rfl : ("* as ".toList.all fun c => isIdentChar c || c == '*' || c == ' ') = true)
    rw [mem_append, not_or]
    refine ⟨fun inside => ?_, name.not_mem other⟩
    simpa [other, star, space] using letters c inside

theorem foldl_outside : i.outside.foldl Import.addBinding
    {source := i.source, specifiers := i.specifiers, typeOnly := i.typeOnly} = i := by
  obtain ⟨source, specifiers, defaultName, namespaceName, typeOnly⟩ := i
  unfold ImportContent.outside
  cases defaultName with
  | none =>
    cases namespaceName with
    | none => rfl
    | some n => exact Import.addBinding_namespace (named.whole rfl) _
  | some d =>
    have name := named.default rfl
    cases namespaceName with
    | none => exact Import.addBinding_name name _
    | some n =>
      have first := Import.addBinding_name name {source := source, specifiers := specifiers, typeOnly := typeOnly}
      exact (congrArg (Import.addBinding · _) first).trans (Import.addBinding_namespace (named.whole rfl) _)

theorem trim_outside : i.outside.map trim = i.outside := by
  refine (map_congr_left fun t member => ?_).trans (map_id _)
  exact (named.outside member).1.trim

theorem contentOf_clause (binding : i.isSideEffect = false) : Import.contentOf i.typeOnly i.clause i.source = i := by
  have brace : ∀ t ∈ i.outside, '{' ∉ t := fun t member => (named.outside member).2 '{' rfl (by decide) (by decide)
  have comma : ∀ t ∈ i.outside, ',' ∉ t := fun t member => (named.outside member).2 ',' rfl (by decide) (by decide)
  rw [clause_eq]
  by_cases none : i.specifiers = []
  · have some : i.outside ≠ [] := by
      simpa [isSideEffect, names, ImportContent.outside, none] using binding
    have plain : '{' ∉ joinWith ", " i.outside := by
      intro member
      rcases mem_joinWith member with between | ⟨t, listed, inside⟩
      · exact absurd between (by decide)
      · exact brace t listed inside
    have pieces : entries (joinWith ", " i.outside) = i.outside := by
      have joined := entries_joinWith [] some comma (by simp) (by simp)
      rwa [append_nil, named.trim_outside] at joined
    rw [if_pos none, Import.contentOf_plain (Import.bracePart?_plain plain), pieces, ← none]
    exact named.foldl_outside
  · have plain : '{' ∉ i.outside.flatMap (· ++ ", ".toList) := by
      simpa using brace
    rw [if_neg none, Import.contentOf_braces (Import.bracePart?_braces plain _),
      Import.specifierList_render none fun s listed => named.entry listed, entries_closed comma,
      named.trim_outside, foldl_append, named.foldl_outside]
    rfl

theorem clause_neat (binding : i.isSideEffect = false) : Neat i.clause := by
  rw [clause_eq]
  by_cases none : i.specifiers = []
  · have some : i.outside ≠ [] := by
      simpa [isSideEffect, names, ImportContent.outside, none] using binding
    rw [if_pos none]
    exact neat_joinWith some fun t member => (named.outside member).1
  · have listed : Neat (joinWith ", " (i.specifiers.map (·.render))) := by
      refine neat_joinWith (by simpa using none) fun t member => ?_
      obtain ⟨s, inside, rfl⟩ := mem_map.mp member
      exact Specifier.render_neat (named.entry inside).1 (named.entry inside).2
    have opening : Neat ['{'] := neat_mark rfl
    have closing : Neat ['}'] := neat_mark rfl
    have braces := opening.spaced (listed.spaced closing)
    rw [if_neg none, ← joinWith_concat]
    refine neat_joinWith (by simp) fun t member => ?_
    rcases mem_append.mp member with before | last
    · exact (named.outside before).1
    · rw [mem_singleton.mp last]
      simpa using braces

theorem not_mem_clause {c : Char} (other : isIdentChar c = false) (mark : c ∉ " ,*\x7b\x7d".toList) : c ∉ i.clause := by
  have marks : c ≠ ' ' ∧ c ≠ ',' ∧ c ≠ '*' ∧ c ≠ '{' ∧ c ≠ '}' := by simpa using mark
  obtain ⟨space, comma, star, opening, closing⟩ := marks
  have before : ∀ t ∈ i.outside, c ∉ t := fun t member => (named.outside member).2 c other star space
  have joined : ∀ {ts : List Text}, (∀ t ∈ ts, c ∉ t) → c ∉ joinWith ", " ts := by
    intro ts plain member
    rcases mem_joinWith member with between | ⟨t, listed, inside⟩
    · simp [comma, space] at between
    · exact plain t listed inside
  have entries : ∀ t ∈ i.specifiers.map (·.render), c ∉ t := by
    intro t member
    obtain ⟨s, inside, rfl⟩ := mem_map.mp member
    exact Specifier.not_mem_render (named.entry inside).1 (named.entry inside).2 other space
  rw [clause_eq]
  split
  · exact joined before
  · have listed := joined entries
    simpa [listed, comma, space, opening, closing] using before

theorem clause_first (binding : i.isSideEffect = false) : ∃ n more, i.clause = n ++ more ∧
    (∀ c ∈ n, isIdentChar c = true) ∧ ∀ c ∈ more.head?, isIdentChar c = false ∧ isBlank c = false := by
  have shape : i.clause = joinWith ", " (i.outside ++ if i.specifiers.isEmpty then [] else
    ["\x7b ".toList ++ joinWith ", " (i.specifiers.map (·.render)) ++ " \x7d".toList]) := rfl
  rw [shape, ImportContent.outside]
  cases first : i.defaultName with
  | some n =>
    obtain ⟨more, joined, comma⟩ := joinWith_first n
      ((i.namespaceName.map ("* as ".toList ++ ·)).toList ++ if i.specifiers.isEmpty then [] else
        ["\x7b ".toList ++ joinWith ", " (i.specifiers.map (·.render)) ++ " \x7d".toList])
    refine ⟨n, more, joined, (named.default first).chars, fun c head => ?_⟩
    rw [comma c head]
    exact ⟨rfl, rfl⟩
  | none =>
    cases second : i.namespaceName with
    | some n =>
      obtain ⟨more, joined, -⟩ := joinWith_first ("* as ".toList ++ n) (if i.specifiers.isEmpty then [] else
          ["\x7b ".toList ++ joinWith ", " (i.specifiers.map (·.render)) ++ " \x7d".toList])
      refine ⟨[], _, joined, by simp, fun c head => ?_⟩
      cases head
      exact ⟨rfl, rfl⟩
    | none =>
      have some : i.specifiers.isEmpty = false := by
        simpa [isSideEffect, names, first, second] using binding
      refine ⟨[], _, rfl, by simp, fun c head => ?_⟩
      rw [some] at head
      cases head
      exact ⟨rfl, rfl⟩

end WellNamed

end ImportContent

namespace Import

theorem isBare_from (t : Text) : isBare "from" (t ++ ' ' :: "from ".toList) = false := by
  rw [Bool.eq_false_iff]
  intro bare
  obtain ⟨gap, blank, whole⟩ := isBare_iff.mp bare
  have shown : 'm' ∉ gap := not_mem_blank blank rfl
  have inside : 'm' ∈ ' ' :: "from ".toList := by decide
  rcases append_eq_append_iff.mp whole with ⟨rest, word, behind⟩ | ⟨rest, word, behind⟩
  · cases rest with
    | nil =>
      rw [nil_append] at behind
      exact shown (behind ▸ inside)
    | cons d rest =>
      obtain ⟨rfl, _⟩ := List.cons.inj behind
      have space : ' ' ∈ "from".toList := word ▸ by simp
      exact absurd space (by decide)
  · exact shown (behind ▸ mem_append_right rest inside)

theorem frontClause_neat {t : Text} (visible : ∀ c ∈ t.getLast?, isBlank c = false)
    (last : Option Char) (started : t = [] → last.isSome) : frontClause last (t ++ ' ' :: "from ".toList) = some t := by
  induction t generalizing last with
  | nil =>
    obtain ⟨before, rfl⟩ := isSome_iff_exists.mp (started rfl)
    rfl
  | cons c t ih =>
    have shown : dropBlanks (c :: t) ≠ [] := by
      intro blank
      obtain ⟨d, ends⟩ := isSome_iff_exists.mp (getLast?_isSome.mpr (cons_ne_nil c t))
      have space := dropWhile_eq_nil_iff.mp blank d (mem_of_getLast? ends)
      simp [visible d ends] at space
    have behind : ∀ d ∈ t.getLast?, isBlank d = false := by
      intro d member
      exact visible d (mem_getLast?_cons member)
    have later := isBare_from (dropBlanks (c :: t))
    rw [← dropBlanks_append shown, cons_append] at later
    rw [cons_append, frontClause, later, Bool.and_false, if_neg Bool.false_ne_true, ih behind _ fun _ => rfl]
    rfl

def front (i : ImportContent) : Text :=
  "import".toList ++ ' ' :: ((if i.typeOnly then "type".toList ++ [' '] else []) ++
    (i.clause ++ ' ' :: "from ".toList))

variable {i : ImportContent} (named : i.WellNamed) (binding : i.isSideEffect = false)

include named binding

theorem frontClause_untyped : (spaced? "type" (i.clause ++ ' ' :: "from ".toList)).bind (frontClause none) = none := by
  cases found : spaced? "type" (i.clause ++ ' ' :: "from ".toList) with
  | none => rfl
  | some rest =>
    obtain ⟨c, tail, space, whole, rfl⟩ := spaced?_eq_some.mp found
    obtain ⟨n, more, clause, ident, next⟩ := named.clause_first binding
    have word : (("type".toList ++ c :: tail)).takeWhile isIdentChar = "type".toList := by
      rw [takeWhile_append_of_pos (isName_word rfl).chars, takeWhile_cons_of_neg]
      · simp
      · simp [isIdentChar_of_isBlank space]
    have first : (n ++ (more ++ ' ' :: "from ".toList)).takeWhile isIdentChar = n := by
      rw [takeWhile_append_of_pos ident]
      cases more with
      | nil => simp; rfl
      | cons d more => simp [next d rfl]
    rw [clause, append_assoc] at whole
    rw [whole, word] at first
    subst first
    have rest := append_cancel_left whole
    cases more with
    | nil =>
      obtain ⟨-, rfl⟩ := List.cons.inj rest
      rfl
    | cons d more =>
      obtain ⟨rfl, -⟩ := List.cons.inj rest
      simp [(next d rfl).2] at space

theorem frontBinding?_front : frontBinding? (front i) = some (i.typeOnly, i.clause) := by
  have neat := named.clause_neat binding
  have whole := frontClause_neat neat.last none fun none => absurd none neat.filled
  have first : spaced? "import" (front i) = some
      ((if i.typeOnly then "type".toList ++ [' '] else []) ++ (i.clause ++ ' ' :: "from ".toList)) := by
    refine spaced?_eq_some.mpr ⟨' ', _, rfl, rfl, ?_⟩
    cases i.typeOnly with
    | true => rfl
    | false => exact (neat.dropBlanks _).symm
  unfold frontBinding?
  rw [first, bind_eq_bind, bind_some]
  cases typed : i.typeOnly with
  | true =>
    have second : spaced? "type" ("type".toList ++ [' '] ++ (i.clause ++ ' ' :: "from ".toList)) =
        some (i.clause ++ ' ' :: "from ".toList) :=
      spaced?_eq_some.mpr ⟨' ', _, rfl, by simp, (neat.dropBlanks _).symm⟩
    rw [if_pos rfl, second, bind_some, whole]
    rfl
  | false =>
    rw [if_neg Bool.false_ne_true, nil_append, frontClause_untyped named binding, whole]
    rfl

end Import

-- A module name that can stand between the quotes of an import statement as it is.
structure ModuleName.Legible (m : Text) : Prop where
  filled : m ≠ []
  inner : QuoteFree m
  block : ¬HasBlockComment m
  line : ¬HasLineComment false m
  single : Single true m

namespace ModuleName.Legible

variable {m : Text} {quote : Char} (legible : Legible m) (isQuote : IsQuote quote)

include legible isQuote

theorem quoted : Quoted quote m := ⟨isQuote, legible.filled, legible.inner⟩

theorem commentFree {front : Text} (slash : '/' ∉ front) (semicolon : Bool) :
    CommentFree (front ++ quote :: (m ++ quote :: if semicolon then [';'] else [])) := by
  have behind : '/' ∉ if semicolon then [';'] else [] := by cases semicolon <;> decide
  exact commentFree_between isQuote slash behind legible.block legible.line

end ModuleName.Legible

namespace Import

variable {i : Import}

@[simp] theorem ending?_semicolon (semicolon : Bool) : ending? (if semicolon then [';'] else []) = some semicolon := by
  cases semicolon <;> rfl

theorem render_eq (binding : i.isSideEffect = false) : i.render = front i.toImportContent ++
      i.quote :: (i.source ++ i.quote :: if i.semicolon then [';'] else []) := by
  unfold render front
  rw [if_neg (Bool.eq_false_iff.mp binding)]
  cases i.typeOnly <;> simp [quoted]

theorem not_mem_front (named : i.WellNamed) {c : Char} (other : isIdentChar c = false)
    (mark : c ∉ " ,*\x7b\x7d".toList) : c ∉ front i.toImportContent := by
  have space : c ≠ ' ' := by
    rintro rfl
    simp at mark
  have letters : ∀ {t : Text}, (t.all fun c => isIdentChar c || c == ' ') = true → c ∉ t := by
    intro t plain member
    simpa [other, space] using all_eq_true.mp plain c member
  unfold front
  simp only [mem_append, mem_cons, not_or]
  refine ⟨letters rfl, space, ?_, named.not_mem_clause other mark, space, letters rfl⟩
  split
  · exact letters rfl
  · simp

theorem quoteFree_front (named : i.WellNamed) : QuoteFree (front i.toImportContent) := by
  intro c member isQuote
  refine not_mem_front named ?_ ?_ member
  · rcases isQuote with rfl | rfl <;> rfl
  · rcases isQuote with rfl | rfl <;> decide

theorem neat_quoted {quote : Char} {m : Text} (isQuote : IsQuote quote) (single : Single true m)
    (semicolon : Bool) : Neat (quote :: (m ++ quote :: if semicolon then [';'] else [])) := by
  have visible : ∀ c ∈ quote :: (if semicolon then [';'] else []), isBlank c = false := by
    rw [forall_mem_cons]
    refine ⟨isQuote.visible, ?_⟩
    split
    · exact forall_mem_singleton.mpr rfl
    · simp
  have opening : Neat [quote] := neat_mark isQuote.visible
  have behind : Single true (m ++ quote :: if semicolon then [';'] else []) :=
    single_append.mpr ⟨single, single_visible visible _⟩
  have last : ∀ c ∈ (m ++ quote :: if semicolon then [';'] else []).getLast?, isBlank c = false := by
    intro c member
    rw [getLast?_append_of_ne_nil _ (by simp)] at member
    exact visible c (mem_of_getLast? member)
  exact opening.onward behind last

theorem render_neat (named : i.WellNamed) (binding : i.isSideEffect = false)
    (isQuote : IsQuote i.quote) (single : Single true i.source) : Neat i.render := by
  have opening : Neat "import".toList := neat_word rfl
  have type : Neat "type".toList := neat_word rfl
  have word : Neat "from".toList := neat_word rfl
  have clause := (named.clause_neat binding).spaced (word.spaced (neat_quoted isQuote single i.semicolon))
  rw [render_eq binding]
  unfold front
  cases i.typeOnly with
  | true => simpa using opening.spaced (type.spaced clause)
  | false => simpa using opening.spaced clause

theorem read?_render (named : i.WellNamed) (binding : i.isSideEffect = false) (isQuote : IsQuote i.quote)
    (legible : ModuleName.Legible i.source) : read? i.render = some {i with raw := i.render} := by
  have plain : plainText i.render = i.render := by
    refine (render_neat named binding isQuote legible.single).plainText ?_
    rw [render_eq binding]
    exact legible.commentFree isQuote (not_mem_front named rfl (by decide)) i.semicolon
  have bare : isBare "import" (front i.toImportContent) = false := by
    rw [Bool.eq_false_iff]
    intro bare
    obtain ⟨gap, blank, whole⟩ := isBare_iff.mp bare
    have shown : 'm' ∉ gap := not_mem_blank blank rfl
    refine shown ?_
    rw [← append_cancel_left whole]
    simp
  rw [read?_front (legible.quoted isQuote) (plain.trans (render_eq binding)) (quoteFree_front named) (ending?_semicolon i.semicolon),
    if_neg (Bool.eq_false_iff.mp bare), frontBinding?_front named binding, map_some,
    named.contentOf_clause binding]

theorem read?_render_bare (unbound : i.names = []) (plain : i.typeOnly = false) (isQuote : IsQuote i.quote)
    (legible : ModuleName.Legible i.source) : read? i.render = some {i with raw := i.render} := by
  obtain ⟨⟨source, specifiers, defaultName, namespaceName, typeOnly⟩, raw, quote, semicolon⟩ := i
  simp only [ImportContent.names, append_eq_nil_iff, toList_eq_nil_iff, map_eq_nil_iff] at unbound
  obtain ⟨⟨rfl, rfl⟩, rfl⟩ := unbound
  cases plain
  have text : ∀ raw, render ⟨{source}, raw, quote, semicolon⟩ =
      "import ".toList ++ quote :: (source ++ quote :: if semicolon then [';'] else []) := by
    intro raw
    show "import ".toList ++ (quoted quote source ++ _) = _
    simp [quoted]
  have neat : Neat ("import ".toList ++ quote :: (source ++ quote :: if semicolon then [';'] else [])) :=
    (neat_word rfl : Neat "import".toList).spaced (neat_quoted isQuote legible.single semicolon)
  have whole := neat.plainText (legible.commentFree isQuote (by decide) semicolon)
  rw [text, read?_front (legible.quoted isQuote) whole (quoteFree_word "import " rfl) (ending?_semicolon semicolon)]
  rfl

theorem restrict_wellNamed (named : i.WellNamed) (used : List Text) : (i.restrict used).WellNamed := by
  refine ⟨fun n member => ?_, fun s member => named.listed s (mem_filter.mp member).1⟩
  rw [restrict_names] at member
  exact named.bound n (mem_filter.mp member).1

theorem read?_legible {raw : Text} (found : read? raw = some i) : IsQuote i.quote ∧ ModuleName.Legible i.source := by
  obtain ⟨quoted, f, tail, plain, -, -⟩ := read?_namesModule found
  obtain ⟨free, single⟩ := plainText_plain raw
  rw [plain, commentFree_quoted quoted.isQuote] at free
  rw [plain, single_append] at single
  obtain ⟨⟨-, ⟨block, -, -⟩, -⟩, -, line, -⟩ := free
  have rest : Single (!isBlank i.origin.quote) (i.source ++ i.quote :: tail) := single.2.2
  rw [quoted.isQuote.visible, single_append] at rest
  exact ⟨quoted.isQuote, quoted.filled, quoted.inner, block, line, rest.1⟩

-- Reading undoes rendering: an import that was read is read again from what is written for it, and
-- so is what narrowing leaves of it.
theorem narrow_read_back {raw : Text} (found : read? raw = some i) (binding : i.isSideEffect = false) :
    read? i.render = some {i with raw := i.render} ∧ ∀ used k, i.narrow used = some k → read? k.raw = some k := by
  obtain ⟨isQuote, legible⟩ := read?_legible found
  have named := read?_wellNamed found
  refine ⟨read?_render named binding isQuote legible, fun used k narrowed => ?_⟩
  rw [narrow_eq] at narrowed
  split at narrowed
  · cases narrowed
  · rename_i kept
    split at narrowed
    · cases narrowed
      rw [read?_raw found, found]
    · cases narrowed
      have left : (i.restrict used).isSideEffect = false := by simpa using kept
      exact read?_render (restrict_wellNamed named used) left isQuote legible

def ofWords : Import where
  source := "./a".toList
  specifiers := [⟨"type".toList, "as".toList, false⟩, ⟨"as".toList, "from".toList, true⟩]
  defaultName := some "type".toList
  raw := "import type, \x7b type as as,\n  type as as from \x7d from './a' // names".toList
  semicolon := false

theorem narrow_read_back_ofWords : read? ofWords.raw = some ofWords ∧ ofWords.isSideEffect = false ∧
    read? "import type, \x7b type as as, type as as from \x7d from './a'".toList =
      some {ofWords with raw := ofWords.render} ∧ read? "import type from './a'".toList =
      some {ofWords with specifiers := [], raw := "import type from './a'".toList} := by
  have found : read? ofWords.raw = some ofWords := by decide +kernel
  have binding : ofWords.isSideEffect = false := rfl
  have narrowed : ofWords.narrow ["type".toList] =
      some {ofWords with specifiers := [], raw := "import type from './a'".toList} := by
    decide +kernel
  obtain ⟨rendered, part⟩ := narrow_read_back found binding
  exact ⟨found, binding, rendered, part _ _ narrowed⟩

end Import

end ModuleSplit
