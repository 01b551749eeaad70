import ModuleSplit.Proofs.Declaration.Terminator
import ModuleSplit.Proofs.Import.Comments

-- What stands in front of the quotes around a module decides how a statement is read.

namespace ModuleSplit

open List Text Phrase

variable {t a b rest : Text}

def IsQuote (c : Char) : Prop := c = '\'' ∨ c = '"'

theorem IsQuote.visible {c : Char} (quote : IsQuote c) : isBlank c = false := by
  rcases quote with rfl | rfl <;> rfl

instance : DecidablePred IsQuote := fun c => inferInstanceAs (Decidable (c = '\'' ∨ c = '"'))

def QuoteFree (t : Text) : Prop := ∀ c ∈ t, ¬IsQuote c

theorem QuoteFree.append (left : QuoteFree a) (right : QuoteFree b) : QuoteFree (a ++ b) := forall_mem_append.mpr ⟨left, right⟩

theorem QuoteFree.subset (free : QuoteFree b) (part : a ⊆ b) : QuoteFree a :=
  fun c member => free c (part member)

theorem QuoteFree.after {word : Text} (free : QuoteFree t) (found : after? word t = some rest) : QuoteFree rest := by
  rw [after?_eq_some.mp found] at free
  exact free.subset (subset_append_right word rest)

theorem quoteFree_blank (blank : isBlankText t = true) : QuoteFree t := by
  intro c member quote
  have space := all_eq_true.mp blank c member
  simp [quote.visible] at space

theorem quoteFree_word (word : String)
    (plain : (word.toList.all fun c => c != '\'' && c != '"') = true) : QuoteFree word.toList := by
  intro c member quote
  have other := List.all_eq_true.mp plain c member
  rcases quote with rfl | rfl <;> simp at other

theorem visible_of_all {t : Text} (plain : (t.all fun c => c != '\'' && c != '"' && !isBlank c && c != '*') = true) :
    ∀ c ∈ t, ¬IsQuote c ∧ isBlank c = false ∧ c ≠ '*' := by
  intro c member
  have passes := List.all_eq_true.mp plain c member
  simp only [Bool.and_eq_true, bne_iff_ne, Bool.not_eq_true'] at passes
  obtain ⟨⟨⟨single, double⟩, visible⟩, star⟩ := passes
  exact ⟨fun quote => quote.elim single double, visible, star⟩

theorem IsQuote.not_mem {quote : Char} (isQuote : IsQuote quote) (word : String)
    (plain : (word.toList.all fun c => c != '\'' && c != '"') = true) : quote ∉ word.toList :=
  fun member => quoteFree_word word plain quote member isQuote

theorem spaced?_lead {word : String} (plain : (word.toList.all fun c => c != '\'' && c != '"') = true)
    (found : spaced? word t = some rest) : ∃ lead, QuoteFree lead ∧ t = lead ++ rest := by
  obtain ⟨c, tail, space, rfl, rfl⟩ := spaced?_eq_some.mp found
  have gap := takeWhile_append_dropWhile (p := isBlank) (l := c :: tail)
  have blank : isBlankText ((c :: tail).takeWhile isBlank) = true := by simp [isBlankText]
  have blanks : (c :: tail).dropWhile isBlank = dropBlanks tail := dropWhile_cons_of_pos space
  refine ⟨_, (quoteFree_word word plain).append (quoteFree_blank blank), ?_⟩
  rw [append_assoc, ← blanks, gap]

theorem QuoteFree.count (free : QuoteFree t) : t.countP (IsQuote ·) = 0 := by
  rw [List.countP_eq_zero]
  intro c member
  simpa using free c member

structure Quoted (quote : Char) (source : Text) : Prop where
  isQuote : IsQuote quote
  filled : source ≠ []
  inner : QuoteFree source

namespace Text

theorem commentFree_quoted {quote : Char} (isQuote : IsQuote quote) {f m e : Text} :
    CommentFree (f ++ quote :: (m ++ quote :: e)) ↔ (¬HasBlockComment f ∧ (¬HasBlockComment m ∧ ¬HasBlockComment e ∧
        ¬(OpensComment m ∧ EndsComment e)) ∧ ¬(OpensComment f ∧ (EndsComment m ∨ EndsComment e))) ∧
      ¬HasLineComment true f ∧ ¬HasLineComment false m ∧ ¬HasLineComment false e := by
  have slash : quote ≠ '/' := by rcases isQuote with rfl | rfl <;> decide
  have star : quote ≠ '*' := by rcases isQuote with rfl | rfl <;> decide
  have visible := isQuote.visible
  have split : ∀ t, CommentFree t ↔ ¬HasBlockComment t ∧ ¬HasLineComment true t :=
    fun t => ⟨fun free => ⟨free.block, free.line⟩, fun free => ⟨free.1, free.2⟩⟩
  rw [split, hasBlockComment_parted slash star, hasBlockComment_parted slash star,
    endsComment_parted slash star, hasLineComment_parted slash visible,
    hasLineComment_parted slash visible]
  simp only [not_or]

theorem commentFree_between {quote : Char} (isQuote : IsQuote quote) {f m e : Text}
    (front : '/' ∉ f) (back : '/' ∉ e) (block : ¬HasBlockComment m)
    (line : ¬HasLineComment false m) : CommentFree (f ++ quote :: (m ++ quote :: e)) := by
  obtain ⟨noBlock, noOpening, -, noLine⟩ := no_comment front
  obtain ⟨noBlock', -, noEnd, noLine'⟩ := no_comment back
  rw [commentFree_quoted isQuote]
  exact ⟨⟨noBlock, ⟨block, noBlock', fun both => noEnd both.2⟩, fun both => noOpening both.1⟩, noLine true, line, noLine' false⟩

end Text

section Front

variable {quote : Char} {f x : Text}

theorem after?_front {word : Text} (absent : quote ∉ word) :
    after? word (f ++ quote :: x) = (after? word f).map (· ++ quote :: x) := by
  cases found : after? word f with
  | some rest => simp [after?_eq_some.mp found]
  | none =>
    rw [Option.map_none, Option.eq_none_iff_forall_ne_some]
    intro rest longer
    rcases List.append_eq_append_iff.mp (after?_eq_some.mp longer) with
      ⟨more, split, behind⟩ | ⟨inside, split, _⟩
    · cases more with
      | nil =>
        have whole : after? word f = some [] := after?_eq_some.mpr (by simpa using split.symm)
        simp [found] at whole
      | cons c more =>
        obtain ⟨rfl, _⟩ := List.cons.inj behind
        exact absent (by simp [split])
    · have whole := after?_eq_some.mpr split
      simp [found] at whole

theorem dropBlanks_front (visible : isBlank quote = false) : dropBlanks (f ++ quote :: x) = dropBlanks f ++ quote :: x := by
  unfold dropBlanks trimLeftBy
  rw [List.dropWhile_append]
  split
  · rename_i none
    rw [List.isEmpty_iff.mp none]
    simp [visible]
  · rfl

theorem spaced?_front {word : String} (absent : quote ∉ word.toList) (visible : isBlank quote = false) :
    spaced? word (f ++ quote :: x) = (spaced? word f).map (· ++ quote :: x) := by
  unfold spaced? dropLead?
  rw [after?_front absent]
  cases after? word.toList f with
  | none => rfl
  | some rest =>
    cases rest with
    | nil => simp [blanks?, visible]
    | cons c rest =>
      simp only [Option.map_some, Option.bind_eq_bind, Option.bind_some, List.cons_append, blanks?]
      split
      · rw [dropBlanks_front visible]
        rfl
      · rfl

theorem skipSpaced_front {word : String} (absent : quote ∉ word.toList) (visible : isBlank quote = false) :
    skipSpaced word (f ++ quote :: x) = skipSpaced word f ++ quote :: x := by
  unfold skipSpaced
  rw [spaced?_front absent visible]
  cases spaced? word f <;> rfl

end Front

def isBare (word : String) (t : Text) : Bool := (dropLead? word t).any isBlankText

theorem isBare_iff {word : String} : isBare word t = true ↔ ∃ gap, isBlankText gap = true ∧ t = word.toList ++ gap := by
  unfold isBare
  constructor
  · intro bare
    cases lead : dropLead? word t with
    | none => simp [lead] at bare
    | some gap => exact ⟨gap, by simpa [lead] using bare, dropLead?_eq_some.mp lead⟩
  · rintro ⟨gap, blank, whole⟩
    rw [dropLead?_eq_some.mpr whole]
    exact blank

section Quoted

variable {quote : Char} {source f tail : Text}

theorem Quoted.takeWhile (quoted : Quoted quote source) (tail : Text) :
    (source ++ quote :: tail).takeWhile (fun c => c != '\'' && c != '"') = source := by
  have inner : ∀ c ∈ source, (c != '\'' && c != '"') = true := by
    intro c member
    have apart := quoted.inner c member
    rw [IsQuote, not_or] at apart
    simp [apart]
  have stop : ¬(quote != '\'' && quote != '"') = true := by
    rcases quoted.isQuote with rfl | rfl <;> decide
  rw [takeWhile_append_of_pos inner, takeWhile_cons, if_neg stop, append_nil]

theorem Quoted.not_mem (quoted : Quoted quote source) (word : String)
    (plain : (word.toList.all fun c => c != '\'' && c != '"') = true) : quote ∉ word.toList :=
  quoted.isQuote.not_mem word plain

theorem dropBlanks_quote (quoted : Quoted quote source) (free : QuoteFree f) (x : Text) :
    (isBlankText f = true ∧ dropBlanks (f ++ quote :: x) = quote :: x) ∨
      (isBlankText f = false ∧ ∃ c rest, ¬IsQuote c ∧ dropBlanks (f ++ quote :: x) = c :: rest) := by
  rw [dropBlanks_front quoted.isQuote.visible]
  cases shown : dropBlanks f with
  | nil => exact .inl ⟨by simpa [isBlankText] using List.dropWhile_eq_nil_iff.mp shown, rfl⟩
  | cons c rest =>
    refine .inr ⟨?_, c, _, free c ((dropBlanks_suffix f).subset (by simp [shown])), rfl⟩
    rw [Bool.eq_false_iff]
    intro blank
    simp [dropBlanks_blank blank] at shown

theorem fromClauseAt?_front (quoted : Quoted quote source) (free : QuoteFree f)
    (tail : Text) : Declaration.fromClauseAt? (f ++ quote :: (source ++ quote :: tail)) =
      if isBare "from" f then some (quote, source, tail) else none := by
  unfold Declaration.fromClauseAt? isBare dropLead?
  rw [after?_front (quoted.not_mem "from" rfl)]
  cases found : after? "from".toList f with
  | none => rfl
  | some rest =>
    have inside : QuoteFree rest := free.after found
    simp only [Option.map_some, Option.bind_eq_bind, Option.bind_some, Option.any_some]
    rcases dropBlanks_quote quoted inside (source ++ quote :: tail) with
      ⟨blank, same⟩ | ⟨shown, c, more, other, same⟩
    · rw [same, if_pos blank]
      simp only [quoted.takeWhile tail, List.drop_left]
      exact (if_pos quoted.isQuote).trans (if_pos ⟨trivial, quoted.filled⟩)
    · rw [same, if_neg (Bool.eq_false_iff.mp shown)]
      exact if_neg other

theorem sideEffect?_front (quoted : Quoted quote source) (free : QuoteFree f)
    (raw tail : Text) : Import.sideEffect? raw (f ++ quote :: (source ++ quote :: tail)) =
      if isBare "import" f then (Import.ending? tail).map
        fun semicolon => {source := source, raw := raw, quote := quote, semicolon := semicolon} else none := by
  unfold Import.sideEffect? isBare dropLead?
  rw [after?_front (quoted.not_mem "import" rfl)]
  cases found : after? "import".toList f with
  | none => rfl
  | some rest =>
    have inside : QuoteFree rest := free.after found
    simp only [Option.map_some, Option.bind_eq_bind, Option.bind_some, Option.any_some]
    rcases dropBlanks_quote quoted inside (source ++ quote :: tail) with
      ⟨blank, same⟩ | ⟨shown, c, more, other, same⟩
    · rw [same, if_pos blank]
      simp only [quoted.takeWhile tail, List.drop_left]
      refine (if_pos ⟨quoted.isQuote, trivial, quoted.filled⟩).trans ?_
      cases Import.ending? tail <;> rfl
    · rw [same, if_neg (Bool.eq_false_iff.mp shown)]
      dsimp only
      split
      · exact if_neg fun all => other all.1
      · rfl

theorem finalFrom?_front (quoted : Quoted quote source) (free : QuoteFree f)
    (tail : Text) : Import.finalFrom? (f ++ quote :: (source ++ quote :: tail)) =
      if isBare "from" f then (Import.ending? tail).map (⟨quote, source, ·⟩) else none := by
  unfold Import.finalFrom?
  rw [fromClauseAt?_front quoted free]
  cases isBare "from" f with
  | false => rfl
  | true => cases ends : Import.ending? tail <;> simp [ends]

theorem quoted_of_takeWhile {body : Text} (isQuote : IsQuote quote)
    (closed : body.drop (body.takeWhile fun c => c != '\'' && c != '"').length = quote :: tail)
    (filled : (body.takeWhile fun c => c != '\'' && c != '"') ≠ []) :
    Quoted quote (body.takeWhile fun c => c != '\'' && c != '"') ∧
      body = (body.takeWhile fun c => c != '\'' && c != '"') ++ quote :: tail := by
  refine ⟨⟨isQuote, filled, ?_⟩, ?_⟩
  · intro c member other
    have plain := List.mem_takeWhile_imp member
    rcases other with rfl | rfl <;> simp at plain
  · rw [← closed]
    exact (List.prefix_iff_eq_append.mp (List.takeWhile_prefix _)).symm

theorem takeWhile_dropBlanks (t : Text) : isBlankText (t.takeWhile isBlank) = true ∧ t = t.takeWhile isBlank ++ dropBlanks t :=
  ⟨by simp [isBlankText], (List.takeWhile_append_dropWhile ..).symm⟩

theorem fromClauseAt?_parts {t : Text} (found : Declaration.fromClauseAt? t = some (quote, source, tail)) : Quoted quote source ∧
      ∃ gap, isBlankText gap = true ∧ t = "from".toList ++ (gap ++ quote :: (source ++ quote :: tail)) := by
  unfold Declaration.fromClauseAt? at found
  obtain ⟨rest, lead, found⟩ := Option.bind_eq_some_iff.mp found
  split at found
  · rename_i opening body text
    obtain ⟨isQuote, found⟩ := Option.ite_none_right_eq_some.mp found
    dsimp only at found
    split at found
    · rename_i close behind dropped
      obtain ⟨⟨rfl, filled⟩, same⟩ := Option.ite_none_right_eq_some.mp found
      cases same
      obtain ⟨quoted, whole⟩ := quoted_of_takeWhile isQuote dropped filled
      obtain ⟨blank, gap⟩ := takeWhile_dropBlanks rest
      refine ⟨quoted, _, blank, ?_⟩
      rw [← whole, ← text, ← gap]
      exact dropLead?_eq_some.mp lead
    · cases found
  · cases found

end Quoted

namespace Import

variable {t : Text} {found : FromClause}

theorem ending?_isEnding {semicolon : Bool} (ends : ending? t = some semicolon) : IsEnding t := by
  have gap := List.takeWhile_append_dropWhile (p := isBlank) (l := t)
  have blank : ∀ c ∈ t.takeWhile isBlank, isBlank c = true := fun c => List.mem_takeWhile_imp
  have blanks : t.dropWhile isBlank = dropBlanks t := rfl
  unfold ending? at ends
  rw [← gap]
  split at ends
  · rename_i none
    rw [blanks, none, List.append_nil]
    exact fun c member => .inl (blank c member)
  · rename_i rest more
    obtain ⟨none, _⟩ := Option.ite_none_right_eq_some.mp ends
    rw [blanks, more]
    intro c member
    rcases List.mem_append.mp member with front | behind
    · exact .inl (blank c front)
    · rcases List.mem_cons.mp behind with rfl | later
      · exact .inr rfl
      · exact .inl (List.dropWhile_eq_nil_iff.mp (List.isEmpty_iff.mp none) c later)
  · cases ends

theorem ending?_quoteFree {semicolon : Bool} (ends : ending? t = some semicolon) : QuoteFree t := by
  intro c member quote
  rcases ending?_isEnding ends c member with blank | rfl
  · simp [quote.visible] at blank
  · rcases quote with other | other <;> cases other

theorem clauseThenFrom?_parts {clause : Text} {last : Option Char}
    (read : clauseThenFrom? last t = some (clause, found)) : Quoted found.quote found.source ∧
      ∃ gap behind tail, t = clause ++ (gap ++ ("from".toList ++
        (behind ++ found.quote :: (found.source ++ found.quote :: tail)))) ∧
        isBlankText gap = true ∧ isBlankText behind = true ∧ ending? tail = some found.semicolon := by
  induction t generalizing last clause with
  | nil =>
    rw [clauseThenFrom?.eq_def] at read
    cases read
  | cons c t ih =>
    rw [clauseThenFrom?.eq_def] at read
    dsimp only at read
    split at read
    · rename_i here
      cases read
      split at here
      · cases here
      · obtain ⟨-, here⟩ := Option.ite_none_right_eq_some.mp here
        obtain ⟨⟨quote, source, rest⟩, clause, here⟩ := Option.bind_eq_some_iff.mp here
        obtain ⟨semicolon, ends, same⟩ := Option.bind_eq_some_iff.mp here
        cases same
        obtain ⟨quoted, behind, inner, whole⟩ := fromClauseAt?_parts clause
        obtain ⟨blank, gap⟩ := takeWhile_dropBlanks (c :: t)
        refine ⟨quoted, _, behind, rest, ?_, blank, inner, ends⟩
        rw [List.nil_append, ← whole, ← gap]
    · obtain ⟨⟨inner, later⟩, behind, same⟩ := Option.map_eq_some_iff.mp read
      cases same
      obtain ⟨quoted, gap, more, tail, rfl, rest⟩ := ih behind
      exact ⟨quoted, gap, more, tail, rfl, rest⟩

-- The shortest part of a text that the word `from` is left behind.
def frontClause (last : Option Char) : Text → Option Text
  | [] => none
  | c :: f =>
    if last.any (fun before => isBlank c || !isWord before) &&
        isBare "from" (dropBlanks (c :: f)) then some []
    else (frontClause (some c) f).map (c :: ·)

section Quoted

variable {quote : Char} {source f tail : Text} {semicolon : Bool}

theorem clauseThenFrom?_unquoted {t : Text} (free : QuoteFree f) (tail : QuoteFree t)
    (last : Option Char) : clauseThenFrom? last (f ++ quote :: t) = none := by
  rw [Option.eq_none_iff_forall_ne_some]
  rintro ⟨clause, found⟩ read
  obtain ⟨quoted, gap, behind, rest, whole, _⟩ := clauseThenFrom?_parts read
  have count := congrArg (List.countP (IsQuote ·)) whole
  simp [List.countP_append, List.countP_cons, free.count, tail.count, quoted.isQuote] at count
  split at count <;> omega

theorem clauseThenFrom?_front (quoted : Quoted quote source)
    (free : QuoteFree f) (ends : ending? tail = some semicolon) (last : Option Char) :
    clauseThenFrom? last (f ++ quote :: (source ++ quote :: tail)) =
      (frontClause last f).map (·, ⟨quote, source, semicolon⟩) := by
  induction f generalizing last with
  | nil =>
    have none : QuoteFree [] := by simp [QuoteFree]
    have here := finalFrom?_front quoted none tail
    have first : dropBlanks (quote :: (source ++ quote :: tail)) = quote :: (source ++ quote :: tail) :=
      dropBlanks_front (f := []) quoted.isQuote.visible
    have rest : clauseThenFrom? (some quote) (source ++ quote :: tail) = Option.none :=
      clauseThenFrom?_unquoted quoted.inner (ending?_quoteFree ends) (some quote)
    rw [List.nil_append] at here ⊢
    rw [clauseThenFrom?.eq_def, frontClause]
    dsimp only
    have word : isBare "from" [] = false := rfl
    rw [first, here, rest]
    cases last <;> simp [word]
  | cons c f ih =>
    have inside : QuoteFree (dropBlanks (c :: f)) := free.subset (dropBlanks_suffix _).subset
    have here := finalFrom?_front quoted inside tail
    rw [← dropBlanks_front quoted.isQuote.visible, ends, List.cons_append] at here
    rw [List.cons_append, clauseThenFrom?.eq_def, frontClause]
    dsimp only
    rw [here, ih (free.subset (List.subset_cons_self c f))]
    cases last with
    | none => simp [Function.comp_def]
    | some before =>
      cases isBare "from" (dropBlanks (c :: f)) with
      | false => simp [Function.comp_def]
      | true =>
        by_cases place : (isBlank c || !isWord before) = true <;> simp [place, Function.comp_def]

def frontBinding? (f : Text) : Option (Bool × Text) := do
  let rest ← spaced? "import" f
  ((spaced? "type" rest).bind (frontClause none)).map (true, ·) <|>
    (frontClause none rest).map (false, ·)

theorem contentOf_elsewhere (typeOnly : Bool) (clause m : Text) :
    contentOf typeOnly clause source = {contentOf typeOnly clause m with source := source} := by
  have folded : ∀ (entries : List Text) (i : ImportContent), entries.foldl addBinding {i with source := source} =
        {entries.foldl addBinding i with source := source} := by
    intro entries
    induction entries with
    | nil => exact fun i => rfl
    | cons entry rest ih =>
      intro i
      have step : addBinding {i with source := source} entry = {addBinding i entry with source := source} := by
        unfold addBinding
        split
        · rfl
        · split <;> rfl
      rw [List.foldl_cons, step, ih, List.foldl_cons]
  unfold contentOf
  rw [← folded]

theorem contentOf_source (typeOnly : Bool) (clause source : Text) : (contentOf typeOnly clause source).source = source := by
  rw [contentOf_elsewhere typeOnly clause []]

theorem withBindings?_front (quoted : Quoted quote source)
    (free : QuoteFree f) (ends : ending? tail = some semicolon) (raw : Text) :
    withBindings? raw (f ++ quote :: (source ++ quote :: tail)) = (frontBinding? f).map fun found =>
        ⟨contentOf found.1 found.2 source, raw, quote, semicolon⟩ := by
  have visible := quoted.isQuote.visible
  unfold withBindings? frontBinding?
  rw [spaced?_front (quoted.not_mem "import" rfl) visible]
  cases first : spaced? "import" f with
  | none => rfl
  | some rest =>
    have inside : QuoteFree rest := free.subset (spaced?_suffix first).subset
    have bound : ∀ {g : Text} (typeOnly : Bool), QuoteFree g →
        binding? raw typeOnly (g ++ quote :: (source ++ quote :: tail)) = (frontClause none g).map fun clause =>
            ⟨contentOf typeOnly clause source, raw, quote, semicolon⟩ := by
      intro g typeOnly free
      unfold binding?
      rw [clauseThenFrom?_front quoted free ends]
      cases frontClause none g <;> rfl
    simp only [Option.map_some, Option.bind_eq_bind, Option.bind_some]
    rw [spaced?_front (quoted.not_mem "type" rfl) visible, bound false inside]
    cases second : spaced? "type" rest with
    | none =>
      simp [Function.comp_def]
    | some more =>
      rw [Option.map_some, Option.bind_some, Option.bind_some, bound true (inside.subset (spaced?_suffix second).subset)]
      cases frontClause none more <;> simp [Function.comp_def]

theorem read?_front (quoted : Quoted quote source) {raw : Text}
    (plain : plainText raw = f ++ quote :: (source ++ quote :: tail)) (free : QuoteFree f)
    (ends : ending? tail = some semicolon) : read? raw = if isBare "import" f then
        some {source := source, raw := raw, quote := quote, semicolon := semicolon} else (frontBinding? f).map fun found =>
        ⟨contentOf found.1 found.2 source, raw, quote, semicolon⟩ := by
  unfold read?
  dsimp only
  rw [plain, sideEffect?_front quoted free, withBindings?_front quoted free ends, ends]
  cases isBare "import" f <;> rfl

end Quoted

theorem binding?_eq (raw : Text) (typeOnly : Bool) (t : Text) : binding? raw typeOnly t =
    (clauseThenFrom? none t).map fun found =>
      ⟨contentOf typeOnly found.1 found.2.source, raw, found.2.quote, found.2.semicolon⟩ := by
  unfold binding?
  cases clauseThenFrom? none t <;> rfl

def clauseText? (raw : Text) : Option Text := do
  let rest ← spaced? "import" (plainText raw)
  ((spaced? "type" rest).bind (clauseThenFrom? none) <|> clauseThenFrom? none rest).map (·.1)

def origin (i : Import) : FromClause := ⟨i.quote, i.source, i.semicolon⟩

-- A text ends in the name of a module. In front of it no quote stands, unless the clause has one.
structure NamesModule (t : Text) (found : FromClause) (clause : Option Text) : Prop where
  quoted : Quoted found.quote found.source
  parts : ∃ f tail, t = f ++ found.quote :: (found.source ++ found.quote :: tail) ∧
    ending? tail = some found.semicolon ∧ ((∀ c ∈ clause, QuoteFree c) → QuoteFree f)

theorem NamesModule.behind {lead : Text} {clause : Option Text}
    (names : NamesModule t found clause) (free : QuoteFree lead) : NamesModule (lead ++ t) found clause := by
  obtain ⟨quoted, f, tail, rfl, ends, front⟩ := names
  exact ⟨quoted, lead ++ f, tail, by simp, ends, fun clause => free.append (front clause)⟩

theorem clauseThenFrom?_namesModule {clause : Text}
    (read : clauseThenFrom? none t = some (clause, found)) : NamesModule t found (some clause) := by
  obtain ⟨quoted, gap, behind, tail, whole, blank, blank', ends⟩ := clauseThenFrom?_parts read
  refine ⟨quoted, clause ++ (gap ++ ("from".toList ++ behind)), tail, by simp [whole], ends, ?_⟩
  intro free
  have inner : QuoteFree clause := free clause rfl
  exact inner.append ((quoteFree_blank blank).append ((quoteFree_word "from" rfl).append (quoteFree_blank blank')))

theorem sideEffect?_namesModule {raw : Text} {i : Import} (found : sideEffect? raw t = some i)
    (clause : Option Text) : NamesModule t i.origin clause := by
  unfold sideEffect? at found
  obtain ⟨rest, lead, found⟩ := Option.bind_eq_some_iff.mp found
  split at found
  · rename_i opening body text
    dsimp only at found
    split at found
    · rename_i close behind dropped
      obtain ⟨⟨isQuote, rfl, filled⟩, found⟩ := Option.ite_none_right_eq_some.mp found
      obtain ⟨semicolon, ends, same⟩ := Option.bind_eq_some_iff.mp found
      cases same
      obtain ⟨quoted, whole⟩ := quoted_of_takeWhile isQuote dropped filled
      obtain ⟨blank, gap⟩ := takeWhile_dropBlanks rest
      have front := (quoteFree_word "import" rfl).append (quoteFree_blank blank)
      refine ⟨quoted, _, behind, ?_, ends, fun _ => front⟩
      rw [List.append_assoc]
      exact (dropLead?_eq_some.mp lead).trans (congrArg _ (by rw [origin, ← whole, ← text, ← gap]))
    · cases found
  · cases found

theorem read?_namesModule {raw : Text} {i : Import} (found : read? raw = some i) :
    NamesModule (plainText raw) i.origin (clauseText? raw) := by
  unfold read? at found
  rcases Option.or_eq_some_iff.mp (Option.orElse_eq_or.symm.trans found) with effect | ⟨_, found⟩
  · exact sideEffect?_namesModule effect _
  · obtain ⟨rest, first, found⟩ := Option.bind_eq_some_iff.mp found
    obtain ⟨lead, free, whole⟩ := spaced?_lead rfl first
    unfold clauseText?
    rw [first, Option.bind_eq_bind, Option.bind_some, whole]
    refine NamesModule.behind ?_ free
    rcases Option.or_eq_some_iff.mp (Option.orElse_eq_or.symm.trans found) with typed | ⟨none, plain⟩
    · obtain ⟨more, second, read⟩ := Option.bind_eq_some_iff.mp typed
      obtain ⟨word, free, whole⟩ := spaced?_lead rfl second
      rw [binding?_eq] at read
      obtain ⟨⟨clause, origin⟩, here, rfl⟩ := Option.map_eq_some_iff.mp read
      rw [second, Option.bind_some, here, whole]
      simpa [Import.origin, contentOf_source] using (clauseThenFrom?_namesModule here).behind free
    · rw [binding?_eq] at plain
      obtain ⟨⟨clause, origin⟩, here, rfl⟩ := Option.map_eq_some_iff.mp plain
      have untyped : (spaced? "type" rest).bind (clauseThenFrom? Option.none) = Option.none := by
        cases second : spaced? "type" rest with
        | none => rfl
        | some more => simpa [second, binding?_eq] using none
      rw [untyped, here]
      simpa [Import.origin, contentOf_source] using clauseThenFrom?_namesModule here

end Import

structure ReadQuoted (t : Text) (quote : Char) (source : Text) : Prop where
  isQuote : IsQuote quote
  present : quote ∈ t
  inner : ∀ c ∈ source, ¬IsQuote c ∧ c ∈ t

namespace ReadQuoted

variable {t u source : Text} {quote : Char}

theorem of_suffix (read : ReadQuoted u quote source) (part : u <:+ t) : ReadQuoted t quote source :=
  ⟨read.isQuote, part.subset read.present, fun c member => ⟨(read.inner c member).1, part.subset (read.inner c member).2⟩⟩

theorem of_parts (quoted : Quoted quote source) {f tail : Text}
    (whole : t = f ++ quote :: (source ++ quote :: tail)) : ReadQuoted t quote source := by
  refine ⟨quoted.isQuote, by simp [whole], fun c member => ⟨quoted.inner c member, ?_⟩⟩
  simp [whole, member]

end ReadQuoted

theorem Declaration.fromClauseAt?_read {t source tail : Text} {quote : Char}
    (found : fromClauseAt? t = some (quote, source, tail)) : ReadQuoted t quote source := by
  obtain ⟨quoted, gap, _, whole⟩ := fromClauseAt?_parts found
  rw [← List.append_assoc] at whole
  exact .of_parts quoted whole

theorem Import.read?_quoted {raw : Text} {i : Import} (found : read? raw = some i) :
    ReadQuoted (plainText raw) i.quote i.source := by
  obtain ⟨quoted, f, tail, whole, _⟩ := read?_namesModule found
  exact .of_parts quoted whole

theorem findAtWordStart_read {α : Type} {read : Text → Option α} {afterWord : Bool} {t : Text}
    {a : α} (found : findAtWordStart read afterWord t = some a) : ∃ u, u <:+ t ∧ read u = some a := by
  induction t generalizing afterWord with
  | nil =>
    cases afterWord with
    | true => cases found
    | false => exact ⟨[], List.suffix_rfl, found⟩
  | cons c t ih =>
    rw [findAtWordStart] at found
    split at found
    · rename_i here
      cases found
      exact ⟨_, List.suffix_rfl, (Option.ite_none_left_eq_some.mp here).2⟩
    · obtain ⟨u, part, found⟩ := ih found
      exact ⟨u, part.trans (List.suffix_cons c t), found⟩

theorem ReExport.read?_quoted {raw : Text} {r : ReExport} (found : read? raw = some r) :
    ReadQuoted (Import.plainText raw) r.quote r.source := by
  obtain ⟨rest, lead, found⟩ := Option.bind_eq_some_iff.mp found
  have part := (skipSpaced_suffix "type" rest).trans (spaced?_suffix lead)
  split at found
  · rename_i c tail text
    rw [text] at part
    obtain ⟨-, found⟩ := Option.ite_none_right_eq_some.mp found
    obtain ⟨⟨quote, source, tail⟩, clause, same⟩ := Option.bind_eq_some_iff.mp found
    cases same
    obtain ⟨u, inside, clause⟩ := findAtWordStart_read clause
    exact (Declaration.fromClauseAt?_read clause).of_suffix (inside.trans ((List.suffix_cons c _).trans part))
  · cases found

end ModuleSplit
