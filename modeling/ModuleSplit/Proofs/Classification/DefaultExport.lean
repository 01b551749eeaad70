import ModuleSplit.Proofs.Declaration.Opening
import ModuleSplit.Proofs.Import.Select

namespace ModuleSplit

open List Text Phrase Option

namespace Text

variable {word t : Text}

def lastWord (t : Text) : Text := ((t.reverse.dropWhile isBlank).takeWhile (!isBlank ·)).reverse

def EndsIn (t word : Text) : Prop :=
  ∃ before blanks, t = before ++ word ++ blanks ∧ (∀ c ∈ blanks, isBlank c = true) ∧
    (before = [] ∨ ∃ rest c, before = rest ++ [c] ∧ isBlank c = true)

theorem EndsIn.lastWord_eq (ends : EndsIn t word) (some : word ≠ [])
    (visible : ∀ c ∈ word, isBlank c = false) : lastWord t = word := by
  obtain ⟨before, blanks, rfl, blank, apart⟩ := ends
  unfold lastWord
  rw [reverse_append, reverse_append, dropWhile_append_of_pos (by simpa using blank)]
  have head : (word.reverse ++ before.reverse).dropWhile isBlank = word.reverse ++ before.reverse := by
    cases reversed : word.reverse with
    | nil => exact absurd (reverse_eq_nil_iff.mp reversed) some
    | cons c rest =>
      have member : c ∈ word := by
        rw [← mem_reverse, reversed]
        exact mem_cons_self
      rw [cons_append, dropWhile_cons_of_neg (by simp [visible c member])]
  rw [head, takeWhile_append_of_pos (by simpa using visible)]
  rcases apart with rfl | ⟨rest, c, rfl, space⟩
  · simp
  · simp [space]

theorem EndsIn.of_trim (ends : EndsIn (trim t) word) : EndsIn t word := by
  obtain ⟨left, right, same, blankLeft, blankRight⟩ := trim_append t
  obtain ⟨before, blanks, trimmed, blank, apart⟩ := ends
  refine ⟨left ++ before, blanks ++ right, ?_, ?_, ?_⟩
  · rw [same, trimmed]
    simp only [append_assoc]
  · exact forall_mem_append.mpr ⟨blank, blankRight⟩
  · rcases apart with rfl | ⟨rest, c, rfl, space⟩
    · rcases eq_nil_or_concat left with rfl | ⟨rest, c, rfl⟩
      · exact .inl rfl
      · exact .inr ⟨rest, c, by simp, blankLeft c (by simp)⟩
    · exact .inr ⟨left ++ rest, c, by simp, space⟩

theorem EndsIn.self (word : Text) : EndsIn word word := ⟨[], [], by simp, by simp, .inl rfl⟩

theorem EndsIn.behind {before tail : Text} {c : Char} (blank : isBlank c = true)
    (ends : EndsIn (dropBlanks tail) word) : EndsIn (before ++ c :: tail) word := by
  obtain ⟨middle, blanks, rest, after, apart⟩ := ends
  have split : tail = tail.takeWhile isBlank ++ dropBlanks tail := takeWhile_append_dropWhile.symm
  refine ⟨before ++ c :: tail.takeWhile isBlank ++ middle, blanks, ?_, after, .inr ?_⟩
  · conv_lhs => rw [split, rest]
    simp
  · rcases apart with rfl | ⟨others, d, rfl, space⟩
    · have all : ∀ d ∈ c :: tail.takeWhile isBlank, isBlank d = true := forall_mem_cons.mpr ⟨blank, all_eq_true.mp all_takeWhile⟩
      rcases eq_nil_or_concat (c :: tail.takeWhile isBlank) with none | ⟨others, d, same⟩
      · cases none
      · exact ⟨before ++ others, d, by simp [same], all d (by simp [same])⟩
    · exact ⟨before ++ c :: tail.takeWhile isBlank ++ others, d, by simp, space⟩

end Text

namespace Import

variable {t name : Text}

theorem nameRun?_eq {rest : Text} (found : nameRun? t = some (name, rest)) : t = name ++ rest := by
  unfold nameRun? at found
  dsimp only at found
  split at found
  · cases found
  · cases found
    exact (prefix_iff_eq_append.mp (List.takeWhile_prefix isIdentChar)).symm

theorem wholeName?_eq (found : wholeName? t = some name) : t = name := by
  unfold wholeName? at found
  obtain ⟨⟨run, rest⟩, read, found⟩ := bind_eq_some_iff.mp found
  have same := nameRun?_eq read
  dsimp only at found
  split at found
  · rename_i none
    cases found
    rw [same, isEmpty_iff.mp none, append_nil]
  · cases found

theorem plainSpecifier?_endsIn {typeOnly : Bool} {s : Specifier}
    (found : plainSpecifier? typeOnly t = some s) : EndsIn t s.asName := by
  unfold plainSpecifier? at found
  obtain ⟨⟨name, rest⟩, read, found⟩ := bind_eq_some_iff.mp found
  have same := nameRun?_eq read
  dsimp only at found
  split at found
  · rename_i none
    cases found
    rw [same, isEmpty_iff.mp none, append_nil]
    exact .self _
  · simp only [bind_eq_bind, bind_eq_some_iff] at found
    obtain ⟨behind, blanks, tail, word, other, whole, same⟩ := found
    cases same
    obtain ⟨c, first, space, rfl, rfl⟩ := blanks?_eq_some.mp blanks
    obtain ⟨d, second, again, as, rfl⟩ := spaced?_eq_some.mp word
    rw [same]
    refine EndsIn.behind space ?_
    rw [as]
    refine EndsIn.behind again ?_
    rw [wholeName?_eq whole]
    exact .self _

theorem specifier?_endsIn {s : Specifier} (found : specifier? t = some s) : EndsIn t s.asName := by
  unfold specifier? at found
  rcases or_eq_some_iff.mp (orElse_eq_or.symm.trans found) with typed | ⟨_, plain⟩
  · obtain ⟨rest, word, read⟩ := bind_eq_some_iff.mp typed
    obtain ⟨c, tail, space, rfl, rfl⟩ := spaced?_eq_some.mp word
    exact EndsIn.behind space (plainSpecifier?_endsIn read)
  · exact plainSpecifier?_endsIn plain

end Import

namespace DefaultExport

def listBody? (t : Text) : Option Text := do
  let rest := dropBlanks (← dropLead? "export" t)
  let rest := dropBlanks ((dropLead? "type" rest).getD rest)
  return (← dropLead? "\x7b" rest).takeWhile (· != '}')

def namespaceName? (t : Text) : Option Text := do
  let rest ← dropLead? "*" (dropBlanks (← dropLead? "export" t))
  return (← spaced? "as" (dropBlanks rest)).takeWhile isIdentChar

def inPlain (t : Text) : Bool :=
  (exportDefault? t).isSome ||
    (match listBody? t with
      | some body => (Text.splitOn ',' body).any fun entry => lastWord entry == "default".toList
      | none => false) ||
    namespaceName? t == some "default".toList

theorem inPlain_of_entry {t body entry : Text} (list : listBody? t = some body)
    (listed : entry ∈ Text.splitOn ',' body) (default : lastWord entry = "default".toList) : inPlain t = true := by
  have found : ((Text.splitOn ',' body).any fun entry => lastWord entry == "default".toList) = true :=
    any_eq_true.mpr ⟨entry, listed, by simp [default]⟩
  unfold inPlain
  rw [list]
  dsimp only
  rw [found, Bool.or_true, Bool.true_or]

theorem listBody?_eq {t tail inside : Text} {c mark : Char} (space : isBlank c = true) (marks : mark = '*' ∨ mark = '{')
    (text : t = "export".toList ++ c :: tail) (opening : skipSpaced "type" (dropBlanks tail) = mark :: inside) :
    listBody? t = if mark = '{' then some (inside.takeWhile (· != '}')) else none := by
  have word : dropLead? "export" t = some (c :: tail) := dropLead?_eq_some.mpr text
  have blanks : dropBlanks (c :: tail) = dropBlanks tail := dropWhile_cons_of_pos space
  have type : dropBlanks ((dropLead? "type" (dropBlanks tail)).getD (dropBlanks tail)) = mark :: inside := by
    cases found : spaced? "type" (dropBlanks tail) with
    | none =>
      rw [skipSpaced, found, getD_none] at opening
      rw [opening]
      rcases marks with rfl | rfl <;> rfl
    | some rest =>
      rw [skipSpaced, found, getD_some] at opening
      obtain ⟨d, more, again, same, rfl⟩ := spaced?_eq_some.mp found
      rw [dropLead?_eq_some.mpr same, getD_some, ← opening]
      exact dropWhile_cons_of_pos again
  unfold listBody?
  simp only [word, bind_eq_bind, bind_some, blanks, type]
  rcases marks with rfl | rfl <;> rfl

end DefaultExport

def exportsDefault (text : Text) : Bool := DefaultExport.inPlain (Import.plainText text)

namespace ExportList

variable {entries : List Specifier}

theorem read?_entries {raw : Text} (found : read? raw = some entries) :
    ∃ body, DefaultExport.listBody? (Import.plainText raw) = some body ∧
      ∀ s ∈ entries, ∃ piece ∈ Text.splitOn ',' body, ∃ s', Import.specifier? (trim piece) = some s' ∧
        s.name = s'.name ∧ s.asName = s'.asName := by
  unfold read? at found
  simp only [bind_eq_bind, bind_eq_some_iff] at found
  obtain ⟨rest, word, inside, brace, _, _, _, _, same⟩ := found
  obtain ⟨c, tail, space, text, rfl⟩ := spaced?_eq_some.mp word
  refine ⟨_, DefaultExport.listBody?_eq space (.inr rfl) text (dropLead?_eq_some.mp brace), ?_⟩
  cases same
  intro s member
  obtain ⟨s', listed, rfl⟩ := mem_map.mp member
  obtain ⟨piece, inList, read⟩ := mem_filterMap.mp listed
  exact ⟨piece, inList, s', read, rfl, rfl⟩

theorem read?_isName {raw : Text} (found : read? raw = some entries) : ∀ s ∈ entries, IsName s.name ∧ IsName s.asName := by
  obtain ⟨_, _, all⟩ := read?_entries found
  intro s member
  obtain ⟨_, _, s', read, name, asName⟩ := all s member
  rw [name, asName]
  exact Import.specifier?_isName read

theorem read?_default {raw : Text} (found : read? raw = some entries)
    {s : Specifier} (member : s ∈ entries) (default : s.asName = "default".toList) : exportsDefault raw = true := by
  obtain ⟨body, list, all⟩ := read?_entries found
  obtain ⟨piece, listed, s', read, _, asName⟩ := all s member
  have name := (Import.specifier?_isName read).2
  refine DefaultExport.inPlain_of_entry list listed ?_
  rw [(Import.specifier?_endsIn read).of_trim.lastWord_eq name.nonempty name.visible, ← asName, default]

end ExportList

namespace Phrase

variable {α : Type} {read : Text → Option α} {t more : Text}

theorem findAtWordStart_of_read (found : (read t).isSome) : (findAtWordStart read false t).isSome := by
  obtain ⟨a, found⟩ := isSome_iff_exists.mp found
  cases t <;> simp [findAtWordStart, found]

theorem findAtWordStart_behind {afterWord : Bool} {lead : Text} {c : Char} (found : (findAtWordStart read (isWord c) t).isSome) :
    (findAtWordStart read afterWord (lead ++ c :: t)).isSome := by
  induction lead generalizing afterWord with
  | nil =>
    rw [nil_append, findAtWordStart]
    split
    · rfl
    · exact found
  | cons d lead ih =>
    rw [cons_append, findAtWordStart]
    split
    · rfl
    · exact ih

theorem findAtWordStart_append (longer : ∀ t, (read t).isSome → (read (t ++ more)).isSome) {afterWord : Bool}
    (found : (findAtWordStart read afterWord t).isSome) : (findAtWordStart read afterWord (t ++ more)).isSome := by
  induction t generalizing afterWord with
  | nil =>
    cases afterWord with
    | true => cases found
    | false => exact findAtWordStart_of_read (longer [] found)
  | cons c rest ih =>
    rw [findAtWordStart] at found
    rw [cons_append, findAtWordStart]
    split
    · rfl
    · rename_i none
      split at found
      · rename_i a here
        cases afterWord with
        | true => cases here
        | false =>
          have again := longer (c :: rest) (isSome_of_eq_some here)
          rw [cons_append] at again
          rw [if_neg Bool.false_ne_true] at none
          rw [none] at again
          cases again
      · exact ih found

theorem wordEnds_append (ends : wordEnds t = true) (ended : wordEnds more = true) : wordEnds (t ++ more) = true := by
  cases t with
  | nil => exact ended
  | cons c rest => exact ends

theorem wordEnds_blanks {blanks : Text} (blank : ∀ c ∈ blanks, isBlank c = true) : wordEnds blanks = true := by
  cases blanks with
  | nil => rfl
  | cons c rest => simp [wordEnds, isWord_of_isBlank (blank c mem_cons_self)]

theorem asDefault?_append (ended : wordEnds more = true) (found : (asDefault? t).isSome) : (asDefault? (t ++ more)).isSome := by
  obtain ⟨rest, found⟩ := isSome_iff_exists.mp found
  obtain ⟨behind, word, default⟩ := bind_eq_some_iff.mp found
  obtain ⟨same, ends⟩ := keyword?_eq_some.mp default
  have longer : keyword? "default" (behind ++ more) = some (rest ++ more) :=
    keyword?_eq_some.mpr ⟨by rw [same, append_assoc], wordEnds_append ends ended⟩
  unfold asDefault?
  rw [spaced?_append word (by simp [same]) more]
  exact isSome_of_eq_some longer

end Phrase

namespace DefaultExport

theorem isStatement_list {line : Text} (default : isStatement line = true)
    (list : Declaration.isExportList line = true) : ∃ lead inside after,
      line = lead ++ '{' :: (inside ++ after) ∧ (findWord? asDefault? inside).isSome ∧ wordEnds after = true := by
  unfold isStatement at default
  rw [Bool.or_eq_true] at default
  rcases default with own | listed
  · unfold Declaration.isExportList at list
    split at list
    · rename_i rest word
      obtain ⟨tail, keyword⟩ := isSome_iff_exists.mp own
      simp only [exportDefault?, word, bind_eq_bind, bind_some] at keyword
      obtain ⟨same, _⟩ := keyword?_eq_some.mp keyword
      rw [same, skipSpaced, spaced?_eq_none (by decide)] at list
      cases list
    · cases list
  · split at listed
    · rename_i body found
      obtain ⟨rest, word, brace⟩ := bind_eq_some_iff.mp found
      have same := dropLead?_eq_some.mp word
      have opened : dropBlanks rest = '{' :: body := dropLead?_eq_some.mp brace
      have split : rest = rest.takeWhile isBlank ++ dropBlanks rest := takeWhile_append_dropWhile.symm
      refine ⟨"export".toList ++ rest.takeWhile isBlank, body.takeWhile (· != '}'),
        body.dropWhile (· != '}'), ?_, listed, ?_⟩
      · rw [takeWhile_append_dropWhile, append_assoc, ← opened, ← split]
        exact same
      · cases after : body.dropWhile (· != '}') with
        | nil => rfl
        | cons c rest =>
          have closes := head?_dropWhile_not (· != '}') body
          rw [after] at closes
          have brace : c = '}' := by simpa using closes
          rw [brace]
          rfl
    · cases listed

end DefaultExport

namespace Block

theorem listed_default {b : Block} (default : b.isDefaultStatement = true)
    (list : Declaration.isExportList b.firstLine = true) : (findWord? asDefault? b.text).isSome := by
  obtain ⟨lead, inside, after, line, found, ended⟩ := DefaultExport.isStatement_list default list
  obtain ⟨left, right, first, _, blank⟩ := trim_append (cut '\n' b.text).1
  obtain ⟨tail, whole, ends⟩ := cut_tail '\n' b.text
  have ended : wordEnds (after ++ (right ++ tail)) = true := by
    refine wordEnds_append ended (wordEnds_append (wordEnds_blanks blank) ?_)
    rcases ends with rfl | ⟨rest, rfl⟩ <;> rfl
  have text : b.text = (left ++ lead) ++ '{' :: (inside ++ (after ++ (right ++ tail))) := by
    conv_lhs => rw [whole, first, ← firstLine, line]
    simp
  rw [text]
  exact findAtWordStart_behind (findAtWordStart_append (fun t => asDefault?_append ended) found)

theorem place_aliases {b : Block} {entries : List Specifier} {line : Nat}
    (placed : b.place = .aliases entries line) : ExportList.read? b.text = some entries := by
  unfold place at placed
  split at placed
  · unfold placeImport at placed
    split at placed
    · split at placed <;> cases placed
    · split at placed <;> cases placed
  · split at placed
    · rename_i listed found
      cases placed
      exact (ite_none_right_eq_some.mp found).2
    · cases placed

theorem place_of_default {b : Block} (kind : b.kind ≠ .import_) (default : b.isDefaultStatement = true) : b.place = .body b := by
  have none : b.exportAliases? = none := by
    unfold exportAliases?
    rw [if_neg]
    rintro ⟨_, list, absent⟩
    have found := listed_default default list
    rw [isNone_iff_eq_none.mp absent] at found
    cases found
  rw [place, if_neg kind, none]

end Block

namespace Phrase

theorem findLine?_read {α : Type} {read : Text → Option α} {t : Text} {a : α}
    (found : findLine? read t = some a) : ∃ s, read s = some a := by
  have anywhere : ∀ (t : Text) (atStart : Bool), findAtLineStart read atStart t = some a → ∃ s, read s = some a := by
    intro t
    induction t with
    | nil =>
      intro atStart found
      rw [findAtLineStart] at found
      split at found
      · exact ⟨[], found⟩
      · cases found
    | cons c rest ih =>
      intro atStart found
      rw [findAtLineStart] at found
      split at found
      · rename_i here
        cases found
        split at here
        · exact ⟨_, here⟩
        · cases here
      · exact ih _ found
  exact anywhere t true found

end Phrase

namespace DefaultExport

variable {name t : Text}

theorem declared?_isName (found : declared? t = some name) : IsName name := by
  unfold declared? at found
  obtain ⟨rest, _, found⟩ := bind_eq_some_iff.mp found
  rcases or_eq_some_iff.mp (orElse_eq_or.symm.trans found) with
    function | ⟨_, class_⟩
  · obtain ⟨_, _, read⟩ := bind_eq_some_iff.mp function
    exact identName?_isName read
  · obtain ⟨_, _, read⟩ := bind_eq_some_iff.mp class_
    exact identName?_isName read

theorem named?_isName (found : named? t = some name) : IsName name := by
  unfold named? at found
  obtain ⟨rest, _, found⟩ := bind_eq_some_iff.mp found
  obtain ⟨⟨read, tail⟩, ident, found⟩ := bind_eq_some_iff.mp found
  obtain ⟨_, same⟩ := ite_none_right_eq_some.mp found
  cases same
  exact ident?_isName ident

theorem specifierIn_isName {afterIdent : Bool} (found : specifierIn afterIdent t = some name) : IsName name := by
  induction t generalizing afterIdent with
  | nil => cases found
  | cons c rest ih =>
    rw [specifierIn] at found
    dsimp only at found
    split at found
    · rename_i here
      cases found
      split at here
      · cases here
      · obtain ⟨⟨read, tail⟩, ident, here⟩ := bind_eq_some_iff.mp here
        simp only [bind_eq_bind, bind_eq_some_iff] at here
        obtain ⟨_, _, _, _, same⟩ := here
        cases same
        exact ident?_isName ident
    · split at found
      · cases found
      · exact ih found

theorem specifier?_isName (found : specifier? t = some name) : IsName name := by
  unfold specifier? at found
  simp only [bind_eq_bind, bind_eq_some_iff] at found
  obtain ⟨_, _, _, _, read⟩ := found
  exact specifierIn_isName read

theorem wrapped?_isName {p : Patterns} {line : Text} (found : wrapped? p line = some name) : IsName name := by
  unfold wrapped? at found
  obtain ⟨rest, _, found⟩ := bind_eq_some_iff.mp found
  rcases or_eq_some_iff.mp (orElse_eq_or.symm.trans found) with
    ident | ⟨_, function⟩
  · obtain ⟨s, read⟩ := Patterns.findWrapper?_read ident
    obtain ⟨⟨name, tail⟩, ident, read⟩ := bind_eq_some_iff.mp read
    dsimp only at read
    split at read
    · cases read
      exact ident?_isName ident
    · cases read
  · obtain ⟨s, read⟩ := Patterns.findWrapper?_read (join_eq_some_iff.mp function)
    obtain ⟨tail, _, read⟩ := bind_eq_some_iff.mp read
    exact identName?_isName (Option.some.inj read)

theorem name?_isName {p : Patterns} (found : name? p t = some name) : IsName name := by
  unfold name? at found
  rcases or_eq_some_iff.mp (orElse_eq_or.symm.trans found) with plain | ⟨_, wrapped⟩
  · obtain ⟨form, listed, accepted⟩ := exists_of_findSome?_eq_some plain
    obtain ⟨rfl, _⟩ := filter_eq_some_iff.mp accepted
    simp only [mem_cons, not_mem_nil, or_false] at listed
    rcases listed with form | form | form
    · obtain ⟨s, read⟩ := findLine?_read form.symm
      exact declared?_isName read
    · obtain ⟨s, read⟩ := findLine?_read form.symm
      exact named?_isName read
    · obtain ⟨s, read⟩ := findLine?_read form.symm
      exact specifier?_isName read
  · obtain ⟨line, _, read⟩ := exists_of_findSome?_eq_some wrapped
    exact wrapped?_isName read

end DefaultExport

end ModuleSplit
