import ModuleSplit.Proofs.Declaration.LookAhead
import ModuleSplit.Proofs.Declaration.Opening

namespace ModuleSplit.Declaration

open List Text Phrase

structure Edge (q : Char → Bool) : Prop where
  ident : ∀ c, isIdentChar c = true → q c = false
  dot : q '.' = false
  colon : q ':' = false
  equals : q '=' = false
  comma : q ',' = false

theorem isBlank_edge : Edge isBlank where
  ident c ident := by
    cases blank : isBlank c with
    | false => rfl
    | true =>
      rw [isIdentChar_of_isBlank blank] at ident
      cases ident
  dot := rfl
  colon := rfl
  equals := rfl
  comma := rfl

theorem isPatternEdge_edge : Edge isPatternEdge where
  ident c ident := by
    cases edge : isPatternEdge c with
    | false => rfl
    | true =>
      have other : "\x7b\x7d[] ".toList.all (!isIdentChar ·) = true := rfl
      have outside := all_eq_true.mp other c (contains_iff_mem.mp edge)
      rw [ident] at outside
      cases outside
  dot := rfl
  colon := rfl
  equals := rfl
  comma := rfl

inductive Lead : Text → Prop where
  | dots {before dots gap : Text} (blank : isBlankText before)
      (given : dots = [] ∨ dots = "...".toList) (apart : isBlankText gap) :
      Lead (before ++ (dots ++ gap))
  | key {key gap : Text} (flat : ',' ∉ key ∧ ':' ∉ key) (apart : isBlankText gap) :
      Lead (key ++ ':' :: gap)

inductive Default : Text → Prop where
  | none {gap : Text} (blank : isBlankText gap) : Default gap
  | given {gap value : Text} (blank : isBlankText gap) (flat : ',' ∉ value ∧ ':' ∉ value) :
      Default (gap ++ '=' :: value)

inductive Entry : Text → Option Text → Prop where
  | hole {t : Text} (blank : isBlankText t) : Entry t none
  | name {lead name default : Text} (before : Lead lead) (ident : isIdent name = true)
      (behind : Default default) : Entry (lead ++ (name ++ default)) (some name)

inductive Row : Text → List Text → Prop where
  | last {t : Text} {bound : Option Text} (entry : Entry t bound) : Row t bound.toList
  | more {t rest : Text} {bound : Option Text} {names : List Text} (entry : Entry t bound)
      (row : Row rest names) : Row (t ++ ',' :: rest) (bound.toList ++ names)

theorem isIdent_cons {name : Text} (ident : isIdent name = true) : ∃ c rest, name = c :: rest ∧ isIdentStart c = true := by
  cases name with
  | nil => cases ident
  | cons c rest =>
    refine ⟨c, rest, rfl, ?_⟩
    unfold isIdent ident? at ident
    split at ident
    · rename_i found
      exact (Option.ite_none_right_eq_some.mp found).1
    · cases ident

theorem not_mem_ident {name : Text} (ident : isIdent name = true) {c : Char} (other : isIdentChar c = false) : c ∉ name := by
  intro member
  rw [(isIdent_isName ident).chars c member] at other
  cases other

section Trimming

variable {q : Char → Bool} {t : Text} {bound : Option Text} {names : List Text}

-- Trimming takes nothing off a name, so what is left of an entry binds the same.
theorem trimRightBy_name (edge : Edge q) {name : Text} (ident : isIdent name = true) (a b : Text) :
    trimRightBy q (a ++ (name ++ b)) = a ++ (name ++ trimRightBy q b) := by
  have isName := isIdent_isName ident
  obtain ⟨front, c, rfl⟩ := (eq_nil_or_concat name).resolve_left isName.nonempty
  have trimmed := trimRightBy_stop (edge.ident c (isName.chars c (by simp))) (a ++ front) b
  simpa using trimmed

theorem Lead.trimLeft (edge : Edge q) (lead : Lead t) : Lead (trimLeftBy q t) := by
  cases lead with
  | dots blank given apart =>
    rename_i before dots gap
    rcases given with rfl | rfl
    · have whole : isBlankText (before ++ gap) := by rw [isBlankText_append, blank, apart]; rfl
      rw [nil_append, ← append_nil (trimLeftBy q _)]
      exact @Lead.dots _ [] [] (isBlankText_of_subset whole (trimLeftBy_subset q _)) (.inl rfl) rfl
    · rw [show "...".toList ++ gap = '.' :: '.' :: '.' :: gap from rfl, trimLeftBy_stop edge.dot]
      exact .dots (isBlankText_of_subset blank (trimLeftBy_subset q _)) (.inr rfl) apart
  | key flat apart =>
    rw [trimLeftBy_stop edge.colon]
    exact .key ⟨fun comma => flat.1 (trimLeftBy_subset q _ comma), fun colon => flat.2 (trimLeftBy_subset q _ colon)⟩ apart

theorem Default.trimRight (edge : Edge q) (default : Default t) : Default (trimRightBy q t) := by
  cases default with
  | none blank => exact .none (isBlankText_of_subset blank (trimRightBy_subset q _))
  | given blank flat =>
    rw [trimRightBy_stop edge.equals]
    exact .given blank ⟨fun comma => flat.1 (trimRightBy_subset q _ comma), fun colon => flat.2 (trimRightBy_subset q _ colon)⟩

theorem Entry.trimLeft (edge : Edge q) (entry : Entry t bound) : Entry (trimLeftBy q t) bound := by
  cases entry with
  | hole blank => exact .hole (isBlankText_of_subset blank (trimLeftBy_subset q _))
  | name before ident behind =>
    obtain ⟨c, rest, rfl, start⟩ := isIdent_cons ident
    rw [cons_append, trimLeftBy_stop (edge.ident c (isIdentChar_of_start start))]
    exact .name (before.trimLeft edge) ident behind

theorem Entry.trimRight (edge : Edge q) (entry : Entry t bound) : Entry (trimRightBy q t) bound := by
  cases entry with
  | hole blank => exact .hole (isBlankText_of_subset blank (trimRightBy_subset q _))
  | name before ident behind =>
    rw [trimRightBy_name edge ident]
    exact .name before ident (behind.trimRight edge)

theorem Row.trimLeft (edge : Edge q) (row : Row t names) : Row (trimLeftBy q t) names := by
  cases row with
  | last entry => exact .last (entry.trimLeft edge)
  | more entry row =>
    rw [trimLeftBy_stop edge.comma]
    exact .more (entry.trimLeft edge) row

theorem Row.trimRight (edge : Edge q) (row : Row t names) : Row (trimRightBy q t) names := by
  induction row with
  | last entry => exact .last (entry.trimRight edge)
  | more entry _ ih =>
    rw [trimRightBy_stop edge.comma]
    exact .more entry ih

theorem Entry.pad (entry : Entry t bound) {before after : Text} (left : isBlankText before)
    (right : isBlankText after) : Entry (before ++ (t ++ after)) bound := by
  have outside {u : Text} (blank : isBlankText u) : ',' ∉ u ∧ ':' ∉ u := ⟨not_mem_blank blank rfl, not_mem_blank blank rfl⟩
  cases entry with
  | hole blank =>
    exact .hole (by rw [isBlankText_append, isBlankText_append, left, blank, right]; rfl)
  | name lead ident default =>
    rename_i l n d
    have leads : Lead (before ++ l) := by
      cases lead with
      | dots blank given apart =>
        rw [← append_assoc]
        exact .dots (by rw [isBlankText_append, left, blank]; rfl) given apart
      | key flat apart =>
        rw [← append_assoc]
        exact .key (by simp [outside left, flat]) apart
    have defaults : Default (d ++ after) := by
      cases default with
      | none blank => exact .none (by rw [isBlankText_append, blank, right]; rfl)
      | given blank flat =>
        rw [append_assoc, cons_append]
        exact .given blank (by simp [outside right, flat])
    have padded := Entry.name leads ident defaults
    simpa using padded

end Trimming

section Reading

variable {t gap name default : Text} {bound : Option Text} {names : List Text}

theorem Lead.comma (lead : Lead t) : ',' ∉ t := by
  cases lead with
  | dots blank given apart =>
    have left := not_mem_blank (c := ',') blank rfl
    have right := not_mem_blank (c := ',') apart rfl
    rcases given with rfl | rfl <;> simp [left, right]
  | key flat apart => simp [flat.1, not_mem_blank (c := ',') apart rfl]

theorem Default.flat (default : Default t) : ',' ∉ t ∧ ':' ∉ t := by
  cases default with
  | none blank => exact ⟨not_mem_blank blank rfl, not_mem_blank blank rfl⟩
  | given blank flat =>
    have comma := not_mem_blank (c := ',') blank rfl
    have colon := not_mem_blank (c := ':') blank rfl
    simp [comma, colon, flat]

theorem Entry.comma (entry : Entry t bound) : ',' ∉ t := by
  cases entry with
  | hole blank => exact not_mem_blank blank rfl
  | name lead ident default =>
    simp [lead.comma, not_mem_ident ident (c := ',') rfl, default.flat.1]

theorem trim_cut_default (blank : isBlankText gap) (ident : isIdent name = true)
    (behind : Default default) : trim (cut '=' (gap ++ (name ++ default))).1 = name := by
  have trimmed {tail : Text} (ends : isBlankText tail) : trim (gap ++ name ++ tail) = name := by
    obtain ⟨c, rest, same, start⟩ := isIdent_cons ident
    have left : dropBlanks (gap ++ (name ++ tail)) = name ++ tail := by
      rw [same]
      exact dropBlanks_mark blank (isBlank_edge.ident c (isIdentChar_of_start start)) _
    have right := trimRightBy_name isBlank_edge ident [] tail
    rw [show trimRightBy isBlank tail = [] from trimRight_blank ends, append_nil] at right
    rw [trim, trimBy, ← dropBlanks, append_assoc, left]
    exact right
  have before : '=' ∉ gap ++ name := by
    simp [not_mem_blank (c := '=') blank rfl, not_mem_ident (c := '=') ident rfl]
  rw [← append_assoc, cut_append before]
  cases behind with
  | none ends =>
    rw [cut_none (not_mem_blank ends rfl)]
    exact trimmed ends
  | given ends _ =>
    rw [cut_some (not_mem_blank ends rfl)]
    exact trimmed ends

theorem Lead.strip (lead : Lead t) : ∃ gap, isBlankText gap ∧ (trimLeftBy (· == '.') (dropBlanks t) = gap ∨
      ∃ key, ':' ∉ key ∧ trimLeftBy (· == '.') (dropBlanks t) = key ++ ':' :: gap) := by
  cases lead with
  | dots blank given apart =>
    rename_i before dots gap
    rcases given with rfl | rfl
    · have whole : isBlankText (before ++ ([] ++ gap)) := by
        rw [nil_append, isBlankText_append, blank, apart]
        rfl
      exact ⟨[], rfl, .inl (by rw [dropBlanks_blank whole]; rfl)⟩
    · refine ⟨gap, apart, .inl ?_⟩
      have dotted := dropBlanks_mark blank (c := '.') rfl ("..".toList ++ gap)
      rw [show "...".toList ++ gap = '.' :: ("..".toList ++ gap) from rfl, dotted]
      cases gap with
      | nil => rfl
      | cons c gap =>
        have other : c ≠ '.' := by
          rintro rfl
          exact not_mem_blank apart (c := '.') rfl mem_cons_self
        simp [trimLeftBy, other]
  | key flat apart =>
    rename_i key gap
    refine ⟨gap, apart, .inr ⟨trimLeftBy (· == '.') (dropBlanks key), ?_, ?_⟩⟩
    · exact fun colon => flat.2 (trimLeftBy_subset _ _ (trimLeftBy_subset _ _ colon))
    · rw [dropBlanks, trimLeftBy_stop isBlank_edge.colon, trimLeftBy_stop rfl, ← dropBlanks]

theorem Entry.read (entry : Entry t bound) : boundName? t = bound := by
  cases entry with
  | hole blank =>
    have empty : trim t = [] := by
      rw [trim, trimBy, ← dropBlanks, dropBlanks_blank blank]
      rfl
    rw [boundName?, empty]
    rfl
  | name lead ident behind =>
    rename_i l n d
    obtain ⟨c, rest, name, start⟩ := isIdent_cons ident
    have visible := isBlank_edge.ident c (isIdentChar_of_start start)
    have other : (c == '.') = false := by
      rw [beq_eq_false_iff_ne]
      rintro rfl
      cases start
    have default := behind.trimRight isBlank_edge
    have dotless : (trim (l ++ (n ++ d))).dropWhile (· == '.') =
        trimLeftBy (· == '.') (dropBlanks l) ++ (n ++ trimRightBy isBlank d) := by
      rw [trim, trimBy, ← trimLeftBy, name, cons_append, trimLeftBy_stop visible,
        ← cons_append, ← name, trimRightBy_name isBlank_edge ident, name, cons_append,
        trimLeftBy_stop (q := (· == '.')) other]
      rfl
    obtain ⟨gap, blank, plain | ⟨key, colon, keyed⟩⟩ := lead.strip
    · have inside : ':' ∉ gap ++ (n ++ trimRightBy isBlank d) := by
        simp [not_mem_blank (c := ':') blank rfl, not_mem_ident (c := ':') ident rfl, default.flat.2]
      rw [plain] at dotless
      simp only [boundName?, dotless, cut_none inside, Option.getD_none, trim_cut_default blank ident default, ident, if_true]
    · rw [keyed, append_assoc, cons_append] at dotless
      simp only [boundName?, dotless, cut_some colon, Option.getD_some, trim_cut_default blank ident default, ident, if_true]

theorem Row.read (row : Row t names) : (Text.splitOn ',' t).filterMap boundName? = names := by
  have single {t : Text} {bound : Option Text} (entry : Entry t bound) :
      (Text.splitOn ',' t).filterMap boundName? = bound.toList := by
    rw [Text.splitOn_eq_singleton entry.comma, filterMap_cons, entry.read]
    cases bound <;> rfl
  induction row with
  | last entry => exact single entry
  | more entry _ ih =>
    rw [splitOn_eq, splitOn_append_cons_self, ← splitOn_eq, ← splitOn_eq, filterMap_append, single entry, ih]

end Reading

inductive Delimiters : Char → Char → Prop where
  | object : Delimiters '{' '}'
  | array : Delimiters '[' ']'

section Delimited

variable {opener closer : Char} (pair : Delimiters opener closer)

include pair

theorem Delimiters.edges : isPatternEdge opener = true ∧ isPatternEdge closer = true ∧
    isBlank opener = false ∧ isBlank closer = false ∧ closer ≠ ',' := by
  cases pair <;> decide

theorem Row.destructured {t : Text} {names : List Text} (row : Row t names) : destructuredNames (opener :: t) = names ∧
      destructuredNames (opener :: t ++ [closer]) = names := by
  obtain ⟨opens, closes, _⟩ := pair.edges
  have read : destructuredNames (opener :: t) = names := by
    rw [destructuredNames, trimBy_cons opens, trimBy]
    exact ((row.trimLeft isPatternEdge_edge).trimRight isPatternEdge_edge).read
  refine ⟨read, ?_⟩
  rw [destructuredNames, trimBy_concat closes]
  exact read

end Delimited

end ModuleSplit.Declaration
