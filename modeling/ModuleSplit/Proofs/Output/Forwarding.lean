import ModuleSplit.Proofs.Classification.DefaultExport
import ModuleSplit.Proofs.Delimiter.LineBreaks
import ModuleSplit.Proofs.Import.Front
import ModuleSplit.Proofs.Output.Exports

namespace ModuleSplit

open List Text Phrase Declaration

variable {lead m : Text}

def Quotable (t : Text) : Prop := ∀ c ∈ t, ¬IsQuote c ∧ c ≠ '\\'

def forwardLeads : List Text := ["export * from ".toList, "export \x7b default \x7d from ".toList]

theorem forwardAll_eq (s : Style) (m : Text) : Plan.forwardAll s m = "export * from ".toList ++ s.moduleText m := rfl

theorem forwardDefault_eq (s : Style) (m : Text) :
    Plan.forwardDefault s m = "export \x7b default \x7d from ".toList ++ s.moduleText m := rfl

namespace Cursor

theorem render_string {quote : Char} {s : Cursor} (inside : ∀ c next, s.move c next = s.moveQuoted quote c) {t : Text}
    (plain : ∀ c ∈ t, c ≠ quote ∧ c ≠ '\\') (tally : Tally) (rest : Text) :
    s.render tally (t ++ rest) = (s.render tally rest).behind (List.replicate t.length ' ') := by
  induction t with
  | nil => rfl
  | cons c t ih =>
    rw [List.forall_mem_cons] at plain
    have step : ∀ next, s.move c next = .one ' ' false s := by
      intro next
      rw [inside, moveQuoted, if_neg plain.1.2, if_neg plain.1.1]
      rfl
    rw [List.cons_append, render_one step, if_neg Bool.false_ne_true, ih plain.2]
    rfl

theorem render_quoted {quote : Char} (isQuote : IsQuote quote) {t : Text} (plain : Quotable t)
    (tally : Tally) (rest : Text) : Cursor.render {} tally (Import.quoted quote t ++ rest) =
      (Cursor.render {} tally rest).behind (Import.quoted quote (List.replicate t.length ' ')) := by
  have apart : ∀ c ∈ t, c ≠ quote ∧ c ≠ '\\' := by
    intro c member
    refine ⟨?_, (plain c member).2⟩
    rintro rfl
    exact (plain c member).1 isQuote
  have cut : ∀ u v : Text, Import.quoted quote u ++ v = quote :: (u ++ quote :: v) := by
    simp [Import.quoted]
  -- Opening and closing it are the same move in both kinds of string.
  have step : ∀ s : Cursor, (∀ next, Cursor.move {} quote next = .one quote false s) →
      (∀ c next, s.move c next = s.moveQuoted quote c) →
      (∀ next, s.move quote next = .one quote false {}) →
      Cursor.render {} tally (Import.quoted quote t ++ rest) = (Cursor.render {} tally rest).behind
          (Import.quoted quote (List.replicate t.length ' ')) := by
    intro s opens inside closes
    rw [cut, render_one opens, if_neg Bool.false_ne_true, render_string inside apart,
      render_one closes, if_neg Bool.false_ne_true, Rendering.behind, Rendering.behind, cut]
    rfl
  rcases isQuote with rfl | rfl
  · exact step ⟨.singleQuote, []⟩ (fun _ => rfl) (fun _ _ => rfl) (fun _ => rfl)
  · exact step ⟨.doubleQuote, []⟩ (fun _ => rfl) (fun _ _ => rfl) (fun _ => rfl)

end Cursor

namespace Tally

theorem count_braces (t : Tally) (c : Char) : (t.count c).braces = t.braces + (Tally.count {} c).braces := by
  unfold count
  split
  · simp [lowered]
  · split
    · simp [lowered, Int.sub_eq_add_neg]
    · split
      · simp [lowered]
      · split
        · simp [lowered]
        · split <;> simp

theorem foldl_braces (text : Text) (t : Tally) : (text.foldl count t).braces = t.braces + (ofText text).braces := by
  induction text generalizing t with
  | nil => simp [ofText]
  | cons c text ih =>
    rw [ofText, List.foldl_cons, List.foldl_cons, ih, ih (Tally.count {} c), count_braces, Int.add_assoc]

@[simp] theorem ofText_append (a b : Text) : (ofText (a ++ b)).braces = (ofText a).braces + (ofText b).braces := by
  rw [ofText, List.foldl_append, foldl_braces]
  rfl

theorem braces_of_plain {t : Text} (opened : '{' ∉ t) (closed : '}' ∉ t) : (ofText t).braces = 0 := by
  induction t with
  | nil => rfl
  | cons c t ih =>
    rw [List.mem_cons, not_or] at opened closed
    have first : (ofText [c]).braces = 0 := by
      simp only [ofText, List.foldl_cons, List.foldl_nil, count, if_neg (Ne.symm opened.1), if_neg (Ne.symm closed.1)]
      split
      · rfl
      · split
        · rfl
        · split <;> rfl
    rw [← List.singleton_append, ofText_append, first, ih opened.2 closed.2]
    rfl

end Tally

theorem Style.ending_cases (s : Style) : s.ending = [] ∨ s.ending = [';'] := by
  unfold Style.ending
  split
  · exact .inr rfl
  · exact .inl rfl

theorem Style.moduleText_last {s : Style} (quote : IsQuote s.quote) (lead m : Text) :
    ∃ front last, lead ++ s.moduleText m = front ++ [last] ∧ (last = ';' ∨ IsQuote last) := by
  rcases s.ending_cases with none | semicolon
  · refine ⟨lead ++ s.quote :: m, s.quote, ?_, .inr quote⟩
    simp [Style.moduleText, Import.quoted, none]
  · refine ⟨lead ++ Import.quoted s.quote m, ';', ?_, .inl rfl⟩
    simp [Style.moduleText, semicolon]

theorem forwardLeads_plain : ∀ lead ∈ forwardLeads, lead.all isPlainCode = true := by decide

theorem forwardLeads_level : ∀ lead ∈ forwardLeads, (Tally.ofText lead).braces = 0 := by decide

-- A line that forwards a module of the same directory. Where delimiters in literals count, those
-- in the name of the module balance.
structure Forwards (mode : DelimiterMode) (lead : Text) (s : Style) (m : Text) : Prop where
  listed : lead ∈ forwardLeads
  quote : IsQuote s.quote
  plain : Quotable m
  named : LocalModule m
  level : mode = .raw → (Tally.ofText m).braces = 0

structure ForwardSummary (line : LineSummary) : Prop where
  code : ∃ lead ∈ forwardLeads, ∃ (s : Style) (hidden : Text), IsQuote s.quote ∧ hidden ≠ [] ∧
    (∀ c ∈ hidden, ¬IsQuote c) ∧ line.code = lead ++ s.moduleText hidden
  level : line.braceDelta = 0
  ends : line.endsInLiteral = false

theorem LocalModule.ne_nil (named : LocalModule m) : m ≠ [] := by
  cases named <;> nofun

theorem forwardLeads_braces (listed : lead ∈ forwardLeads) {s : Style} (quote : IsQuote s.quote) (m : Text) :
    (Tally.ofText (lead ++ s.moduleText m)).braces = (Tally.ofText m).braces := by
  have quotes : (Tally.ofText [s.quote]).braces = 0 := by
    rcases quote with single | double
    · rw [single]; rfl
    · rw [double]; rfl
  have ending : (Tally.ofText s.ending).braces = 0 := by
    rcases s.ending_cases with none | semicolon
    · rw [none]; rfl
    · rw [semicolon]; rfl
  have cut : s.moduleText m = [s.quote] ++ m ++ [s.quote] ++ s.ending := by
    simp [Style.moduleText, Import.quoted]
  rw [cut]
  simp only [Tally.ofText_append, quotes, ending, forwardLeads_level lead listed, Int.zero_add, Int.add_zero]

namespace Forwards

variable {mode : DelimiterMode} {lead m : Text} {s : Style}

theorem render_line (forwards : Forwards .literalAware lead s m) :
    ∃ tally, tally.braces = 0 ∧ Cursor.render {} {} (lead ++ s.moduleText m) =
      ⟨lead ++ s.moduleText (List.replicate m.length ' '), {}, tally⟩ := by
  have plain : ∀ c ∈ lead, isPlainCode c = true := List.all_eq_true.mp (forwardLeads_plain lead forwards.listed)
  have level : (lead.foldl Tally.count {}).braces = 0 := forwardLeads_level lead forwards.listed
  rw [Cursor.render_lead plain, Style.moduleText, Cursor.render_quoted forwards.quote forwards.plain]
  rcases s.ending_cases with none | semicolon
  · refine ⟨_, level, ?_⟩
    rw [none]
    simp [Cursor.render, Rendering.behind, Style.moduleText, none]
  · refine ⟨(lead.foldl Tally.count {}).count ';', level, ?_⟩
    rw [semicolon]
    simp [Cursor.render, Cursor.move, Cursor.moveCode, Rendering.behind, Style.moduleText, semicolon]

theorem feed_literal (forwards : Forwards .literalAware lead s m) :
    ForwardSummary ((Lexer.start .literalAware).feed (lead ++ s.moduleText m)).1 ∧
      ((Lexer.start .literalAware).feed (lead ++ s.moduleText m)).2 = .start .literalAware := by
  obtain ⟨tally, level, rendered⟩ := forwards.render_line
  have fed : (Lexer.start .literalAware).feed (lead ++ s.moduleText m) = (LineSummary.ofTally (lead ++ s.moduleText m)
        (lead ++ s.moduleText (List.replicate m.length ' ')) tally true false,
        .start .literalAware) := by
    unfold Lexer.start Lexer.feed Cursor.feed
    dsimp only
    rw [show Cursor.atLineStart {} = {} from rfl, rendered]
    rfl
  rw [fed]
  refine ⟨⟨⟨lead, forwards.listed, s, _, forwards.quote, ?_, ?_, rfl⟩, level, rfl⟩, rfl⟩
  · simpa using forwards.named.ne_nil
  · intro c member
    rw [(List.mem_replicate.mp member).2]
    rintro (same | same) <;> cases same

theorem feed_raw (forwards : Forwards .raw lead s m) : ForwardSummary ((Lexer.start .raw).feed (lead ++ s.moduleText m)).1 ∧
      ((Lexer.start .raw).feed (lead ++ s.moduleText m)).2 = .start .raw := by
  obtain ⟨rest, first⟩ : ∃ rest, lead ++ s.moduleText m = 'e' :: rest := by
    rcases List.mem_pair.mp forwards.listed with rfl | rfl <;> exact ⟨_, rfl⟩
  obtain ⟨shown, trimmed⟩ : ∃ shown, trim ('e' :: rest) = 'e' :: shown := trimRight_cons rfl rest
  have code : ((Lexer.start .raw).feed (lead ++ s.moduleText m)).1.code = lead ++ s.moduleText m := by
    show (if RawCursor.looksLikeComment (trim (lead ++ s.moduleText m)) then [] else _) = _
    rw [first, trimmed]
    rfl
  have braces : (Tally.ofText (lead ++ s.moduleText m)).braces = 0 :=
    (forwardLeads_braces forwards.listed forwards.quote m).trans (forwards.level rfl)
  refine ⟨⟨⟨lead, forwards.listed, s, m, forwards.quote, forwards.named.ne_nil,
    fun c member => (forwards.plain c member).1, code⟩, braces, rfl⟩, congrArg Lexer.raw ?_⟩
  show (⟨RawCursor.opensComment (trim (lead ++ s.moduleText m))⟩ : RawCursor) = {}
  rw [first, trimmed]
  rfl

theorem fed (forwards : Forwards mode lead s m) : ForwardSummary ((Lexer.start mode).feed (lead ++ s.moduleText m)).1 ∧
      ((Lexer.start mode).feed (lead ++ s.moduleText m)).2 = .start mode := by
  cases mode with
  | literalAware => exact forwards.feed_literal
  | raw => exact forwards.feed_raw

end Forwards

theorem Declaration.endsOpen_quote {t : Text} {quote : Char} (isQuote : IsQuote quote) : endsOpen (t ++ [quote]) = false := by
  have tokens : ∀ token ∈ continuationEnds, token.toList ≠ [] ∧
      token.toList.getLast? ≠ some '\'' ∧ token.toList.getLast? ≠ some '"' := by decide
  have none : (continuationEnds.any fun token => endsWith (t ++ [quote]) token) = false := by
    rw [any_eq_false]
    intro token listed ends
    obtain ⟨some, single, double⟩ := tokens token listed
    rcases endsWith_last ends with empty | last
    · exact some empty
    · rcases isQuote with rfl | rfl
      · exact single last
      · exact double last
  unfold endsOpen
  dsimp only
  rw [trimRight_visible isQuote.visible, none, Bool.and_false]

theorem forwardLeads_describe (p : Patterns) (listed : lead ∈ forwardLeads) (rest next : Text) :
    describe p (lead ++ rest) next = {kind := .import_} ∨ describe p (lead ++ rest) next =
        {kind := .statement, exported := true, exportList := true} := by
  rcases mem_pair.mp listed with rfl | rfl
  · exact .inl rfl
  · exact .inr rfl

namespace ForwardSummary

variable {line : LineSummary} {rest : List LineSummary}

theorem trimmed (forward : ForwardSummary line) : trim line.code = line.code ∧
    ∃ front last, line.code = front ++ [last] ∧ (last = ';' ∨ IsQuote last) := by
  obtain ⟨lead, listed, s, hidden, quote, -, -, code⟩ := forward.code
  obtain ⟨front, c, ends, shown⟩ := Style.moduleText_last quote lead hidden
  rw [← code] at ends
  have first : ∃ rest, line.code = 'e' :: rest := by
    rw [code]
    rcases mem_pair.mp listed with rfl | rfl <;> exact ⟨_, rfl⟩
  have visible : isBlank c = false := by
    rcases shown with rfl | quoted
    · rfl
    · exact quoted.visible
  exact ⟨trim_visible first rfl ends visible, front, c, ends, shown⟩

theorem not_blank (forward : ForwardSummary line) : line.isBlankCode = false := by
  obtain ⟨lead, listed, s, hidden, -, -, -, code⟩ := forward.code
  rw [LineSummary.isBlankCode, code]
  rcases mem_pair.mp listed with rfl | rfl <;> rfl

theorem complete (forward : ForwardSummary line)
    (others : ∀ l ∈ rest, ForwardSummary l) : statementComplete line rest = true := by
  obtain ⟨-, front, last, ends, shown⟩ := forward.trimmed
  have next : startsOpen (nextCode rest) = false := by
    cases rest with
    | nil => rfl
    | cons l rest =>
      have following := others l mem_cons_self
      obtain ⟨lead, listed, s, hidden, -, -, -, code⟩ := following.code
      have found : (l :: rest).find? (!·.isBlankCode) = some l := by
        rw [find?_cons_of_pos]
        simp [following.not_blank]
      rw [nextCode, found]
      dsimp only
      rw [following.trimmed.1, code]
      rcases mem_pair.mp listed with rfl | rfl <;> rfl
  unfold statementComplete
  dsimp only
  rw [ends]
  rcases shown with rfl | quote
  · rw [trimRight_visible rfl]
    have closed : endsWith (front ++ [';']) ";" = true := isSuffixOf_iff_suffix.mpr ⟨front, rfl⟩
    rw [closed, Bool.true_or]
  · rw [trimRight_visible quote.visible, endsOpen_quote quote, next]
    simp

theorem read (forward : ForwardSummary line) (p : Patterns) (index : Nat) (others : ∀ l ∈ rest, ForwardSummary l) :
    ∃ e, (openBlock p index line rest).read index line rest = .inr e ∧ e.start = index ∧ e.stop = index + 1 ∧
      (e.declaration = {kind := .import_} ∨ e.declaration = {kind := .statement, exported := true, exportList := true}) := by
  have described : (openBlock p index line rest).declaration = {kind := .import_} ∨
      (openBlock p index line rest).declaration = {kind := .statement, exported := true, exportList := true} := by
    obtain ⟨lead, listed, s, hidden, -, -, -, code⟩ := forward.code
    show describe p (trim line.code) (nextCode rest) = _ ∨ describe p (trim line.code) (nextCode rest) = _
    rw [forward.trimmed.1, code]
    exact forwardLeads_describe p listed _ _
  have start : (openBlock p index line rest).start = index := rfl
  have depth : (openBlock p index line rest).depth = 0 := rfl
  generalize openBlock p index line rest = b at described start depth
  have state : b.state = .inImport := by
    unfold OpenBlock.state
    rcases described with import_ | list
    · rw [import_]; rfl
    · rw [list]; rfl
  have level : ¬b.lowest line < 0 := by
    rw [OpenBlock.lowest, if_pos state, depth, forward.level]
    decide
  have settled : ({b.deepen line with lastCode := index + 1}).settled line = true := by
    have awaits : b.declaration.awaitsBody = false := by
      rcases described with import_ | list
      · rw [import_]; rfl
      · rw [list]; rfl
    simp [OpenBlock.settled, OpenBlock.deepen, state, depth, forward.level, forward.ends, awaits]
  refine ⟨({b.deepen line with lastCode := index + 1}).close (index + 1) .complete, ?_, start, rfl, described⟩
  unfold OpenBlock.read
  dsimp only
  rw [if_neg level, forward.not_blank, if_neg Bool.false_ne_true, settled, forward.complete others]
  rfl

end ForwardSummary

theorem findWord?_from {s : Style} (quote : IsQuote s.quote) (some : m ≠ []) (plain : ∀ c ∈ m, ¬IsQuote c) (front : Text) :
    (findWord? fromClauseAt? (front ++ ' ' :: s.fromModule m)).isSome := by
  have clause : s.fromModule m = "from ".toList ++ s.quote :: (m ++ s.quote :: s.ending) := by
    simp [Style.fromModule, Style.moduleText, Import.quoted]
  refine findAtWordStart_behind (findAtWordStart_of_read ?_)
  rw [clause, fromClauseAt?_front ⟨quote, some, plain⟩ (quoteFree_word "from " rfl)]
  rfl

theorem forwardLeads_cut (listed : lead ∈ forwardLeads) (s : Style) (m : Text) : ∃ c front, (c = '*' ∨ c = '{') ∧
      lead ++ s.moduleText m = "export ".toList ++ c :: (front ++ ' ' :: s.fromModule m) := by
  rcases List.mem_pair.mp listed with rfl | rfl
  · exact ⟨'*', [], .inl rfl, rfl⟩
  · exact ⟨'{', " default \x7d".toList, .inr rfl, rfl⟩

def Forwarding (mode : DelimiterMode) (line : Text) : Prop :=
  ∃ lead s m, Forwards mode lead s m ∧ line = lead ++ s.moduleText m

section Scan

variable {mode : DelimiterMode} {lines : List Text}

theorem summarize_forwarding (forwarding : ∀ l ∈ lines, Forwarding mode l) :
    ∀ line ∈ summarize mode lines, ForwardSummary line := by
  unfold summarize
  induction lines with
  | nil => exact nofun
  | cons l lines ih =>
    rw [List.forall_mem_cons] at forwarding
    obtain ⟨⟨lead, s, m, forwards, rfl⟩, others⟩ := forwarding
    obtain ⟨first, next⟩ := forwards.fed
    rw [Lexer.trace, next, List.map_cons, List.forall_mem_cons]
    exact ⟨first, ih others⟩

theorem extents_forwarding (p : Patterns) {whole : List LineSummary}
    (forwarding : ∀ line ∈ whole, ForwardSummary line) : ∀ e ∈ extents p none 0 whole,
      ∃ before line rest, whole = before ++ line :: rest ∧ e.start = before.length ∧
        e.stop = before.length + 1 ∧ (e.declaration = {kind := .import_} ∨
          e.declaration = {kind := .statement, exported := true, exportList := true}) := by
  have readings : ∀ before line rest, whole = before ++ line :: rest → ForwardSummary line ∧ ∀ l ∈ rest, ForwardSummary l := by
    rintro before line rest rfl
    exact ⟨forwarding line (by simp), fun l member => forwarding l (by simp [member])⟩
  -- A block is open only between its opening line and the reading of that line.
  have keeps : ScanInvariant p whole (fun _ => True) (fun _ => True)
      (fun before b => ∃ line rest, whole = before ++ line :: rest ∧ b = openBlock p before.length line rest)
      fun e => ∃ before line rest, whole = before ++ line :: rest ∧ e.start = before.length ∧
        e.stop = before.length + 1 ∧ (e.declaration = {kind := .import_} ∨
          e.declaration = {kind := .statement, exported := true, exportList := true}) := by
    refine ⟨fun _ _ _ _ _ _ => trivial, ?_, ?_, ?_, ?_⟩
    · intro before line rest split _ _
      exact ⟨line, rest, split, rfl⟩
    · rintro before line rest b next split ⟨line', rest', split', rfl⟩ read
      obtain ⟨rfl, rfl⟩ := List.cons.inj (List.append_cancel_left (split.symm.trans split'))
      obtain ⟨forward, others⟩ := readings _ _ _ split
      obtain ⟨e, closed, -⟩ := forward.read p before.length others
      cases closed.symm.trans read
    · rintro before line rest b e split ⟨line', rest', split', rfl⟩ read -
      obtain ⟨rfl, rfl⟩ := List.cons.inj (List.append_cancel_left (split.symm.trans split'))
      obtain ⟨forward, others⟩ := readings _ _ _ split
      obtain ⟨closed, same, extent⟩ := forward.read p before.length others
      cases same.symm.trans read
      exact ⟨⟨before, line, rest, split, extent⟩, trivial⟩
    · rintro b ⟨line, rest, split, -⟩
      simp at split
  exact keeps.scanned trivial fun _ _ => trivial

theorem scan_forwarding (p : Patterns) (forwarding : ∀ l ∈ lines, Forwarding mode l) :
    ∀ b ∈ (scan p mode lines).blocks, b.kind = .import_ ∧ b.text ∈ lines := by
  intro b member
  obtain ⟨e, found, rfl⟩ := mem_scan_blocks.mp member
  have summaries := summarize_forwarding forwarding
  obtain ⟨before, line, rest, split, start, stop, declared⟩ := extents_forwarding p summaries e found
  have between : linesBetween e.start e.stop (summarize mode lines) = [line] := by
    rw [split, start, stop, linesBetween, List.drop_left, Nat.add_sub_cancel_left]
    rfl
  constructor
  · show e.kind p (summarize mode lines) = .import_
    unfold Extent.kind
    rcases declared with import_ | list
    · rw [import_]
      rfl
    · have clause : hasFromClause line.code = true := by
        obtain ⟨lead, listed, s, hidden, quote, some, plain, code⟩ := (summaries line (by simp [split])).code
        obtain ⟨c, front, -, same⟩ := forwardLeads_cut listed s hidden
        rw [code, same, ← List.cons_append, ← List.append_assoc]
        exact findWord?_from quote some plain _
      rw [list, between]
      simp [joinWith, clause]
  · have text : (e.toBlock p (summarize mode lines)).text = line.text := by
      show unlines ((linesBetween e.start e.stop (summarize mode lines)).map (·.text)) = _
      rw [between]
      exact unlines_singleton _
    have texts := summarize_texts mode lines
    rw [text, ← texts]
    exact List.mem_map_of_mem (by simp [split])

end Scan

theorem forwardLeads_squeeze (listed : lead ∈ forwardLeads) {t : Text}
    (more : words t ≠ []) : squeeze (lead ++ t) = lead ++ squeeze t := by
  -- The words of the lead, each with the space behind it.
  have word : ∀ (w : String) (u : Text), w.toList ≠ [] → w.toList.all (!isBlank ·) = true →
      words u ≠ [] → squeeze (w.toList ++ ' ' :: u) = w.toList ++ ' ' :: squeeze u ∧ words (w.toList ++ ' ' :: u) ≠ [] := by
    intro w u some visible more
    have shown : ∀ c ∈ w.toList, isBlank c = false := by simpa using visible
    obtain ⟨c, rest, first⟩ := List.exists_cons_of_ne_nil some
    refine ⟨squeeze_word some shown more, ?_⟩
    rw [first, List.cons_append]
    exact words_visible (shown c (by rw [first]; exact List.mem_cons_self)) _
  obtain ⟨last, from_⟩ := word "from" t (by decide) (by decide) more
  rcases List.mem_pair.mp listed with rfl | rfl
  · obtain ⟨star, all⟩ := word "*" _ (by decide) (by decide) from_
    obtain ⟨whole, -⟩ := word "export" _ (by decide) (by decide) all
    exact whole.trans (by rw [star, last]; rfl)
  · obtain ⟨closed, close⟩ := word "\x7d" _ (by decide) (by decide) from_
    obtain ⟨named, name⟩ := word "default" _ (by decide) (by decide) close
    obtain ⟨opened, opens⟩ := word "\x7b" _ (by decide) (by decide) name
    obtain ⟨whole, -⟩ := word "export" _ (by decide) (by decide) opens
    exact whole.trans (by rw [opened, named, closed, last]; rfl)

namespace Forwards

variable {mode : DelimiterMode} {lead m : Text} {s : Style}

theorem plainText_eq (forwards : Forwards mode lead s m) : ∃ inner, inner ≠ [] ∧ (∀ c ∈ inner, ¬IsQuote c) ∧
      Import.plainText (lead ++ s.moduleText m) = lead ++ s.moduleText inner := by
  have front : '/' ∉ lead ++ [s.quote] := by
    have leads : ∀ l ∈ forwardLeads, '/' ∉ l := by decide
    rw [List.mem_append, not_or]
    refine ⟨leads lead forwards.listed, ?_⟩
    rcases forwards.quote with single | double
    · rw [single]; decide
    · rw [double]; decide
  have closing : squeeze (s.quote :: s.ending) = s.quote :: s.ending ∧ '/' ∉ s.quote :: s.ending := by
    rcases forwards.quote with quote | quote <;> rcases s.ending_cases with ending | ending <;>
      · rw [quote, ending]
        exact ⟨rfl, by decide⟩
  obtain ⟨inner, stripped, chars⟩ := Import.stripComments_module forwards.named front closing.2
  have visible := forwards.quote.visible
  have some : words ('.' :: inner ++ s.quote :: s.ending) ≠ [] := words_visible rfl _
  obtain ⟨squeezed, kept, inside, empty⟩ := squeeze_before visible closing.1 ('.' :: inner)
  have plain : ∀ c ∈ squeezed, ¬IsQuote c := by
    intro c member
    have origin : c ∈ m ∨ c = '.' ∨ c = ' ' := by
      rcases inside c member with known | space
      · rcases List.mem_cons.mp known with dot | later
        · exact .inr (.inl dot)
        · exact (chars c later).imp_right .inr
      · exact .inr (.inr space)
    rcases origin with old | rfl | rfl
    · exact (forwards.plain c old).1
    · rintro (same | same) <;> cases same
    · rintro (same | same) <;> cases same
  have left : squeezed ≠ [] := by
    intro none
    exact absurd (empty none '.' List.mem_cons_self) (by decide)
  have cut : lead ++ s.moduleText m = lead ++ [s.quote] ++ m ++ s.quote :: s.ending := by
    simp [Style.moduleText, Import.quoted]
  have whole : Import.plainText (lead ++ s.moduleText m) =
      lead ++ squeeze (s.quote :: ('.' :: inner ++ s.quote :: s.ending)) := by
    rw [Import.plainText_eq, cut, stripped, ← forwardLeads_squeeze forwards.listed (words_visible visible _)]
    simp
  rw [whole]
  rcases squeeze_visible visible some with close | apart
  · refine ⟨squeezed, left, plain, ?_⟩
    rw [close, kept]
    simp [Style.moduleText, Import.quoted]
  · refine ⟨' ' :: squeezed, List.cons_ne_nil _ _, ?_, ?_⟩
    · rw [List.forall_mem_cons]
      refine ⟨?_, plain⟩
      rintro (same | same) <;> cases same
    · rw [apart, kept]
      simp [Style.moduleText, Import.quoted]

theorem reexport (forwards : Forwards mode lead s m) : (ReExport.read? (lead ++ s.moduleText m)).isSome := by
  obtain ⟨inner, some, plain, same⟩ := forwards.plainText_eq
  obtain ⟨c, front, star, cut⟩ := forwardLeads_cut forwards.listed s inner
  have found := findWord?_from forwards.quote some plain front
  have behind : spaced? "export" ("export ".toList ++ c :: (front ++ ' ' :: s.fromModule inner)) =
      Option.some (c :: (front ++ ' ' :: s.fromModule inner)) := by
    refine spaced?_eq_some.mpr ⟨' ', _, rfl, rfl, ?_⟩
    rcases star with rfl | rfl <;> rfl
  have noType : skipSpaced "type" (c :: (front ++ ' ' :: s.fromModule inner)) = c :: (front ++ ' ' :: s.fromModule inner) := by
    rcases star with rfl | rfl <;> rfl
  obtain ⟨clause, found⟩ := Option.isSome_iff_exists.mp found
  unfold ReExport.read?
  rw [same, cut, behind]
  simp only [Option.bind_eq_bind, Option.bind_some, noType, found, if_pos star]
  rfl

end Forwards

end ModuleSplit
