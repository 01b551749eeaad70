import ModuleSplit.Proofs.Output.Forwarding

-- The replacement of a source forwards to the index and does nothing else: it is a source in which
-- there is nothing to split, and a text that passes its check.

namespace ModuleSplit

open List Text Phrase

-- A base name that the quotes around a module can hold, and that is one line and one part of a path.
def PlainBase (base : Text) : Prop := ∀ c ∈ base, ¬IsQuote c ∧ c ≠ '\\' ∧ c ≠ '\n' ∧ c ≠ '/'

namespace Layout

variable {l : Layout}

theorem indexModule_local (plain : PlainBase l.baseName) : LocalModule l.indexModule := by
  have outer : '/' ∉ l.baseName := fun member => (plain '/' member).2.2.2 rfl
  unfold indexModule
  split
  · rw [List.append_assoc]
    refine .beside ?_
    rw [List.mem_append, not_or]
    exact ⟨outer, by decide⟩
  · exact .below outer (by decide) (by decide)

theorem indexModule_chars (c : Char) (member : c ∈ l.indexModule) : c ∈ l.baseName ∨ c ∈ "./-index".toList := by
  have words : "./".toList ⊆ "./-index".toList ∧ "-index".toList ⊆ "./-index".toList ∧
      "/index".toList ⊆ "./-index".toList := by decide
  unfold indexModule at member
  split at member
  all_goals
    rw [List.mem_append, List.mem_append] at member
    rcases member with (dots | base) | word
  · exact .inr (words.1 dots)
  · exact .inl base
  · exact .inr (words.2.1 word)
  · exact .inr (words.1 dots)
  · exact .inl base
  · exact .inr (words.2.2 word)

theorem indexModule_quotable (plain : PlainBase l.baseName) : Quotable l.indexModule ∧ '\n' ∉ l.indexModule := by
  have others : ("./-index".toList.all fun c => c != '\'' && c != '"' && c != '\\' && c != '\n') = true := rfl
  have all : ∀ c ∈ l.indexModule, ¬IsQuote c ∧ c ≠ '\\' ∧ c ≠ '\n' := by
    intro c member
    rcases indexModule_chars c member with base | fixed
    · obtain ⟨quote, backslash, newline, -⟩ := plain c base
      exact ⟨quote, backslash, newline⟩
    · have apart := all_eq_true.mp others c fixed
      simpa [IsQuote, and_assoc] using apart
  exact ⟨fun c member => ⟨(all c member).1, (all c member).2.1⟩, fun member => (all _ member).2.2 rfl⟩

theorem indexModule_braces : (Tally.ofText l.indexModule).braces = (Tally.ofText l.baseName).braces := by
  unfold indexModule
  split
  all_goals
    rw [Tally.ofText_append, Tally.ofText_append]
    simp [Tally.ofText, Tally.count]

end Layout

namespace Text

theorem foldCrLf_line {line : Text} (plain : '\n' ∉ line) (last : line.getLast? ≠ some '\r')
    (rest : Text) : foldCrLf (line ++ '\n' :: rest) = line ++ '\n' :: foldCrLf rest := by
  induction line with
  | nil => rfl
  | cons c line ih =>
    rw [mem_cons, not_or] at plain
    rw [cons_append, foldCrLf]
    · cases line with
      | nil => rfl
      | cons d line =>
        rw [ih plain.2 (by simpa using last)]
        rfl
    · rintro more rfl same
      cases line with
      | nil => exact last rfl
      | cons d line => exact plain.2 ((List.cons.inj same).1 ▸ mem_cons_self)

theorem closedLines_cons (line : Text) (ls : List Text) :
    Plan.closedLines (line :: ls) = line ++ '\n' :: if ls = [] then [] else Plan.closedLines ls := by
  cases ls with
  | nil => simp [Plan.closedLines]
  | cons second ls => simp [Plan.closedLines]

theorem foldCrLf_closedLines {ls : List Text} (plain : ∀ l ∈ ls, '\n' ∉ l) (last : ∀ l ∈ ls, l.getLast? ≠ some '\r') :
    foldCrLf (Plan.closedLines ls) = Plan.closedLines ls := by
  induction ls with
  | nil => rfl
  | cons line ls ih =>
    rw [forall_mem_cons] at plain last
    rw [closedLines_cons, foldCrLf_line plain.1 last.1]
    split
    · rfl
    · rw [ih plain.2 last.2]

theorem lines_closedLines {ls : List Text} (some : ls ≠ []) (plain : ∀ l ∈ ls, '\n' ∉ l) :
    lines (Plan.closedLines ls) = ls ++ [[]] := by
  rw [Plan.closedLines, lines_append, lines_unlines some plain]
  rfl

end Text

theorem Source.ofText_closedLines {ls : List Text} (filled : unlines ls ≠ [])
    (plain : ∀ l ∈ ls, '\n' ∉ l) (last : ∀ l ∈ ls, l.getLast? ≠ some '\r') (newline : Newline)
    (path : Path) : (ofText (breakLines newline.text (Plan.closedLines ls)) path).lines = ls := by
  have folded : foldCrLf (breakLines newline.text (Plan.closedLines ls)) = Plan.closedLines ls := by
    cases newline with
    | lf =>
      show foldCrLf (breakLines ['\n'] _) = _
      rw [breakLines_feed, foldCrLf_closedLines plain last]
    | crlf => exact foldCrLf_breakLines _
  have ends : endsWith (Plan.closedLines ls) "\n" = true := isSuffixOf_iff_suffix.mpr ⟨unlines ls, rfl⟩
  have body : (Plan.closedLines ls).dropLast = unlines ls := dropLast_concat
  have some : ls ≠ [] := by
    rintro rfl
    exact filled rfl
  unfold ofText
  dsimp only
  rw [folded, ends, if_pos rfl, body, if_neg (by simpa using filled)]
  exact lines_unlines some plain

namespace Plan

variable {source : Source} {p : Patterns} {mode : DelimiterMode} {plan : Plan}

theorem replacementLines_forward (plan : Plan) (l : Layout) (drafts : List Draft) :
    ∀ line ∈ plan.replacementLines l drafts, ∃ lead ∈ forwardLeads, line = lead ++ plan.style.moduleText l.indexModule := by
  unfold replacementLines
  rw [forall_mem_cons]
  refine ⟨⟨_, mem_cons_self, forwardAll_eq _ _⟩, ?_⟩
  split
  · rintro line member
    rw [mem_singleton.mp member]
    exact ⟨_, mem_cons_of_mem _ mem_cons_self, forwardDefault_eq _ _⟩
  · exact nofun

theorem replacement_ne_nil (plan : Plan) (l : Layout) (drafts : List Draft) : unlines (plan.replacementLines l drafts) ≠ [] := by
  unfold replacementLines
  split
  · rw [unlines_cons_cons]
    exact nofun
  · rw [unlines_singleton]
    exact nofun

theorem build_noBody (none : ∀ b ∈ (scan p mode source.lines).blocks, b.place.body? = none) :
    ∃ plan, build source p mode = .ok plan ∧ plan.source = source ∧ plan.isEmpty = true := by
  have bodies : ((scan p mode source.lines).blocks.map (·.place)).filterMap (·.body?) = [] := by
    rw [filterMap_eq_nil_iff]
    intro placement member
    obtain ⟨b, found, rfl⟩ := mem_map.mp member
    exact none b found
  unfold build
  dsimp only
  rw [bodies]
  exact ⟨_, rfl, rfl, rfl⟩

theorem place_forwarding {b : Block} (kind : b.kind = .import_) (forwarding : Forwarding mode b.text) : b.place.body? = none := by
  obtain ⟨lead, s, m, forwards, text⟩ := forwarding
  obtain ⟨r, read⟩ := Option.isSome_iff_exists.mp forwards.reexport
  rw [← text] at read
  rw [Block.place, if_pos kind, Block.placeImport]
  cases Import.read? b.text with
  | some i =>
    dsimp only
    split <;> rfl
  | none =>
    dsimp only
    rw [read]
    rfl

theorem build_forwarding (forwarding : ∀ l ∈ source.lines, Forwarding mode l) :
    ∃ plan, build source p mode = .ok plan ∧ plan.source = source ∧ plan.isEmpty = true := by
  refine build_noBody fun b member => ?_
  obtain ⟨kind, text⟩ := scan_forwarding p forwarding b member
  exact place_forwarding kind (forwarding _ text)

theorem synthesize_replacement (plan : Plan) (outputs : OutputMode) (some : plan.isEmpty = false) :
    (plan.synthesize outputs).replacement = closedLines
      (plan.replacementLines ⟨plan.source.path, outputs⟩ (plan.groups.map Draft.mk)) := by
  unfold synthesize
  dsimp only
  rw [some]
  rfl

section Replacement

variable {l : Layout} {drafts : List Draft}

theorem replacementLines_forwarding (quote : IsQuote plan.style.quote)
    (plain : PlainBase l.baseName) (level : mode = .raw → (Tally.ofText l.baseName).braces = 0) :
    ∀ line ∈ plan.replacementLines l drafts, Forwarding mode line := by
  intro line member
  obtain ⟨lead, listed, same⟩ := plan.replacementLines_forward l drafts line member
  refine ⟨lead, plan.style, l.indexModule, ⟨listed, quote, (Layout.indexModule_quotable plain).1,
    Layout.indexModule_local plain, ?_⟩, same⟩
  rw [Layout.indexModule_braces]
  exact level

theorem replacementLines_plain (quote : IsQuote plan.style.quote) (plain : PlainBase l.baseName) :
    ∀ line ∈ plan.replacementLines l drafts, '\n' ∉ line ∧ line.getLast? ≠ some '\r' := by
  have leads : ∀ lead ∈ forwardLeads, '\n' ∉ lead := by decide
  intro line member
  obtain ⟨lead, listed, same⟩ := plan.replacementLines_forward l drafts line member
  constructor
  · have inner := (Layout.indexModule_quotable plain).2
    rw [same, Style.moduleText, Import.quoted]
    rcases quote with quote | quote <;> rcases plan.style.ending_cases with ending | ending <;>
      simp [quote, ending, inner, leads lead listed]
  · obtain ⟨front, last, ends, shown⟩ := Style.moduleText_last quote lead l.indexModule
    rw [same, ends, getLast?_concat]
    rcases shown with rfl | rfl | rfl <;> decide

theorem replacement_lines (quote : IsQuote plan.style.quote) (plain : PlainBase l.baseName) :
    lines (closedLines (plan.replacementLines l drafts)) = plan.replacementLines l drafts ++ [[]] :=
  lines_closedLines nofun fun line member => (replacementLines_plain quote plain line member).1

theorem replacement_raw (quote : IsQuote plan.style.quote) (plain : PlainBase l.baseName)
    (balanced : braceBalance .raw (closedLines (plan.replacementLines l drafts)) = 0) : (Tally.ofText l.baseName).braces = 0 := by
  have deltas : ∀ (s : RawCursor) (ls : List Text), (((Lexer.raw s).trace ls).map (·.1)).map (·.braceDelta) =
        ls.map fun line => (Tally.ofText line).braces := by
    intro s ls
    induction ls generalizing s with
    | nil => rfl
    | cons line ls ih => exact congrArg (_ :: ·) (ih _)
  have each : ∀ line ∈ plan.replacementLines l drafts, (Tally.ofText line).braces = (Tally.ofText l.baseName).braces := by
    intro line member
    obtain ⟨lead, listed, same⟩ := plan.replacementLines_forward l drafts line member
    rw [same, forwardLeads_braces listed quote, Layout.indexModule_braces]
  have sum := braceBalance_eq .raw (closedLines (plan.replacementLines l drafts))
  rw [balanced, replacement_lines quote plain, summarize, Lexer.start, deltas, map_append,
    sum_append, map_congr_left each, map_const', sum_replicate] at sum
  have total : 0 = ((plan.replacementLines l drafts).length : Int) *
      (Tally.ofText l.baseName).braces := by simpa [Tally.ofText] using sum
  rcases Int.mul_eq_zero.mp total.symm with none | balanced
  · cases Int.ofNat_eq_zero.mp none
  · exact balanced

theorem replacement_checked (quote : IsQuote plan.style.quote) (plain : PlainBase l.baseName)
    (level : mode = .raw → (Tally.ofText l.baseName).braces = 0) :
    checkText mode (closedLines (plan.replacementLines l drafts)) = none := by
  have forwarding := @replacementLines_forwarding mode plan l drafts quote plain level
  rw [checkText_eq_none]
  constructor
  · rw [replacementLines, closedLines_cons, forwardAll_eq]
    rfl
  · rw [braceBalance_eq, replacement_lines quote plain, summarize_append, map_append, sum_append]
    have first : ∀ delta ∈ (summarize mode (plan.replacementLines l drafts)).map (·.braceDelta), delta = 0 := by
      intro delta member
      obtain ⟨line, found, rfl⟩ := mem_map.mp member
      exact (summarize_forwarding forwarding line found).level
    have last := (((Lexer.start mode).after (plan.replacementLines l drafts)).feed_empty).2.1
    rw [sum_eq_zero first]
    simpa [Lexer.trace] using last

end Replacement

theorem build_replacement {next : Patterns} {outputs : OutputMode}
    (built : build source p mode = .ok plan) (plain : PlainBase source.path.stem) (some : plan.isEmpty = false)
    (checked : checkText mode (plan.synthesize outputs).replacement = none) (newline : Newline) (path : Path) :
    ∃ empty, build (Source.ofText (breakLines newline.text (plan.synthesize outputs).replacement) path) next mode = .ok empty ∧
      empty.source.path = path ∧ empty.isEmpty = true := by
  have quote := build_quote built
  have origin : plan.source = source := by
    obtain ⟨_, parts⟩ := build_parts built
    exact parts.origin
  have base : PlainBase (Layout.baseName ⟨plan.source.path, outputs⟩) := by rwa [origin]
  rw [synthesize_replacement plan outputs some] at checked ⊢
  have level : mode = .raw → (Tally.ofText (Layout.baseName ⟨plan.source.path, outputs⟩)).braces = 0 := by
    rintro rfl
    exact replacement_raw quote base (checkText_eq_none.mp checked).2
  have read := Source.ofText_closedLines (replacement_ne_nil plan ⟨plan.source.path, outputs⟩ (plan.groups.map Draft.mk))
    (fun line member => (replacementLines_plain quote base line member).1)
    (fun line member => (replacementLines_plain quote base line member).2) newline path
  have forwarding := @replacementLines_forwarding mode plan ⟨plan.source.path, outputs⟩
    (plan.groups.map Draft.mk) quote base level
  rw [← read] at forwarding
  obtain ⟨empty, emptied, same, none⟩ := build_forwarding forwarding
  exact ⟨empty, emptied, by rw [same]; rfl, none⟩

end Plan

end ModuleSplit
