import ModuleSplit.Proofs.Import.Resolution
import ModuleSplit.Proofs.Output.Replacement
import ModuleSplit.Proofs.Output.Sealing

namespace ModuleSplit

open Text Phrase

variable {m : Text}

def InQuotes (m : Text) : Prop := ∀ c ∈ m, ¬IsQuote c ∧ c ≠ '\n'

theorem InQuotes.line (inner : InQuotes m) : '\n' ∉ m :=
  fun inside => (inner '\n' inside).2 rfl

theorem InQuotes.not_mem (inner : InQuotes m) {quote : Char} (isQuote : IsQuote quote) :
    quote ∉ m := fun inside => (inner quote inside).1 isQuote

theorem InQuotes.append {a b : Text} (left : InQuotes a) (right : InQuotes b) : InQuotes (a ++ b) :=
  List.forall_mem_append.mpr ⟨left, right⟩

theorem inQuotes_of_all (inner : (m.all fun c => c != '\'' && c != '"' && c != '\n') = true) : InQuotes m := by
  intro c member
  have plain := List.all_eq_true.mp inner c member
  simpa [IsQuote, not_or] using plain

namespace Text

theorem words_isBlank (t : Text) : ∀ w ∈ words t, ∀ c ∈ w, isBlank c = false := by
  induction t with
  | nil => exact List.forall_mem_nil _
  | cons c rest ih =>
    cases blank : isBlank c with
    | true =>
      rw [words_blank blank]
      exact ih
    | false =>
      have single : ∀ d ∈ [c], isBlank d = false := by simpa using blank
      cases rest with
      | nil =>
        rw [words.eq_def]
        dsimp only
        rw [if_neg (by simp [blank])]
        simpa using blank
      | cons d rest =>
        cases next : isBlank d with
        | true =>
          rw [words_apart blank next, List.forall_mem_cons]
          exact ⟨single, ih⟩
        | false =>
          obtain ⟨w, ws, later⟩ := List.exists_cons_of_ne_nil (words_visible next rest)
          rw [later, List.forall_mem_cons] at ih
          rw [words_close blank next later, List.forall_mem_cons, List.forall_mem_cons]
          exact ⟨⟨blank, ih.1⟩, ih.2⟩

end Text

theorem Import.plainText_line (raw : Text) : '\n' ∉ plainText raw := by
  intro inside
  rcases mem_joinWith inside with space | ⟨w, word, member⟩
  · exact absurd space (by decide)
  · exact absurd (words_isBlank _ w word '\n' member) (by decide)

theorem ReadQuoted.inQuotes {raw : Text} {quote : Char} (read : ReadQuoted (Import.plainText raw) quote m) : InQuotes m := by
  intro c member
  refine ⟨(read.inner c member).1, ?_⟩
  rintro rfl
  exact Import.plainText_line raw (read.inner _ member).2

namespace ModuleName

variable {m : Text} {steps : List Text}

theorem joinWith_single (filled : ∀ s ∈ steps, s ≠ [])
    (inner : ∀ s ∈ steps, '/' ∉ s) : holds (joinWith "/" steps) "//" = false := by
  have passed : ∀ {s : Text}, '/' ∉ s → ∀ rest, holds (s ++ rest) "//" = holds rest "//" := by
    intro s plain rest
    induction s with
    | nil => rfl
    | cons c s ih =>
      rw [List.mem_cons, not_or] at plain
      have first : "//".toList.isPrefixOf (c :: (s ++ rest)) = false := by
        show ('/' == c && _) = false
        rw [beq_false_of_ne plain.1, Bool.false_and]
      show ("//".toList.isPrefixOf (c :: (s ++ rest)) || holds (s ++ rest) "//") = _
      rw [first, Bool.false_or, ih plain.2]
  induction steps with
  | nil => rfl
  | cons s steps ih =>
    rw [List.forall_mem_cons] at filled inner
    cases steps with
    | nil =>
      have alone := passed inner.1 []
      rw [List.append_nil] at alone
      rw [joinWith, List.intercalate_singleton, alone]
      rfl
    | cons u steps =>
      obtain ⟨c, tail, head⟩ := List.exists_cons_of_ne_nil (filled.2 u List.mem_cons_self)
      have apart : '/' ≠ c := by
        rintro rfl
        exact inner.2 u List.mem_cons_self (by simp [head])
      obtain ⟨rest, starts⟩ : ∃ rest, joinWith "/" (u :: steps) = c :: rest := by
        rw [head]
        cases steps with
        | nil => exact ⟨tail, by simp [joinWith]⟩
        | cons v steps => exact ⟨_, by rw [joinWith, List.intercalate_cons_cons]; rfl⟩
      have later := ih filled.2 inner.2
      rw [joinWith, List.intercalate_cons_cons, List.append_assoc, passed inner.1, ← joinWith]
      rw [starts] at later ⊢
      show ("//".toList.isPrefixOf ('/' :: c :: rest) || holds (c :: rest) "//") = false
      rw [later, Bool.or_false]
      show ('/' == '/' && ('/' == c && _)) = false
      rw [beq_false_of_ne apart, Bool.false_and, Bool.and_false]

theorem rebase_inQuotes (inner : InQuotes m) (depth : Nat) : InQuotes (rebase depth m) := by
  intro c member
  rcases mem_rebase member with own | rfl | rfl
  · exact inner c own
  · exact ⟨by simp [IsQuote], by decide⟩
  · exact ⟨by simp [IsQuote], by decide⟩

theorem rebase_inert (inert : InertModule m) (depth : Nat) : InertModule (rebase depth m) := by
  constructor
  · intro c member
    rcases mem_rebase member with own | rfl | rfl
    · exact inert.inert c own
    · rfl
    · rfl
  · rcases rebase_steps depth m with same | root | ⟨steps, joined, made⟩
    · rw [same]
      exact inert.single
    · rw [root]
      rfl
    · rw [joined]
      exact joinWith_single (fun s listed => (made s listed).1) fun s listed => (made s listed).2.1

-- A name that the lexer passes over, or one of which only the beginning changes: it goes up once
-- more, and a leading `./` is not needed any longer.
def RebasesPlainly (m : Text) : Prop :=
  InertModule m ∨ rebase 1 m = "../".toList ++ (dropLead? "./" m).getD m

instance (m : Text) : Decidable (RebasesPlainly m) := inferInstanceAs (Decidable (_ ∨ _))

theorem RebasesPlainly.interchangeable (plainly : RebasesPlainly m)
    (relative : startsWith m "." = true) : Interchangeable m (rebase 1 m) := by
  rcases plainly with inert | up
  · exact inert.interchangeable (rebase_inert inert 1)
  · rw [up]
    cases here : dropLead? "./" m with
    | some rest =>
      rw [dropLead?_eq_some.mp here]
      exact (interchangeable_up rest).1
    | none =>
      obtain ⟨rest, rfl⟩ := startsWith_iff.mp relative
      exact (interchangeable_up rest).2

end ModuleName

def Layout.Keeps (l : Layout) (m : Text) : Prop :=
  l.mode = .directory → startsWith m "." = true → ModuleName.RebasesPlainly m

theorem Layout.Keeps.interchangeable {l : Layout} (keeps : l.Keeps m) :
    Interchangeable m (ModuleName.rebase l.importDepth m) := by
  unfold Layout.importDepth
  cases mode : l.mode with
  | sibling => exact fun _ _ _ _ => rfl
  | directory =>
    cases relative : startsWith m "." with
    | true => exact (keeps mode relative).interchangeable relative
    | false =>
      rw [ModuleName.rebase, if_pos (by simp [relative])]
      exact fun _ _ _ _ => rfl

theorem Import.alike_rebase {i : Import} {l : Layout} (isQuote : IsQuote i.quote)
    (inner : InQuotes i.source) (keeps : l.Keeps i.source) : Alike i.raw (i.rebase l.importDepth).raw := by
  unfold Import.rebase
  dsimp only
  split
  · exact .refl _
  · exact .replaceFirst keeps.interchangeable inner.line (ModuleName.rebase_inQuotes inner _).line isQuote i.raw

theorem ReExport.alike_rebase {r : ReExport} {l : Layout} (isQuote : IsQuote r.quote)
    (inner : InQuotes r.source) (keeps : l.Keeps r.source) : Alike r.raw (r.rebase l.importDepth).raw := by
  unfold ReExport.rebase ReExport.withSource
  split
  · exact .refl _
  · exact .replaceFirst keeps.interchangeable inner.line (ModuleName.rebase_inQuotes inner _).line isQuote r.raw

end ModuleSplit
