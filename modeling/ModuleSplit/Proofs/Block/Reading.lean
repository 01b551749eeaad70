import ModuleSplit.Block.Scan

-- Reading one line is one `Reading`. What readings keep holds of every extent of the scan.

namespace ModuleSplit

open Text

-- Everything that reading a line can do to an open block. The closer is looked at first, so that a
-- line without code can close a block too.
inductive Reading (b : OpenBlock) (index : Nat) (line : LineSummary) (rest : List LineSummary) :
    OpenBlock ⊕ Extent → Prop where
  | unbalanced (below : b.lowest line < 0) :
      Reading b index line rest (.inr ((b.deepen line).close (index + 1) .unbalanced))
  | blank (level : 0 ≤ b.lowest line) (blank : line.isBlankCode = true) :
      Reading b index line rest (.inl (b.deepen line))
  | complete (level : 0 ≤ b.lowest line) (code : line.isBlankCode = false)
      (settled : ({b.deepen line with lastCode := index + 1}).settled line = true)
      (finished : statementComplete line rest = true) :
      Reading b index line rest
        (.inr (({b.deepen line with lastCode := index + 1}).close (index + 1) .complete))
  | goesOn (level : 0 ≤ b.lowest line) (code : line.isBlankCode = false)
      (unfinished : (({b.deepen line with lastCode := index + 1}).settled line &&
        statementComplete line rest) = false) :
      Reading b index line rest (.inl {b.deepen line with lastCode := index + 1})

namespace OpenBlock

theorem reading (b : OpenBlock) (index : Nat) (line : LineSummary) (rest : List LineSummary) :
    Reading b index line rest (b.read index line rest) := by
  unfold read
  dsimp only
  split
  · exact .unbalanced ‹_›
  · have level : 0 ≤ b.lowest line := by omega
    split
    · exact .blank level ‹_›
    · have code : line.isBlankCode = false := by simpa using ‹¬line.isBlankCode = true›
      split
      · rename_i both
        rw [Bool.and_eq_true] at both
        exact .complete level code both.1 both.2
      · rename_i other
        exact .goesOn level code (Bool.eq_false_iff.mpr other)

end OpenBlock

section Extents

variable {p : Patterns} {b : OpenBlock} {index : Nat} {line : LineSummary} {rest : List LineSummary}

theorem extents_blank (blank : line.isBlankCode = true) : extents p none index (line :: rest) = extents p none (index + 1) rest :=
  if_pos blank

theorem extents_code (code : line.isBlankCode = false) : extents p none index (line :: rest) =
      extents p (some (openBlock p index line rest)) index (line :: rest) :=
  if_neg (by simp [code])

theorem extents_goesOn {next : OpenBlock} (read : b.read index line rest = .inl next) :
    extents p (some b) index (line :: rest) = extents p (some next) (index + 1) rest := by
  simp only [extents, read]

theorem extents_closes {e : Extent} (read : b.read index line rest = .inr e) :
    extents p (some b) index (line :: rest) = e :: extents p none (index + 1) rest := by
  simp only [extents, read]

end Extents

-- Properties of a scan, each of the lines read so far: one while no block is open, one while a
-- block is, and one of the extents found. `Allowed` is what may be assumed of the extents.
structure ScanInvariant (p : Patterns) (whole : List LineSummary) (Allowed : Extent → Prop)
    (Idle : List LineSummary → Prop) (Open : List LineSummary → OpenBlock → Prop)
    (Found : Extent → Prop) : Prop where
  passes : ∀ before line rest, whole = before ++ line :: rest → Idle before →
    line.isBlankCode = true → Idle (before ++ [line])
  opens : ∀ before line rest, whole = before ++ line :: rest → Idle before →
    line.isBlankCode = false → Open before (openBlock p before.length line rest)
  goesOn : ∀ before line rest b next, whole = before ++ line :: rest → Open before b →
    b.read before.length line rest = .inl next → Open (before ++ [line]) next
  closes : ∀ before line rest b e, whole = before ++ line :: rest → Open before b →
    b.read before.length line rest = .inr e → Allowed e → Found e ∧ Idle (before ++ [line])
  ends : ∀ b, Open whole b → Found (b.close b.lastCode .endOfSource)

namespace ScanInvariant

variable {p : Patterns} {whole : List LineSummary} {Allowed Found : Extent → Prop}
  {Idle : List LineSummary → Prop} {Open : List LineSummary → OpenBlock → Prop}

-- The induction is on the lines still to be read.
theorem run (keeps : ScanInvariant p whole Allowed Idle Open Found) {before rest : List LineSummary}
    {current : Option OpenBlock} (split : whole = before ++ rest)
    (idle : current = none → Idle before) (opened : ∀ b, current = some b → Open before b)
    (allowed : ∀ e ∈ extents p current before.length rest, Allowed e) : ∀ e ∈ extents p current before.length rest, Found e := by
  induction rest generalizing before current with
  | nil =>
    rw [List.append_nil] at split
    subst split
    cases current with
    | none => simp [extents]
    | some b =>
      intro e member
      rw [List.mem_singleton.mp member]
      exact keeps.ends b (opened b rfl)
  | cons line rest ih =>
    have further : whole = (before ++ [line]) ++ rest := by simp [split]
    have place : before.length + 1 = (before ++ [line]).length := by simp
    have step : ∀ b, Open before b → (∀ e ∈ extents p (some b) before.length (line :: rest), Allowed e) →
        ∀ e ∈ extents p (some b) before.length (line :: rest), Found e := by
      intro b valid
      cases read : b.read before.length line rest with
      | inl next =>
        rw [extents_goesOn read, place]
        exact ih further (by simp) (by rintro _ ⟨⟩; exact keeps.goesOn _ _ _ _ _ split valid read)
      | inr e =>
        rw [extents_closes read, place]
        intro allowed other member
        obtain ⟨found, after⟩ := keeps.closes _ _ _ _ _ split valid read (allowed e List.mem_cons_self)
        rcases List.mem_cons.mp member with rfl | later
        · exact found
        · exact ih further (fun _ => after) (by simp) (fun e member => allowed e (List.mem_cons_of_mem _ member)) other later
    cases current with
    | some b => exact step b (opened b rfl) allowed
    | none =>
      cases code : line.isBlankCode with
      | true =>
        rw [extents_blank code, place] at allowed ⊢
        exact ih further (fun _ => keeps.passes _ _ _ split (idle rfl) code) (by simp) allowed
      | false =>
        rw [extents_code code] at allowed ⊢
        exact step _ (keeps.opens _ _ _ split (idle rfl) code) allowed

theorem scanned (keeps : ScanInvariant p whole Allowed Idle Open Found) (idle : Idle [])
    (allowed : ∀ e ∈ extents p none 0 whole, Allowed e) : ∀ e ∈ extents p none 0 whole, Found e :=
  keeps.run (List.nil_append whole).symm (fun _ => idle) (by simp) allowed

end ScanInvariant

end ModuleSplit
