import Mathlib.Data.List.TakeDrop
import Mathlib.Data.List.TakeWhile
import ModuleSplit.Data.Numeral

-- Numbers that are written and read back. What stands behind a number ends it.

namespace ModuleSplit

open List

def Text.Separates (rest : Text) : Prop := ∀ c ∈ rest.head?, c = ',' ∨ c = '\n'

theorem span_append {p : Char → Bool} {rest : Text} (stops : ∀ c ∈ rest.head?, p c = false)
    (t : Text) : (t ++ rest).span p = ((t.span p).1, (t.span p).2 ++ rest) := by
  simp only [span_eq_takeWhile_dropWhile]
  induction t with
  | nil =>
    cases rest with
    | nil => rfl
    | cons c rest => simp [stops c rfl]
  | cons c t ih =>
    rw [Prod.mk.injEq] at ih ⊢
    cases holds : p c <;> simp [holds, ih]

namespace Numeral

theorem wholePart?_append {rest : Text} (stops : ∀ c ∈ rest.head?, Text.isAsciiDigit c = false)
    (t : Text) : wholePart? (t ++ rest) = (wholePart? t).map fun r => (r.1, r.2 ++ rest) := by
  have other : ∀ t : Text, t.head? ≠ some '0' → wholePart? t =
      if (t.span Text.isAsciiDigit).1.isEmpty then none else some (t.span Text.isAsciiDigit) := by
    intro t first
    unfold wholePart?
    split
    · simp at first
    · rfl
  by_cases zero : t.head? = some '0'
  · obtain ⟨more, rfl⟩ := head?_eq_some_iff.mp zero
    rfl
  · rw [other t zero, other, span_append stops]
    · split <;> rfl
    · cases t with
      | nil => exact fun first => absurd (stops '0' first) (by decide)
      | cons c t => exact zero

section Behind

variable {rest : Text} (ends : Text.Separates rest)
include ends

theorem stops_digits : ∀ c ∈ rest.head?, Text.isAsciiDigit c = false := by
  intro c first
  rcases ends c first with rfl | rfl <;> decide

theorem placesIn_append (t : Text) : placesIn (t ++ rest) = ((placesIn t).1, (placesIn t).2 ++ rest) := by
  have other : ∀ t : Text, t.head? ≠ some '.' → placesIn t = ([], t) := by
    intro t first
    unfold placesIn
    split
    · simp at first
    · rfl
  by_cases point : t.head? = some '.'
  · obtain ⟨more, rfl⟩ := head?_eq_some_iff.mp point
    rw [cons_append, placesIn, placesIn, span_append (stops_digits ends)]
    generalize more.span Text.isAsciiDigit = read
    obtain ⟨ds, left⟩ := read
    cases ds <;> rfl
  · rw [other t point, other]
    cases t with
    | nil =>
      intro first
      rcases ends '.' first with same | same <;> cases same
    | cons c t => exact point

theorem signed_append (t : Text) : Text.signed (t ++ rest) = ((Text.signed t).1, (Text.signed t).2 ++ rest) := by
  cases t with
  | nil =>
    cases rest with
    | nil => rfl
    | cons c rest => rcases ends c rfl with rfl | rfl <;> rfl
  | cons c t =>
    unfold Text.signed
    split <;> simp_all

theorem exponentIn_append (t : Text) : exponentIn (t ++ rest) = ((exponentIn t).1, (exponentIn t).2 ++ rest) := by
  cases t with
  | nil =>
    cases rest with
    | nil => rfl
    | cons c rest => rcases ends c rfl with rfl | rfl <;> rfl
  | cons c more =>
    rw [cons_append, exponentIn, exponentIn, signed_append ends]
    generalize Text.signed more = sign
    obtain ⟨negative, body⟩ := sign
    dsimp only
    rw [span_append (stops_digits ends)]
    generalize body.span Text.isAsciiDigit = read
    obtain ⟨ds, left⟩ := read
    split
    · cases ds <;> rfl
    · rfl

theorem read?_append (t : Text) : read? (t ++ rest) = (read? t).map fun r => (r.1, r.2 ++ rest) := by
  unfold read?
  rw [wholePart?_append (stops_digits ends)]
  cases wholePart? t with
  | none => rfl
  | some r => simp [placesIn_append ends, exponentIn_append ends]

end Behind

theorem head_toDigits {n : Nat} (pos : 0 < n) : (Nat.toDigits 10 n).head? ≠ some '0' := by
  induction n using Nat.strongRecOn with
  | ind n ih =>
    rw [Nat.toDigits_eq_if (by decide)]
    split
    · rw [head?_cons, Ne, Option.some.injEq, Nat.digitChar_eq_zero]
      omega
    · have shorter := ih (n / 10) (by omega) (by omega)
      cases digits : Nat.toDigits 10 (n / 10) with
      | nil => exact absurd digits Nat.toDigits_ne_nil
      | cons c more =>
        rw [digits] at shorter
        exact shorter

@[simp] theorem wholePart?_ofNat (n : Nat) : wholePart? (Text.ofNat n) = some (Text.ofNat n, []) := by
  rw [Text.ofNat, Nat.toList_repr]
  by_cases zero : n = 0
  · subst zero
    rfl
  · have digits : ∀ c ∈ Nat.toDigits 10 n, Text.isAsciiDigit c = true :=
      fun c member => Nat.isDigit_of_mem_toDigits (by decide) (by decide) member
    have first := head_toDigits (Nat.pos_of_ne_zero zero)
    unfold wholePart?
    split
    · rename_i same
      rw [same] at first
      exact absurd rfl first
    · rw [span_eq_takeWhile_dropWhile, takeWhile_eq_self_iff.mpr digits, dropWhile_eq_nil_iff.mpr digits]
      simp [Nat.toDigits_ne_nil]

@[simp] theorem digitsValue_ofNat (n : Nat) : Text.digitsValue (Text.ofNat n) = n := by
  rw [Text.digitsValue, Text.ofNat, Nat.toList_repr, Nat.ofDigitChars_ten_toDigits]

end Numeral

namespace Double

variable {d : Double}

theorem nearest_exact {num den m : Nat} (pos : 0 < den) (scaled : num * twoTo 1074 = m * den)
    (fits : m % twoTo (m.log2 - 52) = 0) :
    nearest num den = min ((m.log2 - 52) * twoTo 52 + m / twoTo (m.log2 - 52)) (2047 * twoTo 52) := by
  have below : m * den / (den * twoTo (m.log2 - 52)) = m / twoTo (m.log2 - 52) := by
    rw [Nat.mul_comm den, Nat.mul_div_mul_right _ _ pos]
  have rest : m * den % (den * twoTo (m.log2 - 52)) = 0 := by
    rw [Nat.mul_comm den, Nat.mul_mod_mul_right, fits, Nat.zero_mul]
  have unit : 0 < den * twoTo (m.log2 - 52) := Nat.mul_pos pos (Nat.two_pow_pos _)
  unfold nearest
  rw [scaled]
  dsimp only
  rw [Nat.mul_div_cancel m pos, below, rest]
  have level : (decide (den * twoTo (m.log2 - 52) < 2 * 0) ||
      2 * 0 == den * twoTo (m.log2 - 52) && m / twoTo (m.log2 - 52) % 2 == 1) = false := by
    rw [Bool.or_eq_false_iff, Bool.and_eq_false_iff, decide_eq_false_iff_not, beq_eq_false_iff_ne]
    exact ⟨Nat.not_lt_zero _, .inl (Nat.ne_of_lt unit)⟩
  rw [level, Bool.toNat_false, Nat.add_zero]

theorem eq_ofMagnitude (d : Double) : ofMagnitude d.isNegative (d.exponentField * twoTo 52 + d.fraction) = d := by
  have small := d.bits.toNat_lt
  have all : d.exponentField * twoTo 52 + d.fraction + (if d.isNegative then twoTo 63 else 0) = d.bits.toNat := by
    rw [isNegative]
    by_cases negative : d.bits.toNat ≥ twoTo 63
    all_goals
      simp only [negative, decide_true, decide_false, if_true, Bool.false_eq_true, if_false]
      simp only [exponentField, fraction, twoTo, Nat.pow_eq] at negative ⊢
      omega
  rw [ofMagnitude, all, UInt64.ofNat_toNat]

theorem log2_shifted {n e : Nat} (low : twoTo 52 ≤ n) (high : n < twoTo 53) : (n * twoTo e).log2 = 52 + e := by
  have pos : 0 < twoTo e := Nat.two_pow_pos e
  have nonzero : n * twoTo e ≠ 0 := by
    have := Nat.mul_pos (Nat.lt_of_lt_of_le (Nat.two_pow_pos 52) low) pos
    omega
  rw [Nat.log2_eq_iff nonzero, Nat.add_right_comm, Nat.pow_add, Nat.pow_add]
  exact ⟨Nat.mul_le_mul_right _ low, Nat.mul_lt_mul_of_pos_right high pos⟩

theorem nearest_magnitude (finite : d.isFinite = true) {num den : Nat} (pos : 0 < den)
    (scaled : num * twoTo 1074 = d.significand * twoTo d.binaryExponent * den) :
    nearest num den = d.exponentField * twoTo 52 + d.fraction := by
  have field : d.exponentField ≠ 2047 := by simpa [isFinite] using finite
  have field_lt : d.exponentField < 2048 := Nat.mod_lt _ (Nat.two_pow_pos 11)
  have fraction_lt : d.fraction < twoTo 52 := Nat.mod_lt _ (Nat.two_pow_pos 52)
  have most : d.exponentField * twoTo 52 + d.fraction ≤ 2047 * twoTo 52 := by
    simp only [twoTo, Nat.pow_eq] at fraction_lt ⊢
    omega
  by_cases small : d.exponentField = 0
  · have value : d.significand * twoTo d.binaryExponent = d.fraction := by
      simp [significand, binaryExponent, small, twoTo]
    have bits : d.fraction.log2 - 52 = 0 := by
      by_cases zero : d.fraction = 0
      · rw [zero]
        rfl
      · have := (Nat.log2_lt zero).mpr fraction_lt
        omega
    rw [value] at scaled
    have whole : d.fraction / twoTo 0 = d.fraction := Nat.div_one _
    rw [small] at most ⊢
    rw [nearest_exact pos scaled (by rw [bits]; exact Nat.mod_one _), bits, whole, Nat.min_eq_left most]
  · have value : d.significand = twoTo 52 + d.fraction := if_neg small
    have bits : (d.significand * twoTo d.binaryExponent).log2 - 52 = d.binaryExponent := by
      rw [log2_shifted]
      · omega
      · omega
      · simp only [value, twoTo, Nat.pow_eq] at fraction_lt ⊢
        omega
    have exact : d.binaryExponent * twoTo 52 + d.significand = d.exponentField * twoTo 52 + d.fraction := by
      rw [value]
      simp only [binaryExponent, twoTo, Nat.pow_eq]
      omega
    have positive : 0 < twoTo d.binaryExponent := Nat.two_pow_pos _
    rw [nearest_exact pos scaled (by rw [bits]; exact Nat.mul_mod_left _ _), bits,
      Nat.mul_div_cancel _ positive, exact, Nat.min_eq_left most]

theorem isReadFrom_digits {digits : Nat} (value : ofDecimal d.isNegative digits (-(1074 : Nat)) = d) :
    d.isReadFrom (Text.ofNat digits ++ "e-1074".toList) = true := by
  have read : Numeral.read? (Text.ofNat digits ++ "e-1074".toList) = some (⟨Text.ofNat digits, [], some (-1074)⟩, []) := by
    rw [Numeral.read?, Numeral.wholePart?_append (by rintro c ⟨⟩; rfl), Numeral.wholePart?_ofNat]
    rfl
  unfold isReadFrom
  rw [read]
  simpa [Numeral.isWhole, Numeral.toDouble] using value

theorem ofDecimal_places (negative : Bool) {digits places : Nat} (large : 2 * places ≤ digits.log2) (few : places ≤ 1400) :
    ofDecimal negative digits (-places) = ofMagnitude negative (nearest digits (tenTo places)) := by
  have behind : (-(-(places : Int))).toNat = places := by omega
  have front : (-(places : Int)).toNat = 0 := by omega
  simp only [ofDecimal, behind, front]
  rw [if_neg (by omega)]
  simp [tenTo]

theorem log2_five {m : Nat} (pos : 0 < m) (n : Nat) : 2 * n ≤ (m * Nat.pow 5 n).log2 := by
  have five : 0 < Nat.pow 5 n := Nat.pow_pos (by decide)
  rw [Nat.le_log2 (Nat.ne_of_gt (Nat.mul_pos pos five)), Nat.pow_mul]
  exact Nat.le_trans (Nat.pow_le_pow_left (by decide) n) (Nat.le_mul_of_pos_left _ pos)

theorem scale_five (m n : Nat) : m * Nat.pow 5 n * twoTo n = m * tenTo n := by
  rw [twoTo, tenTo, Nat.mul_assoc]
  exact congrArg (m * ·) (Nat.mul_pow 5 2 n).symm

theorem ofDecimal_exact (finite : d.isFinite = true) :
    ofDecimal d.isNegative (d.significand * twoTo d.binaryExponent * Nat.pow 5 1074) (-(1074 : Nat)) = d := by
  by_cases zero : d.significand = 0
  · have parts : d.exponentField = 0 ∧ d.fraction = 0 := by
      unfold significand at zero
      split at zero
      · rename_i small
        exact ⟨small, zero⟩
      · have := Nat.two_pow_pos 52
        simp only [twoTo, Nat.pow_eq] at zero
        omega
    have same := eq_ofMagnitude d
    rw [parts.1, parts.2, Nat.zero_mul] at same
    simp only [zero, Nat.zero_mul]
    rw [ofDecimal, if_pos (by decide)]
    exact same
  · have pos : 0 < d.significand * twoTo d.binaryExponent := Nat.mul_pos (Nat.pos_of_ne_zero zero) (Nat.two_pow_pos _)
    have ten : ∀ n, 0 < tenTo n := fun _ => Nat.pow_pos (by decide)
    rw [ofDecimal_places _ (log2_five pos 1074) (by decide), nearest_magnitude finite (ten _) (scale_five _ 1074), eq_ofMagnitude]

theorem isReadFrom_magnitudeText (finite : d.isFinite = true) : d.isReadFrom d.magnitudeText = true := by
  unfold magnitudeText
  dsimp only
  cases found : List.find? d.isReadFrom _ with
  | none =>
    rw [Option.getD_none, exactText]
    exact isReadFrom_digits (ofDecimal_exact finite)
  | some t => exact find?_some found

theorem not_nan_ofMagnitude (negative : Bool) {bits : Nat} (most : bits ≤ 2047 * twoTo 52) :
    (ofMagnitude negative bits).isNaN = false := by
  have value : (ofMagnitude negative bits).bits.toNat = bits + if negative then twoTo 63 else 0 := by
    rw [ofMagnitude, UInt64.toNat_ofNat_of_lt']
    simp only [twoTo, Nat.pow_eq] at most ⊢
    split <;> simp [UInt64.size] <;> omega
  have clear : ∀ n, (n = bits ∨ n = bits + twoTo 63) → n / twoTo 52 % twoTo 11 = 2047 → n % twoTo 52 = 0 := by
    simp only [twoTo, Nat.pow_eq] at most ⊢
    omega
  have clear := clear _ (show (bits + if negative then twoTo 63 else 0) = bits ∨ _ from by
    cases negative <;> simp)
  rw [isNaN, isFinite, exponentField, fraction, value]
  by_cases top : (bits + if negative then twoTo 63 else 0) / twoTo 52 % twoTo 11 = 2047
  · simp [clear top]
  · simp [top]

theorem not_nan_ofDecimal (negative : Bool) (digits : Nat) (shift : Int) : (ofDecimal negative digits shift).isNaN = false := by
  unfold ofDecimal
  apply not_nan_ofMagnitude
  split
  · exact Nat.zero_le _
  · exact Nat.min_le_right _ _

theorem eq_infinity (infinite : d.isFinite = false) (number : d.isNaN = false) : d = infinity d.isNegative := by
  have field : d.exponentField = 2047 := by simpa [isFinite] using infinite
  have clear : d.fraction = 0 := by simpa [isNaN, infinite] using number
  rw [infinity, ← Nat.add_zero (2047 * twoTo 52), ← field, ← clear, eq_ofMagnitude]

end Double

end ModuleSplit
