import ModuleSplit.Data.Json.Reader
import ModuleSplit.Data.Json.Writer
import ModuleSplit.Proofs.Data.Numerals
import ModuleSplit.Proofs.Text.Encoding

namespace ModuleSplit.Json

variable {n fuel : Nat}

theorem hexValue?_hexDigit (small : n < 16) : Text.hexValue? (hexDigit n) = some n := by
  have all : ∀ n < 16, Text.hexValue? (hexDigit n) = some n := by decide
  exact all n small

theorem hex4?_unit (small : n < 0x10000) (rest : Text) : hex4? ((unitEscape n).drop 2 ++ rest) = some (n, rest) := by
  have digits : ((n / 4096 % 16 * 16 + n / 256 % 16) * 16 + n / 16 % 16) * 16 + n % 16 = n := by omega
  simp only [unitEscape, List.drop, List.cons_append, List.nil_append, hex4?,
    hexValue?_hexDigit (Nat.mod_lt _ (by decide : 0 < 16)), Option.bind_eq_bind, Option.bind_some, digits]
  rfl

theorem bind_cons (o : Option (Text × Text)) (c : Char) :
    (o.bind fun s => some (c :: s.1, s.2)) = o.map fun s => (c :: s.1, s.2) := by
  cases o <;> rfl

theorem stringBody_unit {c : Char} {rest tail : Text} (read : escapedUnit? ((unitEscape n).drop 2 ++ rest) = some (c, tail)) :
    stringBody (fuel + 1) (unitEscape n ++ rest) = (stringBody fuel tail).map fun s => (c :: s.1, s.2) := by
  have opened : stringBody (fuel + 1) (unitEscape n ++ rest) = (escapedUnit? ((unitEscape n).drop 2 ++ rest)).bind fun r =>
        (stringBody fuel r.2).bind fun s => some (r.1 :: s.1, s.2) := rfl
  rw [opened, read, Option.bind_some, bind_cons]

theorem stringBody_plain {c : Char} (quote : c ≠ '"') (escape : c ≠ '\\') (shown : 0x20 ≤ c.toNat) (fuel : Nat) (rest : Text) :
    stringBody (fuel + 1) (c :: rest) = (stringBody fuel rest).map fun s => (c :: s.1, s.2) := by
  rw [← bind_cons, stringBody]
  · rw [if_neg (by simp [escape]; omega)]
    rfl
  all_goals simp_all

theorem escapedUnit?_single (small : n < 0x10000) (single : n < 0xd800 ∨ 0xdfff < n)
    (rest : Text) : escapedUnit? ((unitEscape n).drop 2 ++ rest) = some (Char.ofNat n, rest) := by
  have high : isHighSurrogate n = false := by simp [isHighSurrogate]; omega
  have whole : unitChar n = Char.ofNat n := if_neg (by simp; omega)
  simp [escapedUnit?, hex4?_unit small, high, whole]

theorem escapedUnit?_pair {m : Nat} (high : isHighSurrogate n = true) (low : isLowSurrogate m = true)
    (rest : Text) : escapedUnit? ((unitEscape n).drop 2 ++ (unitEscape m ++ rest)) =
      some (Char.ofNat (0x10000 + (n - 0xd800) * 0x400 + (m - 0xdc00)), rest) := by
  have small : n < 0x10000 ∧ m < 0x10000 := by
    simp [isHighSurrogate, isLowSurrogate] at high low
    omega
  have second : unitEscape m ++ rest = '\\' :: 'u' :: ((unitEscape m).drop 2 ++ rest) := rfl
  rw [escapedUnit?, hex4?_unit small.1, second]
  simp only [Option.bind_eq_bind, Option.bind_some, high, if_true, hex4?_unit small.2, low]
  rfl

theorem stringBody_escape (c : Char) (fuel : Nat) (rest : Text) : stringBody (fuel + 1) (escapeChar c ++ rest) =
      (stringBody fuel rest).map fun s => (c :: s.1, s.2) := by
  unfold escapeChar
  split
  iterate 7 exact bind_cons (stringBody fuel rest) _
  rename_i quote escape _ _ _ _ _
  have range := char_range c
  have same := Char.ofNat_toNat c
  dsimp only
  split
  · rename_i shown
    exact stringBody_plain quote escape (by simp at shown; omega) fuel rest
  · split
    · rename_i basic
      have read := escapedUnit?_single basic (by omega) rest
      rw [same] at read
      exact stringBody_unit read
    · have high : isHighSurrogate (0xd800 + (c.toNat - 0x10000) / 0x400) = true := by
        simp [isHighSurrogate]
        omega
      have low : isLowSurrogate (0xdc00 + (c.toNat - 0x10000) % 0x400) = true := by
        simp [isLowSurrogate]
        omega
      have value : 0x10000 + (0xd800 + (c.toNat - 0x10000) / 0x400 - 0xd800) * 0x400 +
          (0xdc00 + (c.toNat - 0x10000) % 0x400 - 0xdc00) = c.toNat := by omega
      have read := escapedUnit?_pair high low rest
      rw [value, same] at read
      rw [List.append_assoc]
      exact stringBody_unit read

theorem stringBody_quoted (t : Text) (rest : Text) (enough : t.length < fuel) :
    stringBody fuel (t.flatMap escapeChar ++ '"' :: rest) = some (t, rest) := by
  induction t generalizing fuel with
  | nil =>
    obtain ⟨fuel, rfl⟩ := Nat.exists_eq_add_of_lt enough
    rfl
  | cons c t ih =>
    obtain ⟨fuel, rfl⟩ := Nat.exists_eq_add_of_lt enough
    rw [List.flatMap_cons, List.append_assoc, stringBody_escape, ih (by simp; omega)]
    rfl

end ModuleSplit.Json
