import ModuleSplit.Text.Codec

-- Decoding undoes encoding, in every encoding: one character is read back from its bytes, whatever
-- follows them, and so is a whole text.

namespace ModuleSplit

open List

def ReadsBack (unit : UInt8 → Bytes → Decoded) (c : Char) (bytes : Bytes) : Prop :=
  ∃ a more, bytes = a :: more ∧ ∀ rest, unit a (more ++ rest) = .char c (more.length + 1)

theorem decodeWith_skip (codec : String) (unit : UInt8 → Bytes → Decoded) (skipped rest : Bytes)
    (index : Nat) : decodeWith codec unit skipped.length index (skipped ++ rest) =
      decodeWith codec unit 0 (index + skipped.length) rest := by
  induction skipped generalizing index with
  | nil => rfl
  | cons a skipped ih =>
    rw [cons_append, length_cons, decodeWith, ih, Nat.add_assoc, Nat.add_comm 1]

theorem decodeWith_flatMap (codec : String) {unit : UInt8 → Bytes → Decoded}
    {encode : Char → Bytes} {t : Text} (reads : ∀ c ∈ t, ReadsBack unit c (encode c))
    (index : Nat) : decodeWith codec unit 0 index (t.flatMap encode) = .ok t := by
  induction t generalizing index with
  | nil => rfl
  | cons c t ih =>
    rw [forall_mem_cons] at reads
    obtain ⟨a, more, bytes, read⟩ := reads.1
    rw [flatMap_cons, bytes, cons_append, decodeWith, read]
    dsimp only
    rw [Nat.add_sub_cancel, decodeWith_skip, ih reads.2]
    rfl

theorem toNat_toUInt8 {n : Nat} (small : n < 256) : n.toUInt8.toNat = n :=
  UInt8.toNat_ofNat_of_lt' small

theorem char_range (c : Char) : c.toNat < 0xd800 ∨ (0xdfff < c.toNat ∧ c.toNat < 0x110000) :=
  c.valid

namespace Utf8

variable {a b c d : UInt8} {rest : Bytes}

theorem isTail_iff : isTail b = true ↔ 0x80 ≤ b.toNat ∧ b.toNat < 0xc0 := by
  simp only [isTail, Bool.and_eq_true, decide_eq_true_eq, UInt8.le_iff_toNat_le, UInt8.lt_iff_toNat_lt]
  rfl

theorem secondAllowed_of (tail : isTail b = true) (short : a.toNat = 0xe0 → 0xa0 ≤ b.toNat)
    (surrogate : a.toNat = 0xed → b.toNat < 0xa0) (low : a.toNat = 0xf0 → 0x90 ≤ b.toNat)
    (high : a.toNat = 0xf4 → b.toNat < 0x90) : secondAllowed a b = true := by
  simp only [secondAllowed, tail, Bool.true_and, Bool.and_eq_true, Bool.not_eq_true',
    Bool.and_eq_false_iff, beq_eq_false_iff_ne, ne_eq, decide_eq_false_iff_not, ge_iff_le,
    UInt8.le_iff_toNat_le, UInt8.lt_iff_toNat_lt, ← UInt8.toNat_inj, UInt8.reduceToNat]
  omega

theorem unit_one (small : a.toNat < 0x80) : unit a rest = .char (Char.ofNat a.toNat) 1 := by
  unfold unit
  exact if_pos (UInt8.lt_iff_toNat_lt.mpr small)

theorem unit_two (first : 0xc2 ≤ a.toNat) (last : a.toNat < 0xe0) (tail : isTail b = true) :
    unit a (b :: rest) = .char (Char.ofNat ((a.toNat - 0xc0) * 0x40 + low b)) 2 := by
  unfold unit
  simp only [UInt8.lt_iff_toNat_lt, UInt8.reduceToNat]
  rw [if_neg (by omega), if_neg (by omega), if_pos last]
  exact if_pos tail

theorem unit_three (first : 0xe0 ≤ a.toNat) (last : a.toNat < 0xf0)
    (second : secondAllowed a b = true) (tail : isTail c = true) : unit a (b :: c :: rest) =
      .char (Char.ofNat ((a.toNat - 0xe0) * 0x1000 + low b * 0x40 + low c)) 3 := by
  unfold unit
  simp only [UInt8.lt_iff_toNat_lt, UInt8.reduceToNat]
  rw [if_neg (by omega), if_neg (by omega), if_neg (by omega), if_pos last]
  rw [second]
  exact if_pos tail

theorem unit_four (first : 0xf0 ≤ a.toNat) (last : a.toNat < 0xf5)
    (second : secondAllowed a b = true) (third : isTail c = true) (tail : isTail d = true) : unit a (b :: c :: d :: rest) = .char
      (Char.ofNat ((a.toNat - 0xf0) * 0x40000 + low b * 0x1000 + low c * 0x40 + low d)) 4 := by
  unfold unit
  simp only [UInt8.lt_iff_toNat_lt, UInt8.reduceToNat]
  rw [if_neg (by omega), if_neg (by omega), if_neg (by omega), if_neg (by omega), if_pos last]
  rw [second, third]
  exact if_pos tail

theorem tail_byte (n : Nat) : (0x80 + n % 0x40).toUInt8.toNat = 0x80 + n % 0x40 ∧
    isTail (0x80 + n % 0x40).toUInt8 = true ∧ low (0x80 + n % 0x40).toUInt8 = n % 0x40 := by
  have value := @toNat_toUInt8 (0x80 + n % 0x40) (by omega)
  refine ⟨value, isTail_iff.mpr (by omega), ?_⟩
  rw [low, value]
  omega

theorem encodeChar_reads (c : Char) : ReadsBack unit c (encodeChar c) := by
  have range := char_range c
  -- One case for each number of bytes.
  unfold encodeChar
  dsimp only
  split
  · refine ⟨_, [], rfl, fun rest => ?_⟩
    have value := @toNat_toUInt8 c.toNat (by omega)
    rw [unit_one (by omega), value, Char.ofNat_toNat]
    rfl
  · obtain ⟨_, tail, low⟩ := tail_byte c.toNat
    split
    · refine ⟨_, [_], rfl, fun rest => ?_⟩
      have value := @toNat_toUInt8 (0xc0 + c.toNat / 0x40) (by omega)
      have whole : (0xc0 + c.toNat / 0x40 - 0xc0) * 0x40 + c.toNat % 0x40 = c.toNat := by omega
      rw [singleton_append, unit_two (by omega) (by omega) tail, value, low, whole, Char.ofNat_toNat]
      rfl
    · obtain ⟨middle, second, middle_low⟩ := tail_byte (c.toNat / 0x40)
      split
      · refine ⟨_, [_, _], rfl, fun rest => ?_⟩
        have value := @toNat_toUInt8 (0xe0 + c.toNat / 0x1000) (by omega)
        have whole : (0xe0 + c.toNat / 0x1000 - 0xe0) * 0x1000 + c.toNat / 0x40 % 0x40 * 0x40 +
            c.toNat % 0x40 = c.toNat := by omega
        rw [cons_append, singleton_append, unit_three (by omega) (by omega)
          (secondAllowed_of second (by omega) (by omega) (by omega) (by omega)) tail, value,
          middle_low, low, whole, Char.ofNat_toNat]
        rfl
      · obtain ⟨upper, first, upper_low⟩ := tail_byte (c.toNat / 0x1000)
        refine ⟨_, [_, _, _], rfl, fun rest => ?_⟩
        have value := @toNat_toUInt8 (0xf0 + c.toNat / 0x40000) (by omega)
        have whole : (0xf0 + c.toNat / 0x40000 - 0xf0) * 0x40000 +
            c.toNat / 0x1000 % 0x40 * 0x1000 + c.toNat / 0x40 % 0x40 * 0x40 + c.toNat % 0x40 = c.toNat := by omega
        rw [cons_append, cons_append, singleton_append, unit_four (by omega)
          (by omega) (secondAllowed_of first (by omega) (by omega) (by omega) (by omega)) second
          tail, value, upper_low, middle_low, low, whole, Char.ofNat_toNat]
        rfl

end Utf8

namespace Utf16

variable {a b c d : UInt8} {rest : Bytes}

theorem unit_pair {n : Nat} (value : a.toNat + b.toNat * 0x100 = n)
    (plain : n < 0xd800 ∨ 0xe000 ≤ n) : unit a (b :: rest) = .char (Char.ofNat n) 2 := by
  unfold unit
  dsimp only
  rw [value]
  exact if_pos (by simpa using plain)

theorem unit_surrogates {n m : Nat} (value : a.toNat + b.toNat * 0x100 = n)
    (high : 0xd800 ≤ n ∧ n < 0xdc00) (next : c.toNat + d.toNat * 0x100 = m)
    (low : 0xdc00 ≤ m ∧ m < 0xe000) : unit a (b :: c :: d :: rest) =
      .char (Char.ofNat (0x10000 + (n - 0xd800) * 0x400 + (m - 0xdc00))) 4 := by
  unfold unit
  dsimp only
  rw [value, next, if_neg (by simp; omega), if_neg (by omega)]
  exact if_pos (by simpa using low)

theorem pair_value {n : Nat} (small : n < 0x10000) : (n % 0x100).toUInt8.toNat + (n / 0x100).toUInt8.toNat * 0x100 = n := by
  rw [toNat_toUInt8 (by omega), toNat_toUInt8 (by omega)]
  omega

theorem encodeChar_reads (c : Char) : ReadsBack unit c (encodeChar c) := by
  have range := char_range c
  unfold encodeChar
  dsimp only
  split
  · refine ⟨_, [_], rfl, fun rest => ?_⟩
    rw [singleton_append, unit_pair (pair_value (by omega)) (by omega), Char.ofNat_toNat]
    rfl
  · refine ⟨_, [_, _, _], rfl, fun rest => ?_⟩
    have whole : 0x10000 + (0xd800 + (c.toNat - 0x10000) / 0x400 - 0xd800) * 0x400 +
        (0xdc00 + (c.toNat - 0x10000) % 0x400 - 0xdc00) = c.toNat := by omega
    rw [cons_append, cons_append, singleton_append,
      unit_surrogates (pair_value (by omega)) (by omega) (pair_value (by omega)) (by omega), whole,
      Char.ofNat_toNat]
    rfl

end Utf16

theorem encodeBelow_ok {codec : String} {bound : Nat} {t : Text} {bytes : Bytes} {index : Nat}
    (ok : encodeBelow codec bound index t = .ok bytes) :
    bytes = t.flatMap (fun c => [c.toNat.toUInt8]) ∧ ∀ c ∈ t, c.toNat < bound := by
  induction t generalizing index bytes with
  | nil =>
    cases ok
    exact ⟨rfl, nofun⟩
  | cons c t ih =>
    rw [encodeBelow] at ok
    split at ok
    · rename_i small
      cases encoded : encodeBelow codec bound (index + 1) t with
      | error f =>
        rw [encoded] at ok
        cases ok
      | ok rest =>
        rw [encoded] at ok
        cases ok
        obtain ⟨rfl, all⟩ := ih encoded
        exact ⟨rfl, forall_mem_cons.mpr ⟨small, all⟩⟩
    · cases ok

theorem asciiUnit_reads {c : Char} (small : c.toNat < 128) : ReadsBack asciiUnit c [c.toNat.toUInt8] := by
  have value := @toNat_toUInt8 c.toNat (by omega)
  refine ⟨_, [], rfl, fun rest => ?_⟩
  rw [asciiUnit, if_pos (UInt8.lt_iff_toNat_lt.mpr (value.symm ▸ small)), value, Char.ofNat_toNat]
  rfl

theorem latin1Unit_reads {c : Char} (small : c.toNat < 256) : ReadsBack latin1Unit c [c.toNat.toUInt8] := by
  refine ⟨_, [], rfl, fun rest => ?_⟩
  rw [latin1Unit, toNat_toUInt8 small, Char.ofNat_toNat]
  rfl

@[simp] theorem dropMark_append (bytes : Bytes) : dropMark (byteOrderMark ++ bytes) = bytes := rfl

namespace Encoding

theorem decode_encode {e : Encoding} {t : Text} {bytes : Bytes} (ok : e.encode t = .ok bytes) : e.decode bytes = .ok t := by
  cases e with
  | utf8 =>
    cases ok
    exact decodeWith_flatMap _ (fun c _ => Utf8.encodeChar_reads c) 0
  | utf8Marked =>
    cases ok
    rw [decode, dropMark_append]
    exact decodeWith_flatMap _ (fun c _ => Utf8.encodeChar_reads c) 0
  | latin1 =>
    obtain ⟨rfl, small⟩ := encodeBelow_ok ok
    exact decodeWith_flatMap _ (fun c mem => latin1Unit_reads (small c mem)) 0
  | ascii =>
    obtain ⟨rfl, small⟩ := encodeBelow_ok ok
    exact decodeWith_flatMap _ (fun c mem => asciiUnit_reads (small c mem)) 0
  | utf16le =>
    cases ok
    exact decodeWith_flatMap _ (fun c _ => Utf16.encodeChar_reads c) 0

theorem withoutPartialMark_encode {e : Encoding} {t : Text} {bytes : Bytes}
    (ok : e.encode t = .ok bytes) : e.withoutPartialMark bytes = bytes := by
  refine if_neg fun partialMark => ?_
  obtain ⟨rfl, short, _⟩ := partialMark
  cases ok
  have := @length_append _ byteOrderMark (Utf8.encode t)
  have : byteOrderMark.length = 3 := rfl
  omega

end Encoding

def Codec.Faithful (c : Codec) : Prop :=
  ∀ t bytes, c.encode t = .ok bytes → c.decode bytes = .ok t ∧ c.decodeFile bytes = .ok t

theorem Codec.ofEncoding_faithful (e : Encoding) : (Codec.ofEncoding e).Faithful := by
  intro t bytes ok
  change (e.encode t).mapError Failure.encode = .ok bytes at ok
  cases encoded : e.encode t with
  | error f =>
    rw [encoded] at ok
    cases ok
  | ok written =>
    rw [encoded] at ok
    cases ok
    change (e.decode bytes).mapError Failure.decode = .ok t ∧
      (e.decode (e.withoutPartialMark bytes)).mapError Failure.decode = .ok t
    rw [e.withoutPartialMark_encode encoded, e.decode_encode encoded]
    exact ⟨rfl, rfl⟩

theorem Codec.ofValue_faithful (v : Value) : (Codec.ofValue v).Faithful := by
  cases v with
  | text name =>
    rw [Codec.ofValue]
    cases Encoding.named? name with
    | none => exact nofun
    | some e => exact Codec.ofEncoding_faithful e
  | _ => exact nofun

end ModuleSplit
