import Mathlib.Data.List.Forall2
import ModuleSplit.Proofs.Data.Strings
import ModuleSplit.Proofs.Declaration.Phrase
import ModuleSplit.Proofs.Result

namespace ModuleSplit.Json

open List

variable {rest : Text} {v w : Value} {n : Nat} {c : Char}

theorem head_of_read {t : Text} {r : Numeral × Text} (read : Numeral.read? t = some r) :
    ∃ c more, t = c :: more ∧ Text.isAsciiDigit c = true := by
  cases t with
  | nil => cases read
  | cons c more =>
    refine ⟨c, more, rfl, ?_⟩
    by_contra other
    have none : Numeral.wholePart? (c :: more) = none := by
      have span := span_eq_takeWhile_dropWhile Text.isAsciiDigit (c :: more)
      unfold Numeral.wholePart?
      split
      · rename_i same
        cases same
        exact absurd (by decide) other
      · simp_all
    rw [Numeral.read?, none] at read
    cases read

theorem word?_number (digit : Text.isAsciiDigit c = true) (more : Text) :
    word? (c :: more) = none ∧ word? ('-' :: c :: more) = none := by
  have apart : ∀ t, (t = c :: more ∨ t = '-' :: c :: more) →
      ∀ word ∈ ["null", "true", "false", "NaN", "Infinity", "-Infinity"], Text.dropLead? word t = none := by
    intro t shape word listed
    rw [Option.eq_none_iff_forall_ne_some]
    intro rest found
    rw [Text.dropLead?_eq_some] at found
    have other : c ∉ ['n', 't', 'f', 'N', 'I', '-'] := by
      intro member
      simp only [mem_cons, not_mem_nil, or_false] at member
      rcases member with rfl | rfl | rfl | rfl | rfl | rfl <;> cases digit
    simp only [mem_cons, not_mem_nil, or_false] at listed
    rcases shape with rfl | rfl <;> rcases listed with rfl | rfl | rfl | rfl | rfl | rfl <;> simp_all
  constructor
  · simp [word?, apart _ (.inl rfl)]
  · simp [word?, apart _ (.inr rfl)]

theorem value_number (fuel : Nat) (digit : Text.isAsciiDigit c = true) (more : Text) :
    value (fuel + 1) (c :: more) = number (c :: more) ∧
      value (fuel + 1) ('-' :: c :: more) = number ('-' :: c :: more) := by
  obtain ⟨first, second⟩ := word?_number digit more
  constructor
  · rw [value, first]
    all_goals
      rintro rest ⟨⟩
      cases digit
  · rw [value, second]
    all_goals
      rintro rest ⟨⟩

def signedText (negative : Bool) (t : Text) : Text := if negative then '-' :: t else t

theorem value_signed {t : Text} {n : Numeral} (read : Numeral.read? t = some (n, rest)) {negative : Bool}
    (found : n.isWhole = false ∧ v = .float (n.toDouble negative) ∨
      n.isWhole = true ∧ Text.isTooLong (Text.digitsValue n.whole) = false ∧
        v = .int (if negative then -Text.digitsValue n.whole else Text.digitsValue n.whole))
    (fuel : Nat) : value (fuel + 1) (signedText negative t) = .ok (v, rest) := by
  obtain ⟨c, more, rfl, digit⟩ := head_of_read read
  have values := value_number fuel digit more
  have unsigned : c ≠ '-' := by
    rintro rfl
    cases digit
  unfold signedText
  cases negative with
  | false =>
    rw [if_neg Bool.false_ne_true, values.1]
    unfold number
    rcases found with ⟨whole, rfl⟩ | ⟨whole, short, rfl⟩ <;> simp [orMalformed, bind, Except.bind, pure, Except.pure, *]
  | true =>
    rw [if_pos rfl, values.2]
    unfold number
    rcases found with ⟨whole, rfl⟩ | ⟨whole, short, rfl⟩ <;> simp [orMalformed, bind, Except.bind, pure, Except.pure, *]

theorem signedText_append (negative : Bool) (t rest : Text) :
    signedText negative t ++ rest = signedText negative (t ++ rest) := by
  cases negative <;> rfl

theorem ofInt_eq (i : Int) : Text.ofInt i = signedText (decide (i < 0)) (Text.ofNat i.natAbs) := by
  cases i with
  | ofNat n => rfl
  | negSucc n =>
    rw [decide_eq_true (Int.negSucc_lt_zero n), Text.ofInt]
    simp [signedText, Int.repr, Text.ofNat]

@[simp] theorem isTooLong_natAbs (i : Int) : Text.isTooLong i.natAbs = Text.isTooLong i := by
  unfold Text.isTooLong
  rw [Int.natAbs_natCast]

theorem value_ofInt {i : Int} (short : Text.isTooLong i = false) (ends : Text.Separates rest)
    (fuel : Nat) : value (fuel + 1) (Text.ofInt i ++ rest) = .ok (.int i, rest) := by
  have read : Numeral.read? (Text.ofNat i.natAbs ++ rest) = some (⟨Text.ofNat i.natAbs, [], none⟩, rest) := by
    rw [Numeral.read?_append ends, Numeral.read?, Numeral.wholePart?_ofNat]
    rfl
  rw [ofInt_eq, signedText_append]
  refine value_signed read (.inr ⟨rfl, ?_, ?_⟩) fuel
  · rw [Numeral.digitsValue_ofNat, isTooLong_natAbs]
    exact short
  · clear short
    rw [Numeral.digitsValue_ofNat]
    by_cases negative : i < 0
    · rw [decide_eq_true negative, if_pos rfl]
      exact congrArg _ (by omega)
    · rw [decide_eq_false negative, if_neg Bool.false_ne_true]
      exact congrArg _ (by omega)

theorem value_floatText {d : Double} (canonical : d.isNaN = true → d = .nan) (ends : Text.Separates rest) (fuel : Nat) :
    value (fuel + 1) (floatText d ++ rest) = .ok (.float d, rest) := by
  unfold floatText
  by_cases nan : d.isNaN = true
  · rw [if_pos nan, canonical nan]
    rfl
  · rw [if_neg nan]
    cases finite : d.isFinite with
    | false =>
      have infinite := Double.eq_infinity finite (by simpa using nan)
      rw [if_pos (by decide)]
      generalize d.isNegative = negative at infinite
      subst infinite
      cases negative <;> rfl
    | true =>
      rw [if_neg (by decide)]
      have text : d.finiteText = signedText d.isNegative d.magnitudeText := by
        unfold Double.finiteText signedText
        generalize d.magnitudeText = t
        split <;> rfl
      have readBack := Double.isReadFrom_magnitudeText finite
      unfold Double.isReadFrom at readBack
      split at readBack
      · rename_i n read
        rw [Bool.and_eq_true] at readBack
        have further : Numeral.read? (d.magnitudeText ++ rest) = some (n, rest) := by
          rw [Numeral.read?_append ends, read]
          rfl
        rw [text, signedText_append]
        have back : n.toDouble d.isNegative = d := by simpa using readBack.2
        exact value_signed further (.inl ⟨by simpa using readBack.1, by rw [back]⟩) fuel
      · cases readBack

theorem value_head {fuel : Nat} {t : Text} {r : Value × Text}
    (read : value fuel t = .ok r) : ∃ c more, t = c :: more ∧ isSpace c = false ∧ c ≠ ']' := by
  cases fuel with
  | zero =>
    unfold value at read
    cases read
  | succ fuel =>
    cases t with
    | nil => cases read
    | cons c more =>
      refine ⟨c, more, rfl, ?_, ?_⟩
      · by_contra space
        simp only [isSpace, Bool.not_eq_false, Bool.or_eq_true, beq_iff_eq] at space
        rcases space with ((rfl | rfl) | rfl) | rfl <;> cases read
      · rintro rfl
        cases read

theorem skipSpace_layout (n : Nat) (shown : isSpace c = false) (more : Text) :
    skipSpace ('\n' :: List.replicate n ' ' ++ c :: more) = c :: more := by
  have blank : ∀ b ∈ '\n' :: List.replicate n ' ', isSpace b = true := by
    intro b member
    rcases mem_cons.mp member with rfl | later
    · rfl
    · rw [eq_of_mem_replicate later]
      rfl
  rw [skipSpace, dropWhile_append_of_pos blank, dropWhile_cons_of_neg (by simp [shown])]

section Steps

variable {fuel : Nat} {t left more tail : Text} {v : Value} {ms : List (Key × Value)}

theorem items_last (read : value fuel t = .ok (v, left)) (closed : skipSpace left = ']' :: tail) :
    items (fuel + 1) t = .ok ([v], tail) := by
  rw [items, read]
  simp only [bind, Except.bind, closed]
  rfl

theorem items_more (read : value fuel t = .ok (v, left)) (comma : skipSpace left = ',' :: more)
    {vs : List Value} (later : items fuel (skipSpace more) = .ok (vs, tail)) :
    items (fuel + 1) t = .ok (v :: vs, tail) := by
  rw [items, read]
  simp only [bind, Except.bind, comma, later]
  rfl

def Member (fuel : Nat) (t name : Text) (v : Value) (left : Text) : Prop :=
  ∃ body behind more, t = '"' :: body ∧ stringBody (body.length + 1) body = some (name, behind) ∧
    skipSpace behind = ':' :: more ∧ value fuel (skipSpace more) = .ok (v, left)

theorem members_last {name : Text} (one : Member fuel t name v left) (closed : skipSpace left = '}' :: tail) :
    members (fuel + 1) t = .ok ([(.text name, v)], tail) := by
  obtain ⟨body, behind, more, rfl, named, colon, read⟩ := one
  rw [members, named]
  simp only [orMalformed, bind, Except.bind, colon, read, closed]
  rfl

theorem members_more {name : Text} (one : Member fuel t name v left) (comma : skipSpace left = ',' :: more)
    (later : members fuel (skipSpace more) = .ok (ms, tail)) :
    members (fuel + 1) t = .ok ((.text name, v) :: ms, tail) := by
  obtain ⟨body, behind, more, rfl, named, colon, read⟩ := one
  rw [members, named]
  simp only [orMalformed, bind, Except.bind, colon, read, comma, later]
  rfl

theorem value_empty (rest : Text) :
    value (fuel + 1) ('[' :: ']' :: rest) = .ok (.list [], rest) ∧
      value (fuel + 1) ('{' :: '}' :: rest) = .ok (.dict [], rest) := by
  constructor
  · rw [value]
    rfl
  · rw [value]
    rfl

theorem value_list {c : Char} (opens : skipSpace more = c :: t)
    (other : c ≠ ']') {vs : List Value} (read : items fuel (c :: t) = .ok (vs, tail)) :
    value (fuel + 1) ('[' :: more) = .ok (.list vs, tail) := by
  rw [value, opens]
  split
  · simp_all
  · simp only [bind, Except.bind, read]
    rfl

theorem value_dict {c : Char} (opens : skipSpace more = c :: t)
    (other : c ≠ '}') (read : members fuel (c :: t) = .ok (ms, tail)) :
    value (fuel + 1) ('{' :: more) = .ok (.dict (Entries.ofPairs ms), tail) := by
  rw [value, opens]
  split
  · simp_all
  · simp only [bind, Except.bind, read]
    rfl

end Steps

def Reads (v w : Value) : Prop :=
  ∀ depth fuel rest, Text.Separates rest → (write indented depth v).length < fuel →
    value fuel (write indented depth v ++ rest) = .ok (w, rest)

theorem separates_outer (depth : Nat) (t : Text) : Text.Separates (indented.outer depth ++ t) := by
  rintro c ⟨⟩
  exact .inr rfl

theorem separates_comma (t : Text) : Text.Separates (',' :: t) := by
  rintro c ⟨⟩
  exact .inl rfl

theorem skipSpace_outer (depth : Nat) (shown : isSpace c = false) (t : Text) :
    skipSpace (indented.outer depth ++ c :: t) = c :: t := skipSpace_layout _ shown t

theorem Reads.head (reads : Reads v w) (depth : Nat) :
    ∃ c more, write indented depth v = c :: more ∧ isSpace c = false ∧ c ≠ ']' := by
  have read := reads depth _ [] (by rintro c ⟨⟩) (Nat.lt_succ_self _)
  rw [List.append_nil] at read
  exact value_head read

theorem items_written {vs ws : List Value} (first : Reads v w)
    (others : List.Forall₂ (Reads) vs ws) (depth fuel : Nat) (rest : Text)
    (enough : (write indented (depth + 1) v).length + (writeItems indented depth vs).length + 1 < fuel) :
    items fuel (write indented (depth + 1) v ++ (writeItems indented depth vs ++
      (indented.outer depth ++ ']' :: rest))) = .ok (w :: ws, rest) := by
  induction others generalizing v w fuel with
  | nil =>
    obtain ⟨fuel, rfl⟩ := Nat.exists_eq_succ_of_ne_zero (Nat.ne_of_gt (Nat.zero_lt_of_lt enough))
    have read := first (depth + 1) fuel _ (separates_outer depth (']' :: rest)) (by omega)
    exact items_last read (skipSpace_outer depth rfl rest)
  | @cons v' w' vs ws second _ ih =>
    obtain ⟨fuel, rfl⟩ := Nat.exists_eq_succ_of_ne_zero (Nat.ne_of_gt (Nat.zero_lt_of_lt enough))
    rw [writeItems] at enough ⊢
    simp only [List.append_assoc, List.cons_append, List.nil_append, List.length_cons, List.length_append] at enough ⊢
    have further := ih second fuel (by omega)
    obtain ⟨c, more, head, shown, _⟩ := second.head (depth + 1)
    refine items_more (first (depth + 1) fuel _ (separates_comma _) (by omega)) rfl ?_
    rw [head, List.cons_append] at further ⊢
    rw [show skipSpace (indented.inner depth ++ c :: _) = _ from skipSpace_layout _ shown _]
    exact further

theorem quote_append (t rest : Text) : quote t ++ rest = '"' :: (t.flatMap escapeChar ++ '"' :: rest) := by
  simp [quote]

theorem length_le_escaped (t : Text) : t.length ≤ (t.flatMap escapeChar).length := by
  induction t with
  | nil => exact Nat.le_refl _
  | cons c t ih =>
    have one : 0 < (escapeChar c).length := by
      unfold escapeChar
      split <;> try decide
      dsimp only
      split
      · exact Nat.zero_lt_one
      · split <;> simp [unitEscape]
    rw [List.flatMap_cons, List.length_append, List.length_cons]
    omega

theorem stringBody_closed (t rest : Text) :
    stringBody ((t.flatMap escapeChar ++ '"' :: rest).length + 1) (t.flatMap escapeChar ++ '"' :: rest) = some (t, rest) := by
  have longer := length_le_escaped t
  refine stringBody_quoted t rest ?_
  rw [List.length_append]
  omega

theorem member_written (reads : Reads v w) (k : Key)
    (depth fuel : Nat) {rest : Text} (ends : Text.Separates rest)
    (enough : (write indented depth v).length < fuel) :
    Member fuel (quote (keyText k) ++ (indented.colon ++ (write indented depth v ++ rest))) (keyText k) w rest := by
  obtain ⟨c, more, head, shown, _⟩ := reads.head depth
  have read := reads depth fuel rest ends enough
  refine ⟨_, _, ' ' :: (write indented depth v ++ rest), quote_append _ _, stringBody_closed _ _, rfl, ?_⟩
  rw [head] at read ⊢
  rw [skipSpace, List.dropWhile_cons_of_pos rfl, List.cons_append, List.dropWhile_cons_of_neg (by simp [shown])]
  exact read

theorem members_written {k : Key} {es ms : List (Key × Value)} (first : Reads v w)
    (others : List.Forall₂ (fun e m => m.1 = .text (keyText e.1) ∧ Reads e.2 m.2) es ms)
    (depth fuel : Nat) (rest : Text)
    (enough : (write indented (depth + 1) v).length + (writeMembers indented depth es).length + 1 < fuel) :
    members fuel (quote (keyText k) ++ (indented.colon ++ (write indented (depth + 1) v ++
      (writeMembers indented depth es ++ (indented.outer depth ++ '}' :: rest))))) =
      .ok ((.text (keyText k), w) :: ms, rest) := by
  induction others generalizing k v w fuel with
  | nil =>
    obtain ⟨fuel, rfl⟩ := Nat.exists_eq_succ_of_ne_zero (Nat.ne_of_gt (Nat.zero_lt_of_lt enough))
    have one := member_written first k (depth + 1) fuel (separates_outer depth ('}' :: rest)) (by omega)
    exact members_last one (skipSpace_outer depth rfl rest)
  | @cons e m es ms second _ ih =>
    obtain ⟨fuel, rfl⟩ := Nat.exists_eq_succ_of_ne_zero (Nat.ne_of_gt (Nat.zero_lt_of_lt enough))
    obtain ⟨k', v'⟩ := e
    obtain ⟨name, w'⟩ := m
    obtain ⟨rfl, second⟩ := second
    dsimp only at second
    rw [writeMembers] at enough ⊢
    simp only [List.append_assoc, List.cons_append, List.nil_append, List.length_cons, List.length_append] at enough ⊢
    have further := ih (k := k') second fuel (by omega)
    refine members_more (member_written first k _ fuel (separates_comma _) (by omega)) rfl ?_
    rw [quote_append] at further ⊢
    rw [show skipSpace (indented.inner depth ++ '"' :: _) = _ from skipSpace_layout _ rfl _]
    exact further

def Stored : Nat → Value → Value → Prop
  | n + 1, .list vs, .list ws => List.Forall₂ (Stored n) vs ws
  | n + 1, .dict es, .dict fs => ∃ ms, fs = Entries.ofPairs ms ∧
      List.Forall₂ (fun e m => m.1 = .text (keyText e.1) ∧ Stored n e.2 m.2) es ms
  | _, .float d, .float e => d = e ∧ (d.isNaN = true → d = .nan)
  | _, .int i, .int j => i = j ∧ Text.isTooLong i = false
  | _, .text t, .text u => t = u
  | _, .bool b, .bool c => b = c
  | _, .null, .null => True
  | _, _, _ => False

theorem Stored.reads (stored : Stored n v w) : Reads v w := by
  induction n using Nat.strongRecOn generalizing v w with
  | ind n ih =>
    intro depth fuel rest ends enough
    obtain ⟨fuel, rfl⟩ := Nat.exists_eq_succ_of_ne_zero (Nat.ne_of_gt (Nat.zero_lt_of_lt enough))
    unfold Stored at stored
    split at stored
    · rename_i n vs ws
      have inner := stored.imp fun v w stored => ih n (by omega) stored
      cases inner with
      | nil =>
        rw [write]
        exact (value_empty rest).1
      | cons first others =>
        rw [write] at enough ⊢
        simp only [append_assoc, cons_append, nil_append, length_cons, length_append] at enough ⊢
        obtain ⟨c, more, head, shown, other⟩ := first.head (depth + 1)
        have read := items_written first others depth fuel rest (by omega)
        rw [head] at read ⊢
        exact value_list (skipSpace_layout _ shown _) other read
    · rename_i n es fs
      obtain ⟨ms, rfl, stored⟩ := stored
      have inner := stored.imp fun e m both => (⟨both.1, ih n (by omega) both.2⟩ : m.1 = .text (keyText e.1) ∧ Reads e.2 m.2)
      cases inner with
      | nil =>
        rw [write]
        exact (value_empty rest).2
      | @cons e m es ms first others =>
        obtain ⟨k, v⟩ := e
        obtain ⟨name, w⟩ := m
        obtain ⟨rfl, first⟩ := first
        dsimp only at first
        rw [write] at enough ⊢
        simp only [append_assoc, cons_append, nil_append, length_cons, length_append] at enough ⊢
        have read := members_written (k := k) first others depth fuel rest (by omega)
        rw [quote_append] at read ⊢
        exact value_dict (skipSpace_layout _ rfl _) (by decide) read
    · obtain ⟨rfl, canonical⟩ := stored
      rw [write]
      exact value_floatText canonical ends fuel
    · obtain ⟨rfl, short⟩ := stored
      rw [write]
      exact value_ofInt short ends fuel
    · subst stored
      rw [write, quote_append, value, stringBody_closed]
      rfl
    · rename_i b _
      subst stored
      rw [write]
      cases b <;> rfl
    · rw [write]
      rfl
    · cases stored

theorem read_pretty (stored : Stored n v w) : read (pretty v ++ ['\n']) = .ok w := by
  unfold pretty
  obtain ⟨c, more, head, shown, _⟩ := stored.reads.head 0
  have ends : Text.Separates ['\n'] := by
    rintro c ⟨⟩
    exact .inr rfl
  have found := stored.reads 0 (2 * (write indented 0 v ++ ['\n']).length + 2) ['\n'] ends (by rw [length_append]; omega)
  have start : skipSpace (write indented 0 v ++ ['\n']) = write indented 0 v ++ ['\n'] := by
    rw [head, cons_append, skipSpace, dropWhile_cons_of_neg (by simp [shown])]
  rw [read, start, found]
  rfl

end ModuleSplit.Json
