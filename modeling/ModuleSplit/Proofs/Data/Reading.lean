import ModuleSplit.Proofs.Config.Precedence
import ModuleSplit.Proofs.Data.Json

namespace ModuleSplit

open List Option

namespace Entries

variable {a : Entries} {key : Key} {v : Value}

theorem mem_put {e : Key × Value} (member : e ∈ put a key v) : e ∈ a ∨ (e.1.identity = key.identity ∧ e.2 = v) := by
  induction a with
  | nil =>
    rw [mem_singleton.mp member]
    exact .inr ⟨rfl, rfl⟩
  | cons first rest ih =>
    rw [put] at member
    split at member
    · rename_i same
      rcases mem_cons.mp member with rfl | later
      · exact .inr ⟨same, rfl⟩
      · exact .inl (mem_cons_of_mem _ later)
    · rcases mem_cons.mp member with rfl | later
      · exact .inl mem_cons_self
      · exact (ih later).imp (mem_cons_of_mem _) id

theorem putAll_spec (pairs : List (Key × Value)) (nodup : (ids a).Nodup) :
    (ids (pairs.foldl (fun entries p => put entries p.1 p.2) a)).Nodup ∧
      ∀ e ∈ pairs.foldl (fun entries p => put entries p.1 p.2) a, e ∈ a ∨ ∃ p ∈ pairs, e.1.identity = p.1.identity ∧ e.2 = p.2 := by
  induction pairs generalizing a with
  | nil => exact ⟨nodup, fun e member => .inl member⟩
  | cons first rest ih =>
    obtain ⟨distinct, origin⟩ := ih (nodup_put nodup first.1 first.2)
    refine ⟨distinct, fun e member => ?_⟩
    rcases origin e member with earlier | ⟨p, later, same⟩
    · rcases mem_put earlier with old | same
      · exact .inl old
      · exact .inr ⟨first, mem_cons_self, same⟩
    · exact .inr ⟨p, mem_cons_of_mem _ later, same⟩

theorem putAll_new (pairs : List (Key × Value)) (nodup : (ids pairs).Nodup)
    (new : ∀ e ∈ pairs, e.1.identity ∉ ids a) : pairs.foldl (fun entries p => put entries p.1 p.2) a = a ++ pairs := by
  induction pairs generalizing a with
  | nil => exact (append_nil a).symm
  | cons first rest ih =>
    obtain ⟨apart, nodup⟩ := nodup_cons.mp nodup
    rw [forall_mem_cons] at new
    rw [foldl_cons, put_new new.1, ih nodup, append_assoc]
    · rfl
    · intro e member old
      rw [ids_append, mem_append] at old
      rcases old with old | last
      · exact new.2 e member old
      · have same : e.1.identity = first.1.identity := mem_singleton.mp last
        have there : e.1.identity ∈ ids rest := mem_ids member
        rw [same] at there
        exact apart there

theorem ofPairs_nodup (pairs : List (Key × Value)) : (ids (ofPairs pairs)).Nodup :=
  (putAll_spec (a := []) pairs .nil).1

theorem mem_ofPairs {pairs : List (Key × Value)} {e : Key × Value} (member : e ∈ ofPairs pairs) :
    ∃ p ∈ pairs, e.1.identity = p.1.identity ∧ e.2 = p.2 :=
  ((putAll_spec (a := []) pairs .nil).2 e member).resolve_left not_mem_nil

theorem ofPairs_eq (nodup : (ids a).Nodup) : ofPairs a = a :=
  putAll_new (a := []) a nodup fun _ _ => not_mem_nil

end Entries

namespace Json

variable {v : Value} {t rest : Text}

def Canonical : Nat → Value → Prop
  | n + 1, .list vs => ∀ v ∈ vs, Canonical n v
  | n + 1, .dict es => (Entries.ids es).Nodup ∧ ∀ e ∈ es, e.1 = .text (keyText e.1) ∧ Canonical n e.2
  | _, .float d => d.isNaN = true → d = .nan
  | _, .int i => Text.isTooLong i = false
  | _, .text _ | _, .bool _ | _, .null => True
  | _, _ => False

theorem Canonical.mono {n : Nat} (settled : Canonical n v) : Canonical (n + 1) v := by
  induction n using Nat.strongRecOn generalizing v with
  | ind n ih =>
    unfold Canonical at settled ⊢
    split at settled
    case h_1 => exact fun v member => ih _ (Nat.lt_succ_self _) (settled v member)
    case h_2 =>
      exact ⟨settled.1, fun e member => ⟨(settled.2 e member).1, ih _ (Nat.lt_succ_self _) (settled.2 e member).2⟩⟩
    case h_8 => cases settled
    all_goals exact settled

theorem Canonical.stored {n : Nat} (settled : Canonical n v) : Stored n v v := by
  induction n using Nat.strongRecOn generalizing v with
  | ind n ih =>
    unfold Canonical at settled
    split at settled
    case h_8 => cases settled
    all_goals rw [Stored]
    · exact forall₂_same.mpr fun v member => ih _ (Nat.lt_succ_self _) (settled v member)
    · refine ⟨_, (Entries.ofPairs_eq settled.1).symm, forall₂_same.mpr fun e member => ?_⟩
      exact ⟨(settled.2 e member).1, ih _ (Nat.lt_succ_self _) (settled.2 e member).2⟩
    · exact ⟨rfl, settled⟩
    · exact ⟨rfl, settled⟩
    · trivial

theorem canonical_word (read : word? t = some (v, rest)) (n : Nat) : Canonical n v := by
  have word : v ∈ [.null, .bool true, .bool false, .float .nan, .float (.infinity false), .float (.infinity true)] := by
    simp only [word?, orElse_eq_orElse, orElse_eq_or, or_eq_some_iff, map_eq_some_iff, Prod.mk.injEq] at read
    grind
  simp only [mem_cons, not_mem_nil, or_false] at word
  rcases word with rfl | rfl | rfl | rfl | rfl | rfl
  all_goals
    rw [Canonical]
    decide

theorem isTooLong_signed (negative : Bool) (i : Int) : Text.isTooLong (if negative then -i else i) = Text.isTooLong i := by
  rw [← isTooLong_natAbs, ← isTooLong_natAbs i]
  cases negative with
  | false => rfl
  | true => rw [if_pos rfl, Int.natAbs_neg]

theorem canonical_number (read : number t = .ok (v, rest)) (n : Nat) : Canonical n v := by
  unfold number at read
  obtain ⟨⟨m, left⟩, _, read⟩ := Result.bind_ok.mp read
  dsimp only at read
  split at read
  · split at read
    · cases read
    · rename_i short
      obtain ⟨rfl, rfl⟩ := Prod.mk.inj (Except.ok.inj read)
      rw [Canonical, isTooLong_signed]
      simpa using short
  · cases read
    rw [Canonical, Numeral.toDouble, Double.not_nan_ofDecimal]
    exact fun nan => absurd nan Bool.false_ne_true

-- A value is nested no deeper than its reading, which the fuel bounds.
theorem canonical_value (fuel : Nat) :
    (∀ t v rest, value fuel t = .ok (v, rest) → ∀ n, fuel ≤ n → Canonical n v) ∧
    (∀ t vs rest, items fuel t = .ok (vs, rest) → ∀ n, fuel ≤ n → ∀ v ∈ vs, Canonical n v) ∧
    ∀ t ms rest, members fuel t = .ok (ms, rest) → ∀ n, fuel ≤ n →
      ∀ m ∈ ms, m.1 = .text (keyText m.1) ∧ Canonical n m.2 := by
  induction fuel with
  | zero =>
    refine ⟨?_, ?_, ?_⟩ <;> intro t v rest read
    · unfold value at read
      cases read
    · unfold items at read
      cases read
    · unfold members at read
      cases read
  | succ fuel ih =>
    obtain ⟨ihValue, ihItems, ihMembers⟩ := ih
    refine ⟨?_, ?_, ?_⟩ <;> intro t v rest read n deep
    · unfold value at read
      split at read
      · obtain ⟨⟨name, left⟩, _, read⟩ := Result.bind_ok.mp read
        cases read
        rw [Canonical]
        trivial
      · obtain ⟨n, rfl⟩ := Nat.exists_eq_add_of_le' (Nat.le_of_add_left_le deep)
        split at read
        · cases read
          exact fun v member => absurd member not_mem_nil
        · obtain ⟨⟨vs, left⟩, all, read⟩ := Result.bind_ok.mp read
          cases read
          exact ihItems _ vs _ all n (by omega)
      · obtain ⟨n, rfl⟩ := Nat.exists_eq_add_of_le' (Nat.le_of_add_left_le deep)
        split at read
        · cases read
          exact ⟨.nil, fun e member => absurd member not_mem_nil⟩
        · obtain ⟨⟨ms, left⟩, all, read⟩ := Result.bind_ok.mp read
          cases read
          refine ⟨Entries.ofPairs_nodup ms, fun e member => ?_⟩
          obtain ⟨p, listed, same, value⟩ := Entries.mem_ofPairs member
          obtain ⟨name, settled⟩ := ihMembers _ ms _ all n (by omega) p listed
          rw [name] at same
          rw [Key.identity_eq_text.mp same, value]
          exact ⟨rfl, settled⟩
      · split at read
        · cases read
          exact canonical_word ‹_› _
        · exact canonical_number read _
    · unfold items at read
      obtain ⟨⟨v, left⟩, first, read⟩ := Result.bind_ok.mp read
      have one := ihValue t v left first n (by omega)
      dsimp only at read
      split at read
      · obtain ⟨⟨vs, left⟩, later, read⟩ := Result.bind_ok.mp read
        cases read
        exact forall_mem_cons.mpr ⟨one, ihItems _ vs _ later n (by omega)⟩
      · cases read
        exact forall_mem_singleton.mpr one
      · cases read
    · unfold members at read
      split at read
      · obtain ⟨⟨name, left⟩, _, read⟩ := Result.bind_ok.mp read
        dsimp only at read
        split at read
        · obtain ⟨⟨v, left⟩, first, read⟩ := Result.bind_ok.mp read
          have one := ihValue _ v left first n (by omega)
          dsimp only at read
          split at read
          · obtain ⟨⟨ms, left⟩, later, read⟩ := Result.bind_ok.mp read
            cases read
            exact forall_mem_cons.mpr ⟨⟨rfl, one⟩, ihMembers _ ms _ later n (by omega)⟩
          · cases read
            exact forall_mem_singleton.mpr ⟨rfl, one⟩
          · cases read
        · cases read
      · cases read

theorem canonical_read (found : read t = .ok v) : ∃ least, ∀ n, least ≤ n → Canonical n v := by
  obtain ⟨⟨w, rest⟩, first, found⟩ := Result.bind_ok.mp found
  dsimp only at found
  split at found
  · cases found
    exact ⟨_, (canonical_value _).1 _ _ _ first⟩
  · cases found

end Json

end ModuleSplit
