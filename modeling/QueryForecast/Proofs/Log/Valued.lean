import QueryForecast.Proofs.Log.Legible
import QueryForecast.Proofs.Numeric.Whole

/-!
# Counts are read by value

A count may be written as a whole number or as a double, and its decoder looks at the number alone. It
cuts off the fraction and refuses what is below zero. A number past the width of the count is cut to the
greatest one of 64 bits, and refused for 32 bits.

* `Number.rational?` — the number that a JSON number stands for.
* `Json.count64?`, `Json.count32?` — the count that a number stands for, if any.
* `Json.asCount_num` — what a tolerant decoder makes of a number.
* `Json.counts_follow_values` — the decoders of both widths, and what follows for them.
-/

namespace QueryForecast

open Numeric

/-- The number that a JSON number stands for; an infinite or undefined double stands for none. -/
def Number.rational? : Number → Option ℚ
  | .whole n => some n
  | .real x => if x.isFinite then some (val x) else none

/-- A number as what was found where a count was expected. -/
def Number.found : Number → Found
  | .whole n => .integer n
  | .real x => .real x

namespace Json

/-- The count of 64 bits that a number stands for: rounded down, and no more than 64 bits hold. -/
def count64? (x : ℚ) : Option ℕ :=
  if 0 ≤ x then some (min ⌊x⌋₊ (2 ^ 64 - 1)) else none

/-- The count of 32 bits that a number stands for: rounded down, if 32 bits hold it. -/
def count32? (x : ℚ) : Option ℕ :=
  if 0 ≤ x ∧ ⌊x⌋₊ ≤ 2 ^ 32 - 1 then some ⌊x⌋₊ else none

variable {m n : Number} {x y : ℚ}

/-- **A number is read as a count by its value.** -/
theorem asCount_num (h : n.rational? = some x) : asCount (.num n) =
    if 0 ≤ x then .ok (some (min ⌊x⌋₊ maxCount)) else .error (.notACount n.found) := by
  cases n with
  | whole k =>
    obtain rfl : (k : ℚ) = x := Option.some.inj h
    show (if k < 0 then Except.error (DecodeFault.notACount (.integer k))
      else .ok (some (min k.toNat maxCount))) = _
    by_cases hk : k < 0
    · rw [if_pos hk, if_neg (by exact_mod_cast not_le.2 hk)]
      rfl
    · obtain ⟨c, rfl⟩ := Int.eq_ofNat_of_zero_le (not_lt.1 hk)
      rw [if_neg hk, if_pos (by positivity), Int.toNat_natCast, Int.cast_natCast, Nat.floor_natCast]
  | real z =>
    have hz : z.isFinite = true := by
      by_contra hz
      rw [Number.rational?, if_neg hz] at h
      cases h
    rw [Number.rational?, if_pos hz, Option.some_inj] at h
    subst h
    have hzero : 0.0 ≤ z ↔ 0 ≤ val z := by
      rw [le_iff_val_le val_zero.1 hz, val_zero.2]
    show (if z.isFinite ∧ 0.0 ≤ z then Except.ok (some (wholePart z))
      else .error (DecodeFault.notACount (.real z))) = _
    by_cases h0 : 0 ≤ val z
    · rw [if_pos ⟨hz, hzero.2 h0⟩, if_pos h0, wholePart_eq hz h0]
      rfl
    · rw [if_neg fun hc => h0 (hzero.1 hc.2), if_neg h0]
      rfl

theorem asCount64_num (h : n.rational? = some x) :
    (asCount64 (.num n)).toOption.map UInt64.toNat = count64? x := by
  unfold asCount64 count64?
  rw [asCount_num h]
  by_cases h0 : 0 ≤ x
  · have hlt : min ⌊x⌋₊ maxCount < UInt64.size := Nat.lt_succ_of_le (min_le_right _ _)
    rw [if_pos h0, if_pos h0]
    show some (UInt64.ofNat (min ⌊x⌋₊ maxCount)).toNat = _
    rw [UInt64.toNat_ofNat_of_lt' hlt]
    rfl
  · rw [if_neg h0, if_neg h0]
    rfl

theorem asCount32_num (h : n.rational? = some x) (absent : UInt32) :
    (asCount32 absent (.num n)).toOption.map UInt32.toNat = count32? x := by
  unfold asCount32 count32?
  rw [asCount_num h]
  by_cases h0 : 0 ≤ x
  · rw [if_pos h0]
    show (if min ⌊x⌋₊ maxCount < 0x100000000 then Except.ok (UInt32.ofNat (min ⌊x⌋₊ maxCount))
      else .error (.countTooLarge (min ⌊x⌋₊ maxCount)) : Decoded UInt32).toOption.map _ = _
    by_cases hw : ⌊x⌋₊ ≤ 2 ^ 32 - 1
    · have hlt : ⌊x⌋₊ < 0x100000000 := Nat.lt_succ_of_le hw
      rw [min_eq_left (hw.trans (by decide)), if_pos hlt, if_pos ⟨h0, hw⟩]
      show some (UInt32.ofNat ⌊x⌋₊).toNat = _
      rw [UInt32.toNat_ofNat_of_lt' hlt]
    · have hle : 0x100000000 ≤ min ⌊x⌋₊ maxCount := le_min (Nat.succ_le_of_lt (not_le.1 hw)) (by decide)
      rw [if_neg (not_lt.2 hle), if_neg fun hc => hw hc.2]
      rfl
  · rw [if_neg h0, if_neg fun hc => h0 hc.1]
    rfl

/-! ## What follows for the counts -/

/-- What was read without a fault is read with its value. -/
theorem toOption_eq_some {ε α : Type} {r : Except ε α} {a : α} : r.toOption = some a ↔ r = .ok a := by
  cases r with
  | error fault => simp [Except.toOption]
  | ok b => simp [Except.toOption]

theorem count64?_mono (h : x ≤ y) {c : ℕ} (hc : count64? x = some c) :
    ∃ d, count64? y = some d ∧ c ≤ d := by
  unfold count64? at hc ⊢
  split at hc
  · rename_i h0
    rw [← Option.some.inj hc]
    exact ⟨_, if_pos (h0.trans h), min_le_min (Nat.floor_mono h) (le_refl _)⟩
  · cases hc

theorem count32?_mono (h : x ≤ y) {c d : ℕ} (hc : count32? x = some c) (hd : count32? y = some d) :
    c ≤ d := by
  unfold count32? at hc hd
  split at hc
  · split at hd
    · rw [← Option.some.inj hc, ← Option.some.inj hd]
      exact Nat.floor_mono h
    · cases hd
  · cases hc

/-- **Counts are read by value.** A decoder of 64 bits takes the numbers from zero up, rounds them down,
and makes the greatest count of those past 64 bits; a decoder of 32 bits, whatever it takes for `null`,
refuses those that are past 32 bits. So two numbers of one value are read alike, and the greater of two
is not read as the smaller count. The text that a count is written as is read as that count again. -/
theorem counts_follow_values (hm : m.rational? = some x) (hn : n.rational? = some y) (absent : UInt32) :
    (asCount64 (.num m)).toOption.map UInt64.toNat = count64? x ∧
    (asCount32 absent (.num m)).toOption.map UInt32.toNat = count32? x ∧
    (x = y → (asCount64 (.num m)).toOption = (asCount64 (.num n)).toOption ∧
      (asCount32 absent (.num m)).toOption = (asCount32 absent (.num n)).toOption) ∧
    (x ≤ y → (∀ c, asCount64 (.num m) = .ok c → ∃ d, asCount64 (.num n) = .ok d ∧ c ≤ d) ∧
      ∀ c d, asCount32 absent (.num m) = .ok c → asCount32 absent (.num n) = .ok d → c ≤ d) ∧
    (∀ c : UInt64, (parse? (ofNat c.toNat).compact).map asCount64 = some (.ok c)) ∧
    ∀ c : UInt32, (parse? (ofNat c.toNat).compact).map (asCount32 absent) = some (.ok c) := by
  have h64 := asCount64_num hm
  have h32 := asCount32_num hm absent
  have h64' := asCount64_num hn
  have h32' := asCount32_num hn absent
  refine ⟨h64, h32, fun he => ?_, fun hle => ⟨fun c hc => ?_, fun c d hc hd => ?_⟩, fun c => ?_,
    fun c => ?_⟩
  · subst he
    exact ⟨Option.map_injective (fun _ _ => UInt64.toNat_inj.1) (h64.trans h64'.symm),
      Option.map_injective (fun _ _ => UInt32.toNat_inj.1) (h32.trans h32'.symm)⟩
  · rw [toOption_eq_some.2 hc] at h64
    obtain ⟨d, hd, hcd⟩ := count64?_mono hle h64.symm
    rw [hd, Option.map_eq_some_iff] at h64'
    obtain ⟨e, he, rfl⟩ := h64'
    exact ⟨e, toOption_eq_some.1 he, UInt64.le_iff_toNat_le.2 hcd⟩
  · rw [toOption_eq_some.2 hc] at h32
    rw [toOption_eq_some.2 hd] at h32'
    exact UInt32.le_iff_toNat_le.2 (count32?_mono hle h32.symm h32'.symm)
  · rw [parse?_compact_eq (legible_count c)]
    exact congrArg some (asCount64_toNat c)
  · rw [parse?_compact_eq (legible_count32 c)]
    exact congrArg some (asCount32_toNat absent c)

/-- Negative zero is the count zero, and a whole number may be past 32 bits. -/
theorem counts_follow_values_of_negative_zero :
    Number.rational? (.real (-0.0)) = some 0 ∧ Number.rational? (.whole 5000000000) = some 5000000000 ∧
      (asCount64 (.num (.real (-0.0)))).toOption.map UInt64.toNat = some 0 ∧
      (asCount32 1 (.num (.whole 5000000000))).toOption.map UInt32.toNat = none ∧
      ∃ c, asCount64 (.num (.whole 5000000000)) = .ok c ∧ 0 ≤ c := by
  have hm : Number.rational? (.real (-0.0)) = some 0 := by
    rw [Number.rational?, if_pos (by decide), val_neg, val_zero.2, neg_zero]
  have hn : Number.rational? (.whole 5000000000) = some 5000000000 := rfl
  obtain ⟨h64, -, -, hmono, -⟩ := counts_follow_values hm hn 1
  obtain ⟨-, h32, -⟩ := counts_follow_values hn hm 1
  refine ⟨hm, hn, h64.trans ?_, h32.trans ?_, (hmono (by norm_num)).1 0 (by decide +kernel)⟩
  · norm_num [count64?]
  · norm_num [count32?]

end Json

end QueryForecast
