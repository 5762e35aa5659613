import Mathlib
import QueryForecast.Numeric.ExactValue

/-!
# Doubles taken apart

Lean defines arithmetic on doubles by taking the bit pattern apart, computing on sign, mantissa and
exponent, and packing the result again. Here packing is shown to lose nothing but the range, so that
an operation on doubles can be read as the operation on their parts.

* `unpacked` — a double taken apart.
* `unpack_eq_fields` — the parts in terms of the fields of the bit pattern.
* `Fits` — mantissa and exponent are as a double has them, apart from the largest exponent.
* `settled` — what is left after packing: past the range of doubles it is infinite.
* `unpack_pack` — packing what fits and taking it apart again gives `settled`.
* `fits_unpacked` / `settled_unpacked` — a double taken apart fits, and is in range.
-/

namespace QueryForecast.Numeric

open Float.Model Float.Model.UnpackedFloat

/-- The layout of a double. -/
abbrev double : Format := Format.binary64

/-- A double taken apart. -/
def unpacked (x : Float) : UnpackedFloat :=
  x.toModel.unpack

/-! ## Fields -/

theorem toNat_unpackMantissa (b : BitVec 64) :
    (@unpackMantissa double b).toNat = b.toNat % 0x10000000000000 := by
  simp [unpackMantissa, BitVec.extractLsb]

theorem toNat_unpackExponent (b : BitVec 64) :
    (@unpackExponent double b).toNat = b.toNat / 0x10000000000000 % 2048 := by
  simp [unpackExponent, BitVec.extractLsb, Nat.shiftRight_eq_div_pow]

theorem toNat_unpackSign (b : BitVec 64) :
    (@unpackSign double b).toNat = b.toNat / 0x8000000000000000 := by
  have hb := b.isLt
  simp [unpackSign, BitVec.extractLsb, Nat.shiftRight_eq_div_pow]
  omega

/-- The sign that a bit stands for. -/
def signOf (negative : Bool) : Sign :=
  if negative then .negative else .positive

theorem ofBitVec_unpackSign (b : BitVec 64) :
    Sign.ofBitVec (@unpackSign double b) =
      signOf (decide (0x8000000000000000 ≤ b.toNat)) := by
  have hb := b.isLt
  have hs := toNat_unpackSign b
  unfold Sign.ofBitVec signOf
  by_cases h : 0x8000000000000000 ≤ b.toNat
  · rw [if_neg, if_pos (by simpa using h)]
    intro h0
    rw [h0] at hs
    simp at hs
    omega
  · rw [if_pos, if_neg (by simpa using h)]
    apply BitVec.eq_of_toNat_eq
    rw [hs]
    simp
    omega

/-- The parts of a bit pattern, read off its fields. -/
def ofFields (s : Sign) (exponent fraction : Nat) : UnpackedFloat :=
  if exponent = 2047 then if fraction = 0 then .infinity s else .notANumber
  else if exponent = 0 then
    if h : fraction = 0 then .zero s else .finite s fraction (-1074) (Nat.pos_of_ne_zero h)
  else .finite s (0x10000000000000 + fraction) (exponent - 1075) (by omega)

theorem finite_congr {s : Sign} {m n : Nat} {e d : Int} {hm : 0 < m} {hn : 0 < n}
    (h : m = n) (he : e = d) : UnpackedFloat.finite s m e hm = .finite s n d hn := by
  subst h he
  rfl

theorem unpack_eq_fields (b : BitVec 64) :
    UnpackedFloat.unpack double b =
      ofFields (signOf (decide (0x8000000000000000 ≤ b.toNat)))
        (b.toNat / 0x10000000000000 % 2048) (b.toNat % 0x10000000000000) := by
  have hm := toNat_unpackMantissa b
  have he := toNat_unpackExponent b
  have hm0 : @unpackMantissa double b = 0#_ ↔ b.toNat % 0x10000000000000 = 0 := by
    rw [← BitVec.toNat_inj, hm]; simp
  have he0 : @unpackExponent double b = 0#_ ↔
      b.toNat / 0x10000000000000 % 2048 = 0 := by
    rw [← BitVec.toNat_inj, he]; simp
  have he1 : @unpackExponent double b = -1#_ ↔
      b.toNat / 0x10000000000000 % 2048 = 2047 := by
    rw [← BitVec.toNat_inj, he]; simp
  have hi : (1#1 ++ @unpackMantissa double b).toNat =
      0x10000000000000 + b.toNat % 0x10000000000000 := by
    rw [BitVec.toNat_append, ← Nat.shiftLeft_add_eq_or_of_lt (BitVec.isLt _), hm]
    rfl
  unfold UnpackedFloat.unpack ofFields
  dsimp only
  rw [ofBitVec_unpackSign]
  by_cases h1 : b.toNat / 0x10000000000000 % 2048 = 2047
  · rw [if_pos h1, if_pos (he1.2 h1)]
    by_cases h2 : b.toNat % 0x10000000000000 = 0
    · rw [if_pos h2, if_pos (hm0.2 h2)]
    · rw [if_neg h2, if_neg (mt hm0.1 h2)]
  · rw [if_neg h1, if_neg (mt he1.1 h1)]
    by_cases h2 : b.toNat / 0x10000000000000 % 2048 = 0
    · rw [if_pos h2, if_pos (he0.2 h2)]
      by_cases h3 : b.toNat % 0x10000000000000 = 0
      · rw [dif_pos h3, dif_pos (hm0.2 h3)]
      · rw [dif_neg h3, dif_neg (mt hm0.1 h3)]
        exact finite_congr hm (by rw [he, h2]; rfl)
    · rw [if_neg h2, if_neg (mt he0.1 h2)]
      exact finite_congr hi (by rw [he]; rfl)

/-! ## Packing -/

/-- Mantissa and exponent are as a double has them, apart from the largest exponent. -/
def Fits : UnpackedFloat → Prop
  | .finite _ m e _ =>
    m < 0x20000000000000 ∧ -1074 ≤ e ∧ (0x10000000000000 ≤ m ∨ e = -1074)
  | _ => True

/-- What packing leaves: a number past the range of doubles becomes infinite. -/
def settled : UnpackedFloat → UnpackedFloat
  | .finite s m e h => if 971 < e then .infinity s else .finite s m e h
  | f => f

/-- The weight of a sign in a bit pattern. -/
def signWeight : Sign → Nat
  | .negative => 0x8000000000000000
  | .positive => 0

theorem signOf_signWeight (s : Sign) {n : Nat} (h : n < 0x8000000000000000) :
    signOf (decide (0x8000000000000000 ≤ signWeight s + n)) = s := by
  cases s with
  | negative => simp [signOf, signWeight]
  | positive =>
    rw [signOf, if_neg]
    simpa [signWeight] using h

theorem toNat_packComponents (s : Sign) (e : BitVec 11) (m : BitVec 52) :
    (packComponents double s e m).toNat =
      signWeight s + (e.toNat * 0x10000000000000 + m.toNat) := by
  have hs : s.toBitVec.toNat * 0x8000000000000000 = signWeight s := by cases s <;> rfl
  unfold packComponents
  rw [BitVec.toNat_append, ← Nat.shiftLeft_add_eq_or_of_lt m.isLt, BitVec.toNat_append,
    ← Nat.shiftLeft_add_eq_or_of_lt e.isLt, Nat.shiftLeft_eq, Nat.shiftLeft_eq, ← hs,
    Nat.add_mul, Nat.mul_assoc, Nat.add_assoc]

/-- Components that are packed are the fields that are read. -/
theorem unpack_packComponents (s : Sign) {e m : Nat} (he : e < 2048) (hm : m < 0x10000000000000) :
    UnpackedFloat.unpack double (packComponents double s (BitVec.ofNat 11 e) (BitVec.ofNat 52 m)) =
      ofFields s e m := by
  have hn : (packComponents double s (BitVec.ofNat 11 e) (BitVec.ofNat 52 m)).toNat =
      signWeight s + (e * 0x10000000000000 + m) := by
    rw [toNat_packComponents, BitVec.toNat_ofNat, BitVec.toNat_ofNat, Nat.mod_eq_of_lt he,
      Nat.mod_eq_of_lt hm]
  rw [unpack_eq_fields, hn, signOf_signWeight s (by omega)]
  congr 1
  · cases s <;> simp only [signWeight] <;> omega
  · cases s <;> simp only [signWeight] <;> omega

theorem log2_eq_of_lt {m : Nat} (hl : 0x10000000000000 ≤ m) (hu : m < 0x20000000000000) :
    m.log2 = 52 :=
  (Nat.log2_eq_iff (by omega)).2 ⟨hl, hu⟩

theorem log2_lt_of_lt {m : Nat} (hu : m < 0x10000000000000) : m.log2 < 52 := by
  by_cases h : m = 0
  · subst h
    decide
  · exact (Nat.log2_lt h).2 hu

/-- **Packing loses nothing but the range.** -/
theorem unpack_pack {f : UnpackedFloat} (h : Fits f) :
    UnpackedFloat.unpack double (UnpackedFloat.pack double f) = settled f := by
  cases f with
  | infinity s => exact unpack_packComponents s (by omega : 2047 < 2048) (by omega : 0 < _)
  | notANumber =>
    exact unpack_packComponents .positive (by omega : 2047 < 2048)
      (by omega : 0x8000000000000 < _)
  | zero s => exact unpack_packComponents s (by omega : 0 < 2048) (by omega : 0 < _)
  | finite s m e hm =>
    obtain ⟨hu, hl, hc⟩ := h
    have hb : (e + (double.exponentBias : Int) + (double.mantissaBitsWithoutImplicit : Int)).toNat =
        (e + 1075).toNat := by
      congr 1
      rw [Int.add_assoc]
      rfl
    unfold UnpackedFloat.pack settled
    dsimp only
    rw [hb]
    by_cases hr : 971 < e
    · rw [if_pos (show 2 ^ double.exponentBits ≤ (e + 1075).toNat + 1 by
        change 2048 ≤ _; omega), if_pos hr]
      exact unpack_packComponents s (by omega : 2047 < 2048) (by omega : 0 < _)
    · rw [if_neg (show ¬ 2 ^ double.exponentBits ≤ (e + 1075).toNat + 1 by
        change ¬ 2048 ≤ _; omega), if_neg hr]
      by_cases hn : 0x10000000000000 ≤ m
      · rw [if_pos (show m.log2 + 1 = double.mantissaBits by rw [log2_eq_of_lt hn hu]; rfl)]
        have hm' : BitVec.ofNat 52 m = BitVec.ofNat 52 (m - 0x10000000000000) := by
          apply BitVec.eq_of_toNat_eq
          simp only [BitVec.toNat_ofNat]
          omega
        rw [show BitVec.ofNat double.mantissaBitsWithoutImplicit m = BitVec.ofNat 52 m from rfl, hm']
        refine (unpack_packComponents s (e := (e + 1075).toNat) (by omega) (by omega)).trans ?_
        unfold ofFields
        rw [if_neg (by omega), if_neg (by omega)]
        exact finite_congr (by omega) (by omega)
      · have hlog := log2_lt_of_lt (Nat.lt_of_not_le hn)
        rw [if_neg (show ¬ m.log2 + 1 = double.mantissaBits by change ¬ _ = 53; omega)]
        refine (unpack_packComponents s (e := 0) (by omega) (Nat.lt_of_not_le hn)).trans ?_
        unfold ofFields
        rw [if_neg (by decide), if_pos rfl, dif_neg (by omega)]
        exact finite_congr rfl (by omega)

/-! ## Doubles -/

theorem fits_ofFields {s : Sign} {e m : Nat} (he : e < 2048) (hm : m < 0x10000000000000) :
    Fits (ofFields s e m) ∧ settled (ofFields s e m) = ofFields s e m := by
  unfold ofFields
  split
  · split
    · exact ⟨trivial, rfl⟩
    · exact ⟨trivial, rfl⟩
  · split
    · split
      · exact ⟨trivial, rfl⟩
      · exact ⟨⟨by omega, by omega, .inr rfl⟩, by rw [settled, if_neg (by omega)]⟩
    · exact ⟨⟨by omega, by omega, .inl (by omega)⟩, by rw [settled, if_neg (by omega)]⟩

theorem unpacked_eq (x : Float) :
    unpacked x = ofFields (signOf (signBit x)) (exponentField x) (fractionField x) :=
  unpack_eq_fields x.toModel.toBits.toBitVec

theorem exponentField_lt (x : Float) : exponentField x < 2048 :=
  Nat.mod_lt _ (by omega)

theorem fractionField_lt (x : Float) : fractionField x < 0x10000000000000 :=
  Nat.mod_lt _ (by omega)

theorem fits_unpacked (x : Float) : Fits (unpacked x) := by
  rw [unpacked_eq]
  exact (fits_ofFields (exponentField_lt x) (fractionField_lt x)).1

theorem settled_unpacked (x : Float) : settled (unpacked x) = unpacked x := by
  rw [unpacked_eq]
  exact (fits_ofFields (exponentField_lt x) (fractionField_lt x)).2

/-- The double that is packed from some parts. -/
def packed (f : UnpackedFloat) : Float :=
  .ofModel (.pack f)

theorem unpacked_packed {f : UnpackedFloat} (h : Fits f) : unpacked (packed f) = settled f :=
  unpack_pack h

theorem unpacked_ofBits (b : UInt64) :
    unpacked (Float.ofBits b) =
      ofFields (signOf (decide (0x8000000000000000 ≤ b.toNat)))
        (b.toNat / 0x10000000000000 % 2048) (b.toNat % 0x10000000000000) := by
  obtain ⟨hf, hs⟩ := fits_ofFields (s := signOf (decide (0x8000000000000000 ≤ b.toNat)))
    (Nat.mod_lt (b.toNat / 0x10000000000000) (by omega : 0 < 2048))
    (Nat.mod_lt b.toNat (by omega : 0 < 0x10000000000000))
  have hb := unpack_eq_fields b.toBitVec
  rw [show b.toBitVec.toNat = b.toNat from rfl] at hb
  rw [← hb] at hf hs ⊢
  rw [← hs]
  exact unpacked_packed hf

end QueryForecast.Numeric
