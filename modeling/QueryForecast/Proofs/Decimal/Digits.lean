import Mathlib.Algebra.Group.Nat.Defs
import Mathlib.Data.List.TakeDrop
import QueryForecast.Decimal.Reading

/-!
# Digits

* `valueOf_digitsOf` — the digits of a number denote it.
* `valueOf_lt` — a run of digits denotes no more than its length has room for.
* `pow_le_of_length_digitsOf`, `lt_pow_length_digitsOf` — how many digits a number has.
* `head?_digitsOf` — there is no zero in front.
* `takeDigits_append` — a run of digits is read up to what is not a digit.
-/

namespace QueryForecast.Decimal

theorem isDigit_of_mem_digitsOf {n : Nat} {c : Char} (h : c ∈ digitsOf n) : c.isDigit = true :=
  Nat.isDigit_of_mem_toDigits (by decide) (by decide) h

theorem digitsOf_ne_nil (n : Nat) : digitsOf n ≠ [] :=
  Nat.toDigits_ne_nil

theorem length_digitsOf_pos (n : Nat) : 0 < (digitsOf n).length :=
  Nat.length_toDigits_pos

/-! ## Values -/

theorem valueOf_eq (digits : List Char) : valueOf digits = Nat.ofDigitChars 10 digits 0 :=
  rfl

/-- **The digits of a number denote it.** -/
theorem valueOf_digitsOf (n : Nat) : valueOf (digitsOf n) = n :=
  Nat.ofDigitChars_ten_toDigits

theorem valueOf_append (ds es : List Char) :
    valueOf (ds ++ es) = valueOf ds * 10 ^ es.length + valueOf es := by
  rw [valueOf_eq, Nat.ofDigitChars_append, Nat.ofDigitChars_eq_ofDigitChars_zero, Nat.mul_comm]
  rfl

theorem valueOf_zeros (n : Nat) : valueOf (List.replicate n '0') = 0 := by
  rw [valueOf_eq, Nat.ofDigitChars_replicate_zero, Nat.mul_zero]

/-- A run of digits denotes a number that its length bounds. -/
theorem valueOf_lt {ds : List Char} (h : ∀ c ∈ ds, c.isDigit = true) :
    valueOf ds < 10 ^ ds.length := by
  induction ds with
  | nil => exact Nat.one_pos
  | cons c ds ih =>
    rw [List.forall_mem_cons] at h
    have hc : 48 ≤ c.toNat ∧ c.toNat ≤ 57 := Char.isDigit_iff_toNat.1 h.1
    have hfirst : valueOf [c] ≤ 9 := by
      show 10 * 0 + (c.toNat - 48) ≤ 9
      omega
    have hsplit := valueOf_append [c] ds
    have hle := Nat.mul_le_mul_right (10 ^ ds.length) hfirst
    have hds := ih h.2
    rw [List.singleton_append] at hsplit
    rw [List.length_cons, Nat.pow_succ]
    omega

/-! ## Lengths -/

theorem lt_pow_length_digitsOf (n : Nat) : n < 10 ^ (digitsOf n).length :=
  (Nat.length_toDigits_le_iff (by decide) (length_digitsOf_pos n)).1 (Nat.le_refl _)

theorem length_digitsOf_le {n k : Nat} (hk : 0 < k) (h : n < 10 ^ k) : (digitsOf n).length ≤ k :=
  (Nat.length_toDigits_le_iff (by decide) hk).2 h

theorem pow_le_of_length_digitsOf {n : Nat} (h : n ≠ 0) : 10 ^ ((digitsOf n).length - 1) ≤ n := by
  by_cases hl : (digitsOf n).length = 1
  · rw [hl]
    exact Nat.pos_of_ne_zero h
  · by_contra hc
    have hpos := length_digitsOf_pos n
    have := length_digitsOf_le (by omega) (Nat.lt_of_not_le hc)
    omega

/-! ## Leading digits -/

theorem digitsOf_of_lt {n : Nat} (h : n < 10) : digitsOf n = [n.digitChar] :=
  Nat.toDigits_of_lt_base h

/-- A number other than zero has no zero in front of its digits. -/
theorem head?_digitsOf {n : Nat} (h : n ≠ 0) : (digitsOf n).head? ≠ some '0' := by
  induction n using Nat.strongRecOn with
  | ind n ih =>
    by_cases hn : n < 10
    · rw [digitsOf_of_lt hn, List.head?_cons]
      intro hc
      have hv : valueOf [n.digitChar] = 0 := by rw [Option.some.inj hc]; rfl
      rw [← digitsOf_of_lt hn, valueOf_digitsOf] at hv
      exact h hv
    · have hd : digitsOf n = digitsOf (n / 10) ++ [(n % 10).digitChar] :=
        Nat.toDigits_of_base_le (by decide) (Nat.le_of_not_lt hn)
      have hh := ih (n / 10) (by omega) (by omega)
      cases hds : digitsOf (n / 10) with
      | nil => exact absurd hds (digitsOf_ne_nil _)
      | cons d ds =>
        rw [hd, hds, List.cons_append, List.head?_cons]
        rwa [hds, List.head?_cons] at hh

/-! ## Runs -/

/-- A text does not start with a digit. -/
def NoDigitAhead (text : List Char) : Prop :=
  ∀ c ∈ text.head?, c.isDigit = false

theorem noDigitAhead_cons {c : Char} {text : List Char} (h : c.isDigit = false) :
    NoDigitAhead (c :: text) := by
  intro d hd
  cases hd
  exact h

/-- **A run of digits is read up to what is not a digit.** -/
theorem takeDigits_append {ds rest : List Char} (hd : ∀ c ∈ ds, c.isDigit = true)
    (hr : NoDigitAhead rest) : takeDigits (ds ++ rest) = (ds, rest) := by
  unfold takeDigits
  rw [List.span_eq_takeWhile_dropWhile, List.takeWhile_append_of_pos hd,
    List.dropWhile_append_of_pos hd]
  cases rest with
  | nil => rw [List.takeWhile_nil, List.dropWhile_nil, List.append_nil]
  | cons c rest =>
    have hc : ¬ c.isDigit = true := by
      rw [hr c rfl]
      decide
    rw [List.takeWhile_cons_of_neg hc, List.dropWhile_cons_of_neg hc, List.append_nil]

theorem takeWhile_isDigit_append {ds rest : List Char} (hd : ∀ c ∈ ds, c.isDigit = true)
    (hr : NoDigitAhead rest) : (ds ++ rest).takeWhile Char.isDigit = ds := by
  have h := takeDigits_append hd hr
  unfold takeDigits at h
  rw [List.span_eq_takeWhile_dropWhile] at h
  exact (Prod.mk.inj h).1

end QueryForecast.Decimal
