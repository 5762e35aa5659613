import QueryForecast.Json.Parser
import QueryForecast.Json.Printer
import QueryForecast.Proofs.Decimal.Shortest

/-!
# Numbers are read back

A number is written as digits with an optional point and exponent, and followed by what ends it: a
comma, a bracket, a line break or the end of the text.

* `numberParts_text` — the parts of a numeral are read back from their text.
* `exists_writes_magnitude` — the text of a decimal is a numeral that denotes it.
* `number_write`, `number_whole` — so doubles and whole numbers are read back.
-/

namespace QueryForecast.Json.Parser

open Decimal Numeric

/-! ## Parts of numerals -/

/-- A text is empty or starts with what may follow a value. -/
def Delimited (text : List Char) : Prop :=
  ∀ c ∈ text.head?, c = ',' ∨ c = ']' ∨ c = '}' ∨ c = '\n'

theorem Delimited.cases {text : List Char} (h : Delimited text) :
    text = [] ∨ ∃ c rest, text = c :: rest ∧ (c = ',' ∨ c = ']' ∨ c = '}' ∨ c = '\n') := by
  cases text with
  | nil => exact .inl rfl
  | cons c rest => exact .inr ⟨c, rest, rfl, h c rfl⟩

theorem Delimited.noDigitAhead {text : List Char} (h : Delimited text) : NoDigitAhead text := by
  intro c hc
  rcases h c hc with rfl | rfl | rfl | rfl <;> decide

namespace NumberParts

/-- The text of a fraction part, if it has digits. -/
def fractionText (ds : List Char) : List Char :=
  if ds.isEmpty then [] else '.' :: ds

/-- The text of an exponent, if there is one: always with a sign. -/
def exponentText : Option Int → List Char
  | none => []
  | some k => 'e' :: (if k < 0 then '-' else '+') :: digitsOf k.natAbs

/-- The text of a numeral with the given parts. -/
def text (p : NumberParts) : List Char :=
  (if p.negative then ['-'] else []) ++ p.whole ++ fractionText p.fraction ++
    exponentText p.exponent

/-- Parts that a numeral can have: the whole part is a single zero or starts with another digit. -/
structure WellFormed (p : NumberParts) : Prop where
  whole : ∀ c ∈ p.whole, c.isDigit = true
  fraction : ∀ c ∈ p.fraction, c.isDigit = true
  nonempty : p.whole ≠ []
  leading : p.whole.head? = some '0' → p.whole.length = 1

end NumberParts

open NumberParts

section

variable {rest : List Char}

theorem exponentPart_exponentText (exponent : Option Int) (hr : Delimited rest) :
    exponentPart (exponentText exponent ++ rest) = some (exponent, rest) := by
  cases exponent with
  | none =>
    rcases hr.cases with rfl | ⟨c, rest, rfl, rfl | rfl | rfl | rfl⟩
    · rfl
    · rfl
    · rfl
    · rfl
    · rfl
  | some k =>
    have hd := takeDigits_append (fun c (hc : c ∈ digitsOf k.natAbs) => isDigit_of_mem_digitsOf hc)
      hr.noDigitAhead
    have hne := digitsOf_ne_nil k.natAbs
    unfold exponentText exponentPart
    simp only [List.cons_append]
    by_cases hk : k < 0
    · simp only [if_pos hk]
      rw [hd]
      simp [hne, valueOf_digitsOf, abs_of_neg hk]
    · simp only [if_neg hk]
      rw [hd]
      simp [hne, valueOf_digitsOf, abs_of_nonneg (not_lt.1 hk)]

/-- No exponent can be taken for more digits, nor for a point. -/
theorem ahead_exponentText (exponent : Option Int) (hr : Delimited rest) :
    NoDigitAhead (exponentText exponent ++ rest) ∧
      (exponentText exponent ++ rest).head? ≠ some '.' := by
  cases exponent with
  | none =>
    refine ⟨hr.noDigitAhead, fun hc => ?_⟩
    rcases hr _ hc with h | h | h | h <;> cases h
  | some k => exact ⟨noDigitAhead_cons (by decide), fun hc => nomatch hc⟩

theorem fractionPart_fractionText {ds : List Char} (hd : ∀ c ∈ ds, c.isDigit = true)
    (hr : NoDigitAhead rest) (hpoint : rest.head? ≠ some '.') :
    fractionPart (fractionText ds ++ rest) = some (ds, rest) := by
  cases ds with
  | nil =>
    show fractionPart rest = _
    unfold fractionPart
    split
    · exact absurd rfl hpoint
    · rfl
  | cons d ds =>
    have htake := takeDigits_append hd hr
    show (if (takeDigits (d :: ds ++ rest)).1.isEmpty then none
      else some (takeDigits (d :: ds ++ rest))) = _
    rw [htake]
    rfl

theorem noDigitAhead_fractionText (ds : List Char) (hr : NoDigitAhead rest) :
    NoDigitAhead (fractionText ds ++ rest) := by
  cases ds with
  | nil => exact hr
  | cons d ds => exact noDigitAhead_cons (by decide)

/-- **A numeral is read back as its parts.** -/
theorem numberParts_text {p : NumberParts} (h : p.WellFormed) (hr : Delimited rest) :
    numberParts (p.text ++ rest) = some (p, rest) := by
  obtain ⟨negative, whole, fraction, exponent⟩ := p
  obtain ⟨hwhole, hfraction, hne, hleading⟩ := h
  dsimp only at hwhole hfraction hne hleading
  obtain ⟨hafter, hpoint⟩ := ahead_exponentText exponent hr
  have htake := takeDigits_append hwhole (noDigitAhead_fractionText fraction hafter)
  have hfractionPart := fractionPart_fractionText hfraction hafter hpoint
  have hguard : ¬ (whole.isEmpty = true ∨ whole.head? = some '0' ∧ whole.length ≠ 1) := by
    rintro (he | ⟨h0, h1⟩)
    · exact hne (List.isEmpty_iff.1 he)
    · exact h1 (hleading h0)
  have hminus : ∀ body,
      whole ++ (fractionText fraction ++ (exponentText exponent ++ rest)) ≠ '-' :: body := by
    intro body hc
    cases whole with
    | nil => exact hne rfl
    | cons d ds =>
      have hd := hwhole d List.mem_cons_self
      rw [(List.cons.inj hc).1] at hd
      exact absurd hd (by decide)
  have htext : text ⟨negative, whole, fraction, exponent⟩ ++ rest =
      (if negative then ['-'] else []) ++
        (whole ++ (fractionText fraction ++ (exponentText exponent ++ rest))) := by
    simp [text]
  rw [htext]
  unfold numberParts
  -- By hminus, a numeral without a sign is not taken for one with it.
  cases negative
  all_goals
    simp only [Bool.false_eq_true, if_true, if_false, List.cons_append, List.nil_append]
    rw [htake]
    dsimp only
    rw [if_neg hguard, hfractionPart]
    dsimp only [bind, Option.bind]
    rw [exponentPart_exponentText exponent hr]
    rfl

end

/-! ## Decimals -/

/-- Some parts are those of a numeral with a point or an exponent, for the given decimal. -/
structure Writes (p : NumberParts) (y : Numeral) : Prop where
  wellFormed : p.WellFormed
  real : ¬ (p.fraction.isEmpty = true ∧ p.exponent.isNone = true)
  rat : (assemble p.whole p.fraction (p.exponent.getD 0)).rat = y.rat

theorem rat_assemble (whole fraction : List Char) (k : ℤ) :
    (assemble whole fraction k).rat = valueOf (whole ++ fraction) * 10 ^ (k - fraction.length) :=
  rfl

theorem isDigit_of_mem_zeros {n : ℕ} {c : Char} (h : c ∈ List.replicate n '0') : c.isDigit = true := by
  rw [List.eq_of_mem_replicate h]
  decide

theorem isDigit_of_mem_zero (c : Char) (h : c ∈ ['0']) : c.isDigit = true := by
  rw [List.mem_singleton.1 h]
  decide

section

variable {y : Numeral} (negative : Bool)

theorem writes_zero (h0 : y.digits = 0) : Writes ⟨negative, ['0'], ['0'], none⟩ y where
  wellFormed := ⟨isDigit_of_mem_zero, isDigit_of_mem_zero, List.cons_ne_nil _ _, fun _ => rfl⟩
  real := by simp
  rat := by
    rw [rat_assemble]
    simp [Numeral.rat, valueOf, digitValue, h0]

/-- A decimal below one is written with zeros after its point. -/
theorem writes_small {n : ℕ} (hn : (digitsOf y.digits).length + y.exponent = -(n : ℤ)) :
    Writes ⟨negative, ['0'], List.replicate n '0' ++ digitsOf y.digits, none⟩ y where
  wellFormed :=
    { whole := isDigit_of_mem_zero
      fraction := fun c hc => (List.mem_append.1 hc).elim isDigit_of_mem_zeros isDigit_of_mem_digitsOf
      nonempty := List.cons_ne_nil _ _
      leading := fun _ => rfl }
  real := by simp [digitsOf_ne_nil]
  rat := by
    have hv : valueOf (['0'] ++ (List.replicate n '0' ++ digitsOf y.digits)) = y.digits := by
      rw [valueOf_append, valueOf_append, valueOf_zeros, valueOf_digitsOf]
      simp [valueOf, digitValue]
    rw [rat_assemble, hv, Option.getD_none, List.length_append, List.length_replicate]
    unfold Numeral.rat
    congr 2
    push_cast
    omega

/-- A large decimal is written with zeros before its point and one after it. -/
theorem writes_large (h0 : y.digits ≠ 0) {n : ℕ} (hn : y.exponent = n) :
    Writes ⟨negative, digitsOf y.digits ++ List.replicate n '0', ['0'], none⟩ y where
  wellFormed :=
    { whole := fun c hc => (List.mem_append.1 hc).elim isDigit_of_mem_digitsOf isDigit_of_mem_zeros
      fraction := isDigit_of_mem_zero
      nonempty := by simp [digitsOf_ne_nil]
      leading := fun h => by
        cases hd : digitsOf y.digits with
        | nil => exact absurd hd (digitsOf_ne_nil _)
        | cons d ds =>
          have hh := head?_digitsOf h0
          rw [hd] at h hh
          exact absurd h hh }
  real := by simp
  rat := by
    have hv : valueOf (digitsOf y.digits ++ List.replicate n '0' ++ ['0']) =
        y.digits * 10 ^ n * 10 := by
      rw [valueOf_append, valueOf_append, valueOf_zeros, valueOf_digitsOf]
      simp [valueOf, digitValue]
    rw [rat_assemble, hv, Option.getD_none]
    unfold Numeral.rat
    rw [hn, zpow_natCast]
    push_cast
    simp

/-- A decimal is written with its point among its digits. -/
theorem writes_between (h0 : y.digits ≠ 0) {n : ℕ} (hn0 : n ≠ 0)
    (hn : (digitsOf y.digits).length + y.exponent = n) (hlt : n < (digitsOf y.digits).length) :
    Writes ⟨negative, (digitsOf y.digits).take n, (digitsOf y.digits).drop n, none⟩ y where
  wellFormed :=
    { whole := fun c hc => isDigit_of_mem_digitsOf (List.mem_of_mem_take hc)
      fraction := fun c hc => isDigit_of_mem_digitsOf (List.mem_of_mem_drop hc)
      nonempty := by simp [digitsOf_ne_nil, hn0]
      leading := fun h => by
        rw [List.head?_take, if_neg hn0] at h
        exact absurd h (head?_digitsOf h0) }
  real := by
    intro h
    have := List.drop_eq_nil_iff.1 (List.isEmpty_iff.1 h.1)
    omega
  rat := by
    rw [rat_assemble, List.take_append_drop, valueOf_digitsOf, Option.getD_none, List.length_drop]
    unfold Numeral.rat
    congr 2
    omega

/-- A decimal is written with an exponent. -/
theorem writes_scientific {d : Char} {ds : List Char} (hd : digitsOf y.digits = d :: ds) {k : ℤ}
    (hk : k = (digitsOf y.digits).length + y.exponent - 1) :
    Writes ⟨negative, [d], ds, some k⟩ y where
  wellFormed :=
    { whole := fun c hc => isDigit_of_mem_digitsOf (n := y.digits) (by
        rw [hd, List.mem_singleton.1 hc]
        exact List.mem_cons_self)
      fraction := fun c hc => isDigit_of_mem_digitsOf (n := y.digits) (by
        rw [hd]
        exact List.mem_cons_of_mem _ hc)
      nonempty := List.cons_ne_nil _ _
      leading := fun _ => rfl }
  real := by simp
  rat := by
    rw [rat_assemble, List.singleton_append, ← hd, valueOf_digitsOf, Option.getD_some, hk, hd]
    unfold Numeral.rat
    congr 2
    rw [List.length_cons]
    push_cast
    omega

theorem exists_writes_positional (h0 : y.digits ≠ 0) {count : ℤ}
    (hcount : count = (digitsOf y.digits).length + y.exponent) :
    ∃ p, Writes p y ∧ p.negative = negative ∧
      p.text = (if negative then ['-'] else []) ++
        positional Layout.record (digitsOf y.digits) count := by
  unfold positional
  by_cases hsmall : count ≤ 0
  · obtain ⟨n, hn⟩ := Int.eq_ofNat_of_zero_le (show 0 ≤ -count by omega)
    refine ⟨_, writes_small negative (n := n) (by omega), rfl, ?_⟩
    rw [if_pos hsmall, hn, Int.toNat_natCast]
    simp [text, fractionText, exponentText, digitsOf_ne_nil]
  · rw [if_neg hsmall]
    by_cases hlarge : (digitsOf y.digits).length ≤ count.toNat
    · obtain ⟨n, hn⟩ := Int.eq_ofNat_of_zero_le (show 0 ≤ y.exponent by omega)
      refine ⟨_, writes_large negative h0 hn, rfl, ?_⟩
      rw [if_pos hlarge, show count.toNat - (digitsOf y.digits).length = n by omega]
      simp [text, fractionText, exponentText, Layout.record]
    · refine ⟨_, writes_between negative h0 (n := count.toNat) (by omega) (by omega) (by omega),
        rfl, ?_⟩
      have hdrop : ¬ (digitsOf y.digits).drop count.toNat = [] := by
        rw [List.drop_eq_nil_iff]
        omega
      rw [if_neg hlarge]
      simp [text, fractionText, exponentText, hdrop]

theorem exists_writes_scientific {k : ℤ} (hk : k = (digitsOf y.digits).length + y.exponent - 1) :
    ∃ p, Writes p y ∧ p.negative = negative ∧
      p.text = (if negative then ['-'] else []) ++
        scientific Layout.record (digitsOf y.digits) k := by
  have hsign : (if k < 0 then ['-'] else if Layout.record.plus then ['+'] else []) =
      [if k < 0 then '-' else '+'] := by
    split <;> rfl
  unfold scientific
  rw [hsign]
  cases hd : digitsOf y.digits with
  | nil => exact absurd hd (digitsOf_ne_nil _)
  | cons d ds =>
    refine ⟨_, writes_scientific negative hd hk, rfl, ?_⟩
    cases ds <;> simp [text, fractionText, exponentText]

/-- **Logs and artifacts write a decimal as a numeral that denotes it.** -/
theorem exists_writes_magnitude (y : Numeral) :
    ∃ p, Writes p y ∧ p.negative = negative ∧
      p.text = (if negative then ['-'] else []) ++ Layout.record.magnitude y := by
  unfold Layout.magnitude
  dsimp only
  by_cases h0 : y.digits = 0
  · refine ⟨_, writes_zero negative h0, rfl, ?_⟩
    rw [if_pos h0]
    simp [text, fractionText, exponentText, Layout.record]
  · rw [if_neg h0]
    by_cases hplain : Layout.record.least.all (· ≤ (digitsOf y.digits).length + y.exponent - 1) ∧
        Layout.record.most.all ((digitsOf y.digits).length + y.exponent - 1 ≤ ·)
    · rw [if_pos hplain]
      exact exists_writes_positional negative h0 (by omega)
    · rw [if_neg hplain]
      exact exists_writes_scientific negative rfl

end

/-! ## Numbers -/

/-- **The text of a finite double is read as the double.** -/
theorem number_write {x : Float} (hx : x.isFinite = true) {rest : List Char} (hr : Delimited rest) :
    number (Layout.record.write x ++ rest) = some (.real x, rest) := by
  obtain ⟨p, hp, hn, ht⟩ := exists_writes_magnitude (signBit x) (shortest Layout.record.tie x)
  have hwrite : Layout.record.write x = p.text := by
    unfold Layout.write
    rw [isNaN_of_isFinite hx, isInf_of_isFinite hx, ht]
    cases signBit x <;> rfl
  have hfloat : toFloat p.negative (assemble p.whole p.fraction (p.exponent.getD 0)) = x := by
    rw [hn]
    refine toFloat_of_denotes hx ?_
    rw [hp.rat]
    exact denotes_shortest hx _
  have hnumber : p.number? = some (.real x) := by
    unfold NumberParts.number?
    dsimp only
    rw [if_neg fun h => hp.real h.1, if_neg fun h => hp.real h.1, hfloat, if_pos hx]
  unfold number
  rw [hwrite, numberParts_text hp.wellFormed hr]
  dsimp only [bind, Option.bind]
  rw [hnumber]
  rfl

/-- A whole number has 64 bits. -/
def IsWord (n : ℤ) : Prop :=
  -0x8000000000000000 ≤ n ∧ n < 0x10000000000000000

/-- **The text of a whole number is read as the number.** -/
theorem number_whole {n : ℤ} (h : IsWord n) {rest : List Char} (hr : Delimited rest) :
    number (numberText (.whole n) ++ rest) = some (.whole n, rest) := by
  obtain ⟨p, hp⟩ : ∃ p : NumberParts, p = ⟨n < 0, digitsOf n.natAbs, [], none⟩ := ⟨_, rfl⟩
  have hformed : p.WellFormed := by
    rw [hp]
    refine ⟨fun c => isDigit_of_mem_digitsOf, fun c hc => (nomatch hc), digitsOf_ne_nil _, fun h0 => ?_⟩
    by_cases hz : n.natAbs = 0
    · dsimp only
      rw [hz]
      rfl
    · exact absurd h0 (head?_digitsOf hz)
  have htext : numberText (.whole n) = p.text := by
    rw [hp]
    unfold numberText text
    by_cases hn : n < 0 <;> simp [hn, fractionText, exponentText]
  have hnumber : p.number? = some (.whole n) := by
    obtain ⟨hl, hu⟩ := h
    rw [hp]
    unfold NumberParts.number?
    dsimp only
    rw [valueOf_digitsOf]
    by_cases hn : n < 0
    · rw [if_neg (by simp [hn]), if_pos (by simp; omega), Int.ofNat_natAbs_of_nonpos hn.le, neg_neg]
    · rw [if_pos (by simp; omega), Int.natAbs_of_nonneg (not_lt.1 hn)]
  unfold number
  rw [htext, numberParts_text hformed hr]
  dsimp only [bind, Option.bind]
  rw [hnumber]
  rfl

end QueryForecast.Json.Parser
