import Mathlib.Tactic.Ring
import QueryForecast.Time.Timestamp

/-!
# Days and dates

The calendar repeats after 400 years. Of such a cycle, every day lies in a century, a run of four
years and a year, which the closed formula for the year finds.

* `CycleDay` — the parts of a day of a cycle.
* `CycleDay.year_eq` — the formula for the year finds them.
* `isValid_civil` — the date of a day is in the calendar.
* `dayNumber_civil` — and is the date of that day.
-/

namespace QueryForecast.Time

/-- A day of a cycle of 400 years: its century, its run of four years, its year and its day. A year
has 365 days, one more when it ends a run of four, unless it ends a century; the last century has one
more. -/
structure CycleDay (n century four year day : ℕ) : Prop where
  eq : n = 36524 * century + 1461 * four + 365 * year + day
  century_le : century ≤ 3
  four_le : four ≤ 24
  year_le : year ≤ 3
  day_le : day ≤ 365
  leap : day = 365 → year = 3 ∧ (four = 24 → century = 3)

theorem exists_cycleDay {n : ℕ} (h : n < 146097) :
    ∃ century four year day, CycleDay n century four year day := by
  obtain ⟨c, hc⟩ : ∃ c, c = min (n / 36524) 3 := ⟨_, rfl⟩
  obtain ⟨q, hq⟩ : ∃ q, q = (n - 36524 * c) / 1461 := ⟨_, rfl⟩
  obtain ⟨r, hr⟩ : ∃ r, r = min ((n - 36524 * c - 1461 * q) / 365) 3 := ⟨_, rfl⟩
  have h1 : 36524 * c ≤ n ∧ n - 36524 * c ≤ 36524 ∧ (n - 36524 * c = 36524 → c = 3) := by omega
  have h2 : 1461 * q ≤ n - 36524 * c ∧ n - 36524 * c - 1461 * q < 1461 := by omega
  have h3 : 365 * r ≤ n - 36524 * c - 1461 * q ∧ n - 36524 * c - 1461 * q - 365 * r ≤ 365 := by
    omega
  refine ⟨c, q, r, n - 36524 * c - 1461 * q - 365 * r, ?_, ?_, ?_, ?_, ?_, ?_⟩ <;> omega

namespace CycleDay

variable {n c q r d : ℕ}

/-- **The formula for the year of a cycle.** -/
theorem year_eq (h : CycleDay n c q r d) :
    (n - n / 1460 + n / 36524 - n / 146096) / 365 = 100 * c + 4 * q + r := by
  obtain ⟨he, hc, hq, hr, hd, hl⟩ := h
  by_cases hlast : n = 146096
  · omega
  · have h1 : n / 36524 = c := by omega
    have h2 : n / 146096 = 0 := by omega
    have h3 : n / 1460 = 25 * c + q ∨ n / 1460 = 25 * c + q + 1 ∧ 0 < d := by omega
    have h4 : d = 365 → n / 1460 = 25 * c + q + 1 := by omega
    rw [h1, h2]
    omega

/-- The days before a year of a cycle. -/
theorem days_before (h : CycleDay n c q r d) :
    365 * (100 * c + 4 * q + r) + (100 * c + 4 * q + r) / 4 - (100 * c + 4 * q + r) / 100 + d = n := by
  obtain ⟨he, hc, hq, hr, -, -⟩ := h
  have h1 : (100 * c + 4 * q + r) / 4 = 25 * c + q := by omega
  have h2 : (100 * c + 4 * q + r) / 100 = c := by omega
  rw [h1, h2]
  omega

/-- A year that has a last day of February which is the 29th is a leap year. -/
theorem isLeapYear (h : CycleDay n c q r d) (hd : d = 365) (cycle : ℤ) :
    Time.isLeapYear (cycle * 400 + (100 * c + 4 * q + r : ℕ) + 1) = true := by
  obtain ⟨-, hc, hq, -, -, hl⟩ := h
  obtain ⟨rfl, hlast⟩ := hl hd
  unfold Time.isLeapYear
  simp only [Bool.and_eq_true, Bool.or_eq_true, beq_iff_eq, bne_iff_ne]
  push_cast
  constructor
  · omega
  · by_cases h24 : q = 24
    · right
      have := hlast h24
      omega
    · left
      omega

end CycleDay

/-- The date of a day, by the parts of the day and the month `m` since March. -/
theorem civil_cases (n : ℤ) : ∃ (cycle : ℤ) (k c q r d m : ℕ), CycleDay k c q r d ∧
    n + 719468 = cycle * 146097 + k ∧ m = (5 * d + 2) / 153 ∧
    (m < 10 ∧ civil n =
        ⟨cycle * 400 + (100 * c + 4 * q + r : ℕ), m + 3, d - (153 * m + 2) / 5 + 1⟩ ∨
      10 ≤ m ∧ civil n =
        ⟨cycle * 400 + (100 * c + 4 * q + r : ℕ) + 1, m - 9, d - (153 * m + 2) / 5 + 1⟩) := by
  obtain ⟨k, hk⟩ : ∃ k, k = ((n + 719468) % 146097).toNat := ⟨_, rfl⟩
  obtain ⟨c, q, r, d, h⟩ := exists_cycleDay (n := k) (by omega)
  refine ⟨(n + 719468) / 146097, k, c, q, r, d, (5 * d + 2) / 153, h, by omega, rfl, ?_⟩
  have hd := h.days_before
  have hle := h.day_le
  unfold civil
  dsimp only
  rw [← hk, h.year_eq, show k - (365 * (100 * c + 4 * q + r) + (100 * c + 4 * q + r) / 4 -
    (100 * c + 4 * q + r) / 100) = d by omega]
  by_cases hm : (5 * d + 2) / 153 < 10
  · rw [if_pos hm, if_neg (show ¬ (5 * d + 2) / 153 + 3 ≤ 2 by omega), add_zero]
    exact .inl ⟨hm, rfl⟩
  · rw [if_neg hm, if_pos (show (5 * d + 2) / 153 - 9 ≤ 2 by omega)]
    exact .inr ⟨not_lt.1 hm, rfl⟩

/-- **The date of a day is in the calendar.** -/
theorem isValid_civil (n : ℤ) : (civil n).isValid = true := by
  obtain ⟨cycle, k, c, q, r, d, m, h, -, hm, hcivil⟩ := civil_cases n
  have hd := h.day_le
  unfold Date.isValid daysInMonth
  simp only [Bool.and_eq_true, decide_eq_true_eq]
  rcases hcivil with ⟨hlt, he⟩ | ⟨hge, he⟩
  · rw [he]
    dsimp only
    rw [if_neg (by omega)]
    refine ⟨⟨⟨by omega, by omega⟩, by omega⟩, ?_⟩
    split <;> omega
  · rw [he]
    dsimp only
    refine ⟨⟨⟨by omega, by omega⟩, by omega⟩, ?_⟩
    by_cases hlast : m = 11
    · -- February has a 29th day only in a leap year.
      rw [if_pos (by omega)]
      by_cases hleap : d = 365
      · rw [if_pos (h.isLeapYear hleap cycle)]
        omega
      · split <;> omega
    · rw [if_neg (by omega), if_neg (by omega)]
      omega

/-- **The date of a day is the date of that day.** -/
theorem dayNumber_civil (n : ℤ) : (civil n).dayNumber = n := by
  obtain ⟨cycle, k, c, q, r, d, m, h, hn, hm, hcivil⟩ := civil_cases n
  have hd := h.day_le
  have hdays := h.days_before
  have hyear : 100 * c + 4 * q + r < 400 := by
    have := h.century_le
    have := h.four_le
    have := h.year_le
    omega
  generalize 100 * c + 4 * q + r = y at hcivil hdays hyear
  unfold Date.dayNumber
  rcases hcivil with ⟨hlt, he⟩ | ⟨hge, he⟩
  · rw [he]
    dsimp only
    rw [if_neg (by omega), show (m + 3 + 9) % 12 = m by omega]
    omega
  · rw [he]
    dsimp only
    rw [if_pos (by omega), show (m - 9 + 9) % 12 = m by omega, add_sub_cancel_right]
    omega

example : civil 19783 = ⟨2024, 3, 1⟩ := by decide

/-- **A supported day lies in a supported year.** -/
theorem year_civil {n : ℤ} (h : isSupportedDay n = true) :
    minYear ≤ (civil n).year ∧ (civil n).year ≤ maxYear := by
  obtain ⟨cycle, k, c, q, r, d, m, hk, hn, hm, hcivil⟩ := civil_cases n
  have hfirst : (Date.mk minYear 1 1).dayNumber = -96465292 := by decide
  have hlast : (Date.mk maxYear 12 31).dayNumber = 95026236 := by decide
  unfold isSupportedDay at h
  rw [hfirst, hlast, Bool.and_eq_true, decide_eq_true_eq, decide_eq_true_eq] at h
  obtain ⟨hk, hc, hq, hr, hd, -⟩ := hk
  have hcycle : cycle ≤ 655 := by omega
  -- The last supported year is in the second century of its cycle.
  have hcentury : cycle = 655 → c ≤ 1 ∧ (c = 1 → q ≤ 10) := by omega
  unfold minYear maxYear
  rcases hcivil with ⟨hlt, he⟩ | ⟨hge, he⟩
  · rw [he]
    dsimp only
    push_cast
    omega
  · rw [he]
    dsimp only
    push_cast
    omega

end QueryForecast.Time
