import QueryForecast.Serving.Estimator

/-!
# Profiles that are filled in before they are served

An estimator fills in the historical fields of a profile that are zero, and it does so again when the
profile that it is asked about is one that it filled in itself. Zero is what a missing field looks like,
so a history that has a zero to give fills in a field that looks missing as before. It is then given the
same value again, so the estimate is the same.

* `ite_missing_ite_missing` — what stands in for a missing value is replaced by itself at most.
* `History.fill_frame`, `History.fill_keeps`, `History.fill_takes` — a history fills in three fields,
  where they are zero.
* `History.fill_fill` — filling in again changes nothing.
* `Estimator.prefilled_profiles_are_served_alike` — what may change, and the estimates.
-/

namespace QueryForecast

/-- A missing value is replaced once: its replacement may count as missing too, but is replaced by
itself. -/
theorem ite_missing_ite_missing {α : Type} (missing : α → Prop) [DecidablePred missing] (known x : α) :
    (if missing (if missing x then known else x) then known else if missing x then known else x) =
      if missing x then known else x := by
  by_cases h : missing x
  · rw [if_pos h, ite_self]
  · rw [if_neg h, if_neg h]

namespace History

section

variable {h : History} {p : FilterProfile}

theorem fill_of_none (hp : h.get? p.property = none) : h.fill p = p := by
  unfold fill
  rw [hp]

theorem fill_of_some {past : PropertyHistory} (hp : h.get? p.property = some past) : h.fill p =
    { p with
      propertyCardinality := if p.propertyCardinality = 0 then past.cardinality
        else p.propertyCardinality
      pastMedian := if p.pastMedian == 0.0 then past.median else p.pastMedian
      pastHigh := if p.pastHigh == 0.0 then past.high else p.pastHigh } := by
  unfold fill
  rw [hp]

end

variable (h : History) (p : FilterProfile)

/-- **A history fills in three fields** and leaves the others as they are. -/
theorem fill_frame : h.fill p =
    { p with
      propertyCardinality := (h.fill p).propertyCardinality
      pastMedian := (h.fill p).pastMedian
      pastHigh := (h.fill p).pastHigh } := by
  cases hp : h.get? p.property with
  | none => rw [fill_of_none hp]
  | some past => rw [fill_of_some hp]

theorem property_fill : (h.fill p).property = p.property := by
  rw [fill_frame]

/-- Each of them keeps what is not zero. -/
theorem fill_keeps :
    (p.propertyCardinality ≠ 0 → (h.fill p).propertyCardinality = p.propertyCardinality) ∧
    ((p.pastMedian == 0.0) = false → (h.fill p).pastMedian = p.pastMedian) ∧
    ((p.pastHigh == 0.0) = false → (h.fill p).pastHigh = p.pastHigh) := by
  cases hp : h.get? p.property with
  | none =>
    rw [fill_of_none hp]
    exact ⟨fun _ => rfl, fun _ => rfl, fun _ => rfl⟩
  | some past =>
    rw [fill_of_some hp]
    exact ⟨fun hc => if_neg hc, fun hm => if_neg (ne_true_of_eq_false hm),
      fun hh => if_neg (ne_true_of_eq_false hh)⟩

/-- What is zero is what the history of the property has. -/
theorem fill_takes {past : PropertyHistory} (hp : h.get? p.property = some past) :
    (p.propertyCardinality = 0 → (h.fill p).propertyCardinality = past.cardinality) ∧
    ((p.pastMedian == 0.0) = true → (h.fill p).pastMedian = past.median) ∧
    ((p.pastHigh == 0.0) = true → (h.fill p).pastHigh = past.high) := by
  rw [fill_of_some hp]
  exact ⟨fun hc => if_pos hc, fun hm => if_pos hm, fun hh => if_pos hh⟩

/-- **Filling in again changes nothing**, for the property is still the same. -/
theorem fill_fill : h.fill (h.fill p) = h.fill p := by
  cases hp : h.get? p.property with
  | none => rw [fill_of_none hp, fill_of_none hp]
  | some past =>
    have hagain : h.get? (h.fill p).property = some past := by rw [property_fill, hp]
    rw [fill_of_some hagain, fill_of_some hp]
    simp only [ite_missing_ite_missing (fun x : UInt64 => x = 0),
      ite_missing_ite_missing (fun x : Float => (x == 0.0) = true)]

end History

namespace Estimator

/-- **Profiles that were filled in are served alike.** A history changes the cardinality of the
property, the median and the 95th percentile of a profile at most, and each of them only when it was
zero; a measure that is not a number is not zero. It gives such a field what it has for the property,
be it zero again. To fill in a profile twice is to fill it in once. So an estimator has the same
estimate for a profile as for the one that it fills in, whatever has been recorded and whichever model
is active. -/
theorem prefilled_profiles_are_served_alike (h : History) (p : FilterProfile) :
    h.fill p =
      { p with
        propertyCardinality := (h.fill p).propertyCardinality
        pastMedian := (h.fill p).pastMedian
        pastHigh := (h.fill p).pastHigh } ∧
    (p.propertyCardinality ≠ 0 → (h.fill p).propertyCardinality = p.propertyCardinality) ∧
    ((p.pastMedian == 0.0) = false → (h.fill p).pastMedian = p.pastMedian) ∧
    ((p.pastHigh == 0.0) = false → (h.fill p).pastHigh = p.pastHigh) ∧
    (∀ past, h.get? p.property = some past →
      (p.propertyCardinality = 0 → (h.fill p).propertyCardinality = past.cardinality) ∧
      ((p.pastMedian == 0.0) = true → (h.fill p).pastMedian = past.median) ∧
      ((p.pastHigh == 0.0) = true → (h.fill p).pastHigh = past.high)) ∧
    h.fill (h.fill p) = h.fill p ∧
    ∀ e : Estimator, e.estimateSelectivity (e.history.fill p) = e.estimateSelectivity p := by
  obtain ⟨hcardinality, hmedian, hhigh⟩ := h.fill_keeps p
  refine ⟨h.fill_frame p, hcardinality, hmedian, hhigh, fun _ => h.fill_takes p, h.fill_fill p,
    fun e => ?_⟩
  unfold estimateSelectivity
  rw [e.history.fill_fill]

/-- A history that has nothing but zeros for one property, and a cardinality for another. -/
def zeroHistory : History :=
  (({} : History).observe "color" 0.0 0 (.ofParts 19783 0 0)).observe "size" 0.0 7 (.ofParts 19783 1 0)

/-- A cardinality and a percentile that is not a number stay beside a negative zero that is filled in
with a zero, and a median stays beside a cardinality and a percentile that are filled in. -/
theorem prefilled_profiles_are_served_alike_of_zeros :
    let color : FilterProfile :=
      { property := "color", propertyCardinality := 9, pastMedian := -0.0, pastHigh := 0.0 / 0.0 }
    let size : FilterProfile := { property := "size", pastMedian := 0.25 }
    (zeroHistory.fill color).propertyCardinality = 9 ∧ (zeroHistory.fill color).pastMedian = 0.0 ∧
      (zeroHistory.fill color).pastHigh = 0.0 / 0.0 ∧
      (zeroHistory.fill size).propertyCardinality = 7 ∧ (zeroHistory.fill size).pastMedian = 0.25 ∧
      (zeroHistory.fill size).pastHigh = 0.0 := by
  intro color size
  obtain ⟨-, hcardinality, -, hhigh, hcolor, -⟩ := prefilled_profiles_are_served_alike zeroHistory color
  obtain ⟨-, -, hmedian, -, hsize, -⟩ := prefilled_profiles_are_served_alike zeroHistory size
  obtain ⟨-, hcolorMedian, -⟩ := hcolor _ (by rfl)
  obtain ⟨hsizeCardinality, -, hsizeHigh⟩ := hsize _ (by rfl)
  refine ⟨hcardinality (by decide), (hcolorMedian (by decide +kernel)).trans ?_,
    hhigh (by decide +kernel), (hsizeCardinality (by decide)).trans (by decide),
    hmedian (by decide +kernel), (hsizeHigh (by decide +kernel)).trans ?_⟩
  · decide +kernel
  · decide +kernel

end Estimator

end QueryForecast
