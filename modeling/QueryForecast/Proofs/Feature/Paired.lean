import Mathlib.Data.List.Induction
import QueryForecast.Proofs.Feature.Columns
import QueryForecast.Proofs.Feature.Correlated
import QueryForecast.Proofs.Numeric.Exponential

/-!
# Coefficients of unordered pairs

A coefficient is kept under the two columns in ascending order, so it is found again in whichever order
they are named, and giving another one for the same two replaces it. What is found for two columns is
therefore the coefficient that was given last for them, and the strongest correlation of some columns is
the greatest of those that were given last for two of them.

* `Correlations.columnPair_eq_iff` — which columns are the same pair.
* `Correlations.lookup_put`, `Correlations.get?_insert` — one coefficient more.
* `Correlations.get?_ofList` — all of them: the last one counts.
* `Correlations.ofList_eq_of_forall₂_swapped` — naming the columns the other way round.
* `Correlations.strongest_of_last_given` — the strongest correlation, and what it does not depend on.
-/

namespace QueryForecast.Correlations

open Numeric

variable {a b c d : String}

/-- **Two columns are one pair, in whichever order they are named.** -/
theorem columnPair_eq_iff : columnPair a b = columnPair c d ↔ a = c ∧ b = d ∨ a = d ∧ b = c := by
  constructor
  · intro h
    unfold columnPair at h
    split at h <;> split at h <;> cases h <;> simp
  · rintro (⟨rfl, rfl⟩ | ⟨rfl, rfl⟩)
    · rfl
    · exact columnPair_comm a b

/-- Setting the coefficient of a pair leaves those of the other pairs as they are. -/
theorem lookup_put (pair other : ColumnPair) (x : Float) (entries : List (ColumnPair × Float)) :
    (put pair x entries).lookup other = if other = pair then some x else entries.lookup other := by
  induction entries with
  | nil => exact lookup_cons_eq pair x
  | cons first rest ih =>
    obtain ⟨known, y⟩ := first
    unfold put
    by_cases hk : known = pair
    · subst hk
      rw [if_pos rfl, lookup_cons_eq, lookup_cons_eq]
      by_cases h : other = known
      · rw [if_pos h, if_pos h]
      · rw [if_neg h, if_neg h, if_neg h]
    · rw [if_neg hk, lookup_cons_eq, lookup_cons_eq, ih]
      by_cases h : other = known
      · rw [if_pos h, if_pos h, if_neg (h ▸ hk)]
      · rw [if_neg h, if_neg h]

theorem get?_insert (t : Correlations) (x : Float) :
    (t.insert c d x).get? a b =
      if a = c ∧ b = d ∨ a = d ∧ b = c then some x else t.get? a b := by
  unfold get? insert
  rw [lookup_put]
  simp only [columnPair_eq_iff]

/-! ## What was given last -/

/-- Whether a coefficient is given for these two columns, in either order. -/
def isFor (a b : String) (given : String × String × Float) : Bool :=
  decide (a = given.1 ∧ b = given.2.1 ∨ a = given.2.1 ∧ b = given.1)

/-- The coefficient that was given last for two columns. -/
def lastGiven (given : List (String × String × Float)) (a b : String) : Option Float :=
  (given.filter (isFor a b)).getLast?.map (·.2.2)

theorem ofList_append_singleton (given : List (String × String × Float)) (c d : String) (x : Float) :
    ofList (given ++ [(c, d, x)]) = (ofList given).insert c d x := by
  unfold ofList
  rw [List.foldl_append]
  rfl

theorem lastGiven_append_singleton (given : List (String × String × Float)) (x : Float) :
    lastGiven (given ++ [(c, d, x)]) a b =
      if a = c ∧ b = d ∨ a = d ∧ b = c then some x else lastGiven given a b := by
  unfold lastGiven
  rw [List.filter_append]
  by_cases h : a = c ∧ b = d ∨ a = d ∧ b = c
  · rw [if_pos h, List.filter_cons_of_pos (by simpa [isFor] using h), List.filter_nil,
      List.getLast?_concat]
    rfl
  · rw [if_neg h, List.filter_cons_of_neg (by simpa [isFor] using h), List.filter_nil, List.append_nil]

/-- **What is found for two columns is what was given last for them.** -/
theorem get?_ofList (given : List (String × String × Float)) (a b : String) :
    (ofList given).get? a b = lastGiven given a b := by
  induction given using List.reverseRecOn with
  | nil => rfl
  | append_singleton given last ih =>
    obtain ⟨c, d, x⟩ := last
    rw [ofList_append_singleton, get?_insert, lastGiven_append_singleton, ih]

theorem get?_comm (t : Correlations) (a b : String) : t.get? a b = t.get? b a := by
  unfold get?
  rw [columnPair_comm]

/-- The same coefficient of the same two columns, which may be named the other way round. -/
def Swapped (given other : String × String × Float) : Prop :=
  other = given ∨ other = (given.2.1, given.1, given.2.2)

/-- **The order in which two columns are named makes no difference.** -/
theorem ofList_eq_of_forall₂_swapped {given others : List (String × String × Float)}
    (h : List.Forall₂ Swapped given others) : ofList others = ofList given := by
  unfold ofList
  generalize ({} : Correlations) = start
  induction h generalizing start with
  | nil => rfl
  | @cons first other _ _ hs _ ih =>
    rw [List.foldl_cons, List.foldl_cons, ih]
    congr 1
    rcases hs with rfl | rfl
    · rfl
    · show start.insert _ _ _ = start.insert _ _ _
      unfold insert
      rw [columnPair_comm]

/-! ## The strongest correlation -/

/-- A number is the size of a finite coefficient that was given last for two different columns of a
list. -/
def IsStrength (given : List (String × String × Float)) (columns : List String) (x : Float) : Prop :=
  ∃ a ∈ columns, ∃ b ∈ columns, a ≠ b ∧
    ∃ y, lastGiven given a b = some y ∧ y.isFinite = true ∧ x = y.abs

variable {given : List (String × String × Float)} {columns : List String} {x : Float}

theorem mem_strengths_ofList :
    x ∈ (pairs columns).filterMap (fun (a, b) => (ofList given).strength? a b) ↔
      IsStrength given columns x := by
  rw [mem_strengths]
  simp only [strength?_eq_some_iff, get?_ofList]
  rfl

/-- A strength is a finite double without a sign. -/
theorem IsStrength.spec (h : IsStrength given columns x) :
    x.isFinite = true ∧ signBit x = false ∧ 0 ≤ val x := by
  obtain ⟨a, -, b, -, -, y, -, hf, rfl⟩ := h
  refine ⟨(isFinite_abs y).trans hf, signBit_abs hf, ?_⟩
  rw [val_abs]
  exact abs_nonneg _

/-- The strongest correlation is one of the strengths, when there are any, and none is greater. -/
theorem isStrength_strongest (hx : IsStrength given columns x) :
    IsStrength given columns ((ofList given).strongest columns) ∧
      x ≤ (ofList given).strongest columns := by
  have hfinite : ∀ x ∈ (pairs columns).filterMap (fun (a, b) => (ofList given).strength? a b),
      x.isFinite = true := fun x hx => (mem_strengths_ofList.1 hx).spec.1
  obtain ⟨hmem, hle⟩ := foldl_atLeast_spec val_zero.1 hfinite
  change (ofList given).strongest columns ∈ _ at hmem
  change ∀ x ∈ _, val x ≤ val ((ofList given).strongest columns) at hle
  have hxle := hle x (List.mem_cons_of_mem _ (mem_strengths_ofList.2 hx))
  obtain ⟨hxf, hxs, hx0⟩ := hx.spec
  have hstrongest : IsStrength given columns ((ofList given).strongest columns) := by
    rcases List.mem_cons.1 hmem with hzero | hmem
    · -- The given strength is not below zero, so it is zero as well.
      rw [hzero, val_zero.2] at hxle
      have he : x = 0.0 := eq_of_val_eq hxf val_zero.1 hxs (by decide)
        ((le_antisymm hxle hx0).trans val_zero.2.symm)
      rwa [hzero, ← he]
    · exact mem_strengths_ofList.1 hmem
  exact ⟨hstrongest, (le_iff_val_le hxf hstrongest.spec.1).2 hxle⟩

/-- Without a strength there is no correlation. -/
theorem strongest_eq_zero (h : ¬ ∃ x, IsStrength given columns x) :
    (ofList given).strongest columns = 0.0 := by
  have hnil : (pairs columns).filterMap (fun (a, b) => (ofList given).strength? a b) = [] :=
    List.eq_nil_iff_forall_not_mem.2 fun x hx => h ⟨x, mem_strengths_ofList.1 hx⟩
  unfold strongest
  rw [hnil]
  rfl

/-- **The strongest correlation of some columns.** The coefficient of two columns is the one that was
given last for them, in whichever order they were and are named. The strongest correlation of a list of
columns is the greatest of the sizes of the finite coefficients of two different columns of it, and zero
when there is none. So it depends on nothing but which columns are in the list, and not on the order in
which the two columns of a coefficient are named. -/
theorem strongest_of_last_given (given : List (String × String × Float)) (columns : List String) :
    (∀ a b, (ofList given).get? a b = lastGiven given a b ∧
      (ofList given).get? b a = lastGiven given a b) ∧
    ((∃ x, IsStrength given columns x) →
      IsStrength given columns ((ofList given).strongest columns) ∧
        ∀ x, IsStrength given columns x → x ≤ (ofList given).strongest columns) ∧
    ((¬ ∃ x, IsStrength given columns x) → (ofList given).strongest columns = 0.0) ∧
    (∀ others : List String, (∀ a, a ∈ others ↔ a ∈ columns) →
      (ofList given).strongest others = (ofList given).strongest columns) ∧
    (∀ others, List.Forall₂ Swapped given others →
      (ofList others).strongest columns = (ofList given).strongest columns) := by
  refine ⟨fun a b => ⟨get?_ofList given a b, ?_⟩, ?_, strongest_eq_zero,
    fun others h => strongest_congr_columns h, fun others h => ?_⟩
  · rw [get?_comm, get?_ofList]
  · rintro ⟨x, hx⟩
    exact ⟨(isStrength_strongest hx).1, fun x hx => (isStrength_strongest hx).2⟩
  · rw [ofList_eq_of_forall₂_swapped h]

/-- Coefficients of which one replaces another, and one is not finite. -/
def overwritten : List (String × String × Float) :=
  [("price", "name", -0.75), ("city", "price", 1.0 / 0.0), ("name", "price", -0.25)]

/-- The later one of two coefficients counts, though it is the smaller one and names the columns the
other way round, and the one that is not finite does not. -/
theorem strongest_of_last_given_of_overwritten :
    let columns := ["name", "city", "price"]
    let repeated := ["price", "name", "city", "name"]
    let swapped := [("name", "price", -0.75), ("city", "price", 1.0 / 0.0), ("price", "name", -0.25)]
    ((∃ x, IsStrength overwritten columns x) ∧ (∀ a, a ∈ repeated ↔ a ∈ columns) ∧
      List.Forall₂ Swapped overwritten swapped ∧ ¬ ∃ x, IsStrength overwritten ["price", "city"] x) ∧
    IsStrength overwritten columns 0.25 ∧ (∀ x, IsStrength overwritten columns x → x ≤ 0.25) ∧
    (ofList overwritten).strongest repeated = 0.25 ∧
    (ofList swapped).strongest columns = 0.25 ∧
    (ofList overwritten).strongest ["price", "city"] = 0.0 := by
  intro columns repeated swapped
  obtain ⟨-, hsome, -, hcolumns, hswapped⟩ := strongest_of_last_given overwritten columns
  obtain ⟨-, -, hnone, -, -⟩ := strongest_of_last_given overwritten ["price", "city"]
  have hstrength : ∃ x, IsStrength overwritten columns x :=
    ⟨0.25, "name", by simp [columns], "price", by simp [columns], by decide, -0.25, by decide, by decide,
      by decide +kernel⟩
  have hsame : ∀ a, a ∈ repeated ↔ a ∈ columns := by
    intro a
    simp only [repeated, columns, List.mem_cons, List.not_mem_nil]
    tauto
  have hforall : List.Forall₂ Swapped overwritten swapped :=
    .cons (.inr rfl) (.cons (.inl rfl) (.cons (.inr rfl) .nil))
  have hfree : ¬ ∃ x, IsStrength overwritten ["price", "city"] x := by
    rintro ⟨x, a, ha, b, hb, hab, y, hy, hf, -⟩
    have hlast : lastGiven overwritten a b = some (1.0 / 0.0) := by
      simp only [List.mem_cons, List.not_mem_nil, or_false] at ha hb
      rcases ha with rfl | rfl <;> rcases hb with rfl | rfl
      exacts [absurd rfl hab, by decide +kernel, by decide +kernel, absurd rfl hab]
    rw [hlast] at hy
    cases hy
    exact absurd hf (by decide +kernel)
  have hvalue : (ofList overwritten).strongest columns = 0.25 := by decide +kernel
  obtain ⟨hgreatest, hle⟩ := hsome hstrength
  rw [hvalue] at hgreatest hle
  exact ⟨⟨hstrength, hsame, hforall, hfree⟩, hgreatest, hle, (hcolumns _ hsame).trans hvalue,
    (hswapped _ hforall).trans hvalue, hnone hfree⟩

end QueryForecast.Correlations
