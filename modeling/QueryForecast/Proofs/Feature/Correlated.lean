import QueryForecast.Feature.Correlation
import QueryForecast.Proofs.Numeric.Unsigned

/-!
# The strongest correlation of some columns

Two different columns have a strength in whichever order they are given. So the strongest correlation
of some columns depends on which columns they are, and not on their order or how often each occurs.

* `Correlations.strength?_comm`, `Correlations.strength?_eq_some_iff` — the strength of two columns.
* `Correlations.mem_strengths` — the strengths of the pairs of some columns.
* `Correlations.strongest_congr_columns` — the strongest of the same columns.
-/

namespace QueryForecast.Correlations

open Numeric

variable {c : Correlations} {columns : List String} {a b : String} {x : Float}

theorem columnPair_comm (a b : String) : columnPair a b = columnPair b a := by
  unfold columnPair
  by_cases hab : a ≤ b
  · by_cases hba : b ≤ a
    · rw [String.le_antisymm hab hba]
    · rw [if_pos hab, if_neg hba]
  · rw [if_neg hab, if_pos ((String.le_total a b).resolve_left hab)]

theorem strength?_comm (c : Correlations) (a b : String) : c.strength? a b = c.strength? b a := by
  unfold strength? get?
  rw [columnPair_comm a b]
  by_cases h : a = b
  · rw [h]
  · rw [if_neg h, if_neg (Ne.symm h)]

/-- Two columns have a strength when they differ and their coefficient is finite. -/
theorem strength?_eq_some_iff : c.strength? a b = some x ↔
    a ≠ b ∧ ∃ y, c.get? a b = some y ∧ y.isFinite = true ∧ x = y.abs := by
  unfold strength?
  by_cases hab : a = b
  · rw [if_pos hab]
    exact iff_of_false nofun fun h => h.1 hab
  · rw [if_neg hab, Option.map_eq_some_iff]
    constructor
    · rintro ⟨y, hy, rfl⟩
      obtain ⟨hg, hf⟩ := Option.filter_eq_some_iff.1 hy
      exact ⟨hab, y, hg, hf, rfl⟩
    · rintro ⟨-, y, hg, hf, rfl⟩
      exact ⟨y, Option.filter_eq_some_iff.2 ⟨hg, hf⟩, rfl⟩

/-- A strength is finite and has no sign. -/
theorem strength?_spec (h : c.strength? a b = some x) : x.isFinite = true ∧ signBit x = false := by
  obtain ⟨-, y, -, hf, rfl⟩ := strength?_eq_some_iff.1 h
  exact ⟨(isFinite_abs y).trans hf, signBit_abs hf⟩

/-! ## Pairs -/

section

variable {α : Type} {l : List α} {u v : α}

theorem mem_of_mem_pairs (h : (u, v) ∈ pairs l) : u ∈ l ∧ v ∈ l := by
  induction l with
  | nil => cases h
  | cons first rest ih =>
    rcases List.mem_append.1 h with h | h
    · obtain ⟨w, hw, he⟩ := List.mem_map.1 h
      cases he
      exact ⟨List.mem_cons_self, List.mem_cons_of_mem _ hw⟩
    · exact ⟨List.mem_cons_of_mem _ (ih h).1, List.mem_cons_of_mem _ (ih h).2⟩

/-- Two different elements are a pair, in one of the two orders. -/
theorem mem_pairs (hu : u ∈ l) (hv : v ∈ l) (hne : u ≠ v) : (u, v) ∈ pairs l ∨ (v, u) ∈ pairs l := by
  induction l with
  | nil => cases hu
  | cons first rest ih =>
    unfold pairs
    rw [List.mem_append, List.mem_append]
    rcases List.mem_cons.1 hu with rfl | hu'
    · rcases List.mem_cons.1 hv with rfl | hv'
      · exact absurd rfl hne
      · exact .inl (.inl (List.mem_map_of_mem hv'))
    · rcases List.mem_cons.1 hv with rfl | hv'
      · exact .inr (.inl (List.mem_map_of_mem hu'))
      · exact (ih hu' hv').imp .inr .inr

end

/-- **The strengths of the pairs of some columns are those of any two of them.** -/
theorem mem_strengths :
    x ∈ (pairs columns).filterMap (fun (a, b) => c.strength? a b) ↔
      ∃ a ∈ columns, ∃ b ∈ columns, c.strength? a b = some x := by
  rw [List.mem_filterMap]
  constructor
  · rintro ⟨⟨a, b⟩, hp, hx⟩
    obtain ⟨ha, hb⟩ := mem_of_mem_pairs hp
    exact ⟨a, ha, b, hb, hx⟩
  · rintro ⟨a, ha, b, hb, hx⟩
    obtain ⟨hne, -⟩ := strength?_eq_some_iff.1 hx
    rcases mem_pairs ha hb hne with hp | hp
    · exact ⟨_, hp, hx⟩
    · exact ⟨_, hp, (strength?_comm c b a).trans hx⟩

/-- **The strongest correlation depends on nothing but which columns are given.** -/
theorem strongest_congr_columns {others : List String} (h : ∀ a, a ∈ columns ↔ a ∈ others) :
    c.strongest columns = c.strongest others := by
  unfold strongest
  refine foldl_atLeast_congr (by decide) (by decide) (fun x hx => ?_) fun x => ?_
  · obtain ⟨a, -, b, -, hs⟩ := mem_strengths.1 hx
    exact strength?_spec hs
  · rw [mem_strengths, mem_strengths]
    simp only [h]

end QueryForecast.Correlations
