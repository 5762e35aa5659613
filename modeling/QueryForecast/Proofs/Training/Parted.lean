import QueryForecast.Proofs.Numeric.Ceiling
import QueryForecast.Proofs.Training.Division

/-!
# The two parts of a divided dataset

Both parts are gathered from the dataset by positions, and every position belongs to one of them. So
together they are the dataset again, in another order and with each row beside its own outcome.

* `Dataset.Gathered` — a part of a dataset, by the positions that it is made of.
* `Dataset.size_divide` — how many rows each part has.
* `Dataset.divide_perm` — the two parts together.
* `Dataset.divide_partitions` — all that is true of the parts.
-/

namespace QueryForecast.Dataset

open Numeric

variable {d : Dataset} {positions : List Nat}

/-- A part of a dataset: its rows stand at some positions of the dataset and its outcomes at the same
ones, under the same columns. -/
structure Gathered (d part : Dataset) (positions : List Nat) : Prop where
  schema : part.schema = d.schema
  rows : part.rows.map some = positions.map (d.rows[·]?)
  outcomes : part.outcomes.map some = positions.map (d.outcomes[·]?)

theorem gathered_pick (h : ∀ i ∈ positions, i < d.size) :
    Gathered d (d.pick positions) positions where
  schema := rfl
  rows := map_some_pick h
  outcomes := map_some_pick (by rwa [← d.aligned])

theorem size_pick (h : ∀ i ∈ positions, i < d.size) : (d.pick positions).size = positions.length :=
  length_pick h

variable (d) (fraction : Float) (seed : UInt64)

theorem size_divide : (d.divide fraction seed).1.size = d.size - heldOutCount d.size fraction ∧
    (d.divide fraction seed).2.size = min (heldOutCount d.size fraction) d.size := by
  obtain ⟨h1, h2⟩ := length_division fraction seed d.size
  exact ⟨(size_pick fun _ h => lt_of_mem_division _ _ (.inl h)).trans h1,
    (size_pick fun _ h => lt_of_mem_division _ _ (.inr h)).trans h2⟩

/-- **The examples of the two parts are those of the dataset.** -/
theorem divide_perm :
    ((d.divide fraction seed).2.examples ++ (d.divide fraction seed).1.examples).Perm d.examples := by
  have h : (Ensemble.pick d.examples
      ((division d.size fraction seed).2 ++ (division d.size fraction seed).1)).Perm
      (Ensemble.pick d.examples (List.range d.size)) :=
    (division_perm fraction seed d.size).filterMap _
  rw [← d.length_examples, pick_range] at h
  rw [divide_eq, examples_pick, examples_pick, ← d.length_examples]
  rwa [Ensemble.pick, List.filterMap_append] at h

/-- **Dividing a dataset partitions it.** Each position of the dataset goes to one of the parts, once,
and a part holds the row and the outcome of each of its positions. So the pairs of both parts are
those of the dataset. The part that is held out is the fraction of the dataset, rounded up, but for a
dataset of several rows at least one and not all of them; a smaller one is not divided. The bound
of `2 ^ 64` is that of the counter, which no dataset exceeds. -/
theorem divide_partitions (d : Dataset) (fraction : Float) (seed : UInt64)
    (h0 : 0.0 < fraction) (h1 : fraction < 1.0) :
    ∃ training heldOut : List Nat,
      (heldOut ++ training).Perm (List.range d.size) ∧
      Gathered d (d.divide fraction seed).1 training ∧
      Gathered d (d.divide fraction seed).2 heldOut ∧
      ((d.divide fraction seed).2.examples ++ (d.divide fraction seed).1.examples).Perm d.examples ∧
      (d.divide fraction seed).1.size + (d.divide fraction seed).2.size = d.size ∧
      (d.size ≤ 1 → (d.divide fraction seed).2.size = 0) ∧
      (2 ≤ d.size → 1 ≤ (d.divide fraction seed).1.size ∧ 1 ≤ (d.divide fraction seed).2.size) ∧
      (2 ≤ d.size → d.size ≤ 2 ^ 64 → (d.divide fraction seed).2.size =
        min (max ⌈val (ofNat d.size * fraction)⌉₊ 1) (d.size - 1)) := by
  obtain ⟨hs1, hs2⟩ := size_divide d fraction seed
  have hone : d.size ≤ 1 → heldOutCount d.size fraction = 0 := fun h => if_pos h
  have hmore := heldOutCount_bounds (n := d.size) fraction
  refine ⟨(division d.size fraction seed).1, (division d.size fraction seed).2,
    division_perm fraction seed d.size,
    gathered_pick fun _ h => lt_of_mem_division _ _ (.inl h),
    gathered_pick fun _ h => lt_of_mem_division _ _ (.inr h),
    divide_perm d fraction seed, ?_, ?_, ?_, fun h2 h64 => ?_⟩
  · by_cases h : d.size ≤ 1
    · have := hone h
      omega
    · have := hmore (by omega)
      omega
  · intro h
    rw [hs2, hone h, Nat.zero_min]
  · intro h
    have := hmore h
    omega
  · rw [hs2, heldOutCount, if_neg (by omega), portion_eq 1 (d.size - 1) h64 h0 h1]
    omega

/-- A quarter of ten rows is three of them. -/
theorem divide_partitions_ten :
    let d : Dataset := ⟨⟨["x"], [("x", 0)], by decide, by decide, rfl⟩,
      (List.range 10).map fun i => #[ofNat i], (List.range 10).map fun i => ofNat (i * i), rfl⟩
    (0.0 : Float) < 0.25 ∧ (0.25 : Float) < 1.0 ∧
      ⌈val (ofNat 10 * 0.25)⌉₊ = 3 ∧
      (d.divide 0.25 7).1.size = 7 ∧ (d.divide 0.25 7).2.size = 3 ∧
      ((d.divide 0.25 7).2.examples ++ (d.divide 0.25 7).1.examples).Perm d.examples := by
  intro d
  have h0 : (0.0 : Float) < 0.25 := by decide +kernel
  have h1 : (0.25 : Float) < 1.0 := by decide +kernel
  have hd : d.size = 10 := rfl
  have hheld : (d.divide 0.25 7).2.size = 3 := by
    rw [(size_divide d 0.25 7).2, hd, show heldOutCount 10 0.25 = 3 by decide +kernel]
    rfl
  obtain ⟨-, -, -, -, -, hperm, hsum, -, -, hceil⟩ := divide_partitions d 0.25 7 h0 h1
  have hceil := hceil (by rw [hd]; decide) (by rw [hd]; decide)
  rw [hd] at hceil hsum
  exact ⟨h0, h1, by omega, by omega, hheld, hperm⟩

end QueryForecast.Dataset
