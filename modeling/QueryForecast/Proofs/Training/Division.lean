import QueryForecast.Proofs.Boosting.Rounds
import QueryForecast.Proofs.Random.Distinct
import QueryForecast.Training.Dataset

/-!
# Dividing a dataset

Which positions are held out depends on their number, the fraction and the seed alone, and never on
what stands there. Each position goes to one of the two parts, and neither part is empty when there
are at least two.

* `Dataset.division_perm` — the two parts are all positions.
* `Dataset.length_division` — how many positions each part has.
* `Dataset.pick_map` — picking what was made of some elements is making it of the picked ones.
* `Example`, `Dataset.examples` — the rows of a dataset, each with its outcome; `Dataset.ofExamples` puts
  them into two lists again, and `Dataset.examples_pick` picks them one by one.
-/

namespace QueryForecast

open Numeric QueryForecast.Random

/-- A row of feature values with the outcome observed for it. -/
structure Example where
  row : Row
  outcome : Float
  deriving DecidableEq, Repr, Inhabited

namespace Dataset

variable {n : Nat} (fraction : Float) (seed : UInt64)

theorem divide_eq (d : Dataset) : d.divide fraction seed =
    (d.pick (division d.size fraction seed).1, d.pick (division d.size fraction seed).2) :=
  rfl

/-- **Every position goes to one of the two parts.** -/
theorem division_perm (n : Nat) :
    ((division n fraction seed).2 ++ (division n fraction seed).1).Perm (List.range n) := by
  have h := shuffled_perm n (.ofSeed seed)
  rwa [← List.take_append_drop (heldOutCount n fraction) (shuffled n (.ofSeed seed)).1] at h

theorem lt_of_mem_division {i : Nat}
    (h : i ∈ (division n fraction seed).1 ∨ i ∈ (division n fraction seed).2) : i < n := by
  have hm : i ∈ (division n fraction seed).2 ++ (division n fraction seed).1 :=
    List.mem_append.2 h.symm
  exact List.mem_range.1 ((division_perm fraction seed n).mem_iff.1 hm)

/-- Of at least two rows some are held out, and some are not. -/
theorem heldOutCount_bounds (h : 2 ≤ n) :
    1 ≤ heldOutCount n fraction ∧ heldOutCount n fraction ≤ n - 1 := by
  unfold heldOutCount
  rw [if_neg (by omega)]
  exact ⟨le_portion (by omega), portion_le⟩

theorem length_division (n : Nat) :
    (division n fraction seed).1.length = n - heldOutCount n fraction ∧
      (division n fraction seed).2.length = min (heldOutCount n fraction) n := by
  have h := (shuffled_perm n (.ofSeed seed)).length_eq
  rw [List.length_range] at h
  constructor
  · show ((shuffled n (.ofSeed seed)).1.drop _).length = _
    rw [List.length_drop, h]
  · show ((shuffled n (.ofSeed seed)).1.take _).length = _
    rw [List.length_take, h]

/-- Both parts of at least two positions have some. -/
theorem length_division_pos (h : 2 ≤ n) :
    1 ≤ (division n fraction seed).1.length ∧ 1 ≤ (division n fraction seed).2.length ∧
      (division n fraction seed).1.length + (division n fraction seed).2.length = n := by
  obtain ⟨hl, hu⟩ := heldOutCount_bounds fraction h
  obtain ⟨h1, h2⟩ := length_division fraction seed n
  omega

/-! ## Picking -/

variable {α β : Type} {xs : List α} {positions : List Nat}

/-- Picking from what was made of some elements is making it of the picked ones. -/
theorem pick_map (f : α → β) :
    Ensemble.pick (xs.map f) positions = (Ensemble.pick xs positions).map f := by
  unfold Ensemble.pick
  dsimp only
  rw [List.map_filterMap]
  apply List.filterMap_congr
  intro i _
  rw [List.getElem?_toArray, List.getElem?_toArray, List.getElem?_map]

/-- Positions that are all there pick what stands at each of them, in their order. -/
theorem map_some_pick (h : ∀ i ∈ positions, i < xs.length) :
    (Ensemble.pick xs positions).map some = positions.map (xs[·]?) := by
  unfold Ensemble.pick
  dsimp only
  induction positions with
  | nil => rfl
  | cons i rest ih =>
    rw [List.forall_mem_cons] at h
    rw [List.filterMap_cons_some (by rw [List.getElem?_toArray, List.getElem?_eq_getElem h.1]),
      List.map_cons, ih h.2, List.map_cons, List.getElem?_eq_getElem h.1]

/-- So they pick one element each. -/
theorem length_pick (h : ∀ i ∈ positions, i < xs.length) :
    (Ensemble.pick xs positions).length = positions.length := by
  simpa using congrArg List.length (map_some_pick h)

/-- Picking at every position changes nothing. -/
theorem pick_range (xs : List α) : Ensemble.pick xs (List.range xs.length) = xs := by
  apply List.map_injective_iff.2 fun _ _ => Option.some.inj
  rw [map_some_pick fun i hi => List.mem_range.1 hi]
  refine List.ext_getElem (by simp) fun i h _ => ?_
  rw [List.length_map, List.length_range] at h
  simp [List.getElem?_eq_getElem h]

theorem mem_of_mem_pick {x : α} (h : x ∈ Ensemble.pick xs positions) : x ∈ xs := by
  obtain ⟨i, -, hi⟩ := List.mem_filterMap.1 h
  rw [List.getElem?_toArray] at hi
  exact List.mem_of_getElem? hi

/-! ## Examples -/

/-- The rows of a dataset, each with its outcome. -/
def examples (d : Dataset) : List Example :=
  (d.rows.zip d.outcomes).map fun (row, outcome) => ⟨row, outcome⟩

/-- The dataset of some examples. -/
def ofExamples (s : Schema) (examples : List Example) : Dataset where
  schema := s
  rows := examples.map (·.row)
  outcomes := examples.map (·.outcome)
  aligned := by simp

theorem length_examples (d : Dataset) : d.examples.length = d.size := by
  unfold examples size
  rw [List.length_map, List.length_zip, ← d.aligned, Nat.min_self]

theorem size_ofExamples (s : Schema) (xs : List Example) : (ofExamples s xs).size = xs.length :=
  List.length_map _

theorem examples_ofExamples (s : Schema) (xs : List Example) : (ofExamples s xs).examples = xs := by
  unfold examples ofExamples
  rw [List.zip_map', List.map_map]
  exact List.map_id xs

/-- The two lists of a dataset are those of its examples. -/
theorem ofExamples_examples (d : Dataset) : ofExamples d.schema d.examples = d := by
  apply Dataset.ext
  · rfl
  · show (List.map _ (d.rows.zip d.outcomes)).map Example.row = d.rows
    rw [List.map_map]
    exact List.map_fst_zip (Nat.le_of_eq d.aligned)
  · show (List.map _ (d.rows.zip d.outcomes)).map Example.outcome = d.outcomes
    rw [List.map_map]
    exact List.map_snd_zip (Nat.le_of_eq d.aligned.symm)

/-- **A row is picked together with its outcome.** -/
theorem pick_ofExamples (s : Schema) (xs : List Example) (positions : List Nat) :
    (ofExamples s xs).pick positions = ofExamples s (Ensemble.pick xs positions) :=
  Dataset.ext rfl (pick_map _) (pick_map _)

theorem examples_pick (d : Dataset) (positions : List Nat) :
    (d.pick positions).examples = Ensemble.pick d.examples positions := by
  conv_lhs => rw [← d.ofExamples_examples, pick_ofExamples, examples_ofExamples]

end Dataset

end QueryForecast
