import QueryForecast.Boosting.Ensemble
import QueryForecast.Proofs.Boosting.Growing
import QueryForecast.Proofs.Random.Distinct

/-!
# Every round adds a tree of routed means

A round grows its tree on the residuals of some rows. Which of them a leaf was made of is only known
while the tree is grown; here it is read off the finished tree, by walking the rows through it.

* `residuals`, `sampledRows` — what a round explains, and the positions of the rows it is grown on.
* `routed` — the sampled rows that the walk takes to a given leaf, in ascending order.
* `RoutedMeans` — every leaf holds the value for exactly the rows that are routed to it.
* `round_eq` — a round in terms of the tree that it grows.
* `grown_routedMeans` — the tree that a round adds has `RoutedMeans`.
* `fit_leaves_are_routed_means` — so every tree of every fit has it, for the residuals and the
  sample of its own round.
-/

namespace QueryForecast.Ensemble

open Numeric QueryForecast.Random

variable {settings : Settings} {width : Nat} {rows : List Row} {targets : List Float}

/-- What the predictions leave to be explained of each target. -/
def residuals (targets predictions : List Float) : List Float :=
  List.zipWith (fun target prediction => target - prediction) targets predictions

/-- The positions of the rows that a round is grown on. -/
def sampledRows (settings : Settings) (rows : List Row) (p : Progress) : List Nat :=
  (samplePortion rows.length settings.rowFraction p.generator).1

/-- The columns that a round may split on. -/
def sampledColumns (settings : Settings) (width : Nat) (rows : List Row) (p : Progress) :
    List Nat :=
  (samplePortion width settings.columnFraction
    (samplePortion rows.length settings.rowFraction p.generator).2).1

/-- The sampled rows that the tree routes to a leaf. -/
def routed (tree : RegressionTree) (rows : List Row) (sampled : List Nat) (leaf : Nat) :
    List Nat :=
  sampled.filter fun i => tree.leafOf? (rows.getD i #[]) == some leaf

/-- **Each leaf holds the value for the rows that are routed to it**, and these share the sampled
rows out among the leaves. -/
structure RoutedMeans (settings : Settings) (rows : List Row) (residuals : List Float)
    (sampled : List Nat) (tree : RegressionTree) : Prop where
  /-- The walk of every row ends at a leaf, and the row is predicted by the number there. -/
  lands : ∀ row, ∃ leaf v,
    tree.leafOf? row = some leaf ∧ tree.nodes[leaf]? = some (.leaf v) ∧ tree.predict row = v
  /-- The number at a leaf is the shrunken mean of the residuals that are routed to it, added up in
  ascending order of the rows. -/
  value : ∀ leaf v, tree.nodes[leaf]? = some (.leaf v) →
    v = settings.learningRate *
        sum ((routed tree rows sampled leaf).map fun i => residuals.getD i 0.0) /
      (ofNat (routed tree rows sampled leaf).length + settings.lambda)
  /-- Each sampled row is routed to one leaf and to no other. -/
  shared : ∀ i ∈ sampled, ∃ leaf v, tree.nodes[leaf]? = some (.leaf v) ∧
    ∀ other, i ∈ routed tree rows sampled other ↔ other = leaf

/-! ## Samples at positions -/

theorem pick_eq_map {α : Type} {xs : List α} {positions : List Nat} {f : Nat → α}
    (h : ∀ i ∈ positions, xs[i]? = some (f i)) : pick xs positions = positions.map f := by
  unfold pick
  dsimp only
  rw [← List.filterMap_eq_map]
  refine List.filterMap_congr fun i hi => ?_
  rw [List.getElem?_toArray]
  exact h i hi

/-- The sample of the row with the given position. -/
def sampleAt (rows : List Row) (residuals : List Float) (i : Nat) : Sample :=
  ⟨rows.getD i #[], residuals.getD i 0.0⟩

theorem residualSamples_getElem? {predictions : List Float} {i : Nat}
    (ht : targets.length = rows.length) (hp : predictions.length = rows.length)
    (hi : i < rows.length) :
    (residualSamples rows targets predictions)[i]? =
      some (sampleAt rows (residuals targets predictions) i) := by
  have hit : i < targets.length := by omega
  have hip : i < predictions.length := by omega
  have hrow : rows[i]? = some rows[i] := List.getElem?_eq_getElem hi
  have ht' : targets[i]? = some targets[i] := List.getElem?_eq_getElem hit
  have hp' : predictions[i]? = some predictions[i] := List.getElem?_eq_getElem hip
  have hzip : (rows.zip (targets.zip predictions))[i]? = some (rows[i], targets[i], predictions[i]) :=
    List.getElem?_zip_eq_some.2 ⟨hrow, List.getElem?_zip_eq_some.2 ⟨ht', hp'⟩⟩
  have hresidual : (residuals targets predictions)[i]? = some (targets[i] - predictions[i]) := by
    rw [residuals, List.getElem?_zipWith, ht', hp']
  rw [residualSamples, List.getElem?_map, hzip, sampleAt, List.getD_eq_getElem?_getD,
    List.getD_eq_getElem?_getD, hrow, hresidual]
  rfl

/-! ## One round -/

/-- The tree that a round grows. -/
def grown (settings : Settings) (width : Nat) (rows : List Row) (targets : List Float)
    (p : Progress) : Growth :=
  Growth.grow settings (sampledColumns settings width rows p) settings.maxDepth
    (pick (residualSamples rows targets p.predictions) (sampledRows settings rows p))

theorem toTree_grow (columns : List Nat) (depth : Nat) (samples : List Sample) :
    (Builder.grow settings columns depth samples .empty).2.toTree =
      (Growth.grow settings columns depth samples).toTree := by
  rw [Builder.grow_eq]
  simp [Builder.append, Builder.empty, Builder.toTree, Growth.toTree]

theorem splits_grow (columns : List Nat) (depth : Nat) (samples : List Sample) :
    (Builder.grow settings columns depth samples .empty).2.splits.toList =
      (Growth.grow settings columns depth samples).splits := by
  rw [Builder.grow_eq]
  simp [Builder.append, Builder.empty]

/-- What a round does, in terms of the tree that it grows. -/
theorem round_eq (settings : Settings) (width : Nat) (rows : List Row) (targets : List Float)
    (p : Progress) :
    round settings width rows targets p =
      { trees := p.trees ++ [(grown settings width rows targets p).toTree]
        columnGain := addGains p.columnGain (grown settings width rows targets p).splits
        predictions := List.zipWith
          (fun prediction row =>
            prediction + (grown settings width rows targets p).toTree.predict row)
          p.predictions rows
        generator := (samplePortion width settings.columnFraction
          (samplePortion rows.length settings.rowFraction p.generator).2).2 } := by
  unfold round grown
  dsimp only
  rw [toTree_grow, splits_grow]
  rfl

/-- The samples that reach a leaf while the tree grows are those of the rows that the finished tree
routes to it. -/
theorem reaching_sampleAt (t : Growth) (rows : List Row) (residuals : List Float)
    (sampled : List Nat) (leaf : Nat) :
    t.reaching 0 leaf (sampled.map (sampleAt rows residuals)) =
      (routed t.toTree rows sampled leaf).map (sampleAt rows residuals) := by
  unfold Growth.reaching routed
  rw [List.filter_map]
  congr 1
  refine List.filter_congr fun i _ => ?_
  rw [Growth.leafOf?_toTree]
  simp [sampleAt]

/-- A tree that is grown on some of the rows holds their routed means. -/
theorem toTree_routedMeans (settings : Settings) (columns : List Nat) (depth : Nat)
    (rows : List Row) (residuals : List Float) (sampled : List Nat) :
    RoutedMeans settings rows residuals sampled
      (Growth.grow settings columns depth (sampled.map (sampleAt rows residuals))).toTree := by
  generalize hg : Growth.grow settings columns depth (sampled.map (sampleAt rows residuals)) = t
  refine ⟨fun row => ?_, fun leaf v hv => ?_, fun i hi => ?_⟩
  · have hl := t.leafOf?_toTree row
    obtain ⟨v, hv⟩ := RegressionTree.exists_leaf_of_leafFrom? hl
    exact ⟨_, v, hl, hv, RegressionTree.predict_of_leafOf? hl hv⟩
  · have hn : (t.nodes 0)[leaf]? = some (.leaf v) := by
      rw [← hv, Growth.toTree, List.getElem?_toArray]
    rw [← hg] at hn
    have hm := Growth.leaf_value_grow settings columns hn
    rw [hg, Nat.zero_add, reaching_sampleAt] at hm
    rw [hm, Growth.valueOver, leafValue, List.map_map, List.length_map]
    rfl
  · have hl := t.leafOf?_toTree (rows.getD i #[])
    obtain ⟨v, hv⟩ := RegressionTree.exists_leaf_of_leafFrom? hl
    refine ⟨_, v, hv, fun other => ?_⟩
    unfold routed
    rw [List.mem_filter, hl, beq_iff_eq, Option.some_inj]
    exact ⟨fun h => h.2.symm, fun h => ⟨hi, h.symm⟩⟩

theorem sampledRows_ascending (settings : Settings) (rows : List Row) (p : Progress) :
    (sampledRows settings rows p).Pairwise (· < ·) :=
  samplePortion_ascending _ _ _

theorem lt_of_mem_sampledRows {p : Progress} {i : Nat} (h : i ∈ sampledRows settings rows p) :
    i < rows.length :=
  lt_of_mem_samplePortion h

/-- **The tree of a round holds the routed means** of the residuals that the round starts from. -/
theorem grown_routedMeans {p : Progress} (ht : targets.length = rows.length)
    (hp : p.predictions.length = rows.length) :
    RoutedMeans settings rows (residuals targets p.predictions) (sampledRows settings rows p)
      (grown settings width rows targets p).toTree := by
  unfold grown
  rw [pick_eq_map fun i hi => residualSamples_getElem? ht hp (lt_of_mem_sampledRows hi)]
  exact toTree_routedMeans _ _ _ _ _ _

/-! ## All rounds -/

theorem rounds_succ (n : Nat) (p : Progress) :
    rounds settings width rows targets (n + 1) p =
      round settings width rows targets (rounds settings width rows targets n p) := by
  induction n generalizing p with
  | zero => rfl
  | succ n ih => exact ih (round settings width rows targets p)

theorem length_predictions_round {p : Progress} (hp : p.predictions.length = rows.length) :
    (round settings width rows targets p).predictions.length = rows.length := by
  rw [round_eq]
  simp [hp]

theorem length_predictions_rounds {p : Progress} (hp : p.predictions.length = rows.length)
    (n : Nat) : (rounds settings width rows targets n p).predictions.length = rows.length := by
  induction n generalizing p with
  | zero => exact hp
  | succ n ih => exact ih (length_predictions_round hp)

/-- The trees after some rounds, one of each round. -/
theorem trees_rounds (p : Progress) (n : Nat) :
    (rounds settings width rows targets n p).trees =
      p.trees ++ (List.range n).map fun k =>
        (grown settings width rows targets (rounds settings width rows targets k p)).toTree := by
  induction n with
  | zero => simp [rounds]
  | succ n ih =>
    rw [rounds_succ, round_eq, ih, List.range_succ, List.map_append, List.append_assoc]
    rfl

/-- The state of a fit before the round with the given index. -/
def beforeRound (settings : Settings) (rows : List Row) (targets : List Float) (n : Nat) :
    Progress :=
  let width := (rows.head?.map Array.size).getD 0
  rounds settings width rows targets n (start settings width targets)

theorem fit_of_matrixFault? (h : matrixFault? settings rows targets = none) :
    fit settings rows targets = .ok (fitMatrix settings rows targets) := by
  rw [fit, h]

theorem fit_eq_ok {e : Ensemble} (h : fit settings rows targets = .ok e) :
    matrixFault? settings rows targets = none ∧ e = fitMatrix settings rows targets := by
  unfold fit at h
  split at h
  · cases h
  · rename_i hf
    cases h
    exact ⟨hf, rfl⟩

theorem length_of_matrixFault? (h : matrixFault? settings rows targets = none) :
    targets.length = rows.length := by
  unfold matrixFault? at h
  split at h
  · cases h
  · split at h
    · cases h
    · split at h
      · cases h
      · rename_i hl
        omega

/-- **Growing and walking a tree agree**: each round of a fit grows its tree on an ascending sample
of the rows, and every leaf of that tree holds the value for exactly those sampled rows that the
served tree routes to it. -/
theorem fit_leaves_are_routed_means {e : Ensemble} (h : fit settings rows targets = .ok e) :
    e.trees.length = settings.rounds ∧
      ∀ n < settings.rounds, ∃ tree, e.trees[n]? = some tree ∧
        (sampledRows settings rows (beforeRound settings rows targets n)).Pairwise (· < ·) ∧
        (∀ i ∈ sampledRows settings rows (beforeRound settings rows targets n),
          i < rows.length) ∧
        RoutedMeans settings rows
          (residuals targets (beforeRound settings rows targets n).predictions)
          (sampledRows settings rows (beforeRound settings rows targets n)) tree := by
  obtain ⟨hf, rfl⟩ := fit_eq_ok h
  have ht := length_of_matrixFault? hf
  have hs : ∀ width, (start settings width targets).predictions.length = rows.length := by
    intro width
    rw [← ht]
    exact List.length_map _
  unfold fitMatrix beforeRound
  dsimp only
  rw [trees_rounds, show ∀ width, (start settings width targets).trees = [] from fun _ => rfl,
    List.nil_append]
  refine ⟨by simp, fun n hn => ⟨_, by rw [List.getElem?_map, List.getElem?_range hn]; rfl, ?_⟩⟩
  exact ⟨sampledRows_ascending _ _ _, fun i hi => lt_of_mem_sampledRows hi,
    grown_routedMeans ht (length_predictions_rounds (hs _) n)⟩

/-- Two rounds over four rows, all of them sampled: the first one starts from the mean, 2. -/
theorem fit_leaves_are_routed_means_of_four_rows :
    ∃ e tree, fit { rounds := 2, rowFraction := 1.0 } [#[0.0], #[1.0], #[2.0], #[3.0]]
        [1.0, 1.0, 3.0, 3.0] = .ok e ∧
      e.trees.length = 2 ∧ e.trees[0]? = some tree ∧
      RoutedMeans { rounds := 2, rowFraction := 1.0 } [#[0.0], #[1.0], #[2.0], #[3.0]]
        [-1.0, -1.0, 1.0, 1.0] [0, 1, 2, 3] tree := by
  have he := fit_of_matrixFault? (show matrixFault? { rounds := 2, rowFraction := 1.0 }
    [#[0.0], #[1.0], #[2.0], #[3.0]] [1.0, 1.0, 3.0, 3.0] = none by decide +kernel)
  obtain ⟨hl, ht⟩ := fit_leaves_are_routed_means he
  obtain ⟨tree, h0, -, -, hm⟩ := ht 0 (by decide)
  rw [show residuals _ _ = [-1.0, -1.0, 1.0, 1.0] by decide +kernel,
    show sampledRows _ _ _ = [0, 1, 2, 3] by decide +kernel] at hm
  exact ⟨_, tree, he, hl, h0, hm⟩

end QueryForecast.Ensemble
