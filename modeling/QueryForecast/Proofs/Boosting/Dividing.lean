import QueryForecast.Proofs.Boosting.Arranged
import QueryForecast.Proofs.Boosting.Separating

/-!
# Splits divide the rows that reach them

While a tree grows, each split is found for the samples of its node. Here these samples are read off
the finished tree: they are those whose walk visits the node.

* `RegressionTree.path`, `Ensemble.arriving` — the nodes that a row visits, and the sampled rows that
  visit a node.
* `Growth.Divided`, `Growth.divided_grow` — every split of a growing tree divides its samples.
* `Growth.visits` — the nodes of a growing tree, each with its samples.
* `Growth.arriving_of_visits` — these are the samples that visit the node.
* `Ensemble.Dividing` — what the splits of a tree leave on either side, and its leaves.
* `Ensemble.fit_splits_divide` — the trees of every fit divide their sampled rows, as far as their
  thresholds are finite.
-/

namespace QueryForecast

open Numeric Split QueryForecast.Random

namespace RegressionTree

/-- The nodes that a row visits from a node on, in at most `fuel` steps. -/
def pathFrom (t : RegressionTree) (row : Row) : Nat → Nat → List Nat
  | 0, _ => []
  | fuel + 1, index =>
    match t.nodes[index]? with
    | some (.split column threshold below above) =>
      index :: t.pathFrom row fuel (if row.at column < threshold then below else above)
    | some (.leaf _) => [index]
    | none => []

/-- The nodes that a row visits from the root on. -/
def path (t : RegressionTree) (row : Row) : List Nat :=
  t.pathFrom row (t.nodes.size + 1) 0

/-- No split has an infinite or undefined threshold. -/
def FiniteThresholds (t : RegressionTree) : Prop :=
  ∀ (i column : Nat) (threshold : Float) (below above : Nat),
    t.nodes[i]? = some (.split column threshold below above) → threshold.isFinite = true

end RegressionTree

namespace Growth

theorem finiteThresholds_toTree_iff {t : Growth} :
    t.toTree.FiniteThresholds ↔ ∀ c ∈ t.splits, c.threshold.isFinite = true := by
  constructor
  · intro h c hc
    have hm : (c.column, c.threshold) ∈ (t.nodes 0).filterMap Node.test? := by
      rw [filterMap_test?_nodes]
      exact List.mem_map_of_mem hc
    obtain ⟨node, hn, ht⟩ := List.mem_filterMap.1 hm
    obtain ⟨i, hi⟩ := List.mem_iff_getElem?.1 hn
    cases node with
    | leaf value => cases ht
    | split column threshold below above =>
      cases ht
      exact h i _ _ below above (by rw [toTree, List.getElem?_toArray, hi])
  · intro h i column threshold below above hi
    obtain ⟨c, hc, -, rfl⟩ := test_mem_splits hi
    exact h c hc

theorem forall_splits_split {P : Candidate → Prop} {c : Candidate} {below above : Growth} :
    (∀ d ∈ (split c below above).splits, P d) ↔
      P c ∧ (∀ d ∈ below.splits, P d) ∧ ∀ d ∈ above.splits, P d := by
  rw [splits_split, List.forall_mem_cons, List.forall_mem_append]

/-! ## Samples of a node -/

/-- Every split divides its samples. -/
def Divided (minRows : Nat) : Growth → List Sample → Prop
  | .leaf _, _ => True
  | .split c below above, samples =>
    Divides minRows c.column c.threshold samples ∧
      below.Divided minRows (lowerHalf c.column c.threshold samples) ∧
      above.Divided minRows (upperHalf c.column c.threshold samples)

/-- **Every split of a tree that is grown divides its samples.** -/
theorem divided_grow (settings : Settings) (columns : List Nat) (depth : Nat)
    {samples : List Sample}
    (hf : ∀ s ∈ samples, ∀ column ∈ columns, (s.row.at column).isFinite = true) :
    (grow settings columns depth samples).Divided settings.minLeafRows samples := by
  induction depth generalizing samples with
  | zero => trivial
  | succ depth ih =>
    obtain hg | ⟨c, hc, hg⟩ := grow_succ settings columns depth samples
    · rw [hg]
      trivial
    · rw [hg]
      exact ⟨divides_of_find? hc hf, ih fun s hs => hf s (List.mem_filter.1 hs).1,
        ih fun s hs => hf s (List.mem_filter.1 hs).1⟩

/-- The nodes of a tree in their order, each with its samples. -/
def visits : Growth → Nat → List Sample → List (Node × List Sample)
  | .leaf value, _, samples => [(.leaf value, samples)]
  | .split c below above, index, samples =>
    (.split c.column c.threshold (index + 1) (index + 1 + below.size), samples) ::
      (below.visits (index + 1) (lowerHalf c.column c.threshold samples) ++
        above.visits (index + 1 + below.size) (upperHalf c.column c.threshold samples))

theorem mem_visits_split {c : Candidate} {below above : Growth} {index : Nat} {samples : List Sample}
    {visit : Node × List Sample} :
    visit ∈ (split c below above).visits index samples ↔
      visit = (.split c.column c.threshold (index + 1) (index + 1 + below.size), samples) ∨
        visit ∈ below.visits (index + 1) (lowerHalf c.column c.threshold samples) ∨
        visit ∈ above.visits (index + 1 + below.size) (upperHalf c.column c.threshold samples) := by
  rw [visits, List.mem_cons, List.mem_append]

theorem map_fst_visits (t : Growth) (index : Nat) (samples : List Sample) :
    (t.visits index samples).map Prod.fst = t.nodes index := by
  induction t generalizing index samples with
  | leaf value => rfl
  | split c below above hb ha => rw [visits, List.map_cons, List.map_append, hb, ha, nodes]

theorem length_visits (t : Growth) (index : Nat) (samples : List Sample) :
    (t.visits index samples).length = t.size := by
  rw [← List.length_map (f := Prod.fst), map_fst_visits, length_nodes]

theorem divides_of_mem_visits {minRows : Nat} {t : Growth} {index : Nat} {samples arrived : List Sample}
    {column below above : Nat} {threshold : Float} (hd : t.Divided minRows samples)
    (h : (.split column threshold below above, arrived) ∈ t.visits index samples) :
    Divides minRows column threshold arrived := by
  induction t generalizing index samples with
  | leaf value => cases List.mem_singleton.1 h
  | split c lower upper hb ha =>
    obtain ⟨hc, hdb, hda⟩ := hd
    rcases mem_visits_split.1 h with h | h | h
    · cases h
      exact hc
    · exact hb hdb h
    · exact ha hda h

/-- Thresholds are finite where the differences of the samples are. -/
theorem isFinite_of_mem_splits {minRows : Nat} {t : Growth} {samples : List Sample}
    (hd : t.Divided minRows samples)
    (hs : ∀ c ∈ t.splits, ∀ s ∈ samples, ∀ s' ∈ samples,
      (s.row.at c.column - s'.row.at c.column).isFinite = true) :
    ∀ c ∈ t.splits, c.threshold.isFinite = true := by
  induction t generalizing samples with
  | leaf value => exact fun c hc => nomatch hc
  | split c below above hb ha =>
    obtain ⟨hc, hdb, hda⟩ := hd
    obtain ⟨hcs, hsb, hsa⟩ := forall_splits_split.1 hs
    refine forall_splits_split.2 ⟨hc.finite hcs, hb hdb ?_, ha hda ?_⟩
    · exact fun d hd s hs s' hs' => hsb d hd s (List.mem_filter.1 hs).1 s' (List.mem_filter.1 hs').1
    · exact fun d hd s hs s' hs' => hsa d hd s (List.mem_filter.1 hs).1 s' (List.mem_filter.1 hs').1

/-! ## Leaves -/

theorem exists_leaf_visit (t : Growth) (index : Nat) (samples : List Sample) :
    ∃ v arrived, (.leaf v, arrived) ∈ t.visits index samples := by
  induction t generalizing index samples with
  | leaf value => exact ⟨value, samples, List.mem_singleton_self _⟩
  | split c below above hb ha =>
    obtain ⟨v, arrived, h⟩ := hb (index + 1) (lowerHalf c.column c.threshold samples)
    exact ⟨v, arrived, mem_visits_split.2 (.inr (.inl h))⟩

theorem eq_nil_of_mem_visits_nil {t : Growth} {index : Nat} {node : Node} {arrived : List Sample}
    (h : (node, arrived) ∈ t.visits index []) : arrived = [] := by
  induction t generalizing index with
  | leaf value =>
    cases List.mem_singleton.1 h
    rfl
  | split c below above hb ha =>
    rcases mem_visits_split.1 h with h | h | h
    · cases h
      rfl
    · exact hb h
    · exact ha h

/-- With finite thresholds, samples reach every leaf. -/
theorem leaf_ne_nil {minRows : Nat} (hm : 0 < minRows) {t : Growth} {index : Nat}
    {samples arrived : List Sample} {v : Float} (hd : t.Divided minRows samples)
    (hf : ∀ c ∈ t.splits, c.threshold.isFinite = true) (hs : samples ≠ [])
    (h : (.leaf v, arrived) ∈ t.visits index samples) : arrived ≠ [] := by
  induction t generalizing index samples with
  | leaf value =>
    cases List.mem_singleton.1 h
    exact hs
  | split c below above hb ha =>
    obtain ⟨hc, hdb, hda⟩ := hd
    obtain ⟨hcf, hfb, hfa⟩ := forall_splits_split.1 hf
    rcases mem_visits_split.1 h with h | h | h
    · cases h
    · exact hb hdb hfb (List.ne_nil_of_length_pos (hm.trans_le (hc.lower hcf))) h
    · exact ha hda hfa (List.ne_nil_of_length_pos (hm.trans_le (hc.upper hcf))) h

/-- Past an infinite threshold there is a leaf that no samples reach. -/
theorem exists_empty_leaf {minRows : Nat} {t : Growth} {samples : List Sample} {c : Candidate}
    (hd : t.Divided minRows samples) (hc : c ∈ t.splits) (hinf : c.threshold.isFinite = false)
    (index : Nat) : ∃ v, (.leaf v, []) ∈ t.visits index samples := by
  induction t generalizing index samples with
  | leaf value => cases hc
  | split d below above hb ha =>
    obtain ⟨hd, hdb, hda⟩ := hd
    rw [splits_split, List.mem_cons, List.mem_append] at hc
    rcases hc with rfl | hc | hc
    · obtain ⟨v, arrived, h⟩ := exists_leaf_visit above (index + 1 + below.size) []
      obtain rfl := eq_nil_of_mem_visits_nil h
      refine ⟨v, mem_visits_split.2 (.inr (.inr ?_))⟩
      rwa [hd.infinite hinf]
    · obtain ⟨v, h⟩ := hb hdb hc (index + 1)
      exact ⟨v, mem_visits_split.2 (.inr (.inl h))⟩
    · obtain ⟨v, h⟩ := ha hda hc (index + 1 + below.size)
      exact ⟨v, mem_visits_split.2 (.inr (.inr h))⟩

/-- With finite thresholds, every leaf has its rows. -/
theorem leafCount_mul_le {minRows : Nat} {t : Growth} {samples : List Sample}
    (hd : t.Divided minRows samples) (hf : ∀ c ∈ t.splits, c.threshold.isFinite = true)
    (hm : minRows ≤ samples.length) : t.leafCount * minRows ≤ samples.length := by
  induction t generalizing samples with
  | leaf value => rwa [leafCount, Nat.one_mul]
  | split c below above hb ha =>
    obtain ⟨hc, hdb, hda⟩ := hd
    obtain ⟨hcf, hfb, hfa⟩ := forall_splits_split.1 hf
    have hb := hb hdb hfb (hc.lower hcf)
    have ha := ha hda hfa (hc.upper hcf)
    have hl := length_halves c.column c.threshold samples
    rw [leafCount, Nat.add_mul]
    omega

theorem leafCount_le {minRows : Nat} (hm : 0 < minRows) {t : Growth} {samples : List Sample}
    (hd : t.Divided minRows samples) (hf : ∀ c ∈ t.splits, c.threshold.isFinite = true) :
    t.leafCount ≤ max 1 (samples.length / minRows) := by
  by_cases hs : minRows ≤ samples.length
  · exact le_max_of_le_right ((Nat.le_div_iff_mul_le hm).2 (leafCount_mul_le hd hf hs))
  · cases t with
    | leaf value => exact le_max_left _ _
    | split c below above =>
      -- A split would leave more samples on one side than there are.
      have hl := hd.1.lower (hf c List.mem_cons_self)
      have hle := length_halves c.column c.threshold samples
      omega

/-! ## Walks -/

/-- The nodes that a row visits, in the list of nodes whose root has the given index. -/
def pathOf (row : Row) : Growth → Nat → List Nat
  | .leaf _, index => [index]
  | .split c below above, index =>
    index :: if row.at c.column < c.threshold then below.pathOf row (index + 1)
      else above.pathOf row (index + 1 + below.size)

theorem mem_pathOf_bounds {row : Row} {t : Growth} {index i : Nat} (h : i ∈ t.pathOf row index) :
    index ≤ i ∧ i < index + t.size := by
  induction t generalizing index with
  | leaf value =>
    cases List.mem_singleton.1 h
    exact ⟨Nat.le_refl _, Nat.lt_succ_self _⟩
  | split c below above hb ha =>
    have hpb := size_pos below
    rw [pathOf, List.mem_cons] at h
    rw [size_split]
    rcases h with rfl | h
    · omega
    · split at h
      · have hi := hb h
        omega
      · have hi := ha h
        omega

/-- The walk through the listed nodes visits those that the growing tree has on the way. -/
theorem pathFrom_of_liesAt {tree : RegressionTree} (row : Row) {t : Growth} {index fuel : Nat}
    (h : t.LiesAt tree.nodes index) (hf : t.size ≤ fuel) :
    tree.pathFrom row fuel index = t.pathOf row index := by
  refine LiesAt.walk row
    (P := fun t index fuel => tree.pathFrom row fuel index = t.pathOf row index) ?_ ?_ h hf
  · intro value index fuel hn
    unfold RegressionTree.pathFrom
    rw [hn]
    rfl
  · intro c below above index fuel hn ih
    unfold RegressionTree.pathFrom pathOf
    rw [hn]
    dsimp only
    split <;> simpa [*] using ih

theorem path_toTree (t : Growth) (row : Row) : t.toTree.path row = t.pathOf row 0 :=
  pathFrom_of_liesAt row t.liesAt_toTree (by rw [size_toTree]; omega)

/-- The samples that visit the node with index `i`. -/
def arriving (t : Growth) (index i : Nat) (samples : List Sample) : List Sample :=
  samples.filter fun s => (t.pathOf s.row index).contains i

theorem arriving_root (t : Growth) (index : Nat) (samples : List Sample) :
    t.arriving index index samples = samples := by
  refine List.filter_eq_self.2 fun s _ => ?_
  cases t <;> simp [pathOf]

theorem arriving_below {c : Candidate} {below above : Growth} {index i : Nat} (hi : index < i)
    (hi' : i < index + 1 + below.size) (samples : List Sample) :
    (split c below above).arriving index i samples =
      below.arriving (index + 1) i (lowerHalf c.column c.threshold samples) := by
  unfold arriving lowerHalf
  rw [List.filter_filter]
  refine List.filter_congr fun s _ => ?_
  have hne : i ≠ index := by omega
  have ha : i ∉ above.pathOf s.row (index + 1 + below.size) := fun h =>
    absurd (mem_pathOf_bounds h).1 (by omega)
  rw [pathOf]
  split <;> simp [*]

theorem arriving_above {c : Candidate} {below above : Growth} {index i : Nat}
    (hi : index + 1 + below.size ≤ i) (samples : List Sample) :
    (split c below above).arriving index i samples =
      above.arriving (index + 1 + below.size) i (upperHalf c.column c.threshold samples) := by
  unfold arriving upperHalf
  rw [List.filter_filter]
  refine List.filter_congr fun s _ => ?_
  have hne : i ≠ index := by omega
  have hb : i ∉ below.pathOf s.row (index + 1) := fun h =>
    absurd (mem_pathOf_bounds h).2 (by omega)
  rw [pathOf]
  split <;> simp [*]

/-- **The samples of a node are those whose walk visits it.** -/
theorem arriving_of_visits {t : Growth} {index k : Nat} {samples arrived : List Sample} {node : Node}
    (h : (t.visits index samples)[k]? = some (node, arrived)) :
    arrived = t.arriving index (index + k) samples := by
  induction t generalizing index k samples with
  | leaf value =>
    cases k with
    | zero =>
      cases h
      exact (arriving_root _ _ _).symm
    | succ k => cases h
  | split c below above hb ha =>
    cases k with
    | zero =>
      cases h
      exact (arriving_root _ _ _).symm
    | succ k =>
      rw [visits, List.getElem?_cons_succ] at h
      by_cases hk : k < below.size
      · rw [List.getElem?_append_left (by rw [length_visits]; exact hk)] at h
        rw [arriving_below (by omega) (by omega), hb h, Nat.add_right_comm, Nat.add_assoc]
      · rw [List.getElem?_append_right (by rw [length_visits]; omega), length_visits] at h
        rw [arriving_above (by omega), ha h,
          show index + 1 + below.size + (k - below.size) = index + (k + 1) by omega]

theorem visits_of_toTree {t : Growth} {i : Nat} {node : Node} (samples : List Sample)
    (h : t.toTree.nodes[i]? = some node) :
    (t.visits 0 samples)[i]? = some (node, t.arriving 0 i samples) := by
  rw [toTree, List.getElem?_toArray, ← map_fst_visits t 0 samples, List.getElem?_map,
    Option.map_eq_some_iff] at h
  obtain ⟨⟨node', arrived⟩, hv, rfl⟩ := h
  have ha := arriving_of_visits hv
  rw [Nat.zero_add] at ha
  rw [hv, ha]

theorem toTree_of_visits {t : Growth} {i : Nat} {node : Node} {samples arrived : List Sample}
    (h : (t.visits 0 samples)[i]? = some (node, arrived)) : t.toTree.nodes[i]? = some node := by
  rw [toTree, List.getElem?_toArray, ← map_fst_visits t 0 samples, List.getElem?_map, h]
  rfl

end Growth

/-! ## Rows -/

namespace Ensemble

variable {settings : Settings} {width : Nat} {rows : List Row} {targets : List Float}

/-- The sampled rows that visit a node. -/
def arriving (tree : RegressionTree) (rows : List Row) (sampled : List Nat) (node : Nat) :
    List Nat :=
  sampled.filter fun i => (tree.path (rows.getD i #[])).contains node

/-- The rows that a split on a column sends below. -/
def rowsBelow (rows : List Row) (column : Nat) (threshold : Float) (positions : List Nat) :
    List Nat :=
  positions.filter fun i => decide ((rows.getD i #[]).at column < threshold)

/-- The rows that it sends above. -/
def rowsAbove (rows : List Row) (column : Nat) (threshold : Float) (positions : List Nat) :
    List Nat :=
  positions.filter fun i => !decide ((rows.getD i #[]).at column < threshold)

/-- **How the splits of a tree divide the sampled rows**: real splits are those with finite
thresholds. -/
structure Dividing (minRows width : Nat) (rows : List Row) (sampled : List Nat)
    (tree : RegressionTree) : Prop where
  /-- Enough rows go to either side of a split exactly when its threshold is finite. -/
  split : ∀ (i column : Nat) (threshold : Float) (below above : Nat),
    tree.nodes[i]? = some (.split column threshold below above) →
      (minRows ≤ (rowsBelow rows column threshold (arriving tree rows sampled i)).length ∧
        minRows ≤ (rowsAbove rows column threshold (arriving tree rows sampled i)).length ↔
          threshold.isFinite = true)
  /-- No row gets past a threshold that is not finite. -/
  infinite : ∀ (i column : Nat) (threshold : Float) (below above : Nat),
    tree.nodes[i]? = some (.split column threshold below above) → threshold.isFinite = false →
      rowsAbove rows column threshold (arriving tree rows sampled i) = []
  /-- Every leaf has rows exactly when all thresholds are finite. -/
  leaf : (∀ (i : Nat) (v : Float), tree.nodes[i]? = some (.leaf v) →
    arriving tree rows sampled i ≠ []) ↔ tree.FiniteThresholds
  leafCount : tree.FiniteThresholds →
    tree.nodes.toList.countP (·.isLeaf) ≤ max 1 (sampled.length / minRows)
  /-- They are when any two of the rows differ by finite numbers only. -/
  finite : (∀ i ∈ sampled, ∀ j ∈ sampled, ∀ column < width,
    ((rows.getD i #[]).at column - (rows.getD j #[]).at column).isFinite = true) →
      tree.FiniteThresholds

theorem arriving_sampleAt (t : Growth) (rows : List Row) (residuals : List Float)
    (sampled : List Nat) (node : Nat) :
    t.arriving 0 node (sampled.map (sampleAt rows residuals)) =
      (arriving t.toTree rows sampled node).map (sampleAt rows residuals) := by
  unfold Growth.arriving arriving
  rw [List.filter_map]
  congr 1
  refine List.filter_congr fun i _ => ?_
  rw [Growth.path_toTree]
  rfl

theorem lowerHalf_sampleAt (rows : List Row) (residuals : List Float) (column : Nat)
    (threshold : Float) (positions : List Nat) :
    lowerHalf column threshold (positions.map (sampleAt rows residuals)) =
      (rowsBelow rows column threshold positions).map (sampleAt rows residuals) :=
  List.filter_map

theorem upperHalf_sampleAt (rows : List Row) (residuals : List Float) (column : Nat)
    (threshold : Float) (positions : List Nat) :
    upperHalf column threshold (positions.map (sampleAt rows residuals)) =
      (rowsAbove rows column threshold positions).map (sampleAt rows residuals) :=
  List.filter_map

section Rows

variable {minRows : Nat} {t : Growth} {residuals : List Float} {sampled : List Nat}
  (hd : t.Divided minRows (sampled.map (sampleAt rows residuals)))

include hd

/-- The rows that visit a split are divided as the samples were for which it was found. -/
theorem divides_arriving {i column below above : Nat} {threshold : Float}
    (hi : t.toTree.nodes[i]? = some (.split column threshold below above)) :
    Divides minRows column threshold
      ((arriving t.toTree rows sampled i).map (sampleAt rows residuals)) := by
  rw [← arriving_sampleAt]
  exact Growth.divides_of_mem_visits hd (List.mem_of_getElem? (Growth.visits_of_toTree _ hi))

theorem rowsAbove_eq_nil {i column below above : Nat} {threshold : Float}
    (hi : t.toTree.nodes[i]? = some (.split column threshold below above))
    (hf : threshold.isFinite = false) :
    rowsAbove rows column threshold (arriving t.toTree rows sampled i) = [] := by
  have he := (divides_arriving hd hi).infinite hf
  rw [upperHalf_sampleAt] at he
  exact List.map_eq_nil_iff.1 he

theorem le_length_halves_iff (hm : 0 < minRows) {i column below above : Nat} {threshold : Float}
    (hi : t.toTree.nodes[i]? = some (.split column threshold below above)) :
    minRows ≤ (rowsBelow rows column threshold (arriving t.toTree rows sampled i)).length ∧
      minRows ≤ (rowsAbove rows column threshold (arriving t.toTree rows sampled i)).length ↔
        threshold.isFinite = true := by
  constructor
  · rintro ⟨-, hu⟩
    by_contra hf
    rw [rowsAbove_eq_nil hd hi (by simpa using hf)] at hu
    exact absurd hm (Nat.not_lt.2 hu)
  · intro hf
    have hh := divides_arriving hd hi
    have hl := hh.lower hf
    have hu := hh.upper hf
    rw [lowerHalf_sampleAt, List.length_map] at hl
    rw [upperHalf_sampleAt, List.length_map] at hu
    exact ⟨hl, hu⟩

theorem leaves_arriving_iff (hm : 0 < minRows) (hs : sampled ≠ []) :
    (∀ (i : Nat) (v : Float), t.toTree.nodes[i]? = some (.leaf v) →
      arriving t.toTree rows sampled i ≠ []) ↔ t.toTree.FiniteThresholds := by
  rw [Growth.finiteThresholds_toTree_iff]
  constructor
  · intro hl c hc
    by_contra hf
    obtain ⟨v, hv⟩ := Growth.exists_empty_leaf hd hc (by simpa using hf) 0
    obtain ⟨i, hi⟩ := List.mem_iff_getElem?.1 hv
    refine hl i v (Growth.toTree_of_visits hi) ?_
    have ha := Growth.arriving_of_visits hi
    rw [Nat.zero_add, arriving_sampleAt] at ha
    exact List.map_eq_nil_iff.1 ha.symm
  · intro hf i v hi he
    have hv := List.mem_of_getElem?
      (Growth.visits_of_toTree (sampled.map (sampleAt rows residuals)) hi)
    rw [arriving_sampleAt, he] at hv
    exact Growth.leaf_ne_nil hm hd hf (by simpa using hs) hv rfl

/-- **A tree whose splits divide the samples of some rows divides the rows.** -/
theorem dividing_toTree (hm : 0 < minRows) (hs : sampled ≠ [])
    (hc : ∀ c ∈ t.splits, c.column < width) : Dividing minRows width rows sampled t.toTree := by
  constructor
  · exact fun i column threshold below above hi => le_length_halves_iff hd hm hi
  · exact fun i column threshold below above hi hf => rowsAbove_eq_nil hd hi hf
  · exact leaves_arriving_iff hd hm hs
  · intro hf
    have hl := Growth.leafCount_le hm hd (Growth.finiteThresholds_toTree_iff.1 hf)
    rw [List.length_map, ← Growth.countP_isLeaf_nodes t 0] at hl
    exact hl
  · intro hf
    refine Growth.finiteThresholds_toTree_iff.2 (Growth.isFinite_of_mem_splits hd ?_)
    intro c hcs s hs s' hs'
    obtain ⟨i, hi, rfl⟩ := List.mem_map.1 hs
    obtain ⟨j, hj, rfl⟩ := List.mem_map.1 hs'
    exact hf i hi j hj c.column (hc c hcs)

end Rows

theorem sampledRows_ne_nil (h : rows ≠ []) (p : Progress) : sampledRows settings rows p ≠ [] := by
  have hl : rows.length ≠ 0 := by simpa using h
  refine List.ne_nil_of_length_pos ?_
  rw [sampledRows, length_samplePortion hl]
  exact le_portion (by omega)

/-- **The tree of a round divides the rows that the round is grown on.** -/
theorem grown_dividing {p : Progress} (ha : Accepted settings rows targets)
    (hw : ∀ row ∈ rows, row.size = width) (hp : p.predictions.length = rows.length) :
    Dividing settings.minLeafRows width rows (sampledRows settings rows p)
      (grown settings width rows targets p).toTree := by
  have hcol : ∀ c ∈ sampledColumns settings width rows p, c < width := fun c hc =>
    lt_of_mem_samplePortion hc
  have hrow : ∀ i ∈ sampledRows settings rows p, i < rows.length := fun i hi =>
    lt_of_mem_sampledRows hi
  have hd : (grown settings width rows targets p).Divided settings.minLeafRows
      ((sampledRows settings rows p).map (sampleAt rows (residuals targets p.predictions))) := by
    unfold grown
    rw [pick_eq_map fun i hi => residualSamples_getElem? ha.targetCount.symm hp (hrow i hi)]
    refine Growth.divided_grow _ _ _ fun s hs column hc => ?_
    obtain ⟨i, hi, rfl⟩ := List.mem_map.1 hs
    have hm : rows.getD i #[] ∈ rows := by
      rw [List.getD_eq_getElem _ _ (hrow i hi)]
      exact List.getElem_mem (hrow i hi)
    exact ha.isFinite_at hm ((hcol column hc).trans_eq (hw _ hm).symm)
  exact dividing_toTree hd (Settings.minLeafRows_pos ha.settings) (sampledRows_ne_nil ha.nonempty p)
    fun c hc => hcol _ (Growth.column_mem_of_mem_splits hc)

/-- **The trees of every fit divide their sampled rows**, as far as their thresholds are finite: then
every split leaves enough rows on both sides, no leaf is over none, and there are no more leaves than
the sampled rows allow. A threshold is infinite only when the values on its two sides differ by more
than the largest double. -/
theorem fit_splits_divide {e : Ensemble} (h : fit settings rows targets = .ok e) :
    ∀ n < settings.rounds, ∃ tree, e.trees[n]? = some tree ∧
      Dividing settings.minLeafRows e.width rows
        (sampledRows settings rows (beforeRound settings rows targets n)) tree := by
  intro n hn
  have ha := accepted_of_fit h
  exact ⟨_, tree_of_fit h hn,
    grown_dividing ha (width_of_fit h) (length_predictions_beforeRound ha n)⟩

/-- Four rows that differ by finite numbers, two of them at least on each side of a split. -/
theorem fit_splits_divide_four_rows :
    ∃ e tree, fit { rounds := 1, rowFraction := 1.0, minLeafRows := 2 }
        [#[0.0], #[1.0], #[2.0], #[3.0]] [1.0, 1.0, 3.0, 3.0] = .ok e ∧
      e.trees[0]? = some tree ∧ Dividing 2 1 [#[0.0], #[1.0], #[2.0], #[3.0]] [0, 1, 2, 3] tree ∧
      tree.FiniteThresholds := by
  have he := fit_of_matrixFault? (show matrixFault? { rounds := 1, rowFraction := 1.0, minLeafRows := 2 }
    [#[0.0], #[1.0], #[2.0], #[3.0]] [1.0, 1.0, 3.0, 3.0] = none by decide +kernel)
  obtain ⟨tree, h0, hd⟩ := fit_splits_divide he 0 (by decide)
  rw [show sampledRows _ _ _ = [0, 1, 2, 3] by decide +kernel] at hd
  exact ⟨_, tree, he, h0, hd, hd.finite (by decide +kernel)⟩

/-- The rows of which one value is near the least and the other near the largest double. -/
def farRows : List Row :=
  [#[-1.7e308], #[1.7e308]]

/-- One round over both of these rows, with a tree of one split. -/
def oneSplit : Settings where
  maxDepth := 1
  rounds := 1
  learningRate := 1.0
  rowFraction := 1.0
  columnFraction := 1.0

/-- What the round is grown on. -/
def farSamples : List Sample :=
  [⟨#[-1.7e308], -0.5⟩, ⟨#[1.7e308], 0.5⟩]

theorem grow_farSamples :
    (Growth.grow oneSplit [0] 1 farSamples).toTree =
      ⟨#[.split 0 (1.0 / 0.0) 1 2, .leaf 0.0, .leaf (-0.0)]⟩ := by
  have hp : points 0 farSamples = [(-1.7e308, -0.5), (1.7e308, 0.5)] :=
    List.mergeSort_of_pairwise (by decide +kernel)
  have hf : find? oneSplit [0] farSamples (sum (farSamples.map (·.residual))) =
      some ⟨0, 1.0 / 0.0, 0.25⟩ := by
    unfold find?
    rw [List.filterMap_cons, onColumn?, hp]
    decide +kernel
  unfold Growth.grow
  rw [if_neg (by decide), hf]
  decide +kernel

/-- **Not every split is one**: the difference of these values is infinite, and so is the threshold
between them. Both rows go below it, and a leaf is grown over none. -/
theorem exists_undivided_split :
    ∃ e tree, fit oneSplit farRows [0.0, 1.0] = .ok e ∧ e.trees[0]? = some tree ∧
      tree.nodes = #[.split 0 (1.0 / 0.0) 1 2, .leaf 0.0, .leaf (-0.0)] ∧
      oneSplit.minLeafRows = 1 ∧
      sampledRows oneSplit farRows (beforeRound oneSplit farRows [0.0, 1.0] 0) = [0, 1] ∧
      (rowsBelow farRows 0 (1.0 / 0.0) (arriving tree farRows [0, 1] 0)).length = 2 ∧
      (rowsAbove farRows 0 (1.0 / 0.0) (arriving tree farRows [0, 1] 0)).length = 0 ∧
      arriving tree farRows [0, 1] 2 = [] := by
  have he := fit_of_matrixFault? (show matrixFault? oneSplit farRows [0.0, 1.0] = none by
    decide +kernel)
  have ht := tree_of_fit he (show 0 < oneSplit.rounds by decide)
  rw [grown, show sampledColumns _ _ _ _ = [0] by decide +kernel,
    show pick _ _ = farSamples by decide +kernel] at ht
  refine ⟨_, _, he, ht, ?_⟩
  rw [show oneSplit.maxDepth = 1 from rfl, grow_farSamples]
  decide +kernel

end Ensemble

end QueryForecast
