import QueryForecast.Boosting.Builder
import QueryForecast.Proofs.Boosting.Routing

/-!
# Growing a tree and walking it agree

A tree is written into a list of nodes and served from it. `Growth` is the same tree as a recursive
value, on which the samples of a node can be followed from the root down.

* `Growth.nodes` — the nodes of a growing tree in the order in which they are reached.
* `Builder.grow_eq` — writing the tree appends exactly these nodes: the node that was appended
  first is overwritten once both halves stand behind it, and nothing else changes.
* `Growth.leafOf` — the index of the leaf that a row reaches when the nodes are listed from a given
  index on.
* `Growth.LiesAt` — the nodes of a growing tree stand in a list of nodes from a given index on, each
  split pointing at the places of its halves.
* `Growth.LiesAt.walk` — a walk through such a list takes the turns of the growing tree.
* `Growth.leafFrom?_of_liesAt` — so it reaches `Growth.leafOf`.
* `Growth.leaf_value_grow` — the number at a leaf of a grown tree is the value for those samples, in
  their order, that reach it.
-/

namespace QueryForecast

open Numeric

/-- A tree as it is grown. -/
inductive Growth where
  | leaf (value : Float)
  | split (candidate : Candidate) (below above : Growth)

namespace Growth

/-- The value of a leaf over some samples. -/
def valueOver (settings : Settings) (samples : List Sample) : Float :=
  leafValue settings (sum (samples.map (·.residual))) samples.length

/-- Grows a tree of at most the given depth. -/
def grow (settings : Settings) (columns : List Nat) : Nat → List Sample → Growth
  | 0, samples => .leaf (valueOver settings samples)
  | depth + 1, samples =>
    if samples.length < 2 * settings.minLeafRows then .leaf (valueOver settings samples)
    else
      match Split.find? settings columns samples (sum (samples.map (·.residual))) with
      | none => .leaf (valueOver settings samples)
      | some c =>
        .split c
          (grow settings columns depth
            (samples.filter fun s => decide (s.row.at c.column < c.threshold)))
          (grow settings columns depth
            (samples.filter fun s => !decide (s.row.at c.column < c.threshold)))

/-- What a step of growing comes to: a leaf over all samples, or a split that divides them. -/
theorem grow_succ (settings : Settings) (columns : List Nat) (depth : Nat)
    (samples : List Sample) :
    grow settings columns (depth + 1) samples = .leaf (valueOver settings samples) ∨
      ∃ c, Split.find? settings columns samples (sum (samples.map (·.residual))) = some c ∧
        grow settings columns (depth + 1) samples =
          .split c
            (grow settings columns depth
              (samples.filter fun s => decide (s.row.at c.column < c.threshold)))
            (grow settings columns depth
              (samples.filter fun s => !decide (s.row.at c.column < c.threshold))) := by
  rw [grow]
  split
  · exact .inl rfl
  · cases hc : Split.find? settings columns samples (sum (samples.map (·.residual))) with
    | none => exact .inl rfl
    | some c => exact .inr ⟨c, rfl, rfl⟩

/-- The number of nodes. -/
def size : Growth → Nat
  | .leaf _ => 1
  | .split _ below above => 1 + below.size + above.size

theorem size_split (c : Candidate) (below above : Growth) :
    (split c below above).size = 1 + below.size + above.size :=
  rfl

theorem size_pos (t : Growth) : 0 < t.size := by
  cases t with
  | leaf => exact Nat.one_pos
  | split c below above => rw [size_split]; omega

/-- The nodes of a tree whose root has the given index: the root, then those below it, then those
above it. -/
def nodes : Growth → Nat → List Node
  | .leaf value, _ => [.leaf value]
  | .split c below above, index =>
    .split c.column c.threshold (index + 1) (index + 1 + below.size)
      :: (below.nodes (index + 1) ++ above.nodes (index + 1 + below.size))

/-- The splits of a tree in the order of its nodes. -/
def splits : Growth → List Candidate
  | .leaf _ => []
  | .split c below above => c :: (below.splits ++ above.splits)

theorem length_nodes (t : Growth) (index : Nat) : (t.nodes index).length = t.size := by
  induction t generalizing index with
  | leaf => rfl
  | split c below above hb ha =>
    simp only [nodes, size, List.length_cons, List.length_append, hb, ha]
    omega

/-- The tree in the form that is served. -/
def toTree (t : Growth) : RegressionTree :=
  ⟨(t.nodes 0).toArray⟩

end Growth

/-! ## Writing a tree -/

namespace Builder

/-- The builder after a tree was appended to it. -/
def append (b : Builder) (t : Growth) : Builder :=
  ⟨b.nodes ++ (t.nodes b.nodes.size).toArray, b.splits ++ t.splits.toArray⟩

theorem size_nodes_append (b : Builder) (t : Growth) :
    (b.append t).nodes.size = b.nodes.size + t.size := by
  simp [append, Growth.length_nodes]

theorem append_leaf (b : Builder) (value : Float) :
    b.append (.leaf value) = b.push (.leaf value) := by
  simp [append, push, Growth.nodes, Growth.splits]

/-- A placeholder that is overwritten after both halves were appended behind it is the root of
both. -/
theorem append_split (b : Builder) (c : Candidate) (placeholder : Node) (below above : Growth) :
    ((((b.push placeholder).note c).append below).append above).overwrite b.nodes.size
        (.split c.column c.threshold (b.nodes.size + 1) (b.nodes.size + 1 + below.size)) =
      b.append (.split c below above) := by
  have hs : (((b.push placeholder).note c).append below).nodes.size =
      b.nodes.size + 1 + below.size := by
    rw [size_nodes_append]
    simp [push, note]
  have hn : ((((b.push placeholder).note c).append below).append above).nodes.toList =
      b.nodes.toList ++ placeholder ::
        (below.nodes (b.nodes.size + 1) ++ above.nodes (b.nodes.size + 1 + below.size)) := by
    rw [show ((((b.push placeholder).note c).append below).append above).nodes =
      (((b.push placeholder).note c).append below).nodes ++
        (above.nodes (((b.push placeholder).note c).append below).nodes.size).toArray from rfl, hs]
    simp [append, push, note]
  unfold overwrite
  rw [Builder.mk.injEq]
  refine ⟨?_, ?_⟩
  · rw [← Array.toList_inj, Array.toList_setIfInBounds, hn]
    simp [append, Growth.nodes]
  · simp [append, push, note, Growth.splits]

/-- **Writing a tree appends its nodes**, and returns the index of its root. -/
theorem grow_eq (settings : Settings) (columns : List Nat) (depth : Nat) (samples : List Sample)
    (b : Builder) :
    grow settings columns depth samples b =
      (b.nodes.size, b.append (Growth.grow settings columns depth samples)) := by
  induction depth generalizing samples b with
  | zero =>
    rw [show Growth.grow settings columns 0 samples = .leaf (Growth.valueOver settings samples)
      from rfl, append_leaf]
    rfl
  | succ depth ih =>
    unfold grow Growth.grow
    dsimp only
    split
    · rw [append_leaf]
      rfl
    · cases hc : Split.find? settings columns samples (sum (samples.map (·.residual))) with
      | none =>
        dsimp only
        rw [append_leaf]
        rfl
      | some c =>
        dsimp only
        rw [List.partition_eq_filter_filter]
        dsimp only
        rw [ih, ih]
        dsimp only
        rw [size_nodes_append, ← append_split b c (.leaf (Growth.valueOver settings samples))]
        simp only [note, push, Array.size_push]
        rfl

end Builder

namespace Growth

/-! ## Walking a written tree -/

/-- The leaf that a row reaches, in the list of nodes whose root has the given index. -/
def leafOf (row : Row) : Growth → Nat → Nat
  | .leaf _, index => index
  | .split c below above, index =>
    if row.at c.column < c.threshold then below.leafOf row (index + 1)
    else above.leafOf row (index + 1 + below.size)

theorem leafOf_split (row : Row) (c : Candidate) (below above : Growth) (index : Nat) :
    (split c below above).leafOf row index =
      if row.at c.column < c.threshold then below.leafOf row (index + 1)
      else above.leafOf row (index + 1 + below.size) :=
  rfl

/-- A row reaches one of the nodes of the tree. -/
theorem leafOf_bounds (row : Row) (t : Growth) (index : Nat) :
    index ≤ t.leafOf row index ∧ t.leafOf row index < index + t.size := by
  induction t generalizing index with
  | leaf => simp [leafOf, size]
  | split c below above hb ha =>
    have hb := hb (index + 1)
    have ha := ha (index + 1 + below.size)
    rw [leafOf_split, size_split]
    split <;> omega

/-- The nodes of the tree stand in `nodes` from `index` on. -/
def LiesAt (nodes : Array Node) : Growth → Nat → Prop
  | .leaf value, index => nodes[index]? = some (.leaf value)
  | .split c below above, index =>
    nodes[index]? = some (.split c.column c.threshold (index + 1) (index + 1 + below.size)) ∧
      below.LiesAt nodes (index + 1) ∧ above.LiesAt nodes (index + 1 + below.size)

/-- Nodes that are listed between others lie where the list has them. -/
theorem liesAt_of_nodes_eq {nodes : Array Node} {t : Growth} (before after : List Node)
    (h : nodes.toList = before ++ (t.nodes before.length ++ after)) :
    t.LiesAt nodes before.length := by
  induction t generalizing before after with
  | leaf value =>
    show nodes[before.length]? = _
    rw [← Array.getElem?_toList, h]
    simp [Growth.nodes]
  | split c below above hb ha =>
    have hl := length_nodes below (before.length + 1)
    refine ⟨?_, ?_, ?_⟩
    · rw [← Array.getElem?_toList, h]
      simp [Growth.nodes]
    · have hb := hb (before ++ [.split c.column c.threshold (before.length + 1)
          (before.length + 1 + below.size)])
          (above.nodes (before.length + 1 + below.size) ++ after)
          (by rw [h]; simp [Growth.nodes])
      rw [List.length_append, List.length_singleton] at hb
      exact hb
    · have ha := ha (before ++ .split c.column c.threshold (before.length + 1)
          (before.length + 1 + below.size) :: below.nodes (before.length + 1)) after
          (by
            have he : before.length + ((below.nodes (before.length + 1)).length + 1) =
                before.length + 1 + below.size := by omega
            rw [h]; simp [Growth.nodes, he])
      rw [List.length_append, List.length_cons, hl,
        show before.length + (below.size + 1) = before.length + 1 + below.size by omega] at ha
      exact ha

theorem liesAt_toTree (t : Growth) : t.LiesAt t.toTree.nodes 0 :=
  liesAt_of_nodes_eq [] [] (by simp [toTree])

theorem size_toTree (t : Growth) : t.toTree.nodes.size = t.size := by
  simp [toTree, length_nodes]

/-- **A walk through the listed nodes takes the turns that the growing tree takes.** So what holds at a
leaf, and at a split whenever it holds at the child that the row turns to, holds from the root on. -/
theorem LiesAt.walk {tree : RegressionTree} (row : Row) {P : Growth → Nat → Nat → Prop}
    (hleaf : ∀ value index fuel, tree.nodes[index]? = some (.leaf value) →
      P (.leaf value) index (fuel + 1))
    (hsplit : ∀ c below above index fuel,
      tree.nodes[index]? =
        some (.split c.column c.threshold (index + 1) (index + 1 + below.size)) →
      (if row.at c.column < c.threshold then P below (index + 1) fuel
        else P above (index + 1 + below.size) fuel) →
      P (.split c below above) index (fuel + 1))
    {t : Growth} {index fuel : Nat} (h : t.LiesAt tree.nodes index) (hf : t.size ≤ fuel) :
    P t index fuel := by
  induction t generalizing index fuel with
  | leaf value =>
    obtain ⟨fuel, rfl⟩ : ∃ n, fuel = n + 1 := ⟨fuel - 1, by unfold size at hf; omega⟩
    exact hleaf value index fuel h
  | split c below above hb ha =>
    obtain ⟨hn, hlb, hla⟩ := h
    rw [size_split] at hf
    obtain ⟨fuel, rfl⟩ : ∃ n, fuel = n + 1 := ⟨fuel - 1, by omega⟩
    refine hsplit c below above index fuel hn ?_
    split
    · exact hb hlb (by omega)
    · exact ha hla (by omega)

/-- The walk through the listed nodes ends at the leaf that the growing tree has there. -/
theorem leafFrom?_of_liesAt {tree : RegressionTree} (row : Row) {t : Growth} {index fuel : Nat}
    (h : t.LiesAt tree.nodes index) (hf : t.size ≤ fuel) :
    tree.leafFrom? row fuel index = some (t.leafOf row index) := by
  refine LiesAt.walk row
    (P := fun t index fuel => tree.leafFrom? row fuel index = some (t.leafOf row index)) ?_ ?_ h hf
  · intro value index fuel hn
    unfold RegressionTree.leafFrom?
    rw [hn]
    rfl
  · intro c below above index fuel hn ih
    rw [leafOf_split]
    unfold RegressionTree.leafFrom?
    rw [hn]
    dsimp only
    split <;> simpa [*] using ih

theorem leafOf?_toTree (t : Growth) (row : Row) : t.toTree.leafOf? row = some (t.leafOf row 0) :=
  leafFrom?_of_liesAt row t.liesAt_toTree (by rw [size_toTree]; omega)

/-! ## Samples of a leaf -/

/-- The samples that reach the leaf with index `i`, in their order. -/
def reaching (t : Growth) (index i : Nat) (samples : List Sample) : List Sample :=
  samples.filter fun s => t.leafOf s.row index == i

/-- A leaf of the lower half is reached by those samples only that are divided off to it. -/
theorem reaching_below {c : Candidate} {below above : Growth} {index i : Nat}
    (hi : i < index + 1 + below.size) (samples : List Sample) :
    (Growth.split c below above).reaching index i samples =
      below.reaching (index + 1) i
        (samples.filter fun s => decide (s.row.at c.column < c.threshold)) := by
  unfold reaching
  rw [List.filter_filter]
  refine List.filter_congr fun s _ => ?_
  have ha := leafOf_bounds s.row above (index + 1 + below.size)
  rw [leafOf_split]
  split
  · rename_i h
    simp [h]
  · rename_i h
    have hne : above.leafOf s.row (index + 1 + below.size) ≠ i := by omega
    simp [h, hne]

/-- A leaf of the upper half is reached by the other samples only. -/
theorem reaching_above {c : Candidate} {below above : Growth} {index i : Nat}
    (hi : index + 1 + below.size ≤ i) (samples : List Sample) :
    (Growth.split c below above).reaching index i samples =
      above.reaching (index + 1 + below.size) i
        (samples.filter fun s => !decide (s.row.at c.column < c.threshold)) := by
  unfold reaching
  rw [List.filter_filter]
  refine List.filter_congr fun s _ => ?_
  have hb := leafOf_bounds s.row below (index + 1)
  rw [leafOf_split]
  split
  · rename_i h
    have hne : below.leafOf s.row (index + 1) ≠ i := by omega
    simp [h, hne]
  · rename_i h
    simp [h]

theorem leaf_value_leaf {settings : Settings} {samples : List Sample} {index k : Nat} {v : Float}
    (h : ((leaf (valueOver settings samples)).nodes index)[k]? = some (.leaf v)) :
    v = valueOver settings
      ((leaf (valueOver settings samples)).reaching index (index + k) samples) := by
  cases k with
  | zero =>
    have hv : Node.leaf (valueOver settings samples) = .leaf v := Option.some.inj h
    have hr : (leaf (valueOver settings samples)).reaching index (index + 0) samples = samples :=
      List.filter_eq_self.2 fun s _ => by simp [leafOf]
    rw [hr]
    exact (Node.leaf.inj hv).symm
  | succ k => cases h

/-- **The number at a leaf is the value for the samples that reach it.** -/
theorem leaf_value_grow (settings : Settings) (columns : List Nat) {depth : Nat}
    {samples : List Sample} {index k : Nat} {v : Float}
    (h : ((grow settings columns depth samples).nodes index)[k]? = some (.leaf v)) :
    v = valueOver settings
      ((grow settings columns depth samples).reaching index (index + k) samples) := by
  induction depth generalizing samples index k with
  | zero => exact leaf_value_leaf h
  | succ depth ih =>
    obtain hg | ⟨c, -, hg⟩ := grow_succ settings columns depth samples
    · rw [hg] at h ⊢
      exact leaf_value_leaf h
    · rw [hg] at h ⊢
      -- The root is a split, so the leaf stands in one of the halves.
      cases k with
      | zero => simp [Growth.nodes] at h
      | succ k =>
        rw [Growth.nodes, List.getElem?_cons_succ] at h
        by_cases hk : k < (grow settings columns depth
            (samples.filter fun s => decide (s.row.at c.column < c.threshold))).size
        · rw [List.getElem?_append_left (by rw [length_nodes]; exact hk)] at h
          rw [reaching_below (by omega), show index + (k + 1) = index + 1 + k by omega]
          exact ih h
        · rw [List.getElem?_append_right (by rw [length_nodes]; omega), length_nodes] at h
          rw [reaching_above (by omega)]
          have hv := ih h
          rwa [show ∀ n, ¬ k < n → index + 1 + n + (k - n) = index + (k + 1) by omega] at hv
          exact hk

end Growth

end QueryForecast
