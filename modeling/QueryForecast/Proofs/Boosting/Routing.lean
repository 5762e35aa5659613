import QueryForecast.Boosting.Tree

/-!
# Where a row comes to rest

`RegressionTree.predict` returns the number at the leaf that a row reaches; here the leaf itself is
named.

* `leafFrom?` / `leafOf?` — the index of the leaf that a row reaches from a node / from the root;
  `none` when the walk leaves the list of nodes or runs in circles.
* `Linked` — every split sends rows to later nodes of the list.
* `walk_of_leafFrom?` — the walk returns the number at the leaf that it reaches.
* `Linked.leafFrom?_isSome` — in a linked tree every walk ends at a leaf, since each step leads to a
  later node.
-/

namespace QueryForecast

namespace RegressionTree

/-- The leaf that a row reaches from a node in at most `fuel` steps. -/
def leafFrom? (t : RegressionTree) (row : Row) : Nat → Nat → Option Nat
  | 0, _ => none
  | fuel + 1, index =>
    match t.nodes[index]? with
    | some (.split column threshold below above) =>
      t.leafFrom? row fuel (if row.at column < threshold then below else above)
    | some (.leaf _) => some index
    | none => none

/-- The leaf that a row reaches from the root. -/
def leafOf? (t : RegressionTree) (row : Row) : Option Nat :=
  t.leafFrom? row (t.nodes.size + 1) 0

/-- Every split sends rows to later nodes of the list. -/
def Linked (t : RegressionTree) : Prop :=
  ∀ i column threshold below above, t.nodes[i]? = some (.split column threshold below above) →
    (i < below ∧ below < t.nodes.size) ∧ (i < above ∧ above < t.nodes.size)

theorem exists_leaf_of_leafFrom? {t : RegressionTree} {row : Row} {fuel index i : Nat}
    (h : t.leafFrom? row fuel index = some i) : ∃ v, t.nodes[i]? = some (.leaf v) := by
  induction fuel generalizing index with
  | zero => cases h
  | succ fuel ih =>
    unfold leafFrom? at h
    split at h
    · exact ih h
    · rename_i v hv
      cases h
      exact ⟨v, hv⟩
    · cases h

/-- The walk returns the number at the leaf that it reaches. -/
theorem walk_of_leafFrom? {t : RegressionTree} {row : Row} {fuel index i : Nat} {v : Float}
    (h : t.leafFrom? row fuel index = some i) (hv : t.nodes[i]? = some (.leaf v)) :
    t.walk row fuel index = v := by
  induction fuel generalizing index with
  | zero => cases h
  | succ fuel ih =>
    unfold leafFrom? at h
    unfold walk
    cases hn : t.nodes[index]? with
    | none =>
      rw [hn] at h
      cases h
    | some node =>
      rw [hn] at h
      cases node with
      | split column threshold below above => exact ih h
      | leaf w =>
        cases h
        rw [hn] at hv
        cases hv
        rfl

theorem predict_of_leafOf? {t : RegressionTree} {row : Row} {i : Nat} {v : Float}
    (h : t.leafOf? row = some i) (hv : t.nodes[i]? = some (.leaf v)) : t.predict row = v :=
  walk_of_leafFrom? h hv

/-- The steps of a walk lead to later nodes, so as many steps as there are nodes left are enough. -/
theorem Linked.leafFrom?_isSome {t : RegressionTree} (ht : t.Linked) (row : Row) {fuel index : Nat}
    (hi : index < t.nodes.size) (hf : t.nodes.size - index ≤ fuel) :
    ∃ i, t.leafFrom? row fuel index = some i := by
  induction fuel generalizing index with
  | zero => omega
  | succ fuel ih =>
    unfold leafFrom?
    rw [Array.getElem?_eq_getElem hi]
    cases hn : t.nodes[index] with
    | leaf v => exact ⟨index, rfl⟩
    | split column threshold below above =>
      obtain ⟨⟨hb, hbs⟩, ha, has⟩ := ht index column threshold below above
        (by rw [Array.getElem?_eq_getElem hi, hn])
      show ∃ i, t.leafFrom? row fuel (if row.at column < threshold then below else above) = some i
      split
      · exact ih hbs (by omega)
      · exact ih has (by omega)

/-- In a linked tree every row reaches a leaf, and is predicted by the number there. -/
theorem Linked.lands {t : RegressionTree} (ht : t.Linked) (hs : 0 < t.nodes.size) (row : Row) :
    ∃ i v, t.leafOf? row = some i ∧ t.nodes[i]? = some (.leaf v) ∧ t.predict row = v := by
  obtain ⟨i, hi⟩ : ∃ i, t.leafOf? row = some i := ht.leafFrom?_isSome row hs (by omega)
  obtain ⟨v, hv⟩ := exists_leaf_of_leafFrom? hi
  exact ⟨i, v, hi, hv, predict_of_leafOf? hi hv⟩

end RegressionTree

end QueryForecast
