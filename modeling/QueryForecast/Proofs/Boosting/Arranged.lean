import Mathlib.Data.List.Nodup
import QueryForecast.Proofs.Boosting.Accepted
import QueryForecast.Proofs.Boosting.Fitted

/-!
# The nodes of a fitted tree are arranged as a binary tree

A tree is served from a list of nodes that point at each other. Nothing in the list itself keeps two
nodes from pointing at the same one, or a node from being out of reach.

* `Node.children`, `RegressionTree.DepthAt` — where a node points, and how many steps from the root a
  node lies.
* `Growth.children_perm` — the nodes of a growing tree point at each of its places but the first, once.
* `Growth.exists_depthAt` — each place is reached from the root in at most as many steps as the tree is
  deep.
* `RegressionTree.Arranged` — the list is a binary tree of bounded depth on the sampled columns.
* `Ensemble.fit_trees_are_arranged` — every round of every fit adds such a tree.
-/

namespace QueryForecast

open Numeric QueryForecast.Random

namespace Node

/-- The places that a node sends rows to. -/
def children : Node → List Nat
  | .split _ _ below above => [below, above]
  | .leaf _ => []

/-- Whether a node is a leaf. -/
def isLeaf : Node → Bool
  | .split .. => false
  | .leaf _ => true

/-- What a node asks of a row. -/
def test? : Node → Option (Nat × Float)
  | .split column threshold _ _ => some (column, threshold)
  | .leaf _ => none

end Node

namespace RegressionTree

/-- The node at a place sends rows to another one. -/
def Leads (t : RegressionTree) (i j : Nat) : Prop :=
  ∃ node, t.nodes[i]? = some node ∧ j ∈ node.children

/-- A place lies a number of steps below the root. -/
inductive DepthAt (t : RegressionTree) : Nat → Nat → Prop
  | root : DepthAt t 0 0
  | child {i j d : Nat} (parent : DepthAt t i d) (leads : t.Leads i j) : DepthAt t j (d + 1)

/-- **The nodes are a binary tree** that is at most `maxDepth` deep and divides rows of `width` columns
on the given columns only. -/
structure Arranged (t : RegressionTree) (maxDepth width : Nat) (columns : List Nat) : Prop where
  nonempty : t.nodes.toList ≠ []
  column : ∀ (i column : Nat) (threshold : Float) (below above : Nat),
    t.nodes[i]? = some (.split column threshold below above) → column ∈ columns ∧ column < width
  /-- The children of a split are two nodes behind it. -/
  children : ∀ (i column : Nat) (threshold : Float) (below above : Nat),
    t.nodes[i]? = some (.split column threshold below above) →
      below ≠ above ∧ (i < below ∧ below < t.nodes.size) ∧ i < above ∧ above < t.nodes.size
  parent : ∀ j, 0 < j → j < t.nodes.size → ∃! i, t.Leads i j
  leaves : t.nodes.toList.countP (·.isLeaf) = t.nodes.toList.countP (!·.isLeaf) + 1
  /-- Every node can be reached. -/
  reached : ∀ j < t.nodes.size, ∃ d, t.DepthAt j d
  depth : ∀ j d, t.DepthAt j d → d ≤ maxDepth

end RegressionTree

namespace Growth

/-! ## Links -/

/-- **The nodes of a tree point at each place of the tree but the first, and once.** -/
theorem children_perm (t : Growth) (index : Nat) :
    ((t.nodes index).flatMap Node.children).Perm (List.range' (index + 1) (t.size - 1)) := by
  induction t generalizing index with
  | leaf value => exact List.Perm.refl _
  | split c below above hb ha =>
    obtain ⟨m, hm⟩ : ∃ m, below.size = m + 1 := ⟨below.size - 1, by have := size_pos below; omega⟩
    obtain ⟨n, hn⟩ : ∃ n, above.size = n + 1 := ⟨above.size - 1, by have := size_pos above; omega⟩
    have hb := hb (index + 1)
    have ha := ha (index + 1 + below.size)
    rw [hm, Nat.add_sub_cancel] at hb
    rw [hm, hn, Nat.add_sub_cancel] at ha
    -- The places of the lower half, from its root on, come before those of the upper half.
    have hs : List.range' (index + 1) ((split c below above).size - 1) =
        (index + 1) :: List.range' (index + 1 + 1) m ++
          (index + 1 + (m + 1)) :: List.range' (index + 1 + (m + 1) + 1) n := by
      rw [size_split, hm, hn, show 1 + (m + 1) + (n + 1) - 1 = (m + 1) + (n + 1) by omega,
        ← List.range'_append_1, List.range'_succ, List.range'_succ]
    have hl : ((split c below above).nodes index).flatMap Node.children =
        (index + 1) :: (index + 1 + (m + 1)) ::
          ((below.nodes (index + 1)).flatMap Node.children ++
            (above.nodes (index + 1 + (m + 1))).flatMap Node.children) := by
      rw [nodes, List.flatMap_cons, List.flatMap_append, hm]
      rfl
    rw [hs, hl]
    exact (List.perm_middle.symm.trans (hb.append (ha.cons _))).cons _

theorem nodup_children (t : Growth) (index : Nat) :
    ((t.nodes index).flatMap Node.children).Nodup :=
  (t.children_perm index).nodup_iff.2 List.nodup_range'

theorem mem_children_iff {t : Growth} {index j : Nat} :
    j ∈ (t.nodes index).flatMap Node.children ↔ index < j ∧ j < index + t.size := by
  have hp := size_pos t
  rw [(t.children_perm index).mem_iff, List.mem_range'_1]
  omega

/-- The node at a place of the served tree points at another place. -/
theorem leads_toTree_iff {t : Growth} {i j : Nat} :
    t.toTree.Leads i j ↔ ∃ node, (t.nodes 0)[i]? = some node ∧ j ∈ node.children := by
  unfold RegressionTree.Leads toTree
  simp only [List.getElem?_toArray]

/-- No two nodes point at the same place. -/
theorem leads_injective {t : Growth} {i k j : Nat} (hi : t.toTree.Leads i j)
    (hk : t.toTree.Leads k j) : i = k := by
  have hd := List.pairwise_iff_getElem.1 (List.nodup_flatMap.1 (t.nodup_children 0)).2
  obtain ⟨node, hi, hj⟩ := leads_toTree_iff.1 hi
  obtain ⟨other, hk, hj'⟩ := leads_toTree_iff.1 hk
  obtain ⟨hil, rfl⟩ := List.getElem?_eq_some_iff.1 hi
  obtain ⟨hkl, rfl⟩ := List.getElem?_eq_some_iff.1 hk
  rcases Nat.lt_trichotomy i k with hlt | heq | hlt
  · exact (hd i k hil hkl hlt hj hj').elim
  · exact heq
  · exact (hd k i hkl hil hlt hj' hj).elim

theorem exists_leads_iff {t : Growth} {j : Nat} :
    (∃ i, t.toTree.Leads i j) ↔ 0 < j ∧ j < t.size := by
  have hm := @mem_children_iff t 0 j
  rw [Nat.zero_add, List.mem_flatMap] at hm
  rw [← hm]
  constructor
  · rintro ⟨i, hi⟩
    obtain ⟨node, hn, hj⟩ := leads_toTree_iff.1 hi
    exact ⟨node, List.mem_of_getElem? hn, hj⟩
  · rintro ⟨node, hn, hj⟩
    obtain ⟨i, hi⟩ := List.mem_iff_getElem?.1 hn
    exact ⟨i, leads_toTree_iff.2 ⟨node, hi, hj⟩⟩

/-! ## Depth -/

/-- The greatest number of steps from the root to a leaf. -/
def depth : Growth → Nat
  | .leaf _ => 0
  | .split _ below above => max below.depth above.depth + 1

theorem depth_split (c : Candidate) (below above : Growth) :
    (split c below above).depth = max below.depth above.depth + 1 :=
  rfl

theorem depth_grow_le (settings : Settings) (columns : List Nat) (depth : Nat)
    (samples : List Sample) : (grow settings columns depth samples).depth ≤ depth := by
  induction depth generalizing samples with
  | zero => exact Nat.le_refl 0
  | succ depth ih =>
    obtain hg | ⟨c, -, hg⟩ := grow_succ settings columns depth samples
    · rw [hg]
      exact Nat.zero_le _
    · rw [hg, depth_split]
      exact Nat.succ_le_succ (max_le (ih _) (ih _))

/-- **From the root of a tree each of its places is reached**, in no more steps than the tree is
deep. -/
theorem exists_depthAt {tree : RegressionTree} {t : Growth} {index d k : Nat}
    (h : t.LiesAt tree.nodes index) (hd : tree.DepthAt index d) (hk : k < t.size) :
    ∃ e ≤ d + t.depth, tree.DepthAt (index + k) e := by
  induction t generalizing index d k with
  | leaf value =>
    obtain rfl : k = 0 := Nat.lt_one_iff.1 hk
    exact ⟨d, Nat.le_refl d, hd⟩
  | split c below above hb ha =>
    obtain ⟨hn, hlb, hla⟩ := h
    rw [size_split] at hk
    rw [depth_split]
    cases k with
    | zero => exact ⟨d, by omega, hd⟩
    | succ k =>
      by_cases hkb : k < below.size
      · obtain ⟨e, he, hde⟩ := hb hlb (hd.child ⟨_, hn, List.mem_cons_self⟩) hkb
        refine ⟨e, by omega, ?_⟩
        rwa [show index + (k + 1) = index + 1 + k by omega]
      · obtain ⟨e, he, hde⟩ := ha (k := k - below.size) hla
          (hd.child ⟨_, hn, List.mem_cons_of_mem _ List.mem_cons_self⟩) (by omega)
        refine ⟨e, by omega, ?_⟩
        rwa [show index + (k + 1) = index + 1 + below.size + (k - below.size) by omega]

/-! ## Leaves -/

/-- The number of leaves. -/
def leafCount : Growth → Nat
  | .leaf _ => 1
  | .split _ below above => below.leafCount + above.leafCount

theorem countP_isLeaf_nodes (t : Growth) (index : Nat) :
    (t.nodes index).countP (·.isLeaf) = t.leafCount := by
  induction t generalizing index with
  | leaf value => rfl
  | split c below above hb ha =>
    rw [nodes, List.countP_cons, List.countP_append, hb, ha]
    rfl

/-- There is one more leaf than there are splits. -/
theorem leafCount_eq (t : Growth) (index : Nat) :
    t.leafCount = (t.nodes index).countP (!·.isLeaf) + 1 := by
  induction t generalizing index with
  | leaf value => rfl
  | split c below above hb ha =>
    rw [nodes, List.countP_cons, List.countP_append, leafCount, hb (index + 1),
      ha (index + 1 + below.size)]
    show _ = _ + 1 + 1
    omega

/-! ## Trees -/

/-- A place lies at one depth only. -/
theorem depthAt_unique {t : Growth} {j d e : Nat} (hd : t.toTree.DepthAt j d)
    (he : t.toTree.DepthAt j e) : d = e := by
  -- Nothing points at the root.
  have hr : ∀ i, ¬ t.toTree.Leads i 0 := fun i hi =>
    absurd (exists_leads_iff.1 ⟨i, hi⟩).1 (Nat.lt_irrefl 0)
  induction hd generalizing e with
  | root =>
    cases he with
    | root => rfl
    | child parent leads => exact (hr _ leads).elim
  | child parent leads ih =>
    cases he with
    | root => exact (hr _ leads).elim
    | child parent' leads' =>
      cases leads_injective leads leads'
      rw [ih parent']

theorem lt_size_of_depthAt {t : Growth} {j d : Nat} (h : t.toTree.DepthAt j d) : j < t.size := by
  cases h with
  | root => exact t.size_pos
  | child parent leads => exact (exists_leads_iff.1 ⟨_, leads⟩).2

/-- The nodes of a tree ask what its splits ask. -/
theorem filterMap_test?_nodes (t : Growth) (index : Nat) :
    (t.nodes index).filterMap Node.test? = t.splits.map fun c => (c.column, c.threshold) := by
  induction t generalizing index with
  | leaf value => rfl
  | split c below above hb ha =>
    rw [splits_split, List.map_cons, List.map_append, ← hb (index + 1),
      ← ha (index + 1 + below.size), nodes, List.filterMap_cons, List.filterMap_append]
    rfl

theorem test_mem_splits {t : Growth} {i column below above : Nat} {threshold : Float}
    (h : t.toTree.nodes[i]? = some (.split column threshold below above)) :
    ∃ c ∈ t.splits, c.column = column ∧ c.threshold = threshold := by
  rw [toTree, List.getElem?_toArray] at h
  have hm : (column, threshold) ∈ (t.nodes 0).filterMap Node.test? :=
    List.mem_filterMap.2 ⟨_, List.mem_of_getElem? h, rfl⟩
  rw [filterMap_test?_nodes] at hm
  obtain ⟨c, hc, he⟩ := List.mem_map.1 hm
  exact ⟨c, hc, congrArg Prod.fst he, congrArg Prod.snd he⟩

/-- **A growing tree is served as a binary tree.** -/
theorem arranged_toTree {t : Growth} {width maxDepth : Nat} {columns : List Nat}
    (hc : ∀ c ∈ t.splits, c.column ∈ columns ∧ c.column < width) (hd : t.depth ≤ maxDepth) :
    t.toTree.Arranged maxDepth width columns := by
  have hs := size_toTree t
  have hsh := shaped_toTree fun c h => (hc c h).2
  have hreach : ∀ j < t.size, ∃ e ≤ t.depth, t.toTree.DepthAt j e := by
    intro j hj
    have he := exists_depthAt t.liesAt_toTree .root hj
    rwa [Nat.zero_add, Nat.zero_add] at he
  constructor
  · intro hn
    have hp := t.size_pos
    rw [← hs, ← Array.length_toList, hn] at hp
    exact absurd hp (by decide)
  · intro i column threshold below above hi
    obtain ⟨c, hm, rfl, -⟩ := test_mem_splits hi
    exact hc c hm
  · intro i column threshold below above hi
    obtain ⟨-, hb, ha⟩ := hsh.placed i _ hi
    rw [toTree, List.getElem?_toArray] at hi
    have hn := (List.nodup_flatMap.1 (t.nodup_children 0)).1 _ (List.mem_of_getElem? hi)
    exact ⟨by simpa [Node.children] using hn, hb, ha⟩
  · intro j h0 hj
    obtain ⟨i, hi⟩ := exists_leads_iff.2 ⟨h0, hs ▸ hj⟩
    exact ⟨i, hi, fun k hk => leads_injective hk hi⟩
  · exact (t.countP_isLeaf_nodes 0).trans (t.leafCount_eq 0)
  · intro j hj
    obtain ⟨e, -, he⟩ := hreach j (hs ▸ hj)
    exact ⟨e, he⟩
  · intro j d hjd
    obtain ⟨e, hed, he⟩ := hreach j (lt_size_of_depthAt hjd)
    rw [depthAt_unique hjd he]
    omega

end Growth

/-! ## Fits -/

namespace Ensemble

variable {settings : Settings} {width : Nat} {rows : List Row} {targets : List Float}

theorem grown_arranged (p : Progress) :
    (grown settings width rows targets p).toTree.Arranged settings.maxDepth width
      (sampledColumns settings width rows p) := by
  refine Growth.arranged_toTree (fun c hc => ?_) (Growth.depth_grow_le _ _ _ _)
  have hm := Growth.column_mem_of_mem_splits hc
  exact ⟨hm, lt_of_mem_samplePortion hm⟩

/-- **The trees of every fit are arranged**: there is one for each round, and its list of nodes is a
binary tree of bounded depth on the columns that were sampled for the round. There is a gain for each
column of the rows. -/
theorem fit_trees_are_arranged {e : Ensemble} (h : fit settings rows targets = .ok e) :
    e.trees.length = settings.rounds ∧ e.columnGain.length = e.width ∧
      (∀ row ∈ rows, row.size = e.width) ∧
      ∀ n < settings.rounds, ∃ tree, e.trees[n]? = some tree ∧
        tree.Arranged settings.maxDepth e.width
          (sampledColumns settings e.width rows (beforeRound settings rows targets n)) := by
  refine ⟨length_trees_of_fit h, (shaped_of_fit h).columnGain, width_of_fit h, fun n hn => ?_⟩
  exact ⟨_, tree_of_fit h hn, grown_arranged _⟩

/-- Two rounds over four rows with one column. -/
theorem fit_trees_are_arranged_of_four_rows :
    ∃ e tree, fit { rounds := 2, rowFraction := 1.0 } [#[0.0], #[1.0], #[2.0], #[3.0]]
        [1.0, 1.0, 3.0, 3.0] = .ok e ∧
      e.trees.length = 2 ∧ e.columnGain.length = 1 ∧ e.trees[1]? = some tree ∧
      tree.Arranged 6 1 [0] := by
  have he := fit_of_matrixFault? (show matrixFault? { rounds := 2, rowFraction := 1.0 }
    [#[0.0], #[1.0], #[2.0], #[3.0]] [1.0, 1.0, 3.0, 3.0] = none by decide +kernel)
  obtain ⟨hl, hg, -, ht⟩ := fit_trees_are_arranged he
  obtain ⟨tree, h1, ha⟩ := ht 1 (by decide)
  rw [show sampledColumns _ _ _ _ = [0] by decide +kernel] at ha
  exact ⟨_, tree, he, hl, hg, h1, ha⟩

end Ensemble

end QueryForecast
