import QueryForecast.Proofs.Boosting.Checked
import QueryForecast.Proofs.Boosting.Rounds

/-!
# Fitted ensembles are well-formed, as far as their numbers are finite

A fit keeps to the columns of its matrix and writes the children of a node behind it. What the check
of an ensemble asks for beyond that is about numbers: thresholds, leaves and the base score.

* `Node.Placed` — a node fits into its tree, whatever its number is.
* `Split.find?_column_mem` — a split is on one of the columns that were searched.
* `Growth.placed_nodes` — the nodes of a growing tree are placed.
* `Ensemble.Shaped` — what every fit keeps, round by round.
* `Ensemble.wellFormed_of_fit` — a fitted ensemble with finite numbers is well-formed.
-/

namespace QueryForecast

open Numeric QueryForecast.Random

/-- The number that a node holds. -/
def Node.number : Node → Float
  | .split _ threshold _ _ => threshold
  | .leaf value => value

/-- A node fits into a tree of `size` nodes for rows of `width` columns, whatever its number is. -/
def Node.Placed (size width index : Nat) : Node → Prop
  | .split column _ below above =>
    column < width ∧ (index < below ∧ below < size) ∧ index < above ∧ above < size
  | .leaf _ => True

namespace Node.Placed

variable {size width index : Nat} {node : Node}

theorem mono {n : Nat} (h : node.Placed size width index) (hn : size ≤ n) :
    node.Placed n width index := by
  cases node with
  | leaf value => trivial
  | split column threshold below above =>
    obtain ⟨hc, hb, ha⟩ := h
    exact ⟨hc, ⟨hb.1, by omega⟩, ha.1, by omega⟩

theorem sound (h : node.Placed size width index) (hf : node.number.isFinite = true) :
    node.Sound size width index := by
  cases node with
  | leaf value => exact hf
  | split column threshold below above =>
    obtain ⟨hc, hb, ha⟩ := h
    exact ⟨hc, isNaN_of_isFinite hf, hb, ha⟩

end Node.Placed

/-! ## Columns -/

namespace Split

theorem Scan.column_run {s : Scan} {best : Option Candidate} {total : Float} {below : Nat}
    {points : List (Float × Float)} (hb : ∀ c ∈ best, c.column = s.column) :
    ∀ c ∈ s.run best total below points, c.column = s.column := by
  induction points generalizing best total below with
  | nil => exact hb
  | cons p rest ih =>
    cases rest with
    | nil => exact hb
    | cons q rest =>
      refine ih fun c hc => ?_
      unfold Scan.consider at hc
      split at hc
      · exact hb c hc
      · split at hc
        · exact hb c hc
        · dsimp only at hc
          split at hc
          · cases hc
            rfl
          · exact hb c hc

theorem column_onColumn? {settings : Settings} {samples : List Sample} {total : Float}
    {column : Nat} {c : Candidate} (h : onColumn? settings samples total column = some c) :
    c.column = column :=
  Scan.column_run (by simp) c h

end Split

theorem Candidate.best?_mem {candidates : List Candidate} {c : Candidate}
    (h : best? candidates = some c) : c ∈ candidates := by
  have hf : ∀ (rest : List Candidate) (x : Candidate), rest.foldl better x ∈ x :: rest := by
    intro rest
    induction rest with
    | nil => exact fun x => List.mem_cons_self
    | cons y rest ih =>
      intro x
      have hb : better x y = x ∨ better x y = y := by
        unfold better
        split
        · exact .inr rfl
        · exact .inl rfl
      rcases List.mem_cons.1 (ih (better x y)) with hm | hm
      · rw [List.foldl_cons, hm]
        rcases hb with h1 | h1 <;> simp [h1]
      · exact List.mem_cons_of_mem _ (List.mem_cons_of_mem _ hm)
  cases candidates with
  | nil => cases h
  | cons x rest =>
    cases h
    exact hf rest x

/-- A split is on one of the columns that were searched. -/
theorem Split.find?_column_mem {settings : Settings} {columns : List Nat} {samples : List Sample}
    {total : Float} {c : Candidate} (h : find? settings columns samples total = some c) :
    c.column ∈ columns := by
  obtain ⟨column, hm, hc⟩ := List.mem_filterMap.1 (Candidate.best?_mem h)
  rw [column_onColumn? hc]
  exact hm

/-! ## Trees -/

namespace Growth

theorem splits_split (c : Candidate) (below above : Growth) :
    (split c below above).splits = c :: (below.splits ++ above.splits) :=
  rfl

/-- What every search among some of the samples gives, all splits of a grown tree have. -/
theorem forall_splits {settings : Settings} {columns : List Nat} {P : Candidate → Prop}
    {depth : Nat} {samples : List Sample}
    (hP : ∀ (part : List Sample) (total : Float) (c : Candidate), part ⊆ samples →
      Split.find? settings columns part total = some c → P c) :
    ∀ c ∈ (grow settings columns depth samples).splits, P c := by
  intro c h
  induction depth generalizing samples with
  | zero => cases h
  | succ depth ih =>
    obtain hg | ⟨d, hd, hg⟩ := grow_succ settings columns depth samples
    · rw [hg] at h
      cases h
    · -- The samples of a child are some of those of its node.
      have hsub (p : Sample → Bool) (part : List Sample) (total : Float) (e : Candidate)
          (hs : part ⊆ samples.filter p) :=
        hP part total e (List.Subset.trans hs fun _ => List.mem_of_mem_filter)
      rw [hg, splits_split, List.mem_cons, List.mem_append] at h
      rcases h with rfl | h | h
      · exact hP _ _ _ (List.Subset.refl samples) hd
      · exact ih (hsub _) h
      · exact ih (hsub _) h

/-- The splits of a grown tree are on the columns that it may split on. -/
theorem column_mem_of_mem_splits {settings : Settings} {columns : List Nat} {depth : Nat}
    {samples : List Sample} {c : Candidate} (h : c ∈ (grow settings columns depth samples).splits) :
    c.column ∈ columns :=
  forall_splits (fun _ _ _ _ hc => Split.find?_column_mem hc) c h

/-- The nodes of a tree are placed, when its splits are on columns of the rows. -/
theorem placed_nodes {width : Nat} {t : Growth} {index k : Nat} {node : Node}
    (hc : ∀ c ∈ t.splits, c.column < width) (h : (t.nodes index)[k]? = some node) :
    node.Placed (index + t.size) width (index + k) := by
  induction t generalizing index k with
  | leaf value =>
    cases k with
    | zero =>
      cases h
      trivial
    | succ k => cases h
  | split c below above hb ha =>
    rw [splits_split] at hc
    have hcb : ∀ d ∈ below.splits, d.column < width := fun d hd =>
      hc d (List.mem_cons_of_mem _ (List.mem_append_left _ hd))
    have hca : ∀ d ∈ above.splits, d.column < width := fun d hd =>
      hc d (List.mem_cons_of_mem _ (List.mem_append_right _ hd))
    have hpb := size_pos below
    have hpa := size_pos above
    rw [size_split]
    cases k with
    | zero =>
      cases h
      refine ⟨hc c List.mem_cons_self, ⟨?_, ?_⟩, ?_, ?_⟩ <;> omega
    | succ k =>
      rw [nodes, List.getElem?_cons_succ] at h
      by_cases hk : k < below.size
      · rw [List.getElem?_append_left (by rw [length_nodes]; exact hk)] at h
        have hp := (hb hcb h).mono (n := index + (1 + below.size + above.size)) (by omega)
        rwa [show index + 1 + k = index + (k + 1) by omega] at hp
      · rw [List.getElem?_append_right (by rw [length_nodes]; omega), length_nodes] at h
        have hp := (ha hca h).mono (n := index + (1 + below.size + above.size)) (by omega)
        rwa [show index + 1 + below.size + (k - below.size) = index + (k + 1) by omega] at hp

end Growth

/-- There is a root, and every node is placed. -/
structure RegressionTree.Shaped (t : RegressionTree) (width : Nat) : Prop where
  size_pos : 0 < t.nodes.size
  placed : ∀ (i : Nat) (node : Node), t.nodes[i]? = some node → node.Placed t.nodes.size width i

/-- The numbers of a tree. -/
def RegressionTree.numbers (t : RegressionTree) : List Float :=
  t.nodes.toList.map Node.number

theorem RegressionTree.Shaped.wellFormed {t : RegressionTree} {width : Nat} (h : t.Shaped width)
    (hf : ∀ x ∈ t.numbers, x.isFinite = true) : t.WellFormed width := by
  refine ⟨h.size_pos, fun i node hi => (h.placed i node hi).sound (hf _ ?_)⟩
  exact List.mem_map.2 ⟨node, Array.mem_toList_iff.2 (Array.mem_of_getElem? hi), rfl⟩

theorem Growth.shaped_toTree {width : Nat} {t : Growth} (h : ∀ c ∈ t.splits, c.column < width) :
    t.toTree.Shaped width := by
  refine ⟨by rw [size_toTree]; exact t.size_pos, fun i node hi => ?_⟩
  rw [toTree, List.getElem?_toArray] at hi
  have hp := placed_nodes h hi
  rwa [Nat.zero_add, Nat.zero_add, ← size_toTree] at hp

/-! ## Rounds -/

namespace Ensemble

variable {settings : Settings} {width : Nat} {rows : List Row} {targets : List Float}

/-- The numbers of an ensemble. -/
def numbers (e : Ensemble) : List Float :=
  e.baseScore :: (e.trees.flatMap RegressionTree.numbers ++ e.columnGain)

/-- Every column has a gain, and every tree is shaped. -/
structure Shaped (trees : List RegressionTree) (columnGain : List Float) (width : Nat) : Prop where
  columnGain : columnGain.length = width
  trees : ∀ t ∈ trees, t.Shaped width

theorem length_addGains (gains : List Float) (splits : List Candidate) :
    (addGains gains splits).length = gains.length := by
  unfold addGains
  induction splits generalizing gains with
  | nil => rfl
  | cons c splits ih => rw [List.foldl_cons, ih, List.length_modify]

theorem shaped_grown (p : Progress) :
    (grown settings width rows targets p).toTree.Shaped width :=
  Growth.shaped_toTree fun _ hc => lt_of_mem_samplePortion (Growth.column_mem_of_mem_splits hc)

theorem Shaped.round {p : Progress} (h : Shaped p.trees p.columnGain width) :
    Shaped (round settings width rows targets p).trees
      (round settings width rows targets p).columnGain width := by
  rw [round_eq]
  refine ⟨(length_addGains _ _).trans h.columnGain, fun t ht => ?_⟩
  rcases List.mem_append.1 ht with ht | ht
  · exact h.trees t ht
  · rw [List.mem_singleton.1 ht]
    exact shaped_grown p

theorem Shaped.rounds {p : Progress} (h : Shaped p.trees p.columnGain width) (n : Nat) :
    Shaped (rounds settings width rows targets n p).trees
      (rounds settings width rows targets n p).columnGain width := by
  induction n generalizing p with
  | zero => exact h
  | succ n ih => exact ih h.round

/-- **The columns and nodes of every fit are in order.** -/
theorem shaped_of_fit {e : Ensemble} (h : fit settings rows targets = .ok e) :
    Shaped e.trees e.columnGain e.width := by
  obtain ⟨-, rfl⟩ := fit_eq_ok h
  exact Shaped.rounds ⟨List.length_replicate, by simp [start]⟩ _

/-- **A fitted ensemble is well-formed, when its numbers are finite.** -/
theorem wellFormed_of_fit {e : Ensemble} (h : fit settings rows targets = .ok e)
    (hf : e.numbers.all Float.isFinite = true) : e.WellFormed := by
  obtain ⟨hg, ht⟩ := shaped_of_fit h
  rw [List.all_eq_true] at hf
  refine ⟨hf _ List.mem_cons_self, hg, fun t hm => (ht t hm).wellFormed fun x hx => hf x ?_⟩
  exact List.mem_cons_of_mem _ (List.mem_append_left _ (List.mem_flatMap.2 ⟨t, hm, hx⟩))

end Ensemble

end QueryForecast
