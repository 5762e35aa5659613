import Mathlib.Data.List.Perm.Subperm
import QueryForecast.Random.Sampling

/-!
# Samples hold distinct numbers in ascending order

A sample is drawn in one of three ways, and each has an invariant of its own:

* `drawToFront_perm` — swapping keeps the list a permutation of the numbers below `n`, so any part
  of it holds distinct ones.
* `Distinct.drawDistinct` — before the draw for `j` all chosen numbers are below `j`, so `j` itself
  is new when the drawn number is not.
* `Distinct.drawApart` — a number that is chosen already is drawn again; while fewer than `n` are
  chosen there is a new one.

`samplePortion_ascending`, `lt_of_mem_samplePortion` and `length_samplePortion` are what the users of a
sample rely on.
-/

namespace QueryForecast.Random

open Numeric

/-- Numbers below `n`, none of them twice. -/
structure Distinct (n : Nat) (xs : List Nat) : Prop where
  nodup : xs.Nodup
  lt : ∀ x ∈ xs, x < n

namespace Distinct

variable {n : Nat} {xs : List Nat}

theorem nil (n : Nat) : Distinct n [] :=
  ⟨List.nodup_nil, by simp⟩

theorem range (n : Nat) : Distinct n (List.range n) :=
  ⟨List.nodup_range, fun _ => List.mem_range.1⟩

theorem cons {x : Nat} (h : Distinct n xs) (hx : x < n) (hn : x ∉ xs) : Distinct n (x :: xs) := by
  refine ⟨List.nodup_cons.2 ⟨hn, h.nodup⟩, fun y hy => ?_⟩
  rcases List.mem_cons.1 hy with rfl | hy
  · exact hx
  · exact h.lt y hy

theorem mono {m : Nat} (h : Distinct n xs) (hm : n ≤ m) : Distinct m xs :=
  ⟨h.nodup, fun x hx => Nat.lt_of_lt_of_le (h.lt x hx) hm⟩

theorem perm {ys : List Nat} (h : Distinct n xs) (hp : ys.Perm xs) : Distinct n ys :=
  ⟨hp.nodup_iff.2 h.nodup, fun x hx => h.lt x (hp.mem_iff.1 hx)⟩

theorem take (h : Distinct n xs) (k : Nat) : Distinct n (xs.take k) :=
  ⟨h.nodup.sublist (List.take_sublist k xs), fun x hx => h.lt x (List.mem_of_mem_take hx)⟩

/-- Fewer than `n` numbers leave one below `n` out. -/
theorem exists_new (h : xs.length < n) : ∃ x ∈ List.range n, x ∉ xs := by
  refine Classical.byContradiction fun hc => ?_
  have hs : List.range n ⊆ xs := fun x hx => Classical.byContradiction fun hn => hc ⟨x, hx, hn⟩
  have hl := (List.subperm_of_subset List.nodup_range hs).length_le
  rw [List.length_range] at hl
  omega

end Distinct

/-! ### Shuffles -/

theorem swapIfInBounds_perm (xs : Array Nat) (i j : Nat) :
    (xs.swapIfInBounds i j).toList.Perm xs.toList := by
  unfold Array.swapIfInBounds
  split
  · split
    · exact (Array.swap_perm _ _).toList
    · exact List.Perm.refl _
  · exact List.Perm.refl _

/-- A shuffle swaps, so it keeps the elements. -/
theorem shuffleFrom_perm (last : Nat) (xs : Array Nat) (g : Generator) :
    (shuffleFrom last xs g).1.toList.Perm xs.toList := by
  induction last generalizing xs g with
  | zero => exact List.Perm.refl _
  | succ last ih =>
    unfold shuffleFrom
    generalize draw (last + 2) g = d
    exact (ih _ _).trans (swapIfInBounds_perm xs _ _)

/-- **The numbers in random order are the numbers.** -/
theorem shuffled_perm (n : Nat) (g : Generator) : (shuffled n g).1.Perm (List.range n) := by
  have h := shuffleFrom_perm (n - 1) (Array.range n) g
  rwa [Array.toList_range] at h

theorem drawToFront_perm (n count i : Nat) (xs : Array Nat) (g : Generator) :
    (drawToFront n count i xs g).1.toList.Perm xs.toList := by
  induction count generalizing i xs g with
  | zero => exact List.Perm.refl _
  | succ count ih =>
    unfold drawToFront
    generalize draw (n - i) g = d
    exact (ih (i + 1) _ _).trans (swapIfInBounds_perm xs i _)

theorem Distinct.sampleByShuffling (n k : Nat) (g : Generator) :
    Distinct n (sampleByShuffling n k g).1 := by
  have hp := drawToFront_perm n k 0 (Array.range n) g
  rw [Array.toList_range] at hp
  exact ((Distinct.range n).perm hp).take k

/-! ### Substitution -/

/-- Before the draw for `j` all chosen numbers are below `j`. -/
theorem Distinct.drawDistinct {n : Nat} :
    ∀ {count : Nat} {chosen : List Nat} {g : Generator}, count ≤ n → Distinct (n - count) chosen →
      Distinct n (drawDistinct n count chosen g).1
  | 0, _, _, _, h => h
  | count + 1, chosen, g, hc, h => by
    have ht := draw_lt (show 0 < n - (count + 1) + 1 by omega) g
    have he : n - (count + 1) + 1 = n - count := by omega
    show Distinct n (Random.drawDistinct n count
      ((if chosen.contains (draw (n - (count + 1) + 1) g).1 then n - (count + 1)
        else (draw (n - (count + 1) + 1) g).1) :: chosen) (draw (n - (count + 1) + 1) g).2).1
    refine Distinct.drawDistinct (by omega) ?_
    split
    · have hj : n - (count + 1) ∉ chosen := fun hm => Nat.lt_irrefl _ (h.lt _ hm)
      exact (h.mono (by omega)).cons (by omega) hj
    · rename_i hn
      rw [he] at ht
      rw [he] at hn ⊢
      exact (h.mono (by omega)).cons ht (by simpa using hn)

/-! ### Rejection -/

theorem drawNew_spec {n : Nat} {chosen : List Nat} (h : chosen.length < n) :
    ∀ {fuel : Nat} {g : Generator},
      (drawNew n chosen fuel g).1 < n ∧ (drawNew n chosen fuel g).1 ∉ chosen
  | 0, g => by
    unfold drawNew
    obtain ⟨x, hx, hn⟩ := Distinct.exists_new h
    cases hf : (List.range n).find? fun t => !chosen.contains t with
    | none => exact absurd (List.find?_eq_none.1 hf x hx) (by simp [hn])
    | some t =>
      have hm := List.mem_of_find?_eq_some hf
      have hp := List.find?_some hf
      exact ⟨List.mem_range.1 hm, by simpa using hp⟩
  | fuel + 1, g => by
    unfold drawNew
    have ht := @drawWithin_lt (widestZone n) n (Nat.zero_lt_of_lt h) 1000 g
    generalize drawWithin (widestZone n) n 1000 g = d at ht
    obtain ⟨t, g'⟩ := d
    dsimp only
    split
    · exact drawNew_spec h
    · rename_i hn
      exact ⟨ht, by simpa using hn⟩

theorem Distinct.drawApart {n : Nat} :
    ∀ {count : Nat} {chosen : List Nat} {g : Generator}, chosen.length + count ≤ n →
      Distinct n chosen → Distinct n (drawApart n count chosen g).1
  | 0, _, _, _, h => h
  | count + 1, chosen, g, hc, h => by
    unfold Random.drawApart
    have hs : (drawNew n chosen 1000 g).1 < n ∧ (drawNew n chosen 1000 g).1 ∉ chosen :=
      drawNew_spec (by omega)
    generalize drawNew n chosen 1000 g = d at hs
    obtain ⟨t, g'⟩ := d
    exact Distinct.drawApart (by simp only [List.length_cons]; omega) (h.cons hs.1 hs.2)

/-! ### Samples -/

theorem Distinct.sampleUnordered {n k : Nat} (hk : k ≤ n) (g : Generator) :
    Distinct n (sampleUnordered n k g).1 := by
  have hapart : Distinct n (Random.drawApart n k [] g).1 :=
    Distinct.drawApart (by simpa using hk) (Distinct.nil _)
  unfold Random.sampleUnordered
  split
  · exact hapart
  · split
    · exact Distinct.sampleByShuffling n k g
    · split
      · exact Distinct.drawDistinct hk (Distinct.nil _)
      · exact hapart

theorem sample_perm (n k : Nat) (g : Generator) :
    (sample n k g).1.Perm (sampleUnordered n k g).1 :=
  List.mergeSort_perm _ _

theorem Distinct.sample {n k : Nat} (hk : k ≤ n) (g : Generator) : Distinct n (sample n k g).1 :=
  (Distinct.sampleUnordered hk g).perm (sample_perm n k g)

theorem sample_ascending {n k : Nat} (hk : k ≤ n) (g : Generator) :
    (sample n k g).1.Pairwise (· < ·) := by
  have hle : (sample n k g).1.Pairwise fun a b => decide (a ≤ b) = true :=
    List.pairwise_mergeSort (fun a b c hab hbc => by simp at *; omega)
      (fun a b => by simp; omega) _
  have hne : (sample n k g).1.Pairwise (· ≠ ·) := (Distinct.sample hk g).nodup
  refine (hle.and hne).imp fun h => ?_
  have hle := of_decide_eq_true h.1
  have hne := h.2
  omega

theorem Distinct.samplePortion (n : Nat) (fraction : Float) (g : Generator) :
    Distinct n (samplePortion n fraction g).1 := by
  unfold Random.samplePortion
  split
  · exact Distinct.nil n
  · dsimp only
    split
    · exact Distinct.range n
    · exact Distinct.sample portion_le g

/-- The positions of a sample ascend strictly. -/
theorem samplePortion_ascending (n : Nat) (fraction : Float) (g : Generator) :
    (samplePortion n fraction g).1.Pairwise (· < ·) := by
  unfold samplePortion
  split
  · exact List.Pairwise.nil
  · dsimp only
    split
    · exact List.pairwise_lt_range
    · exact sample_ascending portion_le g

theorem lt_of_mem_samplePortion {n x : Nat} {fraction : Float} {g : Generator}
    (h : x ∈ (samplePortion n fraction g).1) : x < n :=
  (Distinct.samplePortion n fraction g).lt x h

/-! ### Sizes -/

theorem length_sampleByShuffling {n k : Nat} (hk : k ≤ n) (g : Generator) :
    (sampleByShuffling n k g).1.length = k := by
  have hp := (drawToFront_perm n k 0 (Array.range n) g).length_eq
  rw [Array.toList_range, List.length_range] at hp
  show ((drawToFront n k 0 (Array.range n) g).1.toList.take k).length = k
  rw [List.length_take, hp, Nat.min_eq_left hk]

theorem length_drawDistinct (n count : Nat) (chosen : List Nat) (g : Generator) :
    (drawDistinct n count chosen g).1.length = chosen.length + count := by
  induction count generalizing chosen g with
  | zero => rfl
  | succ count ih =>
    unfold drawDistinct
    dsimp only
    rw [ih, List.length_cons]
    omega

theorem length_drawApart (n count : Nat) (chosen : List Nat) (g : Generator) :
    (drawApart n count chosen g).1.length = chosen.length + count := by
  induction count generalizing chosen g with
  | zero => rfl
  | succ count ih =>
    unfold drawApart
    dsimp only
    rw [ih, List.length_cons]
    omega

/-- A sample of `k` numbers has `k` of them. -/
theorem length_sample {n k : Nat} (hk : k ≤ n) (g : Generator) : (sample n k g).1.length = k := by
  have hapart : (drawApart n k [] g).1.length = k :=
    (length_drawApart n k [] g).trans (Nat.zero_add k)
  rw [(sample_perm n k g).length_eq]
  unfold sampleUnordered
  split
  · exact hapart
  · split
    · exact length_sampleByShuffling hk g
    · split
      · exact (length_drawDistinct n k [] g).trans (Nat.zero_add k)
      · exact hapart

theorem length_samplePortion {n : Nat} (h : n ≠ 0) (fraction : Float) (g : Generator) :
    (samplePortion n fraction g).1.length = portion n fraction 1 n := by
  unfold samplePortion
  rw [if_neg h]
  dsimp only
  split
  · rename_i hk
    rw [hk]
    exact List.length_range
  · exact length_sample portion_le g

end QueryForecast.Random
