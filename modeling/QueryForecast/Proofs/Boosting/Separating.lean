import QueryForecast.Proofs.Boosting.Fitted
import QueryForecast.Proofs.Numeric.Halfway
import QueryForecast.Proofs.Numeric.Ordered

/-!
# What a threshold separates

A place for a split is chosen by its position among the sorted values of a column, but the samples are
divided by comparing with a threshold that is computed from the values on both sides of the place. The
two agree as long as the difference of these values is in the range of doubles.

* `Split.Separates` — a threshold is above one number and not above the other.
* `Split.separates_thresholdBetween` — the threshold between two numbers separates them, when their
  difference is finite.
* `Split.unpacked_thresholdBetween` — otherwise it is infinite.
* `Split.Scan.of_mem_run` — where the candidate of a scan comes from.
* `Split.Divides`, `Split.divides_of_find?` — how the split of a node divides its samples.
-/

namespace QueryForecast

open Numeric

namespace Split

/-! ## Thresholds -/

/-- A threshold is finite, above one number and not above the other. -/
structure Separates (lower upper threshold : Float) : Prop where
  finite : threshold.isFinite = true
  lower_lt : val lower < val threshold
  le_upper : val threshold ≤ val upper

variable {l u : Float}

/-- **The threshold between two numbers separates them**, when their difference is finite: the point
halfway between them may round to the lower one, and then it is the upper one. -/
theorem separates_thresholdBetween (hl : l.isFinite) (hu : u.isFinite) (h : val l < val u)
    (hd : (u - l).isFinite) : Separates l u (thresholdBetween l u) := by
  obtain ⟨hm, -, hmu⟩ := middle_mem hl hu h hd
  unfold thresholdBetween
  dsimp only
  split
  · rename_i hlt
    exact ⟨hm, (lt_iff_val_lt hl hm).1 hlt, hmu⟩
  · exact ⟨hu, h, le_refl _⟩

/-- **The threshold between two numbers is infinite**, when their difference is. -/
theorem unpacked_thresholdBetween (hl : l.isFinite) (hu : u.isFinite) (h : val l < val u)
    (hd : (u - l).isFinite = false) : unpacked (thresholdBetween l u) = .infinity .positive := by
  have hm := unpacked_middle hl hu h hd
  unfold thresholdBetween
  dsimp only
  rw [if_pos (lt_of_infinite hl hm)]
  exact hm

theorem isFinite_thresholdBetween_iff (hl : l.isFinite) (hu : u.isFinite) (h : val l < val u) :
    (thresholdBetween l u).isFinite = true ↔ (u - l).isFinite = true := by
  constructor
  · intro ht
    by_contra hd
    have hi := unpacked_thresholdBetween hl hu h (by simpa using hd)
    rw [isFinite_eq, hi] at ht
    cases ht
  · exact fun hd => (separates_thresholdBetween hl hu h hd).finite

/-! ## Scanning -/

theorem Scan.of_mem_consider {s : Scan} {best : Option Candidate} {total : Float} {below : Nat}
    {lower upper : Float} {c : Candidate} (h : c ∈ s.consider best total below lower upper) :
    c ∈ best ∨ (lower == upper) = false ∧ c.threshold = thresholdBetween lower upper ∧
      s.settings.minLeafRows ≤ below ∧ s.settings.minLeafRows ≤ s.rows - below := by
  unfold consider at h
  split at h
  · exact .inl h
  · rename_i hne
    split at h
    · exact .inl h
    · rename_i hm
      dsimp only at h
      split at h
      · cases h
        exact .inr ⟨by simpa using hne, rfl, by omega, by omega⟩
      · exact .inl h

/-- **The candidate of a scan is the one that it starts with, or stands for a place** between two
neighbouring points, of different values and with enough rows on both sides. -/
theorem Scan.of_mem_run {s : Scan} {best : Option Candidate} {total : Float} {below : Nat}
    {points : List (Float × Float)} {c : Candidate} (h : c ∈ s.run best total below points) :
    c ∈ best ∨ ∃ before p q after, points = before ++ p :: q :: after ∧
      (p.1 == q.1) = false ∧ c.threshold = thresholdBetween p.1 q.1 ∧
      s.settings.minLeafRows ≤ below + (before.length + 1) ∧
      s.settings.minLeafRows ≤ s.rows - (below + (before.length + 1)) := by
  induction points generalizing best total below with
  | nil => exact .inl h
  | cons p rest ih =>
    cases rest with
    | nil => exact .inl h
    | cons q rest =>
      rcases ih h with hc | ⟨before, p', q', after, he, hne, ht, hb, ha⟩
      · rcases of_mem_consider hc with hc | ⟨hne, ht, hb, ha⟩
        · exact .inl hc
        · exact .inr ⟨[], p, q, rest, rfl, hne, ht, hb, ha⟩
      · refine .inr ⟨p :: before, p', q', after, by rw [he, List.cons_append], hne, ht, ?_, ?_⟩
        · rw [List.length_cons]
          omega
        · rw [List.length_cons]
          omega

/-! ## Samples -/

/-- The samples that a split on a column sends below. -/
def lowerHalf (column : Nat) (threshold : Float) (samples : List Sample) : List Sample :=
  samples.filter fun s => decide (s.row.at column < threshold)

/-- The samples that it sends above. -/
def upperHalf (column : Nat) (threshold : Float) (samples : List Sample) : List Sample :=
  samples.filter fun s => !decide (s.row.at column < threshold)

theorem length_halves (column : Nat) (threshold : Float) (samples : List Sample) :
    (lowerHalf column threshold samples).length + (upperHalf column threshold samples).length =
      samples.length :=
  (List.length_eq_length_filter_add _).symm

/-- **A split with a finite threshold leaves enough samples on both sides.** One with an infinite
threshold leaves none above. Which of the two it is, the differences of the values say. -/
structure Divides (minRows column : Nat) (threshold : Float) (samples : List Sample) : Prop where
  lower : threshold.isFinite = true → minRows ≤ (lowerHalf column threshold samples).length
  upper : threshold.isFinite = true → minRows ≤ (upperHalf column threshold samples).length
  infinite : threshold.isFinite = false → upperHalf column threshold samples = []
  finite : (∀ s ∈ samples, ∀ s' ∈ samples,
    (s.row.at column - s'.row.at column).isFinite = true) → threshold.isFinite = true

theorem points_perm (column : Nat) (samples : List Sample) :
    (points column samples).Perm (samples.map fun s => (s.row.at column, s.residual)) :=
  List.mergeSort_perm _ _

theorem points_sorted (column : Nat) (samples : List Sample) :
    (points column samples).Pairwise fun p q => precedes p.1 q.1 = true := by
  refine List.pairwise_mergeSort ?_ ?_ _
  · exact fun p q r => precedes_trans p.1 q.1 r.1
  · exact fun p q => precedes_total p.1 q.1

theorem exists_sample_of_mem_points {column : Nat} {samples : List Sample} {p : Float × Float}
    (h : p ∈ points column samples) : ∃ s ∈ samples, s.row.at column = p.1 := by
  obtain ⟨s, hs, rfl⟩ := List.mem_map.1 ((points_perm column samples).mem_iff.1 h)
  exact ⟨s, hs, rfl⟩

theorem length_lowerHalf (column : Nat) (threshold : Float) (samples : List Sample) :
    (lowerHalf column threshold samples).length =
      (points column samples).countP fun p => decide (p.1 < threshold) := by
  rw [(points_perm column samples).countP_eq, List.countP_map, lowerHalf,
    ← List.countP_eq_length_filter]
  rfl

/-- Between two neighbours of a sorted list, a threshold that separates them has the first of them and
all before it below. -/
theorem countP_lt_of_separates {points before after : List (Float × Float)} {p q : Float × Float}
    {t : Float} (hs : points.Pairwise fun p q => precedes p.1 q.1 = true)
    (hf : ∀ x ∈ points, x.1.isFinite = true) (he : points = before ++ p :: q :: after)
    (ht : Separates p.1 q.1 t) :
    (points.countP fun x => decide (x.1 < t)) = before.length + 1 := by
  subst he
  rw [List.pairwise_append, List.pairwise_cons, List.pairwise_cons] at hs
  obtain ⟨-, ⟨-, hq, -⟩, hb⟩ := hs
  simp only [List.forall_mem_append, List.forall_mem_cons] at hf
  obtain ⟨hbf, hpf, hqf, haf⟩ := hf
  have hlow : ∀ x ∈ before, x.1 < t := fun x hx =>
    (lt_iff_val_lt (hbf x hx) ht.finite).2
      ((val_le_of_precedes (hbf x hx) hpf (hb x hx p List.mem_cons_self)).trans_lt ht.lower_lt)
  have hhigh : ∀ x ∈ after, ¬ x.1 < t := fun x hx => by
    rw [lt_iff_val_lt (haf x hx) ht.finite, not_lt]
    exact ht.le_upper.trans (val_le_of_precedes hqf (haf x hx) (hq x hx))
  have hp : p.1 < t := (lt_iff_val_lt hpf ht.finite).2 ht.lower_lt
  have hq' : ¬ q.1 < t := by
    rw [lt_iff_val_lt hqf ht.finite, not_lt]
    exact ht.le_upper
  rw [List.countP_append, List.countP_cons, List.countP_cons,
    List.countP_eq_length.2 fun x hx => decide_eq_true (hlow x hx),
    List.countP_eq_zero.2 fun x hx => by simpa using hhigh x hx]
  simp [hp, hq']

/-- Neighbours of a sorted list that are not equal increase. -/
theorem val_lt_of_neighbours {points before after : List (Float × Float)} {p q : Float × Float}
    (hs : points.Pairwise fun p q => precedes p.1 q.1 = true)
    (hf : ∀ x ∈ points, x.1.isFinite = true) (he : points = before ++ p :: q :: after)
    (hne : (p.1 == q.1) = false) : val p.1 < val q.1 := by
  have hp : p ∈ points := by simp [he]
  have hq : q ∈ points := by simp [he]
  rw [he, List.pairwise_append, List.pairwise_cons] at hs
  have hle := val_le_of_precedes (hf p hp) (hf q hq) (hs.2.1.1 q List.mem_cons_self)
  refine lt_of_le_of_ne hle fun heq => ?_
  rw [(beq_iff_val_eq (hf p hp) (hf q hq)).2 heq] at hne
  cases hne

/-- A finite threshold between two neighbours has the points up to the first of them below. -/
theorem length_lowerHalf_between {column : Nat} {samples : List Sample}
    {before after : List (Float × Float)} {p q : Float × Float}
    (hf : ∀ x ∈ points column samples, x.1.isFinite = true)
    (he : points column samples = before ++ p :: q :: after) (hne : (p.1 == q.1) = false)
    (hfin : (thresholdBetween p.1 q.1).isFinite = true) :
    (lowerHalf column (thresholdBetween p.1 q.1) samples).length = before.length + 1 := by
  have hpf : p.1.isFinite = true := hf p (by simp [he])
  have hqf : q.1.isFinite = true := hf q (by simp [he])
  have hsort := points_sorted column samples
  have hlt := val_lt_of_neighbours hsort hf he hne
  have hd := (isFinite_thresholdBetween_iff hpf hqf hlt).1 hfin
  rw [length_lowerHalf]
  exact countP_lt_of_separates hsort hf he (separates_thresholdBetween hpf hqf hlt hd)

/-- An infinite threshold between two neighbours has nothing above. -/
theorem upperHalf_between_eq_nil {column : Nat} {samples : List Sample} {p q : Float × Float}
    (hf : ∀ s ∈ samples, (s.row.at column).isFinite = true) (hp : p.1.isFinite = true)
    (hq : q.1.isFinite = true) (hlt : val p.1 < val q.1) (hd : (q.1 - p.1).isFinite = false) :
    upperHalf column (thresholdBetween p.1 q.1) samples = [] := by
  have hi := unpacked_thresholdBetween hp hq hlt hd
  refine List.filter_eq_nil_iff.2 fun s hs => ?_
  simpa using lt_of_infinite (hf s hs) hi

/-- **How the split of a node divides its samples.** -/
theorem divides_of_onColumn? {settings : Settings} {samples : List Sample} {total : Float}
    {column : Nat} {c : Candidate} (h : onColumn? settings samples total column = some c)
    (hf : ∀ s ∈ samples, (s.row.at column).isFinite = true) :
    Divides settings.minLeafRows c.column c.threshold samples := by
  obtain rfl := column_onColumn? h
  obtain hc | ⟨before, p, q, after, he, hne, ht, hb, ha⟩ := Scan.of_mem_run (Option.mem_def.2 h)
  · cases hc
  have hpf : ∀ x ∈ points c.column samples, x.1.isFinite = true := fun x hx => by
    obtain ⟨s, hs, hx⟩ := exists_sample_of_mem_points hx
    rw [← hx]
    exact hf s hs
  have hp : p ∈ points c.column samples := by simp [he]
  have hq : q ∈ points c.column samples := by simp [he]
  have hlt := val_lt_of_neighbours (points_sorted c.column samples) hpf he hne
  have hiff := isFinite_thresholdBetween_iff (hpf p hp) (hpf q hq) hlt
  have hsum := length_halves c.column c.threshold samples
  dsimp only at hb ha
  rw [ht] at hsum ⊢
  constructor
  · intro hfin
    rw [length_lowerHalf_between hpf he hne hfin]
    omega
  · intro hfin
    have hl := length_lowerHalf_between hpf he hne hfin
    omega
  · intro hinf
    refine upperHalf_between_eq_nil hf (hpf p hp) (hpf q hq) hlt ?_
    rw [← Bool.not_eq_true, ← hiff, hinf]
    decide
  · intro hall
    obtain ⟨s, hs, hsp⟩ := exists_sample_of_mem_points hp
    obtain ⟨s', hs', hsq⟩ := exists_sample_of_mem_points hq
    rw [hiff, ← hsp, ← hsq]
    exact hall s' hs' s hs

/-- **Every split that is found divides the samples that it is found for.** -/
theorem divides_of_find? {settings : Settings} {columns : List Nat} {samples : List Sample}
    {total : Float} {c : Candidate} (h : find? settings columns samples total = some c)
    (hf : ∀ s ∈ samples, ∀ column ∈ columns, (s.row.at column).isFinite = true) :
    Divides settings.minLeafRows c.column c.threshold samples := by
  obtain ⟨column, hm, hc⟩ := List.mem_filterMap.1 (Candidate.best?_mem h)
  exact divides_of_onColumn? hc fun s hs => hf s hs column hm

end Split

end QueryForecast
