import QueryForecast.Proofs.Boosting.Fitted
import QueryForecast.Proofs.Numeric.Extended

/-!
# What a split search finds

A place for a split is a position among the sorted points of a column. The search runs over the places
of one column after the other and keeps the best split so far, and the results of the columns are
combined two at a time. Combining the results of some places and of places that come after them gives
the result of all of them, so neither the order of the scan nor the way in which the columns are grouped
matters.

* `Search.Best` — the split of the greatest gain among some places, and of several the first.
* `Search.Leads` — the splits at some places are no better than a given one.
* `Search.Best.merge`, `Search.Best.unique` — results of neighbouring places can be combined, and there
  is only one result.
* `Scan.consider_eq_merge`, `Search.best_onColumn?` — a scan combines the places of its column.
* `Search.best_reduce` — columns may be combined in any grouping.
* `Search.finds_first_of_greatest_gain` — what a search finds.
-/

namespace QueryForecast

open Numeric

/-- The better of two results. -/
def Candidate.merge : Option Candidate → Option Candidate → Option Candidate
  | some x, some y => some (x.better y)
  | some x, none => some x
  | none, y => y

theorem Candidate.best?_concat (candidates : List Candidate) (x : Candidate) :
    best? (candidates ++ [x]) = merge (best? candidates) (some x) := by
  cases candidates with
  | nil => rfl
  | cons y rest => exact congrArg some (List.foldl_concat _ _ _ _)

namespace Split

/-- A position among the sorted points of a column. A split there has the points up to the position
below, and the others above. -/
structure Place where
  column : Nat
  position : Nat
  deriving DecidableEq

/-- Columns come in ascending order, and the places of a column by their positions. -/
def Place.Before (x y : Place) : Prop :=
  x.column < y.column ∨ x.column = y.column ∧ x.position < y.position

theorem Place.Before.asymm {x y : Place} (h : x.Before y) : ¬ y.Before x := by
  unfold Place.Before at *
  omega

theorem Place.eq_of_not_before {x y : Place} (h : ¬ x.Before y) (h' : ¬ y.Before x) : x = y := by
  obtain ⟨column, position⟩ := x
  obtain ⟨column', position'⟩ := y
  unfold Place.Before at h h'
  dsimp only at h h'
  obtain ⟨rfl, rfl⟩ : column = column' ∧ position = position' := by omega
  rfl

/-- The sum of the residuals of the points up to a position, from left to right. -/
def sumUpTo (points : List (Float × Float)) (position : Nat) : Float :=
  ((points.take (position + 1)).map (·.2)).foldl (· + ·) 0.0

/-- What the split of a node is searched for with: its samples, and their residual sum. -/
structure Search where
  settings : Settings
  samples : List Sample
  total : Float

namespace Search

/-- The scan of a column. -/
def scan (s : Search) (column : Nat) : Scan :=
  ⟨s.settings, column, s.samples.length, s.total⟩

/-- The split at a place, if it can be made: the values on both sides differ, and both sides have
enough rows. -/
def place? (s : Search) (x : Place) : Option Candidate :=
  let points := points x.column s.samples
  match points.drop x.position with
  | p :: q :: _ =>
    if (p.1 == q.1) = false ∧ s.settings.minLeafRows ≤ x.position + 1 ∧
        s.settings.minLeafRows ≤ s.samples.length - (x.position + 1) then
      some ⟨x.column, thresholdBetween p.1 q.1,
        (s.scan x.column).gain (sumUpTo points x.position) (x.position + 1)⟩
    else none
  | _ => none

/-- The split at a place can be made and is worth making. -/
def Admissible (s : Search) (x : Place) (c : Candidate) : Prop :=
  s.place? x = some c ∧ minGain < c.gain

/-- The result of searching some places: nothing when none of them is admissible, and otherwise the
split of the greatest gain, and of several the first. -/
def Best (s : Search) (S : Place → Prop) : Option Candidate → Prop
  | none => ∀ y, S y → ∀ d, ¬ s.Admissible y d
  | some c => ∃ x, S x ∧ s.Admissible x c ∧ ∀ y, S y → ∀ d, s.Admissible y d →
      d.gain < c.gain ∨ (d.gain == c.gain) = true ∧ ¬ y.Before x

/-- The gains of some places are defined. -/
def Defined (s : Search) (S : Place → Prop) : Prop :=
  ∀ x, S x → ∀ c ∈ s.place? x, c.gain.isNaN = false

variable {s : Search} {S T : Place → Prop}

theorem column_of_place? {x : Place} {c : Candidate} (h : s.place? x = some c) :
    c.column = x.column := by
  unfold place? at h
  dsimp only at h
  split at h
  · split at h
    · cases h
      rfl
    · cases h
  · cases h

/-- The last position of a column is none to split at, nor is one past it. -/
theorem place?_eq_none {x : Place} (h : s.samples.length ≤ x.position + 1) : s.place? x = none := by
  have hl : ((points x.column s.samples).drop x.position).length ≤ 1 := by
    rw [List.length_drop, points, List.length_mergeSort, List.length_map]
    omega
  unfold place?
  dsimp only
  split
  · rename_i heq
    rw [heq] at hl
    simp at hl
  · rfl

theorem Defined.mono (h : s.Defined T) (hST : ∀ x, S x → T x) : s.Defined S :=
  fun x hx => h x (hST x hx)

theorem Defined.gain (h : s.Defined S) {x : Place} {c : Candidate} (hx : S x)
    (hc : s.Admissible x c) : c.gain.isNaN = false :=
  h x hx c hc.1

theorem Best.congr {o : Option Candidate} (h : s.Best S o) (hST : ∀ x, S x ↔ T x) : s.Best T o := by
  rwa [show T = S from funext fun x => propext (hST x).symm]

/-! ## Combining results -/

/-- The splits at some places gain less than a given one, or as much and are not before it. -/
def Leads (s : Search) (S : Place → Prop) (x : Place) (c : Candidate) : Prop :=
  ∀ y, S y → ∀ d, s.Admissible y d →
    d.gain < c.gain ∨ (d.gain == c.gain) = true ∧ ¬ y.Before x

section

variable {x x' : Place} {c c' : Candidate}

/-- A greater gain leads the places that a smaller one led, wherever it is. -/
theorem Leads.of_lt (h : s.Leads S x c) (hS : s.Defined S) (hc : c.gain.isNaN = false)
    (hc' : c'.gain.isNaN = false) (hlt : c.gain < c'.gain) : s.Leads S x' c' := by
  intro y hy d hd
  have hyd := hS.gain hy hd
  have hle := h y hy d hd
  rw [lt_iff_extended hyd hc, beq_iff_extended hyd hc] at hle
  rw [lt_iff_extended hc hc'] at hlt
  left
  rw [lt_iff_extended hyd hc']
  rcases hle with hle | ⟨hle, -⟩
  · exact hle.trans hlt
  · rwa [hle]

/-- A gain that is not smaller leads them from a place before all of them. -/
theorem Leads.of_not_lt (h : s.Leads S x' c') (hS : s.Defined S) (hc : c.gain.isNaN = false)
    (hc' : c'.gain.isNaN = false) (hlt : ¬ c.gain < c'.gain) (hb : ∀ y, S y → x.Before y) :
    s.Leads S x c := by
  intro y hy d hd
  have hyd := hS.gain hy hd
  have hle := h y hy d hd
  rw [lt_iff_extended hyd hc', beq_iff_extended hyd hc'] at hle
  rw [lt_iff_extended hc hc', not_lt] at hlt
  rw [lt_iff_extended hyd hc, beq_iff_extended hyd hc]
  rcases (hle.elim le_of_lt fun h => h.1.le).trans hlt |>.lt_or_eq with h1 | h1
  · exact .inl h1
  · exact .inr ⟨h1, (hb y hy).asymm⟩

end

/-- **The results of some places, and of places that all come after them, make the result of both.** -/
theorem Best.merge {o o' : Option Candidate} (h : s.Best S o) (h' : s.Best T o')
    (hb : ∀ x y, S x → T y → x.Before y) (hS : s.Defined S) (hT : s.Defined T) :
    s.Best (fun x => S x ∨ T x) (Candidate.merge o o') := by
  cases o with
  | none =>
    cases o' with
    | none => exact fun y hy d hd => hy.elim (fun hy => h y hy d hd) fun hy => h' y hy d hd
    | some c =>
      obtain ⟨x, hx, hc, hmax⟩ := h'
      exact ⟨x, .inr hx, hc, fun y hy d hd =>
        hy.elim (fun hy => absurd hd (h y hy d)) fun hy => hmax y hy d hd⟩
  | some c =>
    obtain ⟨x, hx, hc, hmax⟩ := h
    cases o' with
    | none =>
      exact ⟨x, .inl hx, hc, fun y hy d hd =>
        hy.elim (fun hy => hmax y hy d hd) fun hy => absurd hd (h' y hy d)⟩
    | some c' =>
      obtain ⟨x', hx', hc', hmax'⟩ := h'
      have hxc := hS.gain hx hc
      have hxc' := hT.gain hx' hc'
      -- The columns of the later places are no lower, so an equal gain does not replace the first.
      have hcolumn : ¬ c'.column < c.column := by
        rw [column_of_place? hc.1, column_of_place? hc'.1]
        have := hb x x' hx hx'
        unfold Place.Before at this
        omega
      show s.Best _ (some (c.better c'))
      unfold Candidate.better
      by_cases hlt : c.gain < c'.gain
      · rw [if_pos (.inl hlt)]
        have hleads : s.Leads S x' c' := Leads.of_lt hmax hS hxc hxc' hlt
        exact ⟨x', .inr hx', hc', fun y hy => hy.elim (hleads y) (hmax' y)⟩
      · rw [if_neg (by rintro (h1 | ⟨-, h1⟩); exacts [hlt h1, hcolumn h1])]
        have hleads : s.Leads T x c := Leads.of_not_lt hmax' hT hxc hxc' hlt fun y => hb x y hx
        exact ⟨x, .inl hx, hc, fun y hy => hy.elim (hmax y) (hleads y)⟩

/-- **There is only one result.** -/
theorem Best.unique {o o' : Option Candidate} (h : s.Best S o) (h' : s.Best S o')
    (hS : s.Defined S) : o = o' := by
  cases o with
  | none =>
    cases o' with
    | none => rfl
    | some c =>
      obtain ⟨x, hx, hc, -⟩ := h'
      exact absurd hc (h x hx c)
  | some c =>
    obtain ⟨x, hx, hc, hmax⟩ := h
    cases o' with
    | none => exact absurd hc (h' x hx c)
    | some c' =>
      obtain ⟨x', hx', hc', hmax'⟩ := h'
      have hxc := hS.gain hx hc
      have hxc' := hS.gain hx' hc'
      have h1 := hmax x' hx' c' hc'
      have h2 := hmax' x hx c hc
      rw [lt_iff_extended hxc' hxc, beq_iff_extended hxc' hxc] at h1
      rw [lt_iff_extended hxc hxc', beq_iff_extended hxc hxc'] at h2
      have hsame : ¬ x'.Before x ∧ ¬ x.Before x' := by
        rcases h1 with h1 | ⟨h1, hb⟩
        · exact (h2.elim (fun h2 => h1.asymm h2) fun h2 => h1.ne h2.1.symm).elim
        · exact ⟨hb, h2.elim (fun h2 => absurd h1.symm h2.ne) fun h2 => h2.2⟩
      obtain rfl := Place.eq_of_not_before hsame.1 hsame.2
      exact hc.1.symm.trans hc'.1

/-! ## Scanning a column -/

/-- The split at a place, if it is worth making. -/
def worthwhile? (s : Search) (x : Place) : Option Candidate :=
  (s.place? x).filter fun c => decide (minGain < c.gain)

theorem worthwhile?_eq_some {x : Place} {c : Candidate} :
    s.worthwhile? x = some c ↔ s.Admissible x c := by
  unfold worthwhile? Admissible
  rw [Option.filter_eq_some_iff, decide_eq_true_iff]

theorem best_worthwhile? (x : Place) (hd : s.Defined (· = x)) :
    s.Best (· = x) (s.worthwhile? x) := by
  cases hw : s.worthwhile? x with
  | none =>
    rintro y rfl d hd
    rw [worthwhile?_eq_some.2 hd] at hw
    cases hw
  | some c =>
    have hc := worthwhile?_eq_some.1 hw
    refine ⟨x, rfl, hc, ?_⟩
    rintro y rfl d hyd
    obtain rfl : d = c := Option.some_inj.1 (hyd.1.symm.trans hc.1)
    have hdd := hd.gain rfl hyd
    exact .inr ⟨(beq_iff_extended hdd hdd).2 rfl, fun h => h.asymm h⟩

/-- A gain replaces the best one so far when it is worth anything and greater. -/
theorem improves_iff {best : Option Candidate} {gain : Float} (hg : gain.isNaN = false)
    (hb : ∀ c ∈ best, c.gain.isNaN = false) :
    Scan.improves best gain = true ↔ minGain < gain ∧ ∀ c ∈ best, c.gain < gain := by
  have hle {x : Float} (hx : x.isNaN = false) : ¬ gain ≤ x ↔ x < gain := by
    rw [le_iff_extended hg hx, lt_iff_extended hx hg, not_le]
  have hmin : minGain.isNaN = false := by decide
  unfold Scan.improves
  rw [← hle hmin]
  split
  · rename_i h
    exact ⟨fun h' => (Bool.false_ne_true h').elim, fun h' => absurd h h'.1⟩
  · rename_i h
    cases best with
    | none => exact ⟨fun _ => ⟨h, fun c hc => nomatch hc⟩, fun _ => rfl⟩
    | some c =>
      dsimp only
      rw [Bool.not_eq_true', decide_eq_false_iff_not, hle (hb c rfl)]
      refine ⟨fun h' => ⟨h, fun d hd => ?_⟩, fun h' => h'.2 c rfl⟩
      rwa [← Option.mem_some.1 hd]

/-- In one column only a greater gain replaces the best one so far. -/
theorem merge_eq_ite {best : Option Candidate} {c : Candidate}
    (hb : ∀ b ∈ best, b.column = c.column) :
    Candidate.merge best (some c) = if ∀ b ∈ best, b.gain < c.gain then some c else best := by
  cases best with
  | none => rw [if_pos (fun b hb => nomatch hb)]; rfl
  | some b =>
    have hcolumn := hb b rfl
    show some (if _ then c else b) = _
    by_cases hlt : b.gain < c.gain
    · rw [if_pos (.inl hlt), if_pos]
      intro b' hb'
      rwa [← Option.mem_some.1 hb']
    · rw [if_neg (by rintro (h1 | ⟨-, h1⟩); exacts [hlt h1, absurd h1 (by omega)]), if_neg]
      exact fun h => hlt (h b rfl)

theorem sumUpTo_length (before after : List (Float × Float)) (p : Float × Float) :
    sumUpTo (before ++ p :: after) before.length =
      (before.map (·.2)).foldl (· + ·) 0.0 + p.2 := by
  unfold sumUpTo
  rw [List.take_length_add_append, List.take_succ_cons, List.take_zero, List.map_append]
  exact List.foldl_concat _ _ _ _

/-- The split at a place, in terms of the points on its sides. -/
theorem place?_eq_ite {column : Nat} {before after : List (Float × Float)} {p q : Float × Float}
    (he : points column s.samples = before ++ p :: q :: after) :
    s.place? ⟨column, before.length⟩ =
      if (p.1 == q.1) = false ∧ s.settings.minLeafRows ≤ before.length + 1 ∧
        s.settings.minLeafRows ≤ s.samples.length - (before.length + 1) then
      some ⟨column, thresholdBetween p.1 q.1, (s.scan column).gain
        ((before.map (·.2)).foldl (· + ·) 0.0 + p.2) (before.length + 1)⟩
      else none := by
  unfold place?
  dsimp only
  rw [he, sumUpTo_length, List.drop_left]

/-- **A place is considered by combining its split with the best so far.** -/
theorem consider_eq_merge {column : Nat} {before after : List (Float × Float)}
    {p q : Float × Float} {best : Option Candidate}
    (he : points column s.samples = before ++ p :: q :: after)
    (hbest : ∀ c ∈ best, c.column = column ∧ c.gain.isNaN = false)
    (hd : s.Defined (· = ⟨column, before.length⟩)) :
    (s.scan column).consider best ((before.map (·.2)).foldl (· + ·) 0.0 + p.2) (before.length + 1)
      p.1 q.1 = Candidate.merge best (s.worthwhile? ⟨column, before.length⟩) := by
  have hnone : Candidate.merge best none = best := by
    cases best <;> rfl
  have hplace := place?_eq_ite he
  unfold Scan.consider
  split
  · rename_i heq
    rw [worthwhile?, hplace, if_neg (by simp [heq])]
    exact hnone.symm
  · rename_i hne
    split
    · rename_i hfew
      rw [worthwhile?, hplace, if_neg (by rintro ⟨-, h1, h2⟩; exact hfew.elim h1.not_gt h2.not_gt)]
      exact hnone.symm
    · rename_i hfew
      rw [not_or, Nat.not_lt, Nat.not_lt] at hfew
      rw [if_pos ⟨by simpa using hne, hfew⟩] at hplace
      have hgain := hd _ rfl _ hplace
      dsimp only at hgain ⊢
      have himproves := improves_iff hgain fun c hc => (hbest c hc).2
      rw [worthwhile?, hplace, Option.filter_some]
      by_cases hmin : minGain < (s.scan column).gain
          ((before.map (·.2)).foldl (· + ·) 0.0 + p.2) (before.length + 1)
      · rw [if_pos (decide_eq_true hmin), merge_eq_ite fun b hb => (hbest b hb).1]
        refine if_congr ?_ rfl rfl
        rw [himproves]
        exact and_iff_right hmin
      · rw [if_neg fun h => hmin (himproves.1 h).1, if_neg (by simpa using hmin)]
        exact hnone.symm

theorem Best.defined {o : Option Candidate} (h : s.Best S o) (hS : s.Defined S) :
    ∀ c ∈ o, ∃ x, S x ∧ c.column = x.column ∧ c.gain.isNaN = false := by
  rintro c rfl
  obtain ⟨x, hx, hc, -⟩ := h
  exact ⟨x, hx, column_of_place? hc.1, hS.gain hx hc⟩

/-- Places at which no split can be made do not count. -/
theorem Best.extend {o : Option Candidate} (h : s.Best S o) (hST : ∀ x, S x → T x)
    (hn : ∀ x, T x → ¬ S x → s.place? x = none) : s.Best T o := by
  have hS (y : Place) (hy : T y) (d : Candidate) (hd : s.Admissible y d) : S y := by
    by_contra hc
    have := hn y hy hc
    rw [hd.1] at this
    cases this
  cases o with
  | none => exact fun y hy d hd => h y (hS y hy d hd) d hd
  | some c =>
    obtain ⟨x, hx, hc, hmax⟩ := h
    exact ⟨x, hST x hx, hc, fun y hy d hd => hmax y (hS y hy d hd) d hd⟩

/-- The places before the last point of a column are all that count. -/
theorem Best.column {column n : Nat} {o : Option Candidate}
    (h : s.Best (fun x => x.column = column ∧ x.position < n) o) (hn : s.samples.length ≤ n + 1) :
    s.Best (fun x => x.column = column) o := by
  refine h.extend (fun x hx => hx.1) fun x hx hc => place?_eq_none ?_
  have : ¬ x.position < n := fun hp => hc ⟨hx, hp⟩
  omega

/-- **A scan that begins with the best of the places before its points ends with the best of its
column.** -/
theorem best_run {column : Nat} (before : List (Float × Float)) {rest : List (Float × Float)}
    {best : Option Candidate} (he : points column s.samples = before ++ rest)
    (hd : s.Defined fun x => x.column = column)
    (hb : s.Best (fun x => x.column = column ∧ x.position < before.length) best) :
    s.Best (fun x => x.column = column)
      ((s.scan column).run best ((before.map (·.2)).foldl (· + ·) 0.0) before.length rest) := by
  have hlength : s.samples.length = before.length + rest.length := by
    rw [← List.length_append, ← he, points, List.length_mergeSort, List.length_map]
  induction rest generalizing before best with
  | nil => exact hb.column (Nat.le_succ_of_le hlength.le)
  | cons p rest ih =>
    cases rest with
    | nil => exact hb.column hlength.le
    | cons q rest =>
      have hone : s.Defined (· = ⟨column, before.length⟩) := hd.mono fun x hx => by rw [hx]
      have hbest (c : Candidate) (hc : c ∈ best) : c.column = column ∧ c.gain.isNaN = false := by
        obtain ⟨x, hx, hcx, hg⟩ := hb.defined (hd.mono fun x hx => hx.1) c hc
        exact ⟨hcx.trans hx.1, hg⟩
      have hnext : s.Best (fun x => x.column = column ∧ x.position < before.length + 1)
          (Candidate.merge best (s.worthwhile? ⟨column, before.length⟩)) := by
        refine (hb.merge (best_worthwhile? _ hone) ?_ (hd.mono fun x hx => hx.1) hone).congr ?_
        · rintro x y ⟨hx, hp⟩ rfl
          exact .inr ⟨hx, hp⟩
        · rintro ⟨c, i⟩
          simp only [Place.mk.injEq]
          omega
      unfold Scan.run
      dsimp only
      rw [consider_eq_merge he hbest hone]
      have hrun := ih (before ++ [p]) (by rw [he, List.append_assoc]; rfl)
        (by rwa [List.length_append])
        (by simp only [List.length_append, List.length_cons, List.length_nil] at hlength ⊢; omega)
      rwa [List.map_append, List.foldl_append, List.length_append] at hrun

/-- **The search of a column finds the best of its places.** -/
theorem best_onColumn? {column : Nat} (hd : s.Defined fun x => x.column = column) :
    s.Best (fun x => x.column = column) (onColumn? s.settings s.samples s.total column) :=
  best_run [] rfl hd fun _ hy => absurd hy.2 (Nat.not_lt_zero _)

end Search

/-! ## Combining columns -/

/-- A grouping of columns: the results of neighbouring groups are combined, and the columns of a group
are searched in order. -/
inductive Grouping where
  | empty
  | single (column : Nat)
  | join (lower upper : Grouping)

namespace Grouping

/-- The columns of a grouping, in order. -/
def columns : Grouping → List Nat
  | empty => []
  | single column => [column]
  | join lower upper => lower.columns ++ upper.columns

/-- The result for the columns of a grouping, combined as it says. -/
def reduce (search : Nat → Option Candidate) : Grouping → Option Candidate
  | empty => none
  | single column => search column
  | join lower upper => Candidate.merge (lower.reduce search) (upper.reduce search)

end Grouping

namespace Search

variable {s : Search}

/-- **Columns in ascending order may be combined in any grouping.** -/
theorem best_reduce {g : Grouping} (hg : g.columns.Pairwise (· < ·))
    (hd : s.Defined fun x => x.column ∈ g.columns) :
    s.Best (fun x => x.column ∈ g.columns)
      (g.reduce (onColumn? s.settings s.samples s.total)) := by
  induction g with
  | empty => exact fun y hy => absurd hy List.not_mem_nil
  | single column =>
    have hone : ∀ x : Place, x.column = column ↔ x.column ∈ [column] := fun x => by simp
    exact (best_onColumn? (hd.mono fun x hx => (hone x).1 hx)).congr hone
  | join lower upper ihl ihu =>
    obtain ⟨hl, hu, hlu⟩ := List.pairwise_append.1 hg
    have hdl : s.Defined fun x => x.column ∈ lower.columns :=
      hd.mono fun x hx => List.mem_append_left _ hx
    have hdu : s.Defined fun x => x.column ∈ upper.columns :=
      hd.mono fun x hx => List.mem_append_right _ hx
    refine ((ihl hl hdl).merge (ihu hu hdu) ?_ hdl hdu).congr fun x => List.mem_append.symm
    exact fun x y hx hy => .inl (hlu _ hx _ hy)

/-- One column after the other is a grouping. -/
theorem find?_eq_reduce (s : Search) (columns : List Nat) :
    ∃ g : Grouping, g.columns = columns ∧
      find? s.settings columns s.samples s.total =
        g.reduce (onColumn? s.settings s.samples s.total) := by
  induction columns using List.reverseRecOn with
  | nil => exact ⟨.empty, rfl, rfl⟩
  | append_singleton columns column ih =>
    obtain ⟨g, rfl, hg⟩ := ih
    refine ⟨.join g (.single column), rfl, ?_⟩
    show find? s.settings (g.columns ++ [column]) s.samples s.total = Candidate.merge _ _
    rw [← hg]
    unfold find?
    rw [List.filterMap_append]
    show _ = Candidate.merge _ (onColumn? s.settings s.samples s.total column)
    cases hc : onColumn? s.settings s.samples s.total column with
    | none =>
      rw [List.filterMap_cons_none hc, List.filterMap_nil, List.append_nil]
      cases Candidate.best? _ <;> rfl
    | some c =>
      rw [List.filterMap_cons_some hc, List.filterMap_nil]
      exact Candidate.best?_concat _ _

theorem best_find? {columns : List Nat} (hc : columns.Pairwise (· < ·))
    (hd : s.Defined fun x => x.column ∈ columns) :
    s.Best (fun x => x.column ∈ columns) (find? s.settings columns s.samples s.total) := by
  obtain ⟨g, rfl, hg⟩ := s.find?_eq_reduce columns
  rw [hg]
  exact best_reduce hc hd

/-- The gains of some columns are defined when those before the last point of each are. -/
theorem defined_of_lt {columns : List Nat}
    (h : ∀ column ∈ columns, ∀ position < s.samples.length, ∀ c ∈ s.place? ⟨column, position⟩,
      c.gain.isNaN = false) : s.Defined fun x => x.column ∈ columns := by
  rintro ⟨column, position⟩ hx c hc
  refine h column hx position ?_ c hc
  by_contra hn
  rw [place?_eq_none (by dsimp only; omega)] at hc
  cases hc

/-- **A search finds the first split of the greatest gain**, whatever the grouping in which its columns
are combined: nothing exactly when no place of the columns is admissible, and otherwise the split of an
admissible place such that every other one gains less, or as much and does not come before. -/
theorem finds_first_of_greatest_gain (s : Search) {columns : List Nat}
    (hc : columns.Pairwise (· < ·))
    (hd : ∀ column ∈ columns, ∀ position < s.samples.length, ∀ c ∈ s.place? ⟨column, position⟩,
      c.gain.isNaN = false) :
    (∀ g : Grouping, g.columns = columns → g.reduce (onColumn? s.settings s.samples s.total) =
      find? s.settings columns s.samples s.total) ∧
    (find? s.settings columns s.samples s.total = none ↔
      ∀ x : Place, x.column ∈ columns → ∀ c, ¬ s.Admissible x c) ∧
    ∀ c, find? s.settings columns s.samples s.total = some c ↔
      ∃ x : Place, x.column ∈ columns ∧ s.Admissible x c ∧
        ∀ y : Place, y.column ∈ columns → ∀ d, s.Admissible y d →
          d.gain < c.gain ∨ (d.gain == c.gain) = true ∧ ¬ y.Before x := by
  have hdefined := defined_of_lt hd
  have hbest := best_find? hc hdefined
  have hiff (o : Option Candidate) : find? s.settings columns s.samples s.total = o ↔
      s.Best (fun x => x.column ∈ columns) o :=
    ⟨fun h => h ▸ hbest, fun h => hbest.unique h hdefined⟩
  refine ⟨?_, hiff none, fun c => hiff (some c)⟩
  rintro g rfl
  exact ((hiff _).2 (best_reduce hc hdefined)).symm

/-- Four samples whose second column holds the values of the first, ten times as large. -/
def scaled : Search where
  settings := {}
  samples := [⟨#[1.0, 10.0], -1.0⟩, ⟨#[2.0, 20.0], -1.0⟩, ⟨#[3.0, 30.0], 1.0⟩, ⟨#[4.0, 40.0], 1.0⟩]
  total := 0.0

theorem points_scaled :
    points 0 scaled.samples = [(1.0, -1.0), (2.0, -1.0), (3.0, 1.0), (4.0, 1.0)] ∧
      points 1 scaled.samples = [(10.0, -1.0), (20.0, -1.0), (30.0, 1.0), (40.0, 1.0)] :=
  ⟨List.mergeSort_of_pairwise (by decide +kernel), List.mergeSort_of_pairwise (by decide +kernel)⟩

/-- Dividing in the middle gains the same on either column, and the lower one is taken. -/
theorem finds_first_of_greatest_gain_of_scaled :
    ∃ c d, scaled.Admissible ⟨0, 1⟩ c ∧ scaled.Admissible ⟨1, 1⟩ d ∧ (c.gain == d.gain) = true ∧
      ∀ g : Grouping, g.columns = [0, 1] →
        g.reduce (onColumn? scaled.settings scaled.samples scaled.total) = some c := by
  obtain ⟨hp0, hp1⟩ := points_scaled
  have hfirst : scaled.place? ⟨0, 1⟩ = some ⟨0, 2.5, 8.0 / 3.0⟩ := by
    unfold place?
    rw [hp0]
    decide +kernel
  have hsecond : scaled.place? ⟨1, 1⟩ = some ⟨1, 25.0, 8.0 / 3.0⟩ := by
    unfold place?
    rw [hp1]
    decide +kernel
  have hdefined : ∀ column ∈ [0, 1], ∀ position < scaled.samples.length,
      ∀ c ∈ scaled.place? ⟨column, position⟩, c.gain.isNaN = false := by
    unfold place?
    simp only [List.forall_mem_cons, hp0, hp1]
    decide +kernel
  obtain ⟨hgroup, -, -⟩ := finds_first_of_greatest_gain scaled (by decide) hdefined
  refine ⟨_, _, ⟨hfirst, by decide⟩, ⟨hsecond, by decide⟩, by decide, fun g hg => ?_⟩
  rw [hgroup g hg, find?, List.filterMap_cons, List.filterMap_cons, onColumn?, hp0, onColumn?, hp1]
  decide +kernel

end Search

end Split

end QueryForecast
