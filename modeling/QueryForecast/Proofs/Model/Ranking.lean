import QueryForecast.Proofs.Model.Resaved
import QueryForecast.Proofs.Numeric.Totals
import QueryForecast.Proofs.Serving.Total

/-!
# The ranking of features

The features of a model are ranked by their shares in its total gain. Every feature is ranked once, the
greatest share first, and equal ones stay in the order of the schema. The gains are read from the artifact
like any other numbers, so one of them may be negative, and then another may have more than the whole.

* `Ranks`, `ranks_rankImportance` — what a ranking is, and that a stable sort gives one.
* `share_mem_iff` — when a share is a fraction of the whole.
* `Ensemble.importances_mem_iff` — when all shares are.
* `Model.importance_of_parse` — the ranking of every model that was read from an artifact.
-/

namespace QueryForecast

open Numeric

/-! ## Rankings -/

/-- Names are ranked by their numbers: every name has its place with its own number, greater numbers come
first, and names with one and the same number stay in their order. -/
structure Ranks (names : List String) (numbers : List Float) (ranked : List (String × Float)) :
    Prop where
  pairs : ranked.Perm (names.zip numbers)
  once : (ranked.map (·.1)).Perm names
  descending : ranked.Pairwise fun x y => y.2 ≤ x.2
  stable : ∀ x y, [x, y].Sublist (names.zip numbers) → x.2 = y.2 → [x, y].Sublist ranked

section

variable {names : List String} {numbers : List Float}

theorem rankImportance_perm (names : List String) (numbers : List Float) :
    (rankImportance names numbers).Perm (names.zip numbers) :=
  List.mergeSort_perm _ _

theorem ranked_total (x y : String × Float) : (precedes y.2 x.2 || precedes x.2 y.2) = true :=
  precedes_total y.2 x.2

theorem ranked_trans (x y z : String × Float) (hxy : precedes y.2 x.2 = true)
    (hyz : precedes z.2 y.2 = true) : precedes z.2 x.2 = true :=
  precedes_trans z.2 y.2 x.2 hyz hxy

theorem rankImportance_pairwise (names : List String) (numbers : List Float) :
    (rankImportance names numbers).Pairwise fun x y => precedes y.2 x.2 = true :=
  List.pairwise_mergeSort ranked_trans ranked_total _

/-- **A stable sort by places ranks defined numbers.** -/
theorem ranks_rankImportance (hl : names.length = numbers.length)
    (hd : ∀ x ∈ numbers, x.isNaN = false) : Ranks names numbers (rankImportance names numbers) := by
  have hp := rankImportance_perm names numbers
  have hdefined (x : String × Float) (hx : x ∈ rankImportance names numbers) : x.2.isNaN = false :=
    hd x.2 (List.of_mem_zip (hp.mem_iff.1 hx)).2
  refine ⟨hp, ?_, ?_, fun x y hxy he => ?_⟩
  · have hnames := hp.map Prod.fst
    rwa [List.map_fst_zip hl.le] at hnames
  · exact (rankImportance_pairwise names numbers).imp_of_mem fun {x y} hx hy hxy =>
      le_of_precedes (hdefined y hy) (hdefined x hx) hxy
  · have hle : precedes y.2 x.2 = true := by
      rw [he]
      exact (Bool.or_self _).symm.trans (precedes_total y.2 y.2)
    exact List.pair_sublist_mergeSort ranked_trans ranked_total hle hxy

/-- Numbers with places of their own are ranked in one way. -/
theorem rankImportance_eq {ranked : List (String × Float)} (hp : ranked.Perm (names.zip numbers))
    (hs : ranked.Pairwise fun x y => precedes x.2 y.2 = false) :
    rankImportance names numbers = ranked := by
  have hperm := (rankImportance_perm names numbers).trans hp.symm
  have hapart : ranked.Pairwise fun x y => ¬ (precedes x.2 y.2 = true ∧ precedes y.2 x.2 = true) :=
    hs.imp fun {x y} hxy hboth => by
      rw [hxy] at hboth
      exact Bool.false_ne_true hboth.1
  refine hperm.eq_of_pairwise (fun x y hx hy hxy hyx => ?_) (rankImportance_pairwise names numbers)
    (hs.imp fun {x y} hxy => ?_)
  · by_contra hne
    have : Std.Symm fun x y : String × Float =>
        ¬ (precedes x.2 y.2 = true ∧ precedes y.2 x.2 = true) := ⟨fun _ _ h => h ∘ And.symm⟩
    exact hapart.forall (hperm.mem_iff.1 hx) hy hne ⟨hyx, hxy⟩
  · have htotal := ranked_total x y
    rwa [hxy, Bool.or_false] at htotal

end

/-! ## Shares -/

/-- **A share of a positive total is a fraction of the whole** exactly when its part is no greater than the
total, and not negative, or else so small that the share is rounded to zero. -/
theorem share_mem_iff {part total : Float} (hp : part.isFinite) (ht : 0.0 < total) :
    (0.0 ≤ part / total ∧ part / total ≤ 1.0) ↔
      part ≤ total ∧ (0.0 ≤ part ∨ (part / total == 0.0) = true) := by
  have hzero := val_zero
  rcases finite_or_infinite_of_zero_le (le_of_float_lt ht) with ⟨hf, -⟩ | hi
  · rw [lt_iff_val_lt hzero.1 hf, hzero.2] at ht
    have hn := nearest_div hp hf ht.ne'
    rw [div_le_one_iff hp hf ht, and_comm]
    refine and_congr_right fun _ => ?_
    have hz := isNaN_of_isFinite hzero.1
    by_cases h0 : 0 ≤ val part
    · refine iff_of_true (hn.ge_of_ge hzero.1 ?_) (.inl ?_)
      · rw [hzero.2]
        exact div_nonneg h0 ht.le
      · rwa [le_iff_val_le hzero.1 hp, hzero.2]
    · have hle : part / total ≤ 0.0 := by
        refine hn.le_of_le hzero.1 ?_
        rw [hzero.2]
        exact div_nonpos_of_nonpos_of_nonneg (not_le.1 h0).le ht.le
      rw [le_iff_extended hn.isNaN hz] at hle
      rw [le_iff_val_le hzero.1 hp, hzero.2, le_iff_extended hz hn.isNaN, beq_iff_extended hn.isNaN hz]
      exact ⟨fun hge => .inr (le_antisymm hle hge), fun h => (h.resolve_left h0).ge⟩
  · obtain ⟨hf, hv⟩ := isFinite_div_infinity hp hi
    refine iff_of_true ⟨?_, ?_⟩ ⟨le_of_infinite (isNaN_of_isFinite hp) hi, .inr ?_⟩
    · rw [le_iff_val_le hzero.1 hf, hzero.2, hv]
    · rw [le_iff_val_le hf near_one.finite, near_one.val_eq, hv]
      exact zero_le_one
    · rw [beq_iff_val_eq hf hzero.1, hv, hzero.2]

namespace Ensemble

variable {e : Ensemble}

/-- A total that is not up to zero is above it. -/
theorem total_cases (h : ∀ g ∈ e.columnGain, g.isFinite = true) :
    sum e.columnGain ≤ 0.0 ∨ ¬ sum e.columnGain ≤ 0.0 ∧ 0.0 < sum e.columnGain := by
  have hz := isNaN_of_isFinite val_zero.1
  by_cases hle : sum e.columnGain ≤ 0.0
  · exact .inl hle
  · refine .inr ⟨hle, ?_⟩
    rw [le_iff_extended (isNaN_sum h) hz, not_le] at hle
    exact (lt_iff_extended hz (isNaN_sum h)).2 hle

/-- **All shares are fractions of the whole** exactly when nothing was gained, or no gain is above the
total, and a negative one only when its share is rounded to zero. -/
theorem importances_mem_iff (h : ∀ g ∈ e.columnGain, g.isFinite = true) :
    (∀ x ∈ e.importances, 0.0 ≤ x ∧ x ≤ 1.0) ↔
      sum e.columnGain ≤ 0.0 ∨ ∀ g ∈ e.columnGain, g ≤ sum e.columnGain ∧
        (0.0 ≤ g ∨ (g / sum e.columnGain == 0.0) = true) := by
  unfold importances
  dsimp only
  rcases total_cases h with hle | ⟨hle, hpos⟩
  · rw [if_pos hle]
    refine iff_of_true (fun x hx => ?_) (.inl hle)
    rw [List.eq_of_mem_replicate hx]
    decide
  · rw [if_neg hle, List.forall_mem_map]
    constructor
    · exact fun hall => .inr fun g hg => (share_mem_iff (h g hg) hpos).1 (hall g hg)
    · exact fun hall g hg => (share_mem_iff (h g hg) hpos).2 (hall.resolve_left hle g hg)

/-- When no gain is negative, all shares are fractions of the whole. -/
theorem importances_mem_of_zero_le (h : ∀ g ∈ e.columnGain, g.isFinite = true)
    (h0 : ∀ g ∈ e.columnGain, 0.0 ≤ g) : ∀ x ∈ e.importances, 0.0 ≤ x ∧ x ≤ 1.0 := by
  obtain ⟨-, hle⟩ := zero_le_sum (fun g hg _ => h0 g hg) (isNaN_sum h)
  exact (importances_mem_iff h).2 (.inr fun g hg => ⟨hle g hg, .inl (h0 g hg)⟩)

/-- Shares are defined. -/
theorem isNaN_importances (h : ∀ g ∈ e.columnGain, g.isFinite = true) :
    ∀ x ∈ e.importances, x.isNaN = false := by
  unfold importances
  dsimp only
  rcases total_cases h with hle | ⟨hle, hpos⟩
  · rw [if_pos hle]
    intro x hx
    rw [List.eq_of_mem_replicate hx]
    decide
  · rw [if_neg hle, List.forall_mem_map]
    intro g hg
    rcases finite_or_infinite_of_zero_le (le_of_float_lt hpos) with ⟨hf, -⟩ | hi
    · rw [lt_iff_val_lt val_zero.1 hf, val_zero.2] at hpos
      exact (nearest_div (h g hg) hf hpos.ne').isNaN
    · exact isNaN_of_isFinite (isFinite_div_infinity (h g hg) hi).1

theorem length_importances (h : e.WellFormed) : e.importances.length = e.width := by
  unfold importances
  dsimp only
  split
  · exact List.length_replicate
  · rw [List.length_map, h.columnGain]

end Ensemble

/-! ## Models that were read -/

namespace Model

variable {text : String} {m : Model}

/-- **The ranking of the features of a model that was read from an artifact**: it lists every feature of
the schema once with its share, the greatest first, and features with one and the same share in the order
of the schema. All shares are within `[0, 1]` exactly when nothing was gained, or no gain is above the
total, and a negative one only when its share is rounded to zero; so they are when no gain is negative. -/
theorem importance_of_parse (h : parse text = .ok m) :
    ∃ schema ensemble ranked, m.schema = some schema ∧ m.ensemble = some ensemble ∧
      m.importance = .ok ranked ∧ schema.names.Nodup ∧
      Ranks schema.names ensemble.importances ranked ∧
      ((∀ x ∈ ranked, 0.0 ≤ x.2 ∧ x.2 ≤ 1.0) ↔
        sum ensemble.columnGain ≤ 0.0 ∨
          ∀ g ∈ ensemble.columnGain, g ≤ sum ensemble.columnGain ∧
            (0.0 ≤ g ∨ (g / sum ensemble.columnGain == 0.0) = true)) ∧
      ((∀ g ∈ ensemble.columnGain, 0.0 ≤ g) → ∀ x ∈ ranked, 0.0 ≤ x.2 ∧ x.2 ≤ 1.0) := by
  obtain ⟨schema, ensemble, hs⟩ := servable_of_parse h
  obtain ⟨-, -, hschema, hensemble, hwidth, hwf⟩ := id hs
  have hgain := ((storable_of_parse h).1.ensemble ensemble hensemble).columnGain
  have hlen : schema.names.length = ensemble.importances.length :=
    hwidth.symm.trans (Ensemble.length_importances hwf).symm
  have hranks := ranks_rankImportance hlen (Ensemble.isNaN_importances hgain)
  have hok : m.importance = .ok (rankImportance schema.names ensemble.importances) := by
    unfold importance
    rw [hs.fitted]
    rfl
  -- The ranked numbers are the shares.
  have hnumbers (P : Float → Prop) :
      (∀ x ∈ rankImportance schema.names ensemble.importances, P x.2) ↔
        ∀ x ∈ ensemble.importances, P x := by
    have hp := hranks.pairs.map Prod.snd
    rw [List.map_snd_zip hlen.ge] at hp
    rw [← List.forall_mem_map (f := Prod.snd) (P := P)]
    exact forall_congr' fun x => by rw [hp.mem_iff]
  refine ⟨schema, ensemble, _, hschema, hensemble, hok, schema.nodup, hranks, ?_, fun h0 => ?_⟩
  · rw [hnumbers fun x => 0.0 ≤ x ∧ x ≤ 1.0]
    exact Ensemble.importances_mem_iff hgain
  · rw [hnumbers fun x => 0.0 ≤ x ∧ x ≤ 1.0]
    exact Ensemble.importances_mem_of_zero_le hgain h0

/-- An artifact with four columns and given gains, and no trees. -/
def artifactWithGains (gains : String) : String :=
  "\x7b\"format_version\":1,\"target\":\"selectivity\",\"schema\":[\"a\",\"b\",\"c\",\"d\"]," ++
    "\"trained\":true,\"booster\":[0.5,4,[],[" ++ gains ++ "]]\x7d"

theorem exists_of_artifactWithGains {gains : String} {columnGain : List Float}
    (h : (parse (artifactWithGains gains)).toOption.map (fun m =>
        (m.schema.map (·.names), m.ensemble.map (·.columnGain))) =
      some (some ["a", "b", "c", "d"], some columnGain)) :
    ∃ m schema ensemble, parse (artifactWithGains gains) = .ok m ∧ m.Servable schema ensemble ∧
      schema.names = ["a", "b", "c", "d"] ∧ ensemble.columnGain = columnGain := by
  cases hm : parse (artifactWithGains gains) with
  | error fault =>
    rw [hm] at h
    cases h
  | ok m =>
    rw [hm] at h
    obtain ⟨schema, ensemble, hs⟩ := servable_of_parse hm
    obtain ⟨-, -, hschema, hensemble, -⟩ := id hs
    have h : (m.schema.map (·.names), m.ensemble.map (·.columnGain)) = _ := Option.some.inj h
    rw [hschema, hensemble, Option.map_some, Option.map_some, Prod.mk.injEq, Option.some.injEq,
      Option.some.injEq] at h
    exact ⟨m, schema, ensemble, rfl, hs, h⟩

theorem importance_of_parse_of_gains :
    ∃ m ranked, parse (artifactWithGains "1,6,1,0") = .ok m ∧ m.importance = .ok ranked ∧
      (ranked.map (·.1)).Perm ["a", "b", "c", "d"] ∧
      (ranked.Pairwise fun x y => y.2 ≤ x.2) ∧
      [("a", 0.125), ("c", 0.125)].Sublist ranked ∧ ∀ x ∈ ranked, 0.0 ≤ x.2 ∧ x.2 ≤ 1.0 := by
  obtain ⟨m, schema, ensemble, hm, ⟨-, -, hschema, hensemble, -⟩, hnames, hgain⟩ :=
    @exists_of_artifactWithGains "1,6,1,0" [1.0, 6.0, 1.0, 0.0] (by decide +kernel)
  obtain ⟨schema', ensemble', ranked, hs, he, hok, -, hr, -, h0⟩ := importance_of_parse hm
  cases hschema.symm.trans hs
  cases hensemble.symm.trans he
  have hshares : ensemble.importances = [0.125, 0.75, 0.125, 0.0] := by
    unfold Ensemble.importances
    rw [hgain, if_neg (by decide)]
    decide +kernel
  rw [hnames, hshares] at hr
  refine ⟨m, ranked, hm, hok, hr.once, hr.descending, hr.stable _ _ (by decide +kernel) rfl, h0 ?_⟩
  rw [hgain]
  decide

/-- A negative gain leaves more than the whole for another one, and has less than nothing itself. Of two
shares that are zero, the one without a sign comes first. -/
theorem importance_of_negative_gain :
    ∃ m, parse (artifactWithGains "3,-1,-0.0,0") = .ok m ∧
      m.schema.map (·.names) = some ["a", "b", "c", "d"] ∧
      m.importance = .ok [("a", 1.5), ("d", 0.0), ("c", -0.0), ("b", -0.5)] ∧
      ¬ (1.5 : Float) ≤ 1.0 ∧ ¬ (0.0 : Float) ≤ -0.5 ∧ ((0.0 : Float) == -0.0) = true := by
  obtain ⟨m, schema, ensemble, hm, hs, hnames, hgain⟩ :=
    @exists_of_artifactWithGains "3,-1,-0.0,0" [3.0, -1.0, -0.0, 0.0] (by decide +kernel)
  obtain ⟨-, -, hschema, -⟩ := id hs
  refine ⟨m, hm, by rw [hschema, Option.map_some, hnames], ?_, by decide, by decide, by decide⟩
  have hshares : ensemble.importances = [1.5, -0.5, -0.0, 0.0] := by
    unfold Ensemble.importances
    rw [hgain, if_neg (by decide)]
    decide +kernel
  unfold importance
  rw [hs.fitted]
  show Except.ok (rankImportance schema.names ensemble.importances) = _
  rw [hnames, hshares]
  exact congrArg _ (rankImportance_eq (by decide +kernel) (by decide +kernel))

end Model

end QueryForecast
