import QueryForecast.Log.Reading
import QueryForecast.Proofs.Feature.Measured
import QueryForecast.Proofs.Json.Parsed
import QueryForecast.Proofs.Json.Records

/-!
# Records that are read from text

A record that is read from a line has the line's properties: its numbers are finite, and its lists are
no longer than the line. So its features are finite, and no record of a log can end a training run.

* `asRecord_keeps` — what every field keeps, a record keeps that is read from a tame value.
* `Query.Readable` — what is known of a query that is read from text.
* `ExecutionRecord.readable_of_ofLine` — usable lines give readable queries.
* `Query.Readable.isMeasured`, `Query.Readable.addressable` — whose features are finite.
-/

namespace QueryForecast

open Json Numeric

variable {limit : Nat}

/-! ## Parts of records -/

theorem asRecord_keeps {α : Type} {form : RecordForm} {set : String → Json → α → Decoded α}
    {P : α → Prop} {start result : α} {v : Json}
    (hset : ∀ {name w r next}, Tame limit w → P r → set name w r = .ok next → P next)
    (hv : Tame limit v) (h0 : P start) (h : asRecord form set start v = .ok result) : P result := by
  have hparts : ∀ w ∈ v.parts, Tame limit w := by
    intro w hw
    cases hv with
    | obj he =>
      obtain ⟨e, hm, rfl⟩ := List.mem_map.1 hw
      exact he e hm
    | arr _ hi => exact hi w hw
    | _ => cases hw
  exact asRecord_keeps_of_parts (fun w hw => hset (hparts w hw)) h0 h

/-- A measured number is finite when it is read from text. -/
theorem isFinite_of_asMeasure {v : Json} {x : Float} (hv : Tame limit v)
    (h : asMeasure v = .ok x) : x.isFinite = true := by
  cases hv with
  | null =>
    cases h
    exact val_zero.1
  | num hn =>
    cases h
    exact hn
  | _ => cases h

theorem length_of_mapM {α β : Type} {decode : α → Decoded β} {xs : List α} {ys : List β}
    (h : xs.mapM decode = .ok ys) : ys.length = xs.length := by
  induction xs generalizing ys with
  | nil =>
    cases h
    rfl
  | cons x rest ih =>
    rw [List.mapM_cons] at h
    obtain ⟨y, -, h⟩ := exists_ok_of_bind h
    obtain ⟨tail, ht, h⟩ := exists_ok_of_bind h
    cases h
    rw [List.length_cons, List.length_cons, ih ht]

theorem length_of_asList {β : Type} {decode : Json → Decoded β} {v : Json} {ys : List β}
    (hv : Tame limit v) (h : asList decode v = .ok ys) : ys.length ≤ limit := by
  cases hv with
  | arr hl _ =>
    rw [length_of_mapM h]
    exact hl
  | _ => cases h

/-! ## Profiles -/

namespace FilterProfile

/-- What is measured after setting a field was there before or is what was read. -/
theorem mem_measures_of_set {name : String} {v : Json} {p q : FilterProfile} {x : Float}
    (h : set name v p = .ok q) (hx : x ∈ q.measures) : x ∈ p.measures ∨ asMeasure v = .ok x := by
  unfold set at h
  split at h
  all_goals first
    | (cases h
       exact .inl hx)
    | (obtain ⟨y, hy, h⟩ := exists_ok_of_bind h
       cases h
       first
         | exact .inl hx
         | (simp only [measures, List.mem_cons, List.not_mem_nil, or_false] at hx ⊢
            rcases hx with rfl | rfl | rfl | rfl | rfl <;> simp [hy]))

/-- The measures of a profile are finite when it is read from text. -/
theorem isFinite_measures_of_ofJson {v : Json} {p : FilterProfile} (hv : Tame limit v)
    (h : ofJson v = .ok p) : ∀ x ∈ p.measures, x.isFinite = true := by
  refine asRecord_keeps (P := fun p : FilterProfile => ∀ x ∈ p.measures, x.isFinite = true) ?_ hv
    (by decide) h
  intro name w r next hw hr hset x hx
  rcases mem_measures_of_set hset hx with hx | hx
  · exact hr x hx
  · exact isFinite_of_asMeasure hw hx

end FilterProfile

/-! ## Queries -/

/-- A query with lists of at most `limit` items and finite measures. -/
structure Query.Readable (limit : Nat) (q : Query) : Prop where
  filters : q.filters.length ≤ limit
  joins : q.joins.length ≤ limit
  aggregations : q.aggregations.length ≤ limit
  sortKeys : q.sortKeys.length ≤ limit
  measures : ∀ p ∈ q.profile, ∀ x ∈ p.measures, x.isFinite = true

namespace Query

theorem readable_of_set {name : String} {v : Json} {q r : Query} (hv : Tame limit v)
    (hq : q.Readable limit) (h : set name v q = .ok r) : r.Readable limit := by
  unfold set at h
  split at h
  · obtain ⟨filters, hd, h⟩ := exists_ok_of_bind h
    cases h
    exact { hq with filters := length_of_asList hv hd }
  · obtain ⟨joins, hd, h⟩ := exists_ok_of_bind h
    cases h
    exact { hq with joins := length_of_asList hv hd }
  · obtain ⟨aggregations, hd, h⟩ := exists_ok_of_bind h
    cases h
    exact { hq with aggregations := length_of_asList hv hd }
  · obtain ⟨keys, hd, h⟩ := exists_ok_of_bind h
    cases h
    exact { hq with sortKeys := length_of_asList hv hd }
  · obtain ⟨stats, -, h⟩ := exists_ok_of_bind h
    cases h
    exact { hq with }
  · obtain ⟨indexes, -, h⟩ := exists_ok_of_bind h
    cases h
    exact { hq with }
  · obtain ⟨timestamp, -, h⟩ := exists_ok_of_bind h
    cases h
    exact { hq with }
  · obtain ⟨profile, hd, h⟩ := exists_ok_of_bind h
    cases h
    refine { hq with measures := fun p hp => ?_ }
    obtain rfl : profile = some p := hp
    exact FilterProfile.isFinite_measures_of_ofJson hv (of_asOption_eq_some hd)
  · cases h
    exact hq

theorem Readable.mono {n : Nat} {q : Query} (h : q.Readable limit) (hl : limit ≤ n) :
    q.Readable n :=
  ⟨h.filters.trans hl, h.joins.trans hl, h.aggregations.trans hl, h.sortKeys.trans hl, h.measures⟩

theorem Readable.addressable {q : Query} (h : q.Readable limit) (hl : limit ≤ 2 ^ 64) :
    q.Addressable :=
  ⟨h.filters.trans hl, h.joins.trans hl, h.aggregations.trans hl, h.sortKeys.trans hl⟩

/-- **What is read from text has finite features.** -/
theorem Readable.isMeasured {q : Query} (h : q.Readable limit) (t : Target) :
    q.isMeasured t = true := by
  cases t with
  | cardinality => rfl
  | selectivity =>
    unfold Query.isMeasured
    rw [List.all_eq_true]
    cases hp : q.profile with
    | none => decide
    | some p => exact h.measures p hp

end Query

/-! ## Lines -/

namespace ExecutionRecord

theorem outcome?_eq_some {r : ExecutionRecord} {t : Target} {y : Float}
    (h : r.outcome t = .ok y) : r.outcome? t = some y := by
  unfold outcome at h
  unfold outcome?
  split at h
  · cases h
  · rename_i x hx
    split at h
    · cases h
    · rename_i hf
      cases h
      rw [hx, Option.filter_some, if_pos (by rw [Target.accepts, hf]; rfl)]

theorem readable_of_ofJson {v : Json} {r : ExecutionRecord} (hv : Tame limit v)
    (h : ofJson v = .ok r) : r.query.Readable limit := by
  cases hv with
  | obj he =>
    obtain ⟨observations, -, h⟩ := exists_ok_of_bind h
    obtain ⟨query, hq, h⟩ := exists_ok_of_bind h
    cases h
    refine readEntries_keeps (P := Query.Readable limit) (fun e hm => ?_) ?_ hq
    · exact Query.readable_of_set (he e hm)
    · exact ⟨Nat.zero_le _, Nat.zero_le _, Nat.zero_le _, Nat.zero_le _, fun p hp => nomatch hp⟩
  | _ => cases h

/-- **The record of a usable line has a valid outcome, and no more than the line can hold.** -/
theorem readable_of_ofLine {t : Target} {text : String} {r : ExecutionRecord}
    (h : ofLine t text = .ok r) :
    r.query.Readable text.toList.length ∧ ∃ y, r.outcome? t = some y := by
  unfold ofLine at h
  split at h
  · rename_i v hv
    have ht := tame_of_parse? hv
    unfold ofLogValue at h
    split at h
    · split at h
      · cases h
      · split at h
        · cases h
        · rename_i record hr
          split at h
          · cases h
          · rename_i y hy
            cases h
            exact ⟨readable_of_ofJson ht hr, y, outcome?_eq_some hy⟩
    · cases h
  · cases h

end ExecutionRecord

end QueryForecast
