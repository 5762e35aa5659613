import QueryForecast.Proofs.Boosting.Checked
import QueryForecast.Proofs.Model.Encoding
import QueryForecast.Proofs.Numeric.Exponential
import QueryForecast.Serving.Estimator

/-!
# A model that was read always answers

What is checked when an artifact is read is all that serving needs: the walk through every tree ends
at a leaf, the sum of the leaves is defined, and a defined score is moved into the range of the
target.

* `Target.InRange` — the range of the estimates of a target.
* `Target.ofScore?_of_isNaN` — every defined score stands for an estimate in the range.
* `Model.Servable` — what reading ensures; `servable_of_parse` says that it does.
* `Model.Servable.estimate` — a servable model answers every feature vector.
* `parsed_model_answers` — so does an estimator that holds it, and never falls back.
-/

namespace QueryForecast

open Numeric Time

/-! ## Estimates of scores -/

/-- The range of the estimates of a target. -/
def Target.InRange : Target → Float → Prop
  | .cardinality, y => 1.0 ≤ y ∧ y ≤ 10000000.0
  | .selectivity, y => 0.001 ≤ y ∧ y ≤ 1.0

/-- **Every defined score stands for an estimate in the range of the target.** -/
theorem Target.ofScore?_of_isNaN (t : Target) {score : Float} (h : score.isNaN = false) :
    ∃ y, t.ofScore? score = some y ∧ t.InRange y := by
  unfold ofScore?
  rw [h, if_neg (by decide)]
  cases t with
  | cardinality =>
    exact ⟨_, rfl, clamp_mem (by decide) (by decide) (isNaN_expMinusOne h)
      (by decide) (by decide) (by decide)⟩
  | selectivity =>
    exact ⟨_, rfl, clamp_mem (by decide) (by decide) h (by decide)
      (by decide) (by decide)⟩

/-! ## Servable models -/

namespace Model

/-- What reading ensures: the model is trained and has columns and trees that fit together. -/
def Servable (m : Model) (schema : Schema) (ensemble : Ensemble) : Prop :=
  m.formatVersion = QueryForecast.formatVersion ∧ m.trained = true ∧ m.schema = some schema ∧
    m.ensemble = some ensemble ∧ ensemble.width = schema.width ∧ ensemble.WellFormed

/-- **The check of an artifact finds a fault exactly when the model is not servable.** -/
theorem artifactFault?_eq_none_iff {m : Model} :
    m.artifactFault? = none ↔ ∃ schema ensemble, m.Servable schema ensemble := by
  unfold artifactFault? Servable
  constructor
  · intro h
    split at h
    · cases h
    · rename_i hv
      split at h
      · cases h
      · rename_i ht
        split at h
        · cases h
        · cases h
        · rename_i schema ensemble hs he
          split at h
          · cases h
          · rename_i hw
            rw [Option.map_eq_none_iff] at h
            exact ⟨schema, ensemble, by simpa using hv, by simpa using ht, hs, he, by simpa using hw,
              Ensemble.fault?_eq_none_iff.1 h⟩
  · rintro ⟨schema, ensemble, hv, ht, hs, he, hw, hf⟩
    rw [if_neg (by simp [hv]), if_neg (by simp [ht]), hs, he]
    dsimp only
    rw [if_neg (by simp [hw]), Ensemble.fault?_eq_none_iff.2 hf]
    rfl

theorem servable_of_ofJson {v : Json} {m : Model} (h : ofJson v = .ok m) :
    ∃ schema ensemble, m.Servable schema ensemble :=
  artifactFault?_eq_none_iff.1 (ofJson_eq_ok_iff.1 h).2

theorem servable_of_parse {text : String} {m : Model} (h : parse text = .ok m) :
    ∃ schema ensemble, m.Servable schema ensemble := by
  obtain ⟨v, -, hm⟩ := parse_eq_ok_iff.1 h
  exact servable_of_ofJson hm

namespace Servable

variable {m : Model} {schema : Schema} {ensemble : Ensemble}

theorem fitted (h : m.Servable schema ensemble) : m.fitted = .ok (schema, ensemble) := by
  obtain ⟨-, ht, hs, he, -⟩ := h
  unfold Model.fitted fitted?
  rw [hs, he]
  dsimp only
  rw [ht]
  rfl

theorem score (h : m.Servable schema ensemble) (row : Row) :
    m.score row = .ok (ensemble.predict row) := by
  unfold Model.score
  rw [h.fitted]
  rfl

/-- **A servable model answers every feature vector**, within the range of its target. -/
theorem estimate (h : m.Servable schema ensemble) (v : FeatureVector) :
    ∃ y, m.estimate v = .ok y ∧ m.target.InRange y := by
  obtain ⟨-, -, -, -, -, hw⟩ := id h
  obtain ⟨y, hy, hr⟩ :=
    m.target.ofScore?_of_isNaN (hw.isNaN_predict (schema.align v).toArray)
  refine ⟨y, ?_, hr⟩
  unfold Model.estimate
  rw [h.fitted]
  show m.estimateRow (schema.align v).toArray = .ok y
  unfold estimateRow
  rw [h.score]
  dsimp only [bind, Except.bind]
  rw [hy]
  rfl

end Servable

end Model

/-! ## Estimators -/

namespace Estimator

variable {e : Estimator} {m : Model} {schema : Schema} {ensemble : Ensemble}

theorem activeFor?_of_active {t : Target} (ha : e.active = some m) (ht : m.target = t) :
    e.activeFor? t = some m := by
  unfold activeFor?
  rw [ha, Option.filter_some, if_pos (by simp [ht])]

theorem source_estimateCardinality (ha : e.active = some m) (ht : m.target = .cardinality)
    (h : m.Servable schema ensemble) (q : Query) (now : Timestamp) :
    (e.estimateCardinality q now).source = .model := by
  obtain ⟨y, hy, -⟩ := h.estimate (e.cardinalityVector q now)
  have hm : e.modelCardinality? q now = some y := by
    unfold modelCardinality?
    rw [activeFor?_of_active ha ht]
    show (m.estimate _).toOption = _
    rw [hy]
    rfl
  unfold estimateCardinality
  rw [hm]

theorem modelSelectivity?_of_active (ha : e.active = some m) (ht : m.target = .selectivity)
    (h : m.Servable schema ensemble) (p : FilterProfile) : ∃ y, e.modelSelectivity? p = some (m, y) := by
  obtain ⟨y, hy, -⟩ := h.estimate p.vector
  refine ⟨y, ?_⟩
  unfold modelSelectivity?
  rw [activeFor?_of_active ha ht]
  show (m.estimate _).toOption.bind _ = _
  rw [hy]
  rfl

theorem source_estimateSelectivity (ha : e.active = some m) (ht : m.target = .selectivity)
    (h : m.Servable schema ensemble) (p : FilterProfile) :
    (e.estimateSelectivity p).source = .model := by
  obtain ⟨y, hm⟩ := modelSelectivity?_of_active ha ht h (e.history.fill p)
  unfold estimateSelectivity
  dsimp only
  rw [hm]

end Estimator

/-- **A model that was read always answers**: it estimates every feature vector within the range of
its target, every walk through its trees ends at a leaf, and an estimator that holds it answers
every question for its target from the model. -/
theorem parsed_model_answers {text : String} {m : Model} (h : Model.parse text = .ok m) :
    (∀ v, ∃ y, m.estimate v = .ok y ∧ m.target.InRange y) ∧
      (∀ ensemble, m.ensemble = some ensemble → ∀ tree ∈ ensemble.trees, ∀ row, ∃ leaf v,
        tree.leafOf? row = some leaf ∧ tree.nodes[leaf]? = some (.leaf v) ∧
          tree.predict row = v) ∧
      ∀ e : Estimator, e.active = some m →
        (m.target = .cardinality → ∀ q now, (e.estimateCardinality q now).source = .model) ∧
          (m.target = .selectivity → ∀ p, (e.estimateSelectivity p).source = .model) := by
  obtain ⟨schema, ensemble, hs⟩ := Model.servable_of_parse h
  refine ⟨hs.estimate, ?_, fun e ha => ⟨fun ht => ?_, fun ht => ?_⟩⟩
  · intro ensemble' he tree ht row
    obtain ⟨-, -, -, he', -, hw⟩ := hs
    rw [he'] at he
    cases he
    obtain ⟨i, v, hi, hv, hp, -⟩ := (hw.trees tree ht).lands row
    exact ⟨i, v, hi, hv, hp⟩
  · exact Estimator.source_estimateCardinality ha ht hs
  · exact Estimator.source_estimateSelectivity ha ht hs

/-- An artifact for selectivities, with one tree of three nodes. -/
def smallArtifact : String :=
  "\x7b\"format_version\":1,\"target\":\"selectivity\",\"schema\":[\"a\"],\"trained\":true," ++
    "\"booster\":[0.5,1,[[[[\"split\",0,9.5,1,2],[\"leaf\",-0.25],[\"leaf\",1e300]]]],[2.0]]\x7d"

theorem parsed_model_answers_of_smallArtifact :
    ∃ m, Model.parse smallArtifact = .ok m ∧ m.target = .selectivity ∧
      ∀ v, ∃ y, m.estimate v = .ok y ∧ 0.001 ≤ y ∧ y ≤ 1.0 := by
  have ht : (Model.parse smallArtifact).toOption.map (·.target) = some .selectivity := by
    decide +kernel
  cases hm : Model.parse smallArtifact with
  | error fault =>
    rw [hm] at ht
    cases ht
  | ok m =>
    rw [hm] at ht
    have ht : m.target = .selectivity := Option.some.inj ht
    obtain ⟨he, -, -⟩ := parsed_model_answers hm
    rw [ht] at he
    exact ⟨m, rfl, ht, he⟩

end QueryForecast
