import QueryForecast.Model.Artifact
import QueryForecast.Proofs.Boosting.Fitted
import QueryForecast.Proofs.Json.Records

/-!
# Encoded models

Each part of a model is restored from its encoding when its numbers are finite.

* `Settings.restores`, `Ensemble.restores`, `Quality.restores`, `Schema.restores` — the parts of a
  model.
* `Model.decode_toJson` — a model whose time is restored from its text.
* `Model.ofJson_eq_ok_iff`, `Model.parse_eq_ok_iff` — when a value or a document is read.
-/

namespace QueryForecast

open Json Time

namespace Settings

/-- The numbers of settings. -/
def numbers (s : Settings) : List Float :=
  [s.learningRate, s.rowFraction, s.columnFraction, s.lambda]

theorem restores (s : Settings) : Restores toJson ofJson numbers s := by
  unfold Restores ofJson toJson
  rw [asRecord_obj rfl]
  simp [RecordForm.known, form, set, asNat_ofNat, asFloat_ofFloat, ok_bind, ite_ok_bind, numbers,
    ite_and]

end Settings

namespace Node

theorem restores (node : Node) : Restores toJson ofJson (fun node => [node.number]) node := by
  unfold Restores
  cases node with
  | split column threshold below above =>
    show (do
      let p ← asRecord splitForm Parts.set {} (toJson (.split column threshold below above))
      return Node.split p.column p.threshold p.below p.above) = _
    unfold toJson
    rw [asRecord_obj rfl]
    simp [RecordForm.known, splitForm, Parts.set, asNat_ofNat, asFloat_ofFloat, ok_bind,
      ite_ok_bind, map_ite_ok, number]
  | leaf value =>
    show (do
      let p ← asRecord leafForm Parts.set {} (toJson (.leaf value))
      return Node.leaf p.value) = _
    unfold toJson
    rw [asRecord_obj rfl]
    simp [RecordForm.known, leafForm, Parts.set, asFloat_ofFloat, map_ite_ok, number]

end Node

namespace RegressionTree

theorem numbers_eq_flatMap (t : RegressionTree) :
    t.numbers = t.nodes.toList.flatMap fun node => [node.number] := by
  unfold numbers
  exact List.map_eq_flatMap

theorem restores (t : RegressionTree) : Restores toJson ofJson numbers t := by
  have hn := Restores.list fun node (_ : node ∈ t.nodes.toList) => node.restores
  unfold Restores ofJson toJson at *
  rw [asRecord_obj rfl, numbers_eq_flatMap]
  simp [RecordForm.known, form, set, hn, map_ite_ok]

end RegressionTree

namespace Ensemble

theorem restores (e : Ensemble) : Restores toJson ofJson numbers e := by
  have ht := Restores.list fun t (_ : t ∈ e.trees) => t.restores
  have hg := Restores.list fun x (_ : x ∈ e.columnGain) => restores_ofFloat x
  unfold Restores ofJson toJson at *
  rw [asRecord_obj rfl]
  simp [RecordForm.known, form, set, asNat_ofNat, asFloat_ofFloat, ht, hg, ok_bind, ite_ok_bind,
    map_ite_ok, numbers, ite_and]

end Ensemble

namespace Quality

/-- The errors of a model. -/
def numbers (q : Quality) : List Float :=
  [q.mae, q.rmse, q.r2]

theorem restores (q : Quality) : Restores toJson ofJson numbers q := by
  unfold Restores ofJson toJson
  rw [asRecord_obj rfl]
  simp [RecordForm.known, form, set, asNat_ofNat, asFloat_ofFloat, ite_ok_bind, numbers, ite_and]

end Quality

namespace Schema

theorem number_of_nodup {names : List String} {positions : List (String × Nat)} (next : Nat)
    (h : names.Nodup) (hs : ∀ name ∈ names, positions.lookup name = none) :
    number positions next names = .ok (positions ++ names.zipIdx next) := by
  induction names generalizing positions next with
  | nil => rw [List.zipIdx_nil, List.append_nil]; rfl
  | cons name rest ih =>
    rw [List.nodup_cons] at h
    rw [List.forall_mem_cons] at hs
    have hrest : ∀ other ∈ rest, (positions ++ [(name, next)]).lookup other = none := by
      intro other hm
      have hne : other ≠ name := fun he => h.1 (he ▸ hm)
      rw [List.lookup_append, hs.2 other hm, List.lookup_cons, beq_false_of_ne hne]
      rfl
    unfold number
    rw [hs.1]
    dsimp only
    rw [ih _ h.2 hrest, List.append_assoc, List.zipIdx_cons]
    rfl

/-- Names without repetition have a schema. -/
theorem exists_ofNames_eq {names : List String} (hne : names ≠ []) (h : names.Nodup) :
    ∃ s : Schema, ofNames names = .ok s ∧ s.names = names := by
  unfold ofNames
  rw [dif_neg hne]
  split
  · rename_i fault hf
    rw [number_of_nodup 0 h fun _ _ => rfl] at hf
    cases hf
  · exact ⟨_, rfl, rfl⟩

/-- A schema is known by its names. -/
theorem eq_of_names_eq {s t : Schema} (h : s.names = t.names) : s = t := by
  cases s with
  | mk names positions hne hd hp =>
    cases t with
    | mk names' positions' hne' hd' hp' =>
      cases h
      cases hp
      cases hp'
      rfl

theorem ofNames_names (s : Schema) : ofNames s.names = .ok s := by
  obtain ⟨t, ht, hn⟩ := exists_ofNames_eq s.ne_nil s.nodup
  rw [ht, eq_of_names_eq hn]

theorem asList_strings (names : List String) :
    asList asString (.arr (names.map .str)) = .ok names := by
  unfold asList
  induction names with
  | nil => rfl
  | cons name rest ih =>
    dsimp only at ih ⊢
    rw [List.map_cons, List.mapM_cons, ih]
    rfl

theorem restores (s : Schema) : Restores toJson ofJson (fun _ => []) s := by
  unfold Restores ofJson toJson
  rw [asList_strings, ok_bind, ofNames_names]
  rfl

end Schema

namespace Model

/-- The numbers of what was fitted, and of how good it is. -/
def numbers (m : Model) : List Float :=
  m.ensemble.toList.flatMap Ensemble.numbers ++ m.quality.toList.flatMap Quality.numbers

theorem restores_timestamp {t : Timestamp} (h : Timestamp.parse? t.text = some t) :
    Restores Query.timestampToJson Query.timestampOfJson (fun _ => []) t := by
  unfold Restores Query.timestampOfJson Query.timestampToJson asString
  rw [ok_bind, h]
  rfl

/-- **A model is restored from its encoding exactly when its numbers are finite.** -/
theorem decode_toJson {m : Model} (hs : m.settings.numbers.all Float.isFinite = true)
    (ht : ∀ t ∈ m.trainedAt, Timestamp.parse? t.text = some t) :
    decode m.toJson = if m.numbers.all Float.isFinite then .ok m else .error .shape := by
  have hsettings : Settings.ofJson m.settings.toJson = .ok m.settings := by
    rw [m.settings.restores, if_pos hs]
  have hversion := m.formatVersion.toNat_lt
  have hschema : Restores _ _ _ m.schema :=
    Restores.option (fun s _ => s.restores) (fun s h => nomatch h)
  have hensemble : Restores _ _ _ m.ensemble :=
    Restores.option (fun e _ => e.restores) (fun e h => nomatch h)
  have hquality : Restores _ _ _ m.quality :=
    Restores.option (fun q _ => q.restores) (fun q h => nomatch h)
  have htime : Restores _ _ _ m.trainedAt :=
    Restores.option (fun t hm => restores_timestamp (ht t hm)) (fun t h => nomatch h)
  unfold Restores at hschema hensemble hquality htime
  unfold decode toJson
  rw [asRecord_obj rfl]
  simp [RecordForm.known, form, set, asNat_ofNat, hversion, hsettings, m.target.ofJson_toJson, hschema,
    hensemble, hquality, htime, ok_bind, ite_ok_bind, map_ite_ok, numbers, asBool, ite_and]

/-! ## Documents -/

variable {v : Json} {text : String} {m : Model}

/-- A value is read when it can be decoded and the model has no fault. -/
theorem ofJson_eq_ok_iff : ofJson v = .ok m ↔ decode v = .ok m ∧ m.artifactFault? = none := by
  unfold ofJson
  constructor
  · intro h
    split at h
    · cases h
    · rename_i hd
      split at h
      · cases h
      · rename_i hf
        cases h
        exact ⟨hd, hf⟩
  · rintro ⟨hd, hf⟩
    rw [hd]
    dsimp only
    rw [hf]

/-- A document is read when it is whole and its value is read. -/
theorem parse_eq_ok_iff :
    parse text = .ok m ↔ ∃ v, excerpt outlines text = (v, true) ∧ ofJson v = .ok m := by
  unfold parse ofText
  obtain ⟨w, whole⟩ := excerpt outlines text
  cases whole with
  | false => simp
  | true => cases hw : ofJson w <;> simp [hw]

end Model

end QueryForecast
