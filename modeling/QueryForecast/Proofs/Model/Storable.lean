import QueryForecast.Proofs.Json.Indented
import QueryForecast.Proofs.Model.Encoding
import QueryForecast.Proofs.Time.Texts

/-!
# Models that text can hold

What is decoded from a text has whole numbers of 64 bits, finite numbers and a time that is an instant.
Of such parts the encoding conforms to the outlines, so it is written and read again without loss.

* `Settings.WellSized`, `Node.WellSized`, `RegressionTree.WellSized`, `Ensemble.WellSized`,
  `Quality.WellSized`, `Model.WellSized` — parts of a model whose whole numbers take 64 bits.
* `WellSized.conforms` — the encoding of such a part conforms to its outline.
* `Settings.Storable` and so on, to `Model.Storable` — parts of a model that text can hold.
* `storable_of_set`, `storable_of_ofJson` — reading a field keeps this, so a record that is read has
  it.
* `Storable.isFinite_numbers` — no number is lost.
* `Model.storable_of_decode`, `Model.WellSized.conforms` — so it is for models.
-/

namespace QueryForecast

open Json Numeric Time

variable {depth : ℕ} {v : Json}

/-! ## Settings -/

/-- Settings whose whole numbers take 64 bits. -/
structure Settings.WellSized (s : Settings) : Prop where
  maxDepth : s.maxDepth < 2 ^ 64
  rounds : s.rounds < 2 ^ 64
  minLeafRows : s.minLeafRows < 2 ^ 64

instance (s : Settings) : Decidable s.WellSized :=
  decidable_of_iff (s.maxDepth < 2 ^ 64 ∧ s.rounds < 2 ^ 64 ∧ s.minLeafRows < 2 ^ 64)
    ⟨fun h => ⟨h.1, h.2.1, h.2.2⟩, fun h => ⟨h.maxDepth, h.rounds, h.minLeafRows⟩⟩

/-- Settings that text can hold. -/
structure Settings.Storable (s : Settings) : Prop extends s.WellSized where
  learningRate : s.learningRate.isFinite = true
  rowFraction : s.rowFraction.isFinite = true
  columnFraction : s.columnFraction.isFinite = true
  lambda : s.lambda.isFinite = true

namespace Settings

theorem wellSized_default : WellSized {} := by
  constructor <;> decide

theorem storable_default : Storable {} :=
  ⟨wellSized_default, by decide, by decide, by decide, by decide⟩

theorem storable_of_set {name : String} {s next : Settings} (hv : Textual depth v) (hs : s.Storable)
    (h : set name v s = .ok next) : next.Storable := by
  unfold set at h
  split at h
  · obtain ⟨n, hn, h⟩ := exists_ok_of_bind h
    cases h
    exact { hs with maxDepth := hv.lt_of_asNat hn }
  · obtain ⟨n, hn, h⟩ := exists_ok_of_bind h
    cases h
    exact { hs with rounds := hv.lt_of_asNat hn }
  · obtain ⟨x, hx, h⟩ := exists_ok_of_bind h
    cases h
    exact { hs with learningRate := hv.isFinite_of_asFloat hx }
  · obtain ⟨x, hx, h⟩ := exists_ok_of_bind h
    cases h
    exact { hs with rowFraction := hv.isFinite_of_asFloat hx }
  · obtain ⟨x, hx, h⟩ := exists_ok_of_bind h
    cases h
    exact { hs with columnFraction := hv.isFinite_of_asFloat hx }
  · obtain ⟨x, hx, h⟩ := exists_ok_of_bind h
    cases h
    exact { hs with lambda := hv.isFinite_of_asFloat hx }
  · obtain ⟨n, hn, h⟩ := exists_ok_of_bind h
    cases h
    exact { hs with minLeafRows := hv.lt_of_asNat hn }
  · obtain ⟨n, -, h⟩ := exists_ok_of_bind h
    cases h
    exact { hs with }
  · cases h
    exact hs

theorem storable_of_ofJson {s : Settings} (hv : Textual depth v) (h : ofJson v = .ok s) : s.Storable :=
  hv.asRecord_keeps storable_of_set storable_default h

variable {s : Settings}

theorem Storable.isFinite_numbers (h : s.Storable) : s.numbers.all Float.isFinite = true := by
  simp [numbers, h.learningRate, h.rowFraction, h.columnFraction, h.lambda]

theorem WellSized.conforms (h : s.WellSized) : Conforms (depth + 1) outline s.toJson := by
  have hseed : s.seed.toNat < 2 ^ 64 := s.seed.toNat_lt
  apply conforms_record
  simp only [List.forall_mem_cons]
  exact ⟨⟨_, rfl, .value (textual_ofNat h.maxDepth)⟩, ⟨_, rfl, .value (textual_ofNat h.rounds)⟩,
    ⟨_, rfl, .value (textual_ofFloat _)⟩, ⟨_, rfl, .value (textual_ofFloat _)⟩,
    ⟨_, rfl, .value (textual_ofFloat _)⟩, ⟨_, rfl, .value (textual_ofFloat _)⟩,
    ⟨_, rfl, .value (textual_ofNat h.minLeafRows)⟩, ⟨_, rfl, .value (textual_ofNat hseed)⟩, nofun⟩

end Settings

/-! ## Trees -/

/-- Parts of a node that text can hold. -/
structure Node.Parts.Storable (p : Node.Parts) : Prop where
  column : p.column < 2 ^ 64
  threshold : p.threshold.isFinite = true
  below : p.below < 2 ^ 64
  above : p.above < 2 ^ 64
  value : p.value.isFinite = true

/-- A node whose column and positions take 64 bits. -/
def Node.WellSized : Node → Prop
  | .split column _ below above => column < 2 ^ 64 ∧ below < 2 ^ 64 ∧ above < 2 ^ 64
  | .leaf _ => True

instance : (node : Node) → Decidable node.WellSized
  | .split column _ below above =>
    inferInstanceAs (Decidable (column < 2 ^ 64 ∧ below < 2 ^ 64 ∧ above < 2 ^ 64))
  | .leaf _ => inferInstanceAs (Decidable True)

/-- A node that text can hold. -/
inductive Node.Storable : Node → Prop where
  | split {column below above : ℕ} {threshold : Float} (hc : column < 2 ^ 64)
      (ht : threshold.isFinite = true) (hb : below < 2 ^ 64) (ha : above < 2 ^ 64) :
      Storable (.split column threshold below above)
  | leaf {value : Float} (hv : value.isFinite = true) : Storable (.leaf value)

namespace Node

theorem Parts.storable_default : Parts.Storable {} := by
  constructor <;> decide

theorem Parts.storable_of_set {name : String} {p next : Parts} (hv : Textual depth v)
    (hp : p.Storable) (h : set name v p = .ok next) : next.Storable := by
  unfold set at h
  split at h
  · obtain ⟨n, hn, h⟩ := exists_ok_of_bind h
    cases h
    exact { hp with column := hv.lt_of_asNat hn }
  · obtain ⟨x, hx, h⟩ := exists_ok_of_bind h
    cases h
    exact { hp with threshold := hv.isFinite_of_asFloat hx }
  · obtain ⟨n, hn, h⟩ := exists_ok_of_bind h
    cases h
    exact { hp with below := hv.lt_of_asNat hn }
  · obtain ⟨n, hn, h⟩ := exists_ok_of_bind h
    cases h
    exact { hp with above := hv.lt_of_asNat hn }
  · obtain ⟨x, hx, h⟩ := exists_ok_of_bind h
    cases h
    exact { hp with value := hv.isFinite_of_asFloat hx }
  · cases h
    exact hp

theorem storable_of_ofKind {kind : String} {node : Node} (hv : Textual depth v)
    (h : ofKind kind v = .ok node) : node.Storable := by
  have hparts : ∀ {form : RecordForm} {p : Parts}, asRecord form Parts.set {} v = .ok p → p.Storable :=
    fun hp => hv.asRecord_keeps Parts.storable_of_set Parts.storable_default hp
  unfold ofKind at h
  split at h
  · obtain ⟨p, hp, h⟩ := exists_ok_of_bind h
    cases h
    exact .split (hparts hp).column (hparts hp).threshold (hparts hp).below (hparts hp).above
  · obtain ⟨p, hp, h⟩ := exists_ok_of_bind h
    cases h
    exact .leaf (hparts hp).value
  · cases h

theorem storable_of_ofJson {node : Node} (hv : Textual depth v) (h : ofJson v = .ok node) :
    node.Storable := by
  unfold ofJson at h
  split at h
  · split at h
    · exact storable_of_ofKind hv h
    · cases h
  · rename_i kind items
    -- The kind in front is none of the parts.
    have hitems : Textual depth (.arr items) := by
      cases hv with
      | arr hi => exact .arr fun w hw => hi w (List.mem_cons_of_mem _ hw)
    exact storable_of_ofKind hitems h
  · cases h

theorem Storable.isFinite_number {node : Node} (h : node.Storable) : node.number.isFinite = true := by
  cases h with
  | split _ ht => exact ht
  | leaf hv => exact hv

theorem Storable.wellSized {node : Node} (h : node.Storable) : node.WellSized := by
  cases h with
  | split hc ht hb ha => exact ⟨hc, hb, ha⟩
  | leaf hv => trivial

theorem WellSized.textual {node : Node} (h : node.WellSized) : Textual (depth + 1) node.toJson := by
  cases node with
  | split column threshold below above =>
    obtain ⟨hc, hb, ha⟩ := h
    apply Textual.obj
    simp only [List.forall_mem_cons]
    exact ⟨.str _, textual_ofNat hc, textual_ofFloat _, textual_ofNat hb, textual_ofNat ha, nofun⟩
  | leaf value =>
    apply Textual.obj
    simp only [List.forall_mem_cons]
    exact ⟨.str _, textual_ofFloat _, nofun⟩

end Node

namespace RegressionTree

variable {t : RegressionTree}

/-- A tree of such nodes. -/
def WellSized (t : RegressionTree) : Prop :=
  ∀ node ∈ t.nodes.toList, node.WellSized

instance (t : RegressionTree) : Decidable t.WellSized :=
  inferInstanceAs (Decidable (∀ node ∈ t.nodes.toList, node.WellSized))

/-- A tree that text can hold. -/
def Storable (t : RegressionTree) : Prop :=
  ∀ node ∈ t.nodes.toList, node.Storable

theorem storable_of_set {name : String} {next : RegressionTree} (hv : Textual depth v)
    (ht : t.Storable) (h : set name v t = .ok next) : next.Storable := by
  unfold set at h
  split at h
  · obtain ⟨nodes, hn, h⟩ := exists_ok_of_bind h
    cases h
    exact hv.asList_keeps Node.storable_of_ofJson hn
  · cases h
    exact ht

theorem storable_of_ofJson (hv : Textual depth v) (h : ofJson v = .ok t) : t.Storable := by
  refine hv.asRecord_keeps storable_of_set ?_ h
  exact List.forall_mem_nil _

theorem Storable.isFinite_numbers (h : t.Storable) : ∀ x ∈ t.numbers, x.isFinite = true := by
  intro x hx
  obtain ⟨node, hn, rfl⟩ := List.mem_map.1 hx
  exact (h node hn).isFinite_number

theorem Storable.wellSized (h : t.Storable) : t.WellSized :=
  fun node hn => (h node hn).wellSized

theorem WellSized.conforms (h : t.WellSized) : Conforms (depth + 3) outline t.toJson := by
  have hnodes : Textual (depth + 2) (.arr (t.nodes.toList.map Node.toJson)) := by
    apply Textual.arr
    intro w hw
    obtain ⟨node, hn, rfl⟩ := List.mem_map.1 hw
    exact (h node hn).textual
  apply conforms_record
  simp only [List.forall_mem_cons]
  exact ⟨⟨_, rfl, .value hnodes⟩, nofun⟩

end RegressionTree

/-! ## Ensembles -/

/-- An ensemble whose columns and nodes take 64 bits. -/
structure Ensemble.WellSized (e : Ensemble) : Prop where
  width : e.width < 2 ^ 64
  trees : ∀ t ∈ e.trees, t.WellSized

instance (e : Ensemble) : Decidable e.WellSized :=
  decidable_of_iff (e.width < 2 ^ 64 ∧ ∀ t ∈ e.trees, t.WellSized)
    ⟨fun h => ⟨h.1, h.2⟩, fun h => ⟨h.width, h.trees⟩⟩

/-- An ensemble that text can hold. -/
structure Ensemble.Storable (e : Ensemble) : Prop where
  baseScore : e.baseScore.isFinite = true
  width : e.width < 2 ^ 64
  trees : ∀ t ∈ e.trees, t.Storable
  columnGain : ∀ x ∈ e.columnGain, x.isFinite = true

namespace Ensemble

variable {e : Ensemble}

theorem storable_of_set {name : String} {next : Ensemble} (hv : Textual depth v) (he : e.Storable)
    (h : set name v e = .ok next) : next.Storable := by
  unfold set at h
  split at h
  · obtain ⟨x, hx, h⟩ := exists_ok_of_bind h
    cases h
    exact { he with baseScore := hv.isFinite_of_asFloat hx }
  · obtain ⟨n, hn, h⟩ := exists_ok_of_bind h
    cases h
    exact { he with width := hv.lt_of_asNat hn }
  · obtain ⟨trees, ht, h⟩ := exists_ok_of_bind h
    cases h
    exact { he with trees := hv.asList_keeps RegressionTree.storable_of_ofJson ht }
  · obtain ⟨gains, hg, h⟩ := exists_ok_of_bind h
    cases h
    exact { he with columnGain := hv.asList_keeps Textual.isFinite_of_asFloat hg }
  · cases h
    exact he

theorem storable_of_ofJson (hv : Textual depth v) (h : ofJson v = .ok e) : e.Storable := by
  refine hv.asRecord_keeps storable_of_set ?_ h
  exact ⟨by decide, by decide, List.forall_mem_nil _, List.forall_mem_nil _⟩

namespace Storable

theorem isFinite_numbers (h : e.Storable) : ∀ x ∈ e.numbers, x.isFinite = true := by
  intro x hx
  unfold numbers at hx
  rcases List.mem_cons.1 hx with rfl | hx
  · exact h.baseScore
  · rcases List.mem_append.1 hx with hx | hx
    · obtain ⟨t, ht, hx⟩ := List.mem_flatMap.1 hx
      exact (h.trees t ht).isFinite_numbers x hx
    · exact h.columnGain x hx

theorem wellSized (h : e.Storable) : e.WellSized :=
  ⟨h.width, fun t ht => (h.trees t ht).wellSized⟩

end Storable

theorem WellSized.conforms (h : e.WellSized) : Conforms (depth + 5) outline e.toJson := by
  have htrees : Conforms (depth + 4) (.list RegressionTree.outline)
      (.arr (e.trees.map RegressionTree.toJson)) := by
    apply Conforms.list
    intro w hw
    obtain ⟨t, ht, rfl⟩ := List.mem_map.1 hw
    exact (h.trees t ht).conforms
  have hgains : Textual (depth + 4) (.arr (e.columnGain.map .ofFloat)) := by
    apply Textual.arr
    intro w hw
    obtain ⟨x, -, rfl⟩ := List.mem_map.1 hw
    exact textual_ofFloat x
  apply conforms_record
  simp only [List.forall_mem_cons]
  exact ⟨⟨_, rfl, .value (textual_ofFloat _)⟩, ⟨_, rfl, .value (textual_ofNat h.width)⟩,
    ⟨_, rfl, htrees⟩, ⟨_, rfl, .value hgains⟩, nofun⟩

end Ensemble

/-! ## Errors -/

/-- Errors on a number of rows that takes 64 bits. -/
structure Quality.WellSized (q : Quality) : Prop where
  samples : q.samples < 2 ^ 64

instance (q : Quality) : Decidable q.WellSized :=
  decidable_of_iff (q.samples < 2 ^ 64) ⟨fun h => ⟨h⟩, fun h => h.samples⟩

/-- Errors that text can hold. -/
structure Quality.Storable (q : Quality) : Prop extends q.WellSized where
  mae : q.mae.isFinite = true
  rmse : q.rmse.isFinite = true
  r2 : q.r2.isFinite = true

namespace Quality

variable {q : Quality}

theorem storable_of_set {name : String} {next : Quality} (hv : Textual depth v) (hq : q.Storable)
    (h : set name v q = .ok next) : next.Storable := by
  unfold set at h
  split at h
  · obtain ⟨x, hx, h⟩ := exists_ok_of_bind h
    cases h
    exact { hq with mae := hv.isFinite_of_asFloat hx }
  · obtain ⟨x, hx, h⟩ := exists_ok_of_bind h
    cases h
    exact { hq with rmse := hv.isFinite_of_asFloat hx }
  · obtain ⟨x, hx, h⟩ := exists_ok_of_bind h
    cases h
    exact { hq with r2 := hv.isFinite_of_asFloat hx }
  · obtain ⟨n, hn, h⟩ := exists_ok_of_bind h
    cases h
    exact { hq with samples := hv.lt_of_asNat hn }
  · cases h
    exact hq

theorem storable_of_ofJson (hv : Textual depth v) (h : ofJson v = .ok q) : q.Storable := by
  refine hv.asRecord_keeps storable_of_set ?_ h
  exact ⟨⟨by decide⟩, by decide, by decide, by decide⟩

theorem Storable.isFinite_numbers (h : q.Storable) : ∀ x ∈ q.numbers, x.isFinite = true := by
  simp [numbers, h.mae, h.rmse, h.r2]

theorem WellSized.conforms (h : q.WellSized) : Conforms (depth + 1) outline q.toJson := by
  apply conforms_record
  simp only [List.forall_mem_cons]
  exact ⟨⟨_, rfl, .value (textual_ofFloat _)⟩, ⟨_, rfl, .value (textual_ofFloat _)⟩,
    ⟨_, rfl, .value (textual_ofFloat _)⟩, ⟨_, rfl, .value (textual_ofNat h.samples)⟩, nofun⟩

end Quality

/-! ## Models -/

theorem Schema.textual_toJson (s : Schema) : Textual (depth + 1) s.toJson := by
  apply Textual.arr
  intro w hw
  obtain ⟨name, -, rfl⟩ := List.mem_map.1 hw
  exact .str name

/-- A model whose whole numbers take 64 bits: what it counts is in memory, one by one. -/
structure Model.WellSized (m : Model) : Prop where
  ensemble : ∀ e ∈ m.ensemble, e.WellSized
  settings : m.settings.WellSized
  quality : ∀ q ∈ m.quality, q.WellSized
  trainingRows : m.trainingRows < 2 ^ 64

instance (m : Model) : Decidable m.WellSized :=
  decidable_of_iff ((∀ e ∈ m.ensemble, e.WellSized) ∧ m.settings.WellSized ∧
      (∀ q ∈ m.quality, q.WellSized) ∧ m.trainingRows < 2 ^ 64)
    ⟨fun h => ⟨h.1, h.2.1, h.2.2.1, h.2.2.2⟩,
      fun h => ⟨h.ensemble, h.settings, h.quality, h.trainingRows⟩⟩

/-- A model that text can hold. -/
structure Model.Storable (m : Model) : Prop where
  ensemble : ∀ e ∈ m.ensemble, e.Storable
  settings : m.settings.Storable
  quality : ∀ q ∈ m.quality, q.Storable
  trainingRows : m.trainingRows < 2 ^ 64
  trainedAt : ∀ t ∈ m.trainedAt, t.IsInstant

namespace Model

variable {m : Model}

theorem isInstant_of_timestampOfJson {t : Timestamp} (h : Query.timestampOfJson v = .ok t) :
    t.IsInstant := by
  unfold Query.timestampOfJson at h
  obtain ⟨text, -, h⟩ := exists_ok_of_bind h
  split at h
  · rename_i ht
    cases h
    exact Timestamp.isInstant_of_parse? ht
  · cases h

theorem storable_of_set {name : String} {next : Model} (hv : Textual depth v) (hm : m.Storable)
    (h : set name v m = .ok next) : next.Storable := by
  unfold set at h
  split at h
  · obtain ⟨n, -, h⟩ := exists_ok_of_bind h
    split at h
    · cases h
      exact { hm with }
    · cases h
  · obtain ⟨target, -, h⟩ := exists_ok_of_bind h
    cases h
    exact { hm with }
  · obtain ⟨schema, -, h⟩ := exists_ok_of_bind h
    cases h
    exact { hm with }
  · obtain ⟨ensemble, he, h⟩ := exists_ok_of_bind h
    cases h
    refine { hm with ensemble := fun e hs => ?_ }
    obtain rfl : ensemble = some e := hs
    exact Ensemble.storable_of_ofJson hv (of_asOption_eq_some he)
  · obtain ⟨trained, -, h⟩ := exists_ok_of_bind h
    cases h
    exact { hm with }
  · obtain ⟨settings, hs, h⟩ := exists_ok_of_bind h
    cases h
    exact { hm with settings := Settings.storable_of_ofJson hv hs }
  · obtain ⟨quality, hq, h⟩ := exists_ok_of_bind h
    cases h
    refine { hm with quality := fun q hs => ?_ }
    obtain rfl : quality = some q := hs
    exact Quality.storable_of_ofJson hv (of_asOption_eq_some hq)
  · obtain ⟨rows, hr, h⟩ := exists_ok_of_bind h
    cases h
    exact { hm with trainingRows := hv.lt_of_asNat hr }
  · obtain ⟨time, ht, h⟩ := exists_ok_of_bind h
    cases h
    refine { hm with trainedAt := fun t hs => ?_ }
    obtain rfl : time = some t := hs
    exact isInstant_of_timestampOfJson (of_asOption_eq_some ht)
  · cases h
    exact hm

/-- **A model that is decoded from a text can be held by one.** -/
theorem storable_of_decode (hv : Textual depth v) (h : decode v = .ok m) : m.Storable := by
  refine hv.asRecord_keeps storable_of_set ?_ h
  exact ⟨nofun, Settings.storable_default, nofun, by decide, nofun⟩

namespace Storable

theorem isFinite_numbers (h : m.Storable) : m.numbers.all Float.isFinite = true := by
  rw [List.all_eq_true]
  intro x hx
  unfold numbers at hx
  rcases List.mem_append.1 hx with hx | hx
  · obtain ⟨e, he, hx⟩ := List.mem_flatMap.1 hx
    exact (h.ensemble e (Option.mem_toList.1 he)).isFinite_numbers x hx
  · obtain ⟨q, hq, hx⟩ := List.mem_flatMap.1 hx
    exact (h.quality q (Option.mem_toList.1 hq)).isFinite_numbers x hx

theorem wellSized (h : m.Storable) : m.WellSized where
  ensemble e he := (h.ensemble e he).wellSized
  settings := h.settings.toWellSized
  quality q hq := (h.quality q hq).toWellSized
  trainingRows := h.trainingRows

end Storable

namespace WellSized

/-- **The encoding of a model conforms to the outlines.** -/
theorem conforms (h : m.WellSized) : Conforms (depth + 6) (.record outlines) m.toJson := by
  have hversion : m.formatVersion.toNat < 2 ^ 64 :=
    m.formatVersion.toNat_lt.trans (by decide)
  have hschema : Conforms (depth + 5) .value (ofOption Schema.toJson m.schema) :=
    conforms_ofOption fun s _ => .value s.textual_toJson
  have hensemble : Conforms (depth + 5) Ensemble.outline (ofOption Ensemble.toJson m.ensemble) :=
    conforms_ofOption fun e he => (h.ensemble e he).conforms
  have hquality : Conforms (depth + 5) Quality.outline (ofOption Quality.toJson m.quality) :=
    conforms_ofOption fun q hq => (h.quality q hq).conforms
  have htime : Conforms (depth + 5) .value (ofOption Query.timestampToJson m.trainedAt) :=
    conforms_ofOption fun t _ => .value (.str t.text)
  apply conforms_record
  simp only [List.forall_mem_cons]
  exact ⟨⟨_, rfl, .value (textual_ofNat hversion)⟩, ⟨_, rfl, .value (.str _)⟩, ⟨_, rfl, hschema⟩,
    ⟨_, rfl, hensemble⟩, ⟨_, rfl, .value (.bool _)⟩, ⟨_, rfl, h.settings.conforms⟩,
    ⟨_, rfl, hquality⟩, ⟨_, rfl, .value (textual_ofNat h.trainingRows)⟩, ⟨_, rfl, htime⟩, nofun⟩

/-- **So its document is read back as that encoding**, where a number that is not finite is `null`. -/
theorem excerpt_toText (h : m.WellSized) : excerpt outlines m.toText = (m.toJson, true) := by
  have hc : Conforms (121 + 6) (.record outlines) m.toJson := h.conforms
  exact excerpt_indented hc

end WellSized

end Model

end QueryForecast
