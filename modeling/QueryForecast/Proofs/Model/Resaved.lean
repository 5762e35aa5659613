import QueryForecast.Proofs.Log.Lines
import QueryForecast.Proofs.Model.Storable
import QueryForecast.Proofs.Storage.Appending

/-!
# Saving a model that was read

A document may leave out what has a default, hold entries that no field has, and spell its parts in
more than one way. The model that is read from it is written in one way, and what is written is read
as the same model.

* `Model.Storable.parse_toText` — a servable model that text can hold is read from its own document.
* `Model.load_of_save` — a model whose document is read is loaded from the file that it was saved to.
* `Model.parse_resaved` — every model that was read from a document is read again from its own.
-/

namespace QueryForecast

open Json

namespace Model

variable {text : String} {m : Model}

theorem storable_of_parse (h : parse text = .ok m) : m.Storable ∧ m.artifactFault? = none := by
  obtain ⟨v, hv, hm⟩ := parse_eq_ok_iff.1 h
  obtain ⟨hd, hf⟩ := ofJson_eq_ok_iff.1 hm
  have htextual := textual_excerpt outlines text
  rw [hv] at htextual
  exact ⟨storable_of_decode htextual hd, hf⟩

namespace Storable

theorem ofJson_toJson (h : m.Storable) (hf : m.artifactFault? = none) : ofJson m.toJson = .ok m := by
  have hd := decode_toJson h.settings.isFinite_numbers
    fun t ht => Time.Timestamp.parse?_text (h.trainedAt t ht)
  rw [if_pos h.isFinite_numbers] at hd
  exact ofJson_eq_ok_iff.2 ⟨hd, hf⟩

theorem parse_toText (h : m.Storable) (hf : m.artifactFault? = none) : parse m.toText = .ok m :=
  parse_eq_ok_iff.2 ⟨_, h.wellSized.excerpt_toText, h.ofJson_toJson hf⟩

end Storable

/-- **A saved model is loaded again**, when its document is read. -/
theorem load_of_save {s s' : Storage} {path : String} (hs : m.save s path = (.ok (), s'))
    (hm : parse m.toText = .ok m) : load s' path = .ok m := by
  have hread : s'.read? path = some (bytesOf m.toText) := by
    unfold save at hs
    split at hs
    · split at hs
      · rename_i written hwritten
        cases hs
        exact Storage.read?_of_replace hwritten
      · cases hs
    · cases hs
  obtain ⟨v, hv, hd⟩ := parse_eq_ok_iff.1 hm
  unfold load ofText
  rw [hread]
  dsimp only
  rw [fromUTF8?_bytesOf]
  dsimp only
  rw [hv]
  dsimp only
  rw [if_pos rfl, hd]

/-- **A model that was read from a document is read again from its own**, whatever the document left
out, added or reordered, and so gives the same estimate for every feature vector. -/
theorem parse_resaved (h : parse text = .ok m) :
    parse m.toText = .ok m ∧ ofJson m.toJson = .ok m ∧
      ∀ v, (parse m.toText >>= fun resaved => resaved.estimate v) = m.estimate v := by
  obtain ⟨hs, hf⟩ := storable_of_parse h
  have hparse := hs.parse_toText hf
  refine ⟨hparse, hs.ofJson_toJson hf, ?_⟩
  intro v
  rw [hparse]
  rfl

/-- An artifact that leaves out settings and the number of rows, has an entry of its own, and spells
the others in an unusual order and way. -/
def foreignArtifact : String :=
  "\x7b\"note\":1e999,\"trained_at\":\"2024-3-6t14:30:60+0200\",\"metrics\":[1,25e-1,-0.0,7]," ++
    "\"booster\":[0.5,1,[[[\x7b\"value\":-1,\"type\":\"leaf\"\x7d]]],[2]]," ++
    "\"config\":\x7b\"seed\":7\x7d,\"trained\":true,\"schema\":[\"a\"],\"target\":\"selectivity\",\"format_version\":1\x7d"

theorem parse_resaved_of_foreignArtifact :
    ∃ m, parse foreignArtifact = .ok m ∧ m.settings = { seed := 7 } ∧ parse m.toText = .ok m := by
  have hs : (parse foreignArtifact).toOption.map (·.settings) = some { seed := 7 } := by
    decide +kernel
  cases hm : parse foreignArtifact with
  | error failure =>
    rw [hm] at hs
    cases hs
  | ok m =>
    rw [hm] at hs
    exact ⟨m, rfl, Option.some.inj hs, (parse_resaved hm).1⟩

end Model

end QueryForecast
