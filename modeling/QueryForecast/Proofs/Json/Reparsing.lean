import Mathlib.Data.List.Perm.Basic
import QueryForecast.Json.Parser
import QueryForecast.Json.Printer
import QueryForecast.Proofs.Json.Records

/-!
# Values that were printed and parsed

Reading a text sorts the entries of its objects, and a number that is not finite was printed as
`null`. What is left of a value is its `reparsed` form.

* `Entries.lastOfEach_perm` — sorting keeps entries whose names differ.
-/

namespace QueryForecast.Json

mutual

/-- What is left of a value after printing and parsing it. -/
def reparsed : Json → Json
  | .num (.real x) => ofFloat x
  | .arr items => .arr (reparsedItems items)
  | .obj entries => .obj (Entries.lastOfEach (reparsedEntries entries))
  | v => v

/-- What is left of the items of an array. -/
def reparsedItems : List Json → List Json
  | [] => []
  | v :: vs => reparsed v :: reparsedItems vs

/-- What is left of the entries of an object, before they are sorted. -/
def reparsedEntries : List (String × Json) → List (String × Json)
  | [] => []
  | (name, v) :: es => (name, reparsed v) :: reparsedEntries es

end

theorem reparsedItems_eq_map (vs : List Json) : reparsedItems vs = vs.map reparsed := by
  induction vs with
  | nil => rfl
  | cons v vs ih => rw [reparsedItems, ih, List.map_cons]

theorem reparsedEntries_eq_map (es : Entries) :
    reparsedEntries es = es.map fun e => (e.1, reparsed e.2) := by
  induction es with
  | nil => rfl
  | cons e es ih =>
    obtain ⟨name, v⟩ := e
    rw [reparsedEntries, ih, List.map_cons]

theorem reparsed_ofFloat (x : Float) : reparsed (ofFloat x) = ofFloat x := by
  by_cases h : x.isFinite = true
  · have hx : ofFloat x = .num (.real x) := if_pos h
    rw [hx]
    show ofFloat x = _
    exact hx
  · have hx : ofFloat x = .null := if_neg h
    rw [hx]
    rfl

/-- A printed text is parsed by its characters. -/
theorem parse?_compact (v : Json) :
    parse? v.compact = Parser.document Entries.lastOfEach (compactTo [] v) := by
  unfold parse? compact
  rw [String.toList_ofList]

theorem names_reparsedEntries (es : Entries) :
    (reparsedEntries es).map Prod.fst = es.map Prod.fst := by
  rw [reparsedEntries_eq_map, List.map_map]
  rfl

/-! ## Sorted entries -/

namespace Entries

theorem insertNew_perm {name : String} {v : Json} {es : Entries} (h : name ∉ es.map Prod.fst) :
    (insertNew name v es).Perm ((name, v) :: es) := by
  induction es with
  | nil => exact List.Perm.refl _
  | cons e es ih =>
    obtain ⟨name', v'⟩ := e
    rw [List.map_cons, List.mem_cons, not_or] at h
    unfold insertNew
    rw [if_neg h.1]
    split
    · exact List.Perm.refl _
    · exact ((ih h.2).cons _).trans (List.Perm.swap _ _ _)

/-- **Sorting keeps entries whose names differ.** -/
theorem lastOfEach_perm {es : Entries} (h : (es.map Prod.fst).Nodup) : (lastOfEach es).Perm es := by
  induction es with
  | nil => exact List.Perm.refl _
  | cons e es ih =>
    obtain ⟨name, v⟩ := e
    rw [List.map_cons, List.nodup_cons] at h
    have hp := ih h.2
    have hn : name ∉ (lastOfEach es).map Prod.fst := fun hm =>
      h.1 ((hp.map Prod.fst).mem_iff.1 hm)
    exact (insertNew_perm hn).trans (hp.cons _)

theorem has_eq_true_iff {es : Entries} {name : String} :
    es.has name = true ↔ name ∈ es.map Prod.fst := by
  unfold has
  rw [List.any_eq_true, List.mem_map]
  exact exists_congr fun e => and_congr_right fun _ => beq_iff_eq

theorem has_lastOfEach_reparsedEntries {es : Entries} (h : (es.map Prod.fst).Nodup)
    (name : String) : (lastOfEach (reparsedEntries es)).has name = es.has name := by
  have hp := lastOfEach_perm ((names_reparsedEntries es).symm ▸ h)
  rw [Bool.eq_iff_iff, has_eq_true_iff, has_eq_true_iff, (hp.map Prod.fst).mem_iff,
    names_reparsedEntries]

/-- Where names differ, an entry is found by its name. -/
theorem get?_eq_some {es : Entries} {name : String} {v : Json} (h : (es.map Prod.fst).Nodup)
    (hm : (name, v) ∈ es) : es.get? name = some v := by
  unfold get?
  induction es with
  | nil => cases hm
  | cons e es ih =>
    obtain ⟨name', v'⟩ := e
    rw [List.map_cons, List.nodup_cons] at h
    rcases List.mem_cons.1 hm with he | hm
    · cases he
      exact List.lookup_cons_self
    · have hne : (name == name') = false := by
        rw [beq_eq_false_iff_ne]
        intro he
        exact h.1 (he ▸ List.mem_map.2 ⟨(name, v), hm, rfl⟩)
      rw [List.lookup_cons, hne]
      exact ih h.2 hm

end Entries

end QueryForecast.Json
