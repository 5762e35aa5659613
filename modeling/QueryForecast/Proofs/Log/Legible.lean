import QueryForecast.Log.Line
import QueryForecast.Proofs.Json.Texts
import QueryForecast.Proofs.Log.Codec

/-!
# Lines of records

The line of a record is the text of an object with few levels of brackets. Only the values that a
query carries along can be nested deeper, or hold whole numbers of more than 64 bits.

* `Legible.mono` — more brackets may be allowed than there are.
* `ExecutionRecord.legible_toJson` — an encoded record has three levels of its own.
* `ExecutionRecord.parse?_toLine` — so its line is parsed as what is left of it.
-/

namespace QueryForecast

open Json

namespace Json

variable {depth depth' : ℕ}

theorem Legible.mono {v : Json} (h : Legible depth v) (hd : depth ≤ depth') : Legible depth' v := by
  induction h generalizing depth' with
  | null => exact .null
  | bool b => exact .bool b
  | whole hn => exact .whole hn
  | real x => exact .real x
  | str s => exact .str s
  | arr _ ih =>
    obtain ⟨d, rfl⟩ := Nat.exists_eq_succ_of_ne_zero (show depth' ≠ 0 by omega)
    exact .arr fun v hv => ih v hv (by omega)
  | obj _ ih =>
    obtain ⟨d, rfl⟩ := Nat.exists_eq_succ_of_ne_zero (show depth' ≠ 0 by omega)
    exact .obj fun e he => ih e he (by omega)

theorem legible_ofFloat (x : Float) : Legible depth (ofFloat x) := by
  unfold ofFloat
  split
  · exact .real x
  · exact .null

theorem legible_ofNat {n : ℕ} (h : n < 0x10000000000000000) : Legible depth (ofNat n) :=
  .whole ⟨by omega, by omega⟩

theorem legible_count (n : UInt64) : Legible depth (ofNat n.toNat) :=
  legible_ofNat n.toNat_lt

theorem legible_count32 (n : UInt32) : Legible depth (ofNat n.toNat) :=
  legible_ofNat (n.toNat_lt.trans (by decide))

end Json

/-! ## Parts of a record -/

theorem Filter.legible_toJson {x : Filter} {depth : ℕ} (h : Legible depth x.value) :
    Legible (depth + 1) x.toJson := by
  refine .obj fun e he => ?_
  simp only [List.mem_cons, List.not_mem_nil, or_false] at he
  rcases he with rfl | rfl | rfl
  · exact .str _
  · exact .str _
  · exact h

theorem FilterProfile.legible_toJson (p : FilterProfile) {depth : ℕ} :
    Legible (depth + 1) p.toJson := by
  refine .obj fun e he => ?_
  simp only [List.mem_cons, List.not_mem_nil, or_false] at he
  rcases he with rfl | rfl | rfl | rfl | rfl | rfl | rfl | rfl | rfl | rfl | rfl | rfl | rfl
  all_goals
    first
      | exact .str _
      | exact legible_count _
      | exact legible_count32 _
      | exact legible_ofFloat _

theorem TableStats.legible_toJson (s : TableStats) {depth : ℕ} :
    Legible (depth + 2) s.toJson := by
  refine .obj fun e he => ?_
  rcases List.mem_append.1 he with he | he
  · simp only [List.mem_cons, List.not_mem_nil, or_false] at he
    rcases he with rfl | rfl
    · exact legible_count _
    · exact legible_count _
  · split at he
    · cases he
    · rw [List.mem_singleton.1 he]
      exact .arr (List.forall_mem_map.2 fun name _ => .str name)

/-- Each part of a query has at most two levels around the values that it carries along. -/
theorem Query.legible_of_mem_toEntries {q : Query} {depth : ℕ} (h : ∀ v ∈ q.carried, Legible depth v)
    {e : String × Json} (he : e ∈ q.toEntries) : Legible (depth + 2) e.2 := by
  unfold carried at h
  simp only [List.forall_mem_append, List.forall_mem_map] at h
  obtain ⟨⟨⟨hfilters, hjoins⟩, haggregations⟩, hsort⟩ := h
  rcases mem_toEntries.1 he with rfl | rfl | rfl | rfl | ⟨s, -, rfl⟩ | ⟨b, -, rfl⟩ | ⟨t, -, rfl⟩ |
    ⟨p, -, rfl⟩
  · exact .arr (List.forall_mem_map.2 fun x hx => Filter.legible_toJson (hfilters x hx))
  · exact .arr fun v hv => (hjoins v hv).mono (Nat.le_succ depth)
  · exact .arr fun v hv => (haggregations v hv).mono (Nat.le_succ depth)
  · exact .arr fun v hv => (hsort v hv).mono (Nat.le_succ depth)
  · exact s.legible_toJson
  · exact .bool b
  · exact .str t.text
  · exact p.legible_toJson

/-! ## Records -/

namespace ExecutionRecord

variable {r : ExecutionRecord}

/-- **An encoded record has three levels** around the values that its query carries along. -/
theorem legible_toJson {depth : ℕ} (h : ∀ v ∈ r.query.carried, Legible depth v) :
    Legible (depth + 3) r.toJson := by
  refine .obj fun e he => ?_
  rcases mem_entries.1 he with he | ⟨x, -, rfl⟩ | ⟨x, -, rfl⟩ | ⟨x, -, rfl⟩ | ⟨s, -, rfl⟩
  · exact Query.legible_of_mem_toEntries h he
  · exact legible_ofFloat x
  · exact legible_ofFloat x
  · exact legible_ofFloat x
  · exact .str s.name

/-- **The line of a record is parsed as what is left of the record**, when what its query carries along
is legible. -/
theorem parse?_toLine (h : ∀ v ∈ r.query.carried, Legible (Parser.maxDepth - 3) v) :
    parse? r.toLine = some (reparsed r.toJson) :=
  parse?_compact_eq (legible_toJson h)

end ExecutionRecord

end QueryForecast
