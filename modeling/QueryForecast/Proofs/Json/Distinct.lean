import QueryForecast.Proofs.Json.Parsed

/-!
# Names occur once

The reader of texts keeps the last entry of each name, in the order of the names. So in what it reads
no object has two entries of one name, however deep it is.

* `Entries.sorted_lastOfEach` — the last entries of each name are in ascending order.
* `Distinct` — a value in whose objects no name occurs twice.
* `distinct_of_parse?` — the value of a text is one.
-/

namespace QueryForecast.Json

/-! ## Sorted entries -/

namespace Entries

/-- Entries in ascending order of their names. -/
def Sorted (es : Entries) : Prop :=
  es.Pairwise fun e f => e.1 < f.1

variable {es : Entries} {name : String} {v : Json}

theorem Sorted.insertNew (h : Sorted es) : Sorted (Entries.insertNew name v es) := by
  induction es with
  | nil => exact List.pairwise_singleton _ _
  | cons first rest ih =>
    obtain ⟨hfirst, hrest⟩ := List.pairwise_cons.1 h
    unfold Entries.insertNew
    split
    · exact h
    · rename_i hne
      split
      · rename_i hlt
        refine List.pairwise_cons.2 ⟨List.forall_mem_cons.2 ⟨hlt, fun e he => ?_⟩, h⟩
        exact String.lt_trans hlt (hfirst e he)
      · rename_i hnlt
        have hlt : first.1 < name := by
          by_contra hge
          exact hne (String.le_antisymm (String.not_lt.1 hge) (String.not_lt.1 hnlt))
        refine List.pairwise_cons.2 ⟨fun e he => ?_, ih hrest⟩
        rcases mem_of_mem_insertNew he with rfl | he
        · exact hlt
        · exact hfirst e he

theorem sorted_lastOfEach (es : Entries) : Sorted es.lastOfEach := by
  induction es with
  | nil => exact .nil
  | cons e rest ih => exact ih.insertNew

theorem Sorted.nodup (h : Sorted es) : (es.map Prod.fst).Nodup := by
  unfold List.Nodup
  rw [List.pairwise_map]
  refine h.imp fun {e f} hlt he => ?_
  rw [he] at hlt
  exact String.lt_irrefl _ hlt

end Entries

/-! ## Values -/

/-- A value in whose objects no name occurs twice. -/
inductive Distinct : Json → Prop where
  | null : Distinct .null
  | bool (b : Bool) : Distinct (.bool b)
  | num (n : Number) : Distinct (.num n)
  | str (s : String) : Distinct (.str s)
  | arr {items : List Json} (h : ∀ v ∈ items, Distinct v) : Distinct (.arr items)
  | obj {entries : Entries} (hn : (entries.map Prod.fst).Nodup) (h : ∀ e ∈ entries, Distinct e.2) :
      Distinct (.obj entries)

namespace Parser

theorem value_distinct {limit depth : Nat} {text rest : List Char} {v : Json}
    (h : value Entries.lastOfEach limit depth text = some (v, rest)) : Distinct v := by
  refine value_keeps (P := fun _ => Distinct) rfl
    (scalar_keeps .null .bool .str fun _ => .num _) (fun _ hvs => .arr hvs) ?_ h
  intro depth es hes
  refine .obj (Entries.sorted_lastOfEach es).nodup fun e he => ?_
  exact hes e (Entries.mem_of_mem_lastOfEach he)

end Parser

/-- **In the value of a text no name occurs twice** in an object. -/
theorem distinct_of_parse? {text : String} {v : Json} (h : parse? text = some v) : Distinct v := by
  obtain ⟨rest, hv⟩ := Parser.exists_value_of_document h
  exact Parser.value_distinct hv

end QueryForecast.Json
