import QueryForecast.Proofs.Json.Brackets
import QueryForecast.Proofs.Numeric.Magnitude

/-!
# What JSON text can hold

A text has no room for a number past the range of doubles, and none for an array with more items
than the text has characters. Decoders keep both properties, so that nothing read from a log is
infinite, undefined or too long to be counted.

* `Tame` — a value with finite numbers and arrays of bounded length.
* `Parser.scalar_tame`, `Parser.value_tame` — a value that is read is tame.
* `tame_of_parse?` — so is the value of a whole text.
-/

namespace QueryForecast.Json

open Numeric

/-- A value whose numbers are finite and whose arrays have at most `limit` items. -/
inductive Tame (limit : Nat) : Json → Prop where
  | null : Tame limit .null
  | bool (b : Bool) : Tame limit (.bool b)
  | num {n : Number} (h : n.toFloat.isFinite = true) : Tame limit (.num n)
  | str (s : String) : Tame limit (.str s)
  | arr {items : List Json} (hl : items.length ≤ limit) (h : ∀ v ∈ items, Tame limit v) :
      Tame limit (.arr items)
  | obj {entries : Entries} (h : ∀ e ∈ entries, Tame limit e.2) : Tame limit (.obj entries)

/-! ## Sorting entries -/

theorem Entries.mem_of_mem_insertNew {name : String} {v : Json} {es : Entries} {e : String × Json}
    (h : e ∈ insertNew name v es) : e = (name, v) ∨ e ∈ es := by
  induction es with
  | nil => exact .inl (List.mem_singleton.1 h)
  | cons first rest ih =>
    unfold insertNew at h
    split at h
    · exact .inr h
    · split at h
      · exact List.mem_cons.1 h
      · rcases List.mem_cons.1 h with rfl | h
        · exact .inr List.mem_cons_self
        · exact (ih h).imp_right (List.mem_cons_of_mem _)

/-- The last entries of the names are among the entries. -/
theorem Entries.mem_of_mem_lastOfEach {es : Entries} {e : String × Json}
    (h : e ∈ lastOfEach es) : e ∈ es := by
  induction es with
  | nil => cases h
  | cons first rest ih =>
    rcases mem_of_mem_insertNew h with rfl | h
    · exact List.mem_cons_self
    · exact List.mem_cons_of_mem _ (ih h)

namespace Parser

variable {limit : Nat} {text rest : List Char}

/-! ## Numbers -/

/-- A numeral past the range of doubles has no reading. -/
theorem isFinite_of_number? {p : NumberParts} {n : Number} (h : p.number? = some n) :
    n.toFloat.isFinite = true := by
  unfold NumberParts.number? at h
  dsimp only at h
  split at h
  · rename_i hw
    cases h
    apply isFinite_ofInt
    rw [abs_of_nonneg (by omega)]
    omega
  · split at h
    · rename_i hw
      cases h
      apply isFinite_ofInt
      rw [abs_neg, abs_of_nonneg (by omega)]
      omega
    · split at h
      · rename_i hf
        cases h
        exact hf
      · cases h

/-! ## Values -/

theorem scalar_tame {v : Json} (h : scalar text = some (v, rest)) : Tame limit v :=
  scalar_keeps .null .bool .str (fun hn => .num (isFinite_of_number? hn)) h

/-- **A value that is read is tame.** -/
theorem value_tame {depth : Nat} {text rest : List Char} {v : Json}
    (h : value Entries.lastOfEach limit depth text = some (v, rest)) : Tame limit v := by
  refine value_keeps (P := fun _ => Tame limit) rfl scalar_tame ?_ ?_ h
  · intro depth vs hlength hvs
    exact .arr hlength hvs
  · intro depth es hes
    apply Tame.obj
    intro e he
    exact hes e (Entries.mem_of_mem_lastOfEach he)

end Parser

/-- **The value of a text is tame**: its numbers are finite, and its arrays no longer than the
text. -/
theorem tame_of_parse? {text : String} {v : Json} (h : parse? text = some v) :
    Tame text.toList.length v := by
  obtain ⟨rest, hv⟩ := Parser.exists_value_of_document h
  exact Parser.value_tame hv

end QueryForecast.Json
