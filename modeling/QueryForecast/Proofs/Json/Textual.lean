import QueryForecast.Proofs.Json.Records
import QueryForecast.Proofs.Json.Texts
import QueryForecast.Proofs.Numeric.Magnitude

/-!
# What is read can be written again

A whole number that was read has 64 bits, any other number is finite, and no more brackets are open at
once than the reader has room for. The same holds of what the reader of records keeps of a text that
breaks off.

* `Textual` — a value as a text can hold it.
* `Parser.value_textual`, `Parser.outlined_textual` — by induction on the brackets that may be open.
* `textual_excerpt` — so it is for documents.
* `Textual.parts`, `Textual.asRecord_keeps`, `Textual.asList_keeps` — so are its parts, and what is
  kept in reading a field or an item from such a part is kept in reading the whole.
* `Textual.lt_of_asNat`, `Textual.isFinite_of_asFloat` — numbers that are decoded from such a value.
-/

namespace QueryForecast.Json

open Numeric

/-- **A value as a text can hold it**: its whole numbers have 64 bits, its other numbers are finite,
and no more than `depth` of its brackets are open at once. -/
inductive Textual : ℕ → Json → Prop where
  | null {depth : ℕ} : Textual depth .null
  | bool {depth : ℕ} (b : Bool) : Textual depth (.bool b)
  | whole {depth : ℕ} {n : ℤ} (h : Parser.IsWord n) : Textual depth (.num (.whole n))
  | real {depth : ℕ} {x : Float} (h : x.isFinite = true) : Textual depth (.num (.real x))
  | str {depth : ℕ} (s : String) : Textual depth (.str s)
  | arr {depth : ℕ} {items : List Json} (h : ∀ v ∈ items, Textual depth v) :
      Textual (depth + 1) (.arr items)
  | obj {depth : ℕ} {entries : Entries} (h : ∀ e ∈ entries, Textual depth e.2) :
      Textual (depth + 1) (.obj entries)

variable {depth limit : ℕ} {v : Json}

theorem Textual.legible (h : Textual depth v) : Legible depth v := by
  induction h with
  | null => exact .null
  | bool b => exact .bool b
  | whole h => exact .whole h
  | real h => exact .real _
  | str s => exact .str s
  | arr _ ih => exact .arr ih
  | obj _ ih => exact .obj ih

theorem textual_ofNat {n : Nat} (h : n < 2 ^ 64) : Textual depth (ofNat n) := by
  apply Textual.whole
  constructor <;> omega

theorem textual_ofFloat (x : Float) : Textual depth (ofFloat x) := by
  unfold ofFloat
  split
  · rename_i hx
    exact .real hx
  · exact .null

namespace Parser

variable {text rest : List Char}

/-! ## Reading -/

theorem textual_of_number? {p : NumberParts} {n : Number} (h : p.number? = some n) :
    Textual depth (.num n) := by
  unfold NumberParts.number? at h
  dsimp only at h
  split at h
  · cases h
    apply Textual.whole
    constructor <;> omega
  · split at h
    · cases h
      apply Textual.whole
      constructor <;> omega
    · split at h
      · rename_i hx
        cases h
        exact .real hx
      · cases h

theorem scalar_textual (h : scalar text = some (v, rest)) : Textual depth v :=
  scalar_keeps .null .bool .str textual_of_number? h

/-- **What is read strictly can be written again.** -/
theorem value_textual (h : value id limit depth text = some (v, rest)) : Textual depth v := by
  apply value_keeps rfl _ _ _ h
  · intro depth text v rest hs
    exact scalar_textual hs
  · intro depth vs _ hvs
    exact .arr hvs
  · intro depth es hes
    exact .obj hes

/-- As much of a record as was read can be written again, if its parts can. -/
theorem record_textual {read : Outline → Reader Json}
    (hread : ∀ outline text v rest, read outline text = some (v, rest) → Textual depth v) (limit : ℕ)
    (fields : List (String × Outline)) (text : List Char) :
    Textual (depth + 1) (record limit read fields text).1 := by
  unfold record
  split
  · apply Textual.obj
    apply bracket_keeps
    intro _ text es rest h
    unfold fieldEntry at h
    obtain ⟨⟨name, after⟩, -, h⟩ := Option.bind_eq_some_iff.1 h
    dsimp only at h
    split at h
    · obtain ⟨⟨w, after⟩, hw, h⟩ := Option.bind_eq_some_iff.1 h
      cases h
      simpa using hread _ _ _ _ hw
    · obtain ⟨after, -, h⟩ := Option.bind_eq_some_iff.1 h
      cases h
      simp
  · apply Textual.arr
    apply bracket_keeps
    intro index text xs rest h
    unfold fieldItem at h
    obtain ⟨field, -, h⟩ := Option.bind_eq_some_iff.1 h
    obtain ⟨⟨w, after⟩, hw, h⟩ := Option.bind_eq_some_iff.1 h
    cases h
    simpa using hread _ _ _ _ hw
  · split
    · rename_i hs
      exact scalar_textual hs
    · exact .null

/-- **What is read by an outline can be written again.** -/
theorem outlined_textual {outline : Outline} (h : outlined limit depth outline text = some (v, rest)) :
    Textual depth v := by
  induction depth generalizing outline text v rest with
  | zero => exact scalar_textual h
  | succ depth ih =>
    cases outline with
    | value => exact value_textual h
    | list item =>
      unfold outlined at h
      split at h
      · rename_i r _
        dsimp only at h
        split at h
        · rename_i items after hb
          cases h
          have hall : ∀ w ∈ items, Textual depth w := by
            have hk := forall_bracket_onePart (outlined limit depth item) ih limit r
            unfold onePart at hk
            rw [hb] at hk
            exact hk
          exact .arr hall
        · cases h
      · exact value_textual h
    | record fields =>
      unfold outlined at h
      split at h
      · rename_i w after hw
        cases h
        have hread : ∀ outline text v rest,
            outlined limit depth outline text = some (v, rest) → Textual depth v :=
          fun _ _ _ _ => ih
        have hr := record_textual hread limit fields text
        rw [hw] at hr
        exact hr
      · cases h

end Parser

/-- **As much of a document as was read can be written again.** -/
theorem textual_excerpt (fields : List (String × Outline)) (text : String) :
    Textual Parser.maxDepth (excerpt fields text).1 :=
  Parser.record_textual (fun _ _ _ _ => Parser.outlined_textual) _ fields _

/-! ## Decoding -/

namespace Textual

theorem mono {e : ℕ} (h : Textual depth v) (he : depth ≤ e) : Textual e v := by
  induction h generalizing e with
  | null => exact .null
  | bool b => exact .bool b
  | whole h => exact .whole h
  | real h => exact .real h
  | str s => exact .str s
  | arr _ ih =>
    obtain ⟨e, rfl⟩ : ∃ e', e = e' + 1 := ⟨e - 1, by omega⟩
    exact .arr fun w hw => ih w hw (by omega)
  | obj _ ih =>
    obtain ⟨e, rfl⟩ : ∃ e', e = e' + 1 := ⟨e - 1, by omega⟩
    exact .obj fun entry he => ih entry he (by omega)

theorem parts (h : Textual depth v) : ∀ w ∈ v.parts, Textual depth w := by
  intro w hw
  cases h with
  | arr h => exact (h w hw).mono (Nat.le_succ _)
  | obj h =>
    obtain ⟨entry, he, rfl⟩ := List.mem_map.1 hw
    exact (h entry he).mono (Nat.le_succ _)
  | _ => cases hw

/-- **What is kept in reading a field, a record keeps.** -/
theorem asRecord_keeps {α : Type} {form : RecordForm} {set : String → Json → α → Decoded α}
    {P : α → Prop} {start result : α}
    (hset : ∀ {name : String} {w : Json} {r next : α}, Textual depth w → P r →
      set name w r = .ok next → P next)
    (h : Textual depth v) (h0 : P start) (hr : asRecord form set start v = .ok result) : P result :=
  asRecord_keeps_of_parts (fun _ hw _ _ _ => hset (h.parts _ hw)) h0 hr

/-- What is kept in reading an item, all items of a list have. -/
theorem asList_keeps {α : Type} {decode : Json → Decoded α} {P : α → Prop} {as : List α}
    (hdecode : ∀ {w : Json} {a : α}, Textual depth w → decode w = .ok a → P a) (h : Textual depth v)
    (hl : asList decode v = .ok as) : ∀ a ∈ as, P a := by
  intro a ha
  obtain ⟨w, hw, hd⟩ := exists_of_mem_asList hl a ha
  exact hdecode (h.parts w hw) hd

theorem lt_of_asNat {n : ℕ} (h : Textual depth v) (hn : asNat v = .ok n) : n < 2 ^ 64 := by
  cases h with
  | @whole _ m h =>
    obtain ⟨-, hlt⟩ := h
    change (if m < 0 then Except.error DecodeFault.shape else .ok m.toNat) = _ at hn
    split at hn
    · cases hn
    · cases hn
      omega
  | _ => cases hn

theorem isFinite_of_asFloat {x : Float} (h : Textual depth v) (hx : asFloat v = .ok x) :
    x.isFinite = true := by
  cases h with
  | whole h =>
    obtain ⟨hge, hlt⟩ := h
    cases hx
    apply isFinite_ofInt
    rw [abs_le]
    constructor <;> omega
  | real h =>
    cases hx
    exact h
  | _ => cases hx

end Textual

end QueryForecast.Json
