import QueryForecast.Json.Printer
import QueryForecast.Proofs.Decimal.Digits

/-!
# Compact text is one line

* `newline_not_mem_write`, `newline_not_mem_quoted` — neither numbers nor quoted strings break a line.
* `newline_not_mem_compact` — so compact text never does.
* `exists_compact_obj_eq` — and an object is written from brace to brace.
-/

namespace QueryForecast

/-! ## Numbers -/

namespace Decimal

theorem newline_not_mem_digitsOf (n : Nat) : '\n' ∉ digitsOf n := by
  intro h
  exact absurd (isDigit_of_mem_digitsOf h) (by decide)

theorem newline_not_mem_positional {layout : Layout} {digits : List Char} {count : Int}
    (h : '\n' ∉ digits) : '\n' ∉ positional layout digits count := by
  unfold positional
  split
  · simp [h]
  · split
    · split <;> simp [h]
    · have ht : '\n' ∉ digits.take count.toNat := fun hm => h (List.mem_of_mem_take hm)
      have hd : '\n' ∉ digits.drop count.toNat := fun hm => h (List.mem_of_mem_drop hm)
      simp [ht, hd]

theorem newline_not_mem_scientific {layout : Layout} {digits : List Char} {k : Int}
    (h : '\n' ∉ digits) : '\n' ∉ scientific layout digits k := by
  have hk := newline_not_mem_digitsOf k.natAbs
  have hs : '\n' ∉ (if k < 0 then ['-'] else if layout.plus = true then ['+'] else []) := by
    split
    · decide
    · split <;> decide
  unfold scientific
  dsimp only
  cases digits with
  | nil => simp [hk, hs]
  | cons d rest =>
    rw [List.mem_cons, not_or] at h
    cases rest with
    | nil => simp [hk, hs, h.1]
    | cons e rest =>
      have hr := h.2
      rw [List.mem_cons, not_or] at hr
      simp [hk, hs, h.1, hr.1, hr.2]

theorem newline_not_mem_write (layout : Layout) (x : Float) : '\n' ∉ layout.write x := by
  have hm : ∀ n, '\n' ∉ layout.magnitude n := by
    intro n
    unfold Layout.magnitude
    split
    · split <;> decide
    · dsimp only
      split
      · exact newline_not_mem_positional (newline_not_mem_digitsOf _)
      · exact newline_not_mem_scientific (newline_not_mem_digitsOf _)
  unfold Layout.write
  split
  · decide
  · dsimp only
    split
    · split <;> simp [hm]
    · split <;> simp [hm]

end Decimal

namespace Json

open Decimal

/-! ## Strings -/

theorem not_mem_ite {α : Type} {a : α} {p : Prop} [Decidable p] {xs ys : List α}
    (hx : p → a ∉ xs) (hy : ¬ p → a ∉ ys) : a ∉ if p then xs else ys := by
  split
  · rename_i h
    exact hx h
  · rename_i h
    exact hy h

theorem newline_not_mem_escaped (c : Char) : '\n' ∉ escaped c := by
  have hx : ∀ n, n < 16 → '\n' ≠ hexDigit n := by decide
  unfold escaped
  refine not_mem_ite (fun _ => by decide) fun _ => ?_
  refine not_mem_ite (fun _ => by decide) fun _ => ?_
  refine not_mem_ite (fun _ => by decide) fun hn => ?_
  refine not_mem_ite (fun _ => by decide) fun _ => ?_
  refine not_mem_ite (fun _ => by decide) fun _ => ?_
  refine not_mem_ite (fun _ => by decide) fun _ => ?_
  refine not_mem_ite (fun _ => by decide) fun _ => ?_
  refine not_mem_ite (fun hc => ?_) fun _ => ?_
  · have h1 := hx (c.toNat / 16) (by omega)
    have h2 := hx (c.toNat % 16) (by omega)
    simp [h1, h2]
  · intro hm
    exact hn (List.mem_singleton.1 hm).symm

theorem newline_not_mem_quoted (s : String) : '\n' ∉ quoted s := by
  unfold quoted
  simp [newline_not_mem_escaped]

/-! ## Values -/

theorem newline_not_mem_scalarText (v : Json) : '\n' ∉ scalarText v := by
  cases v with
  | null => decide
  | bool b => cases b <;> decide
  | num n =>
    cases n with
    | whole n =>
      have hd := newline_not_mem_digitsOf n.natAbs
      show '\n' ∉ if n < 0 then '-' :: digitsOf n.natAbs else digitsOf n.natAbs
      split
      · simp [hd]
      · exact hd
    | real x =>
      show '\n' ∉ if x.isFinite then Layout.record.write x else "null".toList
      split
      · exact newline_not_mem_write _ _
      · decide
  | str s => exact newline_not_mem_quoted s
  | arr items =>
    show '\n' ∉ ['[', ']']
    decide
  | obj entries =>
    show '\n' ∉ ['{', '}']
    decide

mutual

theorem newline_not_mem_compactTo {rest : List Char} (h : '\n' ∉ rest) (v : Json) :
    '\n' ∉ compactTo rest v := by
  cases v with
  | arr items =>
    have hi := newline_not_mem_compactItems (show '\n' ∉ ']' :: rest by simp [h]) items
    simp [compactTo, hi]
  | obj entries =>
    have he := newline_not_mem_compactEntries (show '\n' ∉ '}' :: rest by simp [h]) entries
    simp [compactTo, he]
  | _ =>
    unfold compactTo
    rw [List.mem_append, not_or]
    exact ⟨newline_not_mem_scalarText _, h⟩

theorem newline_not_mem_compactItems {rest : List Char} (h : '\n' ∉ rest) (vs : List Json) :
    '\n' ∉ compactItems rest vs := by
  match vs with
  | [] => exact h
  | [v] => exact newline_not_mem_compactTo h v
  | v :: w :: vs =>
    have hi := newline_not_mem_compactItems h (w :: vs)
    exact newline_not_mem_compactTo (by simp [hi]) v

theorem newline_not_mem_compactEntries {rest : List Char} (h : '\n' ∉ rest)
    (es : List (String × Json)) : '\n' ∉ compactEntries rest es := by
  match es with
  | [] => exact h
  | [(name, v)] =>
    have hv := newline_not_mem_compactTo h v
    simp [compactEntries, hv, newline_not_mem_quoted]
  | (name, v) :: e :: es =>
    have he := newline_not_mem_compactEntries h (e :: es)
    have hc : '\n' ∉ ',' :: compactEntries rest (e :: es) := by simp [he]
    have hv := newline_not_mem_compactTo hc v
    simp [compactEntries, hv, newline_not_mem_quoted]

end

/-- **Compact text has no line break.** -/
theorem newline_not_mem_compact (v : Json) : '\n' ∉ v.compact.toList := by
  unfold compact
  rw [String.toList_ofList]
  exact newline_not_mem_compactTo (by simp) v

mutual

/-- What follows a value follows its text. -/
theorem compactTo_append (rest more : List Char) (v : Json) :
    compactTo (rest ++ more) v = compactTo rest v ++ more := by
  cases v with
  | arr vs =>
    have hvs := compactItems_append (']' :: rest) more vs
    rw [List.cons_append] at hvs
    simp only [compactTo, hvs, List.cons_append]
  | obj es =>
    have hes := compactEntries_append ('}' :: rest) more es
    rw [List.cons_append] at hes
    simp only [compactTo, hes, List.cons_append]
  | null => rfl
  | bool b => cases b <;> rfl
  | num n => exact (List.append_assoc _ _ _).symm
  | str s => exact (List.append_assoc _ _ _).symm

theorem compactItems_append (rest more : List Char) (vs : List Json) :
    compactItems (rest ++ more) vs = compactItems rest vs ++ more := by
  cases vs with
  | nil => rfl
  | cons v vs =>
    cases vs with
    | nil => exact compactTo_append rest more v
    | cons w vs =>
      have hvs := compactItems_append rest more (w :: vs)
      have hv := compactTo_append (',' :: compactItems rest (w :: vs)) more v
      rw [List.cons_append] at hv
      simp only [compactItems, hvs, hv]

theorem compactEntries_append (rest more : List Char) (es : List (String × Json)) :
    compactEntries (rest ++ more) es = compactEntries rest es ++ more := by
  cases es with
  | nil => rfl
  | cons e es =>
    obtain ⟨name, v⟩ := e
    cases es with
    | nil =>
      have hv := compactTo_append rest more v
      simp only [compactEntries, hv, List.append_assoc, List.cons_append]
    | cons f es =>
      have hes := compactEntries_append rest more (f :: es)
      have hv := compactTo_append (',' :: compactEntries rest (f :: es)) more v
      rw [List.cons_append] at hv
      simp only [compactEntries, hes, hv, List.append_assoc, List.cons_append]

end

theorem compactTo_eq_append (rest : List Char) (v : Json) :
    compactTo rest v = compactTo [] v ++ rest :=
  compactTo_append [] rest v

/-- **An object is written from brace to brace.** -/
theorem exists_compact_obj_eq (entries : Entries) :
    ∃ cs, (obj entries).compact.toList = '{' :: cs ++ ['}'] := by
  refine ⟨compactEntries [] entries, ?_⟩
  unfold compact
  rw [String.toList_ofList, compactTo, List.cons_append, ← compactEntries_append, List.nil_append]

end Json

end QueryForecast
