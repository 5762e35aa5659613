import Mathlib.Data.Nat.Notation
import QueryForecast.Json.Outline

/-!
# Reading what is inside brackets

The strict reader fails where a text breaks off, and the reader of records keeps what it has until
then. Up to that they read the parts of a bracket alike.

* `items_eq_gather`, `entries_eq_gather` — the loops of the strict reader, as gathering all parts.
* `gather_keeps`, `bracket_keeps` — what every part has, all gathered parts have.
* `value_arr`, `value_obj` — a value that opens a bracket, in terms of its parts.
* `scalar_keeps`, `value_keeps` — what scalars have and brackets pass on, every value has that is read.
* `exists_value_of_document` — a document is a value, and what may follow it.
-/

namespace QueryForecast.Json.Parser

variable {α : Type} {limit depth bound : ℕ} {text rest : List Char}

/-- A result that is there as a whole. -/
def whole? (r : α × Option (List Char)) : Option (α × List Char) :=
  r.2.map (r.1, ·)

/-- One item as a part of an array. -/
def onePart (item : Reader Json) : Reader (List Json) := fun text => do
  let (v, rest) ← item text
  return ([v], rest)

/-- One entry as a part of an object. -/
def oneEntry (item : Reader Json) : Reader Entries := fun text => do
  let (name, rest) ← entryName text
  let (v, rest) ← item rest
  return ([(name, v)], rest)

/-! ## Loops -/

theorem onePart_eq_map (item : Reader Json) (text : List Char) :
    onePart item text = (item text).map fun found => ([found.1], found.2) := by
  unfold onePart
  cases item text <;> rfl

theorem oneEntry_eq_bind (item : Reader Json) (text : List Char) :
    oneEntry item text = (entryName text).bind fun named =>
      (item named.2).map fun found => ([(named.1, found.1)], found.2) := by
  unfold oneEntry
  cases entryName text with
  | none => rfl
  | some named =>
    show (item named.2 >>= _) = (item named.2).map _
    cases item named.2 <;> rfl

theorem items_eq_gather (item : Reader Json) (limit index : ℕ) (text : List Char) :
    items item limit text = whole? (gather (fun _ => onePart item) ']' limit index text) := by
  induction limit generalizing index text with
  | zero => rfl
  | succ limit ih =>
    unfold items gather
    rw [onePart_eq_map]
    cases item text with
    | none => rfl
    | some found =>
      simp only [Option.bind_eq_bind, Option.bind_some, Option.map_some]
      cases skipBlank found.2 with
      | nil => rfl
      | cons c rest =>
        by_cases hcomma : c = ','
        · simp only [hcomma, if_true]
          rw [ih (index + 1)]
          obtain ⟨others, after⟩ := gather (fun _ => onePart item) ']' limit (index + 1) rest
          cases after <;> rfl
        · by_cases hclose : c = ']'
          · rw [hclose]
            rfl
          · simp [hcomma, hclose, whole?]

theorem entries_eq_gather (item : Reader Json) (limit index : ℕ) (text : List Char) :
    entries item limit text = whole? (gather (fun _ => oneEntry item) '}' limit index text) := by
  induction limit generalizing index text with
  | zero => rfl
  | succ limit ih =>
    unfold entries gather
    rw [oneEntry_eq_bind]
    cases entryName text with
    | none => rfl
    | some named =>
      simp only [Option.bind_eq_bind, Option.bind_some]
      cases item named.2 with
      | none => rfl
      | some found =>
        simp only [Option.bind_some, Option.map_some]
        cases skipBlank found.2 with
        | nil => rfl
        | cons c rest =>
          by_cases hcomma : c = ','
          · simp only [hcomma, if_true]
            rw [ih (index + 1)]
            obtain ⟨others, after⟩ := gather (fun _ => oneEntry item) '}' limit (index + 1) rest
            cases after <;> rfl
          · by_cases hclose : c = '}'
            · rw [hclose]
              rfl
            · simp [hcomma, hclose, whole?]

/-- **What every part has, all gathered parts have**, also where the text breaks off. -/
theorem gather_keeps {part : ℕ → Reader (List α)} {closing : Char} {P : α → Prop} {index : ℕ}
    (hpart : ∀ i text xs rest, part i text = some (xs, rest) → ∀ x ∈ xs, P x) :
    ∀ x ∈ (gather part closing limit index text).1, P x := by
  induction limit generalizing index text with
  | zero =>
    intro x hx
    cases hx
  | succ limit ih =>
    intro x hx
    unfold gather at hx
    split at hx
    · cases hx
    · rename_i found rest hf
      have hfound := hpart _ _ _ _ hf
      split at hx
      · exact hfound x hx
      · dsimp only at hx
        split at hx
        · rcases List.mem_append.1 hx with hx | hx
          · exact hfound x hx
          · exact ih x hx
        · exact hfound x hx

theorem bracket_keeps {part : ℕ → Reader (List α)} {closing : Char} {P : α → Prop}
    (hpart : ∀ i text xs rest, part i text = some (xs, rest) → ∀ x ∈ xs, P x) :
    ∀ x ∈ (bracket limit part closing text).1, P x := by
  intro x hx
  unfold bracket at hx
  split at hx
  · cases hx
  · split at hx
    · cases hx
    · exact gather_keeps hpart x hx

theorem forall_bracket_onePart (item : Reader Json) {P : Json → Prop}
    (hitem : ∀ {text v rest}, item text = some (v, rest) → P v) (limit : ℕ) (text : List Char) :
    ∀ v ∈ (bracket limit (fun _ => onePart item) ']' text).1, P v := by
  apply bracket_keeps
  intro _ text xs rest h
  rw [onePart_eq_map] at h
  obtain ⟨found, hf, he⟩ := Option.map_eq_some_iff.1 h
  cases he
  simpa using hitem hf

theorem forall_bracket_oneEntry (item : Reader Json) {P : Json → Prop}
    (hitem : ∀ {text v rest}, item text = some (v, rest) → P v) (limit : ℕ) (text : List Char) :
    ∀ e ∈ (bracket limit (fun _ => oneEntry item) '}' text).1, P e.2 := by
  refine bracket_keeps (P := fun e : String × Json => P e.2) ?_
  intro _ text es rest h
  rw [oneEntry_eq_bind] at h
  obtain ⟨named, -, h⟩ := Option.bind_eq_some_iff.1 h
  obtain ⟨found, hf, he⟩ := Option.map_eq_some_iff.1 h
  cases he
  simpa using hitem hf

theorem of_whole?_eq_some {α : Type} {r : α × Option (List Char)} {x : α}
    (h : whole? r = some (x, rest)) : r = (x, some rest) := by
  obtain ⟨y, after⟩ := r
  obtain ⟨after', rfl, he⟩ := Option.map_eq_some_iff.1 h
  cases he
  rfl

/-- As many items are gathered as the limit allows, at most. -/
theorem length_gather_onePart_le (item : Reader Json) (closing : Char) (limit index : ℕ)
    (text : List Char) :
    (gather (fun _ => onePart item) closing limit index text).1.length ≤ limit := by
  induction limit generalizing index text with
  | zero => exact Nat.le_refl 0
  | succ limit ih =>
    unfold gather
    rw [onePart_eq_map]
    cases item text with
    | none => exact Nat.zero_le _
    | some found =>
      simp only [Option.map_some]
      split
      · simp
      · split
        · have hothers := ih (index + 1)
          simp [hothers]
        · simp

theorem length_bracket_onePart_le (item : Reader Json) (closing : Char) (limit : ℕ)
    (text : List Char) : (bracket limit (fun _ => onePart item) closing text).1.length ≤ limit := by
  unfold bracket
  split
  · exact Nat.zero_le _
  · split
    · exact Nat.zero_le _
    · exact length_gather_onePart_le item closing limit 0 _

/-! ## Values -/

variable {arrange : Entries → Entries}

theorem value_nil : value arrange limit depth [] = none := by
  cases depth <;> rfl

theorem items_nil : items (value arrange limit depth) bound [] = none := by
  cases bound with
  | zero => rfl
  | succ bound =>
    unfold items
    rw [value_nil]
    rfl

theorem entries_nil (item : Reader Json) : entries item bound [] = none := by
  cases bound <;> rfl

/-- **A value that opens an array** is made of the parts of its bracket. -/
theorem value_arr (h : skipBlank text = '[' :: rest) :
    value arrange limit (depth + 1) text =
      (whole? (bracket limit (fun _ => onePart (value arrange limit depth)) ']' rest)).map
        fun (xs, rest) => (.arr xs, rest) := by
  unfold value bracket
  rw [h]
  simp only
  cases hr : skipBlank rest with
  | nil =>
    simp only
    rw [items_nil]
    rfl
  | cons c rest =>
    by_cases hclose : c = ']'
    · subst hclose
      rfl
    · simp only [hclose, if_false]
      rw [← items_eq_gather]
      split
      · rename_i he
        exact absurd (List.cons.inj he).1 hclose
      · rfl

/-- **A value that opens an object** is made of the parts of its bracket. -/
theorem value_obj (harrange : arrange [] = []) (h : skipBlank text = '{' :: rest) :
    value arrange limit (depth + 1) text =
      (whole? (bracket limit (fun _ => oneEntry (value arrange limit depth)) '}' rest)).map
        fun (es, rest) => (.obj (arrange es), rest) := by
  unfold value bracket
  rw [h]
  simp only
  cases hr : skipBlank rest with
  | nil =>
    simp only
    rw [entries_nil]
    rfl
  | cons c rest =>
    by_cases hclose : c = '}'
    · subst hclose
      show some (Json.obj [], rest) = some (.obj (arrange []), rest)
      rw [harrange]
    · simp only [hclose, if_false]
      rw [← entries_eq_gather]
      split
      · rename_i he
        exact absurd (List.cons.inj he).1 hclose
      · rfl

/-- A value that opens no bracket is a scalar. -/
theorem value_of_not_bracket (harr : ∀ r, skipBlank text ≠ '[' :: r)
    (hobj : ∀ r, skipBlank text ≠ '{' :: r) :
    value arrange limit depth text = scalar (skipBlank text) := by
  cases depth with
  | zero => rfl
  | succ depth =>
    unfold value
    split
    · rename_i he
      exact absurd he (harr _)
    · rename_i he
      exact absurd he (hobj _)
    · rfl

/-- What `null`, truth values and texts have, and numbers that have a reading, every scalar has that is
read. -/
theorem scalar_keeps {P : Json → Prop} (hnull : P .null) (hbool : ∀ b, P (.bool b))
    (hstr : ∀ s, P (.str s))
    (hnum : ∀ {p : NumberParts} {n : Number}, p.number? = some n → P (.num n))
    {v : Json} (h : scalar text = some (v, rest)) : P v := by
  unfold scalar at h
  split at h
  · cases h
    exact hnull
  · cases h
    exact hbool true
  · cases h
    exact hbool false
  · obtain ⟨⟨s, after⟩, -, he⟩ := Option.map_eq_some_iff.1 h
    cases he
    exact hstr s
  · obtain ⟨⟨n, after⟩, hn, he⟩ := Option.map_eq_some_iff.1 h
    cases he
    obtain ⟨⟨parts, after⟩, -, hn⟩ := Option.bind_eq_some_iff.1 hn
    obtain ⟨m, hm, hn⟩ := Option.bind_eq_some_iff.1 hn
    cases hn
    exact hnum hm

/-- **What scalars have and brackets pass on, every value has that is read**: by induction on the
brackets that may be open at once. -/
theorem value_keeps {P : ℕ → Json → Prop} (harrange : arrange [] = [])
    (hscalar : ∀ {depth : ℕ} {text : List Char} {v : Json} {rest : List Char},
      scalar text = some (v, rest) → P depth v)
    (harr : ∀ {depth : ℕ} {vs : List Json}, vs.length ≤ limit → (∀ v ∈ vs, P depth v) →
      P (depth + 1) (.arr vs))
    (hobj : ∀ {depth : ℕ} {es : Entries}, (∀ e ∈ es, P depth e.2) → P (depth + 1) (.obj (arrange es)))
    {v : Json} (h : value arrange limit depth text = some (v, rest)) : P depth v := by
  induction depth generalizing text v rest with
  | zero => exact hscalar h
  | succ depth ih =>
    by_cases hopen : ∃ r, skipBlank text = '[' :: r
    · obtain ⟨r, hr⟩ := hopen
      rw [value_arr hr] at h
      obtain ⟨⟨vs, after⟩, hvs, he⟩ := Option.map_eq_some_iff.1 h
      cases he
      have hlength := length_bracket_onePart_le (value arrange limit depth) ']' limit r
      have hall := forall_bracket_onePart (value arrange limit depth) ih limit r
      rw [of_whole?_eq_some hvs] at hlength hall
      exact harr hlength hall
    · by_cases hopen' : ∃ r, skipBlank text = '{' :: r
      · obtain ⟨r, hr⟩ := hopen'
        rw [value_obj harrange hr] at h
        obtain ⟨⟨es, after⟩, hes, he⟩ := Option.map_eq_some_iff.1 h
        cases he
        have hall := forall_bracket_oneEntry (value arrange limit depth) ih limit r
        rw [of_whole?_eq_some hes] at hall
        exact hobj hall
      · rw [value_of_not_bracket (fun r hr => hopen ⟨r, hr⟩) (fun r hr => hopen' ⟨r, hr⟩)] at h
        exact hscalar h

theorem exists_value_of_document {v : Json} (h : document arrange text = some v) :
    ∃ rest, value arrange text.length maxDepth text = some (v, rest) := by
  unfold document at h
  split at h
  · rename_i w rest hw
    split at h
    · cases h
      exact ⟨rest, hw⟩
    · cases h
  · cases h

end QueryForecast.Json.Parser
