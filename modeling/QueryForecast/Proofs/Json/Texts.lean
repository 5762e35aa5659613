import QueryForecast.Proofs.Json.Joined
import QueryForecast.Proofs.Json.OneLine
import QueryForecast.Proofs.Json.Reparsing

/-!
# Printed values are read back

* `stringTail_escaped`, `stringTail_quoted` — strings.
* `value_compactTo` — a value is read from its text, up to what ends it.
* `parse?_compact_eq` — so the text of a value is parsed as what is left of the value.
-/

namespace QueryForecast.Json

open Decimal Numeric

namespace Parser

/-! ## Strings -/

theorem hexDigit?_hexDigit : ∀ n < 16, hexDigit? (hexDigit n) = some n := by
  decide

/-- An escape of one letter is read as what it stands for. -/
theorem stringTail_shortEscape {e c : Char} (h : shortEscape? e = some c) (done rest : List Char) :
    stringTail done ('\\' :: e :: rest) = stringTail (c :: done) rest := by
  have hu : e ≠ 'u' := by
    rintro rfl
    cases h
  rw [stringTail]
  · rw [h]
  · exact fun _ _ _ _ _ he _ => hu he

/-- A control character is written by its number. -/
theorem stringTail_hexEscape {c : Char} (h : c.toNat < 0x20) (done rest : List Char) :
    stringTail done ('\\' :: 'u' :: '0' :: '0' :: hexDigit (c.toNat / 16) :: hexDigit (c.toNat % 16) ::
      rest) = stringTail (c :: done) rest := by
  have hunit : hexUnit? '0' '0' (hexDigit (c.toNat / 16)) (hexDigit (c.toNat % 16)) =
      some c.toNat := by
    unfold hexUnit?
    rw [hexDigit?_hexDigit _ (by omega), hexDigit?_hexDigit _ (by omega)]
    show some (((0 * 16 + 0) * 16 + c.toNat / 16) * 16 + c.toNat % 16) = _
    congr 1
    omega
  have hlow : ¬ isLowSurrogate c.toNat = true := by
    unfold isLowSurrogate
    simp
    omega
  have hhigh : ¬ isHighSurrogate c.toNat = true := by
    unfold isHighSurrogate
    simp
    omega
  rw [stringTail]
  simp only [hunit]
  rw [if_neg hlow, if_neg hhigh, Char.ofNat_toNat]

theorem stringTail_plain {c : Char} (hquote : c ≠ '"') (hbackslash : c ≠ '\\')
    (hcontrol : ¬ c.toNat < 0x20) (done rest : List Char) :
    stringTail done (c :: rest) = stringTail (c :: done) rest := by
  rw [stringTail.eq_def]
  split
  · rename_i he
    exact absurd (List.cons.inj he).1 hquote
  · rename_i he
    exact absurd (List.cons.inj he).1 hbackslash
  · rename_i he
    exact absurd (List.cons.inj he).1 hbackslash
  · rename_i he
    obtain ⟨rfl, rfl⟩ := List.cons.inj he
    exact if_neg fun h => h.elim hbackslash hcontrol
  · rename_i he
    cases he

/-- **An escaped character is read as the character.** -/
theorem stringTail_escaped (done : List Char) (c : Char) (rest : List Char) :
    stringTail done (escaped c ++ rest) = stringTail (c :: done) rest := by
  unfold escaped
  split
  · subst_vars
    exact stringTail_shortEscape rfl done rest
  split
  · subst_vars
    exact stringTail_shortEscape rfl done rest
  split
  · subst_vars
    exact stringTail_shortEscape rfl done rest
  split
  · subst_vars
    exact stringTail_shortEscape rfl done rest
  split
  · subst_vars
    exact stringTail_shortEscape rfl done rest
  split
  · subst_vars
    exact stringTail_shortEscape rfl done rest
  split
  · subst_vars
    exact stringTail_shortEscape rfl done rest
  split
  · rename_i h
    exact stringTail_hexEscape h done rest
  · rename_i hquote hbackslash _ _ _ _ _ hcontrol
    exact stringTail_plain hquote hbackslash hcontrol done rest

/-- **A quoted string is read as the string.** -/
theorem stringTail_quoted (done cs rest : List Char) :
    stringTail done (cs.flatMap escaped ++ '"' :: rest) =
      some (String.ofList (done.reverse ++ cs), rest) := by
  induction cs generalizing done with
  | nil => simp [stringTail]
  | cons c cs ih =>
    rw [List.flatMap_cons, List.append_assoc, stringTail_escaped, ih]
    simp

theorem stringTail_string (s : String) (rest : List Char) :
    stringTail [] (s.toList.flatMap escaped ++ '"' :: rest) = some (s, rest) := by
  rw [stringTail_quoted]
  simp

theorem quoted_append (s : String) (rest : List Char) :
    quoted s ++ rest = '"' :: (s.toList.flatMap escaped ++ '"' :: rest) := by
  simp [quoted]

/-! ## Scalars -/

variable {arrange : Entries → Entries} {limit depth : ℕ} {text rest : List Char}

/-- A text that opens neither an array nor an object is read as a scalar. -/
theorem value_eq_scalar {c : Char} (hb : isBlank c = false) (harr : c ≠ '[') (hobj : c ≠ '{')
    (text : List Char) : value arrange limit depth (c :: text) = scalar (c :: text) := by
  cases depth with
  | zero => rw [value, skipBlank_cons hb]
  | succ depth =>
    unfold value
    rw [skipBlank_cons hb]
    split
    · rename_i he
      injection he with he
      exact absurd he harr
    · rename_i he
      injection he with he
      exact absurd he hobj
    · rfl

theorem number_eq_none {c : Char} (hm : c ≠ '-') (hd : c.isDigit = false) (text : List Char) :
    number (c :: text) = none := by
  have htake : takeDigits (c :: text) = ([], c :: text) :=
    takeDigits_append (fun c (hc : c ∈ []) => (nomatch hc)) (noDigitAhead_cons hd)
  have hminus : ∀ body, c :: text ≠ '-' :: body := fun body h => hm (List.cons.inj h).1
  have hparts : numberParts (c :: text) = none := by
    unfold numberParts
    -- By `hminus`, there is no sign.
    simp only
    rw [htake]
    rfl
  unfold number
  rw [hparts]
  rfl

/-- A number starts with a minus sign or a digit. -/
theorem exists_cons_of_number {n : Number} (h : number text = some (n, rest)) :
    ∃ c cs, text = c :: cs ∧ (c = '-' ∨ c.isDigit = true) := by
  cases text with
  | nil => cases h
  | cons c cs =>
    refine ⟨c, cs, rfl, ?_⟩
    by_contra hc
    rw [not_or, Bool.not_eq_true] at hc
    rw [number_eq_none hc.1 hc.2] at h
    cases h

theorem ne_of_opens_number {c d : Char} (h : c = '-' ∨ c.isDigit = true) (hm : d ≠ '-')
    (hd : d.isDigit = false) : c ≠ d := by
  rintro rfl
  rcases h with h | h
  · exact hm h
  · rw [hd] at h
    cases h

theorem not_blank_of_opens_number {c : Char} (h : c = '-' ∨ c.isDigit = true) :
    isBlank c = false := by
  have h1 := ne_of_opens_number (d := ' ') h (by decide) (by decide)
  have h2 := ne_of_opens_number (d := '\n') h (by decide) (by decide)
  have h3 := ne_of_opens_number (d := '\t') h (by decide) (by decide)
  have h4 := ne_of_opens_number (d := '\r') h (by decide) (by decide)
  simp [isBlank, h1, h2, h3, h4]

theorem scalar_of_number {n : Number} (h : number text = some (n, rest)) :
    scalar text = some (.num n, rest) := by
  obtain ⟨c, cs, rfl, hc⟩ := exists_cons_of_number h
  unfold scalar
  split
  · rename_i he
    exact absurd (List.cons.inj he).1 (ne_of_opens_number hc (by decide) (by decide))
  · rename_i he
    exact absurd (List.cons.inj he).1 (ne_of_opens_number hc (by decide) (by decide))
  · rename_i he
    exact absurd (List.cons.inj he).1 (ne_of_opens_number hc (by decide) (by decide))
  · rename_i he
    exact absurd (List.cons.inj he).1 (ne_of_opens_number hc (by decide) (by decide))
  · rw [h]
    rfl

/-- **A number is read wherever a value may stand.** -/
theorem value_of_number {n : Number} (h : number text = some (n, rest)) :
    value arrange limit depth text = some (.num n, rest) := by
  obtain ⟨c, cs, rfl, hc⟩ := exists_cons_of_number h
  rw [value_eq_scalar (not_blank_of_opens_number hc)
    (ne_of_opens_number hc (by decide) (by decide)) (ne_of_opens_number hc (by decide) (by decide))]
  exact scalar_of_number h

theorem value_quoted (s : String) (rest : List Char) :
    value arrange limit depth (quoted s ++ rest) = some (.str s, rest) := by
  rw [quoted_append, value_eq_scalar (by decide) (by decide) (by decide)]
  show (stringTail [] _).map _ = _
  rw [stringTail_string]
  rfl

end Parser

/-! ## Values -/

/-- A value that can be read back: its whole numbers have 64 bits, and no more than `depth` of its
brackets are open at once. -/
inductive Legible : ℕ → Json → Prop where
  | null {depth : ℕ} : Legible depth .null
  | bool {depth : ℕ} (b : Bool) : Legible depth (.bool b)
  | whole {depth : ℕ} {n : ℤ} (h : Parser.IsWord n) : Legible depth (.num (.whole n))
  | real {depth : ℕ} (x : Float) : Legible depth (.num (.real x))
  | str {depth : ℕ} (s : String) : Legible depth (.str s)
  | arr {depth : ℕ} {items : List Json} (h : ∀ v ∈ items, Legible depth v) :
      Legible (depth + 1) (.arr items)
  | obj {depth : ℕ} {entries : Entries} (h : ∀ e ∈ entries, Legible depth e.2) :
      Legible (depth + 1) (.obj entries)

theorem compactTo_num (n : Number) (rest : List Char) :
    compactTo rest (.num n) = numberText n ++ rest :=
  rfl

namespace Parser

variable {limit depth : ℕ} {v : Json} {rest : List Char}

/-- **A scalar is read from its text.** -/
theorem value_scalarText (arrange : Entries → Entries) (h : Legible depth v)
    (hv : ∀ vs, v ≠ .arr vs) (hv' : ∀ es, v ≠ .obj es) (hr : Delimited rest) :
    value arrange limit depth (compactTo rest v) = some (reparsed v, rest) := by
  cases h with
  | null =>
    show value _ _ _ ('n' :: _) = _
    rw [value_eq_scalar (by decide) (by decide) (by decide)]
    rfl
  | bool b =>
    cases b with
    | true =>
      show value _ _ _ ('t' :: _) = _
      rw [value_eq_scalar (by decide) (by decide) (by decide)]
      rfl
    | false =>
      show value _ _ _ ('f' :: _) = _
      rw [value_eq_scalar (by decide) (by decide) (by decide)]
      rfl
  | whole hn => exact value_of_number (number_whole hn hr)
  | real x =>
    by_cases hx : x.isFinite = true
    · have ht : compactTo rest (.num (.real x)) = Layout.record.write x ++ rest := by
        rw [compactTo_num, numberText, if_pos hx]
      have hv : reparsed (.num (.real x)) = .num (.real x) := if_pos hx
      rw [ht, hv]
      exact value_of_number (number_write hx hr)
    · have ht : compactTo rest (.num (.real x)) = "null".toList ++ rest := by
        rw [compactTo_num, numberText, if_neg hx]
      have hv : reparsed (.num (.real x)) = .null := if_neg hx
      rw [ht, hv]
      show value _ _ _ ('n' :: _) = _
      rw [value_eq_scalar (by decide) (by decide) (by decide)]
      rfl
  | str s => exact value_quoted s rest
  | arr h => exact absurd rfl (hv _)
  | obj h => exact absurd rfl (hv' _)

theorem opens_of_number {n : Number} {text : List Char} (h : number (text ++ []) = some (n, [])) :
    Opens ']' text := by
  rw [List.append_nil] at h
  obtain ⟨c, cs, he, hc⟩ := exists_cons_of_number h
  exact ⟨c, cs, he, not_blank_of_opens_number hc, ne_of_opens_number hc (by decide) (by decide)⟩

/-- The text of a value opens with what neither is blank nor closes a bracket. -/
theorem opens_compactTo (h : Legible depth v) (rest : List Char) : Opens ']' (compactTo rest v) := by
  cases h with
  | null => exact ⟨_, _, rfl, by decide, by decide⟩
  | bool b =>
    cases b with
    | true => exact ⟨_, _, rfl, by decide, by decide⟩
    | false => exact ⟨_, _, rfl, by decide, by decide⟩
  | whole hn => exact (opens_of_number (number_whole hn delimited_nil)).append rest
  | real x =>
    rw [compactTo_num, numberText]
    by_cases hx : x.isFinite = true
    · rw [if_pos hx]
      exact (opens_of_number (number_write hx delimited_nil)).append rest
    · rw [if_neg hx]
      exact ⟨_, _, rfl, by decide, by decide⟩
  | str s => exact ⟨_, _, rfl, by decide, by decide⟩
  | arr h => exact ⟨_, _, rfl, by decide, by decide⟩
  | obj h => exact ⟨_, _, rfl, by decide, by decide⟩

/-! ### Arrays and objects -/

/-- An entry of an object without the comma after it. -/
def entryText (e : String × Json) : List Char :=
  quoted e.1 ++ ':' :: compactTo [] e.2

theorem compactItems_eq_joined (rest : List Char) (vs : List Json) :
    compactItems rest vs = joined [] rest (vs.map (compactTo [])) := by
  induction vs with
  | nil => rfl
  | cons v vs ih =>
    cases vs with
    | nil => exact compactTo_eq_append rest v
    | cons w vs =>
      show compactTo (',' :: compactItems rest (w :: vs)) v = _
      rw [compactTo_eq_append, ih]
      rfl

theorem compactEntries_eq_joined (rest : List Char) (es : List (String × Json)) :
    compactEntries rest es = joined [] rest (es.map entryText) := by
  induction es with
  | nil => rfl
  | cons e es ih =>
    obtain ⟨name, v⟩ := e
    cases es with
    | nil =>
      show quoted name ++ ':' :: compactTo rest v = (quoted name ++ ':' :: compactTo [] v) ++ rest
      rw [compactTo_eq_append, List.append_assoc]
      rfl
    | cons f es =>
      show quoted name ++ ':' :: compactTo (',' :: compactEntries rest (f :: es)) v =
        (quoted name ++ ':' :: compactTo [] v) ++ ',' :: joined [] rest ((f :: es).map entryText)
      rw [compactTo_eq_append, ih, List.append_assoc]
      rfl

/-- A reader gives back what is left of a value from its text, up to some length. -/
def ReadsBack (item : Reader Json) (bound : ℕ) (v : Json) : Prop :=
  ∀ rest, Delimited rest → (compactTo rest v).length ≤ bound →
    item (compactTo rest v) = some (reparsed v, rest)

theorem entryName_quoted (name : String) (rest : List Char) :
    entryName (quoted name ++ ':' :: rest) = some (name, rest) := by
  unfold entryName
  rw [quoted_append, skipBlank_cons (by decide)]
  simp only [stringTail_string]
  rfl

/-- An entry is read back from its text, when its value is. -/
theorem ReadsBack.entry {item : Reader Json} {bound : ℕ} {e : String × Json}
    (h : ReadsBack item bound e.2) :
    ReadsPart (oneEntry item) bound (entryText e) (e.1, reparsed e.2) := by
  intro after hafter hl
  have htext : entryText e ++ after = quoted e.1 ++ ':' :: compactTo after e.2 := by
    rw [compactTo_eq_append after]
    simp [entryText]
  rw [htext] at hl ⊢
  rw [List.length_append, List.length_cons] at hl
  rw [oneEntry_eq_bind, entryName_quoted, Option.bind_some, h after hafter (by omega)]
  rfl

theorem ReadsBack.item {item : Reader Json} {bound : ℕ} (h : ReadsBack item bound v) :
    ReadsPart (onePart item) bound (compactTo [] v) (reparsed v) := by
  intro after hafter hl
  rw [← compactTo_eq_append] at hl ⊢
  rw [onePart_eq_map, h after hafter hl]
  rfl

/-- **A value is read back from its text**, up to what ends it: by induction on its brackets. -/
theorem value_compactTo (h : Legible depth v) :
    ReadsBack (value Entries.lastOfEach limit depth) limit v := by
  induction h with
  | null => exact fun rest hr _ => value_scalarText _ .null (fun _ => nofun) (fun _ => nofun) hr
  | bool b => exact fun rest hr _ => value_scalarText _ (.bool b) (fun _ => nofun) (fun _ => nofun) hr
  | whole hn =>
    exact fun rest hr _ => value_scalarText _ (.whole hn) (fun _ => nofun) (fun _ => nofun) hr
  | real x => exact fun rest hr _ => value_scalarText _ (.real x) (fun _ => nofun) (fun _ => nofun) hr
  | str s => exact fun rest hr _ => value_scalarText _ (.str s) (fun _ => nofun) (fun _ => nofun) hr
  | @arr depth vs h ih =>
    intro rest hr hb
    have htext : compactTo rest (.arr vs) =
        '[' :: joined [] (']' :: rest) (vs.map (compactTo [])) := by
      rw [← compactItems_eq_joined, compactTo]
    rw [htext] at hb ⊢
    rw [List.length_cons] at hb
    rw [value_arr (skipBlank_cons (by decide) _),
      bracket_joined_nil (skipsBlank_onePart (skipsBlank_value _)) (delimited_bracket rest)
        (by decide) (by decide) (fun w hw => (ih w hw).item)
        (fun w hw => opens_compactTo (h w hw) []) (by omega)]
    simp [whole?, reparsed, reparsedItems_eq_map]
  | @obj depth es h ih =>
    intro rest hr hb
    have htext : compactTo rest (.obj es) = '{' :: joined [] ('}' :: rest) (es.map entryText) := by
      rw [← compactEntries_eq_joined, compactTo]
    rw [htext] at hb ⊢
    rw [List.length_cons] at hb
    rw [value_obj rfl (skipBlank_cons (by decide) _),
      bracket_joined_nil (skipsBlank_oneEntry _) (delimited_brace rest) (by decide) (by decide)
        (fun e he => (ih e he).entry) (fun e _ => ⟨'"', _, rfl, by decide, by decide⟩) (by omega)]
    simp [whole?, reparsed, reparsedEntries_eq_map]

end Parser

/-- **The text of a value is parsed as what is left of the value**, when its whole numbers have 64 bits
and its brackets are not nested too deeply. -/
theorem parse?_compact_eq {v : Json} (h : Legible Parser.maxDepth v) :
    parse? v.compact = some (reparsed v) := by
  have hread := Parser.value_compactTo h [] Parser.delimited_nil (Nat.le_refl _)
  rw [parse?_compact]
  unfold Parser.document
  rw [hread]
  rfl

end QueryForecast.Json
