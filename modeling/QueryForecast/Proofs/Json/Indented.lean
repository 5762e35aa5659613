import QueryForecast.Proofs.Json.Textual

/-!
# Indented text is read back

Every item and every entry has a line of its own, indented by its depth. Such lines are `joined` by
line breaks, which the readers skip.

* `indentedItems_eq_joined`, `indentedEntries_eq_joined` — what is inside brackets, as joined lines.
* `bracket_items`, `bracket_entries` — so a bracket is read back when its parts are.
* `value_indentedTo` — the strict reader gives back a value that text can hold.
* `Conforms`, `outlined_indentedTo` — and so does the reader of records, where the value has only
  entries that the outline names.
* `excerpt_indented` — so a document is read back as a whole.
-/

namespace QueryForecast.Json

/-! ## Lines -/

/-- An entry of an object on a line of its own. -/
def entryLine (level : ℕ) (e : String × Json) : List Char :=
  quoted e.1 ++ ':' :: ' ' :: indentedTo (level + 1) [] e.2

mutual

/-- What follows a value follows its text. -/
theorem indentedTo_append (level : ℕ) (rest more : List Char) (v : Json) :
    indentedTo level (rest ++ more) v = indentedTo level rest v ++ more := by
  cases v with
  | arr vs =>
    cases vs with
    | nil => rfl
    | cons v vs =>
      have hitems := indentedItems_append level (newline level ++ ']' :: rest) more (v :: vs)
      simp only [List.append_assoc, List.cons_append] at hitems
      simp only [indentedTo, hitems, List.append_assoc, List.cons_append]
  | obj es =>
    cases es with
    | nil => rfl
    | cons e es =>
      have hentries := indentedEntries_append level (newline level ++ '}' :: rest) more (e :: es)
      simp only [List.append_assoc, List.cons_append] at hentries
      simp only [indentedTo, hentries, List.append_assoc, List.cons_append]
  | null => rfl
  | bool b => cases b <;> rfl
  | num n => exact (List.append_assoc _ _ _).symm
  | str s => exact (List.append_assoc _ _ _).symm

theorem indentedItems_append (level : ℕ) (rest more : List Char) (vs : List Json) :
    indentedItems level (rest ++ more) vs = indentedItems level rest vs ++ more := by
  cases vs with
  | nil => rfl
  | cons v vs =>
    cases vs with
    | nil => exact indentedTo_append (level + 1) rest more v
    | cons w vs =>
      have hvs := indentedItems_append level rest more (w :: vs)
      have hv := indentedTo_append (level + 1)
        (',' :: (newline (level + 1) ++ indentedItems level rest (w :: vs))) more v
      simp only [List.append_assoc, List.cons_append] at hv
      simp only [indentedItems, hvs, hv]

theorem indentedEntries_append (level : ℕ) (rest more : List Char) (es : List (String × Json)) :
    indentedEntries level (rest ++ more) es = indentedEntries level rest es ++ more := by
  cases es with
  | nil => rfl
  | cons e es =>
    obtain ⟨name, v⟩ := e
    cases es with
    | nil =>
      have hv := indentedTo_append (level + 1) rest more v
      simp only [indentedEntries, hv, List.append_assoc, List.cons_append]
    | cons f es =>
      have hes := indentedEntries_append level rest more (f :: es)
      have hv := indentedTo_append (level + 1)
        (',' :: (newline (level + 1) ++ indentedEntries level rest (f :: es))) more v
      simp only [List.append_assoc, List.cons_append] at hv
      simp only [indentedEntries, hes, hv, List.append_assoc, List.cons_append]

end

variable {limit depth level bound : ℕ} {v : Json} {rest : List Char}

theorem indentedTo_eq_append (level : ℕ) (rest : List Char) (v : Json) :
    indentedTo level rest v = indentedTo level [] v ++ rest :=
  indentedTo_append level [] rest v

theorem indentedItems_eq_joined (level : ℕ) (rest : List Char) (vs : List Json) :
    indentedItems level rest vs =
      Parser.joined (newline (level + 1)) rest (vs.map (indentedTo (level + 1) [])) := by
  induction vs with
  | nil => rfl
  | cons v vs ih =>
    cases vs with
    | nil => exact indentedTo_eq_append (level + 1) rest v
    | cons w vs =>
      show indentedTo (level + 1)
        (',' :: (newline (level + 1) ++ indentedItems level rest (w :: vs))) v = _
      rw [indentedTo_eq_append, ih]
      rfl

theorem indentedEntries_eq_joined (level : ℕ) (rest : List Char) (es : List (String × Json)) :
    indentedEntries level rest es =
      Parser.joined (newline (level + 1)) rest (es.map (entryLine level)) := by
  induction es with
  | nil => rfl
  | cons e es ih =>
    obtain ⟨name, v⟩ := e
    cases es with
    | nil =>
      show quoted name ++ ':' :: ' ' :: indentedTo (level + 1) rest v =
        (quoted name ++ ':' :: ' ' :: indentedTo (level + 1) [] v) ++ rest
      rw [indentedTo_eq_append, List.append_assoc]
      rfl
    | cons f es =>
      show quoted name ++ ':' :: ' ' :: indentedTo (level + 1)
        (',' :: (newline (level + 1) ++ indentedEntries level rest (f :: es))) v =
          (quoted name ++ ':' :: ' ' :: indentedTo (level + 1) [] v) ++
            ',' :: (newline (level + 1) ++ _)
      rw [indentedTo_eq_append, ih, List.append_assoc]
      rfl

theorem indentedTo_eq_compactTo (harr : ∀ vs, v ≠ .arr vs) (hobj : ∀ es, v ≠ .obj es) :
    indentedTo level rest v = compactTo rest v := by
  cases v with
  | arr vs => exact absurd rfl (harr vs)
  | obj es => exact absurd rfl (hobj es)
  | _ => rfl

theorem Textual.reparsed_eq (h : Textual depth v) (harr : ∀ vs, v ≠ .arr vs)
    (hobj : ∀ es, v ≠ .obj es) : reparsed v = v := by
  cases h with
  | real hx => exact if_pos hx
  | arr => exact absurd rfl (harr _)
  | obj => exact absurd rfl (hobj _)
  | _ => rfl

namespace Parser

theorem isBlank_of_mem_newline (level : ℕ) : ∀ c ∈ newline level, isBlank c = true := by
  intro c hc
  rcases List.mem_cons.1 hc with rfl | hc
  · decide
  · rw [List.eq_of_mem_replicate hc]
    decide

theorem delimited_newline (level : ℕ) (rest : List Char) : Delimited (newline level ++ rest) := by
  intro c hc
  cases hc
  exact .inr (.inr (.inr rfl))

theorem skipBlank_newline {c : Char} (level : ℕ) (hc : isBlank c = false) (rest : List Char) :
    skipBlank (newline level ++ c :: rest) = c :: rest := by
  rw [skipBlank_append (isBlank_of_mem_newline level), skipBlank_cons hc]

theorem opens_indentedTo (level : ℕ) (h : Textual depth v) : Opens ']' (indentedTo level [] v) := by
  cases v with
  | arr vs => cases vs <;> exact ⟨'[', _, rfl, by decide, by decide⟩
  | obj es => cases es <;> exact ⟨'{', _, rfl, by decide, by decide⟩
  | _ => exact opens_compactTo h.legible []

/-- A reader gives back a value from its text at any indentation, up to some length. -/
def ReadsIndented (item : Reader Json) (bound : ℕ) (v : Json) : Prop :=
  ∀ level rest, Delimited rest → (indentedTo level rest v).length ≤ bound →
    item (indentedTo level rest v) = some (v, rest)

/-! ## Brackets -/

/-- **Items are read back**, when each of them is. -/
theorem bracket_items {item : Reader Json} {vs : List Json} (hskip : SkipsBlank item)
    (hitem : ∀ v ∈ vs, ReadsIndented item limit v)
    (hopen : ∀ v ∈ vs, Opens ']' (indentedTo (level + 1) [] v))
    (hb : (indentedTo level rest (.arr vs)).length ≤ limit) :
    ∃ text, indentedTo level rest (.arr vs) = '[' :: text ∧
      bracket limit (fun _ => onePart item) ']' text = (vs, some rest) := by
  cases vs with
  | nil => exact ⟨_, rfl, rfl⟩
  | cons v vs =>
    have htext : indentedTo level rest (.arr (v :: vs)) = '[' :: (newline (level + 1) ++
        joined (newline (level + 1)) (newline level ++ ']' :: rest)
          ((v :: vs).map (indentedTo (level + 1) []))) := by
      rw [← indentedItems_eq_joined]
      rfl
    have hread : ∀ w ∈ v :: vs, ReadsPart (onePart item) limit (indentedTo (level + 1) [] w) w := by
      intro w hw after hafter hl
      rw [← indentedTo_eq_append] at hl ⊢
      rw [onePart_eq_map, hitem w hw _ _ hafter hl]
      rfl
    rw [htext] at hb ⊢
    rw [List.length_cons, List.length_append] at hb
    refine ⟨_, rfl, ?_⟩
    have hbracket := bracket_joined (skipsBlank_onePart hskip) (isBlank_of_mem_newline (level + 1))
      (delimited_newline level (']' :: rest)) (skipBlank_newline level (by decide) rest) (by decide)
      hread hopen (List.cons_ne_nil v vs) (by omega)
    rwa [List.map_id'] at hbracket

/-- **Entries are read back**, when each of them is. -/
theorem bracket_entries {part : Reader Entries} {es : Entries} (hskip : SkipsBlank part)
    (hread : ∀ e ∈ es, ReadsPart part limit (entryLine level e) e)
    (hb : (indentedTo level rest (.obj es)).length ≤ limit) :
    ∃ text, indentedTo level rest (.obj es) = '{' :: text ∧
      bracket limit (fun _ => part) '}' text = (es, some rest) := by
  cases es with
  | nil => exact ⟨_, rfl, rfl⟩
  | cons e es =>
    have htext : indentedTo level rest (.obj (e :: es)) = '{' :: (newline (level + 1) ++
        joined (newline (level + 1)) (newline level ++ '}' :: rest)
          ((e :: es).map (entryLine level))) := by
      rw [← indentedEntries_eq_joined]
      rfl
    rw [htext] at hb ⊢
    rw [List.length_cons, List.length_append] at hb
    refine ⟨_, rfl, ?_⟩
    have hbracket := bracket_joined hskip (isBlank_of_mem_newline (level + 1))
      (delimited_newline level ('}' :: rest)) (skipBlank_newline level (by decide) rest) (by decide)
      hread (fun f _ => ⟨'"', _, rfl, by decide, by decide⟩) (List.cons_ne_nil e es) (by omega)
    rwa [List.map_id'] at hbracket

/-- The name of an entry is read from its line. -/
theorem entryName_entryLine (level : ℕ) (e : String × Json) (rest : List Char) :
    entryName (entryLine level e ++ rest) = some (e.1, ' ' :: indentedTo (level + 1) rest e.2) := by
  unfold entryLine
  rw [List.append_assoc, List.cons_append, entryName_quoted, List.cons_append,
    ← indentedTo_eq_append]

theorem ReadsIndented.after_blank {item : Reader Json} (hskip : SkipsBlank item)
    (h : ReadsIndented item bound v) (hr : Delimited rest)
    (hb : (indentedTo level rest v).length ≤ bound) :
    item (' ' :: indentedTo level rest v) = some (v, rest) := by
  have hblank : ∀ c ∈ [' '], isBlank c = true := List.forall_mem_singleton.2 (by decide)
  have hskipped := hskip.append hblank (indentedTo level rest v)
  exact hskipped.trans (h level rest hr hb)

theorem length_le_entryLine (level : ℕ) (e : String × Json) (rest : List Char) :
    (indentedTo (level + 1) rest e.2).length ≤ (entryLine level e ++ rest).length := by
  unfold entryLine
  rw [indentedTo_eq_append]
  simp only [List.length_append, List.length_cons]
  omega

/-! ## Values -/

theorem value_scalar (h : Textual depth v) (harr : ∀ vs, v ≠ .arr vs) (hobj : ∀ es, v ≠ .obj es) :
    ReadsIndented (value id limit depth) bound v := by
  intro level rest hr _
  rw [indentedTo_eq_compactTo harr hobj, value_scalarText id h.legible harr hobj hr,
    h.reparsed_eq harr hobj]

/-- **What text can hold is read back strictly**: by induction on the brackets. -/
theorem value_indentedTo (h : Textual depth v) : ReadsIndented (value id limit depth) limit v := by
  induction h with
  | null => exact value_scalar .null nofun nofun
  | bool b => exact value_scalar (.bool b) nofun nofun
  | whole hn => exact value_scalar (.whole hn) nofun nofun
  | real hx => exact value_scalar (.real hx) nofun nofun
  | str s => exact value_scalar (.str s) nofun nofun
  | @arr depth vs h ih =>
    intro level rest hr hb
    obtain ⟨text, htext, hbracket⟩ := bracket_items (skipsBlank_value id) ih
      (fun w hw => opens_indentedTo _ (h w hw)) hb
    rw [htext, value_arr (skipBlank_cons (by decide) _), hbracket]
    rfl
  | @obj depth es h ih =>
    intro level rest hr hb
    have hread : ∀ e ∈ es,
        ReadsPart (oneEntry (value id limit depth)) limit (entryLine level e) e := by
      intro e he after hafter hl
      have hv := (ih e he).after_blank (skipsBlank_value id) hafter
        ((length_le_entryLine level e after).trans hl)
      rw [oneEntry_eq_bind, entryName_entryLine, Option.bind_some, hv]
      rfl
    obtain ⟨text, htext, hbracket⟩ := bracket_entries (skipsBlank_oneEntry _) hread hb
    rw [htext, value_obj rfl (skipBlank_cons (by decide) _), hbracket]
    rfl

end Parser

/-! ## Records -/

/-- A value that text can hold and that has only entries that an outline names. A part of any outline
may be absent. -/
inductive Conforms : ℕ → Outline → Json → Prop where
  | absent {depth : ℕ} {outline : Outline} : Conforms depth outline .null
  | value {depth : ℕ} {v : Json} (h : Textual depth v) : Conforms depth .value v
  | list {depth : ℕ} {item : Outline} {items : List Json} (h : ∀ v ∈ items, Conforms depth item v) :
      Conforms (depth + 1) (.list item) (.arr items)
  | record {depth : ℕ} {fields : List (String × Outline)} {entries : Entries}
      (hnamed : ∀ e ∈ entries, (fields.lookup e.1).isSome)
      (h : ∀ e ∈ entries, ∀ outline, fields.lookup e.1 = some outline → Conforms depth outline e.2) :
      Conforms (depth + 1) (.record fields) (.obj entries)

theorem conforms_record {fields : List (String × Outline)} {entries : Entries}
    (h : ∀ e ∈ entries, ∃ outline, fields.lookup e.1 = some outline ∧ Conforms depth outline e.2) :
    Conforms (depth + 1) (.record fields) (.obj entries) := by
  apply Conforms.record
  · intro e he
    obtain ⟨outline, ho, -⟩ := h e he
    rw [ho]
    rfl
  · intro e he outline ho
    obtain ⟨outline', ho', hc⟩ := h e he
    rw [ho] at ho'
    cases ho'
    exact hc

/-- An optional part conforms, when it does where it is there. -/
theorem conforms_ofOption {α : Type} {encode : α → Json} {outline : Outline} {o : Option α}
    (h : ∀ a ∈ o, Conforms depth outline (encode a)) : Conforms depth outline (ofOption encode o) := by
  cases o with
  | none => exact .absent
  | some a => exact h a rfl

theorem Conforms.textual {outline : Outline} (h : Conforms depth outline v) : Textual depth v := by
  induction h with
  | absent => exact .null
  | value h => exact h
  | list _ ih => exact .arr ih
  | record hnamed _ ih =>
    apply Textual.obj
    intro e he
    obtain ⟨outline, ho⟩ := Option.isSome_iff_exists.1 (hnamed e he)
    exact ih e he outline ho

namespace Parser

theorem outlined_value : outlined limit depth .value = value id limit depth := by
  cases depth <;> rfl

theorem outlined_list {item : Outline} {text : List Char} (h : skipBlank text = '[' :: rest) :
    outlined limit (depth + 1) (.list item) text =
      (whole? (bracket limit (fun _ => onePart (outlined limit depth item)) ']' rest)).map
        fun (xs, rest) => (.arr xs, rest) := by
  cases hb : bracket limit (fun _ => onePart (outlined limit depth item)) ']' rest with
  | mk items after =>
    unfold onePart at hb
    unfold outlined
    rw [h]
    simp only [hb]
    cases after <;> rfl

theorem skipsBlank_outlined (outline : Outline) : SkipsBlank (outlined limit depth outline) := by
  intro text
  cases depth with
  | zero =>
    unfold outlined
    rw [skipBlank_skipBlank]
  | succ depth =>
    cases outline with
    | value => exact skipsBlank_value id text
    | list item =>
      unfold outlined
      rw [skipBlank_skipBlank]
    | record fields =>
      unfold outlined record
      rw [skipBlank_skipBlank]

theorem outlined_null (outline : Outline) (rest : List Char) :
    outlined limit depth outline ('n' :: 'u' :: 'l' :: 'l' :: rest) = some (.null, rest) := by
  cases depth with
  | zero => rfl
  | succ depth => cases outline <;> rfl

theorem skipsBlank_fieldEntry {read : Outline → Reader Json} {fields : List (String × Outline)} :
    SkipsBlank (fieldEntry limit read fields) := by
  intro text
  unfold fieldEntry
  rw [skipsBlank_entryName]

/-- **A record is read back**, when the values of its entries are. -/
theorem record_indentedTo {read : Outline → Reader Json} {fields : List (String × Outline)}
    {entries : Entries} (hskip : ∀ outline, SkipsBlank (read outline))
    (hnamed : ∀ e ∈ entries, (fields.lookup e.1).isSome)
    (hread : ∀ e ∈ entries, ∀ outline, fields.lookup e.1 = some outline →
      ReadsIndented (read outline) limit e.2)
    (hb : (indentedTo level rest (.obj entries)).length ≤ limit) :
    record limit read fields (indentedTo level rest (.obj entries)) = (.obj entries, some rest) := by
  have hline : ∀ e ∈ entries,
      ReadsPart (fieldEntry limit read fields) limit (entryLine level e) e := by
    intro e he after hafter hl
    obtain ⟨outline, ho⟩ := Option.isSome_iff_exists.1 (hnamed e he)
    have hv := (hread e he outline ho).after_blank (hskip outline) hafter
      ((length_le_entryLine level e after).trans hl)
    unfold fieldEntry
    rw [entryName_entryLine]
    simp only [Option.bind_eq_bind, Option.bind_some, ho, hv]
    rfl
  obtain ⟨text, htext, hbracket⟩ := bracket_entries skipsBlank_fieldEntry hline hb
  unfold record
  rw [htext, skipBlank_cons (by decide)]
  simp only [hbracket]

/-- **What conforms to an outline is read back by it.** -/
theorem outlined_indentedTo {outline : Outline} (h : Conforms depth outline v) :
    ReadsIndented (outlined limit depth outline) limit v := by
  induction h with
  | absent => exact fun level rest _ _ => outlined_null _ _
  | value h =>
    rw [outlined_value]
    exact value_indentedTo h
  | @list depth item items h ih =>
    intro level rest hr hb
    obtain ⟨text, htext, hbracket⟩ := bracket_items (skipsBlank_outlined item) ih
      (fun w hw => opens_indentedTo _ (h w hw).textual) hb
    rw [htext, outlined_list (skipBlank_cons (by decide) _), hbracket]
    rfl
  | record hnamed h ih =>
    intro level rest hr hb
    unfold outlined
    rw [record_indentedTo skipsBlank_outlined hnamed ih hb]

end Parser

/-- **A document that conforms to an outline is read back as a whole.** -/
theorem excerpt_indented {fields : List (String × Outline)} {entries : Entries}
    (h : Conforms Parser.maxDepth (.record fields) (.obj entries)) :
    excerpt fields (indented (.obj entries)) = (.obj entries, true) := by
  obtain ⟨hnamed, hparts⟩ : (∀ e ∈ entries, (fields.lookup e.1).isSome) ∧
      ∀ e ∈ entries, ∀ outline, fields.lookup e.1 = some outline →
        Conforms (Parser.maxDepth - 1) outline e.2 := by
    cases h with
    | record hnamed h => exact ⟨hnamed, h⟩
  have hread := Parser.record_indentedTo Parser.skipsBlank_outlined hnamed
    (fun e he outline ho => Parser.outlined_indentedTo (hparts e he outline ho))
    (le_refl (indentedTo 0 [] (.obj entries)).length)
  unfold excerpt indented
  rw [String.toList_ofList]
  dsimp only
  rw [hread]
  rfl

end QueryForecast.Json
