import QueryForecast.Proofs.Json.Brackets
import QueryForecast.Proofs.Json.Numerals

/-!
# Parts with commas between them

Compact and indented text put a comma between the parts of a bracket, and the second a line break after
it, which the readers skip.

* `SkipsBlank` — readers that pass over white space in front.
* `joined` — texts with commas and separators between them.
* `gather_joined`, `bracket_joined`, `bracket_joined_nil` — such texts are gathered again, when each of
  them is read back.
-/

namespace QueryForecast.Json.Parser

variable {α β : Type} {limit depth bound : ℕ} {text rest : List Char}

/-! ## What ends a value -/

theorem delimited_nil : Delimited [] := by
  intro c hc
  cases hc

theorem delimited_comma (rest : List Char) : Delimited (',' :: rest) := by
  intro c hc
  cases hc
  exact .inl rfl

theorem delimited_bracket (rest : List Char) : Delimited (']' :: rest) := by
  intro c hc
  cases hc
  exact .inr (.inl rfl)

theorem delimited_brace (rest : List Char) : Delimited ('}' :: rest) := by
  intro c hc
  cases hc
  exact .inr (.inr (.inl rfl))

/-! ## White space -/

theorem skipBlank_cons {c : Char} (h : isBlank c = false) (text : List Char) :
    skipBlank (c :: text) = c :: text :=
  List.dropWhile_cons_of_neg (by rw [h]; decide)

theorem skipBlank_skipBlank (text : List Char) : skipBlank (skipBlank text) = skipBlank text :=
  List.dropWhile_idempotent _ text

/-- White space in front of something else is skipped. -/
theorem skipBlank_append {blanks : List Char} (hb : ∀ c ∈ blanks, isBlank c = true)
    (text : List Char) : skipBlank (blanks ++ text) = skipBlank text := by
  unfold skipBlank
  rw [List.dropWhile_append_of_pos hb]

/-- A reader passes over white space in front. -/
def SkipsBlank (read : Reader α) : Prop :=
  ∀ text, read (skipBlank text) = read text

theorem SkipsBlank.append {read : Reader α} (h : SkipsBlank read) {blanks : List Char}
    (hb : ∀ c ∈ blanks, isBlank c = true) (text : List Char) : read (blanks ++ text) = read text := by
  rw [← h, skipBlank_append hb, h]

theorem skipsBlank_value (arrange : Entries → Entries) : SkipsBlank (value arrange limit depth) := by
  intro text
  cases depth with
  | zero =>
    unfold value
    rw [skipBlank_skipBlank]
  | succ depth =>
    unfold value
    rw [skipBlank_skipBlank]

theorem skipsBlank_onePart {item : Reader Json} (h : SkipsBlank item) : SkipsBlank (onePart item) := by
  intro text
  unfold onePart
  rw [h]

theorem skipsBlank_entryName : SkipsBlank entryName := by
  intro text
  unfold entryName
  rw [skipBlank_skipBlank]

theorem skipsBlank_oneEntry (item : Reader Json) : SkipsBlank (oneEntry item) := by
  intro text
  unfold oneEntry
  rw [skipsBlank_entryName]

/-! ## Parts with commas between them -/

/-- Texts with a comma and a separator between them, and an ending. -/
def joined (separator ending : List Char) : List (List Char) → List Char
  | [] => ending
  | [t] => t ++ ending
  | t :: u :: ts => t ++ ',' :: (separator ++ joined separator ending (u :: ts))

theorem joined_cons_cons (separator ending t u : List Char) (ts : List (List Char)) :
    joined separator ending (t :: u :: ts) =
      t ++ ',' :: (separator ++ joined separator ending (u :: ts)) :=
  rfl

/-- Commas make a text as long as the number of its parts. -/
theorem length_joined (separator ending : List Char) (ts : List (List Char)) :
    ts.length + ending.length ≤ (joined separator ending ts).length + 1 := by
  induction ts with
  | nil => simp [joined]
  | cons t ts ih =>
    cases ts with
    | nil =>
      simp only [joined, List.length_append, List.length_cons, List.length_nil]
      omega
    | cons u ts =>
      rw [joined_cons_cons]
      simp only [List.length_append, List.length_cons] at ih ⊢
      omega

/-- A text opens with what neither is blank nor a given character. -/
def Opens (closing : Char) (text : List Char) : Prop :=
  ∃ c cs, text = c :: cs ∧ isBlank c = false ∧ c ≠ closing

theorem Opens.append {closing : Char} (h : Opens closing text) (rest : List Char) :
    Opens closing (text ++ rest) := by
  obtain ⟨c, cs, rfl, hb, hc⟩ := h
  exact ⟨c, cs ++ rest, rfl, hb, hc⟩

theorem opens_joined {closing : Char} {separator ending : List Char} {ts : List (List Char)}
    (hne : ts ≠ []) (h : ∀ t ∈ ts, Opens closing t) : Opens closing (joined separator ending ts) := by
  cases ts with
  | nil => exact absurd rfl hne
  | cons t ts =>
    have ht := h t List.mem_cons_self
    cases ts with
    | nil => exact ht.append ending
    | cons u ts => exact ht.append _

section Joined

variable {part : Reader (List α)} {closing : Char} {separator ending : List Char}
  {line : β → List Char} {found : β → α} {xs : List β}

/-- A reader gives back a part from its text, up to some length. -/
def ReadsPart (part : Reader (List α)) (bound : ℕ) (line : List Char) (x : α) : Prop :=
  ∀ rest, Delimited rest → (line ++ rest).length ≤ bound → part (line ++ rest) = some ([x], rest)

/-- White space in front of a part is skipped. -/
theorem gather_append (hskip : SkipsBlank part) {blanks : List Char}
    (hb : ∀ c ∈ blanks, isBlank c = true) (closing : Char) (limit index : ℕ) (text : List Char) :
    gather (fun _ => part) closing limit index (blanks ++ text) =
      gather (fun _ => part) closing limit index text := by
  cases limit with
  | zero => rfl
  | succ limit =>
    unfold gather
    rw [hskip.append hb]

/-- **Parts that are written with commas between them are gathered again**, with room for as many. -/
theorem gather_joined (hskip : SkipsBlank part) (hsep : ∀ c ∈ separator, isBlank c = true)
    (hending : Delimited ending) (hclose : skipBlank ending = closing :: rest) (hc : closing ≠ ',')
    (hread : ∀ x ∈ xs, ReadsPart part bound (line x) (found x)) (hne : xs ≠ []) {limit : ℕ}
    (hlimit : xs.length ≤ limit) (hb : (joined separator ending (xs.map line)).length ≤ bound)
    (index : ℕ) :
    gather (fun _ => part) closing limit index (joined separator ending (xs.map line)) =
      (xs.map found, some rest) := by
  induction xs generalizing index limit with
  | nil => exact absurd rfl hne
  | cons x xs ih =>
    obtain ⟨limit, rfl⟩ := Nat.exists_eq_succ_of_ne_zero (show limit ≠ 0 by
      rw [List.length_cons] at hlimit
      omega)
    have hx := hread x List.mem_cons_self
    cases xs with
    | nil =>
      have hone : part (line x ++ ending) = some ([found x], ending) := hx ending hending hb
      show gather (fun _ => part) closing (limit + 1) index (line x ++ ending) = _
      unfold gather
      rw [hone]
      simp [hclose, hc]
    | cons y xs =>
      have htext : joined separator ending ((x :: y :: xs).map line) =
          line x ++ ',' :: (separator ++ joined separator ending ((y :: xs).map line)) := rfl
      rw [htext] at hb ⊢
      have hone : part (line x ++ ',' :: _) = some ([found x], ',' :: _) := hx _ (delimited_comma _) hb
      have hothers := ih (fun z hz => hread z (List.mem_cons_of_mem _ hz)) (List.cons_ne_nil _ _)
        (Nat.le_of_succ_le_succ hlimit) (by
          simp only [List.length_append, List.length_cons] at hb ⊢
          omega) (index + 1)
      unfold gather
      rw [hone]
      simp only [skipBlank_cons (show isBlank ',' = false by decide), if_true]
      rw [gather_append hskip hsep, hothers]
      rfl

/-- **A bracket that is written with separators is read again.** -/
theorem bracket_joined (hskip : SkipsBlank part) (hsep : ∀ c ∈ separator, isBlank c = true)
    (hending : Delimited ending) (hclose : skipBlank ending = closing :: rest) (hc : closing ≠ ',')
    (hread : ∀ x ∈ xs, ReadsPart part limit (line x) (found x))
    (hopen : ∀ x ∈ xs, Opens closing (line x)) (hne : xs ≠ [])
    (hb : (joined separator ending (xs.map line)).length ≤ limit) :
    bracket limit (fun _ => part) closing (separator ++ joined separator ending (xs.map line)) =
      (xs.map found, some rest) := by
  have hlimit : xs.length ≤ limit := by
    have hlength := length_joined separator ending (xs.map line)
    have hpos : 0 < ending.length := by
      cases ending with
      | nil => cases hclose
      | cons => exact Nat.succ_pos _
    rw [List.length_map] at hlength
    omega
  have hgather := gather_joined hskip hsep hending hclose hc hread hne hlimit hb 0
  have hopens : Opens closing (joined separator ending (xs.map line)) := by
    apply opens_joined
    · simpa using hne
    · intro t ht
      obtain ⟨x, hx, rfl⟩ := List.mem_map.1 ht
      exact hopen x hx
  obtain ⟨c, cs, he, hblank, hcc⟩ := hopens
  unfold bracket
  rw [skipBlank_append hsep, he, skipBlank_cons hblank]
  simp only [hcc, if_false]
  rw [← he]
  exact hgather

/-- **So is one without separators**, also when it has no parts. -/
theorem bracket_joined_nil (hskip : SkipsBlank part) (hending : Delimited (closing :: rest))
    (hblank : isBlank closing = false) (hc : closing ≠ ',')
    (hread : ∀ x ∈ xs, ReadsPart part limit (line x) (found x))
    (hopen : ∀ x ∈ xs, Opens closing (line x))
    (hb : (joined [] (closing :: rest) (xs.map line)).length ≤ limit) :
    bracket limit (fun _ => part) closing (joined [] (closing :: rest) (xs.map line)) =
      (xs.map found, some rest) := by
  have hclose := skipBlank_cons hblank rest
  by_cases hne : xs = []
  · subst hne
    show bracket limit (fun _ => part) closing (closing :: rest) = ([], some rest)
    unfold bracket
    rw [hclose]
    exact if_pos rfl
  · exact bracket_joined hskip (List.forall_mem_nil _) hending hclose hc hread hopen hne hb

end Joined

end QueryForecast.Json.Parser
