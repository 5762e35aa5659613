import Mathlib.Data.List.Basic
import QueryForecast.Json.Decoding

/-!
# Decoding what was encoded

* `readEntries_eq_foldlM`, `asRecord_obj` — a record is read by setting its known entries one after
  another, as long as no field comes twice and none that is required is missing.
* `readEntries_keeps`, `readItems_keeps`, `asRecord_keeps_of_parts` — what reading one field keeps,
  reading a record keeps.
* `of_asOption_eq_some`, `exists_of_mem_asList` — where an optional value, or an item, is read from.
* `Restores` — a decoder gives back what was encoded when its numbers are finite, and otherwise finds
  the shape to be wrong, for a number that is not finite is written as `null`.
* `Restores.list`, `Restores.option` — so do the decoders of lists and of optional parts.
-/

namespace QueryForecast

/-- A run that succeeds succeeds in its first step. -/
theorem exists_ok_of_bind {ε α β : Type} {x : Except ε α} {f : α → Except ε β} {b : β}
    (h : (x >>= f) = .ok b) : ∃ a, x = .ok a ∧ f a = .ok b := by
  cases x with
  | error e => cases h
  | ok a => exact ⟨a, rfl, h⟩

end QueryForecast

namespace QueryForecast.Json

variable {α : Type} {form : RecordForm} {set : String → Json → α → Decoded α}

/-! ## Records -/

/-- The entries that belong to fields. -/
def RecordForm.known (form : RecordForm) (entries : Entries) : Entries :=
  entries.filter fun e => form.fields.contains e.1

/-- Whether names are those of a whole record: no field comes twice, and every required one is
there. -/
def RecordForm.admits (form : RecordForm) (names : List String) : Bool :=
  let known := names.filter form.fields.contains
  decide known.Nodup && form.required.all known.contains

/-- What every field that is read keeps, a record keeps that is read from entries. -/
theorem readEntries_keeps {P : α → Prop} {entries : Entries}
    (hset : ∀ e ∈ entries, ∀ {r next : α}, P r → set e.1 e.2 r = .ok next → P next)
    {seen : List String} {record result : α} (h0 : P record)
    (h : readEntries form set seen record entries = .ok result) : P result := by
  induction entries generalizing seen record with
  | nil =>
    unfold readEntries at h
    split at h
    · cases h
      exact h0
    · cases h
  | cons e rest ih =>
    rw [List.forall_mem_cons] at hset
    unfold readEntries at h
    split at h
    · split at h
      · cases h
      · split at h
        · rename_i next hnext
          exact ih hset.2 (hset.1 h0 hnext) h
        · cases h
    · exact ih hset.2 h0 h

/-- So does a record that is read from items. -/
theorem readItems_keeps {P : α → Prop} {items : List Json}
    (hset : ∀ v ∈ items, ∀ {name : String} {r next : α}, P r → set name v r = .ok next → P next)
    {names : List String} {record result : α} (h0 : P record)
    (h : readItems set names record items = .ok result) : P result := by
  induction items generalizing names record with
  | nil =>
    cases names <;> cases h <;> exact h0
  | cons v rest ih =>
    rw [List.forall_mem_cons] at hset
    cases names with
    | nil => cases h
    | cons name names =>
      unfold readItems at h
      split at h
      · rename_i next hnext
        exact ih hset.2 (hset.1 h0 hnext) h
      · cases h

/-- The values that a value holds. -/
def parts : Json → List Json
  | .arr items => items
  | .obj entries => entries.map (·.2)
  | .null | .bool _ | .num _ | .str _ => []

/-- **What every field keeps that is read from a part, a record keeps that is read from the whole.** -/
theorem asRecord_keeps_of_parts {P : α → Prop} {v : Json} {start result : α}
    (hset : ∀ w ∈ v.parts, ∀ {name : String} {r next : α}, P r → set name w r = .ok next → P next)
    (h0 : P start) (h : asRecord form set start v = .ok result) : P result := by
  cases v with
  | obj entries =>
    apply readEntries_keeps _ h0 h
    intro e he
    exact hset e.2 (List.mem_map_of_mem he)
  | arr items =>
    unfold asRecord at h
    dsimp only at h
    split at h
    · rename_i record hr
      split at h
      · cases h
      · cases h
        exact readItems_keeps hset h0 hr
    · cases h
  | _ => cases h

/-- An optional value that is there is read from the value itself. -/
theorem of_asOption_eq_some {decode : Json → Decoded α} {v : Json} {a : α}
    (h : asOption decode v = .ok (some a)) : decode v = .ok a := by
  unfold asOption at h
  split at h
  · cases h
  · cases hd : decode v with
    | error fault =>
      rw [hd] at h
      cases h
    | ok b =>
      rw [hd] at h
      cases h
      rfl

/-- Every item of a list is read from a part. -/
theorem exists_of_mem_asList {decode : Json → Decoded α} {v : Json} {as : List α}
    (h : asList decode v = .ok as) : ∀ a ∈ as, ∃ w ∈ v.parts, decode w = .ok a := by
  cases v with
  | arr items =>
    change items.mapM decode = .ok as at h
    show ∀ a ∈ as, ∃ w ∈ items, decode w = .ok a
    induction items generalizing as with
    | nil =>
      cases h
      simp
    | cons w items ih =>
      rw [List.mapM_cons] at h
      obtain ⟨a, ha, h⟩ := exists_ok_of_bind h
      obtain ⟨others, ho, h⟩ := exists_ok_of_bind h
      cases h
      intro b hb
      rcases List.mem_cons.1 hb with rfl | hb
      · exact ⟨w, List.mem_cons_self, ha⟩
      · obtain ⟨u, hu, hd⟩ := ih ho b hb
        exact ⟨u, List.mem_cons_of_mem _ hu, hd⟩
  | _ => cases h

theorem readEntries_eq_foldlM {seen : List String} {record : α} {entries : Entries}
    (hn : ((form.known entries).map Prod.fst).Nodup)
    (hs : ((form.known entries).map Prod.fst).Disjoint seen)
    (hr : form.required ⊆ seen ++ (form.known entries).map Prod.fst) :
    readEntries form set seen record entries =
      (form.known entries).foldlM (fun record e => set e.1 e.2 record) record := by
  induction entries generalizing seen record with
  | nil =>
    have hr : form.required ⊆ seen ++ [] := hr
    rw [List.append_nil] at hr
    unfold readEntries
    rw [if_pos (List.all_eq_true.2 fun name hm => List.contains_iff_mem.2 (hr hm))]
    rfl
  | cons e rest ih =>
    obtain ⟨name, v⟩ := e
    unfold readEntries
    by_cases hf : form.fields.contains name = true
    · have hk : form.known ((name, v) :: rest) = (name, v) :: form.known rest :=
        List.filter_cons_of_pos hf
      rw [hk, List.map_cons] at hn hs hr
      rw [List.nodup_cons] at hn
      rw [List.disjoint_cons_left] at hs
      rw [hk, if_pos hf, if_neg fun hc => hs.1 (List.contains_iff_mem.1 hc), List.foldlM_cons]
      cases set name v record with
      | error fault => rfl
      | ok record =>
        exact ih hn.2 (List.disjoint_cons_right.2 ⟨hn.1, hs.2⟩)
          fun n hm => List.perm_middle.subset (hr hm)
    · have hk : form.known ((name, v) :: rest) = form.known rest :=
        List.filter_cons_of_neg hf
      rw [hk] at hn hs hr ⊢
      rw [if_neg hf]
      exact ih hn hs hr

/-- **A whole record is read by setting its known entries in turn.** -/
theorem asRecord_obj {start : α} {entries : Entries}
    (h : form.admits (entries.map Prod.fst) = true) :
    asRecord form set start (.obj entries) =
      (form.known entries).foldlM (fun record e => set e.1 e.2 record) start := by
  unfold RecordForm.admits at h
  rw [Bool.and_eq_true, decide_eq_true_iff, List.filter_map, List.all_eq_true] at h
  obtain ⟨hn, hr⟩ := h
  exact readEntries_eq_foldlM hn (List.disjoint_nil_right _) fun name hm =>
    List.contains_iff_mem.1 (hr name hm)

/-! ## Optional entries -/

section Optional

variable {name : String} {encode : α → Json} {o : Option α}

theorem mem_optionalEntry {e : String × Json} :
    e ∈ optionalEntry name encode o ↔ ∃ a ∈ o, e = (name, encode a) := by
  cases o <;> simp [optionalEntry]

theorem names_optionalEntry_sublist :
    ((optionalEntry name encode o).map Prod.fst).Sublist [name] := by
  cases o <;> simp [optionalEntry]

theorem has_optionalEntry (n : String) :
    (optionalEntry name encode o).has n = (name == n && o.isSome) := by
  cases o <;> simp [optionalEntry, Entries.has]

theorem Entries.has_append (es fs : Entries) (n : String) :
    Entries.has (es ++ fs) n = (es.has n || fs.has n) :=
  List.any_append

end Optional

/-! ## Encodings -/

theorem asNat_ofNat (n : Nat) : asNat (ofNat n) = .ok n := by
  show (if (n : Int) < 0 then Except.error DecodeFault.shape else .ok (n : Int).toNat) = _
  rw [if_neg (by omega), Int.toNat_natCast]

/-- A decoder gives back what was encoded, unless one of its numbers was lost. -/
def Restores (encode : α → Json) (decode : Json → Decoded α) (numbers : α → List Float) (a : α) :
    Prop :=
  decode (encode a) = if (numbers a).all Float.isFinite then .ok a else .error .shape

theorem asFloat_ofFloat (x : Float) :
    asFloat (ofFloat x) = if x.isFinite then .ok x else .error .shape := by
  unfold ofFloat
  split
  · rfl
  · rfl

theorem ok_bind {β : Type} (a : α) (f : α → Decoded β) : (Except.ok a >>= f) = f a :=
  rfl

theorem ite_ok_bind {β : Type} (p : Prop) [Decidable p] (a : α) (f : α → Decoded β) :
    ((if p then Except.ok a else Except.error DecodeFault.shape) >>= f) =
      if p then f a else .error .shape := by
  split
  · rfl
  · rfl

theorem map_ite_ok {β : Type} (p : Prop) [Decidable p] (a : α) (f : α → β) :
    (f <$> (if p then Except.ok a else Except.error DecodeFault.shape : Decoded α)) =
      if p then .ok (f a) else .error .shape := by
  split
  · rfl
  · rfl

theorem restores_ofFloat (x : Float) : Restores ofFloat asFloat (fun x => [x]) x := by
  unfold Restores
  rw [asFloat_ofFloat]
  simp

section Combined

variable {encode : α → Json} {decode : Json → Decoded α} {numbers : α → List Float}

theorem Restores.list {as : List α} (h : ∀ a ∈ as, Restores encode decode numbers a) :
    Restores (fun as => .arr (as.map encode)) (asList decode) (fun as => as.flatMap numbers) as := by
  unfold Restores asList
  induction as with
  | nil => rfl
  | cons a as ih =>
    have ha := h a List.mem_cons_self
    have ih := ih fun b hb => h b (List.mem_cons_of_mem _ hb)
    dsimp only at ih ⊢
    rw [List.map_cons, List.mapM_cons, ha, ih]
    simp only [List.flatMap_cons, List.all_append]
    cases (numbers a).all Float.isFinite with
    | false => rfl
    | true => cases (as.flatMap numbers).all Float.isFinite <;> rfl

theorem Restores.option {o : Option α} (h : ∀ a ∈ o, Restores encode decode numbers a)
    (hn : ∀ a, encode a ≠ .null) :
    Restores (ofOption encode) (asOption decode) (fun o => o.toList.flatMap numbers) o := by
  unfold Restores
  cases o with
  | none => rfl
  | some a =>
    have ha : asOption decode (encode a) = (decode (encode a)).map some := by
      unfold asOption
      split
      · rename_i h0
        exact absurd h0 (hn a)
      · rfl
    show asOption decode (encode a) = _
    rw [ha, h a rfl]
    simp only [Option.toList_some, List.flatMap_singleton]
    cases (numbers a).all Float.isFinite <;> rfl

end Combined

end QueryForecast.Json
