import QueryForecast.Proofs.Json.Distinct
import QueryForecast.Proofs.Json.Records

/-!
# Entries that are taken out

A field that comes as `null` and one that does not come at all are two cases for a decoder. They are
the same one when setting the field to `null` changes nothing in a record where it is still absent.
Then entries with `null` can be taken out of an object, and the same is read, or the same fault found.

* `Shed` — what is left of some entries when some `null` ones are taken out.
* `Shed.get?_cases` — what is found under a name that is not taken out.
* `Forgiving` — a record in which `null` is like an absent field, for some of its fields.
* `readEntries_shed`, `asRecord_shed` — reading what is left.
* `exists_readEntries_eq_error`, `exists_asList_eq_error` — what one entry or item is refused for, the
  whole is refused for.
-/

namespace QueryForecast.Json

/-- What is left of some entries when some are taken out that are `null` and have a name that `may` be
taken out. The values of the others may change within `part`. -/
inductive Shed (may : String → Prop) (part : String → Json → Json → Prop) : Entries → Entries → Prop
  | nil : Shed may part [] []
  | drop {name : String} {es fs : Entries} (h : may name) (rest : Shed may part es fs) :
      Shed may part ((name, .null) :: es) fs
  | keep {name : String} {v w : Json} {es fs : Entries} (h : part name v w)
      (rest : Shed may part es fs) : Shed may part ((name, v) :: es) ((name, w) :: fs)

/-- What is left of a value when entries are taken out of it, should it be an object. -/
inductive ShedObject (may : String → Prop) : Json → Json → Prop
  | same (v : Json) : ShedObject may v v
  | obj {es fs : Entries} (h : Shed may (fun _ v w => v = w) es fs) :
      ShedObject may (.obj es) (.obj fs)

variable {may may' : String → Prop} {part part' : String → Json → Json → Prop} {es fs : Entries}

namespace Shed

/-- Only the names and values that are there matter. -/
theorem imp (h : Shed may part es fs) (hmay : ∀ name, (name, .null) ∈ es → may name → may' name)
    (hpart : ∀ name v w, (name, v) ∈ es → part name v w → part' name v w) :
    Shed may' part' es fs := by
  induction h with
  | nil => exact .nil
  | drop h _ ih =>
    exact .drop (hmay _ List.mem_cons_self h)
      (ih (fun _ hm => hmay _ (List.mem_cons_of_mem _ hm))
        fun _ _ _ hm => hpart _ _ _ (List.mem_cons_of_mem _ hm))
  | keep h _ ih =>
    exact .keep (hpart _ _ _ List.mem_cons_self h)
      (ih (fun _ hm => hmay _ (List.mem_cons_of_mem _ hm))
        fun _ _ _ hm => hpart _ _ _ (List.mem_cons_of_mem _ hm))

/-- When no name may be taken out and no value changes, everything is left. -/
theorem eq_of_forall_not (h : Shed may (fun _ v w => v = w) es fs)
    (hmay : ∀ name, (name, .null) ∈ es → ¬ may name) : es = fs := by
  induction h with
  | nil => rfl
  | drop h _ _ => exact absurd h (hmay _ List.mem_cons_self)
  | keep h _ ih => rw [h, ih fun _ hm => hmay _ (List.mem_cons_of_mem _ hm)]

/-- **Under a name that may not be taken out**, what is left has a value when the entries have one. -/
theorem get?_cases (h : Shed may part es fs) {name : String} (hn : ¬ may name) :
    (es.get? name = none ∧ fs.get? name = none) ∨
      ∃ v w, es.get? name = some v ∧ fs.get? name = some w ∧ (name, v) ∈ es ∧ part name v w := by
  unfold Entries.get?
  induction h with
  | nil => exact .inl ⟨rfl, rfl⟩
  | @drop other es fs h _ ih =>
    have hne : (name == other) = false := beq_false_of_ne fun he => hn (he ▸ h)
    rw [List.lookup_cons, hne]
    exact ih.imp_right fun ⟨v, w, hv, hw, hm, hp⟩ => ⟨v, w, hv, hw, List.mem_cons_of_mem _ hm, hp⟩
  | @keep other v w es fs h _ ih =>
    rw [List.lookup_cons, List.lookup_cons]
    by_cases he : name = other
    · subst he
      rw [beq_self_eq_true]
      exact .inr ⟨v, w, rfl, rfl, List.mem_cons_self, h⟩
    · rw [beq_false_of_ne he]
      exact ih.imp_right fun ⟨v, w, hv, hw, hm, hp⟩ => ⟨v, w, hv, hw, List.mem_cons_of_mem _ hm, hp⟩

theorem has_eq (h : Shed may part es fs) {name : String} (hn : ¬ may name) :
    es.has name = fs.has name := by
  unfold Entries.has
  induction h with
  | nil => rfl
  | @drop other es fs h _ ih =>
    have hne : (other == name) = false := beq_false_of_ne fun he => hn (he ▸ h)
    rw [List.any_cons, hne, Bool.false_or, ih]
  | keep _ _ ih => rw [List.any_cons, List.any_cons, ih]

end Shed

/-! ## Records -/

variable {α : Type} {form : RecordForm} {set : String → Json → α → Decoded α}
  {restrict : α → List String → α}

/-- **A record in which `null` is like an absent field**, for the fields that are `lenient`. `restrict`
keeps the fields with the given names and makes the others absent. -/
structure Forgiving (form : RecordForm) (set : String → Json → α → Decoded α)
    (restrict : α → List String → α) (lenient : String → Prop) : Prop where
  required : form.required = []
  set_restrict : ∀ name ∈ form.fields, ∀ (v : Json) (r : α) (names : List String),
    set name v (restrict r names) = (set name v r).map (restrict · (name :: names))
  set_null : ∀ name ∈ form.fields, lenient name → ∀ (r : α) (names : List String), name ∉ names →
    set name .null (restrict r names) = .ok (restrict r names)

namespace Forgiving

variable {lenient : String → Prop} {name : String} {r next : α} {seen : List String} {v : Json}

/-- Fields that were not read are absent in the next record as well. -/
theorem restrict_next (L : Forgiving form set restrict lenient) (hf : name ∈ form.fields)
    (hr : restrict r seen = r) (h : set name v r = .ok next) : restrict next (name :: seen) = next := by
  have hs := L.set_restrict name hf v r seen
  rw [hr, h] at hs
  exact (Except.ok.inj hs).symm

theorem set_null_of_absent (L : Forgiving form set restrict lenient) (hf : name ∈ form.fields)
    (hl : lenient name) (hr : restrict r seen = r) (hn : name ∉ seen) : set name .null r = .ok r := by
  have hs := L.set_null name hf hl r seen hn
  rwa [hr] at hs

end Forgiving

/-- **The same is read from what is left of some entries**, or the same fault is found. -/
theorem readEntries_shed {lenient : String → Prop} (L : Forgiving form set restrict lenient)
    (h : Shed lenient part es fs) (hes : (es.map Prod.fst).Nodup)
    (hpart : ∀ name v w, (name, v) ∈ es → part name v w → ∀ r, set name v r = set name w r)
    {seen seen' : List String} {r : α} (hr : restrict r seen = r)
    (hseen : (es.map Prod.fst).Disjoint seen) (hseen' : (es.map Prod.fst).Disjoint seen') :
    readEntries form set seen r es = readEntries form set seen' r fs := by
  induction h generalizing seen seen' r with
  | nil =>
    unfold readEntries
    rw [L.required]
    rfl
  | @drop name es fs h _ ih =>
    rw [List.map_cons, List.disjoint_cons_left] at hseen hseen'
    rw [List.map_cons, List.nodup_cons] at hes
    have hpart : ∀ name v w, (name, v) ∈ es → part name v w → ∀ r, set name v r = set name w r :=
      fun _ _ _ hm => hpart _ _ _ (List.mem_cons_of_mem _ hm)
    rw [readEntries]
    split
    · rename_i hf
      rw [List.contains_iff_mem] at hf
      have hnull := L.set_null_of_absent hf h hr hseen.1
      rw [if_neg fun hc => hseen.1 (List.contains_iff_mem.1 hc), hnull]
      exact ih hes.2 hpart (L.restrict_next hf hr hnull)
        (List.disjoint_cons_right.2 ⟨hes.1, hseen.2⟩) hseen'.2
    · exact ih hes.2 hpart hr hseen.2 hseen'.2
  | @keep name v w es fs h _ ih =>
    rw [List.map_cons, List.disjoint_cons_left] at hseen hseen'
    rw [List.map_cons, List.nodup_cons] at hes
    have hset := hpart name v w List.mem_cons_self h r
    have hpart : ∀ name v w, (name, v) ∈ es → part name v w → ∀ r, set name v r = set name w r :=
      fun _ _ _ hm => hpart _ _ _ (List.mem_cons_of_mem _ hm)
    rw [readEntries, readEntries]
    split
    · rename_i hf
      rw [List.contains_iff_mem] at hf
      rw [if_neg fun hc => hseen.1 (List.contains_iff_mem.1 hc),
        if_neg fun hc => hseen'.1 (List.contains_iff_mem.1 hc), ← hset]
      cases hs : set name v r with
      | error fault => rfl
      | ok next =>
        exact ih hes.2 hpart (L.restrict_next hf hr hs)
          (List.disjoint_cons_right.2 ⟨hes.1, hseen.2⟩)
          (List.disjoint_cons_right.2 ⟨hes.1, hseen'.2⟩)
    · exact ih hes.2 hpart hr hseen.2 hseen'.2

theorem asRecord_shed {lenient : String → Prop} (L : Forgiving form set restrict lenient)
    {start : α} (hs : restrict start [] = start) {v w : Json} (h : ShedObject lenient v w)
    (hv : Distinct v) : asRecord form set start v = asRecord form set start w := by
  cases h with
  | same => rfl
  | obj h =>
    cases hv with
    | obj hn _ =>
      exact readEntries_shed L h hn (fun _ _ _ _ he _ => by rw [he]) hs
        (List.disjoint_nil_right _) (List.disjoint_nil_right _)

/-! ## Parts -/

theorem ShedObject.asOption_eq {decode : Json → Decoded α} {v w : Json} (h : ShedObject may v w)
    (hd : decode v = decode w) : asOption decode v = asOption decode w := by
  cases h with
  | same => rfl
  | obj _ => exact congrArg (·.map some) hd

theorem asList_congr {decode : Json → Decoded α} {vs ws : List Json}
    (h : List.Forall₂ (fun v w => decode v = decode w) vs ws) :
    asList decode (.arr vs) = asList decode (.arr ws) := by
  unfold asList
  dsimp only
  induction h with
  | nil => rfl
  | cons h _ ih => rw [List.mapM_cons, List.mapM_cons, h, ih]

/-! ## Faults -/

/-- What one field refuses, the record refuses. -/
theorem exists_readEntries_eq_error {name : String} {v : Json} (hm : (name, v) ∈ es)
    (hf : name ∈ form.fields) (h : ∀ r, ∃ fault, set name v r = .error fault) (seen : List String)
    (r : α) : ∃ fault, readEntries form set seen r es = .error fault := by
  induction es generalizing seen r with
  | nil => cases hm
  | cons e rest ih =>
    unfold readEntries
    rcases List.mem_cons.1 hm with rfl | hm
    · rw [if_pos (List.contains_iff_mem.2 hf)]
      split
      · exact ⟨_, rfl⟩
      · obtain ⟨fault, hfault⟩ := h r
        rw [hfault]
        exact ⟨fault, rfl⟩
    · split
      · split
        · exact ⟨_, rfl⟩
        · split
          · exact ih hm _ _
          · exact ⟨_, rfl⟩
      · exact ih hm _ _

/-- What is refused as an item is refused in a list. -/
theorem exists_asList_eq_error {decode : Json → Decoded α} {vs : List Json} {v : Json} (hm : v ∈ vs)
    (h : ∃ fault, decode v = .error fault) : ∃ fault, asList decode (.arr vs) = .error fault := by
  unfold asList
  dsimp only
  obtain ⟨fault, hf⟩ := h
  induction vs with
  | nil => cases hm
  | cons w rest ih =>
    rw [List.mapM_cons]
    rcases List.mem_cons.1 hm with rfl | hm
    · rw [hf]
      exact ⟨fault, rfl⟩
    · cases decode w with
      | error fault => exact ⟨fault, rfl⟩
      | ok a =>
        obtain ⟨fault, hrest⟩ := ih hm
        rw [hrest]
        exact ⟨fault, rfl⟩

end QueryForecast.Json
