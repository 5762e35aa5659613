import QueryForecast.Proofs.Json.Reparsing

/-!
# Records whose entries were reordered

A map of values may put the entries of objects into another order, as sorting does, and leave all
else alone. Reading a record in whatever order its entries come adds one part after the other, so the
record is known as soon as it is known what each step adds.

* `Reorders` — such a map; doing nothing and printing and parsing are two.
* `readEntries_restrict` — reading entries, if each of them restores one part of a record.
* `exists_readEntries_restrict`, `Reorders.asRecord_eq` — so for entries in another order.
-/

namespace QueryForecast.Json

/-- A map of values that puts the entries of objects into another order and leaves all else alone. -/
structure Reorders (f : Json → Json) : Prop where
  bool (b : Bool) : f (.bool b) = .bool b
  count (n : Nat) : f (ofNat n) = ofNat n
  float (x : Float) : f (ofFloat x) = ofFloat x
  str (s : String) : f (.str s) = .str s
  arr (items : List Json) : f (.arr items) = .arr (items.map f)
  obj (entries : Entries) (h : (entries.map Prod.fst).Nodup) :
    ∃ entries', f (.obj entries) = .obj entries' ∧
      entries'.Perm (entries.map fun e => (e.1, f e.2))

theorem Reorders.id : Reorders fun v => v where
  bool _ := rfl
  count _ := rfl
  float _ := rfl
  str _ := rfl
  arr items := congrArg Json.arr (List.map_id' items).symm
  obj entries _ := ⟨entries, rfl, by rw [List.map_id'' fun _ => rfl]⟩

theorem Reorders.reparsed : Reorders reparsed where
  bool _ := rfl
  count _ := rfl
  float x := reparsed_ofFloat x
  str _ := rfl
  arr items := congrArg Json.arr (reparsedItems_eq_map items)
  obj entries h := by
    refine ⟨_, rfl, ?_⟩
    rw [← reparsedEntries_eq_map]
    exact Entries.lastOfEach_perm (by rwa [names_reparsedEntries])

/-! ## Parts of records -/

section Records

variable {α : Type} {form : RecordForm} {set : String → Json → α → Decoded α}
  {restrict : List String → α}

/-- **Entries that each restore one part of a record restore all parts that they name.** `restrict`
is the record without the parts that are not among some names. -/
theorem readEntries_restrict {entries : Entries} (hn : (entries.map Prod.fst).Nodup)
    (hr : form.required = [])
    (hset : ∀ e ∈ form.known entries, ∀ names,
      set e.1 e.2 (restrict names) = .ok (restrict (e.1 :: names))) :
    readEntries form set [] (restrict []) entries =
      .ok (restrict ((form.known entries).map Prod.fst).reverse) := by
  have hfold : ∀ (known : Entries) (names : List String),
      (∀ e ∈ known, ∀ names, set e.1 e.2 (restrict names) = .ok (restrict (e.1 :: names))) →
      known.foldlM (fun record e => set e.1 e.2 record) (restrict names) =
        .ok (restrict ((known.map Prod.fst).reverse ++ names)) := by
    intro known
    induction known with
    | nil => exact fun _ _ => rfl
    | cons e rest ih =>
      intro names h
      rw [List.forall_mem_cons] at h
      rw [List.foldlM_cons, h.1, ok_bind, ih _ h.2, List.map_cons, List.reverse_cons,
        List.append_assoc]
      rfl
  have hk : ((form.known entries).map Prod.fst).Nodup :=
    hn.sublist (List.filter_sublist.map Prod.fst)
  rw [readEntries_eq_foldlM hk (by simp) (by simp [hr]), hfold _ _ hset, List.append_nil]

variable {f : Json → Json}

variable (form set restrict) in
/-- **So do entries that were reordered.** -/
theorem exists_readEntries_restrict {entries entries' : Entries}
    (hn : (entries.map Prod.fst).Nodup) (hr : form.required = [])
    (hp : entries'.Perm (entries.map fun e => (e.1, f e.2)))
    (hset : ∀ e ∈ form.known entries, ∀ names,
      set e.1 (f e.2) (restrict names) = .ok (restrict (e.1 :: names))) :
    ∃ names, (∀ name, name ∈ names ↔ name ∈ form.fields ∧ name ∈ entries.map Prod.fst) ∧
      readEntries form set [] (restrict []) entries' = .ok (restrict names) := by
  have hnames : (entries'.map Prod.fst).Perm (entries.map Prod.fst) := by
    have h := hp.map Prod.fst
    rwa [List.map_map] at h
  have hset' : ∀ e ∈ form.known entries', ∀ names,
      set e.1 e.2 (restrict names) = .ok (restrict (e.1 :: names)) := by
    intro e he
    obtain ⟨hm, hc⟩ := List.mem_filter.1 he
    obtain ⟨d, hd, rfl⟩ := List.mem_map.1 (hp.mem_iff.1 hm)
    exact hset d (List.mem_filter.2 ⟨hd, hc⟩)
  refine ⟨_, fun name => ?_, readEntries_restrict (hnames.nodup_iff.2 hn) hr hset'⟩
  rw [List.mem_reverse]
  show name ∈ (entries'.filter (form.fields.contains ∘ Prod.fst)).map Prod.fst ↔ _
  rw [← List.filter_map, List.mem_filter, hnames.mem_iff, List.contains_iff_mem, and_comm]

/-- **So does an object that was reordered**, and it restores the whole record if every part that no
entry names is absent. -/
theorem Reorders.asRecord_eq (hf : Reorders f) (restrict : List String → α) {entries : Entries}
    {record : α} (hn : (entries.map Prod.fst).Nodup) (hr : form.required = [])
    (hset : ∀ e ∈ entries, ∀ names,
      set e.1 (f e.2) (restrict names) = .ok (restrict (e.1 :: names)))
    (hall : ∀ names, (∀ e ∈ entries, e.1 ∈ form.fields → e.1 ∈ names) → restrict names = record) :
    asRecord form set (restrict []) (f (.obj entries)) = .ok record := by
  obtain ⟨entries', he, hp⟩ := hf.obj entries hn
  obtain ⟨names, hm, hread⟩ := exists_readEntries_restrict form set restrict hn hr hp fun e he =>
    hset e (List.mem_filter.1 he).1
  rw [he]
  show readEntries form set [] (restrict []) entries' = .ok record
  rw [hread, hall names fun e he hf => (hm e.1).2 ⟨hf, List.mem_map_of_mem he⟩]

end Records

/-! ## Parts that decode -/

variable {α β : Type}

/-- What is not `null` is a value that is there. -/
theorem asOption_of_ok {decode : Json → Decoded α} {v : Json} {a : α} (h : decode v = .ok a)
    {fault : DecodeFault} (hnull : decode .null = .error fault) :
    asOption decode v = .ok (some a) := by
  unfold asOption
  split
  · rw [hnull] at h
    cases h
  · rw [h]
    rfl

theorem Reorders.asList_eq {f : Json → Json} (hf : Reorders f) {encode : α → Json}
    {decode : Json → Decoded β} {g : α → β} {as : List α}
    (h : ∀ a ∈ as, decode (f (encode a)) = .ok (g a)) :
    asList decode (f (.arr (as.map encode))) = .ok (as.map g) := by
  rw [hf.arr, List.map_map]
  show (as.map _).mapM decode = _
  induction as with
  | nil => rfl
  | cons a as ih =>
    rw [List.forall_mem_cons] at h
    rw [List.map_cons, List.mapM_cons, ih h.2]
    show (decode (f (encode a)) >>= _) = _
    rw [h.1]
    rfl

/-- A double as it comes back, for one that is not finite is lost. -/
def finiteOrZero (x : Float) : Float :=
  if x.isFinite then x else 0.0

theorem asMeasure_ofFloat (x : Float) : asMeasure (ofFloat x) = .ok (finiteOrZero x) := by
  unfold ofFloat finiteOrZero
  split <;> rfl

end QueryForecast.Json
