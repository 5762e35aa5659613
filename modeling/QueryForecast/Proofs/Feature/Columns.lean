import QueryForecast.Proofs.Model.Encoding

/-!
# Columns of feature vectors

A schema that is made of some vectors has a column for each of their names, so aligning one of them
moves its values and loses none.

* `FeatureVector.entries_ofList` — names that differ keep their values and their order.
* `Schema.Builder.Sound.add`, `Schema.Builder.Sound.foldl_add` — one name more, and all names.
* `Schema.exists_ofVectors_eq` — vectors always have a schema, and what its names are.
* `Schema.getElem?_place`, `Schema.align_eq` — one value more, and all values of a row.
* `Schema.align_congr`, `Schema.at_align_congr` — vectors that agree on the names of the schema, or on
  all but one of them.
* `Schema.all_isFinite_align` — an aligned row is finite exactly when the vector is.
-/

namespace QueryForecast

/-- Looking up a name among entries of which the first is known. -/
theorem lookup_cons_eq {κ α : Type} [BEq κ] [LawfulBEq κ] [DecidableEq κ] {entries : List (κ × α)}
    {other : κ} (name : κ) (x : α) :
    ((name, x) :: entries).lookup other = if other = name then some x else entries.lookup other := by
  rw [List.lookup_cons]
  by_cases ho : other = name
  · rw [if_pos ho, beq_iff_eq.2 ho]
  · rw [if_neg ho, beq_false_of_ne ho]

/-- Names that differ have the values of their entries. -/
theorem lookup_eq_some_iff_mem {α : Type} {entries : List (String × α)}
    (h : (entries.map (·.1)).Nodup) {name : String} {x : α} :
    entries.lookup name = some x ↔ (name, x) ∈ entries := by
  rw [List.lookup_eq_some_iff]
  constructor
  · rintro ⟨before, after, he, -⟩
    rw [he]
    exact List.mem_append_right _ List.mem_cons_self
  · intro hm
    obtain ⟨before, after, he⟩ := List.append_of_mem hm
    refine ⟨before, after, he, fun e hb => ?_⟩
    rw [he, List.map_append, List.nodup_append] at h
    rw [bne_iff_ne]
    exact (h.2.2 e.1 (List.mem_map_of_mem hb) name List.mem_cons_self).symm

namespace FeatureVector

theorem put_of_not_mem {name : String} {x : Float} {entries : List (String × Float)}
    (h : name ∉ entries.map (·.1)) : put name x entries = entries ++ [(name, x)] := by
  induction entries with
  | nil => rfl
  | cons e rest ih =>
    rw [List.map_cons, List.mem_cons, not_or] at h
    unfold put
    rw [if_neg (Ne.symm h.1), ih h.2]
    rfl

theorem entries_foldl_insert {l : List (String × Float)} {v : FeatureVector}
    (hv : ∀ e ∈ l, e.1 ∉ v.entries.map (·.1)) (hl : (l.map (·.1)).Nodup) :
    (l.foldl (fun v e => v.insert e.1 e.2) v).entries = v.entries ++ l := by
  induction l generalizing v with
  | nil => exact (List.append_nil _).symm
  | cons first rest ih =>
    rw [List.forall_mem_cons] at hv
    rw [List.map_cons, List.nodup_cons] at hl
    have hput : (v.insert first.1 first.2).entries = v.entries ++ [first] := put_of_not_mem hv.1
    have hrest : ∀ e ∈ rest, e.1 ∉ (v.insert first.1 first.2).entries.map (·.1) := by
      intro e he hm
      rw [hput, List.map_append, List.mem_append, List.map_singleton, List.mem_singleton] at hm
      rcases hm with hm | hm
      · exact hv.2 e he hm
      · exact hl.1 (List.mem_map.2 ⟨e, he, hm⟩)
    rw [List.foldl_cons, ih hrest hl.2, hput, List.append_assoc]
    rfl

/-- Setting names that differ gives the entries themselves. -/
theorem entries_ofList {l : List (String × Float)} (h : (l.map (·.1)).Nodup) :
    (ofList l).entries = l :=
  entries_foldl_insert (fun _ _ hm => nomatch hm) h

/-- The value of a name is that of its entry. -/
theorem get?_eq_some_iff {v : FeatureVector} {name : String} {x : Float} :
    v.get? name = some x ↔ (name, x) ∈ v.entries :=
  lookup_eq_some_iff_mem v.nodup

end FeatureVector

namespace Schema

/-! ## Collecting names -/

theorem eraseDups_of_nodup {names : List String} (h : names.Nodup) : names.eraseDups = names := by
  induction names with
  | nil => rfl
  | cons name rest ih =>
    rw [List.nodup_cons] at h
    have hrest : rest.filter (fun other => !other == name) = rest :=
      List.filter_eq_self.2 fun other hm => by
        rw [Bool.not_eq_true', beq_eq_false_iff_ne]
        exact ne_of_mem_of_not_mem hm h.1
    rw [List.eraseDups_cons, hrest, ih h.2]

namespace Builder

/-- The positions are those of the names, none of which occurs twice. -/
structure Sound (b : Builder) : Prop where
  nodup : b.names.Nodup
  indexed : b.seen = b.names.zipIdx

theorem Sound.lookup_eq_none_iff {b : Builder} (h : b.Sound) {name : String} :
    b.seen.lookup name = none ↔ name ∉ b.names := by
  have hn : ∀ entry : String × Nat, (name != entry.1) = true ↔ entry.1 ≠ name := by
    intro entry
    rw [bne_iff_ne, ne_comm]
  rw [h.indexed, List.lookup_eq_none_iff]
  simp only [hn]
  rw [← List.forall_mem_map (f := Prod.fst) (P := (· ≠ name)), List.zipIdx_map_fst]
  exact List.forall_mem_ne'

/-- **One name more** is put last, unless it is there. -/
theorem Sound.add {b : Builder} (h : b.Sound) (name : String) :
    (b.add name).Sound ∧
      (b.add name).names = if name ∈ b.names then b.names else b.names ++ [name] := by
  unfold Builder.add
  split
  · rename_i hl
    have hm : name ∈ b.names := by
      by_contra hm
      rw [h.lookup_eq_none_iff.2 hm] at hl
      cases hl
    exact ⟨h, (if_pos hm).symm⟩
  · rename_i hl
    have hm := h.lookup_eq_none_iff.1 hl
    refine ⟨⟨?_, ?_⟩, (if_neg hm).symm⟩
    · rw [← List.concat_eq_append]
      exact h.nodup.concat hm
    · rw [h.indexed, List.zipIdx_append, Nat.zero_add]
      rfl

/-- **More names** are put last, those that are not there, each at its first occurrence. -/
theorem Sound.foldl_add {b : Builder} (h : b.Sound) (more : List String) :
    (more.foldl Builder.add b).Sound ∧ (more.foldl Builder.add b).names =
      b.names ++ (more.filter fun name => name ∉ b.names).eraseDups := by
  induction more generalizing b with
  | nil => exact ⟨h, (List.append_nil _).symm⟩
  | cons name rest ih =>
    obtain ⟨hs, hn⟩ := h.add name
    obtain ⟨hs', hn'⟩ := ih hs
    refine ⟨hs', ?_⟩
    rw [List.foldl_cons, hn', hn]
    split
    · rename_i hm
      rw [List.filter_cons_of_neg (by simpa using hm)]
    · rename_i hm
      have hp : (fun other => decide (other ∉ b.names ++ [name])) =
          fun other => !other == name && decide (other ∉ b.names) := by
        funext other
        rw [Bool.eq_iff_iff]
        simp [and_comm]
      rw [List.filter_cons_of_pos (by simpa using hm), List.eraseDups_cons, List.filter_filter,
        List.append_assoc, hp]
      rfl

theorem foldl_observe (b : Builder) (vectors : List FeatureVector) :
    vectors.foldl observe b = (vectors.flatMap FeatureVector.names).foldl Builder.add b := by
  induction vectors generalizing b with
  | nil => rfl
  | cons v rest ih =>
    rw [List.foldl_cons, ih, List.flatMap_cons, List.foldl_append]
    rfl

end Builder

/-- **Vectors always have a schema**: the base names, and after them those of the vectors that are
not among them, each at its first occurrence. -/
theorem exists_ofVectors_eq (base : List String) (hb : base ≠ []) (hd : base.Nodup)
    (vectors : List FeatureVector) :
    ∃ s : Schema, ofVectors base vectors = .ok s ∧
      s.names = base ++
        ((vectors.flatMap FeatureVector.names).filter fun name => name ∉ base).eraseDups := by
  have hempty : Builder.Sound {} := ⟨List.nodup_nil, rfl⟩
  obtain ⟨hbase, hnames⟩ := hempty.foldl_add base
  have hkept : (base.filter fun name => name ∉ ({} : Builder).names) = base :=
    List.filter_eq_self.2 fun _ _ => rfl
  rw [hkept, eraseDups_of_nodup hd] at hnames
  obtain ⟨hall, hn⟩ := hbase.foldl_add (vectors.flatMap FeatureVector.names)
  rw [hnames] at hn
  obtain ⟨s, hs, he⟩ := exists_ofNames_eq (by rw [hn]; simp [hb]) hall.nodup
  refine ⟨s, ?_, he.trans hn⟩
  unfold ofVectors Builder.build
  rw [Builder.foldl_observe]
  exact hs

theorem mem_names_ofVectors {base : List String} {vectors : List FeatureVector} {s : Schema}
    (h : s.names = base ++
      ((vectors.flatMap FeatureVector.names).filter fun name => name ∉ base).eraseDups)
    {name : String} : name ∈ s.names ↔ name ∈ base ∨ ∃ v ∈ vectors, name ∈ v.names := by
  rw [h, List.mem_append, List.mem_eraseDups, List.mem_filter, List.mem_flatMap,
    decide_eq_true_eq]
  exact ⟨fun h => h.imp_right And.left, fun h => (em (name ∈ base)).imp_right fun hn =>
    ⟨h.resolve_left hn, hn⟩⟩

/-- The position of a name is where it stands. -/
theorem position?_eq_some_iff {s : Schema} {name : String} {j : Nat} :
    s.position? name = some j ↔ s.names[j]? = some name := by
  unfold position?
  rw [s.indexed, lookup_eq_some_iff_mem (by rw [List.zipIdx_map_fst]; exact s.nodup),
    List.mk_mem_zipIdx_iff_getElem?]

theorem getElem?_place {s : Schema} {row : List Float} (hl : row.length = s.width)
    {entry : String × Float} {j : Nat} {name : String} (hj : s.names[j]? = some name) :
    (s.place row entry)[j]? = if entry.1 = name then some entry.2 else row[j]? := by
  have hlt : j < s.names.length := (List.getElem?_eq_some_iff.1 hj).1
  unfold place
  split
  · rename_i position hp
    rw [position?_eq_some_iff] at hp
    have hpos : position = j ↔ entry.1 = name := by
      constructor
      · rintro rfl
        exact Option.some.inj (hp.symm.trans hj)
      · intro he
        exact (List.getElem?_inj (List.getElem?_eq_some_iff.1 hp).1 s.nodup).1
          (hp.trans (he ▸ hj.symm))
    by_cases he : entry.1 = name
    · rw [if_pos he, hpos.2 he, List.getElem?_set_self (hl.symm ▸ hlt)]
    · rw [if_neg he, List.getElem?_set_ne fun hc => he (hpos.1 hc)]
  · rename_i hp
    rw [if_neg]
    intro he
    rw [position?_eq_some_iff.2 (he ▸ hj)] at hp
    cases hp

/-- **What named values leave in the column of a name**: the value of the name if it has one, and
otherwise what was there. -/
theorem getElem?_foldl_place {s : Schema} {entries : List (String × Float)}
    (hn : (entries.map (·.1)).Nodup) {row : List Float} (hl : row.length = s.width) {j : Nat}
    {name : String} (hj : s.names[j]? = some name) :
    (entries.foldl s.place row)[j]? = (entries.lookup name).or row[j]? := by
  induction entries generalizing row with
  | nil => rfl
  | cons entry rest ih =>
    rw [List.map_cons, List.nodup_cons] at hn
    rw [List.foldl_cons, ih hn.2 (by rw [length_place, hl]), getElem?_place hl hj, List.lookup_cons]
    by_cases he : entry.1 = name
    · have hnone : rest.lookup name = none := by
        rw [List.lookup_eq_none_iff]
        intro e hm
        rw [bne_iff_ne, ← he]
        exact fun hc => hn.1 (List.mem_map.2 ⟨e, hm, hc.symm⟩)
      rw [if_pos he, hnone, ← he, beq_self_eq_true]
      rfl
    · rw [if_neg he, beq_false_of_ne (Ne.symm he)]

/-- **An aligned row holds the value of each column's name**, or zero. -/
theorem align_eq (s : Schema) (v : FeatureVector) :
    s.align v = s.names.map fun name => (v.get? name).getD 0.0 := by
  refine List.ext_getElem? fun j => ?_
  rw [List.getElem?_map]
  cases hj : s.names[j]? with
  | none =>
    rw [List.getElem?_eq_none_iff] at hj
    exact List.getElem?_eq_none_iff.2 (by rw [length_align]; exact hj)
  | some name =>
    have hlt : j < s.width := (List.getElem?_eq_some_iff.1 hj).1
    unfold align
    rw [getElem?_foldl_place v.nodup List.length_replicate hj, List.getElem?_replicate, if_pos hlt,
      Option.map_some]
    unfold FeatureVector.get?
    cases v.entries.lookup name <;> rfl

theorem at_align {s : Schema} {j : Nat} {name : String} (hj : s.names[j]? = some name)
    (v : FeatureVector) : Row.at (s.align v).toArray j = (v.get? name).getD 0.0 := by
  simp [Row.at, align_eq, hj]

theorem at_align_of_le {s : Schema} {j : Nat} (hj : s.names.length ≤ j) (v : FeatureVector) :
    Row.at (s.align v).toArray j = 0.0 := by
  simp [Row.at, align_eq, hj]

/-- Vectors that agree on the names of a schema are aligned alike. -/
theorem align_congr {s : Schema} {v w : FeatureVector}
    (h : ∀ name ∈ s.names, v.get? name = w.get? name) : s.align v = s.align w := by
  rw [align_eq, align_eq]
  apply List.map_congr_left
  intro name hn
  rw [h name hn]

/-- **Vectors that agree on all names but one** are aligned alike outside of its column. -/
theorem at_align_congr {s : Schema} {v w : FeatureVector} {j : Nat} {name : String}
    (hj : s.names[j]? = some name) (h : ∀ other ≠ name, v.get? other = w.get? other) :
    ∀ k ≠ j, Row.at (s.align v).toArray k = Row.at (s.align w).toArray k := by
  intro k hk
  cases hn : s.names[k]? with
  | none =>
    rw [List.getElem?_eq_none_iff] at hn
    rw [at_align_of_le hn, at_align_of_le hn]
  | some other =>
    have hne : other ≠ name := by
      rintro rfl
      exact hk ((List.getElem?_inj (List.getElem?_eq_some_iff.1 hn).1 s.nodup).1 (hn.trans hj.symm))
    rw [at_align hn, at_align hn, h other hne]

/-- A value that a vector has is in the column of its name. -/
theorem getElem?_align_of_mem {s : Schema} {v : FeatureVector} {j : Nat} {name : String} {x : Float}
    (hj : s.names[j]? = some name) (he : (name, x) ∈ v.entries) : (s.align v)[j]? = some x := by
  rw [align_eq, List.getElem?_map, hj, Option.map_some, FeatureVector.get?_eq_some_iff.2 he]
  rfl

/-- **A row is finite exactly when the vector it was aligned from is**, if the schema has its
names. -/
theorem all_isFinite_align {s : Schema} {v : FeatureVector}
    (h : ∀ name ∈ v.names, name ∈ s.names) :
    (s.align v).all Float.isFinite = v.entries.all fun e => e.2.isFinite := by
  rw [align_eq, Bool.eq_iff_iff, List.all_eq_true, List.all_eq_true]
  constructor
  · intro hall e he
    have hx := hall _ (List.mem_map_of_mem (h e.1 (List.mem_map_of_mem he)))
    rwa [FeatureVector.get?_eq_some_iff.2 he] at hx
  · intro hall x hx
    obtain ⟨name, -, rfl⟩ := List.mem_map.1 hx
    cases hg : v.get? name with
    | none => decide
    | some y => exact hall (name, y) (FeatureVector.get?_eq_some_iff.1 hg)

end Schema

end QueryForecast
