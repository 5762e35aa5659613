/-!
# Feature vectors

Named numbers in the order in which they were first given. A name has one value: giving it another
replaces the value where it stands.
-/

namespace QueryForecast

/-- Named numbers; no name occurs twice. -/
structure FeatureVector where
  entries : List (String × Float) := []
  nodup : (entries.map (·.1)).Nodup := by exact List.nodup_nil

namespace FeatureVector

/-- The names of a vector, in order. -/
def names (v : FeatureVector) : List String :=
  v.entries.map (·.1)

/-- The value of a name. -/
def get? (v : FeatureVector) (name : String) : Option Float :=
  v.entries.lookup name

/-- Whether a vector has a name. -/
def contains (v : FeatureVector) (name : String) : Bool :=
  (v.get? name).isSome

/-- Sets the value of a name in a list of entries. -/
def put (name : String) (x : Float) : List (String × Float) → List (String × Float)
  | [] => [(name, x)]
  | (name', y) :: rest =>
    if name' = name then (name', x) :: rest else (name', y) :: put name x rest

theorem mem_names_put {name n : String} {x : Float} {entries : List (String × Float)} :
    n ∈ (put name x entries).map (·.1) ↔ n = name ∨ n ∈ entries.map (·.1) := by
  induction entries with
  | nil => simp [put]
  | cons entry rest ih =>
    obtain ⟨name', y⟩ := entry
    by_cases h : name' = name
    · subst h; simp [put]
    · simp only [put, h, if_false, List.map_cons, List.mem_cons, ih]
      exact ⟨fun h => h.elim (fun h => .inr (.inl h)) (fun h => h.elim .inl fun h => .inr (.inr h)),
        fun h => h.elim (fun h => .inr (.inl h)) fun h => h.elim .inl fun h => .inr (.inr h)⟩

theorem nodup_put {name : String} {x : Float} {entries : List (String × Float)}
    (h : (entries.map (·.1)).Nodup) : ((put name x entries).map (·.1)).Nodup := by
  induction entries with
  | nil => simp [put]
  | cons entry rest ih =>
    obtain ⟨name', y⟩ := entry
    rw [List.map_cons, List.nodup_cons] at h
    by_cases hn : name' = name
    · rw [put, if_pos hn, List.map_cons, List.nodup_cons]
      exact h
    · simp only [put, hn, if_false, List.map_cons, List.nodup_cons]
      refine ⟨fun hm => ?_, ih h.2⟩
      rcases mem_names_put.1 hm with he | he
      · exact hn he
      · exact h.1 he

/-- The vector with a name set to a value. -/
def insert (v : FeatureVector) (name : String) (x : Float) : FeatureVector where
  entries := put name x v.entries
  nodup := nodup_put v.nodup

/-- The vector that results from setting names one after the other. -/
def ofList (entries : List (String × Float)) : FeatureVector :=
  entries.foldl (fun v entry => v.insert entry.1 entry.2) {}

end FeatureVector

end QueryForecast
