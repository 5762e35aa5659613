import QueryForecast.Storage.Writing

/-!
# What was written is read

A file is put where its path leads to, and its path still leads there: what is put is no directory
that the path goes through.

* `Storage.follow_put` — a path is followed as before after something is put at its end.
* `Storage.find?_of_modify` — a changed file is found with its new content.
* `Storage.read?_of_append` — bytes that were added are read behind those that were there.
* `Storage.read?_of_replace` — a new content is read alone.
-/

namespace QueryForecast.Storage

variable {s s' : Storage} {location last : Location} {p : Path}

theorem not_isGiven (h : s.stored? location ≠ some .directory) :
    Location.isGiven location = false := by
  unfold stored? at h
  split at h
  · exact absurd rfl h
  · rename_i hg
    exact Bool.not_eq_true _ ▸ hg

theorem stored?_put_of_ne (s : Storage) (what : Stored) (h : location ≠ last) :
    (s.put last what).stored? location = s.stored? location := by
  have hl : (s.put last what).entries.lookup location = s.entries.lookup location := by
    have hne : (location == last) = false := beq_eq_false_iff_ne.2 h
    show List.lookup location ((last, what) :: s.entries.filter fun entry => entry.1 ≠ last) = _
    rw [List.lookup_cons, hne]
    dsimp only
    induction s.entries with
    | nil => rfl
    | cons entry entries ih =>
      obtain ⟨place, kept⟩ := entry
      by_cases hp : place = last
      · have hf : (location == place) = false := by rw [hp, hne]
        rw [List.filter_cons_of_neg (by simp [hp]), List.lookup_cons, hf]
        exact ih
      · rw [List.filter_cons_of_pos (by simp [hp]), List.lookup_cons, List.lookup_cons, ih]
  unfold stored?
  rw [hl]

/-- **A path is followed as before after something is put at its end**, where no directory was. -/
theorem follow_put (what : Stored) (hd : s.stored? last ≠ some .directory) :
    ∀ {location : Location} {pieces : List String}, s.follow location pieces = .ok last →
      (s.put last what).follow location pieces = .ok last
  | _, [], h => h
  | location, piece :: rest, h => by
    -- The path goes on from here, so here is a directory, and nothing was put at it.
    unfold follow at h ⊢
    split at h
    · cases h
    · cases h
    · rename_i hs
      have hne : location ≠ last := by
        rintro rfl
        exact hd hs
      rw [stored?_put_of_ne s what hne, hs]
      dsimp only at h ⊢
      split at h
      · rename_i hstays
        rw [if_pos hstays]
        exact follow_put what hd h
      rename_i hstays
      rw [if_neg hstays]
      split at h
      · rename_i hup
        rw [if_pos hup]
        exact follow_put what hd h
      rename_i hup
      rw [if_neg hup]
      split at h
      · cases h
      · rename_i hsize
        rw [if_neg hsize]
        exact follow_put what hd h

theorem locate_put (what : Stored) (hd : s.stored? last ≠ some .directory)
    (h : s.locate p = .ok last) : (s.put last what).locate p = .ok last := by
  unfold locate at h ⊢
  split at h
  · rename_i hu
    rw [if_pos hu]
    exact follow_put what hd h
  · cases h

/-- **A changed file is found with its new content.** -/
theorem find?_of_modify {change : List UInt8 → List UInt8} (h : s.modify p change = some s') :
    ∃ bytes, (s.find? p = some (.file bytes) ∨ s.find? p = none ∧ bytes = []) ∧
      s'.find? p = some (.file (change bytes)) := by
  unfold modify at h
  split at h
  · cases h
  · rename_i last hl
    have hfind : s.find? p = s.stored? last := by
      unfold find?
      rw [hl]
    have hput : ∀ bytes, s.stored? last ≠ some .directory →
        (s.put last (.file bytes)).find? p = some (.file bytes) := by
      intro bytes hd
      unfold find?
      rw [locate_put _ hd hl]
      exact stored?_put _ _ (not_isGiven hd)
    split at h
    · cases h
    · rename_i bytes hs
      cases h
      exact ⟨bytes, .inl (hfind.trans hs), hput _ (by rw [hs]; simp)⟩
    · rename_i hs
      cases h
      exact ⟨[], .inr ⟨hfind.trans hs, rfl⟩, hput _ (by rw [hs]; simp)⟩

/-- The storage once the directories above a path are made, as far as they can be. -/
def withDirectories (s : Storage) (path : String) : Storage :=
  (s.makeDirectories (Path.ofString path).directories).2

/-- **Bytes that were added are read behind those that were there.** -/
theorem read?_of_append {path : String} {bytes : List UInt8} (h : s.append path bytes = (true, s')) :
    s'.read? path = some (((s.withDirectories path).read? path).getD [] ++ bytes) := by
  unfold append at h
  unfold withDirectories
  dsimp only at h
  split at h
  · cases h
  · rename_i made hmade
    rw [hmade]
    split at h
    · rename_i written hwritten
      cases h
      obtain ⟨old, hold, hnew⟩ := find?_of_modify hwritten
      unfold read?
      rw [hnew]
      rcases hold with hold | ⟨hold, rfl⟩
      · rw [hold]
        rfl
      · rw [hold]
        rfl
    · cases h

/-- **A new content is read alone**, whatever the file held before. -/
theorem read?_of_replace {path : String} {bytes : List UInt8}
    (h : s.replace path bytes = (true, s')) : s'.read? path = some bytes := by
  unfold replace at h
  dsimp only at h
  split at h
  · cases h
  · split at h
    · cases h
    · split at h
      · rename_i written hwritten
        cases h
        obtain ⟨-, -, hnew⟩ := find?_of_modify hwritten
        unfold read?
        rw [hnew]
      · cases h

end QueryForecast.Storage
