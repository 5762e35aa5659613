import QueryForecast.Proofs.Model.Resaved
import QueryForecast.Proofs.Serving.Apart

/-!
# The model slot

An estimator serves at most one model. Making a model active, loading one and taking it out are the
only calls that settle what is in the slot, and only when they succeed.

* `Estimator.reply`, `Reply.settles` — what a call answers about the slot, and whether it changed it.
* `Estimator.slot_cases` — what one call does to the slot.
* `Estimator.LastActivated` — the model of the last call that settled the slot.
* `Estimator.lastActivated_concat` — one call more.
* `Estimator.slot_holds_last_activated` — the slot after any calls, and what the next one answers.
-/

namespace QueryForecast

/-- What a call answers about the model slot. -/
inductive Reply where
  /-- A model was made active; with it comes the one that it replaced. -/
  | activated (replaced : Option Model)
  /-- The model of an artifact was made active. -/
  | loaded
  /-- The active model was taken out. -/
  | deactivated (removed : Option Model)
  /-- No model was made active. -/
  | refused (failure : Failure)
  /-- The call is not about the slot. -/
  | unrelated

namespace Reply

/-- Whether a model was made active. -/
def activates : Reply → Bool
  | .activated _ | .loaded => true
  | .deactivated _ | .refused _ | .unrelated => false

/-- Whether a model was made active, or the active one taken out. -/
def settles : Reply → Bool
  | .activated _ | .loaded | .deactivated _ => true
  | .refused _ | .unrelated => false

theorem settles_of_activates {r : Reply} (h : r.activates = true) : r.settles = true := by
  cases r with
  | activated replaced => rfl
  | loaded => rfl
  | deactivated removed => cases h
  | refused failure => cases h
  | unrelated => cases h

end Reply

namespace Estimator

/-- The model that a call brings, if it does. -/
def Call.model? : Call → Option Model
  | .event (.activate m) => some m
  | .event (.load s path) => (Model.load s path).toOption
  | _ => none

/-- What a call answers about the model slot. -/
def reply (e : Estimator) : Call → Reply
  | .event (.activate m) =>
    match e.activate m with
    | .ok (replaced, _) => .activated replaced
    | .error failure => .refused failure
  | .event (.load s path) =>
    match e.loadModel s path with
    | .ok _ => .loaded
    | .error failure => .refused failure
  | .event .deactivate => .deactivated e.deactivate.1
  | .event (.observeCardinality _ _ _) | .event (.observeFilter _ _ _ _ _ _) => .unrelated
  | .estimateCardinality _ _ | .estimateSelectivity _ | .filtersFirst _ => .unrelated

/-! ## One call -/

theorem reply_activate (e : Estimator) (m : Model) :
    e.reply (.event (.activate m)) =
      if m.isTrained then .activated e.active else .refused .notTrained := by
  unfold reply activate
  dsimp only
  cases m.isTrained <;> rfl

theorem reply_load {e : Estimator} {s : Storage} {path : String} {m : Model}
    (h : Model.load s path = .ok m) :
    e.reply (.event (.load s path)) =
      if m.isTrained then .loaded else .refused .notTrained := by
  unfold reply
  dsimp only
  rw [loadModel_of_load h]
  cases m.isTrained <;> rfl

theorem reply_load_error {e : Estimator} {s : Storage} {path : String} {failure : Failure}
    (h : Model.load s path = .error failure) :
    e.reply (.event (.load s path)) = .refused failure := by
  unfold reply
  dsimp only
  rw [loadModel_of_load_error h]

/-- **What a call does to the slot**: it puts its model in, empties the slot, or leaves it. -/
theorem slot_cases (e : Estimator) (c : Call) :
    (∃ m, c.model? = some m ∧ m.isTrained = true ∧ (e.reply c).activates = true ∧
      (e.next c).active = some m) ∨
    (∃ removed, e.reply c = .deactivated removed ∧ (e.next c).active = none) ∨
    ((e.reply c).settles = false ∧ (e.next c).active = e.active) := by
  cases c with
  | event event =>
    have hslot : (e.next (.event event)).active = event.slot e.active :=
      congrArg active (e.after_eq event)
    rw [hslot]
    cases event with
    | activate m =>
      rw [reply_activate]
      unfold Event.slot
      dsimp only
      cases ht : m.isTrained with
      | true => exact .inl ⟨m, rfl, ht, rfl, rfl⟩
      | false => exact .inr (.inr ⟨rfl, rfl⟩)
    | load s path =>
      unfold Event.slot
      dsimp only
      cases hm : Model.load s path with
      | error failure =>
        rw [reply_load_error hm]
        exact .inr (.inr ⟨rfl, rfl⟩)
      | ok m =>
        rw [reply_load hm]
        have hc : (Model.load s path).toOption = some m := by
          rw [hm]
          rfl
        cases ht : m.isTrained with
        | true => exact .inl ⟨m, hc, ht, rfl, if_pos ht⟩
        | false => exact .inr (.inr ⟨rfl, if_neg (ne_true_of_eq_false ht)⟩)
    | deactivate => exact .inr (.inl ⟨e.active, rfl, rfl⟩)
    | observeCardinality q rows now => exact .inr (.inr ⟨rfl, rfl⟩)
    | observeFilter p fraction cardinality preLatency postLatency now =>
      exact .inr (.inr ⟨rfl, rfl⟩)
  | estimateCardinality q now => exact .inr (.inr ⟨rfl, rfl⟩)
  | estimateSelectivity p => exact .inr (.inr ⟨rfl, rfl⟩)
  | filtersFirst p => exact .inr (.inr ⟨rfl, rfl⟩)

theorem active_next_load {e : Estimator} {s : Storage} {path : String} {m : Model}
    (h : Model.load s path = .ok m) (ht : m.isTrained = true) :
    (e.next (.event (.load s path))).active = some m := by
  have hslot := congrArg active (e.after_eq (.load s path))
  unfold Event.slot at hslot
  dsimp only at hslot
  rw [h] at hslot
  exact hslot.trans (if_pos ht)

/-- What is replaced or removed is what was active. -/
theorem handedBack_of_reply {e : Estimator} {c : Call} {handedBack : Option Model}
    (h : e.reply c = .activated handedBack ∨ e.reply c = .deactivated handedBack) :
    handedBack = e.active := by
  cases c with
  | event event =>
    cases event with
    | activate m =>
      rw [reply_activate] at h
      split at h
      · rcases h with h | h
        · exact (Reply.activated.inj h).symm
        · cases h
      · rcases h with h | h <;> cases h
    | load s path =>
      unfold reply at h
      dsimp only at h
      split at h <;> rcases h with h | h <;> cases h
    | deactivate =>
      rcases h with h | h
      · cases h
      · exact (Reply.deactivated.inj h).symm
    | observeCardinality q rows now => rcases h with h | h <;> cases h
    | observeFilter p fraction cardinality preLatency postLatency now =>
      rcases h with h | h <;> cases h
  | estimateCardinality q now => rcases h with h | h <;> cases h
  | estimateSelectivity p => rcases h with h | h <;> cases h
  | filtersFirst p => rcases h with h | h <;> cases h

/-! ## All calls -/

/-- **A model was made active by one of some calls, and no later one settled the slot.** -/
def LastActivated (settings : EstimatorSettings) (calls : List Call) (m : Model) : Prop :=
  ∃ before c later, calls = before ++ c :: later ∧ c.model? = some m ∧
    ((afterCalls settings before).reply c).activates = true ∧
    ∀ between d rest, later = between ++ d :: rest →
      ((afterCalls settings (before ++ c :: between)).reply d).settles = false

/-- **One call more** puts its own model last, or leaves the one that was last before. -/
theorem lastActivated_concat {settings : EstimatorSettings} {calls : List Call} {d : Call}
    {m : Model} :
    LastActivated settings (calls ++ [d]) m ↔
      (d.model? = some m ∧ ((afterCalls settings calls).reply d).activates = true) ∨
        (LastActivated settings calls m ∧
          ((afterCalls settings calls).reply d).settles = false) := by
  constructor
  · rintro ⟨before, c, later, he, hm, hc, hl⟩
    rcases List.eq_nil_or_concat later with rfl | ⟨later, d', rfl⟩
    · obtain ⟨rfl, hd⟩ := List.append_inj' he rfl
      cases hd
      exact .inl ⟨hm, hc⟩
    · rw [List.concat_eq_append, ← List.cons_append, ← List.append_assoc] at he
      obtain ⟨rfl, hd⟩ := List.append_inj' he rfl
      cases hd
      refine .inr ⟨⟨before, c, later, rfl, hm, hc, ?_⟩, hl later d [] (List.concat_eq_append ..)⟩
      rintro between d' rest rfl
      exact hl between d' (rest ++ [d]) (by simp)
  · rintro (⟨hm, hd⟩ | ⟨⟨before, c, later, rfl, hm, hc, hl⟩, hd⟩)
    · exact ⟨calls, d, [], rfl, hm, hd, by simp⟩
    · refine ⟨before, c, later ++ [d], by simp, hm, hc, ?_⟩
      intro between d' rest he
      rcases List.eq_nil_or_concat rest with rfl | ⟨rest, d'', rfl⟩
      · obtain ⟨rfl, hd'⟩ := List.append_inj' he rfl
        cases hd'
        exact hd
      · rw [List.concat_eq_append, ← List.cons_append, ← List.append_assoc] at he
        exact hl between d' rest (List.append_inj' he rfl).1

/-- **The slot holds the model that was last made active**, unless it was taken out. -/
theorem active_afterCalls_iff (settings : EstimatorSettings) (calls : List Call) (m : Model) :
    (afterCalls settings calls).active = some m ↔ LastActivated settings calls m := by
  induction calls using List.reverseRecOn with
  | nil =>
    constructor
    · intro h
      cases h
    · rintro ⟨before, c, later, he, -⟩
      simp at he
  | append_singleton calls d ih =>
    rw [afterCalls_concat, lastActivated_concat, ← ih]
    rcases slot_cases (afterCalls settings calls) d with
      ⟨m', hm, -, hr, ha⟩ | ⟨removed, hr, ha⟩ | ⟨hr, ha⟩
    · simp [ha, hm, hr, Reply.settles_of_activates hr]
    · simp [ha, hr, Reply.activates, Reply.settles]
    · have hn : ((afterCalls settings calls).reply d).activates ≠ true := fun h => by
        rw [Reply.settles_of_activates h] at hr
        cases hr
      simp [ha, hr, hn]

/-- The slot never holds a model that was not fitted. -/
theorem isTrained_active_afterCalls (settings : EstimatorSettings) (calls : List Call) :
    ∀ m ∈ (afterCalls settings calls).active, m.isTrained = true := by
  induction calls using List.reverseRecOn with
  | nil =>
    intro m hm
    cases hm
  | append_singleton calls d ih =>
    rw [afterCalls_concat]
    rcases slot_cases (afterCalls settings calls) d with
      ⟨m', -, ht, -, ha⟩ | ⟨removed, -, ha⟩ | ⟨-, ha⟩
    · intro m hm
      rw [ha, Option.mem_some] at hm
      rw [← hm]
      exact ht
    · intro m hm
      rw [ha] at hm
      cases hm
    · rw [ha]
      exact ih

/-- **The model slot of an estimator after any calls.** It holds the model that was last made active or
loaded, if no model was taken out since, and none otherwise; the model was fitted. The next call leaves
the slot as it is, unless it makes a model active, loads one or takes one out; and a model that comes
back was the active one. -/
theorem slot_holds_last_activated (settings : EstimatorSettings) (calls : List Call) :
    let e := afterCalls settings calls
    (∀ m, e.active = some m ↔ LastActivated settings calls m) ∧
    (∀ m ∈ e.active, m.isTrained = true) ∧
    ∀ c : Call,
      ((e.reply c).settles = false → (e.next c).active = e.active) ∧
      ∀ handedBack, e.reply c = .activated handedBack ∨ e.reply c = .deactivated handedBack →
        handedBack = e.active := by
  intro e
  refine ⟨active_afterCalls_iff settings calls, isTrained_active_afterCalls settings calls, ?_⟩
  intro c
  constructor
  · intro hs
    rcases slot_cases e c with ⟨m, -, -, hr, -⟩ | ⟨removed, hr, -⟩ | ⟨-, ha⟩
    · rw [Reply.settles_of_activates hr] at hs
      cases hs
    · rw [hr] at hs
      cases hs
    · exact ha
  · intro handedBack h
    exact handedBack_of_reply h

/-- Files among which a model for selectivities was saved. -/
def savedFiles : Storage :=
  ((baseModel .selectivity).save {} "model.json").2

theorem load_savedFiles : Model.load savedFiles "model.json" = .ok (baseModel .selectivity) := by
  have hstorable : (baseModel .selectivity).Storable :=
    { ensemble := by
        rintro e ⟨⟩
        exact ⟨by decide, by decide, by simp, by decide⟩
      settings := Settings.storable_default
      quality := nofun
      trainingRows := by decide
      trainedAt := nofun }
  have hsave : (baseModel .selectivity).save {} "model.json" = (.ok (), savedFiles) :=
    Prod.ext rfl rfl
  exact Model.load_of_save hsave (hstorable.parse_toText (by decide +kernel))

/-- A model that was not fitted and an artifact that is not there are refused, and the others have
nothing to do with the slot. -/
def refusedCalls : List Call :=
  [.event (.activate (.untrained .cardinality {})), .event (.load {} "model.json"),
    .event (.observeFilter { property := "color" } 0.25 9 none none (.ofParts 19783 0 0)),
    .estimateSelectivity {}]

/-- A model is made active, a saved one is loaded in its place, and no other call after it succeeds. -/
def reloadingCalls : List Call :=
  [.event (.activate (baseModel .cardinality)), .event (.load savedFiles "model.json")] ++ refusedCalls

theorem slot_holds_last_activated_of_reloadingCalls :
    let e := afterCalls {} reloadingCalls
    LastActivated {} reloadingCalls (baseModel .selectivity) ∧
      (baseModel .selectivity).isTrained = true ∧
      (e.next (.event (.load {} "model.json"))).active = e.active ∧
      ∀ removed, e.reply (.event .deactivate) = .deactivated removed →
        removed = some (baseModel .selectivity) := by
  intro e
  have hrefused : ∀ e' : Estimator, (refusedCalls.foldl next e').active = e'.active := fun _ => rfl
  have hmissing : ∀ e' : Estimator, (e'.reply (.event (.load {} "model.json"))).settles = false :=
    fun _ => rfl
  have ha : e.active = some (baseModel .selectivity) := by
    unfold e afterCalls reloadingCalls
    rw [List.foldl_append, hrefused, List.foldl_cons, List.foldl_cons, List.foldl_nil]
    exact active_next_load load_savedFiles rfl
  obtain ⟨hlast, htrained, hnext⟩ := slot_holds_last_activated {} reloadingCalls
  refine ⟨(hlast _).1 ha, htrained _ ha, ?_, ?_⟩
  · exact (hnext (.event (.load {} "model.json"))).1 (hmissing e)
  · intro removed hr
    exact ((hnext (.event .deactivate)).2 removed (.inr hr)).trans ha

end Estimator

end QueryForecast
