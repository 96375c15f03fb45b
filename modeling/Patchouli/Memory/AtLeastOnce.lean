import Mathlib.Data.Nat.Basic
import Patchouli.Memory.Pipeline

/-!
# At least once

The invariant of a subscription is kept by every event, so it holds in every run: across reconnects,
failures of the handler and of the cursor store, aborts and crashes, everything between the first
boundary that was saved and the persisted cursor was handled.

The boundary has to be saved. An attempt without a cursor is accepted at the end of the feed, and
nobody remembers that end until it is in the store: if the save fails, the next attempt is accepted
at a later end, and what was published in between is not delivered.

## Main results

* `subscription_at_least_once` — from the first boundary that was saved
* `lost_boundary_loses_a_change` — not from the first boundary that was accepted
-/

namespace Patchouli

section Invariant

variable {Cursor : Type} [LinearOrder Cursor]

/-! ### Events -/

namespace Subscriber

variable {s : Subscriber Cursor} {w : Worker Cursor} {a a' : Attempt Cursor}

/-- The attempt gets on, and nothing else. -/
theorem Sound.attempting (h : s.Sound) (hvalue : s.Reached w.value) (ha : a'.Sound s w) :
    (s.withStage w (.attempting a')).Sound where
  persisted := ⟨h.persisted.le, h.persisted.covered⟩
  worker w' hw' := by
    cases hw'
    exact ⟨⟨hvalue.le, hvalue.covered⟩, ha.pipeline, ha.unaccepted, ha.changes, ha.delivered,
      ha.requested, ha.starting, ha.saving, ha.written, ha.value, ha.handled, ha.boundary⟩

/-- The worker waits for its next attempt. -/
theorem Sound.ready (h : s.Sound) (hvalue : s.Reached w.value) : (s.withStage w .ready).Sound where
  persisted := ⟨h.persisted.le, h.persisted.covered⟩
  worker w' hw' := by
    cases hw'
    exact ⟨hvalue.le, hvalue.covered⟩

/-- The worker returns. -/
theorem Sound.returned (h : s.Sound) (w : Worker Cursor) : (s.withStage w .returned).Sound where
  persisted := ⟨h.persisted.le, h.persisted.covered⟩
  worker w' hw' := by
    cases hw'
    trivial

/-- **The boundary was saved**: from now on there is a position. -/
theorem Sound.settle (h : s.Sound) (ha : a.Sound s w)
    (hphase : a.phase = .savingBoundary true) :
    { s with
      worker := some { w with
        value := a.boundary
        stage := .attempting { a with phase := .racing } }
      settled := s.settled <|> a.boundary : Subscriber Cursor }.Sound := by
  obtain ⟨b, hb⟩ := Option.ne_none_iff_exists'.mp (ha.saving true hphase)
  obtain ⟨hle, hcovered⟩ := ha.boundary b hb
  have hsettled : ∀ t, (s.settled <|> a.boundary) = some t → s.feed.Handled s.handled t b := by
    intro t ht
    cases hs : s.settled with
    | some settled =>
      rw [hs] at ht
      cases ht
      exact hcovered _ hs
    | none =>
      rw [hs, hb] at ht
      cases ht
      exact Feed.Handled.refl _ _ _
  refine ⟨⟨h.persisted.le, fun t ht => ⟨b, ?_, hsettled t ht⟩⟩, fun w' hw' => ?_⟩
  · exact (ha.written hphase).trans hb
  · cases hw'
    refine ⟨⟨fun c hc => ?_, fun t ht => ⟨b, hb, hsettled t ht⟩⟩,
      ha.pipeline.of_eq rfl rfl (fun _ => .inl rfl) id id, ha.unaccepted, ha.changes, ?_,
      ha.requested, fun hp => (nomatch hp), fun _ hp => (nomatch hp), fun hp => (nomatch hp),
      fun v hv b' hb' => .inl ?_, ha.handled, fun b' hb' => ?_⟩
    · cases hb.symm.trans hc
      exact hle
    · exact ha.delivered_of_ne (hphase ▸ fun h => nomatch h) _
    · exact Option.some.inj (hv.symm.trans hb')
    · cases hb.symm.trans hb'
      exact ⟨hle, hsettled⟩

/-- The handler has settled. -/
theorem Sound.handlerSettles (h : s.Sound) (hvalue : s.Reached w.value) (ha : a.Sound s w)
    {change : MemoryChange Cursor} {before after : List (Processing Cursor)}
    (hsplit : a.processings = before ++ ⟨change, .handling⟩ :: after) (ok : Bool) :
    (if ok then
      let completed := a.move before.length change (.saving false) [.completed change]
      { s.withStage w (.attempting (if w.aborted then
          completed.fail before.length change .unsaved else completed)) with
        handled := s.handled ++ [change] }
    else s.withStage w (.attempting (a.fail before.length change .unhandled)) :
      Subscriber Cursor).Sound := by
  split
  · have hreleased := ha.released hsplit fun h => nomatch h
    have hsaved := (ha.pipeline.around hsplit fun h => h).2 fun h => nomatch h
    let s' : Subscriber Cursor := { s with handled := s.handled ++ [change] }
    have hgrows : Grows s.feed s.handled s'.feed s'.handled := Grows.handle _ _ change
    have hsplit' := Attempt.move_processings hsplit (.saving false) [.completed change]
    have hcompleted : (a.move before.length change (.saving false) [.completed change]).Sound s' w := by
      refine ha.promise hsplit (fun h => h) hsplit' ?_ hreleased ⟨rfl, rfl, rfl, rfl⟩
        ⟨rfl, rfl, List.subset_append_left _ _⟩ rfl
        (fun _ => List.mem_append_right _ (List.mem_singleton_self change)) (.inl rfl)
      refine ha.pipeline.move hsplit (fun h => h) (fun p hp => by rw [hsaved p hp]; trivial)
        (.inl hsaved) hreleased rfl ?_ fun h => nomatch h
      rintro (hf | hf | hf) <;> cases hf
    have hsound : s'.Sound :=
      ⟨h.persisted.grow hgrows rfl, fun w hw => (h.worker w hw).grow hgrows rfl rfl⟩
    have hreached : s'.Reached w.value := hvalue.grow hgrows rfl
    dsimp only
    split
    · exact hsound.attempting hreached
        (hcompleted.fail hsplit' (fun h => h) (fun h => nomatch h) rfl (by simp) fun h => nomatch h)
    · exact hsound.attempting hreached hcompleted
  · exact h.attempting hvalue
      (ha.fail hsplit (fun h => h) (fun h => nomatch h) rfl (by simp) fun h => nomatch h)

/-- A cursor is written. -/
theorem Sound.write (hvalue : s.Reached w.value) (ha : a.Sound s w)
    {change : MemoryChange Cursor} {before after : List (Processing Cursor)}
    (hsplit : a.processings = before ++ ⟨change, .saving false⟩ :: after) :
    { s.withStage w (.attempting (a.move before.length change (.saving true) [])) with
      persisted := some change.cursor : Subscriber Cursor }.Sound := by
  have hreleased := ha.released hsplit fun h => nomatch h
  have hsaved := (ha.pipeline.around hsplit fun h => h).2 fun h => nomatch h
  have hcursor := ha.reached hsplit
  have hmoved : (a.move before.length change (.saving true) []).Sound
      { s with persisted := some change.cursor } w := by
    refine ha.promise hsplit (fun h => h) (Attempt.move_processings hsplit _ _) ?_ hreleased
      ⟨rfl, rfl, rfl, rfl⟩ ⟨rfl, rfl, fun _ h => h⟩ rfl (fun _ => ?_) (.inl rfl)
    · refine ha.pipeline.move hsplit (fun h => h) (fun p hp => by rw [hsaved p hp]; trivial)
        (.inl hsaved) hreleased rfl ?_ fun h => nomatch h
      rintro (hf | hf | hf) <;> cases hf
    · exact ha.handled _ (hsplit ▸ List.mem_append_right _ (.head _)) (.inr ⟨false, rfl⟩)
  refine ⟨⟨hcursor.le, hcursor.covered⟩, fun w' hw' => ?_⟩
  cases hw'
  exact ⟨⟨hvalue.le, hvalue.covered⟩, hmoved.pipeline, hmoved.unaccepted, hmoved.changes,
    hmoved.delivered, hmoved.requested, hmoved.starting, hmoved.saving, hmoved.written, hmoved.value,
    hmoved.handled, hmoved.boundary⟩

/-- A change was saved. -/
theorem Sound.saved (h : s.Sound) (ha : a.Sound s w)
    {change : MemoryChange Cursor} {before after : List (Processing Cursor)} {written : Bool}
    (hsplit : a.processings = before ++ ⟨change, .saving written⟩ :: after) :
    { s with
      worker := some { w with
        value := some change.cursor
        stage := .attempting (a.move before.length change .saved [.saved change]) } :
      Subscriber Cursor }.Sound := by
  have hreleased := ha.released hsplit fun h => nomatch h
  have hsaved := (ha.pipeline.around hsplit fun h => h).2 fun h => nomatch h
  have hcursor := ha.reached hsplit
  have hmoved : (a.move before.length change .saved [.saved change]).Sound s
      { w with value := some change.cursor } := by
    refine ha.promise hsplit (fun h => h) (Attempt.move_processings hsplit _ _) ?_ hreleased
      ⟨rfl, rfl, rfl, rfl⟩ ⟨rfl, rfl, fun _ h => h⟩ rfl (fun _ => ?_) (.inr ⟨rfl, rfl⟩)
    · refine ha.pipeline.move hsplit (fun h => h) (fun p hp => by rw [hsaved p hp]; trivial)
        (.inl hsaved) hreleased rfl ?_ fun h => nomatch h
      rintro (hf | hf | hf) <;> cases hf
    · exact ha.handled _ (hsplit ▸ List.mem_append_right _ (.head _)) (.inr ⟨written, rfl⟩)
  exact h.attempting (w := { w with value := some change.cursor }) hcursor hmoved

/-- **Events of an attempt.** -/
theorem Sound.stepAttempt (h : s.Sound) (hvalue : s.Reached w.value) (ha : a.Sound s w)
    (event : SubscriberEvent Cursor) : (s.stepAttempt w a event).Sound := by
  cases event with
  | accept =>
    dsimp only [Subscriber.stepAttempt]
    split
    · rename_i hstart
      have hsound := h.attempting hvalue (ha.accept hvalue hstart.1 hstart.2)
      exact ⟨⟨hsound.persisted.le, hsound.persisted.covered⟩, fun w' hw' =>
        (hsound.worker w' hw').grow ⟨le_rfl, fun _ => List.prefix_rfl, fun _ h => h,
          fun _ _ _ h => h⟩ rfl rfl⟩
    · exact h
  | deliver =>
    dsimp only [Subscriber.stepAttempt]
    split
    · exact h
    · rename_i b hb
      split
      · exact h
      · rename_i change hnext
        exact h.attempting hvalue (ha.deliver hb hnext)
  | subscribed ok =>
    dsimp only [Subscriber.stepAttempt]
    split
    · rename_i hstart
      split
      · rename_i hok
        refine h.attempting hvalue ⟨ha.pipeline.of_eq rfl rfl ?_ id id, ha.unaccepted, ha.changes, ?_,
          ha.requested, fun hp => (nomatch hp), fun _ _ => hstart.2 hok.1, fun hp => (nomatch hp),
          ha.value, ha.handled, ha.boundary⟩
        · rintro (hp | hp) <;> exact nomatch hstart.1.symm.trans hp
        · exact ha.delivered_of_ne (hstart.1 ▸ fun h => nomatch h) _
      · exact h.attempting hvalue (ha.leave true)
    · exact h
  | writeBoundary =>
    dsimp only [Subscriber.stepAttempt]
    split
    · rename_i hphase
      obtain ⟨b, hb⟩ := Option.ne_none_iff_exists'.mp (ha.saving false hphase)
      obtain ⟨hle, hcovered⟩ := ha.boundary b hb
      refine ⟨⟨fun c hc => ?_, fun t ht => ⟨b, hb, hcovered t ht⟩⟩, fun w' hw' => ?_⟩
      · cases hb.symm.trans hc
        exact hle
      · cases hw'
        refine ⟨⟨hvalue.le, hvalue.covered⟩, ha.pipeline.of_eq rfl rfl ?_ id id, ha.unaccepted,
          ha.changes, ?_, ha.requested, fun hp => (nomatch hp), fun _ _ => ha.saving false hphase,
          fun _ => rfl, ha.value, ha.handled, ha.boundary⟩
        · rintro (hp | hp) <;> exact nomatch hphase.symm.trans hp
        · exact ha.delivered_of_ne (hphase ▸ fun h => nomatch h) _
    · exact h
  | boundarySaved ok =>
    dsimp only [Subscriber.stepAttempt]
    split
    · rename_i written hphase
      split
      · split
        · rename_i hwritten
          exact h.settle ha (hwritten ▸ hphase)
        · exact h
      · exact h.attempting hvalue (ha.leave true)
    · exact h
  | leave error =>
    dsimp only [Subscriber.stepAttempt]
    split
    · exact h.attempting hvalue (ha.leave error)
    · exact h
  | begin k =>
    dsimp only [Subscriber.stepAttempt]
    split
    · rename_i change hget
      obtain ⟨before, after, hsplit, rfl⟩ := split_of_getElem? hget
      split
      · rename_i hstart
        exact h.attempting hvalue (ha.begin hsplit hstart.1 hstart.2)
      · exact h
    · exact h
  | handlerSettles k ok =>
    dsimp only [Subscriber.stepAttempt]
    split
    · rename_i change hget
      obtain ⟨before, after, hsplit, rfl⟩ := split_of_getElem? hget
      exact h.handlerSettles hvalue ha hsplit ok
    · exact h
  | write k =>
    dsimp only [Subscriber.stepAttempt]
    split
    · rename_i change hget
      obtain ⟨before, after, hsplit, rfl⟩ := split_of_getElem? hget
      exact Sound.write hvalue ha hsplit
    · exact h
  | saveSettles k ok =>
    dsimp only [Subscriber.stepAttempt]
    split
    · rename_i change written hget
      obtain ⟨before, after, hsplit, rfl⟩ := split_of_getElem? hget
      split
      · split
        · exact h.saved ha hsplit
        · exact h
      · exact h.attempting hvalue (ha.fail hsplit (fun h => h) (fun h => nomatch h) rfl (by simp)
          fun h => nomatch h)
    · exact h
  | finish stopFails retryable =>
    dsimp only [Subscriber.stepAttempt]
    split
    · split
      · exact h.ready hvalue
      · exact h.returned w
    · exact h
  | _ => exact h

/-- **A step.** -/
theorem Sound.step (h : s.Sound) (event : SubscriberEvent Cursor) : (s.step event).Sound := by
  refine Sound.stepOutside ?_ event
  unfold Subscriber.stepInside
  split
  · exact h
  · rename_i w hw
    have hsound := h.worker w hw
    unfold Worker.Sound at hsound
    split
    · cases event with
      | load =>
        exact ⟨⟨h.persisted.le, h.persisted.covered⟩, fun w' hw' => by
          cases hw'
          exact ⟨h.persisted.le, h.persisted.covered⟩⟩
      | loadFails retryable =>
        dsimp only [Subscriber.stepLoading]
        split
        · exact h
        · exact h.returned w
      | quit =>
        dsimp only [Subscriber.stepLoading]
        split
        · exact h.returned w
        · exact h
      | _ => exact h
    · rename_i hstage
      rw [hstage] at hsound
      cases event with
      | attempt => exact h.attempting hsound (Attempt.start_sound s w)
      | quit =>
        dsimp only [Subscriber.stepReady]
        split
        · exact h.returned w
        · exact h
      | _ => exact h
    · rename_i a hstage
      rw [hstage] at hsound
      exact h.stepAttempt hsound.1 hsound.2 event
    · exact h

end Subscriber

/-- **The invariant of every run.** -/
theorem SubscriberReaches.sound {allowed : Subscriber Cursor → SubscriberEvent Cursor → Prop}
    {s : Subscriber Cursor} (h : SubscriberReaches allowed s) : s.Sound := by
  induction h with
  | start hinitial =>
    obtain ⟨hworker, -, -, hsettled, hle⟩ := hinitial
    refine ⟨⟨hle, fun t ht => ?_⟩, fun w hw => ?_⟩
    · exact nomatch hsettled.symm.trans ht
    · exact nomatch hworker.symm.trans hw
  | step event _ _ ih => exact ih.step event

/-! ### The cursor of the worker and the cursor of the store -/

/-- A save that fails has written nothing. -/
def Subscriber.SavesHonestly (s : Subscriber Cursor) (event : SubscriberEvent Cursor) : Prop :=
  ∀ w a, s.worker = some w → w.stage = .attempting a →
    match event with
    | .boundarySaved ok => ok = false → a.phase ≠ .savingBoundary true
    | .saveSettles k ok => ok = false → ∀ p ∈ a.processings[k]?, p.status ≠ .saving true
    | _ => True

/-- The worker and the store agree, unless a save has been written and not yet reported. -/
structure Attempt.Synced (s : Subscriber Cursor) (w : Worker Cursor) (a : Attempt Cursor) :
    Prop where
  writing : ∀ p ∈ a.processings, p.status = .saving true → s.persisted = some p.change.cursor
  synced : w.value = s.persisted ∨ a.phase = .savingBoundary true ∨
    ∃ p ∈ a.processings, p.status = .saving true

def Subscriber.Synced (s : Subscriber Cursor) : Prop :=
  ∀ w ∈ s.worker,
    match w.stage with
    | .loading | .returned => True
    | .ready => w.value = s.persisted
    | .attempting a => a.Synced s w

section Synced

variable {s s' : Subscriber Cursor} {w w' : Worker Cursor} {a a' : Attempt Cursor}
  {change : MemoryChange Cursor} {old new : ProcessingStatus}
  {before after : List (Processing Cursor)}

/-- An attempt whose phase changes while nothing is written. -/
theorem Attempt.Synced.frame (h : a.Synced s w) (hphase : a.phase ≠ .savingBoundary true)
    (hprocessings : a'.processings = a.processings) : a'.Synced s w := by
  refine ⟨hprocessings ▸ h.writing, ?_⟩
  rw [hprocessings]
  exact h.synced.imp_right fun hrest => .inr (hrest.resolve_left hphase)

theorem Subscriber.Synced.of_eq (h : s.Synced) (hworker : s'.worker = s.worker)
    (hpersisted : s'.persisted = s.persisted) : s'.Synced := by
  intro w hw
  have hold := h w (hworker ▸ hw)
  obtain ⟨value, stage, aborted⟩ := w
  cases stage with
  | loading => trivial
  | returned => trivial
  | ready => exact hold.trans hpersisted.symm
  | attempting a => exact ⟨hpersisted ▸ hold.writing, hpersisted ▸ hold.synced⟩

/-- A promise that gets on without a write. -/
theorem Attempt.Synced.promise (h : a.Synced s w)
    (hsplit : a.processings = before ++ ⟨change, old⟩ :: after) (hold : old ≠ .saving true)
    (hprocessings : a'.processings = before ++ ⟨change, new⟩ :: after) (hnew : new ≠ .saving true)
    (hphase : a'.phase = a.phase) (hpersisted : s'.persisted = s.persisted)
    (hvalue : w'.value = w.value) : a'.Synced s' w' := by
  refine ⟨fun p hp hwriting => ?_, ?_⟩
  · rw [hpersisted]
    rw [hprocessings, List.mem_append, List.mem_cons] at hp
    refine h.writing p ?_ hwriting
    rw [hsplit, List.mem_append, List.mem_cons]
    rcases hp with hp | rfl | hp
    · exact .inl hp
    · exact absurd hwriting hnew
    · exact .inr (.inr hp)
  · rw [hpersisted, hvalue, hphase]
    refine h.synced.imp_right (·.imp_right fun ⟨p, hp, hwriting⟩ => ⟨p, ?_, hwriting⟩)
    rw [hsplit, List.mem_append, List.mem_cons] at hp
    rw [hprocessings, List.mem_append, List.mem_cons]
    rcases hp with hp | rfl | hp
    · exact .inl hp
    · exact absurd hwriting hold
    · exact .inr (.inr hp)

/-- Only one promise writes. -/
theorem Attempt.Sound.writes_alone (h : a.Sound s w)
    (hsplit : a.processings = before ++ ⟨change, old⟩ :: after) (hold : ¬ old.Settled)
    (hstarted : old ≠ .waiting) : ∀ p ∈ before ++ after, p.status ≠ .saving true := by
  obtain ⟨hafter, hbefore⟩ := h.pipeline.around hsplit hold
  intro p hp hwriting
  rcases List.mem_append.mp hp with hp | hp
  · exact nomatch (hbefore hstarted p hp).symm.trans hwriting
  · exact nomatch (hafter p hp).symm.trans hwriting

theorem Attempt.Synced.withStage (h : a'.Synced s w) :
    (s.withStage w (.attempting a')).Synced := by
  intro w' hw'
  cases hw'
  exact ⟨h.writing, h.synced⟩

/-- A promise that fails had written nothing. -/
theorem Attempt.Synced.fail (h : a.Synced s w)
    (hsplit : a.processings = before ++ ⟨change, old⟩ :: after) (hold : old ≠ .saving true)
    (hnew : new ≠ .saving true) : (a.fail before.length change new).Synced s w :=
  h.promise hsplit hold (Attempt.move_processings hsplit _ [.failed change]) hnew rfl rfl rfl

theorem Attempt.Synced.begin (h : a.Synced s w)
    (hsplit : a.processings = before ++ ⟨change, .waiting⟩ :: after) :
    (a.begin w.value w.aborted before.length change).Synced s w := by
  have hmove : ∀ {new : ProcessingStatus} {moments : List (Moment Cursor)}, new ≠ .saving true →
      (a.move before.length change new moments).Synced s w := fun hnew =>
    h.promise hsplit (fun h => nomatch h) (Attempt.move_processings hsplit _ _) hnew rfl rfl rfl
  unfold Attempt.begin
  split
  · exact hmove fun h => nomatch h
  · split
    · exact hmove fun h => nomatch h
    · split
      · exact h.fail hsplit (fun h => nomatch h) fun h => nomatch h
      · exact hmove fun h => nomatch h

/-- **Events of an attempt keep worker and store together**, if saves fail honestly. -/
theorem Subscriber.Synced.stepAttempt (hs : s.Synced) (hself : s.worker = some w)
    (hstage : w.stage = .attempting a) (ha : a.Sound s w) (event : SubscriberEvent Cursor)
    (honest : s.SavesHonestly event) : (s.stepAttempt w a event).Synced := by
  have h : a.Synced s w := by
    have hw := hs w hself
    rw [hstage] at hw
    exact hw
  have honest' := honest w a hself hstage
  cases event with
  | accept =>
    dsimp only [Subscriber.stepAttempt]
    split
    · intro w' hw'
      cases hw'
      exact ⟨h.writing, h.synced⟩
    · exact hs
  | deliver =>
    dsimp only [Subscriber.stepAttempt]
    split
    · exact hs
    · split
      · exact hs
      · rename_i change _
        refine Attempt.Synced.withStage ?_
        unfold Attempt.onChange
        split
        · exact ⟨h.writing, h.synced⟩
        · refine ⟨fun p hp hwriting => ?_, ?_⟩
          · rcases List.mem_append.mp hp with hin | hnew
            · exact h.writing p hin hwriting
            · rw [List.mem_singleton.mp hnew] at hwriting
              cases hwriting
          · exact h.synced.imp_right (·.imp_right fun ⟨p, hp, hwriting⟩ =>
              ⟨p, List.mem_append_left _ hp, hwriting⟩)
  | subscribed ok =>
    dsimp only [Subscriber.stepAttempt]
    split
    · rename_i hstart
      have hphase : a.phase ≠ .savingBoundary true := fun hp => nomatch hstart.1.symm.trans hp
      split
      · exact Attempt.Synced.withStage (h.frame hphase rfl)
      · exact Attempt.Synced.withStage (h.frame hphase rfl)
    · exact hs
  | writeBoundary =>
    dsimp only [Subscriber.stepAttempt]
    split
    · rename_i hphase
      intro w' hw'
      cases hw'
      refine ⟨fun p hp hwriting => ?_, .inr (.inl rfl)⟩
      have hnot : ¬ a.Released := by
        rintro (h' | h') <;> exact nomatch hphase.symm.trans h'
      exact nomatch (ha.pipeline.held hnot p hp).symm.trans hwriting
    · exact hs
  | boundarySaved ok =>
    dsimp only [Subscriber.stepAttempt]
    split
    · rename_i written hphase
      split
      · split
        · rename_i hwritten
          intro w' hw'
          cases hw'
          exact ⟨h.writing, .inl (ha.written (hwritten ▸ hphase)).symm⟩
        · exact hs
      · rename_i hok
        exact Attempt.Synced.withStage (h.frame (honest' (Bool.not_eq_true _ ▸ hok)) rfl)
    · exact hs
  | leave error =>
    dsimp only [Subscriber.stepAttempt]
    split
    · rename_i hphase
      exact Attempt.Synced.withStage (h.frame (fun hp => nomatch hphase.symm.trans hp) rfl)
    · exact hs
  | begin k =>
    dsimp only [Subscriber.stepAttempt]
    split
    · rename_i change hget
      obtain ⟨before, after, hsplit, rfl⟩ := split_of_getElem? hget
      split
      · exact (h.begin hsplit).withStage
      · exact hs
    · exact hs
  | handlerSettles k ok =>
    dsimp only [Subscriber.stepAttempt]
    split
    · rename_i change hget
      obtain ⟨before, after, hsplit, rfl⟩ := split_of_getElem? hget
      have hsplit' := Attempt.move_processings hsplit (.saving false) [.completed change]
      have hcompleted : (a.move before.length change (.saving false) [.completed change]).Synced s w :=
        h.promise hsplit (fun h => nomatch h) hsplit' (fun h => nomatch h) rfl rfl rfl
      split
      · intro w' hw'
        cases hw'
        dsimp only
        split
        · have hunsaved : ProcessingStatus.unsaved ≠ .saving true := fun h => nomatch h
          have hfailed := hcompleted.fail hsplit' (fun h => nomatch h) hunsaved
          exact ⟨hfailed.writing, hfailed.synced⟩
        · exact ⟨hcompleted.writing, hcompleted.synced⟩
      · exact Attempt.Synced.withStage (h.fail hsplit (fun h => nomatch h) fun h => nomatch h)
    · exact hs
  | write k =>
    dsimp only [Subscriber.stepAttempt]
    split
    · rename_i change hget
      obtain ⟨before, after, hsplit, rfl⟩ := split_of_getElem? hget
      have hset := Attempt.move_processings hsplit (.saving true) []
      have halone := ha.writes_alone hsplit (fun h => h) fun h => nomatch h
      intro w' hw'
      cases hw'
      refine ⟨fun p hp hwriting => ?_, .inr (.inr ⟨⟨change, .saving true⟩, ?_, rfl⟩)⟩
      · rw [hset, List.mem_append, List.mem_cons] at hp
        rcases hp with hp | rfl | hp
        · exact absurd hwriting (halone p (List.mem_append_left _ hp))
        · rfl
        · exact absurd hwriting (halone p (List.mem_append_right _ hp))
      · rw [hset]
        exact List.mem_append_right _ (.head _)
    · exact hs
  | saveSettles k ok =>
    dsimp only [Subscriber.stepAttempt]
    split
    · rename_i change written hget
      obtain ⟨before, after, hsplit, rfl⟩ := split_of_getElem? hget
      have halone := ha.writes_alone hsplit (fun h => h) fun h => nomatch h
      split
      · split
        · rename_i hwritten
          subst hwritten
          have hset := Attempt.move_processings hsplit .saved [.saved change]
          intro w' hw'
          cases hw'
          refine ⟨fun p hp hwriting => ?_, .inl ?_⟩
          · rw [hset, List.mem_append, List.mem_cons] at hp
            rcases hp with hp | rfl | hp
            · exact absurd hwriting (halone p (List.mem_append_left _ hp))
            · cases hwriting
            · exact absurd hwriting (halone p (List.mem_append_right _ hp))
          · exact (h.writing _ (hsplit ▸ List.mem_append_right _ (.head _)) rfl).symm
        · exact hs
      · rename_i hok
        have hnot := honest' (Bool.not_eq_true _ ▸ hok) _ hget
        exact Attempt.Synced.withStage (h.fail hsplit hnot fun h => nomatch h)
    · exact hs
  | finish stopFails retryable =>
    dsimp only [Subscriber.stepAttempt]
    split
    · rename_i hdone
      split
      · intro w' hw'
        cases hw'
        rcases h.synced with heq | hp | ⟨p, hp, hwriting⟩
        · exact heq
        · exact nomatch hdone.1.symm.trans hp
        · have hsettled := hdone.2 p hp
          rw [hwriting] at hsettled
          exact hsettled.elim
      · intro w' hw'
        cases hw'
        trivial
    · exact hs
  | _ => exact hs

theorem Subscriber.Synced.stepOutside (hs : s.Synced) (event : SubscriberEvent Cursor) :
    (s.stepOutside event).Synced := by
  cases event with
  | publish change =>
    dsimp only [Subscriber.stepOutside]
    split
    · exact hs.of_eq rfl rfl
    · exact hs
  | advance current =>
    dsimp only [Subscriber.stepOutside]
    split
    · exact hs.of_eq rfl rfl
    · exact hs
  | run =>
    have hnew : { s with worker := some ⟨none, .loading, false⟩ }.Synced := fun w hw => by
      cases hw
      trivial
    dsimp only [Subscriber.stepOutside]
    split
    · exact hnew
    · exact hnew
    · exact hs
  | crash =>
    intro w hw
    cases hw
  | abort =>
    intro w hw
    obtain ⟨old, hold, rfl⟩ := Option.map_eq_some_iff.mp hw
    have hsynced := hs old hold
    obtain ⟨value, stage, aborted⟩ := old
    cases stage with
    | loading => trivial
    | returned => trivial
    | ready => exact hsynced
    | attempting a => exact ⟨hsynced.writing, hsynced.synced⟩
  | _ => exact hs

theorem Subscriber.Synced.step (hs : s.Synced) (h : s.Sound) (event : SubscriberEvent Cursor)
    (honest : s.SavesHonestly event) : (s.step event).Synced := by
  refine Subscriber.Synced.stepOutside ?_ event
  have hreturned : ∀ w, (s.withStage w .returned).Synced := fun w w' hw' => by
    cases hw'
    trivial
  unfold Subscriber.stepInside
  split
  · exact hs
  · rename_i w hw
    have hsynced := hs w hw
    have hsound := h.worker w hw
    unfold Worker.Sound at hsound
    split
    · cases event with
      | load =>
        intro w' hw'
        cases hw'
        rfl
      | loadFails retryable =>
        dsimp only [Subscriber.stepLoading]
        split
        · exact hs
        · exact hreturned w
      | quit =>
        dsimp only [Subscriber.stepLoading]
        split
        · exact hreturned w
        · exact hs
      | _ => exact hs
    · rename_i hstage
      rw [hstage] at hsynced
      cases event with
      | attempt => exact Attempt.Synced.withStage ⟨fun _ hp => (nomatch hp), .inl hsynced⟩
      | quit =>
        dsimp only [Subscriber.stepReady]
        split
        · exact hreturned w
        · exact hs
      | _ => exact hs
    · rename_i a hstage
      rw [hstage] at hsound
      exact hs.stepAttempt hw hstage hsound.2 event honest
    · exact hs

end Synced

theorem SubscriberReaches.synced {allowed : Subscriber Cursor → SubscriberEvent Cursor → Prop}
    {s : Subscriber Cursor} (h : SubscriberReaches allowed s)
    (honest : ∀ s event, allowed s event → s.SavesHonestly event) : s.Synced := by
  induction h with
  | start hinitial => exact fun w hw => nomatch hinitial.1.symm.trans hw
  | step event hreach hallowed ih => exact ih.step hreach.sound event (honest _ _ hallowed)

/-- **The subscription is at-least-once and in order.** In every run: what lies between the first
boundary that was saved and the persisted cursor was handled; an attempt does one thing after
another, and nothing after a failure; it starts from a cursor up to which everything was handled,
and where a failed save has written nothing, from the persisted one. -/
theorem subscription_at_least_once
    {allowed : Subscriber Cursor → SubscriberEvent Cursor → Prop} {s : Subscriber Cursor}
    (h : SubscriberReaches allowed s) :
    s.AtLeastOnce s.settled ∧
    (∀ w a, s.worker = some w → w.stage = .attempting a → a.Orderly s.feed) ∧
    (∀ w, s.worker = some w → w.stage = .ready → s.Reached w.value) ∧
    ((∀ s event, allowed s event → s.SavesHonestly event) →
      ∀ w, s.worker = some w → w.stage = .ready → w.value = s.persisted) := by
  have hsound := h.sound
  refine ⟨fun t ht p hp => ?_, fun w a hw hstage => ?_, fun w hw hstage => ?_,
    fun honest w hw hstage => ?_⟩
  · obtain ⟨c, hc, hcovered⟩ := hsound.persisted.covered t ht
    cases hc.symm.trans hp
    exact hcovered
  · have hworker := hsound.worker w hw
    unfold Worker.Sound at hworker
    rw [hstage] at hworker
    cases hb : a.boundary with
    | none =>
      have hempty : a.processings.map (·.change) <+: [] := by
        rw [hworker.2.unaccepted hb]
        exact List.nil_prefix
      have hnone := hworker.2.pipeline.orderly hempty
      unfold Attempt.Orderly
      rw [hb]
      exact hnone
    | some b =>
      have hsome := hworker.2.pipeline.orderly (hworker.2.changes b hb)
      unfold Attempt.Orderly
      rw [hb]
      exact hsome
  · have hworker := hsound.worker w hw
    unfold Worker.Sound at hworker
    rw [hstage] at hworker
    exact hworker
  · have hsynced := h.synced honest w hw
    rw [hstage] at hsynced
    exact hsynced

end Invariant

/-! ### Runs -/

/-- A subscription to an empty feed. -/
def emptySubscriber : Subscriber ℕ where
  feed := ⟨[], 0, .nil, fun _ hc => nomatch hc⟩
  persisted := none
  worker := none
  handled := []
  accepted := none
  settled := none

/-- The subscription after some events. -/
def Subscriber.after (events : List (SubscriberEvent ℕ)) : Subscriber ℕ :=
  events.foldl Subscriber.step emptySubscriber

theorem Subscriber.after_reaches (events : List (SubscriberEvent ℕ)) :
    SubscriberReaches (fun _ _ => True) (Subscriber.after events) := by
  induction events using List.reverseRecOn with
  | nil => exact .start ⟨rfl, rfl, rfl, rfl, fun _ hp => nomatch hp⟩
  | append_singleton events event ih =>
    have hlast : Subscriber.after (events ++ [event]) = (Subscriber.after events).step event := by
      simp only [Subscriber.after, List.foldl_append, List.foldl_cons, List.foldl_nil]
    rw [hlast]
    exact .step event ih trivial

/-- A change arrives before the boundary is saved; it is handled, its cursor is written, and the
process crashes. -/
theorem crash_after_write_keeps_the_change :
    let s := Subscriber.after [.run, .load, .attempt, .accept, .publish ⟨1, none, none⟩, .deliver,
      .subscribed true, .writeBoundary, .boundarySaved true, .begin 0, .handlerSettles 0 true,
      .write 0, .crash]
    s.settled = some 0 ∧ s.persisted = some 1 ∧ s.AtLeastOnce (some 0) :=
  ⟨rfl, rfl, (subscription_at_least_once (Subscriber.after_reaches _)).1⟩

/-- **A change is lost** between a boundary that was accepted but could not be saved and the next
one. -/
theorem lost_boundary_loses_a_change :
    ∃ s : Subscriber ℕ, SubscriberReaches (fun _ _ => True) s ∧ ¬ s.AtLeastOnce s.accepted := by
  refine ⟨Subscriber.after [.run, .load, .attempt, .accept, .subscribed true, .boundarySaved false,
    .finish false false, .publish ⟨1, none, none⟩, .run, .load, .attempt, .accept, .subscribed true,
    .writeBoundary], Subscriber.after_reaches _, fun h => ?_⟩
  exact nomatch h 0 rfl 1 rfl ⟨1, none, none⟩ (.head _) Nat.zero_lt_one le_rfl

end Patchouli
