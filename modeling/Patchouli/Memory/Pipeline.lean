import Patchouli.Memory.Subscription

/-!
# The promises of a subscription

Every change that is delivered gets a promise, chained to the promise before it. The chain keeps the
order: where a promise has not settled all later ones wait, and where one was not saved the later
ones do nothing. So the changes are handled one at a time, and after a failure none is.

With the changes of the feed in their order, that gives the invariant of a subscription: whatever is
written to the cursor store is a cursor up to which everything was handled.

## Main definitions

* `Attempt.Pipeline` — the promises of an attempt
* `Subscriber.Sound` — the invariant

## Main results

* `Attempt.Pipeline.orderly` — one change at a time, and none after a failure
* `Attempt.Sound.reached` — where a change is being saved, everything up to it was handled
-/

namespace Patchouli

/-! ### The pipeline -/

section Pipeline

variable {Cursor : Type}

/-- What was done with a change whose promise stands there. -/
def Processing.moments : Processing Cursor → List (Moment Cursor)
  | ⟨change, .handling⟩ => [.handed change]
  | ⟨change, .saving _⟩ => [.handed change, .completed change]
  | ⟨change, .saved⟩ => [.handed change, .completed change, .saved change]
  | ⟨change, .refused⟩ => [.failed change]
  | ⟨change, .unhandled⟩ => [.handed change, .failed change]
  | ⟨change, .unsaved⟩ => [.handed change, .completed change, .failed change]
  | ⟨_, .waiting⟩ | ⟨_, .skipped⟩ => []

/-- The promise failed. -/
def ProcessingStatus.Failed (status : ProcessingStatus) : Prop :=
  status = .refused ∨ status = .unhandled ∨ status = .unsaved

/-- The promise has done nothing with its change. -/
def ProcessingStatus.Idle (status : ProcessingStatus) : Prop :=
  status = .waiting ∨ status = .skipped

theorem Processing.moments_of_idle {p : Processing Cursor} (h : p.status.Idle) :
    p.moments = [] := by
  obtain ⟨change, status⟩ := p
  rcases h with rfl | rfl <;> rfl

/-- The promises of an attempt: they settle one after the other, and what comes after one that was
not saved does nothing. -/
structure Attempt.Pipeline (a : Attempt Cursor) : Prop where
  inTurn : a.processings.Pairwise fun p q => p.status.Settled ∨ q.status = .waiting
  savedFirst : a.processings.Pairwise fun p q => p.status = .saved ∨ q.status.Idle
  held : ¬ a.Released → ∀ p ∈ a.processings, p.status = .waiting
  failed : ∀ p ∈ a.processings, p.status.Failed → a.pipelineError = true
  skipped : ∀ p ∈ a.processings, p.status = .skipped →
    a.boundaryError = true ∨ a.pipelineError = true
  history : a.history = a.processings.flatMap Processing.moments

theorem prefix_append_getElem? {α : Type} {xs ys : List α} {y : α} (h : xs <+: ys)
    (hy : ys[xs.length]? = some y) : xs ++ [y] <+: ys := by
  obtain ⟨tail, rfl⟩ := h
  rw [List.getElem?_append_right (Nat.le_refl _), Nat.sub_self] at hy
  cases tail with
  | nil => cases hy
  | cons c rest =>
    cases hy
    exact ⟨rest, by rw [List.append_assoc]; rfl⟩

/-- A promise at an index. -/
theorem split_of_getElem? {ps : List (Processing Cursor)} {k : ℕ} {p : Processing Cursor}
    (h : ps[k]? = some p) : ∃ before after, ps = before ++ p :: after ∧ k = before.length := by
  obtain ⟨hlt, rfl⟩ := List.getElem?_eq_some_iff.mp h
  refine ⟨ps.take k, ps.drop (k + 1), ?_, ?_⟩
  · rw [List.getElem_cons_drop, List.take_append_drop]
  · rw [List.length_take, Nat.min_eq_left (Nat.le_of_lt hlt)]

theorem Attempt.move_processings {a : Attempt Cursor} {change : MemoryChange Cursor}
    {old : ProcessingStatus} {before after : List (Processing Cursor)}
    (hsplit : a.processings = before ++ ⟨change, old⟩ :: after) (new : ProcessingStatus)
    (moments : List (Moment Cursor)) :
    (a.move before.length change new moments).processings = before ++ ⟨change, new⟩ :: after := by
  unfold Attempt.move
  rw [hsplit, List.set_append_right _ _ (Nat.le_refl _)]
  simp

namespace Attempt.Pipeline

variable {a : Attempt Cursor} {k : ℕ} {change : MemoryChange Cursor} {old new : ProcessingStatus}
  {before after : List (Processing Cursor)} {moments : List (Moment Cursor)}

/-- Errors and the end of an attempt do not disturb what was done. -/
theorem of_eq {a' : Attempt Cursor} (h : a.Pipeline) (hprocessings : a'.processings = a.processings)
    (hhistory : a'.history = a.history) (hreleased : a.Released → a'.Released)
    (hboundary : a.boundaryError = true → a'.boundaryError = true)
    (hpipeline : a.pipelineError = true → a'.pipelineError = true) : a'.Pipeline where
  inTurn := hprocessings ▸ h.inTurn
  savedFirst := hprocessings ▸ h.savedFirst
  held hnot := hprocessings ▸ h.held (mt hreleased hnot)
  failed := hprocessings ▸ fun p hp hfailed => hpipeline (h.failed p hp hfailed)
  skipped := hprocessings ▸ fun p hp hskipped =>
    (h.skipped p hp hskipped).imp hboundary hpipeline
  history := by rw [hhistory, hprocessings, h.history]

theorem onChange (h : a.Pipeline) (aborted : Bool) (change : MemoryChange Cursor) :
    (a.onChange aborted change).Pipeline := by
  unfold Attempt.onChange
  split
  · exact h
  · refine ⟨?_, ?_, fun hnot => ?_, ?_, ?_, ?_⟩
    · refine List.pairwise_append.mpr ⟨h.inTurn, List.pairwise_singleton _ _, fun _ _ q hq => ?_⟩
      rw [List.mem_singleton.mp hq]
      exact .inr rfl
    · refine List.pairwise_append.mpr ⟨h.savedFirst, List.pairwise_singleton _ _, fun _ _ q hq => ?_⟩
      rw [List.mem_singleton.mp hq]
      exact .inr (.inl rfl)
    · intro p hp
      rcases List.mem_append.mp hp with hold | hnew
      · exact h.held hnot p hold
      · rw [List.mem_singleton.mp hnew]
    · intro p hp hfailed
      rcases List.mem_append.mp hp with hold | hnew
      · exact h.failed p hold hfailed
      · rw [List.mem_singleton.mp hnew] at hfailed
        rcases hfailed with hf | hf | hf <;> cases hf
    · intro p hp hskipped
      rcases List.mem_append.mp hp with hold | hnew
      · exact h.skipped p hold hskipped
      · rw [List.mem_singleton.mp hnew] at hskipped
        cases hskipped
    · dsimp only
      rw [List.flatMap_append, h.history]
      exact (List.append_nil _).symm

/-- What surrounds a promise that has not settled: after it all wait; before it all have settled,
if it has started. -/
theorem around (h : a.Pipeline) (hsplit : a.processings = before ++ ⟨change, old⟩ :: after)
    (hold : ¬ old.Settled) : (∀ q ∈ after, q.status = .waiting) ∧
      (old ≠ .waiting → ∀ p ∈ before, p.status = .saved) := by
  have hturn := List.pairwise_append.mp (hsplit ▸ h.inTurn)
  have hfirst := List.pairwise_append.mp (hsplit ▸ h.savedFirst)
  refine ⟨fun q hq => ?_, fun hstarted p hp => ?_⟩
  · exact ((List.pairwise_cons.mp hturn.2.1).1 q hq).resolve_left hold
  · refine (hfirst.2.2 p hp _ (.head _)).resolve_right ?_
    rintro (rfl | rfl)
    · exact hstarted rfl
    · exact hold trivial

/-- The promises before one whose `tail` has settled have settled. -/
theorem settled_before (h : a.Pipeline) (hsplit : a.processings = before ++ ⟨change, old⟩ :: after)
    (htail : a.TailSettled before.length) : ∀ p ∈ before, p.status.Settled := by
  rcases List.eq_nil_or_concat before with rfl | ⟨earlier, last, rfl⟩
  · exact fun p hp => nomatch hp
  · rw [List.concat_eq_append] at hsplit htail ⊢
    have hlast : last.status.Settled := by
      refine (htail last ?_).resolve_left (by simp)
      rw [hsplit]
      simp
    intro p hp
    rcases List.mem_append.mp hp with hearlier | hp
    · have hturn := (List.pairwise_append.mp (List.pairwise_append.mp (hsplit ▸ h.inTurn)).1).2.2
      refine (hturn p hearlier last (.head _)).resolve_right fun hwaiting => ?_
      rw [hwaiting] at hlast
      exact hlast
    · rw [List.mem_singleton.mp hp]
      exact hlast

/-- Without an error, what has settled was saved. -/
theorem saved_of_settled (h : a.Pipeline) (hboundary : ¬ a.boundaryError = true)
    (hpipeline : ¬ a.pipelineError = true) {p : Processing Cursor} (hp : p ∈ a.processings)
    (hsettled : p.status.Settled) : p.status = .saved := by
  cases hstatus : p.status with
  | saved => rfl
  | refused => exact absurd (h.failed p hp (.inl hstatus)) hpipeline
  | unhandled => exact absurd (h.failed p hp (.inr (.inl hstatus))) hpipeline
  | unsaved => exact absurd (h.failed p hp (.inr (.inr hstatus))) hpipeline
  | skipped => exact absurd (h.skipped p hp hstatus) (not_or.mpr ⟨hboundary, hpipeline⟩)
  | waiting | handling | saving =>
    rw [hstatus] at hsettled
    exact hsettled.elim

/-- **A promise gets on.** -/
theorem move (h : a.Pipeline) (hsplit : a.processings = before ++ ⟨change, old⟩ :: after)
    (hold : ¬ old.Settled) (hbefore : ∀ p ∈ before, p.status.Settled)
    (hsaved : (∀ p ∈ before, p.status = .saved) ∨ new.Idle) (hreleased : a.Released)
    (hmoments : Processing.moments ⟨change, new⟩ = Processing.moments ⟨change, old⟩ ++ moments)
    (hfailed : new.Failed → a.pipelineError = true)
    (hskipped : new = .skipped → a.boundaryError = true ∨ a.pipelineError = true) :
    (a.move before.length change new moments).Pipeline := by
  have hafter := (h.around hsplit hold).1
  have hset := Attempt.move_processings hsplit new moments
  have hturn := List.pairwise_append.mp (hsplit ▸ h.inTurn)
  have hfirst := List.pairwise_append.mp (hsplit ▸ h.savedFirst)
  have hmem : ∀ p ∈ (a.move before.length change new moments).processings,
      p ∈ a.processings ∨ p = ⟨change, new⟩ := by
    rw [hset, hsplit]
    intro p hp
    simp only [List.mem_append, List.mem_cons] at hp ⊢
    tauto
  have hidle : ∀ q ∈ after, q.moments = [] := fun q hq =>
    Processing.moments_of_idle (.inl (hafter q hq))
  refine ⟨?_, ?_, fun hnot => absurd hreleased hnot, ?_, ?_, ?_⟩
  · rw [hset]
    refine List.pairwise_append.mpr ⟨hturn.1, List.pairwise_cons.mpr
      ⟨fun q hq => .inr (hafter q hq), (List.pairwise_cons.mp hturn.2.1).2⟩, ?_⟩
    exact fun p hp q _ => .inl (hbefore p hp)
  · rw [hset]
    refine List.pairwise_append.mpr ⟨hfirst.1, List.pairwise_cons.mpr
      ⟨fun q hq => .inr (.inl (hafter q hq)), (List.pairwise_cons.mp hfirst.2.1).2⟩, ?_⟩
    intro p hp q hq
    rcases List.mem_cons.mp hq with rfl | hq
    · exact hsaved.imp (· p hp) id
    · exact .inr (.inl (hafter q hq))
  · intro p hp hf
    rcases hmem p hp with hin | rfl
    · exact h.failed p hin hf
    · exact hfailed hf
  · intro p hp hs
    rcases hmem p hp with hin | rfl
    · exact h.skipped p hin hs
    · exact hskipped hs
  · rw [hset]
    unfold Attempt.move
    dsimp only
    rw [h.history, hsplit]
    simp only [List.flatMap_append, List.flatMap_cons, hmoments, List.flatMap_eq_nil_iff.mpr hidle,
      List.append_nil, List.append_assoc]

/-- A promise fails. -/
theorem fail (h : a.Pipeline) (hsplit : a.processings = before ++ ⟨change, old⟩ :: after)
    (hold : ¬ old.Settled) (hbefore : ∀ p ∈ before, p.status = .saved) (hreleased : a.Released)
    (hmoments : Processing.moments ⟨change, new⟩ =
      Processing.moments ⟨change, old⟩ ++ [.failed change])
    (hnew : new ≠ .skipped) : (a.fail before.length change new).Pipeline := by
  have herror : { a with pipelineError := true }.Pipeline :=
    h.of_eq rfl rfl id id fun _ => rfl
  exact herror.move hsplit hold (fun p hp => by rw [hbefore p hp]; trivial) (.inl hbefore) hreleased
    hmoments (fun _ => rfl) fun heq => absurd heq hnew

end Attempt.Pipeline

/-- **One change at a time, and none after a failure.** -/
theorem Attempt.Pipeline.orderly {a : Attempt Cursor} (h : a.Pipeline)
    {changes : List (MemoryChange Cursor)} (hinitial : a.processings.map (·.change) <+: changes) :
    ∃ before, before <+: orderly changes ∧
      (a.history = before ∨ ∃ change, a.history = before ++ [.failed change]) := by
  rw [h.history]
  have hfirst := h.savedFirst
  generalize a.processings = processings at hinitial hfirst
  induction processings generalizing changes with
  | nil => exact ⟨[], List.nil_prefix, .inl rfl⟩
  | cons p rest ih =>
    obtain ⟨change, status⟩ := p
    obtain ⟨tail, rfl⟩ := hinitial
    rw [List.pairwise_cons] at hfirst
    simp only [List.map_cons, List.cons_append, List.flatMap_cons]
    by_cases hsaved : status = .saved
    · subst hsaved
      obtain ⟨before, hbefore, hhistory⟩ := ih (List.prefix_append _ tail) hfirst.2
      refine ⟨[.handed change, .completed change, .saved change] ++ before,
        (List.prefix_append_right_inj _).mpr hbefore, ?_⟩
      rcases hhistory with heq | ⟨failed, heq⟩
      · exact .inl (by rw [heq]; rfl)
      · exact .inr ⟨failed, by rw [heq]; rfl⟩
    · have hidle : rest.flatMap Processing.moments = [] :=
        List.flatMap_eq_nil_iff.mpr fun q hq =>
          Processing.moments_of_idle ((hfirst.1 q hq).resolve_left hsaved)
      rw [hidle, List.append_nil]
      have hwithin : ∀ before, before <+: [Moment.handed change, .completed change, .saved change] →
          before <+: [Moment.handed change, .completed change, .saved change] ++
            (rest.map (·.change) ++ tail).flatMap fun change =>
              [.handed change, .completed change, .saved change] :=
        fun before hbefore => hbefore.trans (List.prefix_append _ _)
      cases status with
      | waiting => exact ⟨[], List.nil_prefix, .inl rfl⟩
      | skipped => exact ⟨[], List.nil_prefix, .inl rfl⟩
      | handling => exact ⟨[.handed change], hwithin _ ⟨[_, _], rfl⟩, .inl rfl⟩
      | saving written => exact ⟨[.handed change, .completed change], hwithin _ ⟨[_], rfl⟩, .inl rfl⟩
      | saved => exact absurd rfl hsaved
      | refused => exact ⟨[], List.nil_prefix, .inr ⟨change, rfl⟩⟩
      | unhandled => exact ⟨[.handed change], hwithin _ ⟨[_, _], rfl⟩, .inr ⟨change, rfl⟩⟩
      | unsaved =>
        exact ⟨[.handed change, .completed change], hwithin _ ⟨[_], rfl⟩, .inr ⟨change, rfl⟩⟩

end Pipeline

/-! ### The invariant -/

section Invariant

variable {Cursor : Type} [LinearOrder Cursor]

/-- The feed goes on, and more is handled. -/
structure Grows (feed : Feed Cursor) (handled : List (MemoryChange Cursor)) (feed' : Feed Cursor)
    (handled' : List (MemoryChange Cursor)) : Prop where
  current : feed.current ≤ feed'.current
  after : ∀ cursor, feed.after cursor <+: feed'.after cursor
  more : handled ⊆ handled'
  covers : ∀ position upTo, upTo ≤ feed.current → feed.Handled handled position upTo →
    feed'.Handled handled' position upTo

theorem Grows.publish (feed : Feed Cursor) (handled : List (MemoryChange Cursor))
    (change : MemoryChange Cursor) (hnew : feed.current < change.cursor) :
    Grows feed handled (feed.publish change hnew) handled where
  current := hnew.le
  after := Feed.after_publish change hnew
  more := fun _ h => h
  covers := fun _ _ hle h => h.publish hle change hnew

theorem Grows.advance (feed : Feed Cursor) (handled : List (MemoryChange Cursor))
    (current : Cursor) (h : feed.current ≤ current) :
    Grows feed handled (feed.advance current h) handled where
  current := h
  after := fun _ => List.prefix_rfl
  more := fun _ h => h
  covers := fun _ _ _ h => h

theorem Grows.handle (feed : Feed Cursor) (handled : List (MemoryChange Cursor))
    (change : MemoryChange Cursor) : Grows feed handled feed (handled ++ [change]) where
  current := le_rfl
  after := fun _ => List.prefix_rfl
  more := List.subset_append_left _ _
  covers := fun _ _ _ h => h.mono (List.subset_append_left _ _)

/-- A cursor of the feed; once a boundary was saved it is one, and what lies between was handled. -/
structure Subscriber.Reached (s : Subscriber Cursor) (cursor : Option Cursor) : Prop where
  le : ∀ c ∈ cursor, c ≤ s.feed.current
  covered : ∀ t ∈ s.settled, ∃ c, cursor = some c ∧ s.feed.Handled s.handled t c

/-- An attempt of a worker: its promises are the changes after its boundary, in order. -/
structure Attempt.Sound (s : Subscriber Cursor) (w : Worker Cursor) (a : Attempt Cursor) :
    Prop where
  pipeline : a.Pipeline
  unaccepted : a.boundary = none → a.processings = []
  changes : ∀ b ∈ a.boundary, a.processings.map (·.change) <+: s.feed.after b
  delivered : a.processings.length = a.delivered ∨ a.phase = .draining ∨ w.aborted = true
  requested : ∀ b ∈ a.boundary, ∀ r ∈ a.requested, b = r
  starting : a.phase = .starting → w.value = a.requested
  saving : ∀ written, a.phase = .savingBoundary written → a.boundary ≠ none
  written : a.phase = .savingBoundary true → s.persisted = a.boundary
  value : ∀ v ∈ w.value, ∀ b ∈ a.boundary,
    v = b ∨ ∃ p ∈ a.processings, p.status = .saved ∧ p.change.cursor = v
  handled : ∀ p ∈ a.processings, p.status = .saved ∨ (∃ written, p.status = .saving written) →
    p.change ∈ s.handled
  boundary : ∀ b ∈ a.boundary, b ≤ s.feed.current ∧
    ∀ t ∈ s.settled, s.feed.Handled s.handled t b

def Worker.Sound (s : Subscriber Cursor) (w : Worker Cursor) : Prop :=
  match w.stage with
  | .loading | .returned => True
  | .ready => s.Reached w.value
  | .attempting a => s.Reached w.value ∧ a.Sound s w

/-- What holds of every subscription that can be reached. -/
structure Subscriber.Sound (s : Subscriber Cursor) : Prop where
  persisted : s.Reached s.persisted
  worker : ∀ w ∈ s.worker, w.Sound s

namespace Subscriber

variable {s s' : Subscriber Cursor} {w : Worker Cursor} {a : Attempt Cursor}

theorem Reached.grow {cursor : Option Cursor} (h : s.Reached cursor)
    (hgrows : Grows s.feed s.handled s'.feed s'.handled) (hsettled : s'.settled = s.settled) :
    s'.Reached cursor where
  le c hc := (h.le c hc).trans hgrows.current
  covered t ht := by
    obtain ⟨c, hc, hcovered⟩ := h.covered t (hsettled ▸ ht)
    exact ⟨c, hc, hgrows.covers t c (h.le c hc) hcovered⟩

end Subscriber

theorem Attempt.Sound.grow {s s' : Subscriber Cursor} {w w' : Worker Cursor} {a : Attempt Cursor}
    (h : a.Sound s w) (hgrows : Grows s.feed s.handled s'.feed s'.handled)
    (hsettled : s'.settled = s.settled) (hpersisted : s'.persisted = s.persisted)
    (hvalue : w'.value = w.value) (haborted : w.aborted = true → w'.aborted = true) :
    a.Sound s' w' where
  pipeline := h.pipeline
  unaccepted := h.unaccepted
  changes b hb := (h.changes b hb).trans (hgrows.after b)
  delivered := h.delivered.imp_right (·.imp_right haborted)
  requested := h.requested
  starting hphase := hvalue ▸ h.starting hphase
  saving := h.saving
  written hphase := hpersisted ▸ h.written hphase
  value := hvalue ▸ h.value
  handled p hp hdone := hgrows.more (h.handled p hp hdone)
  boundary b hb := ⟨((h.boundary b hb).1).trans hgrows.current, fun t ht =>
    hgrows.covers t b (h.boundary b hb).1 ((h.boundary b hb).2 t (hsettled ▸ ht))⟩

theorem Worker.Sound.grow {s s' : Subscriber Cursor} {w : Worker Cursor} (h : w.Sound s)
    (hgrows : Grows s.feed s.handled s'.feed s'.handled) (hsettled : s'.settled = s.settled)
    (hpersisted : s'.persisted = s.persisted) : w.Sound s' := by
  obtain ⟨value, stage, aborted⟩ := w
  cases stage with
  | loading => trivial
  | returned => trivial
  | ready => exact Subscriber.Reached.grow h hgrows hsettled
  | attempting a =>
    exact ⟨h.1.grow hgrows hsettled, h.2.grow hgrows hsettled hpersisted rfl id⟩

namespace Subscriber

variable {s : Subscriber Cursor} {w : Worker Cursor} {a : Attempt Cursor}

/-- **Events outside the worker.** -/
theorem Sound.stepOutside (h : s.Sound) (event : SubscriberEvent Cursor) :
    (s.stepOutside event).Sound := by
  have hgrow : ∀ feed', Grows s.feed s.handled feed' s.handled →
      { s with feed := feed' }.Sound := fun feed' hgrows =>
    ⟨h.persisted.grow hgrows rfl, fun w hw => (h.worker w hw).grow hgrows rfl rfl⟩
  cases event with
  | publish change =>
    dsimp only [Subscriber.stepOutside]
    split
    · exact hgrow _ (Grows.publish _ _ _ _)
    · exact h
  | advance current =>
    dsimp only [Subscriber.stepOutside]
    split
    · exact hgrow _ (Grows.advance _ _ _ _)
    · exact h
  | run =>
    have hnew : { s with worker := some ⟨none, .loading, false⟩ }.Sound :=
      ⟨⟨h.persisted.le, h.persisted.covered⟩, fun w hw => by cases hw; trivial⟩
    dsimp only [Subscriber.stepOutside]
    split
    · exact hnew
    · exact hnew
    · exact h
  | crash => exact ⟨⟨h.persisted.le, h.persisted.covered⟩, fun w hw => nomatch hw⟩
  | abort =>
    refine ⟨⟨h.persisted.le, h.persisted.covered⟩, fun w hw => ?_⟩
    obtain ⟨old, hold, rfl⟩ := Option.map_eq_some_iff.mp hw
    have hsound := h.worker old hold
    obtain ⟨value, stage, aborted⟩ := old
    cases stage with
    | loading => trivial
    | returned => trivial
    | ready => exact ⟨hsound.le, hsound.covered⟩
    | attempting a =>
      have hself : Grows s.feed s.handled s.feed s.handled :=
        ⟨le_rfl, fun _ => List.prefix_rfl, fun _ h => h, fun _ _ _ h => h⟩
      exact ⟨⟨hsound.1.le, hsound.1.covered⟩, hsound.2.grow hself rfl rfl rfl fun _ => rfl⟩
  | _ => exact h

end Subscriber

/-! ### A promise gets on -/

section Promises

variable {s s' : Subscriber Cursor} {w w' : Worker Cursor} {a a' : Attempt Cursor}
  {change : MemoryChange Cursor} {old new : ProcessingStatus}
  {before after : List (Processing Cursor)}

/-- **Where a change is being saved, everything up to it was handled.** -/
theorem Attempt.Sound.reached (h : a.Sound s w) {written : Bool}
    (hsplit : a.processings = before ++ ⟨change, .saving written⟩ :: after) :
    s.Reached (some change.cursor) := by
  obtain ⟨b, hb⟩ : ∃ b, a.boundary = some b := by
    refine Option.ne_none_iff_exists'.mp fun hnone => ?_
    have hnil := h.unaccepted hnone
    rw [hsplit] at hnil
    simp at hnil
  obtain ⟨tail, htail⟩ := h.changes b hb
  rw [hsplit, List.map_append, List.map_cons, List.append_assoc, List.cons_append] at htail
  have hmem : change ∈ s.feed.after b := htail ▸ List.mem_append_right _ (.head _)
  have hchange : change ∈ s.handled :=
    h.handled _ (hsplit ▸ List.mem_append_right _ (.head _)) (.inr ⟨written, rfl⟩)
  have hbefore : ∀ c ∈ before.map (·.change), c ∈ s.handled := by
    intro c hc
    obtain ⟨p, hp, rfl⟩ := List.mem_map.mp hc
    have hsaved := (h.pipeline.around hsplit fun h => h).2 (fun h => nomatch h) p hp
    exact h.handled p (hsplit ▸ List.mem_append_left _ hp) (.inl hsaved)
  refine ⟨fun c hc => ?_, fun t ht => ⟨_, rfl, ?_⟩⟩
  · cases hc
    exact s.feed.upToCurrent change (Feed.mem_after.mp hmem).1
  · exact ((h.boundary b hb).2 t ht).extend htail.symm hbefore hchange

/-- An attempt after one of its promises got on. -/
theorem Attempt.Sound.promise (h : a.Sound s w)
    (hsplit : a.processings = before ++ ⟨change, old⟩ :: after) (hold : ¬ old.Settled)
    (hprocessings : a'.processings = before ++ ⟨change, new⟩ :: after) (hpipeline : a'.Pipeline)
    (hreleased : a.Released)
    (hframe : a'.boundary = a.boundary ∧ a'.requested = a.requested ∧ a'.delivered = a.delivered ∧
      a'.phase = a.phase)
    (hstore : s'.feed = s.feed ∧ s'.settled = s.settled ∧ s.handled ⊆ s'.handled)
    (haborted : w'.aborted = w.aborted)
    (hnew : new = .saved ∨ (∃ written, new = .saving written) → change ∈ s'.handled)
    (hvalue : w'.value = w.value ∨ w'.value = some change.cursor ∧ new = .saved) :
    a'.Sound s' w' := by
  obtain ⟨hboundary, hrequested, hdelivered, hphase⟩ := hframe
  obtain ⟨hfeed, hsettled, hmore⟩ := hstore
  have hmap : a'.processings.map (·.change) = a.processings.map (·.change) := by
    rw [hprocessings, hsplit]
    simp
  have hmem : ∀ p ∈ a'.processings, p ∈ a.processings ∨ p = ⟨change, new⟩ := by
    rw [hprocessings, hsplit]
    intro p hp
    simp only [List.mem_append, List.mem_cons] at hp ⊢
    tauto
  have hkept : ∀ p ∈ a.processings, p.status = .saved → p ∈ a'.processings := by
    rw [hprocessings, hsplit]
    intro p hp hsaved
    simp only [List.mem_append, List.mem_cons] at hp ⊢
    rcases hp with hp | rfl | hp
    · exact .inl hp
    · refine absurd ?_ hold
      rw [show old = .saved from hsaved]
      trivial
    · exact .inr (.inr hp)
  have hnot : ∀ phase, phase ≠ .racing → phase ≠ .draining → a'.phase ≠ phase := by
    rintro phase hracing hdraining heq
    rcases hreleased with h' | h'
    · exact hracing (heq ▸ hphase ▸ h')
    · exact hdraining (heq ▸ hphase ▸ h')
  refine ⟨hpipeline, fun hnone => ?_, fun b hb => ?_, ?_, ?_, fun hstarting => ?_, fun written hw => ?_,
    fun hw => ?_, fun v hv b hb => ?_, fun p hp hdone => ?_, fun b hb => ?_⟩
  · have hnil := h.unaccepted (hboundary ▸ hnone)
    rw [hsplit] at hnil
    simp at hnil
  · rw [hmap, hfeed]
    exact h.changes b (hboundary ▸ hb)
  · have hlength : a'.processings.length = a.processings.length := by
      rw [hprocessings, hsplit]
      simp
    rw [hlength, hdelivered, hphase, haborted]
    exact h.delivered
  · rw [hboundary, hrequested]
    exact h.requested
  · exact absurd hstarting (hnot _ (fun h => nomatch h) fun h => nomatch h)
  · exact absurd hw (hnot _ (fun h => nomatch h) fun h => nomatch h)
  · exact absurd hw (hnot _ (fun h => nomatch h) fun h => nomatch h)
  · rcases hvalue with hsame | ⟨hcursor, rfl⟩
    · rcases h.value v (hsame ▸ hv) b (hboundary ▸ hb) with heq | ⟨p, hp, hsaved, hpv⟩
      · exact .inl heq
      · exact .inr ⟨p, hkept p hp hsaved, hsaved, hpv⟩
    · rw [hcursor] at hv
      cases hv
      exact .inr ⟨⟨change, .saved⟩, hprocessings ▸ List.mem_append_right _ (.head _), rfl, rfl⟩
  · rcases hmem p hp with hin | rfl
    · exact hmore (h.handled p hin hdone)
    · exact hnew hdone
  · obtain ⟨hle, hcovered⟩ := h.boundary b (hboundary ▸ hb)
    rw [hfeed]
    exact ⟨hle, fun t ht => (hcovered t (hsettled ▸ ht)).mono hmore⟩

/-- A promise that has started belongs to a released boundary. -/
theorem Attempt.Sound.released (h : a.Sound s w)
    (hsplit : a.processings = before ++ ⟨change, old⟩ :: after) (hstarted : old ≠ .waiting) :
    a.Released := by
  by_contra hnot
  exact hstarted (h.pipeline.held hnot _ (hsplit ▸ List.mem_append_right _ (.head _)))

/-- No change is delivered twice. -/
theorem Attempt.Sound.value_ne (h : a.Sound s w)
    (hsplit : a.processings = before ++ ⟨change, .waiting⟩ :: after) :
    some change.cursor ≠ w.value := by
  intro hvalue
  cases hb : a.boundary with
  | none =>
    have hnil := h.unaccepted hb
    rw [hsplit] at hnil
    simp at hnil
  | some b =>
    have hinitial := h.changes b hb
    rw [hsplit, List.map_append, List.map_cons] at hinitial
    rcases h.value change.cursor hvalue.symm b hb with heq | ⟨p, hp, hsaved, hpv⟩
    · have hmem := hinitial.subset (List.mem_append_right _ (.head _))
      exact absurd heq.symm (Feed.mem_after.mp hmem).2.ne
    · rw [hsplit, List.mem_append, List.mem_cons] at hp
      rcases hp with hbefore | rfl | hafter
      · have hordered := (s.feed.after_ordered b).sublist hinitial.sublist
        have hlt := (List.pairwise_append.mp hordered).2.2 _ (List.mem_map_of_mem hbefore) _ (.head _)
        exact absurd hpv hlt.ne
      · cases hsaved
      · have hwaiting := (h.pipeline.around hsplit fun h => h).1 p hafter
        rw [hsaved] at hwaiting
        cases hwaiting

/-- **The head of a promise.** -/
theorem Attempt.Sound.begin (h : a.Sound s w)
    (hsplit : a.processings = before ++ ⟨change, .waiting⟩ :: after) (hreleased : a.Released)
    (htail : a.TailSettled before.length) :
    (a.begin w.value w.aborted before.length change).Sound s w := by
  have hsettled := h.pipeline.settled_before hsplit htail
  have hmem : ∀ p ∈ before, p ∈ a.processings := fun p hp => hsplit ▸ List.mem_append_left _ hp
  have hpromise : ∀ {a' : Attempt Cursor} {new : ProcessingStatus},
      a'.processings = before ++ ⟨change, new⟩ :: after → a'.Pipeline →
      (a'.boundary = a.boundary ∧ a'.requested = a.requested ∧ a'.delivered = a.delivered ∧
        a'.phase = a.phase) → ¬ (new = .saved ∨ ∃ written, new = .saving written) →
      a'.Sound s w := fun hprocessings hpipeline hframe hnew =>
    h.promise hsplit (fun h => h) hprocessings hpipeline hreleased hframe ⟨rfl, rfl, fun _ h => h⟩
      rfl (fun hsaving => absurd hsaving hnew) (.inl rfl)
  unfold Attempt.begin
  split
  · rename_i herror
    refine hpromise (Attempt.move_processings hsplit _ _) ?_ ⟨rfl, rfl, rfl, rfl⟩ (by simp)
    refine h.pipeline.move hsplit (fun h => h) hsettled (.inr (.inr rfl)) hreleased rfl ?_
      fun _ => herror
    rintro (hf | hf | hf) <;> cases hf
  · rename_i herror
    rw [if_neg (h.value_ne hsplit)]
    obtain ⟨hboundary, hpipeline⟩ := not_or.mp herror
    have hsaved : ∀ p ∈ before, p.status = .saved := fun p hp =>
      h.pipeline.saved_of_settled hboundary hpipeline (hmem p hp) (hsettled p hp)
    split
    · refine hpromise (Attempt.move_processings hsplit _ [.failed change]) ?_ ⟨rfl, rfl, rfl, rfl⟩
        (by simp)
      exact h.pipeline.fail hsplit (fun h => h) hsaved hreleased rfl fun h => nomatch h
    · refine hpromise (Attempt.move_processings hsplit _ _) ?_ ⟨rfl, rfl, rfl, rfl⟩ (by simp)
      refine h.pipeline.move hsplit (fun h => h) hsettled (.inl hsaved) hreleased rfl ?_
        fun h => nomatch h
      rintro (hf | hf | hf) <;> cases hf

/-- A promise that has started fails. -/
theorem Attempt.Sound.fail (h : a.Sound s w)
    (hsplit : a.processings = before ++ ⟨change, old⟩ :: after) (hold : ¬ old.Settled)
    (hstarted : old ≠ .waiting)
    (hmoments : Processing.moments ⟨change, new⟩ =
      Processing.moments ⟨change, old⟩ ++ [.failed change])
    (hnew : ¬ (new = .saved ∨ ∃ written, new = .saving written)) (hskipped : new ≠ .skipped) :
    (a.fail before.length change new).Sound s w :=
  h.promise hsplit hold (Attempt.move_processings hsplit _ [.failed change])
    (h.pipeline.fail hsplit hold ((h.pipeline.around hsplit hold).2 hstarted)
      (h.released hsplit hstarted) hmoments hskipped)
    (h.released hsplit hstarted) ⟨rfl, rfl, rfl, rfl⟩ ⟨rfl, rfl, fun _ h => h⟩ rfl
    (fun hsaving => absurd hsaving hnew) (.inl rfl)

/-- The attempt drains. -/
theorem Attempt.Sound.leave (h : a.Sound s w) (error : Bool) : (a.leave error).Sound s w where
  pipeline := h.pipeline.of_eq rfl rfl (fun _ => .inr rfl)
    (fun herror => by simp [Attempt.leave, herror]) id
  unaccepted := h.unaccepted
  changes := h.changes
  delivered := .inr (.inl rfl)
  requested := h.requested
  starting hphase := nomatch hphase
  saving _ hphase := nomatch hphase
  written hphase := nomatch hphase
  value := h.value
  handled := h.handled
  boundary := h.boundary

/-- An attempt that starts. -/
theorem Attempt.start_sound (s : Subscriber Cursor) (w : Worker Cursor) :
    (Attempt.start w.value).Sound s w where
  pipeline :=
    ⟨.nil, .nil, fun _ _ hp => (nomatch hp), fun _ hp => (nomatch hp), fun _ hp => (nomatch hp), rfl⟩
  unaccepted _ := rfl
  changes _ hb := nomatch hb
  delivered := .inl rfl
  requested _ hb := nomatch hb
  starting _ := rfl
  saving _ hphase := nomatch hphase
  written hphase := nomatch hphase
  value _ _ _ hb := nomatch hb
  handled _ hp := nomatch hp
  boundary _ hb := nomatch hb

/-- As long as it does not drain, an attempt takes what is delivered. -/
theorem Attempt.Sound.delivered_of_ne (h : a.Sound s w) (hphase : a.phase ≠ .draining)
    (phase : AttemptPhase) :
    a.processings.length = a.delivered ∨ phase = .draining ∨ w.aborted = true :=
  h.delivered.imp_right fun hrest => .inr (hrest.resolve_left hphase)

/-- The plugin accepts. -/
theorem Attempt.Sound.accept (h : a.Sound s w) (hvalue : s.Reached w.value)
    (hnone : a.boundary = none) (hphase : a.phase = .starting) :
    { a with boundary := some (a.requested.getD s.feed.current) }.Sound s w := by
  have hempty := h.unaccepted hnone
  have hrequested := h.starting hphase
  refine ⟨h.pipeline.of_eq rfl rfl id id id, fun heq => (nomatch heq), fun b _ => ?_, h.delivered,
    fun b hb r hr => ?_, h.starting, fun written hw => ?_, fun hw => ?_, fun v hv b hb => .inl ?_,
    h.handled, fun b hb => ?_⟩
  · dsimp only
    rw [hempty]
    exact List.nil_prefix
  · cases hb
    rw [show a.requested = some r from hr]
    rfl
  · exact nomatch hphase.symm.trans hw
  · exact nomatch hphase.symm.trans hw
  · cases hb
    rw [← hrequested, show w.value = some v from hv]
    rfl
  · cases hb
    rw [hrequested] at hvalue
    cases hr : a.requested with
    | none =>
      refine ⟨le_rfl, fun t ht => ?_⟩
      obtain ⟨c, hc, -⟩ := hvalue.covered t ht
      rw [hr] at hc
      cases hc
    | some r =>
      refine ⟨hvalue.le r hr, fun t ht => ?_⟩
      obtain ⟨c, hc, hcovered⟩ := hvalue.covered t ht
      rw [hr] at hc
      cases hc
      exact hcovered

/-- The plugin delivers a change. -/
theorem Attempt.Sound.deliver (h : a.Sound s w) {b : Cursor} (hb : a.boundary = some b)
    (hnext : (s.feed.after b)[a.delivered]? = some change) :
    { a.onChange w.aborted change with delivered := a.delivered + 1 }.Sound s w := by
  have hpipeline : Attempt.Pipeline { a.onChange w.aborted change with
      delivered := a.delivered + 1 } :=
    (h.pipeline.onChange w.aborted change).of_eq rfl rfl id id id
  unfold Attempt.onChange at hpipeline ⊢
  by_cases hignored : a.phase = .draining ∨ w.aborted = true
  · rw [if_pos hignored] at hpipeline ⊢
    exact ⟨hpipeline, h.unaccepted, h.changes, .inr hignored, h.requested, h.starting, h.saving,
      h.written, h.value, h.handled, h.boundary⟩
  · rw [if_neg hignored] at hpipeline ⊢
    have hlength := h.delivered.resolve_right hignored
    refine ⟨hpipeline, fun hnone => ?_, fun b' hb' => ?_, .inl ?_, h.requested, h.starting, h.saving,
      h.written, fun v hv b' hb' => ?_, fun p hp hdone => ?_, h.boundary⟩
    · exact nomatch hb.symm.trans hnone
    · cases hb.symm.trans hb'
      dsimp only
      rw [List.map_append]
      refine prefix_append_getElem? (h.changes b hb) ?_
      rw [List.length_map, hlength]
      exact hnext
    · rw [List.length_append, hlength]
      rfl
    · exact (h.value v hv b' hb').imp_right fun ⟨p, hp, hrest⟩ =>
        ⟨p, List.mem_append_left _ hp, hrest⟩
    · rcases List.mem_append.mp hp with hin | hnew
      · exact h.handled p hin hdone
      · rw [List.mem_singleton.mp hnew] at hdone
        rcases hdone with hd | ⟨written, hd⟩ <;> cases hd

end Promises

end Invariant

end Patchouli
