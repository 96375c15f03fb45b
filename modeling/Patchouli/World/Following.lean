import Mathlib.Data.List.Sort
import Patchouli.Backend.ChangeStream
import Patchouli.Lib.Window
import Patchouli.World.ChangeLog

/-!
# Following the change log

A subscription yields the change records of its scope, from the cursor it was accepted at, in order,
none twice and none left out. The head history has a row for every record there ever was; between
two pages the log only grows, and what a prune takes from it is at or below the boundary that the
prune has noted. So a page that is read above the boundary has everything.

The boundary is noted before the records are deleted, by a statement of its own. A crash between the
two leaves a boundary that nothing was pruned up to: a stream that is refused because of it is
refused although every record it asks for is in the log.

## Main definitions

* `Trace` — a run, with every record the log has had in it
* `Trace.Lacks` — a record above a cursor was pruned, or a crash saved it from that
* `Followed` — a subscription that is accepted in a run, and its stream

## Main results

* `Traced.inv` — where the boundary of a scope comes from
* `Followed.inv` — what a stream has yielded, what is left of its page, and why it ended
* `subscription_has_no_gaps`
* `expiry_is_by_boundary_and_page` — a crash in a prune, and a prune under a page
-/

namespace Patchouli

open Db Relation

variable {env : Environment} {w : World}

/-! ### Pages -/

/-- A change record as a page lists it. -/
def ChangeRow.stored (row : ChangeRow) : StoredChange :=
  { cursor := row.cursor, entityType := row.key.entityType, entityId := row.key.entityId
    kind := row.kind, headVersions := row.headVersionsJson, eventMetaJson := row.eventMetaJson }

/-- The stream is of the scope of the record, and its filter lets it through. -/
def ChangeStream.Wants (s : ChangeStream) (row : ChangeRow) : Prop :=
  row.key.scopeJson = s.scope ∧ s.filter.types.all (row.key.entityType ∈ ·) = true ∧
    s.filter.ids.all (row.key.entityId ∈ ·) = true

instance (s : ChangeStream) (row : ChangeRow) : Decidable (s.Wants row) :=
  inferInstanceAs (Decidable (_ ∧ _ ∧ _))

/-- A page is refused below the boundary of the scope, and past its frontier. -/
theorem validateChangeCursor_changePage (db : Db) (query : ChangeQuery) (cursor : ℕ) :
    validateChangeCursor cursor (db.changePage query) =
      if cursor ≤ db.currentScopeCursor query.scopeJson ∧ db.prunedThrough query.scopeJson ≤ cursor
      then .ok () else .error cursorExpired := by
  have hboundary : ((db.changePage query).oldestCursor.any (cursor + 1 < ·) = true) ↔
      cursor < db.prunedThrough query.scopeJson := by
    unfold changePage prunedThrough Table.valueAt
    cases db.changeRetention.find? (·.scopeJson = query.scopeJson) with
    | none => simp
    | some row => simp
  have hfrontier :
      (db.changePage query).currentCursor = db.currentScopeCursor query.scopeJson := rfl
  simp only [validateChangeCursor, hboundary, hfrontier]
  split <;> split <;> first | rfl | (exfalso; omega)

/-- What a stream does with a page. -/
theorem ChangeStream.receive_page (s : ChangeStream) (db : Db) (time : ℕ) :
    s.receive (.ok (db.changePage (s.query time))) =
      if s.cursor ≤ db.currentScopeCursor s.scope ∧ db.prunedThrough s.scope ≤ s.cursor then
        if (db.changePage (s.query time)).changes = [] then
          { s with cursor := db.currentScopeCursor s.scope, waiting := true }
        else { s with pending := (db.changePage (s.query time)).changes }
      else { s with ended := some cursorExpired } := by
  have hvalidate := validateChangeCursor_changePage db (s.query time) s.cursor
  rw [show (s.query time).scopeJson = s.scope from rfl] at hvalidate
  unfold ChangeStream.receive
  simp only [hvalidate]
  by_cases hin : s.cursor ≤ db.currentScopeCursor s.scope ∧ db.prunedThrough s.scope ≤ s.cursor
  · simp only [if_pos hin]
    rfl
  · simp only [if_neg hin]

/-- The records of a page, of a log that is in order. -/
theorem changePage_changes {db : Db} (hsorted : db.changes.Pairwise (·.cursor < ·.cursor))
    (s : ChangeStream) (retainedAfter : ℕ) :
    (db.changePage (s.query retainedAfter)).changes =
      (((db.changes.filter (s.Wants ·)).filter (s.cursor < ·.cursor)).take 256).map
        ChangeRow.stored := by
  have hrows : (db.changes.filter fun row =>
      row.key.scopeJson = (s.query retainedAfter).scopeJson ∧
        (s.query retainedAfter).afterCursor < row.cursor).Pairwise
      fun r s => r.cursor ≤ s.cursor :=
    (hsorted.filter _).imp le_of_lt
  show (List.take 256 (List.filter _ (List.insertionSort _ _))).map ChangeRow.stored = _
  rw [hrows.insertionSort_eq, List.filter_filter, List.filter_filter]
  congr 2
  refine List.filter_congr fun row _ => ?_
  rw [← Bool.decide_and, ← Bool.decide_and, decide_eq_decide]
  simp only [ChangeStream.Wants, ChangeStream.query]
  tauto

/-! ### Runs with their records -/

/-- The records whose prune a crash cuts off, after the boundary was noted. -/
def World.spares (w : World) : Event → List ChangeRow
  | .crashInPrune query =>
    if query.retainedAfterUnixMs < 2 ^ 63 then
      w.db.changes.filter (·.recordedAtUnixMs < query.retainedAfterUnixMs)
    else []
  | _ => []

/-- A run: the world it has reached, every record that was ever in the log, and the records that
crashes have spared. -/
structure Trace where
  world : World
  log : List ChangeRow
  spared : List ChangeRow

def Trace.start : Trace := ⟨World.start, [], []⟩

/-- One event of a run. -/
def Trace.step (env : Environment) (t : Trace) (event : Event) : Trace where
  world := t.world.step env event
  log := t.log ++ (t.world.step env event).db.changes.filter (· ∉ t.world.db.changes)
  spared := t.spared ++ t.world.spares event

/-- The runs. -/
inductive Traced (env : Environment) : Trace → Prop
  | start : Traced env Trace.start
  | step {t : Trace} (event : Event) (h : Traced env t) : Traced env (t.step env event)

theorem Traced.reachable {t : Trace} (h : Traced env t) : Reachable env t.world := by
  induction h with
  | start => exact .start
  | step event _ ih => exact .step event ih trivial

/-- There is a record above the cursor that was pruned, or that only a crash has saved from it. -/
def Trace.Lacks (t : Trace) (scope : String) (cursor : ℕ) : Prop :=
  ∃ row ∈ t.log, row.key.scopeJson = scope ∧ cursor < row.cursor ∧
    (row ∉ t.world.db.changes ∨ row ∈ t.spared)

/-- What a run knows of its records. -/
structure Trace.Inv (t : Trace) : Prop where
  history : t.log.map (·.history) = t.world.db.headHistory
  kept : t.world.db.changes.Sublist t.log
  boundary : ∀ scope, t.world.db.prunedThrough scope = 0 ∨
    ∃ row ∈ t.log, row.key.scopeJson = scope ∧ row.cursor = t.world.db.prunedThrough scope ∧
      (row ∉ t.world.db.changes ∨ row ∈ t.spared)

section Added

variable {old new : Db} {added : List ChangeRow}

/-- What is added to the log is above the frontier of its scope. -/
theorem Appends.above (h : Appends old new added) (hold : LogInv old) (hnew : LogInv new)
    {row : ChangeRow} (hrow : row ∈ added) :
    old.currentScopeCursor row.key.scopeJson < row.cursor := by
  have hmem : row.history ∈ added.map (·.history) := List.mem_map_of_mem hrow
  rcases hold.attained row.key.scopeJson with hzero | ⟨last, hlast, -, heq⟩
  · rw [hzero]
    exact (hnew.history row.history (h.headHistory_eq ▸ List.mem_append_right _ hmem)).1
  · have hincreasing := hnew.increasing
    rw [h.headHistory_eq, List.pairwise_append] at hincreasing
    rw [← heq]
    exact hincreasing.2.2 last hlast _ hmem

/-- What is added was not in the log. -/
theorem Appends.fresh (h : Appends old new added) (hold : LogInv old) (hnew : LogInv new)
    {row : ChangeRow} (hrow : row ∈ added) : row ∉ old.changes := by
  intro hmem
  have habove := h.above hold hnew hrow
  have hfrontier := (hold.history _ (hold.recorded row hmem)).2
  exact absurd hfrontier (not_le.mpr habove)

end Added

/-- A trace takes up what an event adds to the log. -/
theorem Traced.inv_appends (hlaw : env.automerge.Lawful) {t : Trace} {event : Event}
    (h : Traced env t) (inv : t.Inv) {added : List ChangeRow}
    (happends : Appends t.world.db (t.step env event).world.db added) :
    (t.step env event).log = t.log ++ added ∧ (t.step env event).Inv := by
  have hold := h.reachable.log hlaw
  have hnew := (Traced.step event h).reachable.log hlaw
  have hfilter : (t.step env event).world.db.changes.filter (· ∉ t.world.db.changes) = added := by
    rw [happends.changes_eq, List.filter_append, List.filter_eq_nil_iff.mpr, List.nil_append,
      List.filter_eq_self]
    · exact fun row hrow => decide_eq_true (happends.fresh hold hnew hrow)
    · simp
  have hlog : (t.step env event).log = t.log ++ added := congrArg (t.log ++ ·) hfilter
  refine ⟨hlog, ?_, ?_, fun scope => ?_⟩
  · rw [hlog, List.map_append, inv.history, happends.headHistory_eq]
  · rw [hlog, happends.changes_eq]
    exact inv.kept.append (.refl added)
  · have hsame : (t.step env event).world.db.prunedThrough scope =
        t.world.db.prunedThrough scope := by
      rw [prunedThrough, happends.changeRetention_eq]
      rfl
    rw [hsame]
    refine (inv.boundary scope).imp_right fun hex => ?_
    obtain ⟨row, hrow, hscope, hcursor, hgone⟩ := hex
    refine ⟨row, hlog ▸ List.mem_append_left _ hrow, hscope, hcursor,
      hgone.imp (fun hgone hmem => ?_) (List.mem_append_left _)⟩
    rw [happends.changes_eq] at hmem
    rcases List.mem_append.mp hmem with hmem | hmem
    · exact hgone hmem
    · have habove := happends.above hold hnew hmem
      have hmem : row.history ∈ t.world.db.headHistory :=
        inv.history ▸ List.mem_map_of_mem hrow
      exact absurd (hold.history _ hmem).2 (not_le.mpr habove)

/-- Where the boundary of a scope comes from, after a prune or half of one. -/
theorem World.prunedThrough_step (env : Environment) {event : Event} (hprunes : event.Prunes)
    (w : World) (scope : String) :
    (w.step env event).db.prunedThrough scope = w.db.prunedThrough scope ∨
      ∃ row ∈ w.db.changes, row.key.scopeJson = scope ∧
        row.cursor = (w.step env event).db.prunedThrough scope ∧
        (row ∉ (w.step env event).db.changes ∨ row ∈ w.spares event) := by
  cases event with
  | readChanges query =>
    show (readChanges w.db query).db.prunedThrough scope = _ ∨ ∃ row ∈ w.db.changes, _ ∧
      row.cursor = (readChanges w.db query).db.prunedThrough scope ∧
        (row ∉ (readChanges w.db query).db.changes ∨ _)
    unfold readChanges
    split
    · exact Or.inl rfl
    · rename_i bound _
      refine (prunedThrough_recordRetention_cases w.db bound scope).imp_right ?_
      rintro ⟨row, hrow, hover, hscope, heq⟩
      refine ⟨row, hrow, hscope, heq.symm, Or.inl fun hmem => ?_⟩
      have hkept := of_decide_eq_true (List.mem_filter.mp hmem).2
      omega
  | crashInPrune query =>
    show (w.db.notePrune query).prunedThrough scope = _ ∨ ∃ row ∈ w.db.changes, _ ∧
      row.cursor = (w.db.notePrune query).prunedThrough scope ∧ (_ ∨ row ∈ w.spares _)
    unfold notePrune
    split
    · exact Or.inl rfl
    · rename_i bound hbound
      obtain ⟨hlt, rfl⟩ := bindUnsigned_eq_ok.mp hbound
      refine (prunedThrough_recordRetention_cases w.db _ scope).imp_right ?_
      rintro ⟨row, hrow, hover, hscope, heq⟩
      refine ⟨row, hrow, hscope, heq.symm, Or.inr ?_⟩
      rw [World.spares, if_pos hlt]
      exact List.mem_filter.mpr ⟨hrow, decide_eq_true hover⟩
  | arrive => exact hprunes.elim
  | advance => exact hprunes.elim
  | read => exact hprunes.elim
  | retrieve => exact hprunes.elim
  | sweep => exact hprunes.elim

/-- A prune adds no record. -/
theorem Traced.inv_prunes (hlaw : env.automerge.Lawful) {t : Trace} {event : Event}
    (h : Traced env t) (inv : t.Inv) (hprunes : event.Prunes) :
    (t.step env event).log = t.log ∧ (t.step env event).Inv := by
  have hupkeeps : Upkeeps (t.world.brings env event) t.world.db (t.world.step env event).db :=
    event.prunes_upkeeps hprunes t.world
  have hsame := Upkeeps.sameHistory hupkeeps
  obtain ⟨-, hchanges, -⟩ := Upkeeps.still (h.reachable.sound hlaw).inv hupkeeps
  have hlog : (t.step env event).log = t.log := by
    show t.log ++ List.filter _ _ = _
    rw [List.filter_eq_nil_iff.mpr, List.append_nil]
    intro row hrow
    simpa using hchanges.subset hrow
  refine ⟨hlog, ?_, ?_, fun scope => ?_⟩
  · rw [hlog, inv.history]
    exact hsame.headHistory.symm
  · rw [hlog]
    exact hchanges.trans inv.kept
  · rcases World.prunedThrough_step env hprunes t.world scope with heq | hex
    · rw [show (t.step env event).world.db.prunedThrough scope = _ from heq]
      refine (inv.boundary scope).imp_right fun hex => ?_
      obtain ⟨row, hrow, hscope, hcursor, hgone⟩ := hex
      exact ⟨row, hlog ▸ hrow, hscope, hcursor,
        hgone.imp (fun hgone hmem => hgone (hchanges.subset hmem)) (List.mem_append_left _)⟩
    · obtain ⟨row, hrow, hscope, hcursor, hgone⟩ := hex
      exact Or.inr ⟨row, hlog ▸ inv.kept.subset hrow, hscope, hcursor,
        hgone.imp_right (List.mem_append_right _)⟩

/-- **A trace is a faithful record of its run**, and an event only adds to it, above the frontier of
the scope it adds to. -/
theorem Traced.inv_step (hlaw : env.automerge.Lawful) {t : Trace} (h : Traced env t)
    (inv : t.Inv) (event : Event) : (t.step env event).Inv ∧
      ∃ added, (t.step env event).log = t.log ++ added ∧
        ∀ row ∈ added, t.world.db.currentScopeCursor row.key.scopeJson < row.cursor := by
  by_cases hprunes : event.Prunes
  · obtain ⟨hlog, inv'⟩ := h.inv_prunes hlaw inv hprunes
    exact ⟨inv', [], by rw [hlog, List.append_nil], by simp⟩
  · obtain ⟨added, happends⟩ :=
      (World.step_effects hlaw (h.reachable.sound hlaw) event).appends
        (World.brings_retention hprunes)
    obtain ⟨hlog, inv'⟩ := h.inv_appends hlaw inv happends
    exact ⟨inv', added, hlog, fun row hrow => happends.above (h.reachable.log hlaw)
      ((Traced.step event h).reachable.log hlaw) hrow⟩

theorem Traced.inv (hlaw : env.automerge.Lawful) {t : Trace} (h : Traced env t) : t.Inv := by
  induction h with
  | start => exact ⟨rfl, .refl [], fun scope => Or.inl rfl⟩
  | step event h ih => exact (h.inv_step hlaw ih event).1

section Traced

variable {t : Trace}

/-- The records of a run are in order, up to the frontier of their scope. -/
theorem Traced.sorted (hlaw : env.automerge.Lawful) (h : Traced env t) :
    t.log.Pairwise (·.cursor < ·.cursor) := by
  have hincreasing := (h.reachable.log hlaw).increasing
  rw [← (h.inv hlaw).history, List.pairwise_map] at hincreasing
  exact hincreasing

theorem Traced.le_frontier (hlaw : env.automerge.Lawful) (h : Traced env t) {row : ChangeRow}
    (hrow : row ∈ t.log) : row.cursor ≤ t.world.db.currentScopeCursor row.key.scopeJson :=
  ((h.reachable.log hlaw).history row.history
    ((h.inv hlaw).history ▸ List.mem_map_of_mem hrow)).2

/-- Above the boundary the log has every record there was. -/
theorem Traced.mem_changes (hlaw : env.automerge.Lawful) (h : Traced env t) {row : ChangeRow}
    (hrow : row ∈ t.log) (habove : t.world.db.prunedThrough row.key.scopeJson < row.cursor) :
    row ∈ t.world.db.changes := by
  have hhistory : row.history ∈ t.world.db.headHistory :=
    (h.inv hlaw).history ▸ List.mem_map_of_mem hrow
  obtain ⟨c, hc, heq⟩ := (h.reachable.log hlaw).kept _ hhistory habove
  have hnodup : (t.log.map (·.cursor)).Nodup :=
    List.pairwise_map.mpr ((h.sorted hlaw).imp fun hlt => hlt.ne)
  exact List.inj_on_of_nodup_map hnodup ((h.inv hlaw).kept.subset hc) hrow
    (congrArg HeadHistoryRow.cursor heq) ▸ hc

end Traced

/-- What a trace has over an earlier one. -/
structure Trace.Grows (t t' : Trace) : Prop where
  log : ∃ added, t'.log = t.log ++ added ∧
    ∀ row ∈ added, t.world.db.currentScopeCursor row.key.scopeJson < row.cursor
  frontier : ∀ scope, t.world.db.currentScopeCursor scope ≤ t'.world.db.currentScopeCursor scope
  gone : ∀ row ∈ t.log, row ∈ t'.world.db.changes → row ∈ t.world.db.changes
  spared : t.spared ⊆ t'.spared

theorem Traced.grows (hlaw : env.automerge.Lawful) {t : Trace} (h : Traced env t) (event : Event) :
    t.Grows (t.step env event) := by
  have hstep : Traced env (t.step env event) := .step event h
  obtain ⟨-, added, hlog, habove⟩ := h.inv_step hlaw (h.inv hlaw) event
  refine ⟨⟨added, hlog, habove⟩, fun scope => ?_, fun row hrow hmem => ?_,
    List.subset_append_left _ _⟩
  · rcases (h.reachable.log hlaw).attained scope with hzero | ⟨last, hlast, hscope, heq⟩
    · rw [hzero]
      exact Nat.zero_le _
    · rw [← (h.inv hlaw).history] at hlast
      obtain ⟨row, hrow, rfl⟩ := List.mem_map.mp hlast
      rw [← heq, ← hscope]
      exact hstep.le_frontier hlaw (hlog ▸ List.mem_append_left _ hrow)
  · by_contra hgone
    have hagain : row ∈ (t.step env event).world.db.changes.filter (· ∉ t.world.db.changes) :=
      List.mem_filter.mpr ⟨hmem, decide_eq_true hgone⟩
    exact lt_irrefl _ ((List.pairwise_append.mp (hstep.sorted hlaw)).2.2 row hrow row hagain)

theorem Trace.Grows.lacks {t t' : Trace} (h : t.Grows t') {scope : String} {cursor : ℕ}
    (hlacks : t.Lacks scope cursor) : t'.Lacks scope cursor := by
  obtain ⟨row, hrow, hscope, hcursor, hgone⟩ := hlacks
  obtain ⟨added, hlog, -⟩ := h.log
  exact ⟨row, hlog ▸ List.mem_append_left _ hrow, hscope, hcursor,
    hgone.imp (fun hgone hmem => hgone (h.gone row hrow hmem)) fun hspared => h.spared hspared⟩

/-- The boundary of a scope is the cursor of a record that was pruned or spared. -/
theorem Traced.lacks (hlaw : env.automerge.Lawful) {t : Trace} (h : Traced env t) {scope : String}
    {cursor : ℕ} (hbelow : cursor < t.world.db.prunedThrough scope) : t.Lacks scope cursor := by
  rcases (h.inv hlaw).boundary scope with hzero | ⟨row, hrow, hscope, heq, hgone⟩
  · omega
  · exact ⟨row, hrow, hscope, heq ▸ hbelow, hgone⟩

/-! ### Streams -/

/-- A subscription that is accepted in a run, and its stream, whose steps come in any order with the
events of the run. A read of the stream is an event of the run. -/
inductive Followed (env : Environment) : Trace → ChangeStream → Prop
  | accepted {t : Trace} {s : ChangeStream} {request : SubscribeRequest}
      {arrived now answered time : ℕ} (h : Traced env t)
      (htime : retainedAfter request.retentionSeconds now = .ok time)
      (haccepted : (subscribe request arrived now answered t.world.db).1 = .ok s) :
      Followed env (t.step env (.readChanges (request.probe time))) s
  | event {t : Trace} {s : ChangeStream} (event : Event) (h : Followed env t s) :
      Followed env (t.step env event) s
  | read {t : Trace} {s : ChangeStream} {now time : ℕ} (h : Followed env t s) (hreads : s.Reads)
      (htime : retainedAfter s.retentionSeconds now = .ok time) :
      Followed env (t.step env (.readChanges (s.query time))) (s.read now t.world.db).1
  | overflow {t : Trace} {s : ChangeStream} {now : ℕ} {error : BackendError}
      (h : Followed env t s) (hreads : s.Reads)
      (htime : retainedAfter s.retentionSeconds now = .error error) :
      Followed env t (s.read now t.world.db).1
  | yield {t : Trace} {s : ChangeStream} (h : Followed env t s) : Followed env t s.yieldNext
  | wake {t : Trace} {s : ChangeStream} (h : Followed env t s) :
      Followed env t (s.wake t.world.db)

theorem Followed.traced {t : Trace} {s : ChangeStream} (h : Followed env t s) : Traced env t := by
  induction h with
  | accepted h => exact .step _ h
  | event event _ ih => exact .step event ih
  | read _ _ _ ih => exact .step _ ih
  | overflow _ _ _ ih => exact ih
  | yield _ ih => exact ih
  | wake _ ih => exact ih

open Window

/-- The records a stream of the scope and the filter is to yield. -/
def ChangeStream.wanted (s : ChangeStream) (log : List ChangeRow) : List ChangeRow :=
  log.filter (s.Wants ·)

/-- What a stream has yielded, what is left of its page, and why it ended. -/
structure ChangeStream.Inv (s : ChangeStream) (t : Trace) : Prop where
  accepted : s.accepted ≤ s.cursor
  yielded : s.yielded =
    (window ChangeRow.cursor (s.wanted t.log) s.accepted s.cursor).map ChangeRow.stored
  page : ∃ next, s.cursor ≤ next ∧ next ≤ t.world.db.currentScopeCursor s.scope ∧
    s.pending = (window ChangeRow.cursor (s.wanted t.log) s.cursor next).map ChangeRow.stored
  ends : s.ended ≠ none → s.pending = []
  expired : ∀ error, s.ended = some error → error.reason = .cursorExpired →
    t.Lacks s.scope s.cursor

namespace ChangeStream.Inv

variable {t t' : Trace} {s : ChangeStream}

theorem le_frontier (inv : s.Inv t) : s.cursor ≤ t.world.db.currentScopeCursor s.scope := by
  obtain ⟨next, hcursor, hnext, -⟩ := inv.page
  exact hcursor.trans hnext

/-- Whatever happens leaves the windows of a stream alone. -/
theorem grows (inv : s.Inv t) (h : t.Grows t') : s.Inv t' := by
  obtain ⟨added, hlog, habove⟩ := h.log
  obtain ⟨next, hcursor, hnext, hpending⟩ := inv.page
  have hwanted : s.wanted t'.log = s.wanted t.log ++ s.wanted added := by
    rw [hlog]
    exact List.filter_append _ _
  have hsame : ∀ lo hi, hi ≤ t.world.db.currentScopeCursor s.scope →
      window ChangeRow.cursor (s.wanted t'.log) lo hi =
        window ChangeRow.cursor (s.wanted t.log) lo hi := by
    intro lo hi hhi
    rw [hwanted]
    refine window_grown fun row hrow => ?_
    obtain ⟨hmem, hwants⟩ := List.mem_filter.mp hrow
    have hscope : row.key.scopeJson = s.scope := (of_decide_eq_true hwants).1
    exact hhi.trans_lt (hscope ▸ habove row hmem)
  refine ⟨inv.accepted, ?_, ⟨next, hcursor, hnext.trans (h.frontier _), ?_⟩, inv.ends,
    fun error hended hreason => h.lacks (inv.expired error hended hreason)⟩
  · rw [hsame _ _ inv.le_frontier, inv.yielded]
  · rw [hsame _ _ hnext, hpending]

end ChangeStream.Inv

section Steps

variable {t : Trace} {s : ChangeStream}

theorem providerBackendError_ne_expired (error : ProviderError) :
    (providerBackendError error).reason ≠ .cursorExpired := by
  unfold providerBackendError
  split <;> exact fun h => by cases h

/-- What a page lists is what the run has recorded, if nothing above the cursor was pruned. -/
theorem Traced.page_window (hlaw : env.automerge.Lawful) (h : Traced env t)
    (hboundary : t.world.db.prunedThrough s.scope ≤ s.cursor) :
    (s.wanted t.world.db.changes).filter (s.cursor < ·.cursor) =
      window ChangeRow.cursor (s.wanted t.log) s.cursor (t.world.db.currentScopeCursor s.scope) := by
  have hkept := (h.inv hlaw).kept
  have hsorted : (s.wanted t.log).Pairwise (·.cursor < ·.cursor) := (h.sorted hlaw).filter _
  have hsub : (s.wanted t.world.db.changes).Sublist (s.wanted t.log) := hkept.filter _
  have hscope : ∀ row ∈ s.wanted t.log, row ∈ t.log ∧ row.key.scopeJson = s.scope :=
    fun row hrow => ⟨List.mem_of_mem_filter hrow,
      (of_decide_eq_true (List.mem_filter.mp hrow).2).1⟩
  rw [← window_sublist hsorted hsub]
  · refine List.filter_congr fun row hrow => ?_
    obtain ⟨hmem, hrowScope⟩ := hscope row (hsub.subset hrow)
    have hfrontier := h.le_frontier hlaw hmem
    rw [hrowScope] at hfrontier
    simp [hfrontier]
  · intro row hrow hlo _
    obtain ⟨hmem, hrowScope⟩ := hscope row hrow
    refine List.mem_filter.mpr ⟨h.mem_changes hlaw hmem ?_, (List.mem_filter.mp hrow).2⟩
    rw [hrowScope]
    exact hboundary.trans_lt hlo

/-- A page is a window of the records, and is empty only where there are no more. -/
theorem Traced.page_eq (hlaw : env.automerge.Lawful) (h : Traced env t)
    (hcursor : s.cursor ≤ t.world.db.currentScopeCursor s.scope)
    (hboundary : t.world.db.prunedThrough s.scope ≤ s.cursor) (time : ℕ) :
    ∃ next, s.cursor ≤ next ∧ next ≤ t.world.db.currentScopeCursor s.scope ∧
      (t.world.db.changePage (s.query time)).changes =
        (window ChangeRow.cursor (s.wanted t.log) s.cursor next).map ChangeRow.stored ∧
      ((t.world.db.changePage (s.query time)).changes = [] →
        window ChangeRow.cursor (s.wanted t.log) s.cursor
          (t.world.db.currentScopeCursor s.scope) = []) := by
  have hsorted : (s.wanted t.log).Pairwise (·.cursor < ·.cursor) := (h.sorted hlaw).filter _
  obtain ⟨next, hle, hnext, hfront, -⟩ :=
    window_split hsorted hcursor (List.take_append_drop 256 _).symm
  have hchanges : (t.world.db.changePage (s.query time)).changes =
      (window ChangeRow.cursor (s.wanted t.log) s.cursor next).map ChangeRow.stored := by
    rw [hfront, ← h.page_window hlaw hboundary]
    exact changePage_changes (h.reachable.log hlaw).sorted s time
  refine ⟨next, hle, hnext, hchanges, fun hempty => ?_⟩
  rw [hchanges, hfront, List.map_eq_nil_iff] at hempty
  exact (List.take_eq_nil_iff.mp hempty).resolve_left (by omega)

/-- A stream that is refused a page lacks a record above its cursor. -/
theorem ChangeStream.Inv.lacks (hlaw : env.automerge.Lawful) (inv : s.Inv t) (h : Traced env t)
    (hrefused : ¬ (s.cursor ≤ t.world.db.currentScopeCursor s.scope ∧
      t.world.db.prunedThrough s.scope ≤ s.cursor)) : t.Lacks s.scope s.cursor :=
  h.lacks hlaw (not_le.mp fun hboundary => hrefused ⟨inv.le_frontier, hboundary⟩)

/-- **A stream receives** the next window of the log, or ends. -/
theorem ChangeStream.Inv.receive (hlaw : env.automerge.Lawful) (inv : s.Inv t) (h : Traced env t)
    (hreads : s.Reads) {outcome : Except ProviderError ChangePage} {time : ℕ}
    (houtcome : (∃ error, outcome = .error error) ∨
      outcome = .ok (t.world.db.changePage (s.query time))) : (s.receive outcome).Inv t := by
  obtain ⟨hlive, hpending, -⟩ := hreads
  rcases houtcome with ⟨error, rfl⟩ | rfl
  · refine ⟨inv.accepted, inv.yielded, inv.page, fun _ => hpending, ?_⟩
    rintro _ hended hreason
    obtain rfl := Option.some.inj hended
    exact absurd hreason (providerBackendError_ne_expired error)
  · have hlacks := inv.lacks hlaw h
    rw [ChangeStream.receive_page]
    split
    · rename_i hin
      obtain ⟨next, hle, hnext, hchanges, hempty⟩ := h.page_eq hlaw hin.1 hin.2 time
      split
      · rename_i hnone
        have hsorted : (s.wanted t.log).Pairwise (·.cursor < ·.cursor) :=
          (h.sorted hlaw).filter _
        refine ⟨inv.accepted.trans hin.1, ?_, ⟨_, le_rfl, le_rfl, ?_⟩,
          fun hended => absurd hlive hended, fun error hended => by simp [hlive] at hended⟩
        · show s.yielded = _
          rw [inv.yielded]
          have hmeet := window_append hsorted inv.accepted hin.1
          rw [hempty hnone, List.append_nil] at hmeet
          exact congrArg (List.map ChangeRow.stored) hmeet
        · show s.pending = _
          rw [hpending, window_self]
          rfl
      · exact ⟨inv.accepted, inv.yielded, ⟨next, hle, hnext, hchanges⟩,
          fun hended => absurd hlive hended, fun error hended => by simp [hlive] at hended⟩
    · rename_i hrefused
      exact ⟨inv.accepted, inv.yielded, inv.page, fun _ => hpending,
        fun _ _ _ => hlacks hrefused⟩

/-- **A stream yields** the first record of its window. -/
theorem ChangeStream.Inv.yieldNext (hlaw : env.automerge.Lawful) (inv : s.Inv t)
    (h : Traced env t) : s.yieldNext.Inv t := by
  have hsorted : (s.wanted t.log).Pairwise (·.cursor < ·.cursor) := (h.sorted hlaw).filter _
  obtain ⟨next, hle, hnext, hpage⟩ := inv.page
  unfold ChangeStream.yieldNext
  split
  · exact inv
  · rename_i change rest hpending
    rw [hpending] at hpage
    obtain ⟨row, rows, hwindow, rfl, rfl⟩ := List.map_eq_cons_iff.mp hpage.symm
    obtain ⟨hlo, hhi, hfirst, hrest⟩ := window_cons hsorted hwindow
    have hlive : s.ended = none := by
      by_contra hended
      rw [inv.ends hended] at hpending
      cases hpending
    refine ⟨inv.accepted.trans hlo.le, ?_, ⟨next, hhi, hnext, ?_⟩,
      fun hended => absurd hlive hended, fun error hended => by simp [hlive] at hended⟩
    · show s.yielded ++ [row.stored] =
        (window ChangeRow.cursor (s.wanted t.log) s.accepted row.cursor).map ChangeRow.stored
      rw [← window_append hsorted inv.accepted hlo.le, hfirst, List.map_append, ← inv.yielded]
      rfl
    · exact congrArg (List.map ChangeRow.stored) hrest.symm

theorem ChangeStream.Inv.wake (inv : s.Inv t) : (s.wake t.world.db).Inv t := by
  unfold ChangeStream.wake
  split
  · exact ⟨inv.accepted, inv.yielded, inv.page, inv.ends, inv.expired⟩
  · exact inv

end Steps

section Subscribing

variable {db : Db} {request : SubscribeRequest} {arrived now answered time : ℕ}

/-- The page of a query is a page of the database it leaves. -/
theorem readChanges_outcome (db : Db) (query : ChangeQuery) :
    (∃ error, query.retainedAfterUnixMs ≥ 2 ^ 63 ∧ (readChanges db query).outcome = .error error) ∨
      (readChanges db query).outcome = .ok ((readChanges db query).db.changePage query) := by
  unfold readChanges bindUnsigned
  by_cases hbound : query.retainedAfterUnixMs < 2 ^ 63
  · rw [if_pos hbound]
    exact Or.inr rfl
  · rw [if_neg hbound]
    exact Or.inl ⟨_, not_lt.mp hbound, rfl⟩

theorem retainedAfter_ne_expired {seconds : ℕ} {error : BackendError}
    (h : retainedAfter seconds now = .error error) : error.reason ≠ .cursorExpired := by
  unfold retainedAfter at h
  split at h <;> cases h
  exact fun h => by cases h

theorem checkDeadline_ne_expired {deadline : Option ℕ} {error : BackendError}
    (h : checkDeadline deadline now = .error error) : error.reason ≠ .cursorExpired := by
  unfold checkDeadline at h
  split at h <;> cases h
  exact fun h => by cases h

theorem subscribe_eq (htime : retainedAfter request.retentionSeconds now = .ok time) :
    (subscribe request arrived now answered db).1 =
      match checkDeadline request.deadlineUnixMs arrived with
      | .error error => .error error
      | .ok () => request.probed answered (readChanges db (request.probe time)).outcome := by
  unfold subscribe
  rw [htime]
  cases checkDeadline request.deadlineUnixMs arrived <;> rfl

/-- **A subscription is accepted** at the cursor it asks for, or at the frontier, and is refused for
its cursor only where that is outside of the retained log. -/
theorem subscribe_spec (htime : retainedAfter request.retentionSeconds now = .ok time) {left : Db}
    (hleft : (readChanges db (request.probe time)).db = left) {cursor : ℕ}
    (hcursor : request.afterCursor.getD (left.currentScopeCursor request.scope) = cursor) :
    (∀ s, (subscribe request arrived now answered db).1 = .ok s →
      (cursor ≤ left.currentScopeCursor request.scope ∧
        left.prunedThrough request.scope ≤ cursor) ∧
      s = { scope := request.scope, filter := request.filter
            retentionSeconds := request.retentionSeconds, accepted := cursor, cursor, pending := []
            yielded := [], waiting := false, ended := none }) ∧
    ∀ error, (subscribe request arrived now answered db).1 = .error error →
      error.reason = .cursorExpired →
      ¬ (cursor ≤ left.currentScopeCursor request.scope ∧
        left.prunedThrough request.scope ≤ cursor) := by
  rw [subscribe_eq htime]
  cases harrived : checkDeadline request.deadlineUnixMs arrived with
  | error error =>
    refine ⟨fun s h => (by cases h), fun error' h hreason => absurd hreason ?_⟩
    obtain rfl := Except.error.inj h
    exact checkDeadline_ne_expired harrived
  | ok =>
    dsimp only
    rcases readChanges_outcome db (request.probe time) with ⟨error, -, houtcome⟩ | houtcome
    · rw [houtcome]
      refine ⟨fun s h => (by cases h), fun error' h hreason => absurd hreason ?_⟩
      obtain rfl := Except.error.inj h
      exact providerBackendError_ne_expired error
    · rw [houtcome, hleft]
      have hprobed : request.probed answered (.ok (left.changePage (request.probe time))) =
          (checkDeadline request.deadlineUnixMs answered).bind fun _ =>
            (validateChangeCursor cursor (left.changePage (request.probe time))).map fun _ =>
              { scope := request.scope, filter := request.filter
                retentionSeconds := request.retentionSeconds, accepted := cursor, cursor
                pending := [], yielded := [], waiting := false, ended := none } := by
        rw [← hcursor]
        rfl
      rw [hprobed, validateChangeCursor_changePage]
      cases hanswered : checkDeadline request.deadlineUnixMs answered with
      | error error =>
        refine ⟨fun s h => (by cases h), fun error' h hreason => absurd hreason ?_⟩
        obtain rfl := Except.error.inj h
        exact checkDeadline_ne_expired hanswered
      | ok =>
        rw [show (request.probe time).scopeJson = request.scope from rfl]
        split
        · rename_i hin
          exact ⟨fun s h => ⟨hin, (Except.ok.inj h).symm⟩, fun error h => by cases h⟩
        · rename_i hout
          exact ⟨fun s h => (by cases h), fun _ _ _ => hout⟩

end Subscribing

/-! ### Subscriptions of a run -/

/-- **What a stream has yielded**, in every run and however its steps fall between the events. -/
theorem Followed.inv (hlaw : env.automerge.Lawful) {t : Trace} {s : ChangeStream}
    (h : Followed env t s) : s.Inv t := by
  induction h with
  | @accepted t s request arrived now answered time h htime haccepted =>
    have hstep : Traced env (t.step env (.readChanges (request.probe time))) := .step _ h
    obtain ⟨⟨hfrontier, -⟩, rfl⟩ := (subscribe_spec htime rfl rfl).1 s haccepted
    refine ⟨le_rfl, ?_, ⟨_, le_rfl, hfrontier, ?_⟩, fun _ => rfl, fun error hended => ?_⟩
    · rw [window_self]
      rfl
    · rw [window_self]
      rfl
    · cases hended
  | event event h ih => exact ih.grows (h.traced.grows hlaw event)
  | @read t s now time h hreads htime ih =>
    have hstep : Traced env (t.step env (.readChanges (s.query time))) := .step _ h.traced
    have hread : (s.read now t.world.db).1 =
        s.receive (readChanges t.world.db (s.query time)).outcome := by
      unfold ChangeStream.read
      rw [htime]
    rw [hread]
    exact (ih.grows (h.traced.grows hlaw _)).receive hlaw hstep hreads
      ((readChanges_outcome _ _).imp_left fun hex => hex.imp fun _ => And.right)
  | @overflow t s now error h hreads htime ih =>
    have hread : (s.read now t.world.db).1 = { s with ended := some error } := by
      unfold ChangeStream.read
      rw [htime]
    rw [hread]
    refine ⟨ih.accepted, ih.yielded, ih.page, fun _ => hreads.2.1, ?_⟩
    rintro _ hended hreason
    obtain rfl := Option.some.inj hended
    exact absurd hreason (retainedAfter_ne_expired htime)
  | yield h ih => exact ih.yieldNext hlaw h.traced
  | wake _ ih => exact ih.wake

section Expiry

variable {t : Trace} {s : ChangeStream}

/-- A stream that is through with its page goes on as soon as there is a record above it. -/
theorem Followed.wakes (hlaw : env.automerge.Lawful) (h : Followed env t s)
    (hlive : s.ended = none) (hpending : s.pending = []) {row : ChangeRow} (hrow : row ∈ t.log)
    (hscope : row.key.scopeJson = s.scope) (habove : s.cursor < row.cursor) :
    (s.wake t.world.db).Reads := by
  have hfrontier := habove.trans_le (h.traced.le_frontier hlaw hrow)
  rw [hscope] at hfrontier
  unfold ChangeStream.wake
  rw [if_pos hfrontier]
  exact ⟨hlive, hpending, rfl⟩

/-- A read of a stream that lacks a record ends the stream. -/
theorem Followed.expires (hlaw : env.automerge.Lawful) (h : Followed env t s) {now time : ℕ}
    (htime : retainedAfter s.retentionSeconds now = .ok time) (hbound : time < 2 ^ 63)
    {row : ChangeRow} (hrow : row ∈ t.log) (hscope : row.key.scopeJson = s.scope)
    (habove : s.cursor < row.cursor)
    (hpruned : row ∉ (t.step env (.readChanges (s.query time))).world.db.changes) :
    (s.read now t.world.db).1.ended = some cursorExpired := by
  have hstep : Traced env (t.step env (.readChanges (s.query time))) := .step _ h.traced
  obtain ⟨added, hlog, -⟩ := (h.traced.grows hlaw (.readChanges (s.query time))).log
  have hread : (s.read now t.world.db).1 =
      s.receive (readChanges t.world.db (s.query time)).outcome := by
    unfold ChangeStream.read
    rw [htime]
  have houtcome : (readChanges t.world.db (s.query time)).outcome =
      .ok ((readChanges t.world.db (s.query time)).db.changePage (s.query time)) := by
    refine (readChanges_outcome _ _).resolve_left ?_
    rintro ⟨_, hover, -⟩
    exact absurd hbound (not_lt.mpr hover)
  rw [hread, houtcome, ChangeStream.receive_page, if_neg]
  rintro ⟨-, hboundary⟩
  refine hpruned (hstep.mem_changes hlaw (hlog ▸ List.mem_append_left _ hrow) ?_)
  rw [hscope]
  exact hboundary.trans_lt habove

/-- A subscription is refused for its cursor only where it is past the frontier, or lacks a
record. -/
theorem Traced.refuses (hlaw : env.automerge.Lawful) (h : Traced env t) {request : SubscribeRequest}
    {arrived now answered : ℕ} {error : BackendError}
    (hrefused : (subscribe request arrived now answered t.world.db).1 = .error error)
    (hreason : error.reason = .cursorExpired) :
    ∃ time c, retainedAfter request.retentionSeconds now = .ok time ∧
      request.afterCursor = some c ∧
      ((t.step env (.readChanges (request.probe time))).world.db.currentScopeCursor
          request.scope < c ∨
        (t.step env (.readChanges (request.probe time))).Lacks request.scope c) := by
  cases htime : retainedAfter request.retentionSeconds now with
  | error error' =>
    unfold subscribe at hrefused
    rw [htime] at hrefused
    cases harrived : checkDeadline request.deadlineUnixMs arrived with
    | error late =>
      rw [harrived] at hrefused
      obtain rfl := Except.error.inj hrefused
      exact absurd hreason (checkDeadline_ne_expired harrived)
    | ok =>
      rw [harrived] at hrefused
      obtain rfl := Except.error.inj hrefused
      exact absurd hreason (retainedAfter_ne_expired htime)
  | ok time =>
    have hstep : Traced env (t.step env (.readChanges (request.probe time))) := .step _ h
    have hout := (subscribe_spec htime rfl rfl).2 error hrefused hreason
    cases hafter : request.afterCursor with
    | none =>
      rw [hafter] at hout
      exact absurd ⟨le_rfl, (hstep.reachable.log hlaw).pruned _⟩ hout
    | some c =>
      rw [hafter] at hout
      refine ⟨time, c, rfl, rfl, ?_⟩
      rcases not_and_or.mp hout with hpast | hbelow
      · exact Or.inl (not_le.mp hpast)
      · exact Or.inr (hstep.lacks hlaw (not_le.mp hbelow))

end Expiry

/-- **Subscriptions have no gaps and expire only for cause.** -/
theorem subscription_has_no_gaps (hlaw : env.automerge.Lawful) :
    (∀ t s, Followed env t s →
      (t.log.map (·.history) = t.world.db.headHistory ∧
        t.log.Pairwise (·.cursor < ·.cursor)) ∧
      s.yielded = (t.log.filter fun row =>
        s.Wants row ∧ s.accepted < row.cursor ∧ row.cursor ≤ s.cursor).map ChangeRow.stored ∧
      (∀ row ∈ t.log, row.key.scopeJson = s.scope → s.cursor < row.cursor →
        (s.ended = none → s.pending = [] → (s.wake t.world.db).Reads) ∧
        ∀ now time, s.Reads → retainedAfter s.retentionSeconds now = .ok time → time < 2 ^ 63 →
          row ∉ (t.step env (.readChanges (s.query time))).world.db.changes →
          (s.read now t.world.db).1.ended = some cursorExpired) ∧
      ∀ error, s.ended = some error → error.reason = .cursorExpired →
        t.Lacks s.scope s.cursor) ∧
    ∀ t request arrived now answered error, Traced env t →
      (subscribe request arrived now answered t.world.db).1 = .error error →
      error.reason = .cursorExpired →
      ∃ time c, retainedAfter request.retentionSeconds now = .ok time ∧
        request.afterCursor = some c ∧
        ((t.step env (.readChanges (request.probe time))).world.db.currentScopeCursor
            request.scope < c ∨
          (t.step env (.readChanges (request.probe time))).Lacks request.scope c) := by
  refine ⟨fun t s h => ?_, fun t request arrived now answered error h => h.refuses hlaw⟩
  have inv := h.inv hlaw
  refine ⟨⟨(h.traced.inv hlaw).history, h.traced.sorted hlaw⟩, ?_, fun row hrow hscope habove =>
    ⟨fun hlive hpending => h.wakes hlaw hlive hpending hrow hscope habove,
      fun now time _ htime hbound => h.expires hlaw htime hbound hrow hscope habove⟩, inv.expired⟩
  rw [inv.yielded]
  refine congrArg (List.map ChangeRow.stored) ?_
  rw [window, ChangeStream.wanted, List.filter_filter]
  refine List.filter_congr fun row _ => ?_
  rw [← Bool.decide_and, decide_eq_decide]
  tauto

/-! ### A note that is followed -/

/-- The trace of some events. -/
def Trace.after (env : Environment) (events : List Event) : Trace :=
  events.foldl (fun t event => t.step env event) Trace.start

theorem Trace.after_traced (env : Environment) (events : List Event) :
    Traced env (Trace.after env events) := by
  induction events using List.reverseRecOn with
  | nil => exact .start
  | append_singleton events event ih =>
    have hlast : Trace.after env (events ++ [event]) = (Trace.after env events).step env event := by
      simp only [Trace.after, List.foldl_append, List.foldl_cons, List.foldl_nil]
    rw [hlast]
    exact .step event ih

/-- The note "n" is created, and then some events happen. -/
def noteTrace (events : List Event) : Trace :=
  Trace.after noteEnvironment ([.arrive (createNote .null none false) (readingsAt 5),
    .advance 0 (clockAt 5), .advance 0 (clockAt 5)] ++ events)

/-- Everything in the scope is followed, from the start. -/
def followNotes : SubscribeRequest where
  scope := "scope"
  filter := ⟨none, none⟩
  afterCursor := some 0
  deadlineUnixMs := none
  retentionSeconds := 1

/-- The stream of `followNotes`. -/
def noteStream : ChangeStream where
  scope := "scope"
  filter := ⟨none, none⟩
  retentionSeconds := 1
  accepted := 0
  cursor := 0
  pending := []
  yielded := []
  waiting := false
  ended := none

theorem noteStream_accepted :
    (subscribe followNotes 10 10 10 (noteTrace []).world.db).1 = .ok noteStream := rfl

/-- The note is followed, and its page was read. -/
def followedNote : Trace := noteTrace [.readChanges (followNotes.probe 0),
  .readChanges (noteStream.query 0)]

def notePage : ChangeStream :=
  (noteStream.read 10 (noteTrace [.readChanges (followNotes.probe 0)]).world.db).1

theorem notePage_followed : Followed noteEnvironment followedNote notePage := by
  have htime : retainedAfter 1 10 = .ok 0 := rfl
  have htraced : Traced noteEnvironment (noteTrace []) := Trace.after_traced _ _
  have hstream : Followed noteEnvironment (noteTrace [.readChanges (followNotes.probe 0)])
      noteStream :=
    .accepted htraced htime noteStream_accepted
  exact .read hstream ⟨rfl, rfl, rfl⟩ htime

theorem created_note_is_yielded : notePage.yieldNext.yielded.map (·.entityId) = ["n"] ∧
    notePage.yieldNext.yielded = (followedNote.log.filter fun row =>
      notePage.yieldNext.Wants row ∧ notePage.yieldNext.accepted < row.cursor ∧
        row.cursor ≤ notePage.yieldNext.cursor).map ChangeRow.stored :=
  ⟨rfl, ((subscription_has_no_gaps noAutomerge_lawful).1 _ _ (.yield notePage_followed)).2.1⟩

/-- Everybody who prunes at this time finds the note out of retention. -/
def pruneNotes : ChangeQuery := { noteStream.query 100 with limit := 1 }

/-- **The boundary of the log** is what a subscription expires by. Where a crash has left it without
a prune, a subscription is refused although the log has every record there was. And a page that was
read is yielded to its end, whatever is pruned meanwhile. -/
theorem expiry_is_by_boundary_and_page :
    (∃ time c error, retainedAfter followNotes.retentionSeconds 10 = .ok time ∧
      followNotes.afterCursor = some c ∧
      (subscribe followNotes 10 10 10 (noteTrace [.crashInPrune pruneNotes]).world.db).1 =
        .error error ∧ error.reason = .cursorExpired ∧
      c ≤ (noteTrace [.crashInPrune pruneNotes]).world.db.currentScopeCursor
        followNotes.scope ∧
      ∀ row ∈ (noteTrace [.crashInPrune pruneNotes, .readChanges (followNotes.probe time)]).log,
        row ∈ (noteTrace [.crashInPrune pruneNotes,
          .readChanges (followNotes.probe time)]).world.db.changes) ∧
    ∃ t s, Followed noteEnvironment t s ∧
      ∃ row ∈ t.log, s.Wants row ∧ s.cursor < row.cursor ∧ row ∉ t.world.db.changes ∧
        s.yieldNext.ended = none ∧ s.yieldNext.yielded = s.yielded ++ [row.stored] := by
  have hrefused : (subscribe followNotes 10 10 10
      (noteTrace [.crashInPrune pruneNotes]).world.db).1 = .error cursorExpired := rfl
  have hkept : ∀ row ∈
      (noteTrace [.crashInPrune pruneNotes, .readChanges (followNotes.probe 0)]).log,
      row ∈ (noteTrace [.crashInPrune pruneNotes,
        .readChanges (followNotes.probe 0)]).world.db.changes := by decide +kernel
  have htime : retainedAfter 1 10 = .ok 0 := rfl
  refine ⟨⟨0, 0, cursorExpired, htime, rfl, hrefused, rfl, Nat.zero_le _, hkept⟩, ?_⟩
  refine ⟨followedNote.step noteEnvironment (.readChanges pruneNotes), notePage,
    .event (.readChanges pruneNotes) notePage_followed, ?_⟩
  decide +kernel

end Patchouli
