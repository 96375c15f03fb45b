import Mathlib.Order.Bounds.Basic
import Patchouli.Sqlite.Log
import Patchouli.World.Effects

/-!
# The published store

The invariant of the tables and the invariant of the log hold in every reachable world. Together
they are the representation invariant of what is published: the heads of an entity are published
versions and the newest of its history, the history is increasing, the frontier of a scope is the
largest cursor it ever issued, and a published version stays what it is.

That a cursor was issued is a statement about the past. A change record may be pruned, but in the
world that issued it it was there.

## Main definitions

* `Issued` — a change record of this world or an earlier one had the cursor
* `EverPublished` — the entity had a published version

## Main results

* `Reachable.log` — the invariant of the log
* `Reachable.issued_iff` — the history has a row for every cursor that was ever issued
* `published_store_invariant`
-/

namespace Patchouli

open Db Relation

variable {env : Environment} {w w' : World}

/-! ### Events and the log -/

/-- An event adds to the log, or prunes it. -/
theorem World.step_log (hlaw : env.automerge.Lawful) (hsound : w.Sound env) (event : Event) :
    (∃ added, Appends w.db (w.step env event).db added) ∨ SameHistory w.db (w.step env event).db := by
  have heffects := World.step_effects hlaw hsound event
  cases event with
  | readChanges query =>
    exact Or.inr (Upkeeps.sameHistory (K := w.brings env (.readChanges query))
      (readChanges_upkeeps w.db query rfl))
  | crashInPrune query =>
    exact Or.inr (Upkeeps.sameHistory (K := w.brings env (.crashInPrune query))
      (World.notePrune_upkeeps w.db query rfl))
  | arrive => exact Or.inl (heffects.appends fun _ => id)
  | advance => exact Or.inl (heffects.appends fun _ => id)
  | read => exact Or.inl (heffects.appends fun _ => id)
  | retrieve => exact Or.inl (heffects.appends fun _ => id)
  | sweep => exact Or.inl (heffects.appends fun _ => id)

/-- **The log of a reachable world.** -/
theorem Reachable.log (hlaw : env.automerge.Lawful) (h : Reachable env w) : LogInv w.db := by
  induction h with
  | start => exact LogInv.empty
  | step event hbefore _ ih =>
    exact (World.step_effects hlaw (Reachable.sound hlaw hbefore) event).keepsLog ih

theorem Reachable.versionsLogged (hlaw : env.automerge.Lawful) (h : Reachable env w) :
    VersionsLogged w.db := by
  induction h with
  | start => simp [VersionsLogged, World.start, Db.empty]
  | step event hbefore _ ih =>
    have hsound := Reachable.sound hlaw hbefore
    exact (World.step_effects hlaw hsound event).versionsLogged hlaw hsound.inv ih

/-- The history only grows. -/
theorem Runs.headHistory (hlaw : env.automerge.Lawful) (h : Runs env w w')
    (hreach : Reachable env w) : w.db.headHistory <+: w'.db.headHistory := by
  induction h with
  | refl => exact List.prefix_refl _
  | tail hbefore hstep ih =>
    obtain ⟨event, rfl⟩ := hstep
    have hsound := (Runs.reachable hbefore hreach).sound hlaw
    rcases World.step_log hlaw hsound event with ⟨added, hadded⟩ | hsame
    · rw [hadded.headHistory_eq]
      exact ih.trans (List.prefix_append _ _)
    · rw [hsame.headHistory]
      exact ih

/-! ### What was issued and published -/

/-- A cursor that was issued in a scope: a change record had it, in this world or an earlier
one. -/
def Issued (env : Environment) (w : World) (scope : String) (cursor : ℕ) : Prop :=
  ∃ w₀, Reachable env w₀ ∧ Runs env w₀ w ∧
    ∃ c ∈ w₀.db.changes, c.key.scopeJson = scope ∧ c.cursor = cursor

/-- An entity that had a published version, in this world or an earlier one. -/
def EverPublished (env : Environment) (w : World) (key : EntityKey) : Prop :=
  ∃ w₀, Reachable env w₀ ∧ Runs env w₀ w ∧ ∃ version, w₀.db.IsPublished key version

/-- A row of the history was a change record when it was made. -/
theorem Reachable.history_recorded (hlaw : env.automerge.Lawful) (h : Reachable env w)
    {row : HeadHistoryRow} (hrow : row ∈ w.db.headHistory) :
    ∃ w₀, Reachable env w₀ ∧ Runs env w₀ w ∧ ∃ c ∈ w₀.db.changes, c.history = row := by
  induction h with
  | start => simp [World.start, Db.empty] at hrow
  | @step w event hbefore _ ih =>
    have hstep : Runs env w (w.step env event) := .single ⟨event, rfl⟩
    have hold : row ∈ w.db.headHistory →
        ∃ w₀, Reachable env w₀ ∧ Runs env w₀ (w.step env event) ∧
          ∃ c ∈ w₀.db.changes, c.history = row := by
      intro hmem
      obtain ⟨w₀, hreach, hruns, hc⟩ := ih hmem
      exact ⟨w₀, hreach, hruns.trans hstep, hc⟩
    rcases World.step_log hlaw (Reachable.sound hlaw hbefore) event with ⟨added, hadded⟩ | hsame
    · rw [hadded.headHistory_eq] at hrow
      rcases List.mem_append.mp hrow with hmem | hmem
      · exact hold hmem
      · obtain ⟨c, hc, rfl⟩ := List.mem_map.mp hmem
        refine ⟨_, .step event hbefore trivial, .refl, c, ?_, rfl⟩
        rw [hadded.changes_eq]
        exact List.mem_append_right _ hc
    · rw [hsame.headHistory] at hrow
      exact hold hrow

/-- **The history has a row for every cursor that was issued.** -/
theorem Reachable.issued_iff (hlaw : env.automerge.Lawful) (h : Reachable env w) {scope : String}
    {cursor : ℕ} : Issued env w scope cursor ↔
      ∃ row ∈ w.db.headHistory, row.key.scopeJson = scope ∧ row.cursor = cursor := by
  constructor
  · rintro ⟨w₀, hreach, hruns, c, hc, hscope, hcursor⟩
    have hrow := (hreach.log hlaw).recorded c hc
    exact ⟨c.history, (hruns.headHistory hlaw hreach).subset hrow, hscope, hcursor⟩
  · rintro ⟨row, hrow, hscope, hcursor⟩
    obtain ⟨w₀, hreach, hruns, c, hc, rfl⟩ := h.history_recorded hlaw hrow
    exact ⟨w₀, hreach, hruns, c, hc, hscope, hcursor⟩

/-- The frontier of a scope is the largest cursor it issued. -/
theorem Reachable.frontier_greatest (hlaw : env.automerge.Lawful) (h : Reachable env w)
    (scope : String) :
    (w.db.currentScopeCursor scope = 0 ∧ ∀ cursor, ¬ Issued env w scope cursor) ∨
      IsGreatest {cursor | Issued env w scope cursor} (w.db.currentScopeCursor scope) := by
  have hlog := h.log hlaw
  have hupper : ∀ cursor, Issued env w scope cursor →
      0 < cursor ∧ cursor ≤ w.db.currentScopeCursor scope := by
    intro cursor hissued
    obtain ⟨row, hrow, rfl, rfl⟩ := (h.issued_iff hlaw).mp hissued
    exact hlog.history row hrow
  rcases hlog.attained scope with hzero | ⟨row, hrow, hscope, hcursor⟩
  · refine Or.inl ⟨hzero, fun cursor hissued => ?_⟩
    have := hupper cursor hissued
    omega
  · exact Or.inr ⟨(h.issued_iff hlaw).mpr ⟨row, hrow, hscope, hcursor⟩,
      fun cursor hissued => (hupper cursor hissued).2⟩

/-! ### Heads and the history -/

theorem publishedHeads_nodup {A : Automerge} {db : Db} (inv : Inv A db) (key : EntityKey) :
    (db.publishedHeads key).Nodup := by
  refine Table.sorted_nodup (List.Nodup.map_on ?_ (inv.published.headKeys.filter _))
  intro h hh h' hh' hversion
  simp only [List.mem_filter, decide_eq_true_eq] at hh hh'
  cases h
  cases h'
  simp only [EntityHeadRow.mk.injEq] at hh hh' hversion ⊢
  exact ⟨hh.2.trans hh'.2.symm, hversion⟩

theorem newest_isSome {rows : List HeadHistoryRow} (h : rows ≠ []) :
    ∃ row, newest rows = some row := by
  induction rows using List.reverseRecOn with
  | nil => exact absurd rfl h
  | append_singleton rows last ih =>
    rw [newest_append]
    split
    · split
      · exact ⟨_, rfl⟩
      · exact ⟨_, rfl⟩
    · exact ⟨_, rfl⟩

/-- The heads of an entity are those of its newest row. -/
theorem newest_publishedHeads {A : Automerge} {db : Db} (inv : Inv A db) (hlog : LogInv db)
    {key : EntityKey} (h : ∃ row ∈ db.headHistory, row.key = key) :
    ∃ row, newest (db.headHistory.filter (·.key = key)) = some row ∧ row ∈ db.headHistory ∧
      ∀ version, version ∈ row.headVersionsJson ↔ version ∈ db.publishedHeads key := by
  obtain ⟨some, hsome, hkey⟩ := h
  have hne : db.headHistory.filter (·.key = key) ≠ [] :=
    List.ne_nil_of_mem (List.mem_filter.mpr ⟨hsome, decide_eq_true hkey⟩)
  obtain ⟨row, hrow⟩ := newest_isSome hne
  refine ⟨row, hrow, (List.mem_filter.mp (newest_mem hrow)).1, fun version => ?_⟩
  have hall : db.headHistory.filter (fun r => r.key = key ∧ r.cursor ≤ db.lastCursor) =
      db.headHistory.filter (·.key = key) := by
    refine List.filter_congr fun r hr => decide_eq_decide.mpr (and_iff_left ?_)
    exact (hlog.history r hr).2.trans (hlog.frontier _)
  rw [mem_publishedHeads, inv.published.newest, headsAt, hall, hrow]

theorem EverPublished.logged (hlaw : env.automerge.Lawful) {key : EntityKey}
    (h : EverPublished env w key) : ∃ row ∈ w.db.headHistory, row.key = key := by
  obtain ⟨w₀, hreach, hruns, version, r, hr, rfl, -, hnone⟩ := h
  obtain ⟨row, hrow, hkey⟩ := hreach.versionsLogged hlaw r hr hnone
  exact ⟨row, (hruns.headHistory hlaw hreach).subset hrow, hkey⟩

/-- **The representation invariant of the published store.** -/
theorem published_store_invariant (hlaw : env.automerge.Lawful) (hreach : Reachable env w) :
    (∀ key, EverPublished env w key →
      w.db.publishedHeads key ≠ [] ∧ (w.db.publishedHeads key).Nodup ∧
      (∀ version ∈ w.db.publishedHeads key, w.db.IsPublished key version) ∧
      ∃ row, newest (w.db.headHistory.filter (·.key = key)) = some row ∧
        ∀ version, version ∈ row.headVersionsJson ↔ version ∈ w.db.publishedHeads key) ∧
    w.db.headHistory.Pairwise (·.cursor < ·.cursor) ∧
    (∀ scope,
      (w.db.currentScopeCursor scope = 0 ∧ ∀ cursor, ¬ Issued env w scope cursor) ∨
        IsGreatest {cursor | Issued env w scope cursor} (w.db.currentScopeCursor scope)) ∧
    ∀ w', Runs env w w' → ∀ r ∈ w.db.versions, r.workUnitJson = none →
      (∀ r', r' ∈ w'.db.versions ∧ r'.key = r.key ∧ r'.version = r.version ↔ r' = r) ∧
      w'.db.readCrdtFields r.key r.version = w.db.readCrdtFields r.key r.version := by
  have hinv := (hreach.sound hlaw).inv
  have hlog := hreach.log hlaw
  refine ⟨fun key hkey => ?_, hlog.increasing, hreach.frontier_greatest hlaw,
    fun w' hruns r hr hnone => ⟨fun r' => ?_, ?_⟩⟩
  · obtain ⟨row, hnewest, hrow, hheads⟩ :=
      newest_publishedHeads hinv hlog (hkey.logged hlaw)
    refine ⟨?_, publishedHeads_nodup hinv key, fun version hversion => ?_, row, hnewest, hheads⟩
    · obtain ⟨version, hversion⟩ := List.exists_mem_of_ne_nil _ (hlog.heads row hrow).2
      exact List.ne_nil_of_mem ((hheads version).mp hversion)
    · exact hinv.published.isPublished (mem_publishedHeads.mp hversion)
  · have hkept := (hruns.extends hlaw hreach).published r hr hnone
    have hkeys := ((hruns.reachable hreach).sound hlaw).inv.staging.versionKeys
    constructor
    · rintro ⟨hr', hkey, hversion⟩
      exact hkeys.eq hr' hkept hkey hversion
    · rintro rfl
      exact ⟨hkept, rfl, rfl⟩
  · exact (hruns.extends hlaw hreach).fields r hr hnone

/-- One note, published once: the head is the one the history has. -/
theorem one_note_is_one_head :
    ∃ row, newest (onlyNote.db.headHistory.filter (·.key = noteKey)) = some row ∧
      ∀ version, version ∈ row.headVersionsJson ↔ version ∈ onlyNote.db.publishedHeads noteKey := by
  have hreach : Reachable noteEnvironment onlyNote := World.after_reachable noteEnvironment _
  have hlaw : noteEnvironment.automerge.Lawful := noAutomerge_lawful
  refine ((published_store_invariant hlaw hreach).1 noteKey
    ⟨_, hreach, .refl, drawnName 0 (.version 0), ?_⟩).2.2.2
  exact ⟨⟨noteKey, drawnName 0 (.version 0), .active, some .null, none, some 1, 5⟩, by decide,
    rfl, rfl, rfl⟩

end Patchouli
