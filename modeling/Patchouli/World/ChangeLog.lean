import Patchouli.Sqlite.Batch
import Patchouli.World.Informed
import Patchouli.World.Moves

/-!
# The change log

Every publication is in the change log: one change for each entity it publishes, with the heads the
entity has from then on. The kind of a change is one function of the heads before and after,
although it is computed in two places: the engine classifies an immediate commit by the snapshot it
prepared it from, the provider a batch by the heads it finds.

The engine decides on an older state than the one its commit is accepted in. That does not matter:
the commit is accepted only where the published heads are the ones it was prepared from.

## Main definitions

* `Event.Prunes` — the events that prune the log
* `ClosesUnit` — the step of a mutation that closes a unit

## Main results

* `prepare_kind` — the classifier of the engine
* `change_log_faithful`
-/

namespace Patchouli

open Db Relation

/-! ### The classifier of the engine -/

section Engine

variable {A : Automerge} {toText : Json.Value → String} {config : BackendConfig} {p : Preparation}
  {snapshot : Option EntitySnapshot} {prepared : Prepared}

theorem mutationChangeKind_eq {snapshot : EntitySnapshot} (hheads : snapshot.headVersions ≠ [])
    (heads : List String) (deleted : Bool) :
    mutationChangeKind snapshot heads deleted =
      changeKind snapshot.headVersions heads (if deleted then .deleted else .active) := by
  unfold mutationChangeKind changeKind
  rw [if_neg hheads]
  cases deleted <;> rfl

/-- **The engine classifies by the snapshot**, and by the state of the version it makes. -/
theorem prepare_kind (hlaw : A.Lawful) (h : prepare A toText config p snapshot = .ok prepared)
    (hheads : ∀ s, snapshot = some s → s.headVersions ≠ []) : ∃ state,
      (∀ head, prepared.commit.headVersions = [head] →
        ∃ v ∈ prepared.commit.newVersions, v.version = head ∧ v.state = state) ∧
      prepared.commit.changeKind =
        changeKind (headsOf snapshot) prepared.commit.headVersions state := by
  have hprepares := prepare_prepares hlaw h
  have hown : ∀ head, prepared.commit.headVersions = [head] → head = p.fresh (.version 0) := by
    intro head hone
    have hmem := hprepares.head
    rw [hone] at hmem
    exact (List.mem_singleton.mp hmem).symm
  unfold prepare at h
  split at h
  · cases snapshot with
    | some snapshot => cases h
    | none =>
      obtain ⟨hcommit, -⟩ := Preparation.prepared_eq_ok h
      refine ⟨.active, fun head hone => ?_, by rw [hcommit]; rfl⟩
      rw [hown head hone, hcommit]
      exact ⟨_, List.mem_singleton.mpr rfl, rfl, rfl⟩
  · obtain ⟨s, u, rfl, hupdated⟩ := prepareUpdate_updated h
    refine ⟨.active, fun head hone => ?_, ?_⟩
    · rw [hown head hone, hupdated.commit_eq]
      exact ⟨_, hupdated.own_mem, rfl, rfl⟩
    · rw [hupdated.commit_eq]
      exact mutationChangeKind_eq (hheads s rfl) _ _
  · obtain ⟨s, bases, concurrent, rfl, hdeleted⟩ := prepareDelete_deleted h
    refine ⟨.deleted, fun head hone => ?_, ?_⟩
    · rw [hown head hone, hdeleted.commit_eq]
      exact ⟨_, List.mem_singleton.mpr rfl, rfl, rfl⟩
    · rw [hdeleted.commit_eq]
      exact mutationChangeKind_eq (hheads s rfl) _ _

end Engine

/-! ### Events -/

variable {env : Environment} {w w' : World} {event : Event} {new : Db} {unit : String}
  {key : EntityKey}

/-- The events that prune the log. They publish nothing. -/
def Event.Prunes : Event → Prop
  | .readChanges _ | .crashInPrune _ => True
  | _ => False

theorem World.brings_retention (hprunes : ¬ event.Prunes) (time : ℕ) :
    ¬ (w.brings env event).retention time := by
  cases event <;> simp_all [Event.Prunes, World.brings]

/-- An immediate commit publishes what its mutation prepared. -/
theorem Process.FromRead.publication (hlaw : env.automerge.Lawful) {i : ℕ} {p : Process}
    {prepared : Patchouli.Prepared} (h : p.FromRead env (fun _ _ => True) w i prepared)
    (hnone : p.admitted.workUnit = none) {base next : Db} (inv : Inv env.automerge base)
    (hcommit : base.commitEntityInTransaction prepared.commit = .ok (.committed, next)) :
    Publication base next [base.commitChange prepared.commit] := by
  obtain ⟨w₁, snapshot, -, hread, hprepare⟩ := h
  simp only [HasRead, hnone] at hread
  have hheads : ∀ s, snapshot = some s → s.headVersions ≠ [] := by
    rintro s rfl
    unfold readEntitySnapshot at hread
    split at hread
    · cases hread
    · rename_i hne
      rw [Option.some.injEq] at hread
      rw [hread]
      exact hne
  have hprepares := prepare_prepares hlaw hprepare
  obtain ⟨state, hstate, hkind⟩ := prepare_kind hlaw hprepare hheads
  obtain ⟨hexpected, -, -, ⟨recordedAt, hversions⟩, -⟩ :=
    commitEntityInTransaction_spec hlaw inv.crdt hprepares.formed.genuine hcommit
  refine .commit hlaw inv hprepares.formed ⟨state, fun head hone => ?_, ?_⟩ hcommit
  · obtain ⟨v, hv, hname, hvstate⟩ := hstate head hone
    refine ⟨publishedRow (base.lastCursor + 1)
      (insertedRow prepared.commit.key none recordedAt v), ?_, rfl, hname, hvstate⟩
    rw [hversions]
    exact List.mem_append_right _ (List.mem_map_of_mem hv)
  · rw [hkind, hexpected, hprepares.expectedHeads_eq]
    exact changeKind_congr (Table.sorted_perm _).symm (.refl _)

/-- The sessions that an immediate commit names have written at the cursor of its change. -/
def WritesItsSessions (w : World) (event : Event) (new : Db) (added : List ChangeRow) : Prop :=
  ∀ c ∈ added, ∀ i clock p prepared, event = .advance i clock → w.processes[i]? = some p →
    p.stage = .commit prepared → ∀ session ∈ prepared.commit.writeSessionKeys,
      c.cursor ≤ new.writeCursor c.key.scopeJson session

/-- **What an event publishes**, and which unit it may close. -/
theorem Moved.batchStep (hlaw : env.automerge.Lawful) (hreach : Reachable env w)
    (hunmarked : Unmarked w.db) (hprunes : ¬ event.Prunes) (h : Moved env w event new) :
    Unmarked new ∧
      ((∃ added, Publication w.db new added ∧ NoneSettled (fun _ => False) w.db new ∧
          WritesItsSessions w event new added) ∨
        ∃ i clock p unit, event = .advance i clock ∧ w.processes[i]? = some p ∧
          p.admitted.workUnit ≠ none ∧ BatchStep env.automerge unit (p.key env i) w.db new) := by
  have hsound := hreach.sound hlaw
  have inv := hsound.inv
  have hinformed := ReachableWhen.informed hlaw hreach
  cases h with
  | kept h =>
    exact ⟨Upkeeps.unmarked inv hunmarked h, Or.inl ⟨[],
      (Upkeeps.quiet inv (World.brings_retention hprunes) h).publication,
      Upkeeps.noneSettled _ h, fun _ hc => by simp at hc⟩⟩
  | @committed i clock p prepared base next hevent hp hat hnone hbase h hrecord =>
    have hread := hinformed i p hp
    simp only [Process.Informed, hat] at hread
    have inv' := (Upkeeps.keeps inv hbase).1
    have hpublication := hread.publication hlaw hnone inv' h
    obtain ⟨w₁, snapshot, -, -, hprepare⟩ := hread
    obtain ⟨-, ⟨_, _, _, _, _, _, _, _, _, _, _, heq⟩, -⟩ := commitEntityInTransaction_spec hlaw
      inv'.crdt (prepare_prepares hlaw hprepare).formed.genuine h
    obtain ⟨idempotency, hrecord⟩ := hrecord
    have hentities : new.unitEntities = base.unitEntities := by rw [hrecord, heq]
    have hunits : new.workUnits = base.workUnits := by rw [hrecord, heq]
    have hlog : Publication base new [base.commitChange prepared.commit] := by
      rw [hrecord]
      exact hpublication.congr rfl rfl rfl rfl rfl
    refine ⟨(Upkeeps.unmarked inv hunmarked hbase).of_eq hentities fun u hu _ => hunits ▸ hu,
      Or.inl ⟨_, hlog.after (Upkeeps.quiet inv (fun _ h => h) hbase),
        (Upkeeps.noneSettled _ hbase).trans (.of_eq hunits), ?_⟩⟩
    intro c hc i' clock' p' prepared' hevent' hp' hat' session hsession
    rw [hevent, Event.advance.injEq] at hevent'
    obtain ⟨rfl, rfl⟩ := hevent'
    obtain rfl := Option.some.inj (hp.symm.trans hp')
    obtain rfl := Stage.commit.inj (hat.symm.trans hat')
    have hwrites := (commitEntityInTransaction_logged h).writes.1 session hsession
    rw [List.mem_singleton.mp hc, hrecord]
    exact hwrites
  | @inUnit i clock p prepared selected hevent hp hat hselected h =>
    have hps := hsound.processes i p hp
    have hstage := hps.stage
    simp only [Process.StageSound, hat] at hstage
    obtain ⟨heads, hprepares⟩ := Process.Prepared.prepares hlaw hstage
    obtain ⟨hkey, hscope⟩ := Process.Prepares.scope_eq hprepares
    have hlive : ∀ outcome route, p.stage ≠ .answered outcome route := by simp [hat]
    obtain ⟨hstep, hunmarked'⟩ := h.batchStep hlaw inv hunmarked hprepares.formed
      ((hps.workUnit hlive hselected).1.trans hscope.symm)
    exact ⟨hunmarked', Or.inr ⟨i, clock, p, _, hevent, hp, by simp [hselected], hkey ▸ hstep⟩⟩
  | @published i clock p prepared resolutions selected hevent hp hat hselected h =>
    have hstage := (hsound.processes i p hp).stage
    simp only [Process.StageSound, hat] at hstage
    obtain ⟨hstep, hunmarked'⟩ := h.batchStep hlaw inv hunmarked
      (Process.Resolves.wellFormed hstage.2) (p.key env i)
    exact ⟨hunmarked', Or.inr ⟨i, clock, p, _, hevent, hp, by simp [hselected], hstep⟩⟩

theorem Event.prunes_upkeeps (hprunes : event.Prunes) (w : World) :
    Upkeeps (w.brings env event) w.db (w.step env event).db := by
  cases event with
  | readChanges query => exact readChanges_upkeeps _ _ rfl
  | crashInPrune query => exact World.notePrune_upkeeps _ _ rfl
  | arrive => exact hprunes.elim
  | advance => exact hprunes.elim
  | read => exact hprunes.elim
  | retrieve => exact hprunes.elim
  | sweep => exact hprunes.elim

theorem World.step_unmarked (hlaw : env.automerge.Lawful) (hreach : Reachable env w)
    (hunmarked : Unmarked w.db) (event : Event) : Unmarked (w.step env event).db := by
  by_cases hprunes : event.Prunes
  · exact Upkeeps.unmarked (hreach.sound hlaw).inv hunmarked (event.prunes_upkeeps hprunes w)
  · exact ((World.step_moved (hreach.sound hlaw) event).batchStep hlaw hreach hunmarked hprunes).1

theorem Reachable.unmarked (hlaw : env.automerge.Lawful) (h : Reachable env w) :
    Unmarked w.db := by
  induction h with
  | start => simp [Unmarked, World.start, Db.empty]
  | step event hbefore _ ih => exact World.step_unmarked hlaw hbefore ih event

/-! ### The mutation that closes a unit -/

/-- The event is the step of a mutation, of `key`, that closes the unit. -/
structure ClosesUnit (env : Environment) (w : World) (event : Event) (unit : String)
    (key : EntityKey) : Prop where
  request : ∃ i clock p, event = .advance i clock ∧ w.processes[i]? = some p ∧ key = p.key env i
  before : ¬ w.db.Settled unit
  after : (w.step env event).db.Settled unit

/-- A unit is closed with the mutation that closed it. -/
theorem ClosesUnit.closedWith (hlaw : env.automerge.Lawful) (hreach : Reachable env w)
    (h : ClosesUnit env w event unit key) :
    (w.step env event).db.ClosedWith unit key ∨ (w.step env event).db.Committed unit := by
  obtain ⟨⟨i, clock, p, rfl, hp, rfl⟩, hbefore, hafter⟩ := h
  have hmoved := World.step_moved (hreach.sound hlaw) (.advance i clock)
  obtain ⟨-, ⟨added, -, hunits, -⟩ | ⟨i', clock', p', unit', hevent, hp', -, hstep⟩⟩ :=
    hmoved.batchStep hlaw hreach (hreach.unmarked hlaw) id
  · exact absurd hafter (BatchStep.not_settled hunits not_false hbefore)
  · cases hevent
    rw [hp, Option.some.injEq] at hp'
    subst hp'
    exact (hstep.closes_unit hbefore hafter).2

/-- A unit that is still closing is closed with the same mutation. -/
theorem Runs.closedWith (hlaw : env.automerge.Lawful) (h : Runs env w w') (hreach : Reachable env w)
    (hclosed : w.db.ClosedWith unit key)
    (hclosing : ∃ u ∈ w'.db.workUnits, u.identityJson = unit ∧ u.state = .closing) :
    w'.db.ClosedWith unit key := by
  induction h with
  | refl => exact hclosed
  | @tail mid last hbefore hstep ih =>
    obtain ⟨event, rfl⟩ := hstep
    have hmid := (Runs.reachable hbefore hreach).sound hlaw
    have heffects := World.step_effects hlaw hmid event
    obtain ⟨inv', hext⟩ := Effects.keeps hlaw hmid.inv heffects
    obtain ⟨v, hv, hvid, hvstate⟩ := hclosing
    have hthere : ∃ u ∈ mid.db.workUnits, u.identityJson = unit ∧ u.state = .closing := by
      obtain ⟨u, hu, hid, hstate⟩ := (Runs.extends hlaw hbefore hreach).between hext inv'.staging
        hclosed.closing hv hvid
      exact ⟨u, hu, hid, hstate.elim id fun heq => heq.trans hvstate⟩
    exact Effects.closedWith hlaw hmid.inv heffects (ih hthere) ⟨v, hv, hvid, hvstate⟩

/-- The event closed the unit, now or earlier in the run. -/
def ClosedEarlier (env : Environment) (w : World) (event : Event) (unit : String)
    (key : EntityKey) : Prop :=
  ∃ w₀ event₀, Reachable env w₀ ∧ ClosesUnit env w₀ event₀ unit key ∧
    (w₀ = w ∧ event₀ = event ∨ Runs env (w₀.step env event₀) w)

/-- What closed a unit that is about to be published. -/
theorem ClosedEarlier.closedWith (hlaw : env.automerge.Lawful)
    (h : ClosedEarlier env w event unit key) (hreach : Reachable env w)
    (hbefore : ¬ w.db.Committed unit) (hafter : (w.step env event).db.Committed unit) :
    w.db.ClosedWith unit key ∨ ClosesUnit env w event unit key := by
  obtain ⟨w₀, event₀, hreach₀, hcloses, ⟨rfl, rfl⟩ | hruns⟩ := h
  · exact Or.inr hcloses
  · left
    have hreach₁ : Reachable env (w₀.step env event₀) := .step event₀ hreach₀ trivial
    have hext := Runs.extends hlaw hruns hreach₁
    have inv := (hreach.sound hlaw).inv
    rcases hcloses.closedWith hlaw hreach₀ with hclosed | ⟨u, hu, hid, hcommitted⟩
    · obtain ⟨v, hv, hvid, hvstate⟩ := hafter
      obtain ⟨inv', hext'⟩ :=
        Effects.keeps hlaw inv (World.step_effects hlaw (hreach.sound hlaw) event)
      obtain ⟨u, hu, hid, hstate⟩ := hext.between hext' inv'.staging hclosed.closing hv hvid
      refine Runs.closedWith hlaw hruns hreach₁ hclosed ⟨u, hu, hid, hstate.elim id fun heq => ?_⟩
      exact absurd ⟨u, hu, hid, heq.trans hvstate⟩ hbefore
    · obtain ⟨u', hu', hev⟩ := hext.units u hu
      refine absurd ⟨u', hu', hev.identityJson.trans hid, ?_⟩ hbefore
      rw [hev.final (by simp [WorkUnitRow.Live, hcommitted]), hcommitted]

/-- **The change log is faithful.** -/
theorem change_log_faithful (hlaw : env.automerge.Lawful) (h : Reachable env w) (event : Event) :
    (w.step env event).db.changes.Pairwise (·.cursor < ·.cursor) ∧
    (event.Prunes → (w.step env event).db.changes.Sublist w.db.changes ∧
      (∀ key version, (w.step env event).db.IsPublished key version ↔
        w.db.IsPublished key version) ∧
      ∀ key, (w.step env event).db.publishedHeads key = w.db.publishedHeads key) ∧
    (¬ event.Prunes → ∃ added, Publication w.db (w.step env event).db added ∧
      ∀ unit key, ¬ w.db.Committed unit → (w.step env event).db.Committed unit →
        ClosedEarlier env w event unit key → added.getLast?.map (·.key) = some key) := by
  have hsound := h.sound hlaw
  have inv := hsound.inv
  have hstep : Reachable env (w.step env event) := .step event h trivial
  refine ⟨(hstep.log hlaw).sorted, fun hprunes => ?_, fun hprunes => ?_⟩
  · obtain ⟨hheads, hchanges, hversions⟩ := Upkeeps.still inv (event.prunes_upkeeps hprunes w)
    refine ⟨hchanges, fun key version => ?_, fun key => by simp only [publishedHeads, hheads]⟩
    constructor
    · rintro ⟨r, hr, hkey, hname, hnone⟩
      exact ⟨r, (hversions r hnone).mp hr, hkey, hname, hnone⟩
    · rintro ⟨r, hr, hkey, hname, hnone⟩
      exact ⟨r, (hversions r hnone).mpr hr, hkey, hname, hnone⟩
  · obtain ⟨-, ⟨added, hpublication, hunits, -⟩ | ⟨i, clock, p, unit, rfl, hp, -, hbatch⟩⟩ :=
      (World.step_moved hsound event).batchStep hlaw h (h.unmarked hlaw) hprunes
    · refine ⟨added, hpublication, fun unit key hbefore hafter hearlier => ?_⟩
      rcases hearlier.closedWith hlaw h hbefore hafter with hclosed | hcloses
      · exact absurd hafter
          (BatchStep.not_committed inv.staging hunits not_false hclosed.closing)
      · exact absurd hafter.settled (BatchStep.not_settled hunits not_false hcloses.before)
    · obtain ⟨added, hpublication, -, hends⟩ := hbatch.publication inv
      refine ⟨added, hpublication, fun id key hbefore hafter hearlier => ?_⟩
      refine hends id key hafter ?_
      rcases hearlier.closedWith hlaw h hbefore hafter with hclosed | hcloses
      · exact Or.inl hclosed
      · obtain ⟨i', clock', p', hevent, hp', rfl⟩ := hcloses.request
        cases hevent
        rw [hp, Option.some.injEq] at hp'
        exact Or.inr ⟨hcloses.before, by rw [hp']⟩

/-- A unit has staged a note, and another is about to be staged and to close the unit. -/
def closingNotes : World :=
  World.after noteEnvironment [.arrive (createNote .null (some "unit") false) (readingsAt 5),
    .advance 0 (clockAt 5), .advance 0 (clockAt 5),
    .arrive (noteRequest (.create "note" (some "m") .null) (some "unit") true []) (readingsAt 6),
    .advance 1 (clockAt 6)]

/-- The two notes are published in this order, although `m` comes before `n`. -/
theorem closing_note_is_logged_last : ∃ added,
    Publication closingNotes.db (closingNotes.step noteEnvironment (.advance 1 (clockAt 6))).db
      added ∧ added.getLast?.map (·.key) = some ⟨"scope", "note", "m"⟩ := by
  have hclosed : ClosesUnit noteEnvironment closingNotes (.advance 1 (clockAt 6)) "unit"
      ⟨"scope", "note", "m"⟩ :=
    ⟨⟨1, clockAt 6, closingNotes.processes.get ⟨1, by decide⟩, rfl,
      List.getElem?_eq_some_iff.mpr ⟨by decide, rfl⟩, by decide⟩, by decide, by decide⟩
  obtain ⟨added, hpublication, hlast⟩ := (change_log_faithful
    (show noteEnvironment.automerge.Lawful from noAutomerge_lawful)
    (World.after_reachable noteEnvironment _) (w := closingNotes) (.advance 1 (clockAt 6))).2.2 id
  exact ⟨added, hpublication, hlast "unit" _ (by decide) (by decide)
    ⟨closingNotes, _, World.after_reachable noteEnvironment _, hclosed, Or.inl ⟨rfl, rfl⟩⟩⟩

end Patchouli
