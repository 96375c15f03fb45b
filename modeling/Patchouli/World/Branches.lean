import Patchouli.Backend.Branches
import Patchouli.Sqlite.UnitHeads
import Patchouli.World.ChangeLog

/-!
# Concurrent mutations of an entity

A mutation is resolved against the heads it read and commits later, when others may have moved
them. The commit compares the heads, so what it replaces is what the mutation was resolved against;
and since heads never come back to what they were, of two mutations that were resolved against the
same heads one commits at most. Together with what a preparation does to the heads it read
(`KeepsBranches`), no branch is lost.

## Main definitions

* `Process.headsIn` — the heads a mutation replaces, published or of its unit
* `World.Stores` — an event that stores what a mutation prepared

## Main results

* `optimistic_mutations_lose_no_branch`
-/

namespace Patchouli

open Db Relation

variable {env : Environment} {w w' : World}

/-- An event stores a version of a commit. -/
def World.Stores (env : Environment) (w : World) (event : Event) (entity : EntityCommit) : Prop :=
  ∃ v ∈ entity.newVersions, ¬ w.db.HasVersion entity.key v.version ∧
    (w.step env event).db.HasVersion entity.key v.version

namespace Process

variable (env) (i : ℕ) (p : Process)

/-- The heads of the entity of a mutation: in its unit, or published. -/
def headsIn (db : Db) : List String :=
  match p.admitted.workUnit with
  | none => db.publishedHeads (p.key env i)
  | some selected => db.workUnitHeads selected.workUnit.identityJson (p.key env i)

variable {env i p} {prepared : Patchouli.Prepared} {clock : Clock}

theorem headsIn_nodup {db : Db} (inv : Inv env.automerge db) : (p.headsIn env i db).Nodup := by
  unfold headsIn
  split
  · exact publishedHeads_nodup inv _
  · exact inv.workUnitHeads_nodup _ _

theorem headsIn_sorted (db : Db) : Table.sorted (p.headsIn env i db) = p.headsIn env i db := by
  unfold headsIn
  split
  · exact Table.sorted_sorted _
  · unfold workUnitHeads
    split <;> exact Table.sorted_sorted _

/-- A mutation is resolved against the heads of the entity it read. -/
theorem HasRead.headVersions {db : Db} {snapshot : EntitySnapshot}
    (h : p.HasRead env i db (some snapshot)) : snapshot.headVersions = p.headsIn env i db := by
  cases hunit : p.admitted.workUnit with
  | none =>
    simp only [HasRead, hunit, readEntitySnapshot] at h
    split at h
    · cases h
    · simp only [headsIn, hunit, Option.some.inj h]
  | some selected =>
    simp only [HasRead, hunit] at h
    simp only [headsIn, hunit]
    exact (readWorkUnitSnapshot_eq_some h.1.symm).1

/-- A mutation in a unit that was read has its entity captured. -/
theorem FromRead.captured (hlaw : env.automerge.Lawful)
    (h : p.FromRead env (fun _ _ => True) w i prepared) {selected : SelectedWorkUnit}
    (hselected : p.admitted.workUnit = some selected) :
    w.db.Captured selected.workUnit.identityJson (p.key env i) := by
  obtain ⟨w₁, snapshot, hearlier, hread, -⟩ := h
  simp only [HasRead, hselected] at hread
  exact Effects.captured hlaw (Reachable.sound hlaw hearlier.reachable).inv
    (hearlier.runs.runs.effects hlaw hearlier.reachable) (captured_iff.mpr hread.2.1)

/-- What a commit does to the heads of its entity. -/
structure Replaces (env : Environment) (i : ℕ) (p : Process) (w w' : World)
    (prepared : Patchouli.Prepared) : Prop where
  opened : ∀ selected, p.admitted.workUnit = some selected → ∀ u ∈ w.db.workUnits,
    u.identityJson = selected.workUnit.identityJson → u.state = .opened
  before : p.headsIn env i w.db = Table.sorted prepared.commit.expectedHeads
  after : p.headsIn env i w'.db = Table.sorted prepared.commit.headVersions
  new : ∃ version ∈ prepared.commit.headVersions, version ∉ prepared.commit.expectedHeads

/-- **A commit replaces the heads that were expected,** by the heads it prepared. -/
theorem commits_replaces (hlaw : env.automerge.Lawful) (hreach : Reachable env w)
    (hp : w.processes[i]? = some p) (hat : p.stage = .commit prepared)
    (hstores : w.Stores env (.advance i clock) prepared.commit) :
    p.Replaces env i w (w.step env (.advance i clock)) prepared := by
  have hsound := hreach.sound hlaw
  have inv := hsound.inv
  have hps := hsound.processes i p hp
  have hread : p.FromRead env (fun _ _ => True) w i prepared := by
    have hinformed := hreach.informed hlaw i p hp
    simpa only [Informed, hat] using hinformed
  obtain ⟨heads, hprepares⟩ := Prepared.prepares (p := p) (i := i) hlaw (by
    have hstage := hps.stage
    simpa only [StageSound, hat] using hstage)
  obtain ⟨hkey, hscope⟩ := Prepares.scope_eq hprepares
  obtain ⟨v, -, hbefore, hafter⟩ := hstores
  cases World.step_moved hsound (.advance i clock) with
  | kept h => exact absurd (h.hasVersion hafter) hbefore
  | @committed j clock' q prepared' base next hevent hq hat' hnone hbase hcommit hrecord =>
    cases hevent
    rw [hp, Option.some.injEq] at hq
    subst hq
    rw [hat, Stage.commit.injEq] at hat'
    subst hat'
    obtain ⟨idempotency, hnew⟩ := hrecord
    have inv' := (hbase.keeps inv).1
    have hquiet := hbase.quiet inv fun _ h => h
    obtain ⟨hexpected, -, hpublishes, -, -, -, -, hfresh, -⟩ :=
      commitEntityInTransaction_spec hlaw inv'.crdt hprepares.formed.genuine hcommit
    refine ⟨fun selected hselected => by simp [hnone] at hselected, ?_, ?_, ?_⟩
    · simp only [headsIn, hnone, ← hkey, ← hquiet.publishedHeads_eq]
      exact hexpected
    · simp only [headsIn, hnone, hnew, ← hkey]
      have := hpublishes.publishedHeads_eq prepared.commit.key
      rwa [if_pos rfl] at this
    · obtain ⟨version, hversion, hadded⟩ := hprepares.formed.new
      obtain ⟨v', hv', rfl⟩ := List.mem_map.mp hadded
      refine ⟨v'.version, hversion, fun hold => (hfresh v' hv').1 ?_⟩
      obtain ⟨r, hr, hrkey, hname, -⟩ := inv'.published.isPublished
        (mem_publishedHeads.mp (hexpected ▸ Table.mem_sorted.mpr hold))
      exact ⟨r, hr, hrkey, hname⟩
  | @inUnit j clock' q prepared' selected hevent hq hat' hselected h =>
    cases hevent
    rw [hp, Option.some.injEq] at hq
    subst hq
    rw [hat, Stage.commit.injEq] at hat'
    subst hat'
    have hlive : ∀ outcome route, p.stage ≠ .answered outcome route := by simp [hat]
    obtain ⟨hopen, hheads, hreplaced, hnew⟩ := h.replaces hlaw inv hprepares.formed
      ((hps.workUnit hlive hselected).1.trans hscope.symm)
      (by simpa only [workUnitCommit, hkey] using hread.captured hlaw hselected) hbefore hafter
    refine ⟨fun selected' hselected' => ?_, ?_, ?_, hnew⟩
    · rw [hselected, Option.some.injEq] at hselected'
      subst hselected'
      exact hopen
    · simp only [headsIn, hselected, ← hkey]
      exact hheads
    · simp only [headsIn, hselected, ← hkey]
      exact hreplaced
  | published hevent hq hat' _ _ =>
    cases hevent
    rw [hp, Option.some.injEq] at hq
    subst hq
    rw [hat] at hat'
    cases hat'

/-- Two mutations are of the same entity, both published or in the same unit. -/
def SameTarget (env : Environment) (i : ℕ) (p : Process) (j : ℕ) (q : Process) : Prop :=
  q.key env j = p.key env i ∧ q.admitted.workUnit.map (·.workUnit.identityJson) =
    p.admitted.workUnit.map (·.workUnit.identityJson)

theorem SameTarget.headsIn_eq {j : ℕ} {q : Process} (h : p.SameTarget env i j q) (db : Db) :
    q.headsIn env j db = p.headsIn env i db := by
  obtain ⟨hkey, hunit⟩ := h
  unfold headsIn
  rw [hkey]
  cases hp : p.admitted.workUnit <;> cases hq : q.admitted.workUnit <;>
    rw [hp, hq] at hunit <;> simp_all

/-- **Heads never come back** once a mutation replaced them, as long as its unit is open. -/
theorem Replaces.ne_headsIn (hlaw : env.automerge.Lawful) (hreach : Reachable env w)
    {event : Event} (h : p.Replaces env i w (w.step env event) prepared)
    (hread : p.FromRead env (fun _ _ => True) w i prepared) {w₂ : World}
    (hruns : Runs env (w.step env event) w₂)
    (hopen : ∀ selected, p.admitted.workUnit = some selected → ∀ u ∈ w₂.db.workUnits,
      u.identityJson = selected.workUnit.identityJson → u.state = .opened) :
    p.headsIn env i w₂.db ≠ p.headsIn env i w.db := by
  have hreach' : Reachable env (w.step env event) := hreach.step event trivial
  have inv := (hreach.sound hlaw).inv
  have inv' := (hreach'.sound hlaw).inv
  have hstep : Runs env w (w.step env event) := .single ⟨event, rfl⟩
  have hext := hstep.extends hlaw hreach
  have hext' := hruns.extends hlaw hreach'
  intro hsame
  -- The heads of the commit are not those it replaced, and later heads have something newer still.
  have hmoved : p.headsIn env i w₂.db ≠ p.headsIn env i (w.step env event).db := by
    intro hback
    obtain ⟨version, hversion, hnew⟩ := h.new
    refine hnew (Table.mem_sorted.mp ?_)
    rw [← h.before, ← hsame, hback, h.after]
    exact Table.mem_sorted.mpr hversion
  cases hunit : p.admitted.workUnit with
  | none =>
    simp only [headsIn, hunit] at hmoved hsame
    obtain ⟨version, hversion, hunseen⟩ := (hext'.moves _).resolve_left hmoved
    rw [hsame] at hversion
    exact hunseen (hext.isPublished (inv.published.isPublished (mem_publishedHeads.mp hversion)))
  | some selected =>
    have hcaptured := Effects.captured hlaw inv (hstep.effects hlaw hreach)
      (hread.captured hlaw hunit)
    simp only [headsIn, hunit] at hmoved hsame
    obtain ⟨version, hversion, hunseen⟩ := (Effects.headsMove hlaw inv'
      (hruns.effects hlaw hreach') hcaptured (hopen selected hunit)).resolve_left hmoved
    rw [hsame] at hversion
    refine hunseen (hext.seenIn (fun u hu hid => Or.inl ?_) (inv.seenIn_of_head hversion))
    exact hext'.opened_of_opened hu fun u' hu' hid' =>
      hopen selected hunit u' hu' (hid'.trans hid)

end Process

/-- **Optimistic mutations lose no branch.** An update or deletion that commits replaces the heads
it was resolved against, keeps every head it does not name, adds its own proposal and nothing else;
and no other mutation that was resolved against the same heads commits after it. -/
theorem optimistic_mutations_lose_no_branch (hlaw : env.automerge.Lawful) (hreach : Reachable env w)
    {i : ℕ} {p : Process} (hp : w.processes[i]? = some p) {prepared : Prepared}
    (hat : p.stage = .commit prepared)
    (hmutation : ∀ entityType id value, p.request.mutation ≠ .create entityType id value)
    {clock : Clock} (hstores : w.Stores env (.advance i clock) prepared.commit) :
    (∃ w₁ snapshot place, EarlierWhen env (fun _ _ => True) w₁ w ∧
      p.HasRead env i w₁.db (some snapshot) ∧
      prepare env.automerge env.toText env.config (p.preparation env i) (some snapshot) =
        .ok prepared ∧
      p.headsIn env i w.db = snapshot.headVersions ∧
      p.headsIn env i (w.step env (.advance i clock)).db =
        Table.sorted prepared.commit.headVersions ∧
      KeepsBranches env.automerge (p.preparation env i) snapshot prepared.commit place) ∧
    ∀ w₂ j q prepared' clock', Runs env (w.step env (.advance i clock)) w₂ →
      w₂.processes[j]? = some q → q.stage = .commit prepared' → p.SameTarget env i j q →
      prepared'.commit.expectedHeads.Perm prepared.commit.expectedHeads →
      ¬ w₂.Stores env (.advance j clock') prepared'.commit := by
  have hread : p.FromRead env (fun _ _ => True) w i prepared := by
    have hinformed := hreach.informed hlaw i p hp
    simpa only [Process.Informed, hat] using hinformed
  have hreplaces := Process.commits_replaces hlaw hreach hp hat hstores
  refine ⟨?_, fun w₂ j q prepared' clock' hruns hq hat' htarget hperm hstores' => ?_⟩
  · obtain ⟨w₁, snapshot, hearlier, hsnapshot, hprepare⟩ := hread
    have inv₁ := (Reachable.sound hlaw hearlier.reachable).inv
    obtain ⟨snapshot, rfl⟩ := prepare_some hprepare hmutation
    have hheads := hsnapshot.headVersions
    obtain ⟨place, hkeeps⟩ := prepare_keepsBranches hprepare
      (hheads ▸ Process.headsIn_nodup inv₁)
    refine ⟨w₁, snapshot, place, hearlier, hsnapshot, hprepare, ?_, hreplaces.after, hkeeps⟩
    rw [hreplaces.before, hkeeps.replaced, hheads]
    exact Process.headsIn_sorted _
  · have hreach₂ := hruns.reachable (hreach.step (.advance i clock) trivial)
    have hreplaces' := Process.commits_replaces hlaw hreach₂ hq hat' hstores'
    refine hreplaces.ne_headsIn hlaw hreach hread hruns (fun selected hselected u hu hid => ?_) ?_
    · cases hunit : q.admitted.workUnit with
      | none => rw [Process.SameTarget, hselected, hunit] at htarget; simp at htarget
      | some selected' =>
        have hsame := htarget.2
        rw [hselected, hunit, Option.map_some, Option.map_some, Option.some.injEq] at hsame
        exact hreplaces'.opened selected' hunit u hu (hid.trans hsame.symm)
    · rw [← htarget.headsIn_eq, hreplaces'.before, hreplaces.before]
      exact Table.sorted_eq_iff.mpr hperm

/-- The note was created, and an update of it is about to be committed. -/
def updatingNote : World :=
  World.after noteEnvironment [
    .arrive (createNote .null none false) (readingsAt 5), .advance 0 (clockAt 5),
    .advance 0 (clockAt 5),
    .arrive (updateNote (.bool true) none false [drawnName 0 (.version 0)]) (readingsAt 6),
    .advance 1 (clockAt 6)]

/-- The update replaces the head that was created. -/
theorem update_loses_no_branch : ∃ prepared : Prepared,
    ∃ w₁ snapshot place, EarlierWhen noteEnvironment (fun _ _ => True) w₁ updatingNote ∧
      snapshot.headVersions = [drawnName 0 (.version 0)] ∧
      KeepsBranches noteEnvironment.automerge
        (Process.preparation noteEnvironment 1 updatingNote.processes[1]) snapshot prepared.commit
        place := by
  obtain ⟨prepared, hprepared, hstores⟩ : ∃ prepared,
      updatingNote.processes[1].stage = .commit prepared ∧
        updatingNote.Stores noteEnvironment (.advance 1 (clockAt 6)) prepared.commit :=
    ⟨_, rfl, _, List.mem_cons_self, by decide, by decide⟩
  have hupdate : updatingNote.processes[1].request.mutation = .update ⟨"note", "n"⟩ (.bool true) := rfl
  obtain ⟨⟨w₁, snapshot, place, hearlier, -, -, hheads, -, hkeeps⟩, -⟩ :=
    optimistic_mutations_lose_no_branch (w := updatingNote)
      (show noteEnvironment.automerge.Lawful from noAutomerge_lawful)
      (World.after_reachable _ _) (i := 1) (p := updatingNote.processes[1]) rfl hprepared
      (by simp [hupdate]) hstores
  exact ⟨prepared, w₁, snapshot, place, hearlier, hheads.symm, hkeeps⟩

end Patchouli
