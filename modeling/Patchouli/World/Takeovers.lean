import Patchouli.World.Acknowledged
import Patchouli.World.Restarts

/-!
# One provider takes over from another

The lock makes the providers of a file follow each other. The row is the only thing a provider
learns of the one before it: its number, and whether it was left running. It is told that by a
crash, and also by a shutdown whose transaction failed; a shutdown whose transaction was committed
counts as clean even if the call failed afterwards.

What was acknowledged is in the tables, and the tables stay.

## Main definitions

* `RunRecord.isStart`, `initializations`, `leftRunning` — what the row says
* `Site.Inv` — the last provider has the lock, and the row counts
* `Site.Gone`, `Site.Unmoved` — a provider without the lock, and what it has left

## Main results

* `runs_told_apart` — generations, unclean shutdowns, and one provider at a time
* `gone_provider_inert` — who let go of the lock is out of it
* `acknowledged_survives_restarts`
-/

namespace Patchouli

open Db

/-! ### The runs of the file -/

/-- An initialization. -/
def RunRecord.isStart : RunRecord → Bool
  | initialized _ _ => true
  | ended _ _ => false

/-- How often the file was initialized. -/
def initializations (records : List RunRecord) : ℕ := records.countP RunRecord.isStart

/-- No shutdown came after the last initialization. -/
def leftRunning (records : List RunRecord) : Bool := records.getLast?.any RunRecord.isStart

@[simp] theorem initializations_append_initialized (records : List RunRecord) (h : ℕ)
    (recovery : ProviderRecovery) :
    initializations (records ++ [.initialized h recovery]) = initializations records + 1 := by
  simp [initializations, RunRecord.isStart]

@[simp] theorem initializations_append_ended (records : List RunRecord) (h : ℕ)
    (succeeded : Bool) :
    initializations (records ++ [.ended h succeeded]) = initializations records := by
  simp [initializations, RunRecord.isStart]

@[simp] theorem leftRunning_append (records : List RunRecord) (record : RunRecord) :
    leftRunning (records ++ [record]) = record.isStart := by
  simp [leftRunning]

/-- Only the provider that was opened last holds the lock, and it alone has calls of the mutations
it hosts. The row counts what the file was told, provider after provider. -/
structure Site.Inv (s : Site) : Prop where
  latest : ∀ h provider, s.providers[h]? = some provider → provider.stage.Locked →
    h + 1 = s.providers.length
  own : ∀ h provider, s.providers[h]? = some provider → ∀ call ∈ provider.calls,
    s.MayCall h call ∨ ∃ t busy, call = .shutdownCall t busy
  hosted : s.hosts.length = s.processes.length
  known : ∀ record ∈ s.records, record.provider < s.providers.length
  sorted : s.records.Pairwise fun earlier later => earlier.provider ≤ later.provider
  generation : (s.storage.runtime.getD Storage.initialRuntime).generation =
    initializations s.records
  running : (s.storage.runtime.getD Storage.initialRuntime).running = leftRunning s.records
  numbered : ∀ before h recovery, before ++ [.initialized h recovery] <+: s.records →
    recovery = ⟨initializations before + 1, leftRunning before⟩

namespace Site

variable {env : Environment} {s s' : Site} {h : ℕ}

theorem MayCall.append {call : Call} (hmay : s.MayCall h call) (processes : List Process)
    (h' : ℕ) : ({ s with processes, hosts := s.hosts ++ [h'] } : Site).MayCall h call := by
  cases call with
  | engine event =>
    cases event with
    | arrive => exact hmay
    | advance i clock =>
      show (s.hosts ++ [h'])[i]? = some h
      rw [List.getElem?_append_left (List.getElem?_eq_some_iff.mp hmay).1]
      exact hmay
    | read => trivial
    | retrieve => trivial
    | readChanges => trivial
    | crashInPrune => trivial
    | sweep => trivial
  | initializeCall t => trivial
  | shutdownCall t busy => exact hmay

/-- A call that is told to the file. -/
theorem Inv.record (inv : s.Inv) {storage : Storage} {record : RunRecord}
    (hlast : record.provider + 1 = s.providers.length)
    (hgeneration : (storage.runtime.getD Storage.initialRuntime).generation =
      initializations (s.records ++ [record]))
    (hrunning : (storage.runtime.getD Storage.initialRuntime).running = record.isStart)
    (hnumber : ∀ h recovery, record = .initialized h recovery →
      recovery = ⟨initializations s.records + 1, leftRunning s.records⟩) :
    ({ s with storage, records := s.records ++ [record] } : Site).Inv where
  latest := inv.latest
  own := inv.own
  hosted := inv.hosted
  known other hother := by
    rcases List.mem_append.mp hother with hold | hnew
    · exact inv.known other hold
    · rw [List.mem_singleton.mp hnew]
      show record.provider < s.providers.length
      omega
  sorted := by
    refine List.pairwise_append.mpr ⟨inv.sorted, List.pairwise_singleton _ _, ?_⟩
    intro earlier hearlier later hlater
    rw [List.mem_singleton.mp hlater]
    have := inv.known earlier hearlier
    omega
  generation := hgeneration
  running := by rw [leftRunning_append]; exact hrunning
  numbered before h recovery hprefix := by
    rcases List.prefix_concat_iff.mp hprefix with hall | hold
    · obtain ⟨rfl, hrecord⟩ := List.append_inj' hall rfl
      exact hnumber h recovery (List.cons.inj hrecord).1.symm
    · exact inv.numbered before h recovery hold

/-- What is called is no arrival. -/
theorem step_processes {w : World} {event : Event} (hmay : s.MayCall h (.engine event)) :
    (w.step env event).processes.length = w.processes.length := by
  cases event with
  | arrive => exact hmay.elim
  | advance i clock =>
    simp only [World.step]
    split
    · exact List.length_set
    · rfl
  | read => rfl
  | retrieve => rfl
  | readChanges => rfl
  | crashInPrune => rfl
  | sweep => rfl

/-- The provider whose call runs is the last one. -/
theorem Inv.run (inv : s.Inv) {call : Call} (hlast : h + 1 = s.providers.length)
    (hown : s.MayCall h call ∨ ∃ t busy, call = .shutdownCall t busy) :
    (s.run env h call).Inv := by
  cases call with
  | engine event =>
    have hmay : s.MayCall h (.engine event) := by
      rcases hown with hmay | ⟨t, busy, hcall⟩
      · exact hmay
      · cases hcall
    simp only [Site.run]
    split
    · have hlength : (s.world.step env event).processes.length = s.world.processes.length :=
        step_processes hmay
      exact ⟨inv.latest, inv.own, inv.hosted.trans hlength.symm, inv.known, inv.sorted,
        inv.generation, inv.running, inv.numbered⟩
    · exact inv
  | initializeCall startedAt =>
    simp only [Site.run, Storage.initializeProvider]
    cases hinit : s.storage.initializeInTransaction startedAt with
    | error error => exact inv
    | ok result =>
      obtain ⟨recovery, storage⟩ := result
      obtain ⟨-, -, rfl, -, hruntime, -⟩ := Storage.initializeInTransaction_eq_ok.mp hinit
      refine inv.record hlast ?_ ?_ fun h' recovery' hrecord => ?_
      · rw [hruntime, initializations_append_initialized, ← inv.generation]
        rfl
      · rw [hruntime]
        rfl
      · cases hrecord
        rw [inv.generation, inv.running]
  | shutdownCall shutdownAt busy =>
    simp only [Site.run]
    cases hdown : s.storage.shutdownInTransaction shutdownAt with
    | error error => exact inv
    | ok storage =>
      obtain ⟨-, ⟨row, hrow, hnext⟩, -⟩ := Storage.shutdownInTransaction_eq_ok.mp hdown
      have hstorage : (s.storage.shutdownProvider shutdownAt busy).2 = storage := by
        rw [Storage.shutdownProvider, hdown]
        dsimp only
        split <;> rfl
      have hgeneration := inv.generation
      rw [hrow] at hgeneration
      refine inv.record hlast ?_ ?_ fun h' recovery' hrecord => by cases hrecord
      · rw [hstorage, hnext, initializations_append_ended]
        exact hgeneration
      · rw [hstorage, hnext]
        rfl

/-- A provider that takes over no lock. -/
theorem Inv.put (inv : s.Inv) {old new : SqliteProvider} (hget : s.providers[h]? = some old)
    (hlocked : new.stage.Locked → old.stage.Locked)
    (hcalls : ∀ call ∈ new.calls, s.MayCall h call ∨ ∃ t busy, call = .shutdownCall t busy) :
    (s.put h new).Inv := by
  have hother : ∀ h' provider, (s.put h new).providers[h']? = some provider →
      h' = h ∧ provider = new ∨ s.providers[h']? = some provider := by
    intro h' provider hget'
    by_cases heq : h = h'
    · subst heq
      rw [Site.put, List.getElem?_set_self (List.getElem?_eq_some_iff.mp hget).1] at hget'
      exact .inl ⟨rfl, (Option.some.inj hget').symm⟩
    · rw [Site.put, List.getElem?_set_ne heq] at hget'
      exact .inr hget'
  have hlength : (s.put h new).providers.length = s.providers.length := List.length_set
  refine ⟨fun h' provider hget' hheld => ?_, fun h' provider hget' call hcall => ?_, inv.hosted,
    fun record hrecord => ?_, inv.sorted, inv.generation, inv.running, inv.numbered⟩
  · rw [hlength]
    rcases hother h' provider hget' with ⟨rfl, rfl⟩ | hold
    · exact inv.latest _ old hget (hlocked hheld)
    · exact inv.latest h' provider hold hheld
  · rcases hother h' provider hget' with ⟨rfl, rfl⟩ | hold
    · exact hcalls call hcall
    · exact inv.own h' provider hold call hcall
  · rw [hlength]
    exact inv.known record hrecord

theorem Inv.openProvider (inv : s.Inv) (hfree : ¬ s.Locked) :
    ({ s with providers := s.providers ++ [⟨.running, []⟩] } : Site).Inv := by
  have hnew : ∀ h' provider, (s.providers ++ [⟨.running, []⟩])[h']? = some provider →
      s.providers[h']? = some provider ∨ h' = s.providers.length ∧ provider = ⟨.running, []⟩ := by
    intro h' provider hget
    rcases Nat.lt_or_ge h' s.providers.length with hlt | hge
    · rw [List.getElem?_append_left hlt] at hget
      exact .inl hget
    · have hlt := (List.getElem?_eq_some_iff.mp hget).1
      rw [List.length_append, List.length_singleton] at hlt
      obtain rfl : h' = s.providers.length := by omega
      rw [List.getElem?_concat_length] at hget
      exact .inr ⟨rfl, (Option.some.inj hget).symm⟩
  have hlength : (s.providers ++ [(⟨.running, []⟩ : SqliteProvider)]).length =
      s.providers.length + 1 := List.length_append
  refine ⟨fun h' provider hget hheld => ?_, fun h' provider hget call hcall => ?_, inv.hosted,
    fun record hrecord => ?_, inv.sorted, inv.generation, inv.running, inv.numbered⟩
  · rcases hnew h' provider hget with hold | ⟨rfl, rfl⟩
    · exact absurd ⟨provider, List.mem_of_getElem? hold, hheld⟩ hfree
    · exact hlength.symm
  · rcases hnew h' provider hget with hold | ⟨rfl, rfl⟩
    · exact inv.own h' provider hold call hcall
    · cases hcall
  · have := inv.known record hrecord
    show record.provider < (s.providers ++ [(⟨.running, []⟩ : SqliteProvider)]).length
    omega

/-- **A step keeps it.** -/
theorem Inv.stepped (inv : s.Inv) (hstep : Stepped env s s') : s'.Inv := by
  cases hstep with
  | kept => exact inv
  | opened hfree => exact inv.openProvider hfree
  | @arrived h' _ request readings hget =>
    refine ⟨inv.latest, fun h'' provider hget' call hcall => ?_, ?_, inv.known, inv.sorted,
      inv.generation, inv.running, inv.numbered⟩
    · exact (inv.own h'' provider hget' call hcall).imp_left fun hmay => hmay.append _ h'
    · show (s.hosts ++ [h']).length = (s.processes ++ [request.arrive env readings]).length
      rw [List.length_append, List.length_append, inv.hosted]
      rfl
  | @turned h' old new hget hbecomes =>
    refine inv.put hget hbecomes.locked fun call hcall => ?_
    rcases hbecomes.calls call hcall with hold | hnew
    · exact inv.own _ old hget call hold
    · exact hnew
  | @performed h' k old call hget hcall hserved =>
    have hown := inv.own _ old hget call (List.mem_of_getElem? hcall)
    refine Inv.run (inv.put hget stageAfter_locked fun other hother => ?_) ?_ hown
    · exact inv.own _ old hget other (List.mem_of_mem_eraseIdx hother)
    · exact (inv.latest _ old hget hserved.locked).trans List.length_set.symm

end Site

theorem SiteReachable.inv {env : Environment} {allowed : World → Event → Prop} {userVersion : ℤ}
    {s : Site} (h : SiteReachable env allowed userVersion s) : s.Inv := by
  induction h with
  | start =>
    refine ⟨fun h provider hget => ?_, fun h provider hget => ?_, rfl, fun record hrecord => ?_,
      List.Pairwise.nil, rfl, rfl, fun before h recovery hprefix => ?_⟩
    · cases hget
    · cases hget
    · cases hrecord
    · cases before <;> cases List.eq_nil_of_prefix_nil hprefix
  | step event _ _ ih => exact ih.stepped (Site.step_stepped event)

section Results

variable {env : Environment} {allowed : World → Event → Prop} {userVersion : ℤ} {s s' : Site}

/-- **The file tells its runs apart**, whatever providers come and go. The initializations are
numbered through without a gap; one reports an unclean shutdown exactly if no shutdown was committed
since the one before it; the providers follow each other in the order in which they were opened; and
there are never two that hold the lock. -/
theorem runs_told_apart (h : SiteReachable env allowed userVersion s) :
    (∀ before provider recovery, before ++ [.initialized provider recovery] <+: s.records →
      recovery.generation = initializations before + 1 ∧
      (recovery.recoveredAfterUncleanShutdown = true ↔
        ∃ last recovery', before.getLast? = some (.initialized last recovery'))) ∧
    (s.records.Pairwise fun earlier later => earlier.provider ≤ later.provider) ∧
    ∀ (i j : ℕ) (p q : SqliteProvider), s.providers[i]? = some p → s.providers[j]? = some q →
      p.stage.Locked → q.stage.Locked → i = j := by
  have inv := h.inv
  refine ⟨fun before provider recovery hprefix => ?_, inv.sorted, fun i j p q hp hq hpl hql => ?_⟩
  · obtain rfl := inv.numbered before provider recovery hprefix
    refine ⟨rfl, ?_⟩
    show leftRunning before = true ↔ _
    rw [leftRunning]
    cases hlast : before.getLast? with
    | none => simp
    | some record => cases record <;> simp [RunRecord.isStart]
  · have hi := inv.latest i p hp hpl
    have hj := inv.latest j q hq hql
    omega

/-! ### Providers that are gone -/

/-- The provider has let go of the lock. -/
def Site.Gone (s : Site) (h : ℕ) : Prop :=
  ∃ provider, s.providers[h]? = some provider ∧ ¬ provider.stage.Locked

/-- The file was told nothing by the provider in between, and its mutations did not move. -/
structure Site.Unmoved (h : ℕ) (s s' : Site) : Prop where
  gone : s'.Gone h
  records : (s'.records.filter fun record => record.provider = h) =
    s.records.filter fun record => record.provider = h
  hosts : ∀ i : ℕ, s.hosts[i]? = some h → s'.hosts[i]? = some h
  processes : ∀ (i : ℕ) p, s.hosts[i]? = some h → s.processes[i]? = some p → s'.processes[i]? = some p

variable {h h' : ℕ}

/-- A call moves no mutation of another provider. -/
theorem Site.step_process_of_ne {w : World} {event : Event} {i : ℕ}
    (hmay : s.MayCall h' (.engine event)) (hne : h' ≠ h) (hhost : s.hosts[i]? = some h) :
    (w.step env event).processes[i]? = w.processes[i]? := by
  cases event with
  | arrive => exact hmay.elim
  | advance j clock =>
    have hji : j ≠ i := by
      rintro rfl
      exact hne (Option.some.inj (hmay.symm.trans hhost))
    simp only [World.step]
    split
    · exact List.getElem?_set_ne hji
    · rfl
  | read => rfl
  | retrieve => rfl
  | readChanges => rfl
  | crashInPrune => rfl
  | sweep => rfl

theorem Site.filter_record_of_ne {records : List RunRecord} {record : RunRecord}
    (hne : record.provider ≠ h) :
    ((records ++ [record]).filter fun record => record.provider = h) =
      records.filter fun record => record.provider = h := by
  simp [hne]

theorem Site.run_unmoved {call : Call} (hgone : s.Gone h) (hne : h' ≠ h)
    (hown : s.MayCall h' call ∨ ∃ t busy, call = .shutdownCall t busy) :
    Unmoved h s (s.run env h' call) := by
  cases call with
  | engine event =>
    simp only [run]
    split
    · refine ⟨hgone, rfl, fun i hi => hi, fun i p hhost hp => ?_⟩
      have hmay : s.MayCall h' (.engine event) := by
        rcases hown with hmay | ⟨t, busy, hcall⟩
        · exact hmay
        · cases hcall
      exact (step_process_of_ne (w := s.world) hmay hne hhost).trans hp
    · exact ⟨hgone, rfl, fun i hi => hi, fun i p _ hp => hp⟩
  | initializeCall startedAt =>
    simp only [run]
    split
    · exact ⟨hgone, filter_record_of_ne hne, fun i hi => hi, fun i p _ hp => hp⟩
    · exact ⟨hgone, rfl, fun i hi => hi, fun i p _ hp => hp⟩
  | shutdownCall shutdownAt busy =>
    simp only [run]
    split
    · exact ⟨hgone, filter_record_of_ne hne, fun i hi => hi, fun i p _ hp => hp⟩
    · exact ⟨hgone, rfl, fun i hi => hi, fun i p _ hp => hp⟩

/-- A provider that is gone stays so when another one becomes something else, and when it does. -/
theorem Site.Gone.put (hgone : s.Gone h) {old new : SqliteProvider}
    (hget : s.providers[h']? = some old) (hlocked : new.stage.Locked → old.stage.Locked) :
    (s.put h' new).Gone h := by
  obtain ⟨provider, hprovider, hfree⟩ := hgone
  by_cases heq : h' = h
  · subst heq
    have hlt := (List.getElem?_eq_some_iff.mp hget).1
    refine ⟨new, List.getElem?_set_self hlt, fun hheld => hfree ?_⟩
    rw [hget] at hprovider
    exact Option.some.inj hprovider ▸ hlocked hheld
  · exact ⟨provider, (List.getElem?_set_ne heq).trans hprovider, hfree⟩

theorem Site.Gone.stepped (hgone : s.Gone h) (inv : s.Inv) (hstep : Stepped env s s') :
    Unmoved h s s' := by
  obtain ⟨provider, hprovider, hfree⟩ := hgone
  have hlt := (List.getElem?_eq_some_iff.mp hprovider).1
  cases hstep with
  | kept => exact ⟨⟨provider, hprovider, hfree⟩, rfl, fun i hi => hi, fun i p _ hp => hp⟩
  | opened =>
    refine ⟨⟨provider, ?_, hfree⟩, rfl, fun i hi => hi, fun i p _ hp => hp⟩
    exact (List.getElem?_append_left hlt).trans hprovider
  | arrived =>
    refine ⟨⟨provider, hprovider, hfree⟩, rfl, fun i hi => ?_, fun i p _ hp => ?_⟩
    · exact (List.getElem?_append_left (List.getElem?_eq_some_iff.mp hi).1).trans hi
    · exact (List.getElem?_append_left (List.getElem?_eq_some_iff.mp hp).1).trans hp
  | @turned h' old new hget hbecomes =>
    exact ⟨Gone.put ⟨provider, hprovider, hfree⟩ hget hbecomes.locked, rfl, fun i hi => hi,
      fun i p _ hp => hp⟩
  | @performed h' k old call hget hcall hserved =>
    have hne : h' ≠ h := by
      rintro rfl
      rw [hget] at hprovider
      exact hfree (Option.some.inj hprovider ▸ hserved.locked)
    have hput : (s.put h' ⟨stageAfter old.stage call, old.calls.eraseIdx k⟩).Gone h :=
      Gone.put ⟨provider, hprovider, hfree⟩ hget stageAfter_locked
    have hmoved := @run_unmoved env _ h h' call hput hne
      (inv.own h' old hget call (List.mem_of_getElem? hcall))
    exact ⟨hmoved.gone, hmoved.records, hmoved.hosts, hmoved.processes⟩

/-- **What was acknowledged survives**, in runs in which no closing commit joins a unit that another
call is closing: crashes, shutdowns and the providers that take over, in any order, lose nothing of
a mutation that was answered with success. -/
theorem acknowledged_survives_restarts (hlaw : env.automerge.Lawful)
    (h : SiteReachable env (fun w event => ¬ w.JoinsClosing event) userVersion s) {i : ℕ}
    {p : Process} (hp : s.processes[i]? = some p) {result : MutationResult} {prepared : Prepared}
    {resolutions : List WorkUnitResolution}
    (hok : p.stage = .answered (.ok result) (.sent prepared resolutions))
    (hruns : SiteRuns env s s') :
    ((∀ selected, p.admitted.workUnit = some selected → selected.close = true) →
      ∀ v ∈ prepared.commit.newVersions, s'.storage.db.PublishesVersion prepared.commit.key v) ∧
    ∀ selected, p.admitted.workUnit = some selected →
      s'.storage.db.Committed selected.workUnit.identityJson →
        ∀ v ∈ prepared.commit.newVersions,
          s'.storage.db.PublishesVersion prepared.commit.key v := by
  have hlanded := (h.world.landed hlaw i p hp).runs hlaw hruns.world h.world.reachable
  simp only [Process.Landed, hok] at hlanded
  cases hselected : p.admitted.workUnit with
  | none =>
    simp only [hselected] at hlanded
    exact ⟨fun _ => hlanded, fun selected h => by cases h⟩
  | some selected =>
    simp only [hselected] at hlanded
    refine ⟨fun hclose v hv => ?_, fun other hother hcommitted v hv => ?_⟩
    · exact (hlanded.2 v hv).publishes hlaw (hlanded.1 (hclose selected rfl))
    · cases hother
      exact (hlanded.2 v hv).publishes hlaw hcommitted

end Results

/-! ### A crash -/

/-- The site after some events on a new file. -/
def Site.after (env : Environment) (events : List SiteEvent) : Site :=
  events.foldl (fun s event => s.step env event) (Site.start 0)

/-- The note "n" was created. -/
def createdBeforeCrash : List SiteEvent :=
  [.openProvider, .call 0 (.initializeCall 4), .perform 0 0,
    .arrive 0 (createNote .null none false) (readingsAt 5),
    .call 0 (.engine (.advance 0 (clockAt 5))), .perform 0 0,
    .call 0 (.engine (.advance 0 (clockAt 5))), .perform 0 0]

/-- Then its provider crashed, and another one took over. -/
def takeover : List SiteEvent :=
  [.crash 0, .openProvider, .call 1 (.initializeCall 9), .perform 1 0]

theorem Site.after_append (env : Environment) (events : List SiteEvent) (event : SiteEvent) :
    Site.after env (events ++ [event]) = (Site.after env events).step env event := by
  simp only [Site.after, List.foldl_append, List.foldl_cons, List.foldl_nil]

/-- Where the condition held before each of the events. -/
theorem Site.after_reachable {env : Environment} {allowed : World → Event → Prop}
    (events : List SiteEvent)
    (h : ∀ k < events.length, ∀ e, allowed (Site.after env (events.take k)).world e) :
    SiteReachable env allowed 0 (Site.after env events) := by
  induction events using List.reverseRecOn with
  | nil => exact .start
  | append_singleton events event ih =>
    rw [List.length_append, List.length_singleton] at h
    have hbefore : ∀ k < events.length, ∀ e, allowed (Site.after env (events.take k)).world e := by
      intro k hk e
      have := h k (by omega) e
      rwa [List.take_append_of_le_length hk.le] at this
    have hlast := h events.length (by omega)
    rw [List.take_left'] at hlast
    · rw [Site.after_append]
      exact .step event (ih hbefore) fun e _ => hlast e
    · rfl

theorem Site.after_runs (env : Environment) (events later : List SiteEvent) :
    SiteRuns env (Site.after env events) (Site.after env (events ++ later)) := by
  induction later using List.reverseRecOn with
  | nil => rw [List.append_nil]
  | append_singleton later event ih =>
    rw [← List.append_assoc, Site.after_append]
    exact ih.tail ⟨event, rfl⟩

/-- The provider that takes over reports the crash. -/
theorem crash_reported : ∃ before recovery,
    before ++ [.initialized 1 recovery] <+:
      (Site.after noteEnvironment (createdBeforeCrash ++ takeover)).records ∧
    recovery.generation = 2 ∧ recovery.recoveredAfterUncleanShutdown = true := by
  have hreach : SiteReachable noteEnvironment (fun _ _ => True) 0
      (Site.after noteEnvironment (createdBeforeCrash ++ takeover)) :=
    Site.after_reachable _ fun _ _ _ => trivial
  have hprefix : [.initialized 0 ⟨1, false⟩] ++ [.initialized 1 ⟨2, true⟩] <+:
      (Site.after noteEnvironment (createdBeforeCrash ++ takeover)).records := by
    decide
  obtain ⟨hnumber, hreport⟩ := (runs_told_apart hreach).1 _ _ _ hprefix
  exact ⟨_, _, hprefix, hnumber, hreport.mpr ⟨0, ⟨1, false⟩, rfl⟩⟩

/-- The note that was created before the crash is published after it. -/
theorem note_survives_crash : ∃ p result prepared resolutions,
    (Site.after noteEnvironment createdBeforeCrash).processes[0]? = some p ∧
    p.stage = .answered (.ok result) (.sent prepared resolutions) ∧
    prepared.commit.newVersions.map (·.version) = [drawnName 0 (.version 0)] ∧
    ∀ v ∈ prepared.commit.newVersions,
      (Site.after noteEnvironment (createdBeforeCrash ++ takeover)).storage.db.PublishesVersion
        prepared.commit.key v := by
  have hnone : ∀ k < createdBeforeCrash.length,
      ∀ p ∈ (Site.after noteEnvironment (createdBeforeCrash.take k)).processes,
        p.admitted.workUnit = none := by
    decide
  have hreach : SiteReachable noteEnvironment (fun w event => ¬ w.JoinsClosing event) 0
      (Site.after noteEnvironment createdBeforeCrash) := by
    refine Site.after_reachable _ fun k hk e => ?_
    rintro ⟨i, clock, p, prepared, selected, -, hp, -, hselected, -⟩
    rw [hnone k hk p (List.mem_of_getElem? hp)] at hselected
    cases hselected
  obtain ⟨p, result, prepared, resolutions, hp, hok, hnames⟩ : ∃ p result prepared resolutions,
      (Site.after noteEnvironment createdBeforeCrash).processes[0]? = some p ∧
      p.stage = .answered (.ok result) (.sent prepared resolutions) ∧
      prepared.commit.newVersions.map (·.version) = [drawnName 0 (.version 0)] :=
    ⟨_, _, _, _, rfl, rfl, by decide⟩
  have himmediate : ∀ p ∈ (Site.after noteEnvironment createdBeforeCrash).processes,
      p.admitted.workUnit = none := by
    decide
  refine ⟨p, result, prepared, resolutions, hp, hok, hnames, ?_⟩
  exact (acknowledged_survives_restarts
    (show noteEnvironment.automerge.Lawful from noAutomerge_lawful) hreach hp hok
    (Site.after_runs noteEnvironment _ takeover)).1 fun selected hselected => by
      rw [himmediate p (List.mem_of_getElem? hp)] at hselected
      cases hselected

end Patchouli
