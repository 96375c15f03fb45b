import Patchouli.Sqlite.Overlay

/-!
# What a publication records

An immediate commit records one change; the publication of a unit records one for every entity the
unit staged. Either way the change has the heads the entity has from then on, and its kind follows
from the heads before and after and the state of a single new head, by one function for both.

## Main definitions

* `changeKind` — the kind of a change
* `Publication` — what was published, and the changes that record it
* `Quiet` — nothing was published

## Main results

* `Publication.commit`, `Publication.finish` — the two kinds of publication
* `Upkeeps.quiet` — upkeep publishes nothing
-/

namespace Patchouli

open Db Relation

/-- The kind of a change, by the heads before and after and the state of a single new head. -/
def changeKind (before after : List String) (state : StoredVersionState) : StoredChangeKind :=
  if before = [] then .created
  else if 1 < after.length then .conflicted
  else if 1 < before.length then .resolved
  else
    match state with
    | .deleted => .deleted
    | .active => .updated

theorem changeKind_congr {before before' after after' : List String} {state : StoredVersionState}
    (hbefore : before.Perm before') (hafter : after.Perm after') :
    changeKind before after state = changeKind before' after' state := by
  have hnil : before = [] ↔ before' = [] := by
    rw [← List.length_eq_zero_iff, ← List.length_eq_zero_iff, hbefore.length_eq]
  simp only [changeKind, hnil, hbefore.length_eq, hafter.length_eq]

variable {A : Automerge} {K : Known} {db old mid new : Db} {key : EntityKey} {unit : String}

/-- The state of the head, where there is only one. -/
def Db.HeadState (db : Db) (key : EntityKey) (heads : List String) (state : StoredVersionState) :
    Prop :=
  ∀ head, heads = [head] → ∃ r ∈ db.versions, r.key = key ∧ r.version = head ∧ r.state = state

/-- `derive_change_kind` computes the kind of a change. -/
theorem deriveChangeKind_eq {before heads : List String} {kind : StoredChangeKind}
    (hstored : ∀ head ∈ heads, db.HasVersion key head)
    (h : db.deriveChangeKind key before heads = .ok kind) :
    ∃ state, db.HeadState key heads state ∧ kind = changeKind before heads state := by
  cases heads with
  | nil =>
    refine ⟨.active, by simp [HeadState], ?_⟩
    unfold deriveChangeKind at h
    unfold changeKind
    split at h
    · rename_i hnil
      rw [if_pos hnil]
      exact (Except.ok.inj h).symm
    · rename_i hnil
      rw [if_neg hnil]
      simp only [List.length_nil, Nat.not_lt_zero, if_false] at h ⊢
      split at h
      · rename_i hmany
        rw [if_pos hmany]
        exact (Except.ok.inj h).symm
      · cases h
  | cons head rest =>
    cases hrow : db.version? key head with
    | none =>
      obtain ⟨r, hr, hkey, hname⟩ := hstored head List.mem_cons_self
      have hno := List.find?_eq_none.mp hrow r hr
      simp [hkey, hname] at hno
    | some row =>
      have hfound := List.find?_some hrow
      simp only [decide_eq_true_eq] at hfound
      refine ⟨row.state, fun name hname => ?_, ?_⟩
      · obtain ⟨rfl, -⟩ := List.cons.inj hname
        exact ⟨row, List.mem_of_find?_eq_some hrow, hfound.1, hfound.2, rfl⟩
      · unfold deriveChangeKind at h
        unfold changeKind
        simp only [hrow] at h
        split at h
        · rename_i hnil
          rw [if_pos hnil]
          exact (Except.ok.inj h).symm
        · rename_i hnil
          rw [if_neg hnil]
          split at h
          · rename_i hmany
            rw [if_pos hmany]
            exact (Except.ok.inj h).symm
          · rename_i hone
            rw [if_neg hone]
            split at h
            · rename_i hmany
              rw [if_pos hmany]
              exact (Except.ok.inj h).symm
            · rename_i hone'
              rw [if_neg hone']
              cases hstate : row.state <;> simp only [hstate, Except.ok.injEq] at h <;> exact h.symm

/-! ### The entities of a unit -/

/-- A change as the publication of a unit records it: its kind, and the sessions that wrote it. -/
structure RecordedIn (unit : String) (old new : Db) (change : ChangeRow) : Prop where
  kind : ∃ state, old.HeadState change.key change.headVersionsJson state ∧
    change.kind = changeKind (old.publishedHeads change.key) change.headVersionsJson state
  sessions : ∃ e, old.unitEntity? unit change.key = some e ∧
    ∀ keys, e.writeSessionKeysJson = some keys → ∀ session ∈ keys,
      change.cursor ≤ new.writeCursor change.key.scopeJson session

theorem writeCursor_congr (h : new.sessionFrontier = old.sessionFrontier) (scope session : String) :
    new.writeCursor scope session = old.writeCursor scope session := by
  rw [writeCursor, h]
  rfl

/-- The sessions of a change have written at its cursor. -/
theorem Db.Logged.writes {change : ChangeRow} {sessionKeys : List String}
    (h : Logged old new change sessionKeys) :
    (∀ session ∈ sessionKeys, change.cursor ≤ new.writeCursor change.key.scopeJson session) ∧
      ∀ scope session, old.writeCursor scope session ≤ new.writeCursor scope session := by
  have hsame := writeCursor_congr h.sessionFrontier_eq
  refine ⟨fun session hsession => ?_, fun scope session => ?_⟩
  · rw [hsame]
    exact writeCursor_advanceWriteSessions_covers _ _ _ hsession
  · rw [hsame]
    exact writeCursor_le_advanceWriteSessions _ _ _ _ _ _

/-- One turn of the loop of `finish_work_unit_publication`. -/
theorem publishWorkUnitEntity_recorded {recordedAt : ℕ}
    (h : publishWorkUnitEntity unit recordedAt old key = .ok new) :
    ∃ change, change.key = key ∧ Appends old new [change] ∧ RecordedIn unit old new change ∧
      ∀ scope session, old.writeCursor scope session ≤ new.writeCursor scope session := by
  obtain ⟨change, sessionKeys, hkey, -, hrecorded, hlogged⟩ := publishWorkUnitEntity_logged h
  obtain ⟨token, -, -, -, hstored⟩ := publishWorkUnitEntity_spec h
  obtain ⟨e, hentity, -, -, hkeys⟩ := hrecorded.row
  refine ⟨change, hkey, hlogged.appends, ⟨?_, e, hentity, ?_⟩, hlogged.writes.2⟩
  · refine deriveChangeKind_eq (fun head hhead => ?_) hrecorded.kind
    rw [hrecorded.heads, hkey] at hhead
    rw [hkey]
    exact hstored head hhead
  · intro keys hsome session hsession
    rw [hkeys, Option.some.injEq] at hsome
    exact hlogged.writes.1 session (hsome ▸ hsession)

@[simp] theorem publishStaged_state (unit : String) (key : EntityKey) (cursor : ℕ)
    (row : EntityVersionRow) : (publishStaged unit key cursor row).state = row.state := by
  unfold publishStaged
  split <;> rfl

/-- What a turn leaves of the other entities. -/
theorem publishWorkUnitEntity_others {recordedAt : ℕ}
    (h : publishWorkUnitEntity unit recordedAt old key = .ok new) :
    new.unitEntities = old.unitEntities ∧
      (∀ k, k ≠ key → new.publishedHeads k = old.publishedHeads k) ∧
      ∀ k heads state, new.HeadState k heads state ↔ old.HeadState k heads state := by
  obtain ⟨token, -, ⟨_, _, _, _, _, _, _, heq⟩, hpublishes, -⟩ := publishWorkUnitEntity_spec h
  refine ⟨by rw [heq], fun k hne => ?_, fun k heads state => ?_⟩
  · rw [hpublishes.publishedHeads_eq, if_neg hne]
  · have hrows : ∀ (name : String), (∃ r ∈ new.versions, r.key = k ∧ r.version = name ∧
        r.state = state) ↔ ∃ r ∈ old.versions, r.key = k ∧ r.version = name ∧ r.state = state := by
      intro name
      rw [heq]
      simp only [List.mem_map]
      constructor
      · rintro ⟨_, ⟨r, hr, rfl⟩, hkey, hname, hstate⟩
        rw [publishStaged_key] at hkey
        rw [publishStaged_version] at hname
        rw [publishStaged_state] at hstate
        exact ⟨r, hr, hkey, hname, hstate⟩
      · rintro ⟨r, hr, hkey, hname, hstate⟩
        exact ⟨_, ⟨r, hr, rfl⟩, by rwa [publishStaged_key], by rwa [publishStaged_version],
          by rwa [publishStaged_state]⟩
    simp only [HeadState, hrows]

/-- **The loop of `finish_work_unit_publication`** records one change for each entity. -/
theorem foldlM_publishWorkUnitEntity_recorded {recordedAt : ℕ} {keys : List EntityKey}
    (hkeys : keys.Nodup) (h : keys.foldlM (publishWorkUnitEntity unit recordedAt) old = .ok new) :
    ∃ added, Appends old new added ∧ added.map (·.key) = keys ∧
      (∀ c ∈ added, RecordedIn unit old new c) ∧
      (∀ scope session, old.writeCursor scope session ≤ new.writeCursor scope session) ∧
      ∀ k heads state, new.HeadState k heads state ↔ old.HeadState k heads state := by
  induction keys generalizing old with
  | nil =>
    simp only [List.foldlM_nil, Except.pure_eq_ok, Except.ok.injEq] at h
    subst h
    exact ⟨[], .refl _, rfl, by simp, fun _ _ => le_rfl, fun _ _ _ => Iff.rfl⟩
  | cons key keys ih =>
    obtain ⟨hnew, hkeys⟩ := List.nodup_cons.mp hkeys
    obtain ⟨next, hnext, hrest⟩ := Except.foldlM_cons_eq_ok.mp h
    obtain ⟨change, hkey, happend, hrecorded, hwrites⟩ := publishWorkUnitEntity_recorded hnext
    obtain ⟨hentities, hheads, hstates⟩ := publishWorkUnitEntity_others hnext
    obtain ⟨added, hadded, haddedKeys, hall, hwrites', hstates'⟩ := ih hkeys hrest
    refine ⟨[change] ++ added, happend.trans hadded, by simp [hkey, haddedKeys], fun c hc => ?_,
      fun scope session => (hwrites scope session).trans (hwrites' scope session),
      fun k heads state => (hstates' k heads state).trans (hstates k heads state)⟩
    rcases List.mem_append.mp hc with hc | hc
    · rw [List.mem_singleton.mp hc]
      obtain ⟨hkind, e, hentity, hsessions⟩ := hrecorded
      exact ⟨hkind, e, hentity, fun ks hks session hsession =>
        (hsessions ks hks session hsession).trans (hwrites' _ _)⟩
    · obtain ⟨⟨state, hstate, hkind⟩, e, hentity, hsessions⟩ := hall c hc
      have hne : c.key ≠ key := by
        rintro rfl
        exact hnew (haddedKeys ▸ List.mem_map_of_mem hc)
      refine ⟨⟨state, (hstates _ _ _).mp hstate, hheads _ hne ▸ hkind⟩, e, ?_, hsessions⟩
      rw [unitEntity?, ← hentities]
      exact hentity

/-! ### Publications -/

/-- Nothing was published. -/
structure Quiet (old new : Db) : Prop where
  appends : Appends old new []
  heads : new.heads = old.heads
  versions : ∀ r : EntityVersionRow, r.workUnitJson = none → (r ∈ new.versions ↔ r ∈ old.versions)

namespace Quiet

theorem refl (db : Db) : Quiet db db := ⟨.refl db, rfl, fun _ _ => Iff.rfl⟩

theorem trans (h : Quiet old mid) (h' : Quiet mid new) : Quiet old new :=
  ⟨h.appends.trans h'.appends, h'.heads.trans h.heads,
    fun r hr => (h'.versions r hr).trans (h.versions r hr)⟩

theorem of_samePublished (h : SamePublished old new) : Quiet old new :=
  ⟨h.appends, h.heads, h.versions⟩

theorem publishedHeads_eq (h : Quiet old new) (key : EntityKey) :
    new.publishedHeads key = old.publishedHeads key := by
  simp only [publishedHeads, h.heads]

theorem isPublished_iff (h : Quiet old new) (key : EntityKey) (version : String) :
    new.IsPublished key version ↔ old.IsPublished key version := by
  constructor
  · rintro ⟨r, hr, hkey, hversion, hnone⟩
    exact ⟨r, (h.versions r hnone).mp hr, hkey, hversion, hnone⟩
  · rintro ⟨r, hr, hkey, hversion, hnone⟩
    exact ⟨r, (h.versions r hnone).mpr hr, hkey, hversion, hnone⟩

end Quiet

/-- Upkeep leaves what is published. -/
theorem Upkeep.still (inv : Inv A old) (h : Upkeep K old new) :
    new.heads = old.heads ∧ new.changes.Sublist old.changes ∧
      ∀ r : EntityVersionRow, r.workUnitJson = none → (r ∈ new.versions ↔ r ∈ old.versions) := by
  cases h with
  | sessions => exact ⟨rfl, .refl _, fun _ _ => Iff.rfl⟩
  | forget => exact ⟨rfl, .refl _, fun _ _ => Iff.rfl⟩
  | note => exact ⟨rfl, .refl _, fun _ _ => Iff.rfl⟩
  | prune => exact ⟨rfl, List.filter_sublist, fun _ _ => Iff.rfl⟩
  | expire h =>
    have hsame := (h.onlyExpired inv).published
    exact ⟨hsame.heads, hsame.changes ▸ .refl _, hsame.versions⟩
  | openUnit => exact ⟨rfl, .refl _, fun _ _ => Iff.rfl⟩
  | capture _ _ _ h =>
    obtain ⟨_, _, rfl⟩ := captureWorkUnitEntity_eq h
    exact ⟨rfl, .refl _, fun _ _ => Iff.rfl⟩

theorem Upkeeps.still (inv : Inv A old) (h : Upkeeps K old new) :
    new.heads = old.heads ∧ new.changes.Sublist old.changes ∧
      ∀ r : EntityVersionRow, r.workUnitJson = none → (r ∈ new.versions ↔ r ∈ old.versions) := by
  induction h with
  | refl => exact ⟨rfl, .refl _, fun _ _ => Iff.rfl⟩
  | tail hbefore hstep ih =>
    obtain ⟨hheads, hchanges, hversions⟩ := hstep.still (Upkeeps.keeps inv hbefore).1
    exact ⟨hheads.trans ih.1, hchanges.trans ih.2.1,
      fun r hr => (hversions r hr).trans (ih.2.2 r hr)⟩

/-- Upkeep publishes nothing. -/
theorem Upkeep.quiet (inv : Inv A old) (hK : ∀ time, ¬ K.retention time) (h : Upkeep K old new) :
    Quiet old new :=
  have hstill := h.still inv
  ⟨h.appends hK, hstill.1, hstill.2.2⟩

theorem Upkeeps.quiet (inv : Inv A old) (hK : ∀ time, ¬ K.retention time) (h : Upkeeps K old new) :
    Quiet old new := by
  induction h with
  | refl => exact .refl old
  | tail hbefore hstep ih => exact ih.trans (hstep.quiet (Upkeeps.keeps inv hbefore).1 hK)

/-- What was published, and the changes it appended to the log: one for each entity, with the heads
the entity has from then on. -/
structure Publication (old new : Db) (added : List ChangeRow) : Prop where
  appends : Appends old new added
  keys : (added.map (·.key)).Nodup
  published : ∀ key, key ∈ added.map (·.key) ↔
    ∃ version, new.IsPublished key version ∧ ¬ old.IsPublished key version
  others : ∀ key, key ∉ added.map (·.key) → new.publishedHeads key = old.publishedHeads key
  heads : ∀ c ∈ added, c.headVersionsJson.Perm (new.publishedHeads c.key)
  kinds : ∀ c ∈ added, ∃ state, new.HeadState c.key c.headVersionsJson state ∧
    c.kind = changeKind (old.publishedHeads c.key) c.headVersionsJson state

variable {added : List ChangeRow}

/-- Where nothing was published nothing is added. -/
theorem Quiet.publication (h : Quiet old new) : Publication old new [] := by
  refine ⟨h.appends, List.nodup_nil, fun key => ?_, fun key _ => h.publishedHeads_eq key,
    by simp, by simp⟩
  simp [h.isPublished_iff]

namespace Publication

theorem after (h : Publication mid new added) (hquiet : Quiet old mid) :
    Publication old new added := by
  refine ⟨hquiet.appends.trans h.appends, h.keys, fun key => ?_, fun key hkey => ?_, h.heads,
    fun c hc => ?_⟩
  · simp only [h.published, hquiet.isPublished_iff]
  · rw [h.others key hkey, hquiet.publishedHeads_eq]
  · rw [← hquiet.publishedHeads_eq]
    exact h.kinds c hc

/-- What a publication leaves besides versions, heads and changes does not matter. -/
theorem congr (h : Publication old mid added) (hversions : new.versions = mid.versions)
    (hheads : new.heads = mid.heads) (hchanges : new.changes = mid.changes)
    (hhistory : new.headHistory = mid.headHistory)
    (hretention : new.changeRetention = mid.changeRetention) : Publication old new added := by
  have hpublished : ∀ key, new.publishedHeads key = mid.publishedHeads key := fun key => by
    simp only [publishedHeads, hheads]
  refine ⟨⟨hchanges.trans h.appends.changes_eq, hhistory.trans h.appends.headHistory_eq,
    hretention.trans h.appends.changeRetention_eq⟩, h.keys, fun key => ?_, fun key hkey => ?_,
    fun c hc => ?_, fun c hc => ?_⟩
  · rw [h.published]
    simp only [IsPublished, hversions]
  · rw [hpublished, h.others key hkey]
  · rw [hpublished]
    exact h.heads c hc
  · simp only [HeadState, hversions]
    exact h.kinds c hc

/-- **An immediate commit** records one change, of the kind its caller gave it. -/
theorem commit (hlaw : A.Lawful) (inv : Inv A old) {entity : EntityCommit}
    (hformed : entity.WellFormed A)
    (hkind : ∃ state, new.HeadState entity.key entity.headVersions state ∧
      entity.changeKind = changeKind (old.publishedHeads entity.key) entity.headVersions state)
    (h : old.commitEntityInTransaction entity = .ok (.committed, new)) :
    Publication old new [old.commitChange entity] := by
  obtain ⟨-, -, hpublishes, ⟨recordedAt, hversions⟩, -, -, -, hnew, -⟩ :=
    commitEntityInTransaction_spec hlaw inv.crdt hformed.genuine h
  have hrows : ∀ key version, new.IsPublished key version ↔ old.IsPublished key version ∨
      key = entity.key ∧ version ∈ entity.newVersions.map (·.version) := by
    intro key version
    constructor
    · rintro ⟨r, hr, rfl, rfl, hnone⟩
      rw [hversions] at hr
      rcases List.mem_append.mp hr with hr | hr
      · exact Or.inl ⟨r, hr, rfl, rfl, hnone⟩
      · obtain ⟨v, hv, rfl⟩ := List.mem_map.mp hr
        exact Or.inr ⟨rfl, List.mem_map_of_mem hv⟩
    · rintro (⟨r, hr, hkey, hversion, hnone⟩ | ⟨rfl, hversion⟩)
      · exact ⟨r, hversions ▸ List.mem_append_left _ hr, hkey, hversion, hnone⟩
      · obtain ⟨v, hv, rfl⟩ := List.mem_map.mp hversion
        refine ⟨publishedRow (old.lastCursor + 1) (insertedRow entity.key none recordedAt v), ?_, rfl,
          rfl, rfl⟩
        rw [hversions]
        exact List.mem_append_right _ (List.mem_map_of_mem hv)
  have hfresh : ∀ version ∈ entity.newVersions.map (·.version),
      ¬ old.IsPublished entity.key version := by
    rintro version hversion ⟨r, hr, hkey, hname, -⟩
    obtain ⟨v, hv, rfl⟩ := List.mem_map.mp hversion
    exact (hnew v hv).1 ⟨r, hr, hkey, hname⟩
  refine ⟨(commitEntityInTransaction_logged h).appends, by simp, fun key => ?_, fun key hkey => ?_,
    ?_, ?_⟩
  · simp only [List.map_cons, List.map_nil, List.mem_singleton, hrows]
    constructor
    · rintro rfl
      obtain ⟨version, -, hversion⟩ := hformed.new
      exact ⟨version, Or.inr ⟨rfl, hversion⟩, hfresh version hversion⟩
    · rintro ⟨version, hold | ⟨rfl, -⟩, hno⟩
      · exact absurd hold hno
      · rfl
  · rw [hpublishes.publishedHeads_eq, if_neg (by simpa [commitChange] using hkey)]
  · simp only [List.mem_singleton, forall_eq]
    have hheads := hpublishes.publishedHeads_eq entity.key
    rw [if_pos rfl] at hheads
    rw [show (old.commitChange entity).key = entity.key from rfl, hheads]
    exact (Table.sorted_perm _).symm
  · simp only [List.mem_singleton, forall_eq]
    exact hkind

/-- **The publication of a unit** records one change for each entity the unit staged. -/
theorem finish (inv : Inv A old) {row : WorkUnitRow} (hrow : row ∈ old.workUnits)
    (hid : row.identityJson = unit) (hlive : row.Live) {recordedAt : ℕ}
    (h : old.finishWorkUnitPublication unit recordedAt = .ok new) :
    ∃ added, Publication old new added ∧
      added.map (·.key) = old.workUnitMutatedEntities unit ∧
      (∀ c ∈ added, RecordedIn unit old new c) ∧ new.unitEntities = old.unitEntities := by
  subst hid
  obtain ⟨mid, -, hpublished, -, -, -, hmid⟩ := finishWorkUnitPublication_spec inv hrow hlive h
  obtain ⟨last, hloop, _, _, _, hlast⟩ := finishWorkUnitPublication_loop h
  obtain ⟨added, happends, hkeys, hrecorded, -, hstates⟩ :=
    foldlM_publishWorkUnitEntity_recorded (inv.staging.nodup_mutated row.identityJson) hloop
  have hversions : new.versions = mid.versions := by rw [hmid]
  have hheads : ∀ key, new.publishedHeads key = mid.publishedHeads key := fun key => by
    rw [hmid]
    rfl
  have hlastStates : ∀ k heads state, new.HeadState k heads state ↔ last.HeadState k heads state :=
    fun k heads state => by rw [hlast]; rfl
  have hlastWrites : ∀ scope session, new.writeCursor scope session = last.writeCursor scope session :=
    writeCursor_congr (by rw [hlast])
  have hnewAppends : Appends old new added := by
    rw [hlast]
    exact ⟨happends.changes_eq, happends.headHistory_eq, happends.changeRetention_eq⟩
  -- Both accounts of the loop append the same changes.
  have hlisted : added.map (fun c => (c.key, c.headVersionsJson)) =
      (old.workUnitMutatedEntities row.identityJson).map fun key =>
        (key, old.directWorkUnitHeads row.identityJson key) := by
    obtain ⟨added', hchanges, hlisted⟩ := hpublished.changes
    have hsame : old.changes ++ added = old.changes ++ added' := by
      rw [← hchanges, ← hnewAppends.changes_eq, hmid]
    rw [List.append_cancel_left hsame]
    exact hlisted
  have hlistedHeads : ∀ c ∈ added,
      c.headVersionsJson = old.directWorkUnitHeads row.identityJson c.key := by
    intro c hc
    have hmem := List.mem_map_of_mem (f := fun c : ChangeRow => (c.key, c.headVersionsJson)) hc
    rw [hlisted] at hmem
    obtain ⟨key, -, hpair⟩ := List.mem_map.mp hmem
    obtain ⟨rfl, heads⟩ := Prod.mk.inj hpair
    exact heads.symm
  have hmem : ∀ c ∈ added, c.key ∈ old.workUnitMutatedEntities row.identityJson := fun c hc =>
    hkeys ▸ List.mem_map_of_mem hc
  refine ⟨added, ⟨hnewAppends, hkeys ▸ inv.staging.nodup_mutated row.identityJson, fun key => ?_,
    fun key hkey => ?_, fun c hc => ?_, fun c hc => ?_⟩, hkeys, fun c hc => ?_,
    by rw [hmid]; exact hpublished.unitEntities_eq⟩
  · rw [hkeys]
    constructor
    · intro hkey
      obtain ⟨-, head, hhead, hunit, rfl⟩ := mem_workUnitMutatedEntities.mp hkey
      obtain ⟨version, -, r, hr, hrunit, hrkey, rfl⟩ :=
        inv.headsStaged row hrow hlive head hhead hunit
      obtain ⟨cursor, hmoved⟩ := hpublished.published r hr hrunit (hrkey ▸ hkey)
      refine ⟨r.version, ⟨publishedRow cursor r, hversions ▸ hmoved, hrkey, rfl, rfl⟩, fun hold => ?_⟩
      exact inv.not_stagedBy_published hold ⟨r, hr, hrunit, hrkey, rfl⟩
    · rintro ⟨version, ⟨r, hr, rfl, rfl, hnone⟩, hno⟩
      rw [hversions] at hr
      rcases hpublished.from_old r hr with ⟨hold, -⟩ | ⟨r', -, -, hkey, cursor, rfl⟩
      · exact absurd ⟨r, hold, rfl, rfl, hnone⟩ hno
      · exact hkey
  · rw [hkeys] at hkey
    rw [hheads, hpublished.heads, if_neg hkey]
  · rw [hheads, hpublished.heads, if_pos (hmem c hc), hlistedHeads c hc]
  · obtain ⟨⟨state, hstate, hkind⟩, -⟩ := hrecorded c hc
    exact ⟨state, (hlastStates _ _ _).mpr ((hstates _ _ _).mpr hstate), hkind⟩
  · obtain ⟨hkind, e, hentity, hsessions⟩ := hrecorded c hc
    refine ⟨hkind, e, hentity, fun keys hsome session hsession => ?_⟩
    rw [hlastWrites]
    exact hsessions keys hsome session hsession

end Publication

end Patchouli
