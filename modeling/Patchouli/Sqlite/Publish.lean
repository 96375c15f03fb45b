import Patchouli.Sqlite.Calls

/-!
# Publication with resolutions

A unit that met conflicts is published by `publishWorkUnit`: the conflicts are found again, each is
given its resolution, and the unit is published with what the resolutions added to it. A resolution
that was made for other heads ends the call.

## Main definitions

* `Db.ConflictIn` — a conflict as the tables have it
* `Db.ResolvedIn` — the tables after resolutions were applied

## Main results

* `Db.publicationConflicts_spec` — the conflicts of a unit
* `applyResolutions_resolvedIn` — what the loop over the conflicts does
* `WorkUnitPublished.effects` — the effects of a publication
-/

namespace Patchouli

open Db Relation

variable {A : Automerge} {K : Known} {db old new : Db}
  {key : EntityKey} {unit : String} {clock : Clock}

namespace Db

/-! ### Conflicts -/

/-- A conflict as the tables have it. -/
structure ConflictIn (db : Db) (unit : String) (conflict : WorkUnitConflict) : Prop where
  mutated : conflict.key ∈ db.workUnitMutatedEntities unit
  moved : db.publishedHeads conflict.key ≠ db.workUnitBaseHeads unit conflict.key
  baselineHeads_eq : conflict.baselineHeads = db.workUnitBaseHeads unit conflict.key
  staged_eq : db.readWorkUnitSnapshot unit conflict.key = some conflict.staged
  current_eq : conflict.current = db.readEntitySnapshot conflict.key

theorem publicationConflict_spec {found : Option WorkUnitConflict}
    (hkey : key ∈ db.workUnitMutatedEntities unit)
    (h : db.publicationConflict unit key = .ok found) :
    (found = none ∧ db.publishedHeads key = db.workUnitBaseHeads unit key) ∨
      ∃ conflict, found = some conflict ∧ conflict.key = key ∧ db.ConflictIn unit conflict := by
  simp only [publicationConflict] at h
  split at h
  · rename_i heq
    simp only [Except.ok.injEq] at h
    exact Or.inl ⟨h.symm, heq⟩
  · rename_i hmoved
    split at h
    · cases h
    · rename_i staged hstaged
      split at h
      · cases h
      · split at h
        · cases h
        · simp only [Except.ok.injEq] at h
          subst h
          exact Or.inr ⟨_, rfl, rfl, hkey, hmoved, rfl, hstaged, rfl⟩

/-- The conflicts among some mutated entities. -/
theorem mapM_publicationConflict {keys : List EntityKey} {found : List (Option WorkUnitConflict)}
    (hkeys : ∀ key ∈ keys, key ∈ db.workUnitMutatedEntities unit)
    (h : keys.mapM (db.publicationConflict unit) = .ok found) :
    ((found.filterMap id).map (·.key)).Sublist keys ∧
      (∀ conflict ∈ found.filterMap id, db.ConflictIn unit conflict) ∧
      ∀ key ∈ keys, key ∉ (found.filterMap id).map (·.key) →
        db.publishedHeads key = db.workUnitBaseHeads unit key := by
  induction keys generalizing found with
  | nil =>
    simp only [List.mapM_nil, Except.pure_eq_ok, Except.ok.injEq] at h
    subst h
    simp
  | cons key keys ih =>
    rw [List.forall_mem_cons] at hkeys
    rw [List.mapM_cons] at h
    obtain ⟨first, hfirst, h⟩ := Except.bind_eq_ok.mp h
    obtain ⟨rest, hrest, h⟩ := Except.bind_eq_ok.mp h
    simp only [Except.pure_eq_ok, Except.ok.injEq] at h
    subst h
    obtain ⟨hsub, hconflicts, hunmoved⟩ := ih hkeys.2 hrest
    rcases publicationConflict_spec hkeys.1 hfirst with ⟨rfl, heq⟩ | ⟨conflict, rfl, rfl, hin⟩
    · simp only [List.filterMap_cons, id_eq]
      refine ⟨hsub.cons _, hconflicts, ?_⟩
      rw [List.forall_mem_cons]
      exact ⟨fun _ => heq, hunmoved⟩
    · simp only [List.filterMap_cons, id_eq, List.map_cons]
      rw [List.forall_mem_cons, List.forall_mem_cons]
      refine ⟨hsub.cons_cons _, ⟨hin, hconflicts⟩, fun hno => ?_, fun k hk hno => ?_⟩
      · exact absurd List.mem_cons_self hno
      · exact hunmoved k hk fun hmem => hno (List.mem_cons_of_mem _ hmem)

/-- **The conflicts of a unit**: at most one for each mutated entity, and one for each whose
published heads are no longer its baseline. -/
theorem publicationConflicts_spec (inv : StagingInv db) {conflicts : List WorkUnitConflict}
    (h : db.publicationConflicts unit = .ok conflicts) :
    (conflicts.map (·.key)).Nodup ∧ (∀ conflict ∈ conflicts, db.ConflictIn unit conflict) ∧
      ∀ key ∈ db.workUnitMutatedEntities unit, key ∉ conflicts.map (·.key) →
        db.publishedHeads key = db.workUnitBaseHeads unit key := by
  obtain ⟨found, hfound, h⟩ := Except.bind_eq_ok.mp h
  simp only [Except.pure_eq_ok, Except.ok.injEq] at h
  subst h
  obtain ⟨hsub, hrest⟩ := mapM_publicationConflict (fun _ h => h) hfound
  exact ⟨(inv.nodup_mutated unit).sublist hsub, hrest⟩

namespace ConflictIn

variable {conflict : WorkUnitConflict}

theorem currentHeads_eq (h : db.ConflictIn unit conflict) :
    conflict.currentHeads = db.publishedHeads conflict.key := by
  unfold WorkUnitConflict.currentHeads
  rw [h.current_eq]
  unfold readEntitySnapshot
  split
  · rename_i hsome
    split at hsome
    · cases hsome
    · rw [Option.some.injEq] at hsome
      rw [← hsome]
  · rename_i hnone
    split at hnone
    · rename_i hnil
      exact hnil.symm
    · cases hnone

/-- The heads of a mutated entity are the unit's own. -/
theorem directWorkUnitHeads_ne_nil (h : db.ConflictIn unit conflict) :
    db.directWorkUnitHeads unit conflict.key ≠ [] := by
  obtain ⟨-, head, hhead, hid, hkey⟩ := mem_workUnitMutatedEntities.mp h.mutated
  refine List.ne_nil_of_mem (a := head.version) (mem_directWorkUnitHeads.mpr ?_)
  rw [← hid, ← hkey]
  exact hhead

theorem staged_headVersions (h : db.ConflictIn unit conflict) :
    conflict.staged.headVersions = db.directWorkUnitHeads unit conflict.key := by
  have hstaged := h.staged_eq
  unfold readWorkUnitSnapshot at hstaged
  split at hstaged
  · cases hstaged
  · rw [Option.some.injEq] at hstaged
    rw [← hstaged]
    exact if_neg h.directWorkUnitHeads_ne_nil

end ConflictIn

/-! ### Applied resolutions -/

/-- The tables after the conflicts of a unit got their resolutions. -/
structure ResolvedIn (unit : String) (resolutions : List WorkUnitResolution)
    (conflicts : List WorkUnitConflict) (old new : Db) : Prop where
  eq : ∃ added unitHeads crdtChanges crdtParents crdtHeads,
    new = { old with versions := old.versions ++ added, unitHeads, crdtChanges, crdtParents
                     crdtHeads } ∧
    ∀ r ∈ added, ∃ resolution ∈ resolutions, ∃ v ∈ resolution.entity.newVersions, ∃ recordedAt,
      r = insertedRow resolution.entity.key (some unit) recordedAt v
  others : ∀ id k, ¬ (id = unit ∧ k ∈ conflicts.map (·.key)) →
    new.directWorkUnitHeads id k = old.directWorkUnitHeads id k
  heads : ∀ conflict ∈ conflicts, ∃ resolution ∈ resolutions,
    resolution.entity.key = conflict.key ∧
    Table.sorted resolution.expectedPublishedHeads = conflict.currentHeads ∧
    Table.sorted resolution.entity.expectedHeads = conflict.staged.headVersions ∧
    new.directWorkUnitHeads unit conflict.key = Table.sorted resolution.entity.headVersions

/-- The heads of an entity in a unit are listed once. -/
theorem unitHeads_names_nodup {rows : List WorkUnitHeadRow} (hrows : rows.Nodup) (id : String)
    (k : EntityKey) :
    ((rows.filter fun row => row.workUnitJson = id ∧ row.key = k).map (·.version)).Nodup := by
  refine List.Nodup.map_on ?_ (hrows.filter _)
  intro r hr s hs hversion
  simp only [List.mem_filter, decide_eq_true_eq] at hr hs
  obtain ⟨ru, rk, rv⟩ := r
  obtain ⟨su, sk, sv⟩ := s
  simp only [WorkUnitHeadRow.mk.injEq] at hr hs hversion ⊢
  exact ⟨hr.2.1.trans hs.2.1.symm, hr.2.2.trans hs.2.2.symm, hversion⟩

/-- The heads of an entity in a unit after they were replaced. -/
theorem directWorkUnitHeads_replaced {heads : List String} (hnodup : heads.Nodup)
    (inv : StagingInv old) (h : new.unitHeads = (old.unitHeads.filter fun head =>
        ¬ (head.workUnitJson = unit ∧ head.key = key)) ++
      (Table.sorted heads).map fun version => ⟨unit, key, version⟩) (id : String) (k : EntityKey) :
    new.directWorkUnitHeads id k =
      if id = unit ∧ k = key then Table.sorted heads else old.directWorkUnitHeads id k := by
  have hkept : ((old.unitHeads.filter fun head =>
      ¬ (head.workUnitJson = unit ∧ head.key = key)) ++
      (Table.sorted heads).map fun version => (⟨unit, key, version⟩ : WorkUnitHeadRow)).Nodup := by
    rw [List.nodup_append']
    refine ⟨inv.headKeys.filter _, (Table.sorted_nodup hnodup).map fun a b hab => ?_, ?_⟩
    · injection hab
    · intro head hhead hhead'
      obtain ⟨version, -, rfl⟩ := List.mem_map.mp hhead'
      have := (List.mem_filter.mp hhead).2
      simp at this
  split
  · rename_i hsame
    obtain ⟨rfl, rfl⟩ := hsame
    refine Table.sorted_eq_iff.mpr ?_
    rw [h]
    refine (List.perm_ext_iff_of_nodup (unitHeads_names_nodup hkept id k) hnodup).mpr
      fun version => ?_
    simp only [List.mem_map, List.mem_filter, StagingInv.mem_replaced, decide_eq_true_eq]
    constructor
    · rintro ⟨head, ⟨hhead, hid, hk⟩, rfl⟩
      exact (hhead.resolve_left fun hold => hold.2 ⟨hid, hk⟩).2.2
    · exact fun hversion => ⟨⟨id, k, version⟩, ⟨Or.inr ⟨rfl, rfl, hversion⟩, rfl, rfl⟩, rfl⟩
  · rename_i hne
    refine Table.sorted_eq_iff.mpr ?_
    rw [h]
    refine (List.perm_ext_iff_of_nodup (unitHeads_names_nodup hkept id k)
      (unitHeads_names_nodup inv.headKeys id k)).mpr fun version => ?_
    simp only [List.mem_map, List.mem_filter, StagingInv.mem_replaced, decide_eq_true_eq]
    constructor
    · rintro ⟨head, ⟨hhead, hid, hk⟩, rfl⟩
      refine ⟨head, ⟨(hhead.resolve_right fun hnow => hne ?_).1, hid, hk⟩, rfl⟩
      exact ⟨hid.symm.trans hnow.1, hk.symm.trans hnow.2.1⟩
    · rintro ⟨head, ⟨hhead, hid, hk⟩, rfl⟩
      exact ⟨head, ⟨Or.inl ⟨hhead, fun hnow => hne ⟨hid.symm.trans hnow.1, hk.symm.trans hnow.2⟩⟩,
        hid, hk⟩, rfl⟩

end Db

/-- One turn of the loop over the conflicts. -/
theorem applyResolution_effect (hlaw : A.Lawful) (inv : Inv A old) {row : WorkUnitRow}
    (hrow : row ∈ old.workUnits) (hid : row.identityJson = unit) (hclosing : row.state = .closing)
    {resolution : WorkUnitResolution} {mid : Db} {recordedAt : ℕ}
    (hformed : resolution.WellFormed A)
    (hadded : ∀ v ∈ resolution.entity.newVersions, K.version key v)
    (hstaged : Table.sorted resolution.entity.expectedHeads = old.directWorkUnitHeads unit key)
    (hcurrent : Table.sorted resolution.expectedPublishedHeads = old.publishedHeads key)
    (hmutated : old.directWorkUnitHeads unit key ≠ [])
    (hinsert : old.insertEntityVersions key resolution.entity.newVersions (some unit) recordedAt =
      .ok mid)
    (hreplace : mid.replaceWorkUnitHeads unit key resolution.entity.headVersions = .ok new) :
    Effect A K old new ∧ ∃ crdtChanges crdtParents crdtHeads, new = { old with
      versions := old.versions ++ resolution.entity.newVersions.map
        (insertedRow key (some unit) recordedAt)
      unitHeads := (old.unitHeads.filter fun head =>
          ¬ (head.workUnitJson = unit ∧ head.key = key)) ++
        (Table.sorted resolution.entity.headVersions).map fun version => ⟨unit, key, version⟩
      crdtChanges, crdtParents, crdtHeads } ∧ resolution.entity.headVersions.Nodup := by
  obtain ⟨⟨crdtChanges, crdtParents, crdtHeads, heq⟩, hnodup, -⟩ :=
    stage_spec hlaw inv.crdt hformed.genuine hinsert hreplace
  refine ⟨?_, crdtChanges, crdtParents, crdtHeads, heq, hnodup⟩
  subst hid
  have hexpected : ∀ version, version ∈ resolution.entity.expectedHeads ↔
      version ∈ old.directWorkUnitHeads row.identityJson key := by
    intro version
    rw [← hstaged, Table.mem_sorted]
  refine .resolve hrow hclosing (fun version hversion => ?_) ?_ hformed.genuine hadded hinsert
    hreplace
  · rcases hformed.heads version hversion with hname | hexp | hpub
    · exact Or.inl hname
    · exact Or.inr (Or.inl ((hexpected version).mp hexp))
    · refine Or.inr (Or.inr ?_)
      rw [← hcurrent]
      exact Table.mem_sorted.mpr hpub
  · rcases hformed.keeps with ⟨version, hversion, hname⟩ | hkeeps
    · exact ⟨version, hversion, Or.inl hname⟩
    · obtain ⟨some, hsome⟩ := List.exists_mem_of_ne_nil _ hmutated
      obtain ⟨version, hmem, hown⟩ := inv.headsStaged row hrow (Or.inr hclosing) _
        (mem_directWorkUnitHeads.mp hsome) rfl
      exact ⟨version, hkeeps version ((hexpected version).mpr (mem_directWorkUnitHeads.mpr hmem)),
        Or.inr hown⟩

/-- **The loop over the conflicts** gives each its resolution. -/
theorem applyResolutions_resolvedIn (hlaw : A.Lawful) {publish : WorkUnitPublish}
    {all conflicts : List WorkUnitConflict} (inv : Inv A old) {row : WorkUnitRow}
    (hrow : row ∈ old.workUnits) (hid : row.identityJson = publish.workUnit.identityJson)
    (hclosing : row.state = .closing)
    (hformed : ∀ r ∈ publish.resolutions, r.WellFormed A)
    (hadded : ∀ r ∈ publish.resolutions, ∀ v ∈ r.entity.newVersions, K.version r.entity.key v)
    (hnodup : (conflicts.map (·.key)).Nodup)
    (hconflicts : ∀ conflict ∈ conflicts,
      conflict.staged.headVersions =
        old.directWorkUnitHeads publish.workUnit.identityJson conflict.key ∧
      conflict.currentHeads = old.publishedHeads conflict.key ∧
      old.directWorkUnitHeads publish.workUnit.identityJson conflict.key ≠ [])
    (h : applyResolutions publish all conflicts old = .ok (.ok new)) :
    Effects A K old new ∧
      ResolvedIn publish.workUnit.identityJson publish.resolutions conflicts old new := by
  induction conflicts generalizing old with
  | nil =>
    simp only [applyResolutions, Except.ok.injEq] at h
    subst h
    exact ⟨.refl, ⟨⟨[], _, _, _, _, by simp; rfl, by simp⟩, fun _ _ _ => rfl, by simp⟩⟩
  | cons conflict rest ih =>
    rw [List.map_cons, List.nodup_cons] at hnodup
    rw [List.forall_mem_cons] at hconflicts
    obtain ⟨⟨hstaged, hcurrent, hmutated⟩, hrest⟩ := hconflicts
    unfold applyResolutions at h
    split at h
    · cases h
    · rename_i resolution hfound
      have hmem := List.mem_of_find?_eq_some hfound
      have hkey : resolution.entity.key = conflict.key := by simpa using List.find?_some hfound
      split at h
      · cases h
      · rename_i hpublishedHeads
        split at h
        · cases h
        · rename_i hstagedHeads
          rw [not_not] at hpublishedHeads hstagedHeads
          split at h
          · cases h
          · obtain ⟨recordedAt, -, h⟩ := Except.bind_eq_ok.mp h
            obtain ⟨inserted, hinsert, h⟩ := Except.bind_eq_ok.mp h
            obtain ⟨next, hreplace, h⟩ := Except.bind_eq_ok.mp h
            obtain ⟨hstep, crdtChanges, crdtParents, crdtHeads, heq, hheadsNodup⟩ :=
              applyResolution_effect hlaw inv hrow hid hclosing (hformed _ hmem)
                (fun v hv => hkey ▸ hadded _ hmem v hv) (hstagedHeads.trans hstaged)
                (hpublishedHeads.trans hcurrent) hmutated hinsert hreplace
            have hinv := (hstep.keeps hlaw inv).1
            have hdirect : ∀ id k, next.directWorkUnitHeads id k = _ :=
              directWorkUnitHeads_replaced hheadsNodup inv.staging (by rw [heq])
            have hpublished : ∀ k, next.publishedHeads k = old.publishedHeads k := by
              intro k
              rw [heq]
              rfl
            have hother : ∀ c ∈ rest, c.key ≠ conflict.key := by
              intro c hc hsame
              exact hnodup.1 (hsame ▸ List.mem_map_of_mem hc)
            obtain ⟨heffects, hresolved⟩ := ih hinv (by rw [heq]; exact hrow) hnodup.2
              (fun c hc => by
                rw [hdirect, if_neg fun hsame => hother c hc hsame.2, hpublished]
                exact hrest c hc) h
            refine ⟨.head hstep heffects, ?_, ?_, ?_⟩
            · obtain ⟨added, unitHeads, changes, parents, heads, hnew, hrows⟩ := hresolved.eq
              refine ⟨resolution.entity.newVersions.map
                (insertedRow conflict.key (some publish.workUnit.identityJson) recordedAt) ++ added,
                unitHeads, changes, parents, heads, ?_, ?_⟩
              · rw [hnew, heq]
                simp only [List.append_assoc]
              · intro r hr
                rcases List.mem_append.mp hr with hr | hr
                · obtain ⟨v, hv, rfl⟩ := List.mem_map.mp hr
                  exact ⟨resolution, hmem, v, hv, recordedAt, by rw [hkey]⟩
                · exact hrows r hr
            · intro id k hno
              rw [hresolved.others id k fun hsame => hno ⟨hsame.1, List.mem_cons_of_mem _ hsame.2⟩,
                hdirect, if_neg fun hsame => hno ⟨hsame.1, by simp [hsame.2]⟩]
            · rw [List.forall_mem_cons]
              refine ⟨⟨resolution, hmem, hkey, hpublishedHeads, hstagedHeads, ?_⟩, hresolved.heads⟩
              rw [hresolved.others _ _ fun hsame => hnodup.1 hsame.2, hdirect, if_pos ⟨rfl, rfl⟩]

/-- The resolutions of a publication fit its conflicts. -/
theorem publishing_resolvedIn (hlaw : A.Lawful) (inv : Inv A old) {publish : WorkUnitPublish}
    {conflicts : List WorkUnitConflict}
    (hensured : Ensured old publish.workUnit .closing old)
    (hformed : ∀ r ∈ publish.resolutions, r.WellFormed A)
    (hadded : ∀ r ∈ publish.resolutions, ∀ v ∈ r.entity.newVersions, K.version r.entity.key v)
    (hconflicts : old.publicationConflicts publish.workUnit.identityJson = .ok conflicts)
    (h : applyResolutions publish conflicts conflicts old = .ok (.ok new)) :
    Effects A K old new ∧
      ResolvedIn publish.workUnit.identityJson publish.resolutions conflicts old new := by
  obtain ⟨u, hu, hid, hclosing⟩ := hensured.closing_unit
  obtain ⟨hnodup, hin, -⟩ := publicationConflicts_spec inv.staging hconflicts
  exact applyResolutions_resolvedIn hlaw inv hu hid hclosing hformed hadded hnodup
    (fun c hc => ⟨(hin c hc).staged_headVersions, (hin c hc).currentHeads_eq,
      (hin c hc).directWorkUnitHeads_ne_nil⟩) h

/-- **The effects of a publication.** -/
theorem WorkUnitPublished.effects (hlaw : A.Lawful) (inv : Inv A old) {publish : WorkUnitPublish}
    {outcome : Except ProviderError WorkUnitCommitOutcome}
    (hformed : ∀ r ∈ publish.resolutions, r.WellFormed A)
    (hadded : ∀ r ∈ publish.resolutions, ∀ v ∈ r.entity.newVersions, K.version r.entity.key v)
    (h : WorkUnitPublished clock publish old outcome new) : Effects A K old new := by
  cases h with
  | refused h => exact (Expiries.upkeeps K h).effects
  | published hswept hensured hconflicts _ happly hfinish =>
    have hinv := (hswept.expiries.keeps inv).1
    obtain ⟨heffects, hresolved⟩ :=
      publishing_resolvedIn hlaw hinv hensured hformed hadded hconflicts happly
    obtain ⟨u, hu, hid, hclosing⟩ := hensured.closing_unit
    obtain ⟨_, _, _, _, _, heq, -⟩ := hresolved.eq
    rw [← hid] at hfinish
    refine (Expiries.upkeeps K hswept.expiries).effects.trans
      (heffects.tail (.publish ?_ hclosing hfinish))
    rw [heq]
    exact hu

end Patchouli
