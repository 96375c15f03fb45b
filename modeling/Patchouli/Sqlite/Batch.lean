import Patchouli.Sqlite.Closing
import Patchouli.Sqlite.Publish

/-!
# The calls that publish a unit

What a commit in a unit, or a publication with resolutions, does as seen by the change log: nothing,
or it closes the unit, and it may go on to publish it; or it publishes a unit that another call
closed. In each case the changes it appends are those of one publication, and the entity of the
mutation that closed the unit comes last.

## Main definitions

* `BatchStep` — what a call does to a unit, as the change log sees it

## Main results

* `WorkUnitCommitted.batchStep`, `WorkUnitPublished.batchStep` — the two calls
* `BatchStep.publication` — what they publish
-/

namespace Patchouli

open Db

variable {A : Automerge} {K : Known} {old mid new : Db} {key : EntityKey} {unit : String}
  {clock : Clock}

/-- The unit was closed, and has not expired since. -/
def Db.Settled (db : Db) (unit : String) : Prop :=
  ∃ u ∈ db.workUnits, u.identityJson = unit ∧ (u.state = .closing ∨ u.state = .committed)

/-- The unit is published. -/
def Db.Committed (db : Db) (unit : String) : Prop :=
  ∃ u ∈ db.workUnits, u.identityJson = unit ∧ u.state = .committed

instance (db : Db) (unit : String) : Decidable (db.Settled unit) :=
  inferInstanceAs (Decidable (∃ u ∈ db.workUnits, u.identityJson = unit ∧
    (u.state = .closing ∨ u.state = .committed)))

instance (db : Db) (unit : String) : Decidable (db.Committed unit) :=
  inferInstanceAs (Decidable (∃ u ∈ db.workUnits, u.identityJson = unit ∧ u.state = .committed))

theorem Db.Committed.settled (h : new.Committed unit) : new.Settled unit := by
  obtain ⟨u, hu, hid, hstate⟩ := h
  exact ⟨u, hu, hid, Or.inr hstate⟩

/-- No unit is closed or published, but for those of a set. -/
def NoneSettled (except : String → Prop) (old new : Db) : Prop :=
  ∀ u ∈ new.workUnits, u.state = .closing ∨ u.state = .committed → ¬ except u.identityJson →
    u ∈ old.workUnits

theorem NoneSettled.refl (except : String → Prop) (db : Db) : NoneSettled except db db :=
  fun _ hu _ _ => hu

theorem NoneSettled.of_eq {except : String → Prop} (h : new.workUnits = old.workUnits) :
    NoneSettled except old new :=
  fun _ hu _ _ => h ▸ hu

theorem NoneSettled.trans {except : String → Prop} (h : NoneSettled except old mid)
    (h' : NoneSettled except mid new) : NoneSettled except old new :=
  fun u hu hsettled hnot => h u (h' u hu hsettled hnot) hsettled hnot

/-- Upkeep closes no unit. -/
theorem Upkeep.noneSettled (except : String → Prop) (h : Upkeep K old new) :
    NoneSettled except old new := by
  cases h with
  | sessions => exact .refl _ _
  | forget => exact .refl _ _
  | note => exact .refl _ _
  | prune => exact .refl _ _
  | expire h =>
    obtain ⟨-, -, -, h⟩ := h
    obtain ⟨rfl, -⟩ := expireWorkUnit_spec h
    intro u hu hsettled _
    obtain ⟨u', hu', rfl⟩ := List.mem_map.mp hu
    split at hsettled
    · rcases hsettled with hno | hno <;> cases hno
    · rename_i hother
      rwa [if_neg hother]
  | openUnit =>
    intro u hu hsettled _
    rcases List.mem_append.mp hu with hu | hu
    · exact hu
    · rw [List.mem_singleton.mp hu] at hsettled
      rcases hsettled with hno | hno <;> cases hno
  | capture _ _ _ h =>
    obtain ⟨_, _, rfl⟩ := captureWorkUnitEntity_eq h
    exact .refl _ _

theorem Upkeeps.noneSettled (except : String → Prop) (h : Upkeeps K old new) :
    NoneSettled except old new := by
  induction h with
  | refl => exact .refl _ _
  | tail _ hstep ih => exact ih.trans (hstep.noneSettled except)

/-- A publication commits its unit and leaves the others. -/
theorem finishWorkUnitPublication_noneSettled (inv : Inv A old) {row : WorkUnitRow}
    (hrow : row ∈ old.workUnits) (hid : row.identityJson = unit) (hlive : row.Live)
    {recordedAt : ℕ} (h : old.finishWorkUnitPublication unit recordedAt = .ok new) :
    NoneSettled (· = unit) old new := by
  subst hid
  obtain ⟨mid, -, hpublished, -, -, -, rfl⟩ := finishWorkUnitPublication_spec inv hrow hlive h
  intro u hu _ hnot
  obtain ⟨u', hu', rfl⟩ := List.mem_map.mp hu
  split at hnot
  · exact absurd ‹_› hnot
  · rename_i hother
    rw [if_neg hother, ← hpublished.workUnits_eq]
    exact hu'

/-- Closing a unit closes no other. -/
theorem markClosing_noneSettled (db : Db) (unit : String) :
    NoneSettled (· = unit) db (db.markClosing unit) := by
  intro u hu _ hnot
  obtain ⟨u', hu', rfl⟩ := List.mem_map.mp hu
  split at hnot
  · rename_i hmine
    exact absurd hmine.1 hnot
  · rename_i hother
    rwa [if_neg hother]

/-- What a call does to a unit, as the change log sees it. -/
inductive BatchStep (A : Automerge) (unit : String) (key : EntityKey) (old new : Db) : Prop
  | quiet (hquiet : Quiet old new) (hunits : NoneSettled (fun _ => False) old new)
  | closes {mid : Db} (hquiet : Quiet old mid) (inv : Inv A mid) (hopen : ¬ old.Settled unit)
    (hclosed : mid.ClosedWith unit key) (hunits : NoneSettled (· = unit) old mid)
    (h : new = mid ∨ ∃ recordedAt, mid.finishWorkUnitPublication unit recordedAt = .ok new)
  | publishes {mid : Db} {recordedAt : ℕ} (hquiet : Quiet old mid) (inv : Inv A mid)
    (hclosing : ∃ u ∈ mid.workUnits, u.identityJson = unit ∧ u.state = .closing)
    (hkeeps : ∀ k, old.ClosedWith unit k → mid.ClosedWith unit k)
    (hunits : NoneSettled (fun _ => False) old mid)
    (h : mid.finishWorkUnitPublication unit recordedAt = .ok new)

namespace BatchStep

/-- A unit that is closing is not published by what leaves it alone. -/
theorem not_committed (inv : StagingInv old) {except : String → Prop}
    (hunits : NoneSettled except old new) {id : String} (hid : ¬ except id)
    (hclosing : ∃ u ∈ old.workUnits, u.identityJson = id ∧ u.state = .closing) :
    ¬ new.Committed id := by
  rintro ⟨u, hu, rfl, hcommitted⟩
  obtain ⟨u', hu', hid', hclosing⟩ := hclosing
  have hsame := inv.unit_eq (hunits u hu (Or.inr hcommitted) hid) hu' hid'.symm
  rw [hsame, hclosing] at hcommitted
  cases hcommitted

theorem not_settled {except : String → Prop} (hunits : NoneSettled except old new) {id : String}
    (hid : ¬ except id) (hopen : ¬ old.Settled id) : ¬ new.Settled id := by
  rintro ⟨u, hu, rfl, hsettled⟩
  exact hopen ⟨u, hunits u hu hsettled hid, rfl, hsettled⟩

/-- The sessions that the staged mutations of a published unit named have written at the cursors of
its changes. -/
def WritesSessions (old new : Db) (added : List ChangeRow) : Prop :=
  ∀ id, ¬ old.Committed id → new.Committed id → ∀ c ∈ added, ∀ e keys,
    new.unitEntity? id c.key = some e → e.writeSessionKeysJson = some keys →
      ∀ session ∈ keys, c.cursor ≤ new.writeCursor c.key.scopeJson session

/-- A publication advances the sessions of the unit it commits. -/
theorem finish_writesSessions {mid : Db} (hunits : NoneSettled (· = unit) old new)
    {added : List ChangeRow} (hrecorded : ∀ c ∈ added, RecordedIn unit mid new c)
    (hentities : new.unitEntities = mid.unitEntities) : WritesSessions old new added := by
  intro id hbefore hafter c hc e keys hentity hkeys session hsession
  by_cases hsame : id = unit
  · subst hsame
    obtain ⟨-, e', hentity', hsessions⟩ := hrecorded c hc
    rw [unitEntity?, hentities] at hentity
    obtain rfl := Option.some.inj (hentity'.symm.trans hentity)
    exact hsessions keys hkeys session hsession
  · obtain ⟨u, hu, rfl, hcommitted⟩ := hafter
    exact absurd ⟨u, hunits u hu (Or.inr hcommitted) hsame, rfl, hcommitted⟩ hbefore

/-- **What a call publishes** is one publication; the entity of the mutation that closed the unit
comes last. -/
theorem publication (inv : Inv A old) (h : BatchStep A unit key old new) :
    ∃ added, Publication old new added ∧ WritesSessions old new added ∧
      ∀ id k, new.Committed id → (old.ClosedWith id k ∨ ¬ old.Settled id ∧ k = key) →
        (added.getLast?.map (·.key)) = some k := by
  have hends : ∀ {added : List ChangeRow} {mid : Db} {k : EntityKey}, Inv A mid →
      mid.ClosedWith unit k → added.map (·.key) = mid.workUnitMutatedEntities unit →
      (added.getLast?.map (·.key)) = some k := by
    intro added mid k inv' hclosed hkeys
    rw [← List.getLast?_map, hkeys]
    exact hclosed.last inv'.staging
  cases h with
  | quiet hquiet hunits =>
    refine ⟨[], hquiet.publication, fun _ _ _ _ hc => by simp at hc,
      fun id k hcommitted hk => ?_⟩
    rcases hk with hclosed | ⟨hopen, -⟩
    · exact absurd hcommitted (not_committed inv.staging hunits not_false hclosed.closing)
    · exact absurd hcommitted.settled (not_settled hunits not_false hopen)
  | @closes mid hquiet inv' hopen hclosed hunits h =>
    obtain ⟨u, hu, hid, hclosing⟩ := hclosed.closing
    rcases h with rfl | ⟨recordedAt, hfinish⟩
    · refine ⟨[], hquiet.publication, fun _ _ _ _ hc => by simp at hc,
        fun id k hcommitted hk => ?_⟩
      by_cases hsame : id = unit
      · subst hsame
        exact absurd hcommitted (not_committed inv'.staging (.refl (fun _ => False) new)
          not_false hclosed.closing)
      · rcases hk with hclosed | ⟨hopen, -⟩
        · exact absurd hcommitted (not_committed inv.staging hunits hsame hclosed.closing)
        · exact absurd hcommitted.settled (not_settled hunits hsame hopen)
    · obtain ⟨added, hpublication, hkeys, hrecorded, hentities⟩ :=
        Publication.finish inv' hu hid (Or.inr hclosing) hfinish
      have hunits' := hunits.trans
        (finishWorkUnitPublication_noneSettled inv' hu hid (Or.inr hclosing) hfinish)
      refine ⟨added, hpublication.after hquiet,
        finish_writesSessions hunits' hrecorded hentities, fun id k hcommitted hk => ?_⟩
      by_cases hsame : id = unit
      · subst hsame
        rcases hk with hwas | ⟨-, rfl⟩
        · obtain ⟨v, hv, hvid, hvstate⟩ := hwas.closing
          exact absurd ⟨v, hv, hvid, Or.inl hvstate⟩ hopen
        · exact hends inv' hclosed hkeys
      · rcases hk with hclosed | ⟨hopen, -⟩
        · exact absurd hcommitted (not_committed inv.staging hunits' hsame hclosed.closing)
        · exact absurd hcommitted.settled (not_settled hunits' hsame hopen)
  | @publishes mid recordedAt hquiet inv' hclosing hkeeps hunits h =>
    obtain ⟨u, hu, hid, hstate⟩ := hclosing
    obtain ⟨added, hpublication, hkeys, hrecorded, hentities⟩ :=
      Publication.finish inv' hu hid (Or.inr hstate) h
    have hunits' := NoneSettled.trans (fun v hv hsettled _ => hunits v hv hsettled not_false)
      (finishWorkUnitPublication_noneSettled inv' hu hid (Or.inr hstate) h)
    refine ⟨added, hpublication.after hquiet,
      finish_writesSessions hunits' hrecorded hentities, fun id k hcommitted hk => ?_⟩
    by_cases hsame : id = unit
    · subst hsame
      rcases hk with hclosed | ⟨hopen, -⟩
      · exact hends inv' (hkeeps k hclosed) hkeys
      · exact absurd ⟨u, hunits u hu (Or.inl hstate) not_false, hid, Or.inl hstate⟩ hopen
    · rcases hk with hclosed | ⟨hopen, -⟩
      · exact absurd hcommitted (not_committed inv.staging hunits' hsame hclosed.closing)
      · exact absurd hcommitted.settled (not_settled hunits' hsame hopen)

/-- **What closes a unit** is a mutation of the entity its publication will end with. -/
theorem closes_unit (h : BatchStep A unit key old new) {id : String}
    (hopen : ¬ old.Settled id) (hsettled : new.Settled id) :
    id = unit ∧ (new.ClosedWith id key ∨ new.Committed id) := by
  cases h with
  | quiet hquiet hunits => exact absurd hsettled (not_settled hunits not_false hopen)
  | @closes mid hquiet inv' _ hclosed hunits h =>
    obtain ⟨u, hu, hid, hclosing⟩ := hclosed.closing
    have hnone : NoneSettled (· = unit) old new := by
      rcases h with rfl | ⟨recordedAt, hfinish⟩
      · exact hunits
      · exact hunits.trans
          (finishWorkUnitPublication_noneSettled inv' hu hid (Or.inr hclosing) hfinish)
    by_cases hsame : id = unit
    · subst hsame
      refine ⟨rfl, ?_⟩
      rcases h with rfl | ⟨recordedAt, hfinish⟩
      · exact Or.inl hclosed
      · right
        subst hid
        obtain ⟨mid', -, hpublished, -, -, -, rfl⟩ :=
          finishWorkUnitPublication_spec inv' hu (Or.inr hclosing) hfinish
        refine ⟨_, List.mem_map.mpr ⟨u, hpublished.workUnits_eq ▸ hu, rfl⟩, ?_, ?_⟩ <;>
          rw [if_pos rfl]
    · exact absurd hsettled (not_settled hnone hsame hopen)
  | @publishes mid recordedAt hquiet inv' hclosing hkeeps hunits h =>
    obtain ⟨u, hu, hid, hstate⟩ := hclosing
    have hnone := NoneSettled.trans (fun v hv hsettled _ => hunits v hv hsettled not_false)
      (finishWorkUnitPublication_noneSettled inv' hu hid (Or.inr hstate) h)
    by_cases hsame : id = unit
    · subst hsame
      exact absurd ⟨u, hunits u hu (Or.inl hstate) not_false, hid, Or.inl hstate⟩ hopen
    · exact absurd hsettled (not_settled hnone hsame hopen)

end BatchStep

/-! ### The two calls -/

/-- What is staged is not published. -/
theorem StagedIn.quiet (inv : Inv A old) {base : Db} {entity : WorkUnitCommit}
    (hensured : Ensured old entity.workUnit .opened base) (h : StagedIn entity base new) :
    Quiet old new := by
  obtain ⟨forgotten, hforgotten, honly⟩ := h.onlyUnit_ensured hensured
  refine .trans ?_ (.of_samePublished honly.published)
  rcases hforgotten with rfl | hforget
  · exact .refl forgotten
  · exact (deleteOverdueIdempotency_upkeep (K := Known.nothing) hforget).quiet inv fun _ h => h

/-- An open unit was not closed before. -/
theorem Upkeeps.not_settled (inv : Inv A old) (h : Upkeeps K old new)
    (hopen : ∃ u ∈ new.workUnits, u.identityJson = unit ∧ u.state = .opened) :
    ¬ old.Settled unit := by
  rintro ⟨u, hu, hid, hsettled⟩
  obtain ⟨v, hv, hvid, hvopen⟩ := hopen
  obtain ⟨inv', hext⟩ := Upkeeps.keeps inv h
  obtain ⟨u', hu', hev⟩ := hext.units u hu
  obtain rfl := inv'.staging.unit_eq hv hu'
    (hvid.trans (hid.symm.trans hev.identityJson.symm))
  rcases hev.state with heq | hwas | ⟨-, hno⟩
  · rcases hsettled with h | h <;> rw [← heq, hvopen] at h <;> cases h
  · rcases hsettled with h | h <;> rw [hwas] at h <;> cases h
  · exact hno hvopen

/-- **A commit in a unit**, as the change log sees it. -/
theorem WorkUnitCommitted.batchStep (hlaw : A.Lawful) (inv : Inv A old) (hold : Unmarked old)
    {entity : WorkUnitCommit} {outcome : Except ProviderError WorkUnitCommitOutcome}
    (hformed : entity.entity.WellFormed A)
    (hscope : entity.workUnit.scopeJson = entity.entity.key.scopeJson)
    (h : WorkUnitCommitted clock entity old outcome new) :
    BatchStep A entity.workUnit.identityJson entity.entity.key old new ∧ Unmarked new := by
  let K : Known := ⟨fun _ _ => True, fun _ => True, fun _ => False⟩
  have hupkeep : ∀ {mid : Db}, Upkeeps K old mid →
      BatchStep A entity.workUnit.identityJson entity.entity.key old mid ∧ Unmarked mid :=
    fun h => ⟨.quiet (Upkeeps.quiet inv (fun _ h => h) h) (Upkeeps.noneSettled _ h),
      Upkeeps.unmarked inv hold h⟩
  cases h with
  | failed h => exact hupkeep (Expiries.upkeeps K h)
  | refused h => exact hupkeep (Expiries.upkeeps K h)
  | @staged swept base _ hswept hensured hstaged hclose =>
    have hsweep := Expiries.upkeeps K hswept.expiries
    have inv' := (Upkeeps.keeps inv hsweep).1
    have hbase : Upkeeps K old base := hsweep.trans (hensured.upkeeps trivial)
    have inv'' := (Upkeeps.keeps inv hbase).1
    obtain ⟨_, _, _, _, _, _, _, _, heq⟩ := hstaged.eq hlaw inv'' hformed hscope
    refine ⟨.quiet ((Upkeeps.quiet inv (fun _ h => h) hsweep).trans (hstaged.quiet inv' hensured))
      ((Upkeeps.noneSettled _ hbase).trans (.of_eq (by rw [heq]))), ?_⟩
    exact hstaged.unmarked hlaw inv'' (Upkeeps.unmarked inv hold hbase) hformed hscope hclose
  | @closed swept base staged _ _ hswept hensured hstaged hclose h =>
    have hsweep := Expiries.upkeeps K hswept.expiries
    have inv' := (Upkeeps.keeps inv hsweep).1
    have hbase : Upkeeps K old base := hsweep.trans (hensured.upkeeps trivial)
    have inv'' := (Upkeeps.keeps inv hbase).1
    obtain ⟨_, _, _, _, _, _, _, _, heq⟩ := hstaged.eq hlaw inv'' hformed hscope
    obtain ⟨hclosed, hunmarked⟩ := hstaged.closedWith hlaw inv'' (Upkeeps.unmarked inv hold hbase)
      hformed hscope hclose
    have hstage : Effects A K base staged :=
      hstaged.effects hlaw inv'' hformed (fun _ _ => trivial) hscope
    have hmarked := (Effects.keeps hlaw inv''
      (hstage.tail (.close _ entity.workUnit.identityJson))).1
    have hquiet := ((Upkeeps.quiet inv (fun _ h => h) hsweep).trans
      (hstaged.quiet inv' hensured)).trans
        (.of_samePublished (markClosing_onlyUnit staged entity.workUnit.identityJson).published)
    have hopen := Upkeeps.not_settled inv hbase
      (hensured.open_unit.imp fun u hu => ⟨hu.1, hu.2.1, hu.2.2.2.1⟩)
    have hunits : NoneSettled (· = entity.workUnit.identityJson) old
        (staged.markClosing entity.workUnit.identityJson) :=
      ((Upkeeps.noneSettled _ hbase).trans (.of_eq (by rw [heq]))).trans (markClosing_noneSettled _ _)
    cases h with
    | published hnone h =>
      obtain ⟨u, hu, hid, hclosing⟩ := hclosed.closing
      exact ⟨.closes hquiet hmarked hopen hclosed hunits (Or.inr ⟨_, h⟩),
        finishWorkUnitPublication_unmarked hmarked hunmarked hu hid (Or.inr hclosing) h⟩
    | reported => exact ⟨.closes hquiet hmarked hopen hclosed hunits (Or.inl rfl), hunmarked⟩
  | @joined swept _ _ hswept hensured hclose h =>
    have hsweep := Expiries.upkeeps K hswept.expiries
    have inv' := (Upkeeps.keeps inv hsweep).1
    cases h with
    | reported => exact hupkeep hsweep
    | published hnone h =>
      obtain ⟨u, hu, hid, hclosing⟩ := hensured.closing_unit
      refine ⟨.publishes (Upkeeps.quiet inv (fun _ h => h) hsweep) inv' ⟨u, hu, hid, hclosing⟩
        (fun k hk => ?_) (Upkeeps.noneSettled _ hsweep) h, ?_⟩
      · exact Effects.closedWith hlaw inv (Upkeeps.effects hsweep) hk ⟨u, hu, hid, hclosing⟩
      · exact finishWorkUnitPublication_unmarked inv' (Upkeeps.unmarked inv hold hsweep) hu hid
          (Or.inr hclosing) h

/-- **A publication with resolutions**, as the change log sees it. -/
theorem WorkUnitPublished.batchStep (hlaw : A.Lawful) (inv : Inv A old) (hold : Unmarked old)
    {publish : WorkUnitPublish} {outcome : Except ProviderError WorkUnitCommitOutcome}
    (hformed : ∀ r ∈ publish.resolutions, r.WellFormed A)
    (h : WorkUnitPublished clock publish old outcome new) (key : EntityKey) :
    BatchStep A publish.workUnit.identityJson key old new ∧ Unmarked new := by
  let K : Known := ⟨fun _ _ => True, fun _ => True, fun _ => False⟩
  cases h with
  | refused h =>
    have h := Expiries.upkeeps K h
    exact ⟨.quiet (Upkeeps.quiet inv (fun _ h => h) h) (Upkeeps.noneSettled _ h),
      Upkeeps.unmarked inv hold h⟩
  | @published swept resolved _ _ _ hswept hensured hconflicts hlength happly hfinish =>
    have hsweep := Expiries.upkeeps K hswept.expiries
    have inv' := (Upkeeps.keeps inv hsweep).1
    obtain ⟨heffects, hresolved⟩ := publishing_resolvedIn (K := K) hlaw inv' hensured hformed
      (fun _ _ _ _ => trivial) hconflicts happly
    have inv'' := (Effects.keeps hlaw inv' heffects).1
    obtain ⟨added, _, _, _, _, heq, hadded⟩ := hresolved.eq
    have hunits : resolved.workUnits = swept.workUnits := by rw [heq]
    obtain ⟨u, hu, hid, hclosing⟩ := hensured.closing_unit
    rw [← hunits] at hu
    have hquiet : Quiet swept resolved := by
      rw [heq]
      refine ⟨.of_same ⟨rfl, rfl, rfl, rfl⟩ rfl rfl, rfl, fun r hr => ?_⟩
      have hstaged : ∀ r ∈ added, r.workUnitJson = some publish.workUnit.identityJson := by
        intro r hr
        obtain ⟨resolution, -, v, -, recordedAt, rfl⟩ := hadded r hr
        rfl
      exact mem_append_of_ne hstaged (by simp) hr
    have hentities : resolved.unitEntities = swept.unitEntities := by rw [heq]
    have hunmarked : Unmarked resolved := (Upkeeps.unmarked inv hold hsweep).of_eq hentities
      fun u hu _ => hunits ▸ hu
    refine ⟨.publishes ((Upkeeps.quiet inv (fun _ h => h) hsweep).trans hquiet) inv''
      ⟨u, hu, hid, hclosing⟩ (fun k hk => ?_)
      ((Upkeeps.noneSettled _ hsweep).trans (.of_eq hunits)) hfinish, ?_⟩
    · exact Effects.closedWith hlaw inv ((Upkeeps.effects hsweep).trans heffects) hk
        ⟨u, hu, hid, hclosing⟩
    · exact finishWorkUnitPublication_unmarked inv'' hunmarked hu hid (Or.inr hclosing) hfinish

end Patchouli
