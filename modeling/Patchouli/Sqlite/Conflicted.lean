import Patchouli.Sqlite.Batch
import Patchouli.Sqlite.Matches

/-!
# Closing units have a conflict

A unit is left closing only by a call that found a conflict in it: an entity it has staged whose
published heads are not the ones of its baseline. The conflict does not go away by itself. The heads
of the baseline were published when the unit was opened, and heads that move name a version that was
never published before, so they never move back to the baseline; and what the unit has staged is
kept until it is published or expires.

## Main definitions

* `Db.ConflictedAt` — the entity is in conflict with the unit
* `Db.ClosingConflicted` — a closing unit has a conflict

## Main results

* `Effects.conflictedAt` — an entity in conflict with a closing unit stays in conflict with it
* `WorkUnitCommitted.closingConflicted`, `WorkUnitPublished.closingConflicted` — the two calls
* `Db.ClosingConflicted.publicationConflicts_ne_nil` — what a closing call then finds
-/

namespace Patchouli

open Db

variable {A : Automerge} {K : Known} {old mid new db : Db} {key : EntityKey} {unit : String}
  {clock : Clock} {u : WorkUnitRow}

/-- The unit is closing. -/
def Db.IsClosing (db : Db) (unit : String) : Prop :=
  ∃ u ∈ db.workUnits, u.identityJson = unit ∧ u.state = .closing

instance (db : Db) (unit : String) : Decidable (db.IsClosing unit) :=
  inferInstanceAs (Decidable (∃ u ∈ db.workUnits, u.identityJson = unit ∧ u.state = .closing))

/-- What the unit has staged of the entity is not based on the heads that are published. -/
structure Db.ConflictedAt (db : Db) (unit : String) (key : EntityKey) : Prop where
  mutated : key ∈ db.workUnitMutatedEntities unit
  moved : db.publishedHeads key ≠ db.workUnitBaseHeads unit key

/-- A closing unit has a conflict. -/
def Db.ClosingConflicted (db : Db) : Prop :=
  ∀ unit, db.IsClosing unit → ∃ key, db.ConflictedAt unit key

/-! ### Heads do not move back -/

/-- The baseline of an entity that a unit has captured does not change. -/
theorem workUnitBaseHeads_kept (inv : Inv A old) (inv' : Inv A new) (hext : Extends old new)
    (hu : u ∈ old.workUnits) (hcaptured : (old.unitEntity? u.identityJson key).isSome)
    (hcaptured' : (new.unitEntity? u.identityJson key).isSome) :
    new.workUnitBaseHeads u.identityJson key = old.workUnitBaseHeads u.identityJson key := by
  obtain ⟨u', hu', hev⟩ := hext.units u hu
  rw [← hev.identityJson] at hcaptured' ⊢
  have hcutoff := inv.baseline.cutoff_le inv.published hu
  refine List.Perm.eq_of_pairwise' (List.pairwise_insertionSort _ _)
    (List.pairwise_insertionSort _ _) ?_
  refine (List.perm_ext_iff_of_nodup (inv'.workUnitBaseHeads_nodup _ _)
    (hev.identityJson ▸ inv.workUnitBaseHeads_nodup _ _)).mpr fun version => ?_
  rw [inv'.mem_workUnitBaseHeads_iff hu' hcaptured', hev.baselineCursor, hext.headsAt key _ hcutoff,
    hev.identityJson, inv.mem_workUnitBaseHeads_iff hu hcaptured]

/-- The heads of a baseline are published. -/
theorem Db.Inv.isPublished_of_base (inv : Inv A db) (hu : u ∈ db.workUnits)
    (hcaptured : (db.unitEntity? u.identityJson key).isSome) {version : String}
    (h : version ∈ db.workUnitBaseHeads u.identityJson key) : db.IsPublished key version := by
  obtain ⟨⟨r, hr, hkey, hname, hby⟩, -⟩ :=
    (inv.baseRow_iff hu hcaptured).mp (mem_workUnitBaseHeads.mp h)
  exact ⟨r, hr, hkey, hname, hby.1⟩

theorem Db.ConflictedAt.captured (h : db.ConflictedAt unit key) :
    (db.unitEntity? unit key).isSome := by
  obtain ⟨⟨e, he, hid, hkey⟩, -⟩ := mem_workUnitMutatedEntities.mp h.mutated
  exact List.find?_isSome.mpr ⟨e, he, by simp [hid, hkey]⟩

/-- **A conflict does not go away**, as long as the unit keeps what it has staged. -/
theorem Db.ConflictedAt.of_extends (h : old.ConflictedAt u.identityJson key) (inv : Inv A old)
    (inv' : Inv A new) (hext : Extends old new) (hu : u ∈ old.workUnits)
    (hmutated : key ∈ new.workUnitMutatedEntities u.identityJson) :
    new.ConflictedAt u.identityJson key := by
  obtain ⟨⟨e, he, hid, hkey⟩, -⟩ := mem_workUnitMutatedEntities.mp hmutated
  have hcaptured : (new.unitEntity? u.identityJson key).isSome :=
    List.find?_isSome.mpr ⟨e, he, by simp [hid, hkey]⟩
  have hbase := workUnitBaseHeads_kept inv inv' hext hu h.captured hcaptured
  refine ⟨hmutated, fun heq => ?_⟩
  rcases hext.moves key with hsame | ⟨version, hversion, hnot⟩
  · exact h.moved (hsame.symm.trans (heq.trans hbase))
  · rw [heq, hbase] at hversion
    exact hnot (inv.isPublished_of_base hu h.captured hversion)

/-- What a closing unit has staged, it keeps. -/
theorem KeptClosing.mutated (h : KeptClosing unit old new)
    (hkey : key ∈ old.workUnitMutatedEntities unit) : key ∈ new.workUnitMutatedEntities unit := by
  obtain ⟨⟨e, he, hid, hekey⟩, hheads⟩ := mem_workUnitMutatedEntities.mp hkey
  exact mem_workUnitMutatedEntities.mpr
    ⟨⟨e, (h.entities e hid).mpr he, hid, hekey⟩, h.heads key hheads⟩

/-- **An entity in conflict with a closing unit stays in conflict with it**, for as long as the unit
is closing. -/
theorem Effects.conflictedAt (hlaw : A.Lawful) (inv : Inv A old) (h : Effects A K old new)
    (hwas : old.IsClosing unit) (hclosing : new.IsClosing unit)
    (hconflicted : old.ConflictedAt unit key) : new.ConflictedAt unit key := by
  induction h with
  | refl => exact hconflicted
  | @tail mid new hbefore hstep ih =>
    obtain ⟨inv', hext⟩ := Effects.keeps hlaw inv hbefore
    obtain ⟨inv'', hext'⟩ := hstep.keeps hlaw inv'
    obtain ⟨v, hv, hvid, hvstate⟩ := hclosing
    have hthere : mid.IsClosing unit := by
      obtain ⟨u, hu, hid, hstate⟩ := hext.between hext' inv''.staging hwas hv hvid
      exact ⟨u, hu, hid, hstate.elim id fun heq => heq.trans hvstate⟩
    have hkept := hstep.keptClosing hlaw inv' hthere fun x hx hxid => by
      rw [inv''.staging.unit_eq hx hv (hxid.trans hvid.symm), hvstate]
      decide
    have hconflicted' := ih hthere
    obtain ⟨u, hu, rfl, -⟩ := hthere
    exact hconflicted'.of_extends inv' inv'' hext' hu (hkept.mutated hconflicted'.mutated)

/-! ### Closing -/

/-- A conflict that is reported is one of the unit. -/
theorem ClosedBy.conflictedAt (inv : StagingInv old) {entity : WorkUnitCommit}
    {conflicts : List WorkUnitConflict}
    (h : old.publicationConflicts entity.workUnit.identityJson = .ok conflicts)
    (hne : conflicts ≠ []) : ∃ key, old.ConflictedAt entity.workUnit.identityJson key := by
  obtain ⟨conflict, hconflict⟩ := List.exists_mem_of_ne_nil conflicts hne
  obtain ⟨-, hin, -⟩ := publicationConflicts_spec inv h
  exact ⟨conflict.key, (hin conflict hconflict).mutated, (hin conflict hconflict).moved⟩

/-- A unit with a conflict is not found without. -/
theorem Db.ConflictedAt.publicationConflicts_ne_nil (inv : StagingInv db)
    (h : db.ConflictedAt unit key) : db.publicationConflicts unit ≠ .ok [] := by
  intro hnone
  obtain ⟨-, -, hunmoved⟩ := publicationConflicts_spec inv hnone
  exact h.moved (hunmoved key h.mutated (by simp))

/-- A step after which only some units may be closing that were not before. -/
theorem Db.ClosingConflicted.of_effects (hold : ClosingConflicted old) (hlaw : A.Lawful)
    (inv : Inv A old) (h : Effects A K old new)
    (hnew : ∀ unit, new.IsClosing unit → old.IsClosing unit ∨ ∃ key, new.ConflictedAt unit key) :
    ClosingConflicted new := by
  intro unit hclosing
  rcases hnew unit hclosing with hwas | hconflicted
  · obtain ⟨key, hkey⟩ := hold unit hwas
    exact ⟨key, h.conflictedAt hlaw inv hwas hclosing hkey⟩
  · exact hconflicted

/-- A unit that is closing, and that no step has closed, was closing. -/
theorem NoneSettled.isClosing {except : String → Prop} (h : NoneSettled except old new)
    (hunit : ¬ except unit) (hclosing : new.IsClosing unit) : old.IsClosing unit := by
  obtain ⟨u, hu, rfl, hstate⟩ := hclosing
  exact ⟨u, h u hu (Or.inl hstate) hunit, rfl, hstate⟩

/-- A published unit is not closing. -/
theorem finishWorkUnitPublication_not_closing (inv : Inv A old) (hclosing : old.IsClosing unit)
    {recordedAt : ℕ} (h : old.finishWorkUnitPublication unit recordedAt = .ok new) :
    ¬ new.IsClosing unit := by
  obtain ⟨u, hu, rfl, hstate⟩ := hclosing
  obtain ⟨mid, -, -, -, -, -, rfl⟩ := finishWorkUnitPublication_spec inv hu (Or.inr hstate) h
  rintro ⟨v, hv, hid, hvstate⟩
  obtain ⟨v', -, rfl⟩ := List.mem_map.mp hv
  split at hvstate
  · cases hvstate
  · rename_i hother
    rw [if_neg hother] at hid
    exact hother hid

/-- **A commit in a unit** leaves a unit closing only with a conflict. -/
theorem WorkUnitCommitted.closingConflicted (hlaw : A.Lawful) (inv : Inv A old)
    (hold : ClosingConflicted old) {entity : WorkUnitCommit}
    {outcome : Except ProviderError WorkUnitCommitOutcome} (hformed : entity.entity.WellFormed A)
    (hscope : entity.workUnit.scopeJson = entity.entity.key.scopeJson)
    (h : WorkUnitCommitted clock entity old outcome new) : ClosingConflicted new := by
  let K : Known := ⟨fun _ _ => True, fun _ => True, fun _ => False⟩
  have hkept : ∀ {mid : Db}, Upkeeps K old mid → ∀ id, mid.IsClosing id → old.IsClosing id :=
    fun h id => (Upkeeps.noneSettled (fun _ => False) h).isClosing not_false
  refine hold.of_effects hlaw inv
    (h.effects (K := K) hlaw inv trivial hformed (fun _ _ => trivial) hscope)
    fun id hclosing => ?_
  cases h with
  | failed h => exact Or.inl (hkept (Expiries.upkeeps K h) id hclosing)
  | refused h => exact Or.inl (hkept (Expiries.upkeeps K h) id hclosing)
  | @staged swept base _ hswept hensured hstaged hclose =>
    have hbase : Upkeeps K old base :=
      (Expiries.upkeeps K hswept.expiries).trans (hensured.upkeeps trivial)
    obtain ⟨_, _, _, _, _, _, _, _, heq⟩ :=
      hstaged.eq hlaw (Upkeeps.keeps inv hbase).1 hformed hscope
    have hsame : NoneSettled (fun _ => False) base new := .of_eq (by rw [heq])
    exact Or.inl (hkept hbase id (hsame.isClosing not_false hclosing))
  | @closed swept base staged _ _ hswept hensured hstaged hclose h =>
    have hbase : Upkeeps K old base :=
      (Expiries.upkeeps K hswept.expiries).trans (hensured.upkeeps trivial)
    have inv' := (Upkeeps.keeps inv hbase).1
    obtain ⟨_, _, _, _, _, _, _, _, heq⟩ := hstaged.eq hlaw inv' hformed hscope
    have hmarked := (Effects.keeps hlaw inv' ((hstaged.effects (K := K) hlaw inv' hformed
      (fun _ _ => trivial) hscope).tail (.close _ entity.workUnit.identityJson))).1
    have hunits : NoneSettled (· = entity.workUnit.identityJson) old
        (staged.markClosing entity.workUnit.identityJson) :=
      ((Upkeeps.noneSettled _ hbase).trans (.of_eq (by rw [heq]))).trans (markClosing_noneSettled _ _)
    have hthere := hstaged.closing_unit hlaw inv' hformed hscope
    cases h with
    | reported hconflicts hne =>
      by_cases hsame : id = entity.workUnit.identityJson
      · exact Or.inr (hsame ▸ ClosedBy.conflictedAt hmarked.staging hconflicts hne)
      · exact Or.inl (hunits.isClosing hsame hclosing)
    | published _ h =>
      by_cases hsame : id = entity.workUnit.identityJson
      · subst hsame
        exact absurd hclosing (finishWorkUnitPublication_not_closing hmarked hthere h)
      · obtain ⟨u, hu, hid, hstate⟩ := hthere
        exact Or.inl ((hunits.trans (finishWorkUnitPublication_noneSettled hmarked hu hid
          (Or.inr hstate) h)).isClosing hsame hclosing)
  | @joined swept _ _ hswept hensured hclose h =>
    have hsweep := Expiries.upkeeps K hswept.expiries
    have inv' := (Upkeeps.keeps inv hsweep).1
    cases h with
    | reported => exact Or.inl (hkept hsweep id hclosing)
    | published _ h =>
      have hthere := hensured.closing_unit
      by_cases hsame : id = entity.workUnit.identityJson
      · subst hsame
        exact absurd hclosing (finishWorkUnitPublication_not_closing inv' hthere h)
      · obtain ⟨u, hu, hid, hstate⟩ := hthere
        exact Or.inl (((Upkeeps.noneSettled _ hsweep).trans (finishWorkUnitPublication_noneSettled
          inv' hu hid (Or.inr hstate) h)).isClosing hsame hclosing)

/-- **A publication with resolutions** leaves no unit closing. -/
theorem WorkUnitPublished.closingConflicted (hlaw : A.Lawful) (inv : Inv A old)
    (hold : ClosingConflicted old) {publish : WorkUnitPublish}
    {outcome : Except ProviderError WorkUnitCommitOutcome}
    (hformed : ∀ r ∈ publish.resolutions, r.WellFormed A)
    (h : WorkUnitPublished clock publish old outcome new) : ClosingConflicted new := by
  let K : Known := ⟨fun _ _ => True, fun _ => True, fun _ => False⟩
  refine hold.of_effects hlaw inv
    (h.effects (K := K) hlaw inv hformed fun _ _ _ _ => trivial) fun id hclosing => Or.inl ?_
  cases h with
  | refused h =>
    exact (Upkeeps.noneSettled (fun _ => False) (Expiries.upkeeps K h)).isClosing not_false hclosing
  | @published swept resolved _ _ _ hswept hensured hconflicts _ happly hfinish =>
    have hsweep := Expiries.upkeeps K hswept.expiries
    have inv' := (Upkeeps.keeps inv hsweep).1
    obtain ⟨heffects, hresolved⟩ := publishing_resolvedIn (K := K) hlaw inv' hensured hformed
      (fun _ _ _ _ => trivial) hconflicts happly
    have inv'' := (Effects.keeps hlaw inv' heffects).1
    obtain ⟨_, _, _, _, _, heq, -⟩ := hresolved.eq
    have hunits : resolved.workUnits = swept.workUnits := by rw [heq]
    obtain ⟨u, hu, hid, hstate⟩ := hensured.closing_unit
    rw [← hunits] at hu
    by_cases hsame : id = publish.workUnit.identityJson
    · subst hsame
      exact absurd hclosing
        (finishWorkUnitPublication_not_closing inv'' ⟨u, hu, hid, hstate⟩ hfinish)
    · exact (((Upkeeps.noneSettled _ hsweep).trans (.of_eq hunits)).trans
        (finishWorkUnitPublication_noneSettled inv'' hu hid (Or.inr hstate) hfinish)).isClosing
          hsame hclosing

/-! ### A closing call to a closing unit -/

/-- **A commit in a closing unit does not publish it**: it finds a conflict. -/
theorem WorkUnitCommitted.closing_not_published (hlaw : A.Lawful) (inv : Inv A old)
    (hold : ClosingConflicted old) {entity : WorkUnitCommit}
    (hwas : old.IsClosing entity.workUnit.identityJson) :
    ¬ WorkUnitCommitted clock entity old (.ok .published) new := by
  let K : Known := ⟨fun _ _ => True, fun _ => True, fun _ => False⟩
  intro h
  cases h with
  | refused _ hrefused => exact hrefused.2.1 rfl
  | @closed swept base staged _ _ hswept hensured _ _ _ =>
    have hbase : Upkeeps K old base :=
      (Expiries.upkeeps K hswept.expiries).trans (hensured.upkeeps trivial)
    obtain ⟨u, hu, hid, hstate⟩ := hwas
    exact Upkeeps.not_settled inv hbase
      (hensured.open_unit.imp fun u hu => ⟨hu.1, hu.2.1, hu.2.2.2.1⟩)
      ⟨u, hu, hid, Or.inl hstate⟩
  | @joined swept _ _ hswept hensured _ h =>
    have hsweep := Expiries.upkeeps K hswept.expiries
    cases h with
    | published hnone _ =>
      obtain ⟨key, hkey⟩ := hold _ hwas
      exact (hsweep.effects.conflictedAt hlaw inv hwas hensured.closing_unit
        hkey).publicationConflicts_ne_nil (Upkeeps.keeps inv hsweep).1.staging hnone

end Patchouli
