import Patchouli.Sqlite.Record

/-!
# The mutation that closes a unit

The staged mutation that closes its unit marks its entity. An open unit has no marks, a closing unit
has the one, and it keeps it, and what it has staged, until it is published or expires: so the
entity of the closing mutation comes last in the publication.

## Main definitions

* `Db.Unmarked` — an open unit has no marks
* `Db.ClosedWith` — the closing mutation of a unit is of an entity

## Main results

* `StagedIn.closedWith` — the mutation that closes a unit
* `Effects.closedWith` — a closing unit stays closed with it
* `Db.ClosedWith.last` — it is published last
-/

namespace Patchouli

open Db

variable {A : Automerge} {K : Known} {old mid new db : Db} {key : EntityKey} {unit : String}

/-- No entity of an open unit is marked. -/
def Db.Unmarked (db : Db) : Prop :=
  ∀ u ∈ db.workUnits, u.state = .opened → ∀ e ∈ db.unitEntities, e.workUnitJson = u.identityJson →
    e.closeMarker = false

/-- The unit is closing, and what closed it is the staged mutation of an entity. -/
structure Db.ClosedWith (db : Db) (unit : String) (key : EntityKey) : Prop where
  closing : ∃ u ∈ db.workUnits, u.identityJson = unit ∧ u.state = .closing
  marked : ∀ e ∈ db.unitEntities, e.workUnitJson = unit → (e.closeMarker = true ↔ e.key = key)
  mutated : key ∈ db.workUnitMutatedEntities unit

/-! ### The order of a publication -/

/-- The order of the entities of a publication. -/
def publishedBefore (r s : WorkUnitEntityRow) : Prop :=
  (if r.closeMarker then "1" else "0") :: r.key.orderKey ≤
    (if s.closeMarker then "1" else "0") :: s.key.orderKey

instance : DecidableRel publishedBefore := fun r s =>
  inferInstanceAs (Decidable ((if r.closeMarker then "1" else "0") :: r.key.orderKey ≤
    (if s.closeMarker then "1" else "0") :: s.key.orderKey))

instance : Std.Total publishedBefore := ⟨fun _ _ => le_total _ _⟩

instance : IsTrans WorkUnitEntityRow publishedBefore := ⟨fun _ _ _ => le_trans⟩

/-- **The entity of the closing mutation comes last.** -/
theorem Db.ClosedWith.last (inv : StagingInv db) (h : db.ClosedWith unit key) :
    (db.workUnitMutatedEntities unit).getLast? = some key := by
  have hmutated := h.mutated
  unfold workUnitMutatedEntities at hmutated
  obtain ⟨e, he, rfl⟩ := List.mem_map.mp hmutated
  have hmem := (List.mem_insertionSort _).mp he
  have hown := hmem
  simp only [List.mem_filter, decide_eq_true_eq] at hown
  have hmarked := (h.marked e hown.1 hown.2.1).mpr rfl
  have hlast := Table.getLast?_insertionSort (r := publishedBefore) hmem fun b hb hbefore => ?_
  · show (List.map (·.key) (List.insertionSort publishedBefore _)).getLast? = _
    rw [List.getLast?_map, hlast]
    rfl
  · simp only [List.mem_filter, decide_eq_true_eq] at hb
    have hbmarked : b.closeMarker = true := by
      cases hmark : b.closeMarker with
      | true => rfl
      | false =>
        have hlt : "0" :: b.key.orderKey < "1" :: e.key.orderKey := List.Lex.rel (by decide)
        simp only [publishedBefore, hmarked, hmark, if_true, Bool.false_eq_true, if_false] at hbefore
        exact absurd hbefore hlt.not_ge
    have hkey := (h.marked b hb.1 hb.2.1).mp hbmarked
    exact Table.eq_of_key_eq (fun e : WorkUnitEntityRow => (e.workUnitJson, e.key)) inv.entityKeys
      hb.1 hown.1 (by rw [hb.2.1, hown.2.1, hkey])

/-! ### What keeps the mark -/

/-- What is the same of a closing unit, whatever happens. -/
structure KeptClosing (unit : String) (old new : Db) : Prop where
  entities : ∀ e : WorkUnitEntityRow, e.workUnitJson = unit →
    (e ∈ new.unitEntities ↔ e ∈ old.unitEntities)
  heads : ∀ key, old.HasUnitHeads unit key → new.HasUnitHeads unit key

theorem KeptClosing.of_eq (hentities : new.unitEntities = old.unitEntities)
    (hheads : new.unitHeads = old.unitHeads) : KeptClosing unit old new := by
  refine ⟨fun e _ => by rw [hentities], fun key h => ?_⟩
  unfold HasUnitHeads at *
  rwa [hheads]

theorem KeptClosing.trans (h : KeptClosing unit old mid) (h' : KeptClosing unit mid new) :
    KeptClosing unit old new :=
  ⟨fun e he => (h'.entities e he).trans (h.entities e he),
    fun key hkey => h'.heads key (h.heads key hkey)⟩

theorem Db.ClosedWith.of_kept (h : old.ClosedWith unit key) (hkept : KeptClosing unit old new)
    (hclosing : ∃ u ∈ new.workUnits, u.identityJson = unit ∧ u.state = .closing) :
    new.ClosedWith unit key := by
  obtain ⟨⟨e, he, hid, hkey⟩, hheads⟩ := mem_workUnitMutatedEntities.mp h.mutated
  refine ⟨hclosing, fun e he hid => h.marked e ((hkept.entities e hid).mp he) hid,
    mem_workUnitMutatedEntities.mpr ⟨⟨e, (hkept.entities e hid).mpr he, hid, hkey⟩,
      hkept.heads key hheads⟩⟩

/-- Heads of one unit are replaced. -/
theorem hasUnitHeads_replaced {id : String} {k : EntityKey} {heads : List String}
    (hne : heads ≠ []) (h : new.unitHeads = (old.unitHeads.filter fun head =>
        ¬ (head.workUnitJson = id ∧ head.key = k)) ++
      (Table.sorted heads).map fun version => ⟨id, k, version⟩)
    (hold : old.HasUnitHeads unit key) : new.HasUnitHeads unit key := by
  obtain ⟨head, hhead, hid, hkey⟩ := hold
  unfold HasUnitHeads
  rw [h]
  by_cases hsame : head.workUnitJson = id ∧ head.key = k
  · obtain ⟨version, hversion⟩ := List.exists_mem_of_ne_nil heads hne
    refine ⟨⟨id, k, version⟩, List.mem_append_right _ (List.mem_map.mpr ⟨version, ?_, rfl⟩),
      hsame.1 ▸ hid, hsame.2 ▸ hkey⟩
    exact (Table.sorted_perm heads).mem_iff.mpr hversion
  · exact ⟨head, List.mem_append_left _ (List.mem_filter.mpr ⟨hhead, decide_eq_true hsame⟩), hid,
      hkey⟩

/-- A closing unit that does not expire keeps its marks and what it has staged. -/
theorem Effect.keptClosing (hlaw : A.Lawful) (inv : Inv A old) (h : Effect A K old new)
    (hclosing : ∃ u ∈ old.workUnits, u.identityJson = unit ∧ u.state = .closing)
    (hstays : ∀ u ∈ new.workUnits, u.identityJson = unit → u.state ≠ .expired) :
    KeptClosing unit old new := by
  obtain ⟨u, hu, rfl, hstate⟩ := hclosing
  have hother : ∀ u' ∈ old.workUnits, u'.state = .opened → u'.identityJson ≠ u.identityJson := by
    rintro u' hu' hopen hid
    obtain rfl := inv.staging.unit_eq hu' hu hid
    rw [hstate] at hopen
    cases hopen
  cases h with
  | upkeep h =>
    cases h with
    | sessions => exact .of_eq rfl rfl
    | forget => exact .of_eq rfl rfl
    | note => exact .of_eq rfl rfl
    | prune => exact .of_eq rfl rfl
    | expire h =>
      obtain ⟨hunit, hlive, -, h⟩ := h
      rename_i row now
      obtain ⟨rfl, -⟩ := expireWorkUnit_spec h
      have hne : row.identityJson ≠ u.identityJson := by
        intro hid
        refine hstays { u with state := .expired, closedAtUnixMs := some now } ?_ rfl rfl
        refine List.mem_map.mpr ⟨u, hu, ?_⟩
        rw [if_pos ⟨hid.symm, Or.inr hstate⟩]
      refine ⟨fun _ _ => Iff.rfl, fun key ⟨head, hhead, hid, hkey⟩ => ?_⟩
      refine ⟨head, List.mem_filter.mpr ⟨hhead, decide_eq_true ?_⟩, hid, hkey⟩
      rintro ⟨r, hr, hown, hrkey, hrname⟩
      obtain ⟨r', hr', hrkey', hrname', hunit'⟩ := inv.staging.headVersions head hhead
      obtain rfl := inv.staging.versionKeys.eq hr hr' (hrkey.trans hrkey'.symm)
        (hrname.trans hrname'.symm)
      rcases hunit' with hunit' | hunit' <;> rw [hown] at hunit'
      · exact hne (Option.some.inj hunit' |>.trans hid)
      · cases hunit'
    | openUnit => exact .of_eq rfl rfl
    | capture hunit hopen _ h =>
      obtain ⟨entities, bases, rfl, hentities, -⟩ := captureWorkUnitEntity_frame h
      refine ⟨fun e he => mem_append_of_ne hentities (hother _ hunit hopen).symm he,
        fun _ h => h⟩
  | commit hformed _ h =>
    obtain ⟨-, ⟨_, _, _, _, _, _, _, _, _, _, _, rfl⟩, -⟩ :=
      commitEntityInTransaction_spec hlaw inv.crdt hformed.genuine h
    exact .of_eq rfl rfl
  | record _ h =>
    rw [insertIdempotency_eq h]
    exact .of_eq rfl rfl
  | @stage _ unit staged recordedAt hunit hid hopen hformed _ hheads h =>
    have hcrdt : CrdtInv A (old.recordStagedMutation staged) :=
      inv.crdt.congr (fun _ _ h => h) rfl rfl rfl
    obtain ⟨mid, hinsert, hreplace⟩ := Except.bind_eq_ok.mp h
    obtain ⟨⟨_, _, _, rfl⟩, -⟩ := stage_spec hlaw hcrdt hformed.genuine hinsert hreplace
    obtain ⟨-, hne, -, -, -⟩ := replaceWorkUnitHeads_eq_ok.mp hreplace
    refine ⟨fun e he => ?_, fun key hkey => hasUnitHeads_replaced hne rfl hkey⟩
    simp only [recordStagedMutation, List.mem_map]
    constructor
    · rintro ⟨e', he', rfl⟩
      split at he
      · rename_i hmine
        exact absurd (hid.symm.trans (hmine.1.symm.trans he)) (hother unit hunit hopen)
      · rename_i hmine
        rwa [if_neg hmine]
    · intro hmem
      refine ⟨e, hmem, if_neg fun hmine => ?_⟩
      exact hother unit hunit hopen (hid.symm.trans (hmine.1.symm.trans he))
  | stageRecord _ _ _ h =>
    rw [insertWorkUnitIdempotency_eq h]
    exact .of_eq rfl rfl
  | close => exact .of_eq rfl rfl
  | resolve _ _ _ _ _ _ hinsert h =>
    obtain ⟨-, hne, -, -, heq⟩ := replaceWorkUnitHeads_eq_ok.mp h
    obtain ⟨added, _, _, _, rfl, -⟩ := insertEntityVersions_frame hinsert
    subst heq
    exact ⟨fun _ _ => Iff.rfl, fun key hkey => hasUnitHeads_replaced hne rfl hkey⟩
  | publish hunit hpublishing h =>
    obtain ⟨mid, -, hpublished, -, -, -, rfl⟩ :=
      finishWorkUnitPublication_spec inv hunit (Or.inr hpublishing) h
    exact .of_eq hpublished.unitEntities_eq hpublished.unitHeads_eq

/-- Between a state in which a unit is closing and a later one it is closing, or what it is then. -/
theorem Db.Extends.between (h : Extends old mid) (h' : Extends mid new) (inv : StagingInv new)
    (hclosing : ∃ u ∈ old.workUnits, u.identityJson = unit ∧ u.state = .closing)
    {v : WorkUnitRow} (hv : v ∈ new.workUnits) (hid : v.identityJson = unit) :
    ∃ u ∈ mid.workUnits, u.identityJson = unit ∧ (u.state = .closing ∨ u.state = v.state) := by
  obtain ⟨u, hu, rfl, hstate⟩ := hclosing
  obtain ⟨u', hu', hev⟩ := h.units u hu
  obtain ⟨u'', hu'', hev'⟩ := h'.units u' hu'
  obtain rfl := inv.unit_eq hv hu'' (hid.trans (hev'.identityJson.trans hev.identityJson).symm)
  refine ⟨u', hu', hev.identityJson, ?_⟩
  by_cases hlive : u'.Live
  · rcases hlive with hopen | hclosing
    · rcases hev.state with heq | hwas | ⟨-, hno⟩
      · rw [heq, hstate] at hopen
        cases hopen
      · rw [hstate] at hwas
        cases hwas
      · exact absurd hopen hno
    · exact Or.inl hclosing
  · exact Or.inr (hev'.final hlive).symm

/-- **A closing unit stays closed with the mutation that closed it**, for as long as it is closing. -/
theorem Effects.closedWith (hlaw : A.Lawful) (inv : Inv A old) (h : Effects A K old new)
    (hclosed : old.ClosedWith unit key)
    (hclosing : ∃ u ∈ new.workUnits, u.identityJson = unit ∧ u.state = .closing) :
    new.ClosedWith unit key := by
  induction h with
  | refl => exact hclosed
  | @tail mid new hbefore hstep ih =>
    obtain ⟨inv', hext⟩ := Effects.keeps hlaw inv hbefore
    obtain ⟨inv'', hext'⟩ := hstep.keeps hlaw inv'
    obtain ⟨v, hv, hvid, hvstate⟩ := hclosing
    have hthere : ∃ u ∈ mid.workUnits, u.identityJson = unit ∧ u.state = .closing := by
      obtain ⟨u, hu, hid, hstate⟩ := hext.between hext' inv''.staging hclosed.closing hv hvid
      exact ⟨u, hu, hid, hstate.elim id fun heq => heq.trans hvstate⟩
    refine (ih hthere).of_kept (hstep.keptClosing hlaw inv' hthere fun x hx hxid => ?_)
      ⟨v, hv, hvid, hvstate⟩
    rw [inv''.staging.unit_eq hx hv (hxid.trans hvid.symm), hvstate]
    decide

/-! ### Open units -/

theorem Db.Unmarked.of_eq (h : Unmarked old) (hentities : new.unitEntities = old.unitEntities)
    (hunits : ∀ u ∈ new.workUnits, u.state = .opened → u ∈ old.workUnits) : Unmarked new := by
  intro u hu hopen e he
  rw [hentities] at he
  exact h u (hunits u hu hopen) hopen e he

theorem captureWorkUnitEntity_unmarked (h : Unmarked old)
    (hcapture : old.captureWorkUnitEntity unit key = .ok new) : Unmarked new := by
  unfold captureWorkUnitEntity at hcapture
  split at hcapture
  · rw [Except.ok.injEq] at hcapture
    exact hcapture ▸ h
  · split at hcapture
    · cases hcapture
    · rw [Except.ok.injEq] at hcapture
      subst hcapture
      intro u hu hopen e he hid
      rcases List.mem_append.mp he with he | he
      · exact h u hu hopen e he hid
      · rw [List.mem_singleton.mp he]

theorem Upkeep.unmarked (inv : Inv A old) (hold : Unmarked old) (h : Upkeep K old new) :
    Unmarked new := by
  cases h with
  | sessions => exact hold
  | forget => exact hold
  | note => exact hold
  | prune => exact hold
  | expire h =>
    obtain ⟨hunit, hlive, -, h⟩ := h
    obtain ⟨rfl, -⟩ := expireWorkUnit_spec h
    refine hold.of_eq rfl fun u hu hopen => ?_
    obtain ⟨u', hu', rfl⟩ := List.mem_map.mp hu
    split at hopen
    · cases hopen
    · rename_i hother
      rwa [if_neg hother]
  | openUnit workUnit now expires hunit hnew =>
    intro u hu hopen e he hid
    rcases List.mem_append.mp hu with hu | hu
    · exact hold u hu hopen e he hid
    · obtain ⟨u', hu', hid', -⟩ := inv.staging.entityUnits e he
      rw [List.mem_singleton.mp hu] at hid
      have hfree := List.find?_eq_none.mp hnew u' hu'
      simp [hid'.trans hid] at hfree
  | capture _ _ _ h => exact captureWorkUnitEntity_unmarked hold h

theorem Upkeeps.unmarked (inv : Inv A old) (hold : Unmarked old) (h : Upkeeps K old new) :
    Unmarked new := by
  induction h with
  | refl => exact hold
  | tail hbefore hstep ih => exact hstep.unmarked (Upkeeps.keeps inv hbefore).1 ih

/-- The publication of a closing unit marks nothing. -/
theorem finishWorkUnitPublication_unmarked (inv : Inv A old) (hold : Unmarked old)
    {row : WorkUnitRow} (hrow : row ∈ old.workUnits) (hid : row.identityJson = unit)
    (hlive : row.Live) {recordedAt : ℕ}
    (h : old.finishWorkUnitPublication unit recordedAt = .ok new) : Unmarked new := by
  subst hid
  obtain ⟨mid, -, hpublished, -, -, -, rfl⟩ := finishWorkUnitPublication_spec inv hrow hlive h
  refine hold.of_eq hpublished.unitEntities_eq fun u hu hopen => ?_
  obtain ⟨u', hu', rfl⟩ := List.mem_map.mp hu
  split at hopen
  · cases hopen
  · rename_i hother
    rw [if_neg hother, ← hpublished.workUnits_eq]
    exact hu'

/-! ### The closing mutation -/

/-- What a staged mutation marks: its entity, if it closes the unit. -/
theorem StagedIn.marks (hold : Unmarked old) {entity : WorkUnitCommit}
    (h : StagedIn entity old new) : ∀ u ∈ old.workUnits, u.state = .opened →
      ∀ e ∈ new.unitEntities, e.workUnitJson = u.identityJson →
        (e.closeMarker = true ↔ entity.close = true ∧
          e.workUnitJson = entity.workUnit.identityJson ∧ e.key = entity.entity.key) := by
  obtain ⟨-, hid, -, -, hcapture, -, hstage, hrecord⟩ := h
  rename_i unit captured staged recordedAt
  intro u hu hopen e he heid
  have hunmarked := captureWorkUnitEntity_unmarked hold hcapture
  obtain ⟨_, _, rfl, -, -⟩ := captureWorkUnitEntity_frame hcapture
  obtain ⟨_, _, rfl⟩ := (stageIdempotency_none hrecord).eq
  obtain ⟨mid, hinsert, hreplace⟩ := Except.bind_eq_ok.mp hstage
  obtain ⟨_, _, _, _, rfl, -⟩ := insertEntityVersions_frame hinsert
  obtain ⟨-, -, -, -, rfl⟩ := replaceWorkUnitHeads_eq_ok.mp hreplace
  obtain ⟨e', he', rfl⟩ := List.mem_map.mp he
  split at heid
  · rename_i hmine
    have hwas := hunmarked u hu hopen e' he' heid
    rw [if_pos hmine]
    simp [hwas, hmine]
  · rename_i hmine
    have hwas := hunmarked u hu hopen e' he' heid
    rw [if_neg hmine]
    simp [hwas, hmine]

/-- A staged mutation that leaves the unit open marks nothing. -/
theorem StagedIn.unmarked (hlaw : A.Lawful) (inv : Inv A old) (hold : Unmarked old)
    {entity : WorkUnitCommit} (hformed : entity.entity.WellFormed A)
    (hscope : entity.workUnit.scopeJson = entity.entity.key.scopeJson)
    (hclose : entity.close = false) (h : StagedIn entity old new) : Unmarked new := by
  intro u hu hopen e he hid
  obtain ⟨_, _, _, _, _, _, _, _, heq⟩ := h.eq hlaw inv hformed hscope
  have hmarks := h.marks hold u (by rwa [heq] at hu) hopen e he hid
  simpa [hclose] using hmarks

/-- The entity of a staged mutation is among those its unit publishes. -/
theorem StagedIn.mutated (hlaw : A.Lawful) (inv : Inv A old) {entity : WorkUnitCommit}
    (hformed : entity.entity.WellFormed A)
    (hscope : entity.workUnit.scopeJson = entity.entity.key.scopeJson)
    (h : StagedIn entity old new) :
    entity.entity.key ∈ new.workUnitMutatedEntities entity.workUnit.identityJson := by
  have inv' := ((h.effects (K := Known.anything) hlaw inv hformed
    (fun _ _ => trivial) hscope).keeps hlaw inv).1
  obtain ⟨_, _, _, _, _, _, _, _, heq⟩ := h.eq hlaw inv hformed hscope
  obtain ⟨version, hversion, -⟩ := hformed.new
  have hheads : new.HasUnitHeads entity.workUnit.identityJson entity.entity.key := by
    refine ⟨⟨_, _, version⟩, ?_, rfl, rfl⟩
    rw [heq]
    exact List.mem_append_right _
      (List.mem_map.mpr ⟨version, (Table.sorted_perm _).mem_iff.mpr hversion, rfl⟩)
  obtain ⟨head, hhead, hheadid, hheadkey⟩ := hheads
  obtain ⟨e, he, heid, hekey⟩ := inv'.staging.headEntities head hhead
  exact mem_workUnitMutatedEntities.mpr ⟨⟨e, he, heid.trans hheadid, hekey.trans hheadkey⟩,
    head, hhead, hheadid, hheadkey⟩

/-- **The mutation that closes a unit** is the one its publication ends with. -/
theorem StagedIn.closedWith (hlaw : A.Lawful) (inv : Inv A old) (hold : Unmarked old)
    {entity : WorkUnitCommit} (hformed : entity.entity.WellFormed A)
    (hscope : entity.workUnit.scopeJson = entity.entity.key.scopeJson)
    (hclose : entity.close = true) (h : StagedIn entity old new) :
    (new.markClosing entity.workUnit.identityJson).ClosedWith entity.workUnit.identityJson
        entity.entity.key ∧ Unmarked (new.markClosing entity.workUnit.identityJson) := by
  have hmarks := h.marks hold
  have hthere := h.closing_unit hlaw inv hformed hscope
  have hmutated := h.mutated hlaw inv hformed hscope
  obtain ⟨_, _, _, _, _, _, _, _, heq⟩ := h.eq hlaw inv hformed hscope
  obtain ⟨hunit, hid, huscope, hopen, -, -, -, -⟩ := h
  rename_i unit _ _ _
  refine ⟨⟨hthere, fun e he heid => ?_, ?_⟩, fun u hu huopen e he heid => ?_⟩
  · have hmine := hmarks unit hunit hopen e he (heid.trans hid)
    simpa [hclose, heid] using hmine
  · exact hmutated
  · obtain ⟨u', hu', rfl⟩ := List.mem_map.mp hu
    have hold' : u' ∈ old.workUnits := by rwa [heq] at hu'
    split at huopen
    · cases huopen
    · rename_i hother
      rw [if_neg hother] at heid
      have hmine := hmarks u' hold' huopen e he heid
      by_contra hmark
      rw [Bool.not_eq_false] at hmark
      exact hother ⟨heid.symm.trans (hmine.mp hmark).2.1, huopen⟩

end Patchouli
