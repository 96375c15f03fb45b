import Patchouli.Backend.Engine
import Patchouli.Backend.Genuine
import Patchouli.Sqlite.Effect

/-!
# What the engine sends

The provider trusts the engine in what it cannot check: that the heads of a commit are new or were
expected, that one of them is new, that CRDT changes are what they say. These are theorems about
`prepare` and about `resolvePublicationConflicts`.

An offer is taken apart first. It is a proposal or nothing, followed by the stored candidates of
the active versions that were added; the tombstones among them stand beside it. The absorption of
candidates by variants then says where the heads of a commit come from.

## Main definitions

* `Offered` — the candidates and tombstones of some versions
* `Updated` — how an accepted update came about
* `Prepares` — what a prepared mutation guarantees

## Main results

* `prepareUpdate_updated`, `prepare_prepares`
* `resolvePublicationConflict_wellFormed`
-/

namespace Patchouli

open Json (Value)

section Guarantees

variable {A : Automerge} {toText : Value → String} {config : BackendConfig}

/-! ### Offers -/

/-- The stored candidates of the active versions among some versions, and the names of the others. -/
structure Offered (A : Automerge) (versions : List StoredEntityVersion)
    (stored : List ConflictCandidate) (deleted : List String) : Prop where
  stored : List.Forall₂ (fun v c => storedCandidate A v = .ok c)
    (versions.filter (·.state = .active)) stored
  deleted : deleted = (versions.filter (·.state = .deleted)).map (·.version)

theorem Offer.addAll_offered {offer result : Offer} {versions : List StoredEntityVersion}
    (h : offer.addAll A versions = .ok result) : ∃ stored deleted,
      result.candidates = offer.candidates ++ stored ∧ result.deleted = offer.deleted ++ deleted ∧
      Offered A versions stored deleted := by
  induction versions generalizing offer with
  | nil =>
    simp only [Offer.addAll, List.foldlM_nil, Except.pure_eq_ok, Except.ok.injEq] at h
    subst h
    exact ⟨[], [], by simp, by simp, .nil, rfl⟩
  | cons version versions ih =>
    obtain ⟨next, hnext, hrest⟩ := Except.foldlM_cons_eq_ok.mp h
    obtain ⟨stored, deleted, hcandidates, hdeleted, hoffered⟩ := ih hrest
    cases hstate : version.state with
    | active =>
      simp only [Offer.add, hstate] at hnext
      obtain ⟨candidate, hcandidate, hnext⟩ := Except.bind_eq_ok.mp hnext
      simp only [Except.pure_eq_ok, Except.ok.injEq] at hnext
      subst hnext
      refine ⟨candidate :: stored, deleted, by simp [hcandidates], hdeleted, ?_, ?_⟩
      · simp only [List.filter_cons, hstate, decide_true, if_true]
        exact .cons hcandidate hoffered.stored
      · simp [hstate, hoffered.deleted]
    | deleted =>
      simp only [Offer.add, hstate, Except.ok.injEq] at hnext
      subst hnext
      refine ⟨stored, version.version :: deleted, hcandidates, by simp [hdeleted], ?_, ?_⟩
      · simp only [List.filter_cons, hstate, reduceCtorEq, decide_false, Bool.false_eq_true,
          if_false]
        exact hoffered.stored
      · simp [hstate, hoffered.deleted]

namespace Offered

variable {versions : List StoredEntityVersion} {stored : List ConflictCandidate}
  {deleted : List String}

/-- A stored candidate is an active version, under its name. -/
theorem of_mem (h : Offered A versions stored deleted) {c : ConflictCandidate} (hc : c ∈ stored) :
    ∃ v ∈ versions, v.state = .active ∧ storedCandidate A v = .ok c ∧
      c.sourceVersion = some v.version := by
  obtain ⟨i, hi, rfl⟩ := List.getElem_of_mem hc
  have hlt := h.stored.length_eq ▸ hi
  have hv := (List.forall₂_iff_get.mp h.stored).2 i hlt hi
  obtain ⟨hmem, hstate⟩ := List.mem_filter.mp (List.getElem_mem hlt)
  exact ⟨_, hmem, by simpa using hstate, hv, storedCandidate_sourceVersion hv⟩

/-- A version that was offered is a tombstone or has a candidate. -/
theorem cases_of_mem (h : Offered A versions stored deleted) {v : StoredEntityVersion}
    (hv : v ∈ versions) : v.state = .deleted ∨
      ∃ (i : ℕ) (c : ConflictCandidate), stored[i]? = some c ∧ storedCandidate A v = .ok c := by
  cases hstate : v.state with
  | deleted => exact Or.inl rfl
  | active =>
    obtain ⟨i, hi, hget⟩ := List.getElem_of_mem
      (List.mem_filter.mpr ⟨hv, by simpa using hstate⟩ : v ∈ versions.filter (·.state = .active))
    have hlt := h.stored.length_eq ▸ hi
    have hcandidate := (List.forall₂_iff_get.mp h.stored).2 i hi hlt
    simp only [List.get_eq_getElem, hget] at hcandidate
    exact Or.inr ⟨i, _, List.getElem?_eq_getElem hlt, hcandidate⟩

theorem mem_deleted (h : Offered A versions stored deleted) {name : String} :
    name ∈ deleted ↔ ∃ v ∈ versions, v.state = .deleted ∧ v.version = name := by
  simp [h.deleted, and_assoc]

end Offered

/-! ### Heads and new versions of a resolution -/

section Kept

variable {names : ℕ → String} {deleted : List String} {variants : List ConflictCandidate}

theorem mem_keepVariants_heads {version : String} :
    version ∈ (keepVariants names deleted variants).headVersions ↔
      version ∈ deleted ∨ ∃ (i : ℕ) (c : ConflictCandidate), variants[i]? = some c ∧
        version = c.sourceVersion.getD (names i) := by
  simp only [keepVariants_eq, List.mem_append, List.mem_map, Prod.exists, variantHead,
    List.mem_zipIdx_iff_getElem?]
  refine or_congr_right ⟨?_, ?_⟩
  · rintro ⟨c, i, hc, rfl⟩
    exact ⟨i, c, hc, rfl⟩
  · rintro ⟨i, c, hc, rfl⟩
    exact ⟨c, i, hc, rfl⟩

theorem mem_keepVariants_new {version : StoredEntityVersion} :
    version ∈ (keepVariants names deleted variants).newVersions ↔
      ∃ (i : ℕ) (c : ConflictCandidate), variants[i]? = some c ∧ c.sourceVersion = none ∧
        version = activeStoredVersion (names i) c.value c.crdtFields := by
  simp only [keepVariants_eq, List.mem_filterMap, Prod.exists, variantVersion,
    List.mem_zipIdx_iff_getElem?]
  constructor
  · rintro ⟨c, i, hc, h⟩
    cases hsource : c.sourceVersion with
    | none =>
      simp only [hsource, Option.some.injEq] at h
      exact ⟨i, c, hc, hsource, h.symm⟩
    | some version => simp [hsource] at h
  · rintro ⟨i, c, hc, hsource, rfl⟩
    exact ⟨c, i, hc, by simp [hsource]⟩

/-- A head of a resolution is new, a tombstone, or the stored version of a variant. -/
theorem keepVariants_heads_cases {version : String}
    (h : version ∈ (keepVariants names deleted variants).headVersions) :
    version ∈ (keepVariants names deleted variants).newVersions.map (·.version) ∨
      version ∈ deleted ∨ ∃ c ∈ variants, c.sourceVersion = some version := by
  rcases mem_keepVariants_heads.mp h with hdeleted | ⟨i, c, hc, rfl⟩
  · exact Or.inr (Or.inl hdeleted)
  · cases hsource : c.sourceVersion with
    | none =>
      refine Or.inl (List.mem_map.mpr ⟨_, mem_keepVariants_new.mpr ⟨i, c, hc, hsource, rfl⟩, ?_⟩)
      rfl
    | some version => exact Or.inr (Or.inr ⟨c, List.mem_of_getElem? hc, hsource⟩)

/-- A new version is a head. -/
theorem keepVariants_new_head {version : StoredEntityVersion}
    (h : version ∈ (keepVariants names deleted variants).newVersions) :
    version.version ∈ (keepVariants names deleted variants).headVersions := by
  obtain ⟨i, c, hc, hsource, rfl⟩ := mem_keepVariants_new.mp h
  refine mem_keepVariants_heads.mpr (Or.inr ⟨i, c, hc, ?_⟩)
  rw [hsource]
  rfl

/-- A new first variant is the first new version. -/
theorem keepVariants_first (names : ℕ → String) (deleted : List String)
    {first : ConflictCandidate} (hfirst : variants[0]? = some first)
    (hnew : first.sourceVersion = none) : ∃ rest,
      (keepVariants names deleted variants).newVersions =
        activeStoredVersion (names 0) first.value first.crdtFields :: rest := by
  cases variants with
  | nil => simp at hfirst
  | cons c cs =>
    simp only [List.getElem?_cons_zero, Option.some.injEq] at hfirst
    subst hfirst
    simp only [keepVariants_eq, List.zipIdx_cons, List.filterMap_cons, variantVersion, hnew]
    exact ⟨_, rfl⟩

end Kept

/-! ### Bases and concurrent heads -/

/-- Versions that were looked up by their names. -/
theorem mapM_version? {snapshot : EntitySnapshot} {missing : BackendError} {names : List String}
    {found : List StoredEntityVersion}
    (h : names.mapM (fun name =>
      match snapshot.version? name with
      | some stored => Except.ok stored
      | none => Except.error missing) = Except.ok found) :
    found.map (·.version) = names ∧ ∀ v ∈ found, v ∈ snapshot.versions := by
  have hfound : ∀ {name : String} {v : StoredEntityVersion},
      (match snapshot.version? name with
        | some stored => Except.ok stored
        | none => .error missing) = .ok v → v ∈ snapshot.versions ∧ v.version = name := by
    intro name v hv
    split at hv
    · rename_i stored hstored
      rw [Except.ok.injEq] at hv
      exact hv ▸ EntitySnapshot.version?_eq_some hstored
    · cases hv
  constructor
  · have hall := Except.mapM_forall₂ h
    refine List.ext_getElem (by rw [List.length_map, hall.length_eq]) fun i hi hi' => ?_
    rw [List.getElem_map]
    exact (hfound ((List.forall₂_iff_get.mp hall).2 i hi' (by simpa using hi))).2
  · intro v hv
    obtain ⟨name, -, hname⟩ := Except.mem_of_mapM h hv
    exact (hfound hname).1

/-- The concurrent heads are the heads that are no bases, in order. -/
theorem concurrentHeads_eq_ok {snapshot : EntitySnapshot} {bases concurrent : List StoredEntityVersion}
    (h : concurrentHeads snapshot bases = .ok concurrent) :
    concurrent.map (·.version) = snapshot.headVersions.filter (· ∉ bases.map (·.version)) ∧
      ∀ v ∈ concurrent, v ∈ snapshot.versions :=
  mapM_version? h

theorem concurrentWith_eq_ok {plan : ConflictPlan} {snapshot : EntitySnapshot}
    {bases concurrent : List StoredEntityVersion}
    (h : concurrentWith plan snapshot = .ok (bases, concurrent)) :
    selectedBases plan snapshot = .ok bases ∧
      rejectUnlessExactHeads plan snapshot bases = .ok () ∧
      concurrentHeads snapshot bases = .ok concurrent := by
  obtain ⟨bases', hbases, h⟩ := Except.bind_eq_ok.mp h
  obtain ⟨u, hexact, h⟩ := Except.bind_eq_ok.mp h
  obtain ⟨concurrent', hconcurrent, h⟩ := Except.bind_eq_ok.mp h
  simp only [Except.pure_eq_ok, Except.ok.injEq, Prod.mk.injEq] at h
  obtain ⟨rfl, rfl⟩ := h
  exact ⟨hbases, hexact, hconcurrent⟩

/-! ### Preparations -/

namespace Preparation

theorem prepared_eq_ok {p : Preparation} {commit : EntityCommit} {entity : EntityVersion}
    {prepared : Prepared} (h : p.prepared config commit entity = .ok prepared) :
    prepared.commit = commit ∧ prepared.result = p.result entity ∧
      idempotencyRecord? config p.identity p.request.mutation prepared.result
        p.readings.accepted = .ok prepared.record := by
  obtain ⟨record, hrecord, h⟩ := Except.bind_eq_ok.mp h
  simp only [Except.pure_eq_ok, Except.ok.injEq] at h
  subst h
  exact ⟨rfl, rfl, hrecord⟩

end Preparation

/-- What an update computes on its way from a snapshot to a commit. -/
structure Updating where
  bases : List StoredEntityVersion
  concurrent : List StoredEntityVersion
  proposed : ConflictCandidate
  stored : List ConflictCandidate
  deleted : List String
  variants : List ConflictCandidate
  into : ℕ → ℕ
  first : ConflictCandidate

/-- What an update keeps of its variants. -/
def Updating.kept (u : Updating) (p : Preparation) : Kept :=
  keepVariants (fun v => p.fresh (.version v)) u.deleted u.variants

/-- How an accepted update came about: it offers its proposal and the concurrent heads, these are
resolved, and the first variant, which holds the proposal, is the version it answers with. -/
structure Updated (A : Automerge) (toText : Value → String) (config : BackendConfig)
    (p : Preparation) (value : Value) (snapshot : EntitySnapshot) (prepared : Prepared)
    (u : Updating) : Prop where
  bases_eq : selectedBases p.plan snapshot = .ok u.bases
  exact_eq : rejectUnlessExactHeads p.plan snapshot u.bases = .ok ()
  concurrent_eq : concurrentHeads snapshot u.bases = .ok u.concurrent
  proposed_eq : prepareCandidate A p.actors p.plan u.bases value = .ok u.proposed
  offered : Offered A u.concurrent u.stored u.deleted
  resolved_eq : resolveHeads A toText (.update snapshot.headVersions) p.plan u.deleted
    (u.proposed :: u.stored) = .ok ⟨u.variants⟩
  absorption : Absorption (u.proposed :: u.stored) u.variants u.into
  first_eq : u.variants[0]? = some u.first
  absorbs : Absorbs u.proposed u.first
  first_new : u.first.sourceVersion = none
  commit_eq : prepared.commit = p.commit snapshot.headVersions (u.kept p).newVersions
    (u.kept p).headVersions (mutationChangeKind snapshot (u.kept p).headVersions false)
    (p.fresh (.version 0))
  result_eq : prepared.result = p.result (.active p.entityRef (p.fresh (.version 0)) u.first.value)
  record_eq : idempotencyRecord? config p.identity p.request.mutation prepared.result
    p.readings.accepted = .ok prepared.record

theorem prepareCandidate_source {actors : String → String} {plan : ConflictPlan}
    {bases : List StoredEntityVersion} {value : Value} {candidate : ConflictCandidate}
    (h : prepareCandidate A actors plan bases value = .ok candidate) :
    candidate.sourceVersion = none ∧ candidate.value = value := by
  obtain ⟨crdtFields, -, h⟩ := Except.bind_eq_ok.mp h
  simp only [Except.pure_eq_ok, Except.ok.injEq] at h
  subst h
  exact ⟨rfl, rfl⟩

theorem prepareUpdate_updated {p : Preparation} {value : Value} {snapshot : Option EntitySnapshot}
    {prepared : Prepared} (h : prepareUpdate A toText config p value snapshot = .ok prepared) :
    ∃ s u, snapshot = some s ∧ Updated A toText config p value s prepared u := by
  cases snapshot with
  | none => cases h
  | some snapshot =>
    obtain ⟨offer, hoffer, h⟩ := Except.bind_eq_ok.mp h
    obtain ⟨⟨variants⟩, hresolved, h⟩ := Except.bind_eq_ok.mp h
    obtain ⟨⟨bases, concurrent⟩, hwith, hoffer⟩ := Except.bind_eq_ok.mp hoffer
    obtain ⟨hbases, hexact, hconcurrent⟩ := concurrentWith_eq_ok hwith
    dsimp only at hoffer
    split at hoffer
    · cases hoffer
    · obtain ⟨proposed, hproposed, hoffer⟩ := Except.bind_eq_ok.mp hoffer
      rw [Except.mapError_eq_ok] at hproposed
      obtain ⟨stored, deleted, hcandidates, hdeleted, hoffered⟩ := Offer.addAll_offered hoffer
      simp only [List.nil_append, List.singleton_append] at hcandidates hdeleted
      rw [hcandidates, hdeleted] at hresolved
      obtain ⟨into, habsorption⟩ := resolveHeads_absorption hresolved
      obtain ⟨first, hfirst, habsorbs⟩ := habsorption.absorbs 0 proposed rfl
      rw [habsorption.first (by simp)] at hfirst
      have hnew := habsorbs.new (prepareCandidate_source hproposed).1
      obtain ⟨rest, hrest⟩ := keepVariants_first (fun v => p.fresh (.version v)) deleted
        hfirst hnew
      have hkept : keepVariants (fun v => p.fresh (.version v)) offer.deleted variants =
          keepVariants (fun v => p.fresh (.version v)) deleted variants := by
        rw [hdeleted]
      simp only [hkept, hrest] at h
      obtain ⟨hcommit, hresult, hrecord⟩ := Preparation.prepared_eq_ok h
      refine ⟨snapshot, ⟨bases, concurrent, proposed, stored, deleted, variants, into, first⟩, rfl,
        hbases, hexact, hconcurrent, hproposed, hoffered, hresolved, habsorption, hfirst, habsorbs,
        hnew, ?_, hresult, hrecord⟩
      rw [hcommit, Updating.kept, hrest]
      rfl

namespace Updated

variable {p : Preparation} {value : Value} {snapshot : EntitySnapshot} {prepared : Prepared}
  {u : Updating}

/-- What an update replaces and does not name as a base is concurrent to it. -/
theorem mem_concurrent (h : Updated A toText config p value snapshot prepared u) {name : String} :
    name ∈ u.concurrent.map (·.version) ↔
      name ∈ snapshot.headVersions ∧ name ∉ u.bases.map (·.version) := by
  rw [(concurrentHeads_eq_ok h.concurrent_eq).1, List.mem_filter, decide_eq_true_eq]

/-- A head of an update is new or concurrent. -/
theorem heads_cases (h : Updated A toText config p value snapshot prepared u) {version : String}
    (hversion : version ∈ (u.kept p).headVersions) :
    version ∈ (u.kept p).newVersions.map (·.version) ∨
      version ∈ u.concurrent.map (·.version) := by
  rcases keepVariants_heads_cases hversion with hnew | hdeleted | ⟨c, hc, hsource⟩
  · exact Or.inl hnew
  · obtain ⟨v, hv, -, hname⟩ := h.offered.mem_deleted.mp hdeleted
    exact Or.inr (List.mem_map.mpr ⟨v, hv, hname⟩)
  · rcases List.mem_cons.mp (h.absorption.source hc hsource) with rfl | hstored
    · rw [(prepareCandidate_source h.proposed_eq).1] at hsource
      cases hsource
    · obtain ⟨v, hv, -, -, hsource'⟩ := h.offered.of_mem hstored
      rw [hsource, Option.some.injEq] at hsource'
      exact Or.inr (List.mem_map.mpr ⟨v, hv, hsource'.symm⟩)

/-- The version an update answers with. -/
theorem own_mem (h : Updated A toText config p value snapshot prepared u) :
    activeStoredVersion (p.fresh (.version 0)) u.first.value u.first.crdtFields ∈
      (u.kept p).newVersions :=
  mem_keepVariants_new.mpr ⟨0, u.first, h.first_eq, h.first_new, rfl⟩

theorem genuine (hlaw : A.Lawful) (h : Updated A toText config p value snapshot prepared u) :
    ∀ v ∈ (u.kept p).newVersions, ∀ f ∈ v.crdtFields, ∀ c ∈ f.changes, Genuine A c := by
  intro v hv
  obtain ⟨i, c, hc, -, rfl⟩ := mem_keepVariants_new.mp hv
  have hcandidates : GenuineVariants A (u.proposed :: u.stored) := by
    refine List.forall_mem_cons.mpr ⟨prepareCandidate_genuine hlaw h.proposed_eq, fun c hc => ?_⟩
    obtain ⟨v, -, -, hv, -⟩ := h.offered.of_mem hc
    exact storedCandidate_genuine hv
  exact activeStoredVersion_genuine
    (resolveHeads_genuine hcandidates h.resolved_eq c (List.mem_of_getElem? hc)) _ _

end Updated

/-! ### All mutations -/

/-- What a prepared mutation guarantees, resolved against `heads`. -/
structure Prepares (A : Automerge) (config : BackendConfig) (p : Preparation) (heads : List String)
    (prepared : Prepared) : Prop where
  key_eq : prepared.commit.key = entityKey p.request.selection p.entityRef
  expectedHeads_eq : prepared.commit.expectedHeads = heads
  formed : prepared.commit.WellFormed A
  names : ∀ v ∈ prepared.commit.newVersions, ∃ i, v.version = p.fresh (.version i)
  head : p.fresh (.version 0) ∈ prepared.commit.headVersions
  own : ∃ v ∈ prepared.commit.newVersions, v.version = p.fresh (.version 0) ∧
    ((∃ value, v.state = .active ∧ v.valueJson = some value ∧
        prepared.result = p.result (.active p.entityRef (p.fresh (.version 0)) value)) ∨
      (v.state = .deleted ∧
        prepared.result = p.result (.deleted p.entityRef (p.fresh (.version 0)))))
  token : prepared.commit.causalToken = p.fresh (.version 0)
  record_eq : idempotencyRecord? config p.identity p.request.mutation prepared.result
    p.readings.accepted = .ok prepared.record

/-- The heads of what a read found. -/
def headsOf (snapshot : Option EntitySnapshot) : List String :=
  (snapshot.map (·.headVersions)).getD []

theorem prepareCreate_prepares (hlaw : A.Lawful) {p : Preparation} {value : Value}
    {snapshot : Option EntitySnapshot} {prepared : Prepared}
    (h : prepareCreate A config p value snapshot = .ok prepared) :
    Prepares A config p (headsOf snapshot) prepared := by
  cases snapshot with
  | some snapshot => cases h
  | none =>
    obtain ⟨hcommit, hresult, hrecord⟩ := Preparation.prepared_eq_ok h
    have hown := activeStoredVersion_genuine
      (initialCrdtFields_genuine hlaw p.actors p.plan value) (p.fresh (.version 0)) value
    refine ⟨by rw [hcommit]; rfl, by rw [hcommit]; rfl, ?_, ?_, by simp [hcommit,
      Preparation.commit], ?_, by rw [hcommit]; rfl, hrecord⟩
    · rw [hcommit]
      refine ⟨fun version hversion => Or.inl (by simpa [Preparation.commit, activeStoredVersion]
        using hversion), ⟨p.fresh (.version 0), by simp [Preparation.commit], ?_⟩, ?_, ?_⟩
      · simp [Preparation.commit, activeStoredVersion]
      · simp [Preparation.commit, activeStoredVersion]
      · simpa [Preparation.commit] using hown
    · rw [hcommit]
      simp only [Preparation.commit, List.mem_singleton, forall_eq]
      exact ⟨0, rfl⟩
    · rw [hcommit]
      refine ⟨_, List.mem_singleton.mpr rfl, rfl, Or.inl ⟨value, rfl, rfl, hresult⟩⟩

theorem prepareUpdate_prepares (hlaw : A.Lawful) {p : Preparation} {value : Value}
    {snapshot : Option EntitySnapshot} {prepared : Prepared}
    (h : prepareUpdate A toText config p value snapshot = .ok prepared) :
    Prepares A config p (headsOf snapshot) prepared := by
  obtain ⟨s, u, rfl, hupdated⟩ := prepareUpdate_updated h
  have hown := hupdated.own_mem
  have hhead := keepVariants_new_head hown
  refine ⟨by rw [hupdated.commit_eq]; rfl, by rw [hupdated.commit_eq]; rfl, ?_, ?_,
    by rw [hupdated.commit_eq]; exact hhead, ?_, by rw [hupdated.commit_eq]; rfl,
    hupdated.record_eq⟩
  · rw [hupdated.commit_eq]
    refine ⟨fun version hversion => ?_, ⟨_, hhead, List.mem_map_of_mem hown⟩,
      List.mem_map_of_mem hown, hupdated.genuine hlaw⟩
    rcases hupdated.heads_cases hversion with hnew | hconcurrent
    · exact Or.inl hnew
    · exact Or.inr (hupdated.mem_concurrent.mp hconcurrent).1
  · rw [hupdated.commit_eq]
    intro v hv
    obtain ⟨i, c, -, -, rfl⟩ := mem_keepVariants_new.mp hv
    exact ⟨i, rfl⟩
  · rw [hupdated.commit_eq]
    exact ⟨_, hown, rfl, Or.inl ⟨u.first.value, rfl, rfl, hupdated.result_eq⟩⟩

/-- How an accepted deletion came about: its tombstone joins the concurrent heads. -/
structure Deleted (config : BackendConfig) (p : Preparation) (snapshot : EntitySnapshot)
    (prepared : Prepared) (bases concurrent : List StoredEntityVersion) : Prop where
  bases_eq : selectedBases p.plan snapshot = .ok bases
  exact_eq : rejectUnlessExactHeads p.plan snapshot bases = .ok ()
  concurrent_eq : concurrentHeads snapshot bases = .ok concurrent
  commit_eq : prepared.commit = p.commit snapshot.headVersions
    [{ version := p.fresh (.version 0), state := .deleted, valueJson := none, crdtFields := [] }]
    (concurrent.map (·.version) ++ [p.fresh (.version 0)])
    (mutationChangeKind snapshot (concurrent.map (·.version) ++ [p.fresh (.version 0)]) true)
    (p.fresh (.version 0))
  result_eq : prepared.result = p.result (.deleted p.entityRef (p.fresh (.version 0)))
  record_eq : idempotencyRecord? config p.identity p.request.mutation prepared.result
    p.readings.accepted = .ok prepared.record

theorem prepareDelete_deleted {p : Preparation} {snapshot : Option EntitySnapshot}
    {prepared : Prepared} (h : prepareDelete config p snapshot = .ok prepared) :
    ∃ s bases concurrent, snapshot = some s ∧ Deleted config p s prepared bases concurrent := by
  cases snapshot with
  | none => cases h
  | some snapshot =>
    obtain ⟨⟨bases, concurrent⟩, hwith, h⟩ := Except.bind_eq_ok.mp h
    obtain ⟨hbases, hexact, hconcurrent⟩ := concurrentWith_eq_ok hwith
    dsimp only at h
    split at h
    · cases h
    · obtain ⟨hcommit, hresult, hrecord⟩ := Preparation.prepared_eq_ok h
      exact ⟨snapshot, bases, concurrent, rfl, hbases, hexact, hconcurrent, hcommit, hresult,
        hrecord⟩

theorem prepareDelete_prepares {p : Preparation} {snapshot : Option EntitySnapshot}
    {prepared : Prepared} (h : prepareDelete config p snapshot = .ok prepared) :
    Prepares A config p (headsOf snapshot) prepared := by
  obtain ⟨s, bases, concurrent, rfl, hdeleted⟩ := prepareDelete_deleted h
  refine ⟨by rw [hdeleted.commit_eq]; rfl, by rw [hdeleted.commit_eq]; rfl, ?_, ?_,
    by simp [hdeleted.commit_eq, Preparation.commit], ?_, by rw [hdeleted.commit_eq]; rfl,
    hdeleted.record_eq⟩
  · rw [hdeleted.commit_eq]
    refine ⟨fun version hversion => ?_, ⟨p.fresh (.version 0), ?_⟩, ?_, ?_⟩
    · simp only [Preparation.commit, List.mem_append, List.mem_singleton] at hversion
      rcases hversion with hconcurrent | rfl
      · rw [(concurrentHeads_eq_ok hdeleted.concurrent_eq).1, List.mem_filter] at hconcurrent
        exact Or.inr hconcurrent.1
      · exact Or.inl (by simp [Preparation.commit])
    · simp [Preparation.commit]
    · simp [Preparation.commit]
    · simp [Preparation.commit]
  · rw [hdeleted.commit_eq]
    simp only [Preparation.commit, List.mem_singleton, forall_eq]
    exact ⟨0, rfl⟩
  · rw [hdeleted.commit_eq]
    exact ⟨_, List.mem_singleton.mpr rfl, rfl, Or.inr ⟨rfl, hdeleted.result_eq⟩⟩

/-- **What a mutation commits is well formed,** and it is resolved against the heads that were
read. -/
theorem prepare_prepares (hlaw : A.Lawful) {p : Preparation} {snapshot : Option EntitySnapshot}
    {prepared : Prepared} (h : prepare A toText config p snapshot = .ok prepared) :
    Prepares A config p (headsOf snapshot) prepared := by
  unfold prepare at h
  split at h
  · exact prepareCreate_prepares hlaw h
  · exact prepareUpdate_prepares hlaw h
  · exact prepareDelete_prepares h

/-! ### Resolutions of publication conflicts -/

section Publication

variable {fresh : Draw → String} {conflict : WorkUnitConflict} {resolution : WorkUnitResolution}

theorem insertHeads_mem {heads result : List (String × StoredEntityVersion)}
    {snapshot : EntitySnapshot} (h : insertHeads heads snapshot = .ok result) :
    ∀ entry ∈ result, entry ∈ heads ∨ entry.2 ∈ snapshot.versions := by
  unfold insertHeads at h
  refine Except.foldlM_inv
    (I := fun current => ∀ entry ∈ current, entry ∈ heads ∨ entry.2 ∈ snapshot.versions)
    (fun current hcurrent name _ next hnext => ?_) (fun entry hentry => Or.inl hentry) h
  obtain ⟨stored, hstored, hnext⟩ := Except.bind_eq_ok.mp hnext
  simp only [Except.pure_eq_ok, Except.ok.injEq] at hnext
  subst hnext
  intro entry hentry
  rcases Table.mem_insertEntry hentry with rfl | hold
  · exact Or.inr (EntitySnapshot.version?_eq_some (snapshotVersion_eq_ok.mp hstored)).1
  · exact hcurrent entry hold

/-- A resolution that succeeded, taken apart. -/
structure Resolved (A : Automerge) (toText : Value → String) (config : BackendConfig)
    (names : ℕ → String) (conflict : WorkUnitConflict) (resolution : WorkUnitResolution)
    (heads : List StoredEntityVersion) (stored : List ConflictCandidate) (deleted : List String)
    (variants : List ConflictCandidate) (into : ℕ → ℕ) : Prop where
  offered : Offered A heads stored deleted
  heads_versions : ∀ v ∈ heads, v ∈ conflict.staged.versions ∨
    ∃ current, conflict.current = some current ∧ v ∈ current.versions
  mem_heads : ∀ name, name ∈ heads.map (·.version) ↔
    name ∈ conflict.staged.headVersions ∨ name ∈ conflict.currentHeads
  resolved_eq : resolveHeads A toText (.publication conflict) conflict.conflictPolicyJson deleted
    stored = .ok ⟨variants⟩
  absorption : Absorption stored variants into
  valid : validateNewVariants config conflict.key.entityType variants = .ok ()
  published_eq : resolution.expectedPublishedHeads = conflict.currentHeads
  key_eq : resolution.entity.key = conflict.key
  expected_eq : resolution.entity.expectedHeads = conflict.staged.headVersions
  new_eq : resolution.entity.newVersions = (keepVariants names deleted variants).newVersions
  mem_headVersions : ∀ name, name ∈ resolution.entity.headVersions ↔
    name ∈ (keepVariants names deleted variants).headVersions

theorem resolvePublicationConflict_resolved {recordedAt i : ℕ}
    (h : resolvePublicationConflict A toText config fresh recordedAt i conflict = .ok resolution) :
    ∃ heads stored deleted variants into, Resolved A toText config (fun v => fresh (.resolved i v))
      conflict resolution heads stored deleted variants into := by
  obtain ⟨-, offer, ⟨variants⟩, hoffer, hresolved, hvalid, hpublished, hkey, hexpected, hnew, hheads,
    -⟩ := resolvePublicationConflict_eq_ok h
  obtain ⟨staged, hstaged, hrest⟩ := Except.bind_eq_ok.mp hoffer
  obtain ⟨heads, hcurrent, hadd⟩ := Except.bind_eq_ok.mp hrest
  obtain ⟨stored, deleted, hcandidates, hdeleted, hoffered⟩ := Offer.addAll_offered hadd
  simp only [List.nil_append] at hcandidates hdeleted
  have hmem : ∀ name, name ∈ (heads.map (·.2)).map (·.version) ↔
      name ∈ conflict.staged.headVersions ∨ name ∈ conflict.currentHeads := by
    intro name
    rw [← publicationOffer_offers_iff hoffer, Offer.addAll_offers_iff hadd]
    simp [Offer.Offers]
  rw [hcandidates, hdeleted] at hresolved
  obtain ⟨into, habsorption⟩ := resolveHeads_absorption hresolved
  refine ⟨heads.map (·.2), stored, deleted, variants, into, hoffered, fun v hv => ?_, hmem,
    hresolved, habsorption, hvalid, hpublished, hkey, hexpected, hdeleted ▸ hnew, fun name => ?_⟩
  · obtain ⟨entry, hentry, rfl⟩ := List.mem_map.mp hv
    have hfrom : entry ∈ staged ∨ ∃ current, conflict.current = some current ∧
        entry.2 ∈ current.versions := by
      unfold insertCurrentHeads at hcurrent
      split at hcurrent
      · rename_i current hsome
        exact (insertHeads_mem hcurrent entry hentry).imp_right fun hv => ⟨current, hsome, hv⟩
      · rw [Except.ok.injEq] at hcurrent
        exact Or.inl (hcurrent ▸ hentry)
    rcases hfrom with hold | hnew
    · exact Or.inl ((insertHeads_mem hstaged entry hold).resolve_left List.not_mem_nil)
    · exact Or.inr hnew
  · rw [hheads, List.mem_dedup, Table.mem_sorted, hdeleted]

namespace Resolved

variable {names : ℕ → String} {heads : List StoredEntityVersion}
  {stored : List ConflictCandidate} {deleted : List String} {variants : List ConflictCandidate}
  {into : ℕ → ℕ}

/-- A head that was offered is a tombstone or the source of a candidate. -/
theorem offered_cases (h : Resolved A toText config names conflict resolution heads stored deleted
    variants into) {name : String} (hname : name ∈ heads.map (·.version)) :
    name ∈ deleted ∨ ∃ c ∈ stored, c.sourceVersion = some name := by
  obtain ⟨v, hv, rfl⟩ := List.mem_map.mp hname
  rcases h.offered.cases_of_mem hv with hstate | ⟨i, c, hc, hcandidate⟩
  · exact Or.inl (h.offered.mem_deleted.mpr ⟨v, hv, hstate, rfl⟩)
  · exact Or.inr ⟨c, List.mem_of_getElem? hc, storedCandidate_sourceVersion hcandidate⟩

/-- What no new version took in is still a head. -/
theorem keeps (h : Resolved A toText config names conflict resolution heads stored deleted
    variants into) (hnone : resolution.entity.newVersions = []) {name : String}
    (hname : name ∈ heads.map (·.version)) : name ∈ resolution.entity.headVersions := by
  rw [h.mem_headVersions, mem_keepVariants_heads]
  rcases h.offered_cases hname with hdeleted | ⟨c, hc, hsource⟩
  · exact Or.inl hdeleted
  · obtain ⟨i, hi, rfl⟩ := List.getElem_of_mem hc
    obtain ⟨v, hv, habsorbs⟩ := h.absorption.absorbs i stored[i] (List.getElem?_eq_getElem hi)
    rcases habsorbs with rfl | hcarries
    · exact Or.inr ⟨into i, _, hv, by rw [hsource]; rfl⟩
    · have hnew : activeStoredVersion (names (into i)) v.value v.crdtFields ∈
          resolution.entity.newVersions := by
        rw [h.new_eq]
        exact mem_keepVariants_new.mpr ⟨into i, v, hv, hcarries.new, rfl⟩
      simp [hnone] at hnew

theorem genuine (h : Resolved A toText config names conflict resolution heads stored deleted
    variants into) :
    ∀ v ∈ resolution.entity.newVersions, ∀ f ∈ v.crdtFields, ∀ c ∈ f.changes, Genuine A c := by
  intro v hv
  rw [h.new_eq] at hv
  obtain ⟨i, c, hc, -, rfl⟩ := mem_keepVariants_new.mp hv
  have hcandidates : GenuineVariants A stored := by
    intro c hc
    obtain ⟨v, -, -, hv, -⟩ := h.offered.of_mem hc
    exact storedCandidate_genuine hv
  exact activeStoredVersion_genuine
    (resolveHeads_genuine hcandidates h.resolved_eq c (List.mem_of_getElem? hc)) _ _

/-- **A resolution is well formed.** -/
theorem wellFormed (h : Resolved A toText config names conflict resolution heads stored deleted
    variants into) : resolution.WellFormed A := by
  refine ⟨fun version hversion => ?_, ?_, h.genuine⟩
  · rw [h.mem_headVersions] at hversion
    rw [h.new_eq, h.expected_eq, h.published_eq]
    rcases keepVariants_heads_cases hversion with hnew | hdeleted | ⟨c, hc, hsource⟩
    · exact Or.inl hnew
    · obtain ⟨v, hv, -, rfl⟩ := h.offered.mem_deleted.mp hdeleted
      exact Or.inr ((h.mem_heads _).mp (List.mem_map_of_mem hv))
    · obtain ⟨v, hv, -, -, hsource'⟩ := h.offered.of_mem (h.absorption.source hc hsource)
      rw [hsource, Option.some.injEq] at hsource'
      exact Or.inr ((h.mem_heads _).mp (hsource' ▸ List.mem_map_of_mem hv))
  · cases hnone : resolution.entity.newVersions with
    | nil =>
      refine Or.inr fun version hversion => h.keeps hnone ((h.mem_heads version).mpr (Or.inl ?_))
      rwa [h.expected_eq] at hversion
    | cons v rest =>
      have hv : v ∈ resolution.entity.newVersions := by simp [hnone]
      refine Or.inl ⟨v.version, ?_, by simp⟩
      rw [h.mem_headVersions]
      exact keepVariants_new_head (h.new_eq ▸ hv)

/-- The versions a resolution creates have names of their own. -/
theorem named (h : Resolved A toText config names conflict resolution heads stored deleted
    variants into) : ∀ v ∈ resolution.entity.newVersions, ∃ i, v.version = names i := by
  intro v hv
  rw [h.new_eq] at hv
  obtain ⟨i, c, -, -, rfl⟩ := mem_keepVariants_new.mp hv
  exact ⟨i, rfl⟩

end Resolved

/-- What is collected of a refused conflict is not nothing. -/
theorem rejectedConflicts_ne_nil (conflict : WorkUnitConflict) (error : BackendError) :
    rejectedConflicts conflict error ≠ [] := by
  unfold rejectedConflicts
  split
  · simp
  · assumption

/-- Every conflict that was resolved was resolved at its own position. -/
theorem resolveEach_resolved {recordedAt : ℕ → ℕ} {conflicts : List WorkUnitConflict} {n : ℕ}
    {resolutions : List WorkUnitResolution}
    (h : resolveEach A toText config fresh recordedAt n conflicts = .ok (resolutions, [])) :
    resolutions.length = conflicts.length ∧ ∀ (i : ℕ) conflict, conflicts[i]? = some conflict →
      ∃ resolution, resolutions[i]? = some resolution ∧
        resolvePublicationConflict A toText config fresh (recordedAt (n + i)) (n + i) conflict =
          .ok resolution := by
  induction conflicts generalizing n resolutions with
  | nil =>
    simp only [resolveEach, Except.ok.injEq, Prod.mk.injEq] at h
    exact ⟨by simp [← h.1], by simp⟩
  | cons conflict rest ih =>
    simp only [resolveEach] at h
    split at h
    · rename_i resolution hresolution
      obtain ⟨⟨resolutions', rejected⟩, hrest, h⟩ := Except.bind_eq_ok.mp h
      simp only [Except.pure_eq_ok, Except.ok.injEq, Prod.mk.injEq] at h
      obtain ⟨rfl, rfl⟩ := h
      obtain ⟨hlength, hall⟩ := ih hrest
      refine ⟨by simp [hlength], fun i c hc => ?_⟩
      cases i with
      | zero =>
        simp only [List.getElem?_cons_zero, Option.some.injEq] at hc
        exact ⟨resolution, rfl, hc ▸ hresolution⟩
      | succ i =>
        obtain ⟨r, hr, hrok⟩ := hall i c (by simpa using hc)
        exact ⟨r, by simpa using hr, by rw [← hrok, Nat.add_right_comm, Nat.add_assoc]⟩
    · split at h
      · obtain ⟨⟨resolutions', rejected⟩, -, h⟩ := Except.bind_eq_ok.mp h
        simp only [Except.pure_eq_ok, Except.ok.injEq, Prod.mk.injEq, List.append_eq_nil_iff] at h
        exact absurd h.2.1 (rejectedConflicts_ne_nil _ _)
      · cases h

/-- **The resolutions an engine sends,** one for each conflict. -/
theorem resolvePublicationConflicts_resolved {recordedAt : ℕ → ℕ}
    {conflicts : List WorkUnitConflict} {resolutions : List WorkUnitResolution}
    (h : resolvePublicationConflicts A toText config fresh recordedAt conflicts = .ok resolutions) :
    resolutions.length = conflicts.length ∧ ∀ (i : ℕ) conflict, conflicts[i]? = some conflict →
      ∃ resolution, resolutions[i]? = some resolution ∧
        ∃ heads stored deleted variants into, Resolved A toText config (fun v => fresh (.resolved i v))
          conflict resolution heads stored deleted variants into := by
  obtain ⟨⟨resolutions', rejected⟩, heach, h⟩ := Except.bind_eq_ok.mp h
  dsimp only at h
  split at h
  · rename_i hnone
    simp only [Except.pure_eq_ok, Except.ok.injEq] at h
    subst h hnone
    obtain ⟨hlength, hall⟩ := resolveEach_resolved heach
    refine ⟨hlength, fun i c hc => ?_⟩
    obtain ⟨r, hr, hok⟩ := hall i c hc
    rw [Nat.zero_add] at hok
    exact ⟨r, hr, resolvePublicationConflict_resolved hok⟩
  · cases h

end Publication

end Guarantees

end Patchouli
