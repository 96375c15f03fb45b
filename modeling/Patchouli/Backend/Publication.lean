import Patchouli.Backend.Candidate
import Patchouli.Backend.Config
import Patchouli.Lib.ThreeWay

/-!
# Publication conflicts

A work unit that closes finds some of its entities published since its baseline. For each of them
`resolve_publication_conflict` offers the heads the unit staged and the heads now published to one
resolution, and commits what is left as the heads of the entity.

The conflict carries the baseline heads, and the resolution never looks at them: it takes the union
of the two sides, not their three-way merge.

## Main definitions

* `publicationOffer` — what a conflict offers
* `resolvePublicationConflict`, `resolvePublicationConflicts`

## Main results

* `publicationOffer_offers_iff` — a conflict offers its staged and its current heads
* `resolvePublicationConflict_threeWay_iff` — when that is the three-way merge
-/

namespace Patchouli

open Json (Value)

/-- The names one request draws: the identity of an entity it creates, the variants of its own
resolution, and the variants and the causal token of each publication conflict it resolves. -/
inductive Draw where
  | entityId
  | version (variant : ℕ)
  | resolved (conflict variant : ℕ)
  | resolvedToken (conflict : ℕ)
  deriving DecidableEq

section Resolution

variable (A : Automerge) (toText : Value → String) (config : BackendConfig)

/-- Enter the heads of a snapshot into the map of a conflict's heads. -/
def insertHeads (heads : List (String × StoredEntityVersion)) (snapshot : EntitySnapshot) :
    Except BackendError (List (String × StoredEntityVersion)) :=
  snapshot.headVersions.foldlM (fun heads name => do
    let stored ← snapshotVersion snapshot name
    return Table.insertEntry name stored heads) heads

/-- Enter the published heads, if the entity is published. -/
def insertCurrentHeads (heads : List (String × StoredEntityVersion)) :
    Option EntitySnapshot → Except BackendError (List (String × StoredEntityVersion))
  | some current => insertHeads heads current
  | none => .ok heads

/-- What a conflict offers: the heads that were staged and the heads that are published. -/
def publicationOffer (conflict : WorkUnitConflict) : Except BackendError Offer := do
  let staged ← insertHeads [] conflict.staged
  let heads ← insertCurrentHeads staged conflict.current
  Offer.addAll A { candidates := [], deleted := [] } (heads.map (·.2))

/-- The values a resolution creates are validated, in order. -/
def validateNewVariants (entityType : String) : List ConflictCandidate → Except BackendError Unit
  | [] => .ok ()
  | variant :: rest =>
    match variant.sourceVersion with
    | some _ => validateNewVariants entityType rest
    | none =>
      match config.validateEntityValue entityType variant.value with
      | .ok () => validateNewVariants entityType rest
      | .error error => .error (invalidRequest error.text)

/-- `resolve_publication_conflict`, for the conflict at position `i`. -/
def resolvePublicationConflict (fresh : Draw → String) (recordedAt i : ℕ)
    (conflict : WorkUnitConflict) : Except BackendError WorkUnitResolution :=
  let plan := conflict.conflictPolicyJson
  if plan.strategy = .reject then .error (entityConflictError conflict conflict.currentHeads)
  else do
    let offer ← publicationOffer A conflict
    let resolved ← resolveHeads A toText (.publication conflict) plan offer.deleted offer.candidates
    validateNewVariants config conflict.key.entityType resolved.variants
    let kept := keepVariants (fun v => fresh (.resolved i v)) offer.deleted resolved.variants
    let headVersions := (Table.sorted kept.headVersions).dedup
    if headVersions = [] then
      .error (providerCorruption "publication conflict resolution produced no entity heads")
    else return {
      expectedPublishedHeads := conflict.currentHeads
      entity := {
        key := conflict.key
        expectedHeads := conflict.staged.headVersions
        newVersions := kept.newVersions
        headVersions
        changeKind := .updated
        causalToken := fresh (.resolvedToken i)
        eventMetaJson := []
        writeSessionKeys := []
        recordedAtUnixMs := recordedAt
        deadlineUnixMs := none } }

/-- What `resolve_publication_conflicts` collects of a refused conflict. -/
def rejectedConflicts (conflict : WorkUnitConflict) (error : BackendError) :
    List EntityVersionConflict :=
  if error.conflicts = [] then
    [{ entityRef := ⟨conflict.key.entityType, conflict.key.entityId⟩
       currentVersions := error.currentVersions }]
  else error.conflicts

/-- The loop of `resolve_publication_conflicts`: the resolutions and the refusals. -/
def resolveEach (fresh : Draw → String) (recordedAt : ℕ → ℕ) :
    ℕ → List WorkUnitConflict →
    Except BackendError (List WorkUnitResolution × List EntityVersionConflict)
  | _, [] => .ok ([], [])
  | i, conflict :: rest =>
    match resolvePublicationConflict A toText config fresh (recordedAt i) i conflict with
    | .ok resolution => do
      let (resolutions, rejected) ← resolveEach fresh recordedAt (i + 1) rest
      return (resolution :: resolutions, rejected)
    | .error error =>
      if error.reason = .versionConflict then do
        let (resolutions, rejected) ← resolveEach fresh recordedAt (i + 1) rest
        return (resolutions, rejectedConflicts conflict error ++ rejected)
      else .error error

/-- `resolve_publication_conflicts`. -/
def resolvePublicationConflicts (fresh : Draw → String) (recordedAt : ℕ → ℕ)
    (conflicts : List WorkUnitConflict) : Except BackendError (List WorkUnitResolution) := do
  let (resolutions, rejected) ← resolveEach A toText config fresh recordedAt 0 conflicts
  if rejected = [] then return resolutions
  else .error (BackendError.entityConflicts rejected)

end Resolution

/-! ### What is offered -/

section Offers

variable {A : Automerge}

theorem storedCandidate_sourceVersion {version : StoredEntityVersion} {candidate : ConflictCandidate}
    (h : storedCandidate A version = .ok candidate) :
    candidate.sourceVersion = some version.version := by
  obtain ⟨value, -, h⟩ := Except.bind_eq_ok.mp h
  obtain ⟨crdtFields, -, h⟩ := Except.bind_eq_ok.mp h
  simp only [Except.pure_eq_ok, Except.ok.injEq] at h
  rw [← h]

theorem Offer.add_offers_iff {offer result : Offer} {version : StoredEntityVersion}
    (h : offer.add A version = .ok result) (v : String) :
    result.Offers v ↔ offer.Offers v ∨ v = version.version := by
  cases hstate : version.state with
  | active =>
    simp only [Offer.add, hstate] at h
    obtain ⟨candidate, hcandidate, h⟩ := Except.bind_eq_ok.mp h
    simp only [Except.pure_eq_ok, Except.ok.injEq] at h
    subst h
    simp only [Offer.Offers, List.map_append, List.map_cons, List.map_nil, List.mem_append,
      List.mem_singleton, storedCandidate_sourceVersion hcandidate, Option.some.injEq, or_assoc]
  | deleted =>
    simp only [Offer.add, hstate, Except.ok.injEq] at h
    subst h
    simp only [Offer.Offers, List.mem_append, List.mem_singleton]
    tauto

/-- An offer has what it had and the versions added. -/
theorem Offer.addAll_offers_iff {offer result : Offer} {versions : List StoredEntityVersion}
    (h : offer.addAll A versions = .ok result) (v : String) :
    result.Offers v ↔ offer.Offers v ∨ v ∈ versions.map (·.version) := by
  induction versions generalizing offer with
  | nil =>
    simp only [Offer.addAll, List.foldlM_nil, Except.pure_eq_ok, Except.ok.injEq] at h
    simp [h]
  | cons version versions ih =>
    obtain ⟨next, hnext, hrest⟩ := Except.foldlM_cons_eq_ok.mp h
    rw [ih hrest, Offer.add_offers_iff hnext, List.map_cons, List.mem_cons, or_assoc]

theorem EntitySnapshot.version?_eq_some {snapshot : EntitySnapshot} {name : String}
    {stored : StoredEntityVersion} (h : snapshot.version? name = some stored) :
    stored ∈ snapshot.versions ∧ stored.version = name :=
  ⟨List.mem_of_find?_eq_some h, by simpa using List.find?_some h⟩

theorem snapshotVersion_eq_ok {snapshot : EntitySnapshot} {name : String}
    {stored : StoredEntityVersion} :
    snapshotVersion snapshot name = .ok stored ↔ snapshot.version? name = some stored := by
  unfold snapshotVersion
  split
  · rename_i found hfound
    rw [hfound, Except.ok.injEq, Option.some.injEq]
  · rename_i hnone
    simp [hnone]

/-- A map of heads: every version is entered under its name. -/
def NamedHeads (heads : List (String × StoredEntityVersion)) : Prop :=
  ∀ entry ∈ heads, entry.2.version = entry.1

theorem mem_map_insertEntry (k : String) (v : StoredEntityVersion)
    (heads : List (String × StoredEntityVersion)) (name : String) :
    name ∈ (Table.insertEntry k v heads).map (·.1) ↔ name = k ∨ name ∈ heads.map (·.1) := by
  induction heads with
  | nil => simp [Table.insertEntry]
  | cons entry rest ih =>
    obtain ⟨l, w⟩ := entry
    simp only [Table.insertEntry]
    split
    · rename_i hk
      subst hk
      simp
    · split
      · simp
      · simp only [List.map_cons, List.mem_cons, ih]
        tauto

theorem insertHeads_names {heads result : List (String × StoredEntityVersion)}
    {snapshot : EntitySnapshot} (h : insertHeads heads snapshot = .ok result)
    (hnamed : NamedHeads heads) :
    NamedHeads result ∧ ∀ name, name ∈ result.map (·.1) ↔
      name ∈ heads.map (·.1) ∨ name ∈ snapshot.headVersions := by
  have key : ∀ (names : List String) (heads : List (String × StoredEntityVersion)),
      NamedHeads heads →
      names.foldlM (fun heads name => do
        let stored ← snapshotVersion snapshot name
        return Table.insertEntry name stored heads) heads = Except.ok result →
      NamedHeads result ∧ ∀ name, name ∈ result.map (·.1) ↔
        name ∈ heads.map (·.1) ∨ name ∈ names := by
    intro names
    induction names with
    | nil =>
      intro heads hnamed h
      simp only [List.foldlM_nil, Except.pure_eq_ok, Except.ok.injEq] at h
      subst h
      exact ⟨hnamed, by simp⟩
    | cons head names ih =>
      intro heads hnamed h
      obtain ⟨next, hnext, hrest⟩ := Except.foldlM_cons_eq_ok.mp h
      obtain ⟨stored, hstored, hentry⟩ := Except.bind_eq_ok.mp hnext
      simp only [Except.pure_eq_ok, Except.ok.injEq] at hentry
      subst hentry
      have hname := (EntitySnapshot.version?_eq_some (snapshotVersion_eq_ok.mp hstored)).2
      obtain ⟨hresult, hmem⟩ := ih _ (fun entry hentry => by
        rcases Table.mem_insertEntry hentry with rfl | hold
        · exact hname
        · exact hnamed entry hold) hrest
      refine ⟨hresult, fun name => ?_⟩
      rw [hmem, mem_map_insertEntry, List.mem_cons]
      tauto
  exact key snapshot.headVersions heads hnamed h

/-- **A conflict offers the union.** -/
theorem publicationOffer_offers_iff {conflict : WorkUnitConflict} {offer : Offer}
    (h : publicationOffer A conflict = .ok offer) (v : String) :
    offer.Offers v ↔ v ∈ conflict.staged.headVersions ∨ v ∈ conflict.currentHeads := by
  obtain ⟨staged, hstaged, h⟩ := Except.bind_eq_ok.mp h
  obtain ⟨heads, hheads, h⟩ := Except.bind_eq_ok.mp h
  obtain ⟨hstagedNamed, hstagedMem⟩ := insertHeads_names hstaged (by simp [NamedHeads])
  have hunion : NamedHeads heads ∧ ∀ name, name ∈ heads.map (·.1) ↔
      name ∈ conflict.staged.headVersions ∨ name ∈ conflict.currentHeads := by
    cases hcurrent : conflict.current with
    | none =>
      simp only [hcurrent, insertCurrentHeads, Except.ok.injEq] at hheads
      subst hheads
      refine ⟨hstagedNamed, fun name => ?_⟩
      rw [hstagedMem]
      simp [WorkUnitConflict.currentHeads, hcurrent]
    | some current =>
      simp only [hcurrent, insertCurrentHeads] at hheads
      obtain ⟨hnamed, hmem⟩ := insertHeads_names hheads hstagedNamed
      refine ⟨hnamed, fun name => ?_⟩
      rw [hmem, hstagedMem]
      simp [WorkUnitConflict.currentHeads, hcurrent]
  have hnames : (heads.map (·.2)).map (·.version) = heads.map (·.1) := by
    rw [List.map_map]
    exact List.map_congr_left hunion.1
  rw [Offer.addAll_offers_iff h, hnames, hunion.2]
  simp [Offer.Offers]

end Offers

/-! ### Union and three-way merge -/

section ThreeWay

variable {A : Automerge} {toText : Value → String} {config : BackendConfig}
  {fresh : Draw → String} {recordedAt i : ℕ}

/-- The versions a conflict offers to its resolution are the three-way merge of its head sets. -/
def OffersThreeWay (A : Automerge) (conflict : WorkUnitConflict) : Prop :=
  ∃ offer, publicationOffer A conflict = .ok offer ∧
    {v | offer.Offers v} = ThreeWay.merge {v | v ∈ conflict.baselineHeads}
      {v | v ∈ conflict.staged.headVersions} {v | v ∈ conflict.currentHeads}

/-- A resolution that succeeds got its offer. -/
theorem resolvePublicationConflict_eq_ok {conflict : WorkUnitConflict}
    {resolution : WorkUnitResolution}
    (h : resolvePublicationConflict A toText config fresh recordedAt i conflict = .ok resolution) :
    conflict.conflictPolicyJson.strategy ≠ .reject ∧ ∃ offer resolved,
      publicationOffer A conflict = .ok offer ∧
      resolveHeads A toText (.publication conflict) conflict.conflictPolicyJson offer.deleted
        offer.candidates = .ok resolved ∧
      validateNewVariants config conflict.key.entityType resolved.variants = .ok () ∧
      resolution.expectedPublishedHeads = conflict.currentHeads ∧
      resolution.entity.key = conflict.key ∧
      resolution.entity.expectedHeads = conflict.staged.headVersions ∧
      resolution.entity.newVersions = (keepVariants (fun v => fresh (.resolved i v)) offer.deleted
        resolved.variants).newVersions ∧
      resolution.entity.headVersions = (Table.sorted (keepVariants
        (fun v => fresh (.resolved i v)) offer.deleted resolved.variants).headVersions).dedup ∧
      resolution.entity.headVersions ≠ [] := by
  simp only [resolvePublicationConflict] at h
  split at h
  · cases h
  · rename_i hstrategy
    obtain ⟨offer, hoffer, h⟩ := Except.bind_eq_ok.mp h
    obtain ⟨resolved, hresolved, h⟩ := Except.bind_eq_ok.mp h
    obtain ⟨_, hvalid, h⟩ := Except.bind_eq_ok.mp h
    split at h
    · cases h
    · rename_i hheads
      simp only [Except.pure_eq_ok, Except.ok.injEq] at h
      subst h
      exact ⟨hstrategy, offer, resolved, hoffer, hresolved, hvalid, rfl, rfl, rfl, rfl, rfl, hheads⟩

/-- **The union is the three-way merge only when the sides agree on the baseline.** A resolution
that succeeds offered the three-way merge of the head sets exactly when every baseline head was
kept by both sides or superseded by both. -/
theorem resolvePublicationConflict_threeWay_iff {conflict : WorkUnitConflict}
    {resolution : WorkUnitResolution}
    (h : resolvePublicationConflict A toText config fresh recordedAt i conflict = .ok resolution) :
    OffersThreeWay A conflict ↔ ∀ b ∈ conflict.baselineHeads,
      b ∈ conflict.staged.headVersions ↔ b ∈ conflict.currentHeads := by
  obtain ⟨-, offer, -, hoffer, -⟩ := resolvePublicationConflict_eq_ok h
  have hunion : {v | offer.Offers v} =
      {v | v ∈ conflict.staged.headVersions} ∪ {v | v ∈ conflict.currentHeads} := by
    ext v
    exact publicationOffer_offers_iff hoffer v
  have hiff := ThreeWay.union_eq_merge_iff {v | v ∈ conflict.baselineHeads}
    {v | v ∈ conflict.staged.headVersions} {v | v ∈ conflict.currentHeads}
  constructor
  · rintro ⟨offer', hoffer', hmerge⟩
    rw [hoffer, Except.ok.injEq] at hoffer'
    subst hoffer'
    exact hiff.mp (hunion ▸ hmerge)
  · exact fun hbase => ⟨offer, hoffer, hunion.trans (hiff.mpr hbase)⟩

end ThreeWay

/-! ### Heads that come back

An entity has two heads. The unit resolves one of them, a concurrent writer the other; publication
keeps both updates and brings both superseded heads back. -/

section Revived

/-- A conflict over an entity whose versions are those named here. -/
def mvccConflict (baseline staged current : List String) : WorkUnitConflict :=
  let versions := fun names : List String => names.map fun name =>
    ({ version := name, state := .active, valueJson := some .null, crdtFields := [] } :
      StoredEntityVersion)
  { key := ⟨"scope", "note", "n"⟩
    baselineHeads := baseline
    staged := ⟨staged, versions (baseline ++ staged)⟩
    current := some ⟨current, versions (baseline ++ current)⟩
    conflictPolicyJson :=
      { strategy := .mvcc, baseVersionsField := "base_versions", baseVersions := none, merge := []
        otherwise := .mvcc } }

/-- No document is ever loaded. -/
def noAutomerge : Automerge where
  decode := fun _ => none
  hydrate := fun _ => .null
  reconcile := fun _ _ _ => []

def anyValue : BackendConfig where
  entityTypes := [("note", ⟨fun _ => .ok ()⟩)]
  idempotencySeconds := 60
  changesSeconds := 60

theorem superseded_heads_come_back :
    (resolvePublicationConflict noAutomerge (fun _ => "") anyValue (fun _ => "draw") 0 0
      (mvccConflict ["b1", "b2"] ["b2", "s1"] ["b1", "c1"])).toOption.map (·.entity.headVersions) =
        some ["b1", "b2", "c1", "s1"] ∧
      ¬ OffersThreeWay noAutomerge (mvccConflict ["b1", "b2"] ["b2", "s1"] ["b1", "c1"]) := by
  have hheads : (resolvePublicationConflict noAutomerge (fun _ => "") anyValue (fun _ => "draw") 0 0
      (mvccConflict ["b1", "b2"] ["b2", "s1"] ["b1", "c1"])).toOption.map (·.entity.headVersions) =
        some ["b1", "b2", "c1", "s1"] := by decide
  refine ⟨hheads, ?_⟩
  rintro ⟨offer, hoffer, hmerge⟩
  have hrevived : "b1" ∈ {v | offer.Offers v} :=
    (publicationOffer_offers_iff hoffer "b1").mpr (Or.inr (by decide))
  rw [hmerge] at hrevived
  simp [ThreeWay.merge, mvccConflict, WorkUnitConflict.currentHeads] at hrevived

/-- One baseline head, superseded by both sides: the union is the three-way merge. -/
theorem both_updates_are_kept :
    OffersThreeWay noAutomerge (mvccConflict ["b1"] ["s1"] ["c1"]) := by
  cases h : resolvePublicationConflict noAutomerge (fun _ => "") anyValue (fun _ => "draw") 0 0
      (mvccConflict ["b1"] ["s1"] ["c1"]) with
  | error error =>
    have hok : (resolvePublicationConflict noAutomerge (fun _ => "") anyValue (fun _ => "draw") 0 0
      (mvccConflict ["b1"] ["s1"] ["c1"])).toOption.isSome = true := by decide
    rw [h] at hok
    cases hok
  | ok resolution =>
    exact (resolvePublicationConflict_threeWay_iff h).mpr (by decide)

end Revived

end Patchouli
