import Patchouli.Backend.Guarantees

/-!
# What becomes of the heads a mutation replaces

A mutation replaces the heads it read. Its proposal and the heads it does not name as bases go into
the new heads: there is a place among the new heads for each of them, and every new head is such a
place. A head that was read stays itself or is taken in by a new version; the place of the proposal
is a new version.

## Main definitions

* `ConflictPlan.Names` — a version is named in `base_versions`
* `TakesIn`, `Preparation.Represents` — what a new version holds
* `KeepsBranches`

## Main results

* `prepare_keepsBranches` — an accepted update or deletion
* `prepare_reports` — the answer of a mutation names the version it proposes
-/

namespace Patchouli

open Json (Value)

/-! ### Bases -/

/-- The mutation names a version as one of its bases. -/
def ConflictPlan.Names (plan : ConflictPlan) (version : String) : Prop :=
  ∃ values, plan.baseVersions = some (.array values) ∧ Value.string version ∈ values

theorem baseNames_mem {snapshot : EntitySnapshot} {values : List Value} {names result : List String}
    (h : baseNames snapshot values names = .ok result) {version : String} :
    version ∈ result ↔ version ∈ names ∨ Value.string version ∈ values := by
  induction values generalizing names with
  | nil =>
    simp only [baseNames, Except.ok.injEq] at h
    simp [← h, Table.mem_sorted]
  | cons value rest ih =>
    unfold baseNames at h
    split at h
    · cases ‹_ :: _ = []›
    · rename_i name rest' _ heq
      obtain ⟨rfl, rfl⟩ := List.cons.inj heq
      split at h
      · cases h
      · rw [ih h]
        simp only [List.mem_cons, Value.string.injEq]
        tauto
    · cases h

/-- The bases of a mutation are the versions it names. -/
theorem selectedBases_names {plan : ConflictPlan} {snapshot : EntitySnapshot}
    {bases : List StoredEntityVersion} (h : selectedBases plan snapshot = .ok bases)
    {version : String} : version ∈ bases.map (·.version) ↔ plan.Names version := by
  unfold selectedBases at h
  split at h
  · rename_i values hvalues
    split at h
    · cases h
    · obtain ⟨names, hnames, h⟩ := Except.bind_eq_ok.mp h
      rw [(mapM_version? h).1, baseNames_mem hnames]
      simp only [List.not_mem_nil, false_or, ConflictPlan.Names, hvalues, Option.some.injEq,
        Value.array.injEq, exists_eq_left']
  · cases h

/-! ### What a new version holds -/

section Branches

variable (A : Automerge)

/-- A new version took in a version of the snapshot. -/
def TakesIn (snapshot : EntitySnapshot) (head : String) (new : StoredEntityVersion) : Prop :=
  ∃ stored ∈ snapshot.versions, stored.version = head ∧ ∃ c v, storedCandidate A stored = .ok c ∧
    Carries c v ∧ new = activeStoredVersion new.version v.value v.crdtFields

/-- A new version is or took in the proposal of a mutation. -/
def Preparation.Represents (p : Preparation) (snapshot : EntitySnapshot)
    (new : StoredEntityVersion) : Prop :=
  match p.request.mutation with
  | .create _ _ value => new.state = .active ∧ new.valueJson = some value
  | .update _ value => ∃ bases proposed v, selectedBases p.plan snapshot = .ok bases ∧
      prepareCandidate A p.actors p.plan bases value = .ok proposed ∧ Absorbs proposed v ∧
      new = activeStoredVersion new.version v.value v.crdtFields
  | .delete _ => new.state = .deleted ∧ new.valueJson = none ∧ new.crdtFields = []

/-- A commit keeps the branches it replaces. `place` says in which new head the proposal and each
head that was not named is. -/
structure KeepsBranches (p : Preparation) (snapshot : EntitySnapshot) (commit : EntityCommit)
    (place : Option String → String) : Prop where
  replaced : commit.expectedHeads = snapshot.headVersions
  proposal : ∃ new ∈ commit.newVersions, new.version = place none ∧ p.Represents A snapshot new
  unnamed : ∀ head ∈ snapshot.headVersions, ¬ p.plan.Names head → place (some head) = head ∨
    ∃ new ∈ commit.newVersions, new.version = place (some head) ∧ TakesIn A snapshot head new
  heads : ∀ version, version ∈ commit.headVersions ↔ version = place none ∨
    ∃ head ∈ snapshot.headVersions, ¬ p.plan.Names head ∧ version = place (some head)

/-- Where an update puts its proposal and the heads it was concurrent to. -/
def Updating.place (u : Updating) (names : ℕ → String) : Option String → String
  | none => names 0
  | some head =>
    match (u.proposed :: u.stored).findIdx? (·.sourceVersion = some head) with
    | some i =>
      match u.variants[u.into i]? with
      | some v => variantHead names (v, u.into i)
      | none => head
    | none => head

variable {A} {toText : Value → String} {config : BackendConfig}

/-- The stored candidates of an offer have the names of its active versions. -/
theorem Offered.sources {versions : List StoredEntityVersion} {stored : List ConflictCandidate}
    {deleted : List String} (h : Offered A versions stored deleted) :
    stored.map (·.sourceVersion) =
      (versions.filter (·.state = .active)).map fun v => some v.version := by
  obtain ⟨hall, -⟩ := h
  generalize versions.filter (·.state = .active) = actives at hall
  induction hall with
  | nil => rfl
  | cons hv _ ih => rw [List.map_cons, List.map_cons, ih, storedCandidate_sourceVersion hv]

namespace Updated

variable {p : Preparation} {value : Value} {snapshot : EntitySnapshot} {prepared : Prepared}
  {u : Updating}

/-- A head has one candidate at most. -/
theorem candidate_unique (h : Updated A toText config p value snapshot prepared u)
    (hnodup : snapshot.headVersions.Nodup) {i j : ℕ} {c d : ConflictCandidate} {head : String}
    (hc : (u.proposed :: u.stored)[i]? = some c) (hd : (u.proposed :: u.stored)[j]? = some d)
    (hchead : c.sourceVersion = some head) (hdhead : d.sourceVersion = some head) : i = j := by
  have hconcurrent : (u.concurrent.map (·.version)).Nodup := by
    rw [(concurrentHeads_eq_ok h.concurrent_eq).1]
    exact hnodup.filter _
  have hsources : (u.stored.map (·.sourceVersion)).Nodup := by
    rw [h.offered.sources]
    have hactive : ((u.concurrent.filter (·.state = .active)).map (·.version)).Nodup :=
      hconcurrent.sublist (List.filter_sublist.map _)
    have := hactive.map (Option.some_injective _)
    rwa [List.map_map] at this
  have hproposed := (prepareCandidate_source h.proposed_eq).1
  cases i with
  | zero =>
    simp only [List.getElem?_cons_zero, Option.some.injEq] at hc
    rw [← hc, hproposed] at hchead
    cases hchead
  | succ i =>
    cases j with
    | zero =>
      simp only [List.getElem?_cons_zero, Option.some.injEq] at hd
      rw [← hd, hproposed] at hdhead
      cases hdhead
    | succ j =>
      rw [List.getElem?_cons_succ] at hc hd
      obtain ⟨hi, rfl⟩ := List.getElem?_eq_some_iff.mp hc
      obtain ⟨hj, rfl⟩ := List.getElem?_eq_some_iff.mp hd
      have hi' : i < (u.stored.map (·.sourceVersion)).length := by simpa using hi
      have hj' : j < (u.stored.map (·.sourceVersion)).length := by simpa using hj
      have heq : (u.stored.map (·.sourceVersion))[i] = (u.stored.map (·.sourceVersion))[j] := by
        rw [List.getElem_map, List.getElem_map, hchead, hdhead]
      rw [hsources.getElem_inj_iff.mp heq]

/-- The place of the head of a candidate. -/
theorem place_of_candidate (h : Updated A toText config p value snapshot prepared u)
    (hnodup : snapshot.headVersions.Nodup) (names : ℕ → String) {i : ℕ} {c v : ConflictCandidate}
    {head : String} (hc : (u.proposed :: u.stored)[i]? = some c)
    (hhead : c.sourceVersion = some head) (hv : u.variants[u.into i]? = some v) :
    u.place names (some head) = v.sourceVersion.getD (names (u.into i)) := by
  have hfound : (u.proposed :: u.stored).findIdx? (·.sourceVersion = some head) = some i := by
    cases hfind : (u.proposed :: u.stored).findIdx? (·.sourceVersion = some head) with
    | none =>
      have hnone := List.findIdx?_eq_none_iff.mp hfind c (List.mem_of_getElem? hc)
      simp [hhead] at hnone
    | some j =>
      obtain ⟨hj, hsource, -⟩ := List.findIdx?_eq_some_iff_getElem.mp hfind
      rw [h.candidate_unique hnodup hc (List.getElem?_eq_getElem hj) hhead
        (of_decide_eq_true hsource)]
  simp only [Updating.place, hfound, hv, variantHead]

/-- The place of a tombstone. -/
theorem place_of_deleted (h : Updated A toText config p value snapshot prepared u)
    (hnodup : snapshot.headVersions.Nodup) (names : ℕ → String) {head : String}
    (hhead : head ∈ u.deleted) : u.place names (some head) = head := by
  have hnone : (u.proposed :: u.stored).findIdx? (·.sourceVersion = some head) = none := by
    refine List.findIdx?_eq_none_iff.mpr fun c hc => decide_eq_false fun hsource => ?_
    rcases List.mem_cons.mp hc with rfl | hstored
    · rw [(prepareCandidate_source h.proposed_eq).1] at hsource
      cases hsource
    · obtain ⟨v, hv, hactive, -, hname⟩ := h.offered.of_mem hstored
      obtain ⟨d, hd, hdeleted, hdname⟩ := h.offered.mem_deleted.mp hhead
      rw [hsource, Option.some.injEq] at hname
      have hconcurrent : (u.concurrent.map (·.version)).Nodup := by
        rw [(concurrentHeads_eq_ok h.concurrent_eq).1]
        exact hnodup.filter _
      have hsame : d = v := List.inj_on_of_nodup_map hconcurrent hd hv (hdname.trans hname)
      rw [hsame, hactive] at hdeleted
      cases hdeleted
  simp only [Updating.place, hnone]

/-- **An update keeps its branches.** -/
theorem keepsBranches (h : Updated A toText config p value snapshot prepared u)
    (hvalue : ∃ entityRef, p.request.mutation = .update entityRef value)
    (hnodup : snapshot.headVersions.Nodup) :
    KeepsBranches A p snapshot prepared.commit (u.place fun v => p.fresh (.version v)) := by
  have hmem : ∀ head, head ∈ snapshot.headVersions ∧ ¬ p.plan.Names head ↔
      head ∈ u.concurrent.map (·.version) := by
    intro head
    rw [h.mem_concurrent, selectedBases_names h.bases_eq]
  have hown := h.own_mem
  refine ⟨by rw [h.commit_eq]; rfl, ?_, fun head hhead hunnamed => ?_, fun version => ?_⟩
  · rw [h.commit_eq]
    refine ⟨_, hown, rfl, ?_⟩
    obtain ⟨entityRef, hvalue⟩ := hvalue
    simp only [Preparation.Represents, hvalue]
    exact ⟨u.bases, u.proposed, u.first, h.bases_eq, h.proposed_eq, h.absorbs, rfl⟩
  · rw [h.commit_eq]
    obtain ⟨stored, hstored, rfl⟩ := List.mem_map.mp ((hmem head).mp ⟨hhead, hunnamed⟩)
    rcases h.offered.cases_of_mem hstored with hstate | ⟨i, c, hc, hcandidate⟩
    · exact Or.inl (h.place_of_deleted hnodup _
        (h.offered.mem_deleted.mpr ⟨stored, hstored, hstate, rfl⟩))
    · have hsource := storedCandidate_sourceVersion hcandidate
      rw [← List.getElem?_cons_succ (a := u.proposed)] at hc
      obtain ⟨v, hv, habsorbs⟩ := h.absorption.absorbs _ _ hc
      rw [h.place_of_candidate hnodup _ hc hsource hv]
      rcases habsorbs with rfl | hcarries
      · exact Or.inl (by rw [hsource]; rfl)
      · refine Or.inr ⟨_, mem_keepVariants_new.mpr ⟨_, v, hv, hcarries.new, rfl⟩, ?_, stored,
          (concurrentHeads_eq_ok h.concurrent_eq).2 stored hstored, rfl, _, v, hcandidate, hcarries,
          rfl⟩
        rw [hcarries.new]
        rfl
  · rw [h.commit_eq]
    show version ∈ (u.kept p).headVersions ↔ _
    rw [Updating.kept, mem_keepVariants_heads]
    constructor
    · rintro (hdeleted | ⟨j, v, hv, rfl⟩)
      · obtain ⟨d, hd, -, rfl⟩ := h.offered.mem_deleted.mp hdeleted
        obtain ⟨hhead, hunnamed⟩ := (hmem d.version).mpr (List.mem_map_of_mem hd)
        exact Or.inr ⟨d.version, hhead, hunnamed, (h.place_of_deleted hnodup _ hdeleted).symm⟩
      · obtain ⟨hj, -⟩ := List.getElem?_eq_some_iff.mp hv
        obtain ⟨i, hi, rfl⟩ := h.absorption.onto j hj
        cases i with
        | zero =>
          rw [h.absorption.first (by simp), h.first_eq, Option.some.injEq] at hv
          subst hv
          refine Or.inl ?_
          rw [h.first_new, h.absorption.first (by simp)]
          rfl
        | succ i =>
          rw [List.length_cons, Nat.add_lt_add_iff_right] at hi
          have hc : (u.proposed :: u.stored)[i + 1]? = some u.stored[i] := by
            rw [List.getElem?_cons_succ, List.getElem?_eq_getElem hi]
          obtain ⟨stored, hstored, -, -, hsource⟩ := h.offered.of_mem (List.getElem_mem hi)
          obtain ⟨hhead, hunnamed⟩ := (hmem stored.version).mpr (List.mem_map_of_mem hstored)
          exact Or.inr ⟨stored.version, hhead, hunnamed,
            (h.place_of_candidate hnodup (fun v => p.fresh (.version v)) hc hsource hv).symm⟩
    · rintro (rfl | ⟨head, hhead, hunnamed, rfl⟩)
      · exact Or.inr ⟨0, u.first, h.first_eq, by rw [h.first_new]; rfl⟩
      · obtain ⟨stored, hstored, rfl⟩ := List.mem_map.mp ((hmem head).mp ⟨hhead, hunnamed⟩)
        rcases h.offered.cases_of_mem hstored with hstate | ⟨i, c, hc, hcandidate⟩
        · have hdeleted := h.offered.mem_deleted.mpr ⟨stored, hstored, hstate, rfl⟩
          exact Or.inl ((h.place_of_deleted hnodup _ hdeleted).symm ▸ hdeleted)
        · rw [← List.getElem?_cons_succ (a := u.proposed)] at hc
          obtain ⟨v, hv, -⟩ := h.absorption.absorbs _ _ hc
          exact Or.inr ⟨_, v, hv, h.place_of_candidate hnodup _ hc
            (storedCandidate_sourceVersion hcandidate) hv⟩

end Updated

/-- **A deletion keeps its branches.** -/
theorem Deleted.keepsBranches {p : Preparation} {snapshot : EntitySnapshot} {prepared : Prepared}
    {bases concurrent : List StoredEntityVersion}
    (h : Deleted config p snapshot prepared bases concurrent)
    (hmutation : ∃ entityRef, p.request.mutation = .delete entityRef) :
    KeepsBranches A p snapshot prepared.commit fun head => head.getD (p.fresh (.version 0)) := by
  have hmem : ∀ head, head ∈ concurrent.map (·.version) ↔
      head ∈ snapshot.headVersions ∧ ¬ p.plan.Names head := by
    intro head
    rw [(concurrentHeads_eq_ok h.concurrent_eq).1, List.mem_filter, decide_eq_true_eq,
      selectedBases_names h.bases_eq]
  obtain ⟨entityRef, hmutation⟩ := hmutation
  refine ⟨by rw [h.commit_eq]; rfl, ?_, fun _ _ _ => Or.inl rfl, fun version => ?_⟩
  · rw [h.commit_eq]
    refine ⟨_, List.mem_singleton.mpr rfl, rfl, ?_⟩
    simp only [Preparation.Represents, hmutation, and_self]
  · rw [h.commit_eq]
    simp only [Preparation.commit, List.mem_append, hmem, List.mem_singleton, Option.getD_none,
      Option.getD_some]
    constructor
    · rintro (⟨hhead, hunnamed⟩ | rfl)
      · exact Or.inr ⟨version, hhead, hunnamed, rfl⟩
      · exact Or.inl rfl
    · rintro (rfl | ⟨head, hhead, hunnamed, rfl⟩)
      · exact Or.inr rfl
      · exact Or.inl ⟨hhead, hunnamed⟩

/-- An update or deletion is accepted of an entity that was read. -/
theorem prepare_some {p : Preparation} {snapshot : Option EntitySnapshot} {prepared : Prepared}
    (h : prepare A toText config p snapshot = .ok prepared)
    (hmutation : ∀ entityType id value, p.request.mutation ≠ .create entityType id value) :
    ∃ some, snapshot = .some some := by
  unfold prepare at h
  split at h
  · exact absurd ‹_› (hmutation _ _ _)
  · obtain ⟨s, -, hs, -⟩ := prepareUpdate_updated h
    exact ⟨s, hs⟩
  · obtain ⟨s, -, -, hs, -⟩ := prepareDelete_deleted h
    exact ⟨s, hs⟩

/-- **An accepted update or deletion keeps its branches.** -/
theorem prepare_keepsBranches {p : Preparation} {snapshot : EntitySnapshot} {prepared : Prepared}
    (h : prepare A toText config p (some snapshot) = .ok prepared)
    (hnodup : snapshot.headVersions.Nodup) :
    ∃ place, KeepsBranches A p snapshot prepared.commit place := by
  unfold prepare at h
  split at h
  · cases h
  · rename_i entityRef value hmutation
    obtain ⟨s, u, hs, hupdated⟩ := prepareUpdate_updated h
    cases hs
    exact ⟨_, hupdated.keepsBranches ⟨entityRef, hmutation⟩ hnodup⟩
  · rename_i entityRef hmutation
    obtain ⟨s, bases, concurrent, hs, hdeleted⟩ := prepareDelete_deleted h
    cases hs
    exact ⟨_, hdeleted.keepsBranches ⟨entityRef, hmutation⟩⟩

/-! ### What is answered -/

/-- The answer of a mutation names a version, with its state and its value. -/
def Preparation.Reports (p : Preparation) (result : MutationResult) (v : StoredEntityVersion) :
    Prop :=
  match p.request.mutation with
  | .delete _ => v.state = .deleted ∧ result.entity = .deleted p.entityRef v.version
  | _ => v.state = .active ∧ ∃ value, v.valueJson = some value ∧
      result.entity = .active p.entityRef v.version value

/-- A prepared mutation answers with the version it proposes. -/
theorem prepare_reports {p : Preparation} {snapshot : Option EntitySnapshot} {prepared : Prepared}
    (h : prepare A toText config p snapshot = .ok prepared) :
    ∃ own ∈ prepared.commit.newVersions, own.version = p.fresh (.version 0) ∧
      p.Represents A (snapshot.getD ⟨[], []⟩) own ∧ p.Reports prepared.result own := by
  unfold prepare at h
  split at h
  · rename_i entityType id value hmutation
    cases snapshot with
    | some snapshot => cases h
    | none =>
      obtain ⟨hcommit, hresult, -⟩ := Preparation.prepared_eq_ok h
      rw [hcommit, hresult]
      refine ⟨_, List.mem_singleton.mpr rfl, rfl, ?_, ?_⟩
      · rw [Preparation.Represents, hmutation]
        exact ⟨rfl, rfl⟩
      · rw [Preparation.Reports, hmutation]
        exact ⟨rfl, value, rfl, rfl⟩
  · rename_i entityRef value hmutation
    obtain ⟨snapshot, u, rfl, hupdated⟩ := prepareUpdate_updated h
    have hown := hupdated.own_mem
    rw [hupdated.commit_eq, hupdated.result_eq]
    refine ⟨_, hown, rfl, ?_, ?_⟩
    · rw [Preparation.Represents, hmutation]
      exact ⟨u.bases, u.proposed, u.first, hupdated.bases_eq, hupdated.proposed_eq,
        hupdated.absorbs, rfl⟩
    · rw [Preparation.Reports, hmutation]
      exact ⟨rfl, u.first.value, rfl, rfl⟩
  · rename_i entityRef hmutation
    obtain ⟨snapshot, bases, concurrent, rfl, hdeleted⟩ := prepareDelete_deleted h
    rw [hdeleted.commit_eq, hdeleted.result_eq]
    refine ⟨_, List.mem_singleton.mpr rfl, rfl, ?_, ?_⟩
    · rw [Preparation.Represents, hmutation]
      exact ⟨rfl, rfl, rfl⟩
    · rw [Preparation.Reports, hmutation]
      exact ⟨rfl, rfl⟩

end Branches

end Patchouli
