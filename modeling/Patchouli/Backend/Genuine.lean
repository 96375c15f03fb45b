import Patchouli.Backend.Provenance

/-!
# Documents stay what they say

A stored change is named by its hash and its edges are those in its bytes. Loading checks it,
reconciling and merging keep it, so the documents of every new version hold genuine changes only.

## Main results

* `storedCandidate_genuine`, `prepareCandidate_genuine` — what goes into a resolution
* `resolveHeads_genuine` — what comes out of it
-/

namespace Patchouli

open Json (Value)

variable {A : Automerge}

/-- Documents of genuine changes. -/
def GenuineFields (A : Automerge) (fields : List (String × CrdtDocument)) : Prop :=
  ∀ entry ∈ fields, ∀ c ∈ entry.2.changes, Genuine A c

namespace GenuineFields

theorem lookup {fields : List (String × CrdtDocument)} (h : GenuineFields A fields) {path : String}
    {document : CrdtDocument} (hd : fields.lookup path = some document) :
    ∀ c ∈ document.changes, Genuine A c := by
  induction fields with
  | nil => cases hd
  | cons entry rest ih =>
    obtain ⟨name, held⟩ := entry
    rw [List.lookup_cons] at hd
    split at hd
    · rw [Option.some.injEq] at hd
      exact hd ▸ h (name, held) (by simp)
    · exact ih (fun e he => h e (List.mem_cons_of_mem _ he)) hd

theorem insertEntry {fields : List (String × CrdtDocument)} (h : GenuineFields A fields)
    {path : String} {document : CrdtDocument} (hd : ∀ c ∈ document.changes, Genuine A c) :
    GenuineFields A (Table.insertEntry path document fields) := by
  intro entry hentry
  rcases Table.mem_insertEntry hentry with rfl | hold
  · exact hd
  · exact h entry hold

end GenuineFields

/-! ### Documents -/

/-- Applying changes invents none. -/
theorem applyChanges_subset (fuel : ℕ) (pending applied : List CrdtChange) :
    ∀ c ∈ applyChanges fuel pending applied, c ∈ pending ∨ c ∈ applied := by
  induction fuel generalizing pending applied with
  | zero => exact fun c hc => Or.inr hc
  | succ fuel ih =>
    intro c hc
    unfold applyChanges at hc
    split at hc
    · rename_i next hnext
      have hmem := List.mem_of_find?_eq_some hnext
      rcases ih _ _ c hc with hpending | happlied
      · exact Or.inl (List.mem_of_mem_erase hpending)
      · split at happlied
        · exact Or.inr happlied
        · rcases List.mem_append.mp happlied with happlied | hlast
          · exact Or.inr happlied
          · exact Or.inl (List.mem_singleton.mp hlast ▸ hmem)
    · exact Or.inr hc

theorem fromChanges_genuine {changes : List CrdtChange} {heads : List String}
    {document : CrdtDocument} (h : CrdtDocument.fromChanges A changes heads = .ok document) :
    ∀ c ∈ document.changes, Genuine A c := by
  obtain ⟨decoded, hdecoded, h⟩ := Except.bind_eq_ok.mp h
  dsimp only at h
  split at h
  · cases h
  · rw [Except.ok.injEq] at h
    subst h
    intro c hc
    have hmem := (applyChanges_subset _ _ _ c hc).resolve_right (by simp)
    obtain ⟨change, -, hcheck⟩ := Except.mem_of_mapM hdecoded hmem
    unfold CrdtDocument.checkChange at hcheck
    split at hcheck
    · cases hcheck
    · rename_i hash deps hdecode
      split at hcheck
      · cases hcheck
      · rw [Except.ok.injEq] at hcheck
        subst hcheck
        exact ⟨deps, hdecode, fun _ => Iff.rfl⟩

theorem loadCrdtDocument_genuine {field : StoredCrdtField} {document : CrdtDocument}
    (h : loadCrdtDocument A field = .ok document) : ∀ c ∈ document.changes, Genuine A c := by
  unfold loadCrdtDocument at h
  cases hload : CrdtDocument.fromChanges A field.changes field.heads with
  | error error =>
    rw [hload] at h
    cases h
  | ok loaded =>
    rw [hload] at h
    cases h
    exact fromChanges_genuine hload

theorem fromJson_genuine (hlaw : A.Lawful) (actor : String) (value : Value) :
    ∀ c ∈ (CrdtDocument.fromJson A actor value).changes, Genuine A c :=
  hlaw.reconcile_genuine (by simp)

theorem change_genuine (hlaw : A.Lawful) {document : CrdtDocument} (actor : String) (value : Value)
    (h : ∀ c ∈ document.changes, Genuine A c) :
    ∀ c ∈ (document.change A actor value).changes, Genuine A c :=
  hlaw.reconcile_genuine h

theorem merge_genuine {documents : List CrdtDocument} {merged : CrdtDocument}
    (hall : ∀ d ∈ documents, ∀ c ∈ d.changes, Genuine A c)
    (h : CrdtDocument.merge documents = .ok merged) : ∀ c ∈ merged.changes, Genuine A c := by
  have key : ∀ (rest : List CrdtDocument) (acc : List CrdtChange), (∀ c ∈ acc, Genuine A c) →
      (∀ d ∈ rest, ∀ c ∈ d.changes, Genuine A c) →
      ∀ c ∈ rest.foldl (fun merged d => mergeChanges merged d.changes) acc, Genuine A c := by
    intro rest
    induction rest with
    | nil => exact fun acc hacc _ => hacc
    | cons d rest ih =>
      intro acc hacc hrest
      rw [List.forall_mem_cons] at hrest
      refine ih _ (fun c hc => ?_) hrest.2
      rcases List.mem_append.mp hc with hc | hc
      · exact hacc c hc
      · exact hrest.1 c (List.mem_filter.mp hc).1
  cases documents with
  | nil => cases h
  | cons first rest =>
    simp only [CrdtDocument.merge, Except.ok.injEq] at h
    subst h
    rw [List.forall_mem_cons] at hall
    exact key rest first.changes hall.1 hall.2

/-! ### Candidates -/

theorem initialCrdtFields_genuine (hlaw : A.Lawful) (actors : String → String) (plan : ConflictPlan)
    (value : Value) : GenuineFields A (initialCrdtFields A actors plan value) := by
  unfold initialCrdtFields
  refine List.foldlRecOn (motive := GenuineFields A) plan.merge _ (by simp [GenuineFields])
    fun fields h rule _ => ?_
  cases value.pointer rule.path with
  | some field => exact h.insertEntry (fromJson_genuine hlaw _ _)
  | none => exact h

/-- The documents of a merge rule's bases. -/
theorem baseDocuments_genuine {plan : ConflictPlan} {rule : ConflictMergeRule} {proposed : Value}
    {bases : List StoredEntityVersion} {documents : List CrdtDocument}
    (h : baseDocuments A plan rule proposed bases = .ok (some documents)) :
    ∀ d ∈ documents, ∀ c ∈ d.changes, Genuine A c := by
  induction bases generalizing documents with
  | nil =>
    simp only [baseDocuments, Except.ok.injEq, Option.some.injEq] at h
    subst h
    simp
  | cons base rest ih =>
    simp only [baseDocuments] at h
    obtain ⟨first, hfirst, h⟩ := Except.bind_eq_ok.mp h
    cases first with
    | none =>
      obtain ⟨-, -, h⟩ := Except.bind_eq_ok.mp h
      cases h
    | some document =>
      obtain ⟨others, hothers, h⟩ := Except.bind_eq_ok.mp h
      cases others with
      | none => cases h
      | some others =>
        simp only [Except.pure_eq_ok, Except.ok.injEq, Option.some.injEq] at h
        subst h
        rw [List.forall_mem_cons]
        refine ⟨?_, ih hothers⟩
        unfold baseDocument at hfirst
        split at hfirst
        · cases hfirst
        · obtain ⟨value, -, hfirst⟩ := Except.bind_eq_ok.mp hfirst
          split at hfirst
          · cases hfirst
          · split at hfirst
            · cases hfirst
            · split at hfirst
              · cases hfirst
              · obtain ⟨loaded, hload, hfirst⟩ := Except.bind_eq_ok.mp hfirst
                simp only [Except.pure_eq_ok, Except.ok.injEq, Option.some.injEq] at hfirst
                subst hfirst
                obtain ⟨loaded', hload', hmatch⟩ := Except.bind_eq_ok.mp hload
                split at hmatch
                · cases hmatch
                · simp only [Except.pure_eq_ok, Except.ok.injEq] at hmatch
                  exact hmatch ▸ loadCrdtDocument_genuine hload'

theorem prepareCandidate_genuine (hlaw : A.Lawful) {actors : String → String} {plan : ConflictPlan}
    {bases : List StoredEntityVersion} {value : Value} {candidate : ConflictCandidate}
    (h : prepareCandidate A actors plan bases value = .ok candidate) :
    GenuineFields A candidate.crdtFields := by
  obtain ⟨fields, hfields, h⟩ := Except.bind_eq_ok.mp h
  simp only [Except.pure_eq_ok, Except.ok.injEq] at h
  subst h
  refine Except.foldlM_inv (fun before hbefore rule _ after hturn => ?_)
    (by simp [GenuineFields]) hfields
  unfold prepareField at hturn
  split at hturn
  · obtain ⟨-, -, hturn⟩ := Except.bind_eq_ok.mp hturn
    simp only [Except.pure_eq_ok, Except.ok.injEq] at hturn
    exact hturn ▸ hbefore
  · obtain ⟨documents, hdocuments, hturn⟩ := Except.bind_eq_ok.mp hturn
    cases documents with
    | none =>
      simp only [Except.pure_eq_ok, Except.ok.injEq] at hturn
      exact hturn ▸ hbefore.insertEntry (fromJson_genuine hlaw _ _)
    | some documents =>
      obtain ⟨base, hbase, hturn⟩ := Except.bind_eq_ok.mp hturn
      simp only [Except.pure_eq_ok, Except.ok.injEq] at hturn
      subst hturn
      refine hbefore.insertEntry (change_genuine hlaw _ _ ?_)
      cases hmerge : CrdtDocument.merge documents with
      | error error =>
        rw [hmerge] at hbase
        cases hbase
      | ok merged =>
        rw [hmerge] at hbase
        cases hbase
        exact merge_genuine (baseDocuments_genuine hdocuments) hmerge

theorem storedCandidate_genuine {version : StoredEntityVersion} {candidate : ConflictCandidate}
    (h : storedCandidate A version = .ok candidate) : GenuineFields A candidate.crdtFields := by
  obtain ⟨value, -, h⟩ := Except.bind_eq_ok.mp h
  obtain ⟨fields, hfields, h⟩ := Except.bind_eq_ok.mp h
  simp only [Except.pure_eq_ok, Except.ok.injEq] at h
  subst h
  refine Except.foldlM_inv (fun before hbefore field _ after hturn => ?_)
    (by simp [GenuineFields]) hfields
  obtain ⟨document, hload, hturn⟩ := Except.bind_eq_ok.mp hturn
  split at hturn
  · cases hturn
  · split at hturn
    · cases hturn
    · simp only [Except.pure_eq_ok, Except.ok.injEq] at hturn
      exact hturn ▸ hbefore.insertEntry (loadCrdtDocument_genuine hload)

/-- The candidates of an offer hold genuine documents. -/
def Offer.Genuine (A : Automerge) (offer : Offer) : Prop :=
  ∀ c ∈ offer.candidates, GenuineFields A c.crdtFields

theorem Offer.addAll_genuine {offer result : Offer} {versions : List StoredEntityVersion}
    (hoffer : offer.Genuine A) (h : offer.addAll A versions = .ok result) : result.Genuine A := by
  refine Except.foldlM_inv (fun before hbefore version _ after hturn => ?_) hoffer h
  unfold Offer.add at hturn
  split at hturn
  · obtain ⟨candidate, hcandidate, hturn⟩ := Except.bind_eq_ok.mp hturn
    simp only [Except.pure_eq_ok, Except.ok.injEq] at hturn
    subst hturn
    intro c hc
    rcases List.mem_append.mp hc with hc | hc
    · exact hbefore c hc
    · exact List.mem_singleton.mp hc ▸ storedCandidate_genuine hcandidate
  · rw [Except.ok.injEq] at hturn
    exact hturn ▸ hbefore

/-! ### Resolutions -/

section Resolve

variable {toText : Value → String} {plan : ConflictPlan}

/-- Variants with genuine documents. -/
def GenuineVariants (A : Automerge) (variants : List ConflictCandidate) : Prop :=
  ∀ v ∈ variants, GenuineFields A v.crdtFields

theorem mergeGroup_genuine {rule : ConflictMergeRule} {variants result : List ConflictCandidate}
    {indexes : List ℕ} (hvariants : GenuineVariants A variants)
    (h : mergeGroup A plan rule variants indexes = .ok result) : GenuineVariants A result := by
  simp only [mergeGroup] at h
  split at h
  · obtain ⟨-, -, h⟩ := Except.bind_eq_ok.mp h
    simp only [Except.pure_eq_ok, Except.ok.injEq] at h
    exact h ▸ hvariants
  · obtain ⟨document, hdocument, h⟩ := Except.bind_eq_ok.mp h
    simp only [Except.pure_eq_ok, Except.ok.injEq] at h
    subst h
    have hmerged : ∀ c ∈ document.changes, Genuine A c := by
      refine merge_genuine (fun d hd => ?_) hdocument
      obtain ⟨i, -, hd⟩ := List.mem_filterMap.mp hd
      obtain ⟨candidate, hcandidate, hd⟩ := Option.bind_eq_some_iff.mp hd
      exact (hvariants candidate (List.mem_of_getElem? hcandidate)).lookup hd
    intro v hv
    obtain ⟨i, hi, rfl⟩ := List.mem_mapIdx.mp hv
    split
    · exact (hvariants _ (List.getElem_mem hi)).insertEntry hmerged
    · exact hvariants _ (List.getElem_mem hi)

theorem mergeFields_genuine {kept fields result : List (String × CrdtDocument)}
    (hkept : GenuineFields A kept) (hfields : GenuineFields A fields)
    (h : mergeFields kept fields = .ok result) : GenuineFields A result := by
  refine Except.foldlM_inv (fun before hbefore entry hentry after hturn => ?_) hkept h
  dsimp only at hturn
  split at hturn
  · rename_i _ current hcurrent
    obtain ⟨merged, hmerged, hturn⟩ := Except.bind_eq_ok.mp hturn
    simp only [Except.pure_eq_ok, Except.ok.injEq] at hturn
    subst hturn
    refine hbefore.insertEntry (merge_genuine (fun d hd => ?_) hmerged)
    rcases List.mem_cons.mp hd with rfl | hd
    · exact hbefore.lookup hcurrent
    · exact List.mem_singleton.mp hd ▸ hfields entry hentry
  · simp only [Except.pure_eq_ok, Except.ok.injEq] at hturn
    exact hturn ▸ hbefore.insertEntry (hfields entry hentry)

theorem addVariant_genuine {kept result : List ConflictCandidate} {variant : ConflictCandidate}
    (hkept : GenuineVariants A kept) (hvariant : GenuineFields A variant.crdtFields)
    (h : addVariant kept variant = .ok result) : GenuineVariants A result := by
  induction kept generalizing result with
  | nil =>
    simp only [addVariant, Except.ok.injEq] at h
    subst h
    simpa [GenuineVariants] using hvariant
  | cons existing rest ih =>
    have hrest : GenuineVariants A rest := fun v hv => hkept v (List.mem_cons_of_mem _ hv)
    simp only [addVariant] at h
    split at h
    · obtain ⟨fields, hfields, h⟩ := Except.bind_eq_ok.mp h
      simp only [Except.pure_eq_ok, Except.ok.injEq] at h
      subst h
      unfold GenuineVariants
      rw [List.forall_mem_cons]
      exact ⟨mergeFields_genuine (hkept existing (by simp)) hvariant hfields, hrest⟩
    · obtain ⟨tail, htail, h⟩ := Except.bind_eq_ok.mp h
      simp only [Except.pure_eq_ok, Except.ok.injEq] at h
      subst h
      unfold GenuineVariants
      rw [List.forall_mem_cons]
      exact ⟨hkept existing (by simp), ih hrest htail⟩

theorem mergeCandidates_genuine {candidates : List ConflictCandidate}
    {resolution : ConflictResolution} (hcandidates : GenuineVariants A candidates)
    (h : mergeCandidates A toText plan candidates = .ok resolution) :
    GenuineVariants A resolution.variants := by
  obtain ⟨variants, hvariants, h⟩ := Except.bind_eq_ok.mp h
  obtain ⟨result, hresult, h⟩ := Except.bind_eq_ok.mp h
  simp only [Except.pure_eq_ok, Except.ok.injEq] at h
  subst h
  have hmerged : GenuineVariants A variants := by
    refine Except.foldlM_inv (fun before hbefore rule _ after hrule => ?_) hcandidates hvariants
    obtain ⟨groups, -, hfold⟩ := Except.bind_eq_ok.mp hrule
    exact Except.foldlM_inv (fun _ hbefore _ _ _ hgroup => mergeGroup_genuine hbefore hgroup)
      hbefore hfold
  exact Except.foldlM_inv
    (fun _ hbefore variant hmem _ hturn => addVariant_genuine hbefore (hmerged variant hmem) hturn)
    (by simp [GenuineVariants]) hresult

/-- **A resolution keeps documents genuine.** -/
theorem resolveHeads_genuine {site : ResolutionSite} {deleted : List String}
    {candidates : List ConflictCandidate} {resolution : ConflictResolution}
    (hcandidates : GenuineVariants A candidates)
    (h : resolveHeads A toText site plan deleted candidates = .ok resolution) :
    GenuineVariants A resolution.variants := by
  have h := resolveHeads_eq_ok h
  simp only [resolvePreparedConflict] at h
  split at h
  · cases h
    exact hcandidates
  · split at h
    · cases h
    · cases h
      exact hcandidates
    · exact mergeCandidates_genuine hcandidates h

end Resolve

/-- The stored fields of a new version. -/
theorem activeStoredVersion_genuine {fields : List (String × CrdtDocument)}
    (h : GenuineFields A fields) (version : String) (value : Value) :
    ∀ f ∈ (activeStoredVersion version value fields).crdtFields, ∀ c ∈ f.changes, Genuine A c := by
  intro f hf
  obtain ⟨entry, hentry, rfl⟩ := List.mem_map.mp hf
  exact h entry hentry

end Patchouli
