import Mathlib.Logic.Relation
import Patchouli.Backend.Candidate
import Patchouli.Backend.Merge

/-!
# Where candidates go

Every candidate of a resolution ends in one of its variants, and every variant comes from some
candidate. A candidate is *absorbed* by a variant that is the candidate itself, untouched, or by a
new version that *carries* it: one that holds all the changes of the candidate's documents and has
the candidate's value outside the fields of these documents. The first candidate, which at an
update is the proposal, ends in the first variant.

Merging and collapsing are followed separately. A rule rewrites a field that has a document and
keeps the set of fields that have one (`MergedFrom`); collapsing joins documents under a value it
does not touch (`CollapsedFrom`). In this order the two make up `Absorbs`.

## Main definitions

* `Carries` — a new variant took a candidate in
* `Absorbs` — one candidate, one variant
* `Absorption` — all candidates, all variants

## Main results

* `resolveHeads_absorption` — a resolution absorbs its candidates, the first into the first
* `Absorption.source` — a variant that is a stored version is one of the candidates
-/

namespace Patchouli

/-- The documents of `c` are held by those of `v`, path by path. -/
def HoldsDocuments (c v : List (String × CrdtDocument)) : Prop :=
  ∀ path document, c.lookup path = some document →
    ∃ held, v.lookup path = some held ∧ document.changes ⊆ held.changes

theorem HoldsDocuments.refl (c : List (String × CrdtDocument)) : HoldsDocuments c c :=
  fun _ document h => ⟨document, h, List.Subset.refl _⟩

theorem HoldsDocuments.trans {c v w : List (String × CrdtDocument)} (hcv : HoldsDocuments c v)
    (hvw : HoldsDocuments v w) : HoldsDocuments c w := by
  intro path document h
  obtain ⟨held, hheld, hsub⟩ := hcv path document h
  obtain ⟨held', hheld', hsub'⟩ := hvw path held hheld
  exact ⟨held', hheld', List.Subset.trans hsub hsub'⟩

/-- `y` is `x` with some fields replaced for which `c` has a document. -/
def Rewrites (c : ConflictCandidate) : Json.Value → Json.Value → Prop :=
  Relation.ReflTransGen fun x y =>
    ∃ path field, (c.crdtFields.lookup path).isSome ∧ y = x.setPointer path field

/-- A new variant that took a candidate in: it holds the candidate's documents, and its value is the
candidate's except where the candidate has documents. -/
structure Carries (c v : ConflictCandidate) : Prop where
  new : v.sourceVersion = none
  documents : HoldsDocuments c.crdtFields v.crdtFields
  value : Rewrites c c.value v.value

/-- A variant absorbs a candidate: it is the candidate, or it is new and carries it. -/
def Absorbs (c v : ConflictCandidate) : Prop := v = c ∨ Carries c v

theorem Absorbs.refl (c : ConflictCandidate) : Absorbs c c := Or.inl rfl

/-- What was new is absorbed by something new. -/
theorem Absorbs.new {c v : ConflictCandidate} (h : Absorbs c v) (hc : c.sourceVersion = none) :
    v.sourceVersion = none := by
  rcases h with rfl | h
  · exact hc
  · exact h.new

/-- The candidate at `i` is absorbed by the variant at `into i`, every variant absorbs some
candidate, and the first candidate is in the first variant. -/
structure Absorption (candidates variants : List ConflictCandidate) (into : ℕ → ℕ) : Prop where
  absorbs : ∀ i c, candidates[i]? = some c → ∃ v, variants[into i]? = some v ∧ Absorbs c v
  onto : ∀ j < variants.length, ∃ i < candidates.length, into i = j
  first : candidates ≠ [] → into 0 = 0

theorem Absorption.refl (candidates : List ConflictCandidate) :
    Absorption candidates candidates id :=
  ⟨fun _ c h => ⟨c, h, Absorbs.refl c⟩, fun j hj => ⟨j, hj, rfl⟩, fun _ => rfl⟩

/-! ### Merging -/

section Merge

variable {A : Automerge} {toText : Json.Value → String} {plan : ConflictPlan}
  {rule : ConflictMergeRule}

theorem subset_mergeChanges (a b : List CrdtChange) :
    a ⊆ mergeChanges a b ∧ b ⊆ mergeChanges a b := by
  constructor
  · intro c hc
    exact List.mem_append_left _ hc
  · intro c hc
    by_cases hmem : c ∈ a
    · exact List.mem_append_left _ hmem
    · exact List.mem_append_right _ (List.mem_filter.mpr ⟨hc, by simpa using hmem⟩)

/-- A merged document has the changes of every branch. -/
theorem CrdtDocument.subset_merge {documents : List CrdtDocument} {merged : CrdtDocument}
    (h : CrdtDocument.merge documents = .ok merged) :
    ∀ d ∈ documents, d.changes ⊆ merged.changes := by
  have key : ∀ (rest : List CrdtDocument) (acc : List CrdtChange),
      acc ⊆ rest.foldl (fun merged d => mergeChanges merged d.changes) acc ∧
        ∀ d ∈ rest, d.changes ⊆ rest.foldl (fun merged d => mergeChanges merged d.changes) acc := by
    intro rest
    induction rest with
    | nil => exact fun acc => ⟨List.Subset.refl acc, by simp⟩
    | cons d rest ih =>
      intro acc
      obtain ⟨hacc, hrest⟩ := ih (mergeChanges acc d.changes)
      rw [List.foldl_cons, List.forall_mem_cons]
      exact ⟨List.Subset.trans (subset_mergeChanges acc d.changes).1 hacc,
        List.Subset.trans (subset_mergeChanges acc d.changes).2 hacc, hrest⟩
  cases documents with
  | nil => cases h
  | cons first rest =>
    simp only [CrdtDocument.merge, Except.ok.injEq] at h
    subst h
    rw [List.forall_mem_cons]
    exact key rest first.changes

/-- What merging does to a variant: nothing, or it becomes a new variant that carries it, with
documents at the same paths. -/
def MergedFrom (c v : ConflictCandidate) : Prop :=
  Absorbs c v ∧ ∀ path, (v.crdtFields.lookup path).isSome ↔ (c.crdtFields.lookup path).isSome

theorem MergedFrom.refl (c : ConflictCandidate) : MergedFrom c c :=
  ⟨Absorbs.refl c, fun _ => Iff.rfl⟩

theorem MergedFrom.trans {c v w : ConflictCandidate} (hcv : MergedFrom c v)
    (hvw : MergedFrom v w) : MergedFrom c w := by
  refine ⟨?_, fun path => (hvw.2 path).trans (hcv.2 path)⟩
  rcases hvw.1 with rfl | hvw'
  · exact hcv.1
  · rcases hcv.1 with rfl | hcv'
    · exact Or.inr hvw'
    · refine Or.inr ⟨hvw'.new, hcv'.documents.trans hvw'.documents, hcv'.value.trans ?_⟩
      refine Relation.ReflTransGen.mono ?_ _ _ hvw'.value
      rintro x y ⟨path, field, hsome, rfl⟩
      exact ⟨path, field, (hcv.2 path).mp hsome, rfl⟩

theorem mergedFrom_withMerged {document : CrdtDocument} {c : ConflictCandidate}
    (hsome : (c.crdtFields.lookup rule.path).isSome)
    (h : ∀ d, c.crdtFields.lookup rule.path = some d → d.changes ⊆ document.changes) :
    MergedFrom c (c.withMerged A rule document) := by
  refine ⟨Or.inr ⟨rfl, fun path d hd => ?_, .single ⟨rule.path, _, hsome, rfl⟩⟩, fun path => ?_⟩
  · by_cases hpath : path = rule.path
    · subst hpath
      exact ⟨document, Table.lookup_insertEntry_self _ _ _, h d hd⟩
    · refine ⟨d, ?_, List.Subset.refl _⟩
      rw [ConflictCandidate.withMerged, Table.lookup_insertEntry_of_ne hpath]
      exact hd
  · by_cases hpath : path = rule.path
    · subst hpath
      simp only [ConflictCandidate.withMerged, Table.lookup_insertEntry_self, Option.isSome_some,
        true_iff]
      exact hsome
    · simp only [ConflictCandidate.withMerged, Table.lookup_insertEntry_of_ne hpath]

theorem mergeGroup_mergedFrom {variants result : List ConflictCandidate} {indexes : List ℕ}
    (hfields : ∀ i ∈ indexes, ∃ c, variants[i]? = some c ∧
      (c.crdtFields.lookup rule.path).isSome)
    (h : mergeGroup A plan rule variants indexes = .ok result) :
    List.Forall₂ MergedFrom variants result := by
  simp only [mergeGroup] at h
  split at h
  · obtain ⟨-, -, h⟩ := Except.bind_eq_ok.mp h
    simp only [Except.pure_eq_ok, Except.ok.injEq] at h
    exact h ▸ List.forall₂_same.mpr fun c _ => MergedFrom.refl c
  · obtain ⟨document, hdocument, h⟩ := Except.bind_eq_ok.mp h
    simp only [Except.pure_eq_ok, Except.ok.injEq] at h
    subst h
    refine List.forall₂_iff_get.mpr ⟨by simp, fun i h₁ h₂ => ?_⟩
    simp only [List.get_eq_getElem, List.getElem_mapIdx]
    split
    · rename_i hi
      obtain ⟨c, hc, hsome⟩ := hfields i hi
      rw [List.getElem?_eq_getElem h₁, Option.some.injEq] at hc
      refine mergedFrom_withMerged (hc ▸ hsome) fun d hd => ?_
      refine CrdtDocument.subset_merge hdocument d (List.mem_filterMap.mpr ⟨i, hi, ?_⟩)
      rw [List.getElem?_eq_getElem h₁]
      exact hd
    · exact MergedFrom.refl _

theorem forall₂_mergedFrom_trans {xs ys zs : List ConflictCandidate}
    (h : List.Forall₂ MergedFrom xs ys) (h' : List.Forall₂ MergedFrom ys zs) :
    List.Forall₂ MergedFrom xs zs := by
  induction h generalizing zs with
  | nil => cases h'; exact .nil
  | cons hcd _ ih =>
    cases h' with
    | cons hde hrest => exact .cons (hcd.trans hde) (ih hrest)

/-- The groups of a rule have their documents, also after other groups were merged. -/
theorem mergeRule_mergedFrom {variants result : List ConflictCandidate}
    (h : mergeRule A toText plan variants rule = .ok result) :
    List.Forall₂ MergedFrom variants result := by
  obtain ⟨groups, hgroups, hfold⟩ := Except.bind_eq_ok.mp h
  have hmembers := groupVariants_eq_members hgroups
  have hinv : MergeSteps A rule variants result ∧ List.Forall₂ MergedFrom variants result := by
    refine Except.foldlM_inv
      (I := fun current => MergeSteps A rule variants current ∧
        List.Forall₂ MergedFrom variants current)
      (fun current hcurrent indexes hindexes next hnext => ?_)
      ⟨MergeSteps.refl variants, List.forall₂_same.mpr fun c _ => MergedFrom.refl c⟩ hfold
    obtain ⟨key, rfl⟩ := hmembers indexes hindexes
    exact ⟨hcurrent.1.trans (mergeGroup_steps hnext), forall₂_mergedFrom_trans hcurrent.2
      (mergeGroup_mergedFrom (hcurrent.1.fields_of_groupMembers toText) hnext)⟩
  exact hinv.2

theorem mergeRules_mergedFrom {rules : List ConflictMergeRule}
    {variants result : List ConflictCandidate}
    (h : rules.foldlM (mergeRule A toText plan) variants = .ok result) :
    List.Forall₂ MergedFrom variants result :=
  Except.foldlM_rel (fun _ => List.forall₂_same.mpr fun c _ => MergedFrom.refl c)
    forall₂_mergedFrom_trans (fun _ _ _ _ hrule => mergeRule_mergedFrom hrule) h

end Merge

/-! ### Collapsing -/

/-- Joining the fields of a variant to those kept loses neither. -/
theorem mergeFields_holds {kept fields result : List (String × CrdtDocument)}
    (h : mergeFields kept fields = .ok result) :
    HoldsDocuments kept result ∧ HoldsDocuments fields result := by
  unfold mergeFields at h
  induction fields generalizing kept with
  | nil =>
    simp only [List.foldlM_nil, Except.pure_eq_ok, Except.ok.injEq] at h
    subst h
    exact ⟨HoldsDocuments.refl _, fun _ _ h => by cases h⟩
  | cons entry fields ih =>
    obtain ⟨path, document⟩ := entry
    obtain ⟨next, hnext, hrest⟩ := Except.foldlM_cons_eq_ok.mp h
    obtain ⟨hkept, hfields⟩ := ih hrest
    have hturn : HoldsDocuments kept next ∧
        ∃ held, next.lookup path = some held ∧ document.changes ⊆ held.changes := by
      cases hcurrent : kept.lookup path with
      | none =>
        simp only [hcurrent, Except.pure_eq_ok, Except.ok.injEq] at hnext
        subst hnext
        refine ⟨fun p d hd => ?_, document, Table.lookup_insertEntry_self _ _ _,
          List.Subset.refl _⟩
        by_cases hp : p = path
        · rw [hp, hcurrent] at hd
          cases hd
        · exact ⟨d, by rw [Table.lookup_insertEntry_of_ne hp]; exact hd, List.Subset.refl _⟩
      | some current =>
        simp only [hcurrent] at hnext
        obtain ⟨merged, hmerged, hnext⟩ := Except.bind_eq_ok.mp hnext
        simp only [Except.pure_eq_ok, Except.ok.injEq] at hnext
        subst hnext
        have hsub := CrdtDocument.subset_merge hmerged
        refine ⟨fun p d hd => ?_, merged, Table.lookup_insertEntry_self _ _ _,
          hsub document (by simp)⟩
        by_cases hp : p = path
        · subst hp
          rw [hcurrent, Option.some.injEq] at hd
          exact ⟨merged, Table.lookup_insertEntry_self _ _ _, hd ▸ hsub current (by simp)⟩
        · exact ⟨d, by rw [Table.lookup_insertEntry_of_ne hp]; exact hd, List.Subset.refl _⟩
    refine ⟨hturn.1.trans hkept, fun p d hd => ?_⟩
    by_cases hp : p = path
    · subst hp
      simp only [List.lookup_cons, beq_self_eq_true, Option.some.injEq] at hd
      obtain ⟨held, hheld, hsub⟩ := hturn.2
      obtain ⟨held', hheld', hsub'⟩ := hkept _ _ hheld
      exact ⟨held', hheld', hd ▸ List.Subset.trans hsub hsub'⟩
    · rw [List.lookup_cons, beq_false_of_ne hp] at hd
      exact hfields p d hd

/-- What collapsing does to a variant: nothing, or it becomes a new variant of the same value that
holds its documents. -/
def CollapsedFrom (c v : ConflictCandidate) : Prop :=
  v = c ∨ (v.sourceVersion = none ∧ HoldsDocuments c.crdtFields v.crdtFields ∧ v.value = c.value)

theorem CollapsedFrom.refl (c : ConflictCandidate) : CollapsedFrom c c := Or.inl rfl

theorem CollapsedFrom.trans {c v w : ConflictCandidate} (hcv : CollapsedFrom c v)
    (hvw : CollapsedFrom v w) : CollapsedFrom c w := by
  rcases hvw with rfl | ⟨hnew, hholds, hvalue⟩
  · exact hcv
  · rcases hcv with rfl | ⟨-, hholds', hvalue'⟩
    · exact Or.inr ⟨hnew, hholds, hvalue⟩
    · exact Or.inr ⟨hnew, hholds'.trans hholds, hvalue.trans hvalue'⟩

/-- Merged, then collapsed. -/
theorem MergedFrom.absorbs {c v w : ConflictCandidate} (hcv : MergedFrom c v)
    (hvw : CollapsedFrom v w) : Absorbs c w := by
  rcases hvw with rfl | ⟨hnew, hholds, hvalue⟩
  · exact hcv.1
  · rcases hcv.1 with rfl | hcarries
    · exact Or.inr ⟨hnew, hholds, hvalue ▸ .refl⟩
    · exact Or.inr ⟨hnew, hcarries.documents.trans hholds, hvalue ▸ hcarries.value⟩

/-- Adding a variant keeps the positions of those kept; the variant itself joins one of them, or
comes last. -/
theorem addVariant_collapsed {kept result : List ConflictCandidate} {variant : ConflictCandidate}
    (h : addVariant kept variant = .ok result) :
    (∀ (i : ℕ) k, kept[i]? = some k → ∃ v, result[i]? = some v ∧ CollapsedFrom k v) ∧
      ∃ j : ℕ, (∃ v, result[j]? = some v ∧ CollapsedFrom variant v) ∧
        (∀ i < result.length, i < kept.length ∨ i = j) ∧ j ≤ kept.length := by
  induction kept generalizing result with
  | nil =>
    simp only [addVariant, Except.ok.injEq] at h
    subst h
    exact ⟨by simp, 0, ⟨variant, by simp, CollapsedFrom.refl _⟩, by simp, by simp⟩
  | cons existing rest ih =>
    simp only [addVariant] at h
    split at h
    · obtain ⟨crdtFields, hfields, h⟩ := Except.bind_eq_ok.mp h
      simp only [Except.pure_eq_ok, Except.ok.injEq] at h
      subst h
      obtain ⟨hkept, hvariant⟩ := mergeFields_holds hfields
      rename_i hvalue
      refine ⟨fun i k hk => ?_, 0, ⟨{ existing with crdtFields, sourceVersion := none }, rfl,
        Or.inr ⟨rfl, hvariant, hvalue⟩⟩, ?_, by simp⟩
      · cases i with
        | zero =>
          simp only [List.getElem?_cons_zero, Option.some.injEq] at hk ⊢
          subst hk
          exact ⟨_, rfl, Or.inr ⟨rfl, hkept, rfl⟩⟩
        | succ i => exact ⟨k, by simpa using hk, CollapsedFrom.refl k⟩
      · intro i hi
        exact Or.inl (by simpa using hi)
    · obtain ⟨tail, htail, h⟩ := Except.bind_eq_ok.mp h
      simp only [Except.pure_eq_ok, Except.ok.injEq] at h
      subst h
      obtain ⟨hkept, j, hj, hrange, hle⟩ := ih htail
      refine ⟨fun i k hk => ?_, j + 1, by simpa using hj, fun i hi => ?_, by simpa using hle⟩
      · cases i with
        | zero => exact ⟨k, by simpa using hk, CollapsedFrom.refl k⟩
        | succ i => simpa using hkept i k (by simpa using hk)
      · cases i with
        | zero => exact Or.inl (by simp)
        | succ i =>
          rcases hrange i (by simpa using hi) with hlt | heq
          · exact Or.inl (by simpa using hlt)
          · exact Or.inr (by rw [heq])

theorem collapseIdenticalVariants_into {variants result : List ConflictCandidate}
    (h : collapseIdenticalVariants variants = .ok result) : ∃ into : ℕ → ℕ,
      (∀ (i : ℕ) v, variants[i]? = some v → ∃ w, result[into i]? = some w ∧ CollapsedFrom v w) ∧
      (∀ j < result.length, ∃ i < variants.length, into i = j) ∧
      (variants ≠ [] → into 0 = 0) := by
  have key : ∀ (vs kept result : List ConflictCandidate),
      vs.foldlM addVariant kept = Except.ok (ε := ConflictError) result → ∃ into : ℕ → ℕ,
        (∀ (i : ℕ) v, vs[i]? = some v → ∃ w, result[into i]? = some w ∧ CollapsedFrom v w) ∧
        (∀ (i : ℕ) k, kept[i]? = some k → ∃ w, result[i]? = some w ∧ CollapsedFrom k w) ∧
        (∀ j < result.length, j < kept.length ∨ ∃ i < vs.length, into i = j) ∧
        (vs ≠ [] → into 0 ≤ kept.length) := by
    intro vs
    induction vs with
    | nil =>
      intro kept result h
      simp only [List.foldlM_nil, Except.pure_eq_ok, Except.ok.injEq] at h
      subst h
      exact ⟨id, by simp, fun i k hk => ⟨k, hk, CollapsedFrom.refl k⟩, fun j hj => Or.inl hj, by simp⟩
    | cons v vs ih =>
      intro kept result h
      obtain ⟨next, hnext, hrest⟩ := Except.foldlM_cons_eq_ok.mp h
      obtain ⟨into, hvs, hnextKept, hrange, -⟩ := ih next result hrest
      obtain ⟨hkept, j₀, ⟨w₀, hw₀, habsorb⟩, hnextRange, hle⟩ := addVariant_collapsed hnext
      refine ⟨fun i => i.casesOn j₀ into, ?_, ?_, ?_, fun _ => hle⟩
      · intro i x hx
        cases i with
        | zero =>
          simp only [List.getElem?_cons_zero, Option.some.injEq] at hx
          subst hx
          obtain ⟨w, hw, hsub⟩ := hnextKept j₀ w₀ hw₀
          exact ⟨w, hw, habsorb.trans hsub⟩
        | succ i => exact hvs i x (by simpa using hx)
      · intro i k hk
        obtain ⟨w, hw, hsub⟩ := hkept i k hk
        obtain ⟨w', hw', hsub'⟩ := hnextKept i w hw
        exact ⟨w', hw', hsub.trans hsub'⟩
      · intro j hj
        rcases hrange j hj with hlt | ⟨i, hi, hij⟩
        · rcases hnextRange j hlt with hlt' | heq
          · exact Or.inl hlt'
          · exact Or.inr ⟨0, by simp, heq.symm⟩
        · exact Or.inr ⟨i + 1, by simpa using hi, hij⟩
  obtain ⟨into, hvs, -, hrange, hfirst⟩ := key variants [] result h
  refine ⟨into, hvs, fun j hj => ?_, fun hne => by simpa using hfirst hne⟩
  rcases hrange j hj with hlt | honto
  · simp at hlt
  · exact honto

/-! ### Resolutions -/

section Resolve

variable {A : Automerge} {toText : Json.Value → String} {plan : ConflictPlan}
  {site : ResolutionSite} {deleted : List String} {candidates : List ConflictCandidate}
  {resolution : ConflictResolution}

theorem mergeCandidates_absorption (h : mergeCandidates A toText plan candidates = .ok resolution) :
    ∃ into, Absorption candidates resolution.variants into := by
  obtain ⟨variants, hvariants, h⟩ := Except.bind_eq_ok.mp h
  obtain ⟨result, hresult, h⟩ := Except.bind_eq_ok.mp h
  simp only [Except.pure_eq_ok, Except.ok.injEq] at h
  subst h
  have hrules := mergeRules_mergedFrom hvariants
  obtain ⟨into, habsorbs, honto, hfirst⟩ := collapseIdenticalVariants_into hresult
  refine ⟨into, fun i c hc => ?_, fun j hj => ?_, fun hne => hfirst fun hnil => hne ?_⟩
  · obtain ⟨hlt, rfl⟩ := List.getElem?_eq_some_iff.mp hc
    have hlt' : i < variants.length := hrules.length_eq ▸ hlt
    obtain ⟨w, hw, hsub⟩ := habsorbs i variants[i] (List.getElem?_eq_getElem hlt')
    exact ⟨w, hw, ((List.forall₂_iff_get.mp hrules).2 i hlt hlt').absorbs hsub⟩
  · obtain ⟨i, hi, hij⟩ := honto j hj
    exact ⟨i, hrules.length_eq ▸ hi, hij⟩
  · exact List.length_eq_zero_iff.mp (by rw [hrules.length_eq, hnil, List.length_nil])

/-- A resolution under the strategy of its plan. -/
theorem resolveHeads_eq_ok (h : resolveHeads A toText site plan deleted candidates = .ok resolution) :
    resolvePreparedConflict A toText plan candidates = .ok resolution := by
  simp only [resolveHeads] at h
  split at h
  · cases h
  · split at h
    · rename_i resolved hresolved
      cases h
      exact hresolved
    · cases h

/-- **No candidate is lost.** A resolution absorbs its candidates, the first into the first
variant. -/
theorem resolveHeads_absorption
    (h : resolveHeads A toText site plan deleted candidates = .ok resolution) :
    ∃ into, Absorption candidates resolution.variants into := by
  have h := resolveHeads_eq_ok h
  simp only [resolvePreparedConflict] at h
  split at h
  · cases h
    exact ⟨id, Absorption.refl candidates⟩
  · split at h
    · cases h
    · cases h
      exact ⟨id, Absorption.refl candidates⟩
    · exact mergeCandidates_absorption h

/-- **Nothing else enters.** A variant that is a stored version is one of the candidates. -/
theorem Absorption.source {variants : List ConflictCandidate} {into : ℕ → ℕ}
    (h : Absorption candidates variants into) {v : ConflictCandidate} (hv : v ∈ variants)
    {version : String} (hversion : v.sourceVersion = some version) : v ∈ candidates := by
  obtain ⟨j, hj, rfl⟩ := List.getElem_of_mem hv
  obtain ⟨i, hi, rfl⟩ := h.onto j hj
  obtain ⟨w, hw, habsorb⟩ := h.absorbs i candidates[i] (List.getElem?_eq_getElem hi)
  rw [List.getElem?_eq_getElem hj, Option.some.injEq] at hw
  subst hw
  rcases habsorb with heq | hcarries
  · rw [heq]
    exact List.getElem_mem hi
  · rw [hcarries.new] at hversion
    cases hversion

end Resolve

end Patchouli
