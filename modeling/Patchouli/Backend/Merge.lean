import Mathlib.Data.List.Dedup
import Patchouli.Backend.Config

/-!
# What a merge does to its candidates

The loop of `merge_candidates` runs rule by rule and rewrites the variants as it goes. For the
rules of an accepted plan the order does not show: the paths are disjoint, so a rule finds the
fields, the documents and therefore the groups that the candidates came with
(`mergeRule_groupKeys`). Whether the merge is refused is then a question about the candidates
alone, `RuleRejects`.

## Main definitions

* `MergeStep` — what one rule can do to one variant
* `RuleRejects` — some candidate is outside the rule, or alone in its group
* `AgreeOutside`, `AgreeOnGroups` — the candidates differ in merged fields only

## Main results

* `mergeRules_isOk_iff` — with `otherwise: reject`, the merge goes through iff no rule rejects
* `mergeCandidates_single` — candidates that agree end as one variant
* `resolveHeads_rejects_iff` — when `otherwise: reject` keeps its promise
-/

namespace Patchouli

open Json (Value)

/-! ### Paths of disjoint rules -/

section Paths

variable {r s : ConflictMergeRule}

theorem pointer_setPointer_of_disjoint (h : RulesDisjoint r s) (v x : Value) :
    (v.setPointer r.path x).pointer s.path = v.pointer s.path := by
  simp only [Value.pointer, Value.setPointer]
  cases hr : Json.pointerTokens r.path with
  | none => rfl
  | some p =>
    cases hs : Json.pointerTokens s.path with
    | none => rfl
    | some q => exact Json.Value.get_set_of_disjoint (h.2 p q hr hs) v x

theorem setPointer_comm (h : RulesDisjoint r s) (v x y : Value) :
    (v.setPointer r.path x).setPointer s.path y = (v.setPointer s.path y).setPointer r.path x := by
  simp only [Value.setPointer]
  cases hr : Json.pointerTokens r.path with
  | none => rfl
  | some p =>
    cases hs : Json.pointerTokens s.path with
    | none => rfl
    | some q => exact Json.Value.set_comm_of_disjoint (h.2 p q hr hs) v x y

theorem setPointer_setPointer_self (path : String) (v x y : Value) :
    (v.setPointer path x).setPointer path y = v.setPointer path y := by
  simp only [Value.setPointer]
  cases Json.pointerTokens path with
  | none => rfl
  | some p => exact Json.Value.set_set_self v x y

end Paths

/-! ### One rule -/

section Rule

variable {A : Automerge} {toText : Value → String} {plan : ConflictPlan}
  {rule : ConflictMergeRule}

/-- What a rule can do to a variant: nothing, or replace its field by that of a document. -/
inductive MergeStep (A : Automerge) (rule : ConflictMergeRule) :
    ConflictCandidate → ConflictCandidate → Prop
  | kept (c : ConflictCandidate) : MergeStep A rule c c
  | merged (c : ConflictCandidate) (document : CrdtDocument) :
      MergeStep A rule c (c.withMerged A rule document)

namespace MergeStep

theorem trans {c d e : ConflictCandidate} (hcd : MergeStep A rule c d)
    (hde : MergeStep A rule d e) : MergeStep A rule c e := by
  cases hcd with
  | kept => exact hde
  | merged document =>
    cases hde with
    | kept => exact .merged c document
    | merged document' =>
      have h : (c.withMerged A rule document).withMerged A rule document' =
          c.withMerged A rule document' := by
        simp only [ConflictCandidate.withMerged, setPointer_setPointer_self,
          Table.insertEntry_insertEntry_self]
      exact h ▸ .merged c document'

/-- A rule leaves the group of a variant under a disjoint rule as it is. -/
theorem groupKey_eq {other : ConflictMergeRule} (hdisjoint : RulesDisjoint rule other)
    {c d : ConflictCandidate} (h : MergeStep A rule c d) :
    groupKey toText other d = groupKey toText other c := by
  cases h with
  | kept => rfl
  | merged document =>
    simp only [groupKey, ConflictCandidate.withMerged, pointer_setPointer_of_disjoint hdisjoint,
      Table.lookup_insertEntry_of_ne hdisjoint.1.symm]

theorem lookup_isSome {c d : ConflictCandidate} (h : MergeStep A rule c d)
    (hc : (c.crdtFields.lookup rule.path).isSome) : (d.crdtFields.lookup rule.path).isSome := by
  cases h with
  | kept => exact hc
  | merged document => simp [ConflictCandidate.withMerged, Table.lookup_insertEntry_self]

end MergeStep

/-- What a rule, or a group of it, does to the variants. -/
abbrev MergeSteps (A : Automerge) (rule : ConflictMergeRule) :
    List ConflictCandidate → List ConflictCandidate → Prop :=
  List.Forall₂ (MergeStep A rule)

theorem MergeSteps.refl (variants : List ConflictCandidate) : MergeSteps A rule variants variants :=
  List.forall₂_same.mpr fun c _ => .kept c

theorem MergeSteps.trans {xs ys zs : List ConflictCandidate} (h : MergeSteps A rule xs ys)
    (h' : MergeSteps A rule ys zs) : MergeSteps A rule xs zs := by
  induction h generalizing zs with
  | nil => cases h'; exact .nil
  | cons hcd _ ih =>
    cases h' with
    | cons hde hrest => exact .cons (hcd.trans hde) (ih hrest)

theorem mergeGroup_steps {variants result : List ConflictCandidate} {indexes : List ℕ}
    (h : mergeGroup A plan rule variants indexes = .ok result) :
    MergeSteps A rule variants result := by
  simp only [mergeGroup] at h
  split at h
  · obtain ⟨-, -, h⟩ := Except.bind_eq_ok.mp h
    simp only [Except.pure_eq_ok, Except.ok.injEq] at h
    exact h ▸ MergeSteps.refl variants
  · obtain ⟨document, -, h⟩ := Except.bind_eq_ok.mp h
    simp only [Except.pure_eq_ok, Except.ok.injEq] at h
    subst h
    refine List.forall₂_iff_get.mpr ⟨by simp, fun i h₁ h₂ => ?_⟩
    simp only [List.get_eq_getElem, List.getElem_mapIdx]
    split
    · exact .merged _ document
    · exact .kept _

theorem mergeRule_steps {variants result : List ConflictCandidate}
    (h : mergeRule A toText plan variants rule = .ok result) : MergeSteps A rule variants result := by
  obtain ⟨groups, -, hfold⟩ := Except.bind_eq_ok.mp h
  exact Except.foldlM_rel (fun a => MergeSteps.refl a) MergeSteps.trans
    (fun _ _ _ _ hturn => mergeGroup_steps hturn) hfold

/-- **A rule does not move the groups of the others.** -/
theorem mergeRule_groupKeys {other : ConflictMergeRule} (hdisjoint : RulesDisjoint rule other)
    {variants result : List ConflictCandidate} (h : MergeSteps A rule variants result) :
    result.map (groupKey toText other) = variants.map (groupKey toText other) := by
  induction h with
  | nil => rfl
  | cons hcd _ ih => rw [List.map_cons, List.map_cons, hcd.groupKey_eq hdisjoint, ih]

/-! ### When a rule goes through -/

/-- Some variant is outside the rule, or alone in its group. -/
def RuleRejects (keys : List (Option (List String))) : Prop :=
  ∃ key ∈ keys, key = none ∨ keys.count key < 2

theorem length_groupMembers (keys : List (Option (List String))) (key : List String) :
    (groupMembers keys key).length = keys.count (some key) := by
  have hmap : (keys.zipIdx.map (·.1)) = keys := List.zipIdx_map_fst 0 keys
  rw [groupMembers, List.length_map, ← List.countP_eq_length_filter]
  conv_rhs => rw [← hmap]
  rw [List.count, List.countP_map]
  refine List.countP_congr fun e _ => ?_
  simp

theorem mem_groupMembers {keys : List (Option (List String))} {key : List String} {i : ℕ} :
    i ∈ groupMembers keys key ↔ keys[i]? = some (some key) := by
  simp only [groupMembers, List.mem_map, List.mem_filter, decide_eq_true_eq, Prod.exists,
    exists_eq_right]
  exact List.mem_zipIdx_iff_getElem?

theorem merge_isOk {documents : List CrdtDocument} (h : documents ≠ []) :
    ∃ document, CrdtDocument.merge documents = .ok document := by
  cases documents with
  | nil => exact absurd rfl h
  | cons d ds => exact ⟨_, rfl⟩

theorem lookup_isSome_of_groupKey {c : ConflictCandidate} {key : List String}
    (h : groupKey toText rule c = some key) : (c.crdtFields.lookup rule.path).isSome := by
  simp only [groupKey] at h
  split at h
  · cases h
  · split at h
    · cases h
    · rename_i hlookup
      cases hl : c.crdtFields.lookup rule.path with
      | none => simp [hl] at hlookup
      | some d => rfl

/-- A group of two or more merges. -/
theorem mergeGroup_isOk (A : Automerge) (plan : ConflictPlan)
    {variants : List ConflictCandidate} {indexes : List ℕ} (hlen : 2 ≤ indexes.length)
    (hfields : ∀ i ∈ indexes, ∃ c, variants[i]? = some c ∧
      (c.crdtFields.lookup rule.path).isSome) :
    ∃ result, mergeGroup A plan rule variants indexes = .ok result := by
  have hbranches : (indexes.filterMap fun i =>
      (variants[i]?).bind fun c => c.crdtFields.lookup rule.path) ≠ [] := by
    cases indexes with
    | nil => simp at hlen
    | cons i is =>
      obtain ⟨c, hc, hsome⟩ := hfields i (by simp)
      obtain ⟨d, hd⟩ := Option.isSome_iff_exists.mp hsome
      simp [hc, hd]
  obtain ⟨document, hdocument⟩ := merge_isOk hbranches
  simp only [mergeGroup, if_neg (by omega : ¬ indexes.length < 2), hdocument]
  exact ⟨_, rfl⟩

/-- The members of a group keep their documents while other groups are merged. -/
theorem MergeSteps.fields_of_groupMembers (toText : Value → String)
    {variants current : List ConflictCandidate} {key : List String}
    (h : MergeSteps A rule variants current) :
    ∀ i ∈ groupMembers (variants.map (groupKey toText rule)) key, ∃ c, current[i]? = some c ∧
      (c.crdtFields.lookup rule.path).isSome := by
  intro i hi
  rw [mem_groupMembers, List.getElem?_map] at hi
  obtain ⟨c, hc, hck⟩ := Option.map_eq_some_iff.mp hi
  obtain ⟨hlt, rfl⟩ := List.getElem?_eq_some_iff.mp hc
  have hlt' : i < current.length := h.length_eq ▸ hlt
  refine ⟨current[i], List.getElem?_eq_getElem hlt', ?_⟩
  exact ((List.forall₂_iff_get.mp h).2 i hlt hlt').lookup_isSome (lookup_isSome_of_groupKey hck)

theorem mergeRule_isOk_iff (hotherwise : plan.otherwise = .reject)
    (variants : List ConflictCandidate) :
    (∃ result, mergeRule A toText plan variants rule = .ok result) ↔
      ¬ RuleRejects (variants.map (groupKey toText rule)) := by
  set keys := variants.map (groupKey toText rule) with hkeys
  constructor
  · rintro ⟨result, h⟩ ⟨key, hmem, hkey⟩
    obtain ⟨groups, hgroups, hfold⟩ := Except.bind_eq_ok.mp h
    simp only [groupVariants, ← hkeys] at hgroups
    by_cases hnone : keys.contains none = true
    · simp only [hnone, if_true, hotherwise, rejectIfRequired, bind, Except.bind] at hgroups
      cases hgroups
    · simp only [hnone, if_false, Except.pure_eq_ok, Except.ok.injEq, Bool.false_eq_true] at hgroups
      subst hgroups
      cases key with
      | none => exact hnone (List.contains_iff_mem.mpr hmem)
      | some key =>
        have hcount : keys.count (some key) < 2 := by simpa using hkey
        have hgroup : groupMembers keys key ∈ ((keys.filterMap id).dedup.insertionSort
            (· ≤ ·)).map (groupMembers keys) := by
          refine List.mem_map_of_mem ?_
          simpa [List.mem_dedup] using hmem
        obtain ⟨a, b, hturn⟩ := Except.foldlM_turn hfold _ hgroup
        rw [← length_groupMembers] at hcount
        simp [mergeGroup, hcount, hotherwise, rejectIfRequired, bind, Except.bind] at hturn
  · intro hno
    have hnone : keys.contains none = false := by
      rw [Bool.eq_false_iff]
      intro hc
      exact hno ⟨none, List.contains_iff_mem.mp hc, Or.inl rfl⟩
    have hgroups : groupVariants toText plan rule variants =
        .ok (((keys.filterMap id).dedup.insertionSort (· ≤ ·)).map (groupMembers keys)) := by
      simp only [groupVariants, ← hkeys, hnone, Bool.false_eq_true, if_false]
      rfl
    have hturn : ∀ current, MergeSteps A rule variants current →
        ∀ indexes ∈ ((keys.filterMap id).dedup.insertionSort (· ≤ ·)).map (groupMembers keys),
        ∃ next, mergeGroup A plan rule current indexes = .ok next ∧
          MergeSteps A rule variants next := by
      intro current hsteps indexes hindexes
      obtain ⟨key, hkey, rfl⟩ := List.mem_map.mp hindexes
      have hmem : some key ∈ keys := by simpa [List.mem_dedup] using hkey
      have hlen : 2 ≤ (groupMembers keys key).length := by
        rw [length_groupMembers]
        by_contra hlt
        exact hno ⟨some key, hmem, Or.inr (by omega)⟩
      obtain ⟨next, hnext⟩ := mergeGroup_isOk A plan hlen
        (hkeys ▸ hsteps.fields_of_groupMembers toText)
      exact ⟨next, hnext, hsteps.trans (mergeGroup_steps hnext)⟩
    obtain ⟨result, hresult, -⟩ := Except.foldlM_isOk hturn (MergeSteps.refl variants)
    exact ⟨result, Except.bind_eq_ok.mpr ⟨_, hgroups, hresult⟩⟩

end Rule

/-! ### All rules -/

section Rules

variable {A : Automerge} {toText : Value → String} {plan : ConflictPlan}

/-- The groups of a rule, one for each key. -/
theorem groupVariants_eq_map {rule : ConflictMergeRule} {variants : List ConflictCandidate}
    {groups : List (List ℕ)} (h : groupVariants toText plan rule variants = .ok groups) :
    groups = (((variants.map (groupKey toText rule)).filterMap id).dedup.insertionSort
      (· ≤ ·)).map (groupMembers (variants.map (groupKey toText rule))) := by
  simp only [groupVariants] at h
  split at h
  · obtain ⟨-, -, h⟩ := Except.bind_eq_ok.mp h
    exact (Except.ok.inj h).symm
  · exact (Except.ok.inj h).symm

/-- A group is made of the variants that have its key. -/
theorem groupVariants_eq_members {rule : ConflictMergeRule} {variants : List ConflictCandidate}
    {groups : List (List ℕ)} (h : groupVariants toText plan rule variants = .ok groups) :
    ∀ indexes ∈ groups, ∃ key,
      indexes = groupMembers (variants.map (groupKey toText rule)) key := by
  intro indexes hindexes
  rw [groupVariants_eq_map h] at hindexes
  obtain ⟨key, -, rfl⟩ := List.mem_map.mp hindexes
  exact ⟨key, rfl⟩

/-- A rule that fails refuses the merge. -/
theorem mergeRule_error {rule : ConflictMergeRule} {variants : List ConflictCandidate}
    {error : ConflictError} (h : mergeRule A toText plan variants rule = .error error) :
    error = .rejected := by
  have hreject : ∀ e, rejectIfRequired plan.otherwise = .error e → e = .rejected := by
    intro e he
    cases ho : plan.otherwise with
    | mvcc => simp [ho, rejectIfRequired] at he
    | reject => simpa [ho, rejectIfRequired] using he.symm
  rcases Except.bind_eq_error.mp h with hgroups | ⟨groups, hgroups, hfold⟩
  · simp only [groupVariants] at hgroups
    split at hgroups
    · rcases Except.bind_eq_error.mp hgroups with hr | ⟨_, _, hr⟩
      · exact hreject error hr
      · cases hr
    · cases hgroups
  · have hmembers := groupVariants_eq_members hgroups
    refine Except.foldlM_error (I := MergeSteps A rule variants) (E := (· = .rejected)) ?_ ?_
      (MergeSteps.refl variants) hfold
    · exact fun a ha x _ b hb => ha.trans (mergeGroup_steps hb)
    · intro current hsteps indexes hindexes e he
      by_cases hlen : indexes.length < 2
      · simp only [mergeGroup, if_pos hlen] at he
        rcases Except.bind_eq_error.mp he with hr | ⟨_, _, hr⟩
        · exact hreject e hr
        · cases hr
      · obtain ⟨key, rfl⟩ := hmembers indexes hindexes
        obtain ⟨result, hresult⟩ := mergeGroup_isOk A plan (Nat.le_of_not_lt hlen)
          (hsteps.fields_of_groupMembers toText)
        rw [hresult] at he
        cases he

/-- **With `otherwise: reject`, the rules go through iff none of them rejects.** -/
theorem mergeRules_isOk_iff (hotherwise : plan.otherwise = .reject)
    {rules : List ConflictMergeRule} (hdisjoint : rules.Pairwise RulesDisjoint)
    (variants : List ConflictCandidate) :
    (∃ result, rules.foldlM (mergeRule A toText plan) variants = .ok result) ↔
      ∀ rule ∈ rules, ¬ RuleRejects (variants.map (groupKey toText rule)) := by
  induction rules generalizing variants with
  | nil => exact iff_of_true ⟨variants, rfl⟩ (by simp)
  | cons rule rest ih =>
    obtain ⟨hrule, hrest⟩ := List.pairwise_cons.mp hdisjoint
    have hkeys : ∀ next, mergeRule A toText plan variants rule = .ok next →
        ((∀ other ∈ rest, ¬ RuleRejects (next.map (groupKey toText other))) ↔
          ∀ other ∈ rest, ¬ RuleRejects (variants.map (groupKey toText other))) := by
      intro next hnext
      refine forall₂_congr fun other hother => ?_
      rw [mergeRule_groupKeys (hrule other hother) (mergeRule_steps hnext)]
    rw [List.forall_mem_cons, ← mergeRule_isOk_iff (A := A) hotherwise]
    constructor
    · rintro ⟨result, h⟩
      obtain ⟨next, hnext, htail⟩ := Except.foldlM_cons_eq_ok.mp h
      exact ⟨⟨next, hnext⟩, (hkeys next hnext).mp ((ih hrest next).mp ⟨result, htail⟩)⟩
    · rintro ⟨⟨next, hnext⟩, hothers⟩
      obtain ⟨result, htail⟩ := (ih hrest next).mpr ((hkeys next hnext).mpr hothers)
      exact ⟨result, Except.foldlM_cons_eq_ok.mpr ⟨next, hnext, htail⟩⟩

/-- A value with the fields of the rules blanked out. -/
def outsideRules (rules : List ConflictMergeRule) (value : Value) : Value :=
  rules.foldl (fun v rule => v.setPointer rule.path .null) value

theorem outsideRules_setPointer {rule : ConflictMergeRule} {rules : List ConflictMergeRule}
    (h : ∀ other ∈ rules, RulesDisjoint rule other) (v x : Value) :
    outsideRules rules (v.setPointer rule.path x) =
      (outsideRules rules v).setPointer rule.path x := by
  induction rules generalizing v with
  | nil => rfl
  | cons other rest ih =>
    rw [List.forall_mem_cons] at h
    simp only [outsideRules, List.foldl_cons] at ih ⊢
    rw [setPointer_comm h.1, ih h.2]

/-- One group only: every variant gets the same document. -/
theorem mergeRule_single {rule : ConflictMergeRule} {variants result : List ConflictCandidate}
    {key : List String} (hlen : 2 ≤ variants.length)
    (hkeys : ∀ k ∈ variants.map (groupKey toText rule), k = some key)
    (h : mergeRule A toText plan variants rule = .ok result) :
    ∃ document, result = variants.map (·.withMerged A rule document) := by
  have hrep : variants.map (groupKey toText rule) = List.replicate variants.length (some key) :=
    List.eq_replicate_iff.mpr ⟨by simp, hkeys⟩
  have hnone : (variants.map (groupKey toText rule)).contains none = false := by
    rw [hrep]
    simp
  have hfilter : (variants.map (groupKey toText rule)).filterMap id =
      List.replicate variants.length key := by
    rw [hrep]
    exact List.filterMap_replicate_of_some rfl
  obtain ⟨groups, hgroups, hfold⟩ := Except.bind_eq_ok.mp h
  simp only [groupVariants, hnone, hfilter, Bool.false_eq_true, if_false, Except.pure_eq_ok,
    Except.ok.injEq, List.replicate_dedup (by omega : variants.length ≠ 0),
    List.insertionSort_cons, List.insertionSort_nil, List.orderedInsert_nil, List.map_cons,
    List.map_nil] at hgroups
  subst hgroups
  obtain ⟨next, hnext, hdone⟩ := Except.foldlM_cons_eq_ok.mp hfold
  simp only [List.foldlM_nil, Except.pure_eq_ok, Except.ok.injEq] at hdone
  subst hdone
  have hmembers : ∀ i < variants.length,
      i ∈ groupMembers (variants.map (groupKey toText rule)) key := by
    intro i hi
    rw [mem_groupMembers, hrep]
    simp [hi]
  have hcount : ¬ (groupMembers (variants.map (groupKey toText rule)) key).length < 2 := by
    rw [length_groupMembers, hrep, List.count_replicate_self]
    omega
  simp only [mergeGroup, if_neg hcount] at hnext
  obtain ⟨document, -, hresult⟩ := Except.bind_eq_ok.mp hnext
  simp only [Except.pure_eq_ok, Except.ok.injEq] at hresult
  refine ⟨document, ?_⟩
  rw [← hresult]
  refine List.ext_getElem (by simp) fun i h₁ h₂ => ?_
  simp [hmembers i (by simpa using h₁)]

/-- When each rule has one group, the merged values depend on the parts outside the rules
only. -/
theorem mergeRules_values {rules : List ConflictMergeRule}
    (hdisjoint : rules.Pairwise RulesDisjoint) {variants result : List ConflictCandidate}
    (hlen : 2 ≤ variants.length)
    (hkeys : ∀ rule ∈ rules, ∃ key, ∀ k ∈ variants.map (groupKey toText rule), k = some key)
    (h : rules.foldlM (mergeRule A toText plan) variants = .ok result) :
    ∃ F : Value → Value, (∀ v, F (outsideRules rules v) = F v) ∧
      result.map (·.value) = (variants.map (·.value)).map F := by
  induction rules generalizing variants with
  | nil =>
    simp only [List.foldlM_nil, Except.pure_eq_ok, Except.ok.injEq] at h
    subst h
    exact ⟨id, fun _ => rfl, (List.map_id _).symm⟩
  | cons rule rest ih =>
    obtain ⟨hrule, hrest⟩ := List.pairwise_cons.mp hdisjoint
    rw [List.forall_mem_cons] at hkeys
    obtain ⟨next, hnext, htail⟩ := Except.foldlM_cons_eq_ok.mp h
    obtain ⟨key, hkey⟩ := hkeys.1
    obtain ⟨document, hdocument⟩ := mergeRule_single hlen hkey hnext
    have hkeys' : ∀ other ∈ rest, ∃ key, ∀ k ∈ next.map (groupKey toText other), k = some key := by
      intro other hother
      rw [mergeRule_groupKeys (hrule other hother) (mergeRule_steps hnext)]
      exact hkeys.2 other hother
    obtain ⟨F, hF, hvalues⟩ := ih hrest (by simpa [hdocument] using hlen) hkeys' htail
    refine ⟨fun v => F (v.setPointer rule.path (document.json A)), fun v => ?_, ?_⟩
    · calc F ((outsideRules (rule :: rest) v).setPointer rule.path (document.json A))
          = F (outsideRules rest
              ((v.setPointer rule.path .null).setPointer rule.path (document.json A))) := by
            rw [outsideRules_setPointer hrule]; rfl
        _ = F (v.setPointer rule.path (document.json A)) := by
            rw [setPointer_setPointer_self, hF]
    · rw [hvalues, hdocument, List.map_map, List.map_map, List.map_map]
      rfl

end Rules

/-! ### Identical variants -/

theorem mergeFields_isOk (kept fields : List (String × CrdtDocument)) :
    ∃ result, mergeFields kept fields = .ok result := by
  suffices h : ∃ result, mergeFields kept fields = .ok result ∧ True from h.imp fun _ h => h.1
  unfold mergeFields
  refine Except.foldlM_isOk (I := fun _ => True) (fun kept _ e _ => ?_) trivial
  obtain ⟨path, document⟩ := e
  dsimp only
  cases kept.lookup path with
  | none => exact ⟨_, rfl, trivial⟩
  | some current => exact ⟨_, rfl, trivial⟩

/-- A variant joins the one with its value, or is added at the end. -/
theorem addVariant_ok (kept : List ConflictCandidate) (variant : ConflictCandidate) :
    ∃ result, addVariant kept variant = .ok result ∧
      result.map (·.value) = if variant.value ∈ kept.map (·.value) then kept.map (·.value)
        else kept.map (·.value) ++ [variant.value] := by
  induction kept with
  | nil => exact ⟨[variant], rfl, by simp⟩
  | cons existing rest ih =>
    by_cases hv : existing.value = variant.value
    · obtain ⟨crdtFields, hfields⟩ := mergeFields_isOk existing.crdtFields variant.crdtFields
      refine ⟨{ existing with crdtFields, sourceVersion := none } :: rest, ?_, by simp [hv]⟩
      simp only [addVariant, hv, if_true, hfields]
      rfl
    · obtain ⟨result, hresult, hvalues⟩ := ih
      refine ⟨existing :: result, ?_, ?_⟩
      · simp only [addVariant, hv, if_false, hresult]
        rfl
      · simp only [List.map_cons, hvalues, List.mem_cons, Ne.symm hv, false_or]
        split <;> simp

/-- The values of the collapsed variants: each once, in the order of first occurrence. -/
theorem collapseIdenticalVariants_ok (variants : List ConflictCandidate) :
    ∃ result, collapseIdenticalVariants variants = .ok result ∧
      result.map (·.value) = (variants.map (·.value)).foldl
        (fun kept v => if v ∈ kept then kept else kept ++ [v]) [] := by
  have key : ∀ (vs kept : List ConflictCandidate), ∃ result,
      vs.foldlM addVariant kept = .ok result ∧ result.map (·.value) =
        (vs.map (·.value)).foldl (fun kept v => if v ∈ kept then kept else kept ++ [v])
          (kept.map (·.value)) := by
    intro vs
    induction vs with
    | nil => exact fun kept => ⟨kept, rfl, rfl⟩
    | cons v vs ih =>
      intro kept
      obtain ⟨next, hnext, hvalues⟩ := addVariant_ok kept v
      obtain ⟨result, hresult, hrest⟩ := ih next
      refine ⟨result, Except.foldlM_cons_eq_ok.mpr ⟨next, hnext, hresult⟩, ?_⟩
      rw [hrest, hvalues, List.map_cons, List.foldl_cons]
  exact key variants []

theorem foldl_collapse_eq {x : Value} {vs : List Value} (h : ∀ v ∈ vs, v = x) :
    vs.foldl (fun kept v => if v ∈ kept then kept else kept ++ [v]) [x] = [x] := by
  induction vs with
  | nil => rfl
  | cons v vs ih =>
    rw [List.forall_mem_cons] at h
    rw [List.foldl_cons, if_pos (by simp [h.1]), ih h.2]

/-- Variants of one value become one variant. -/
theorem collapse_of_eq {x : Value} {variants result : List ConflictCandidate}
    (hne : variants ≠ []) (h : ∀ c ∈ variants, c.value = x)
    (hok : collapseIdenticalVariants variants = .ok result) : result.length = 1 := by
  obtain ⟨result', hok', hvalues⟩ := collapseIdenticalVariants_ok variants
  rw [hok, Except.ok.injEq] at hok'
  subst hok'
  cases variants with
  | nil => exact absurd rfl hne
  | cons c cs =>
    rw [List.forall_mem_cons] at h
    rw [List.map_cons, List.foldl_cons, if_neg List.not_mem_nil, List.nil_append, h.1,
      foldl_collapse_eq (by simpa using h.2)] at hvalues
    simpa using congrArg List.length hvalues

/-! ### `otherwise: reject` -/

section Reject

variable {A : Automerge} {toText : Value → String} {site : ResolutionSite} {plan : ConflictPlan}
  {deleted : List String} {candidates : List ConflictCandidate}

/-- The candidates are equal once the fields of the rules are blanked out. -/
def AgreeOutside (plan : ConflictPlan) (candidates : List ConflictCandidate) : Prop :=
  ∀ c ∈ candidates, ∀ d ∈ candidates,
    outsideRules plan.merge c.value = outsideRules plan.merge d.value

/-- The candidates have the same discriminators under every rule. -/
def AgreeOnGroups (plan : ConflictPlan) (candidates : List ConflictCandidate) : Prop :=
  ∀ rule ∈ plan.merge, ∀ c ∈ candidates, ∀ d ∈ candidates,
    (c.value.pointer rule.path).bind (groupValues · rule) =
      (d.value.pointer rule.path).bind (groupValues · rule)

/-- Candidates with the same discriminators are in the same group, or in none. -/
theorem groupKey_eq_of_discriminators {rule : ConflictMergeRule} {c d : ConflictCandidate}
    {key : List String}
    (h : (c.value.pointer rule.path).bind (groupValues · rule) =
      (d.value.pointer rule.path).bind (groupValues · rule))
    (hc : groupKey toText rule c = some key) (hd : groupKey toText rule d ≠ none) :
    groupKey toText rule d = some key := by
  simp only [groupKey] at hc hd ⊢
  cases hcp : c.value.pointer rule.path with
  | none => simp [hcp] at hc
  | some cf =>
    cases hdp : d.value.pointer rule.path with
    | none => simp [hdp] at hd
    | some df =>
      simp only [hcp, hdp, Option.bind_some] at h hc hd ⊢
      split at hc
      · cases hc
      · split at hd
        · exact absurd rfl hd
        · rename_i hlookup
          rw [if_neg hlookup, ← h]
          exact hc

/-- **Candidates that agree end as one variant.** -/
theorem mergeCandidates_single (hplan : AcceptedPlan plan) (hlen : 2 ≤ candidates.length)
    (houtside : AgreeOutside plan candidates) (hgroups : AgreeOnGroups plan candidates)
    (hrules : ∀ rule ∈ plan.merge, ¬ RuleRejects (candidates.map (groupKey toText rule)))
    {resolution : ConflictResolution}
    (h : mergeCandidates A toText plan candidates = .ok resolution) :
    resolution.variants.length = 1 := by
  obtain ⟨variants, hvariants, hcollapse⟩ := Except.bind_eq_ok.mp h
  obtain ⟨result, hresult, hdone⟩ := Except.bind_eq_ok.mp hcollapse
  simp only [Except.pure_eq_ok, Except.ok.injEq] at hdone
  subst hdone
  obtain ⟨first, hfirst⟩ : ∃ c, c ∈ candidates := List.exists_mem_of_length_pos (by omega)
  have hkeys : ∀ rule ∈ plan.merge, ∃ key,
      ∀ k ∈ candidates.map (groupKey toText rule), k = some key := by
    intro rule hrule
    have hsome : ∀ c ∈ candidates, groupKey toText rule c ≠ none := fun c hc hnone =>
      hrules rule hrule ⟨none, hnone ▸ List.mem_map_of_mem hc, Or.inl rfl⟩
    obtain ⟨key, hkey⟩ := Option.ne_none_iff_exists'.mp (hsome first hfirst)
    refine ⟨key, fun k hk => ?_⟩
    obtain ⟨c, hc, rfl⟩ := List.mem_map.mp hk
    exact groupKey_eq_of_discriminators (hgroups rule hrule first hfirst c hc) hkey (hsome c hc)
  obtain ⟨F, hF, hvalues⟩ := mergeRules_values hplan.pairwise_disjoint hlen hkeys hvariants
  refine collapse_of_eq (x := F (outsideRules plan.merge first.value)) ?_ ?_ hresult
  · rintro rfl
    have := congrArg List.length hvalues
    simp only [List.map_nil, List.length_nil, List.length_map] at this
    omega
  · intro c hc
    have hmem : c.value ∈ (candidates.map (·.value)).map F :=
      hvalues ▸ List.mem_map_of_mem (f := (·.value)) hc
    obtain ⟨v, hv, hvc⟩ := List.mem_map.mp hmem
    obtain ⟨d, hd, rfl⟩ := List.mem_map.mp hv
    rw [← hvc, ← hF, houtside d hd first hfirst]

/-- A merge that fails is a refusal. -/
theorem mergeCandidates_error {error : ConflictError}
    (h : mergeCandidates A toText plan candidates = .error error) : error = .rejected := by
  rcases Except.bind_eq_error.mp h with hrules | ⟨variants, -, hcollapse⟩
  · exact Except.foldlM_error (I := fun _ => True) (E := (· = .rejected))
      (fun _ _ _ _ _ _ => trivial) (fun _ _ _ _ e he => mergeRule_error he) trivial hrules
  · obtain ⟨result, hresult, -⟩ := collapseIdenticalVariants_ok variants
    rw [hresult] at hcollapse
    cases hcollapse

/-- Success under `otherwise: reject` means one head, and candidates that differ in merged
fields only; everything else is refused with a version conflict. -/
structure RejectsDifferences (A : Automerge) (toText : Value → String) (site : ResolutionSite)
    (plan : ConflictPlan) (deleted : List String) (candidates : List ConflictCandidate) : Prop where
  agree : ∀ resolution, resolveHeads A toText site plan deleted candidates = .ok resolution →
    AgreeOutside plan candidates ∧ AgreeOnGroups plan candidates ∧ deleted = [] ∧
      resolution.variants.length = 1
  refuse : ¬ AgreeOutside plan candidates ∨ ¬ AgreeOnGroups plan candidates ∨ deleted ≠ [] →
    ∃ error, resolveHeads A toText site plan deleted candidates = .error error ∧
      error.reason = .versionConflict

/-- A refusal is a version conflict, wherever it happens. -/
theorem resolveHeads_error (hstrategy : plan.strategy = .merge) {error : BackendError}
    (h : resolveHeads A toText site plan deleted candidates = .error error) :
    error.reason = .versionConflict := by
  simp only [resolveHeads] at h
  split at h
  · cases h
    cases site <;> rfl
  · split at h
    · cases h
    · rename_i e he
      cases h
      simp only [resolvePreparedConflict, hstrategy] at he
      split at he
      · cases he
      · rw [mergeCandidates_error he]
        simp only [conflictBackendError, withCurrentVersions, BackendError.new]
        split <;> rfl

/-- **`otherwise: reject` keeps its promise** exactly where a tombstone is among the heads, there
is one candidate, a rule finds a candidate outside it or alone in its group, or the candidates
agree outside the merged fields. Elsewhere every group has two members or more, nothing is
refused, and a difference outside the rules or a second group stays as a second head. -/
theorem resolveHeads_rejects_iff (hplan : AcceptedPlan plan) (hstrategy : plan.strategy = .merge)
    (hotherwise : plan.otherwise = .reject) (hne : candidates ≠ []) :
    RejectsDifferences A toText site plan deleted candidates ↔
      deleted ≠ [] ∨ candidates.length = 1 ∨
        (∃ rule ∈ plan.merge, RuleRejects (candidates.map (groupKey toText rule))) ∨
        (AgreeOutside plan candidates ∧ AgreeOnGroups plan candidates) := by
  have hpos : 0 < candidates.length := List.length_pos_iff.mpr hne
  constructor
  · intro h
    by_contra hcond
    push Not at hcond
    obtain ⟨hdeleted, hone, hrules, hdiffer⟩ := hcond
    obtain ⟨variants, hvariants⟩ :=
      (mergeRules_isOk_iff (A := A) hotherwise hplan.pairwise_disjoint candidates).mpr hrules
    obtain ⟨result, hresult, -⟩ := collapseIdenticalVariants_ok variants
    have hok : resolveHeads A toText site plan deleted candidates = .ok ⟨result⟩ := by
      simp only [resolveHeads, hdeleted, ne_eq, not_true_eq_false, false_and, if_false,
        resolvePreparedConflict, if_neg (by omega : ¬ candidates.length ≤ 1), hstrategy,
        mergeCandidates, hvariants, bind, Except.bind, hresult, pure, Except.pure]
    obtain ⟨houtside, hgroups, -⟩ := h.agree _ hok
    exact hdiffer houtside hgroups
  · intro hcond
    have hagree : ∀ resolution, resolveHeads A toText site plan deleted candidates =
        .ok resolution → AgreeOutside plan candidates ∧ AgreeOnGroups plan candidates ∧
          deleted = [] ∧ resolution.variants.length = 1 := by
      intro resolution hok
      simp only [resolveHeads] at hok
      split at hok
      · cases hok
      · rename_i hmixed
        have hdeleted : deleted = [] := by
          by_contra hd
          exact hmixed ⟨hd, hotherwise⟩
        split at hok
        · rename_i resolution' hresolved
          cases hok
          simp only [resolvePreparedConflict, hstrategy] at hresolved
          split at hresolved
          · cases hresolved
            obtain ⟨c, rfl⟩ := List.length_eq_one_iff.mp (by omega : candidates.length = 1)
            refine ⟨?_, ?_, hdeleted, rfl⟩
            · simp [AgreeOutside]
            · simp [AgreeOnGroups]
          · rename_i hlen
            have hrules : ∀ rule ∈ plan.merge,
                ¬ RuleRejects (candidates.map (groupKey toText rule)) := by
              obtain ⟨variants, hvariants, -⟩ := Except.bind_eq_ok.mp hresolved
              exact (mergeRules_isOk_iff (A := A) hotherwise hplan.pairwise_disjoint
                candidates).mp ⟨variants, hvariants⟩
            rcases hcond with hd | hone | ⟨rule, hrule, hreject⟩ | ⟨houtside, hgroups⟩
            · exact absurd hdeleted hd
            · omega
            · exact absurd hreject (hrules rule hrule)
            · exact ⟨houtside, hgroups, hdeleted,
                mergeCandidates_single hplan (by omega) houtside hgroups hrules hresolved⟩
        · cases hok
    refine ⟨hagree, fun hdiffer => ?_⟩
    cases hresult : resolveHeads A toText site plan deleted candidates with
    | error e => exact ⟨e, rfl, resolveHeads_error hstrategy hresult⟩
    | ok resolution =>
      obtain ⟨houtside, hgroups, hdeleted, -⟩ := hagree resolution hresult
      rcases hdiffer with h | h | h
      · exact absurd houtside h
      · exact absurd hgroups h
      · exact absurd hdeleted h

end Reject

/-! ### A note with two titles

The content of a note is mergeable within its kind, its title is not. Two heads with different
titles are merged and stay two heads. -/

section Note

/-- Merge the content of notes of one kind, refuse everything else. -/
def notePlan : ConflictPlan where
  strategy := .merge
  baseVersionsField := "base_versions"
  baseVersions := none
  merge := [{ path := "/content", groupBy := ["/kind"] }]
  otherwise := .reject

theorem notePlan_accepted : AcceptedPlan notePlan :=
  ⟨"entity_types.note.fallback.conflict",
    { defaultStrategy := .merge, strategyFrom := "conflict_strategy"
      baseVersions := "base_versions", merge := notePlan.merge, otherwise := .reject },
    ["base_versions", "conflict_strategy"], by decide, rfl⟩

def noteContent : Value := .object [("kind", .string "text"), ("text", .string "milk")]

/-- A head whose content is the document of one change. -/
def noteHead (version title : String) : ConflictCandidate where
  value := .object [("content", noteContent), ("title", .string title)]
  crdtFields := [("/content", ⟨[{ hash := "c0", parents := [], bytes := [1] }]⟩)]
  sourceVersion := some version

/-- Automerge on that document. -/
def noteAutomerge : Automerge where
  decode := fun _ => some ("c0", [])
  hydrate := fun _ => CrdtJson.fromJson noteContent
  reconcile := fun _ _ _ => [{ hash := "c0", parents := [], bytes := [1] }]

theorem two_titles_stay_two_heads :
    ¬ RejectsDifferences noteAutomerge (fun _ => "\"text\"") (.update ["v1", "v2"]) notePlan []
      [noteHead "v1" "shopping", noteHead "v2" "errands"] := by
  intro h
  have hresult : (resolveHeads noteAutomerge (fun _ => "\"text\"") (.update ["v1", "v2"]) notePlan []
      [noteHead "v1" "shopping", noteHead "v2" "errands"]).toOption.map (·.variants.length) =
        some 2 := by decide
  obtain ⟨resolution, hok, hlength⟩ := Option.map_eq_some_iff.mp hresult
  cases hr : resolveHeads noteAutomerge (fun _ => "\"text\"") (.update ["v1", "v2"]) notePlan []
      [noteHead "v1" "shopping", noteHead "v2" "errands"] with
  | error e =>
    rw [hr] at hok
    cases hok
  | ok res =>
    rw [hr] at hok
    cases hok
    have := (h.agree resolution hr).2.2.2
    omega

/-- One title in both heads: the promise is kept. -/
theorem one_title_is_one_head :
    RejectsDifferences noteAutomerge (fun _ => "\"text\"") (.update ["v1", "v2"]) notePlan []
      [noteHead "v1" "shopping", noteHead "v2" "shopping"] := by
  refine (resolveHeads_rejects_iff notePlan_accepted rfl rfl (by simp)).mpr ?_
  refine Or.inr (Or.inr (Or.inr ⟨?_, ?_⟩))
  · simp [AgreeOutside, noteHead]
  · simp [AgreeOnGroups, noteHead]

end Note

end Patchouli
