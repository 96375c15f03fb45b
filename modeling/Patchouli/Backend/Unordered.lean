import Mathlib.Data.List.Pairwise
import Patchouli.Backend.Merge

/-!
# The order of a merge does not show

`merge_candidates` walks through the rules of the plan, through the groups of each rule and through
the heads of each group, and the heads come ordered by random version ids. Here the merge is
stated without any of these orders. A `Variant` is a candidate as its readers see it, each document
the set of its changes; a rule is a function of the variants (`ruleSpec`) that replaces a field by
the union of the documents in its group; and the collapse is a table of values (`collapseSpec`).
The loops compute these (`mergeRule_variants`, `collapse_variants`), and the functions commute:
rules because an accepted plan keeps their paths apart, the collapse because a union does not
depend on order.

The one assumption about the library is that the value of a document is a function of the set of
its changes, `JsonOfChanges`.

## Main definitions

* `Variant`, `ConflictCandidate.variant` — a candidate with its documents as sets of changes
* `ruleSpec`, `collapseSpec` — one rule, and the collapse of equal values
* `SameOutcome` — two merges are refused alike, or keep the same variants

## Main results

* `mergeRule_variants`, `collapse_variants` — the loops compute the functions
* `ruleSpec_comm`, `joinVariant_comm` — the functions commute
* `mergeCandidates_unordered` — candidates and rules may come in any order
-/

namespace Patchouli

open Json (Value)

/-! ### Documents as sets of changes -/

/-- The changes of a document. -/
def CrdtDocument.changeSet (document : CrdtDocument) : Set CrdtChange :=
  {c | c ∈ document.changes}

@[simp] theorem CrdtDocument.mem_changeSet {document : CrdtDocument} {c : CrdtChange} :
    c ∈ document.changeSet ↔ c ∈ document.changes := Iff.rfl

theorem mem_mergeChanges {a b : List CrdtChange} {c : CrdtChange} :
    c ∈ mergeChanges a b ↔ c ∈ a ∨ c ∈ b := by
  simp only [mergeChanges, List.mem_append, List.mem_filter, Bool.not_eq_true',
    List.contains_eq_mem, decide_eq_false_iff_not]
  constructor
  · rintro (h | ⟨h, -⟩)
    · exact Or.inl h
    · exact Or.inr h
  · intro h
    by_cases hc : c ∈ a
    · exact Or.inl hc
    · exact Or.inr ⟨h.resolve_left hc, hc⟩

/-- **A merge of documents is the union of their changes.** -/
theorem mem_merge {documents : List CrdtDocument} {document : CrdtDocument}
    (h : CrdtDocument.merge documents = .ok document) (c : CrdtChange) :
    c ∈ document.changeSet ↔ ∃ d ∈ documents, c ∈ d.changeSet := by
  cases documents with
  | nil => cases h
  | cons first rest =>
    simp only [CrdtDocument.merge, Except.ok.injEq] at h
    subst h
    have hfold : ∀ changes : List CrdtChange,
        c ∈ rest.foldl (fun merged d => mergeChanges merged d.changes) changes ↔
          c ∈ changes ∨ ∃ d ∈ rest, c ∈ d.changes := by
      induction rest with
      | nil => simp
      | cons d ds ih =>
        intro changes
        rw [List.foldl_cons, ih, mem_mergeChanges, List.exists_mem_cons_iff, or_assoc]
    rw [List.exists_mem_cons_iff]
    exact hfold first.changes

/-- The value of a document is a function of the set of its changes. -/
def JsonOfChanges (A : Automerge) : Prop :=
  ∀ xs ys : List CrdtChange, (∀ c, c ∈ xs ↔ c ∈ ys) →
    (A.hydrate xs).intoJson = (A.hydrate ys).intoJson

open Classical in
/-- The value a set of changes holds. -/
noncomputable def Automerge.jsonOf (A : Automerge) (changes : Set CrdtChange) : Value :=
  if h : ∃ document : CrdtDocument, document.changeSet = changes then h.choose.json A else .null

theorem jsonOf_changeSet {A : Automerge} (hA : JsonOfChanges A) (document : CrdtDocument) :
    A.jsonOf document.changeSet = document.json A := by
  have h : ∃ d : CrdtDocument, d.changeSet = document.changeSet := ⟨document, rfl⟩
  rw [Automerge.jsonOf, dif_pos h]
  exact hA _ _ fun c => Set.ext_iff.mp h.choose_spec c

/-! ### Variants -/

/-- A candidate as its readers see it. -/
@[ext] structure Variant where
  value : Value
  sourceVersion : Option String
  fields : String → Option (Set CrdtChange)

/-- The documents of a candidate as sets of changes. -/
def ConflictCandidate.variant (candidate : ConflictCandidate) : Variant where
  value := candidate.value
  sourceVersion := candidate.sourceVersion
  fields path := (candidate.crdtFields.lookup path).map CrdtDocument.changeSet

/-- The fields of a candidate are a map in key order. -/
def ConflictCandidate.InKeyOrder (candidate : ConflictCandidate) : Prop :=
  (candidate.crdtFields.map (·.1)).Pairwise (· < ·)

namespace Variant

variable (A : Automerge) (toText : Value → String)

/-- The group of a variant under a rule. -/
def groupKey (rule : ConflictMergeRule) (v : Variant) : Option (List String) :=
  (v.value.pointer rule.path).bind fun field =>
    (v.fields rule.path).bind fun _ =>
      (groupValues field rule).map fun group => group.map (canonicalJson toText)

/-- What a rule writes into a variant: nothing, or a set of changes and its value. -/
noncomputable def withEffect (rule : ConflictMergeRule) (v : Variant) :
    Option (Set CrdtChange) → Variant
  | none => v
  | some changes =>
    { value := v.value.setPointer rule.path (A.jsonOf changes)
      sourceVersion := none
      fields := Function.update v.fields rule.path (some changes) }

end Variant

theorem groupKey_variant (toText : Value → String) (rule : ConflictMergeRule)
    (c : ConflictCandidate) : c.variant.groupKey toText rule = groupKey toText rule c := by
  simp only [Variant.groupKey, groupKey, ConflictCandidate.variant]
  cases c.value.pointer rule.path with
  | none => rfl
  | some field =>
    cases c.crdtFields.lookup rule.path with
    | none => rfl
    | some document => rfl

theorem withMerged_variant {A : Automerge} (hA : JsonOfChanges A) (rule : ConflictMergeRule)
    (document : CrdtDocument) (c : ConflictCandidate) :
    (c.withMerged A rule document).variant =
      c.variant.withEffect A rule (some document.changeSet) := by
  simp only [ConflictCandidate.withMerged, ConflictCandidate.variant, Variant.withEffect,
    jsonOf_changeSet hA, Variant.mk.injEq, true_and]
  funext path
  by_cases hpath : path = rule.path
  · subst hpath
    rw [Table.lookup_insertEntry_self, Function.update_self, Option.map_some]
  · rw [Table.lookup_insertEntry_of_ne hpath, Function.update_of_ne hpath]

/-! ### A rule as a function -/

section RuleSpec

variable (A : Automerge) (toText : Value → String) (vs : List Variant) (rule : ConflictMergeRule)

/-- The union of the documents in a group. -/
def groupChanges (key : List String) : Set CrdtChange :=
  {c | ∃ v ∈ vs, v.groupKey toText rule = some key ∧ ∃ s, v.fields rule.path = some s ∧ c ∈ s}

/-- How many variants are in a group. -/
def groupSize (key : List String) : ℕ :=
  vs.countP fun v => v.groupKey toText rule = some key

/-- What a rule does to a variant among others. -/
def ruleEffect (v : Variant) : Option (Set CrdtChange) :=
  (v.groupKey toText rule).bind fun key =>
    if 2 ≤ groupSize toText vs rule key then some (groupChanges toText vs rule key) else none

/-- One rule, all groups at once. -/
noncomputable def ruleSpec : List Variant :=
  vs.map fun v => v.withEffect A rule (ruleEffect toText vs rule v)

end RuleSpec

section RuleSpec

variable {A : Automerge} {toText : Value → String} {vs ws : List Variant}
  {rule r s : ConflictMergeRule}

theorem groupChanges_perm (h : vs.Perm ws) (key : List String) :
    groupChanges toText vs rule key = groupChanges toText ws rule key := by
  ext c
  simp only [groupChanges, Set.mem_ofPred_eq, h.mem_iff]

theorem ruleEffect_perm (h : vs.Perm ws) (v : Variant) :
    ruleEffect toText vs rule v = ruleEffect toText ws rule v := by
  have hsize : ∀ key, groupSize toText vs rule key = groupSize toText ws rule key :=
    fun key => h.countP_eq _
  simp only [ruleEffect, hsize, groupChanges_perm h]

theorem ruleSpec_perm (h : vs.Perm ws) :
    (ruleSpec A toText vs rule).Perm (ruleSpec A toText ws rule) := by
  simp only [ruleSpec, ruleEffect_perm h]
  exact h.map _

/-! ### Rules commute -/

theorem withEffect_pointer (h : RulesDisjoint r s) (v : Variant) (e : Option (Set CrdtChange)) :
    (v.withEffect A r e).value.pointer s.path = v.value.pointer s.path := by
  cases e with
  | none => rfl
  | some changes => exact pointer_setPointer_of_disjoint h v.value _

theorem withEffect_fields (h : RulesDisjoint r s) (v : Variant) (e : Option (Set CrdtChange)) :
    (v.withEffect A r e).fields s.path = v.fields s.path := by
  cases e with
  | none => rfl
  | some changes => exact Function.update_of_ne h.1.symm _ _

theorem withEffect_groupKey (h : RulesDisjoint r s) (v : Variant) (e : Option (Set CrdtChange)) :
    (v.withEffect A r e).groupKey toText s = v.groupKey toText s := by
  simp only [Variant.groupKey, withEffect_pointer h, withEffect_fields h]

theorem withEffect_comm (h : RulesDisjoint r s) (v : Variant) (e f : Option (Set CrdtChange)) :
    (v.withEffect A r e).withEffect A s f = (v.withEffect A s f).withEffect A r e := by
  cases e with
  | none => rfl
  | some changes =>
    cases f with
    | none => rfl
    | some changes' =>
      simp only [Variant.withEffect, setPointer_comm h, Function.update_comm h.1]

/-- A rule sees the same groups before and after a rule elsewhere. -/
theorem ruleEffect_ruleSpec (h : RulesDisjoint r s) (v : Variant) (e : Option (Set CrdtChange)) :
    ruleEffect toText (ruleSpec A toText vs r) s (v.withEffect A r e) =
      ruleEffect toText vs s v := by
  have hsize : ∀ key, groupSize toText (ruleSpec A toText vs r) s key =
      groupSize toText vs s key := by
    intro key
    simp only [groupSize, ruleSpec, List.countP_map, Function.comp_def, withEffect_groupKey h]
  have hchanges : ∀ key, groupChanges toText (ruleSpec A toText vs r) s key =
      groupChanges toText vs s key := by
    intro key
    ext c
    simp only [groupChanges, ruleSpec, Set.mem_ofPred_eq, List.mem_map,
      exists_exists_and_eq_and, withEffect_groupKey h, withEffect_fields h]
  simp only [ruleEffect, withEffect_groupKey h, hsize, hchanges]

/-- **Rules on disjoint paths commute.** -/
theorem ruleSpec_comm (h : RulesDisjoint r s) :
    ruleSpec A toText (ruleSpec A toText vs r) s =
      ruleSpec A toText (ruleSpec A toText vs s) r := by
  have hboth : ∀ {r s : ConflictMergeRule}, RulesDisjoint r s →
      ruleSpec A toText (ruleSpec A toText vs r) s = vs.map fun v =>
        (v.withEffect A r (ruleEffect toText vs r v)).withEffect A s
          (ruleEffect toText vs s v) := by
    intro r s h
    rw [ruleSpec]
    conv_lhs => arg 2; rw [ruleSpec]
    rw [List.map_map]
    refine List.map_congr_left fun v _ => ?_
    simp only [Function.comp_apply, ruleEffect_ruleSpec h]
  rw [hboth h, hboth h.symm]
  exact List.map_congr_left fun v _ => withEffect_comm h v _ _

/-- The rules of a plan in any order. -/
theorem rulesSpec_perm {rules rules' : List ConflictMergeRule}
    (hdisjoint : rules.Pairwise RulesDisjoint) (hrules : rules.Perm rules') (h : vs.Perm ws) :
    (rules.foldl (ruleSpec A toText) vs).Perm (rules'.foldl (ruleSpec A toText) ws) := by
  have hcomm : ∀ r ∈ rules, ∀ s ∈ rules, ∀ vs, ruleSpec A toText (ruleSpec A toText vs r) s =
      ruleSpec A toText (ruleSpec A toText vs s) r := by
    intro r hr s hs vs
    by_cases hrs : r = s
    · rw [hrs]
    · have : Std.Symm RulesDisjoint := ⟨fun _ _ h => h.symm⟩
      exact ruleSpec_comm (hdisjoint.forall hr hs hrs)
  rw [← hrules.foldl_eq' hcomm ws]
  clear hcomm hdisjoint hrules
  induction rules generalizing vs ws with
  | nil => exact h
  | cons r rest ih => exact ih (ruleSpec_perm h)

end RuleSpec

/-! ### The loop over the groups -/

section Loop

variable {A : Automerge} {toText : Value → String} {plan : ConflictPlan}
  {rule : ConflictMergeRule} {xs current next : List ConflictCandidate}
  {done : List (List String)} {key : List String}

/-- What became of a candidate once the groups in `done` are merged. -/
structure MergedSoFar (A : Automerge) (toText : Value → String) (rule : ConflictMergeRule)
    (vs : List Variant) (done : List (List String)) (c d : ConflictCandidate) : Prop where
  merged : ∀ key ∈ done, groupKey toText rule c = some key →
    d.variant = c.variant.withEffect A rule (ruleEffect toText vs rule c.variant)
  kept : (∀ key ∈ done, groupKey toText rule c ≠ some key) → d = c

namespace MergedSoFar

variable {vs : List Variant} {c d : ConflictCandidate}

/-- A candidate outside the next group stays as it is. -/
theorem of_ne (h : MergedSoFar A toText rule vs done c d)
    (hne : groupKey toText rule c ≠ some key) :
    MergedSoFar A toText rule vs (key :: done) c d where
  merged key' hkey' hc := by
    rcases List.mem_cons.mp hkey' with rfl | hmem
    · exact absurd hc hne
    · exact h.merged key' hmem hc
  kept hall := h.kept fun key' hmem => hall key' (List.mem_cons_of_mem _ hmem)

/-- A candidate of the next group is as it came until that group is merged. -/
theorem eq_of_mem (h : MergedSoFar A toText rule vs done c d) (hkey : key ∉ done)
    (hc : groupKey toText rule c = some key) : d = c := by
  refine h.kept fun key' hmem heq => hkey ?_
  rw [hc, Option.some.injEq] at heq
  exact heq ▸ hmem

/-- A candidate of the group that was just merged. -/
theorem of_merged (hc : groupKey toText rule c = some key)
    (hd : d.variant = c.variant.withEffect A rule (ruleEffect toText vs rule c.variant)) :
    MergedSoFar A toText rule vs (key :: done) c d where
  merged _ _ _ := hd
  kept hall := absurd hc (hall key List.mem_cons_self)

end MergedSoFar

theorem mem_groupMembers_iff {i : ℕ} (hi : i < xs.length) :
    i ∈ groupMembers (xs.map (groupKey toText rule)) key ↔
      groupKey toText rule xs[i] = some key := by
  rw [mem_groupMembers, List.getElem?_map, List.getElem?_eq_getElem hi, Option.map_some,
    Option.some.injEq]

theorem length_groupMembers_eq_groupSize (toText : Value → String) (rule : ConflictMergeRule)
    (xs : List ConflictCandidate) (key : List String) :
    (groupMembers (xs.map (groupKey toText rule)) key).length =
      groupSize toText (xs.map (·.variant)) rule key := by
  rw [length_groupMembers, groupSize, List.count, List.countP_map, List.countP_map]
  refine List.countP_congr fun c _ => ?_
  simp [groupKey_variant]

/-- The branches of a group hold the changes of its candidates. -/
theorem branches_changes
    (h : List.Forall₂ (MergedSoFar A toText rule (xs.map (·.variant)) done) xs current)
    (hkey : key ∉ done) {document : CrdtDocument}
    (hdocument : CrdtDocument.merge
      ((groupMembers (xs.map (groupKey toText rule)) key).filterMap fun i =>
        (current[i]?).bind fun c => c.crdtFields.lookup rule.path) = .ok document) :
    document.changeSet = groupChanges toText (xs.map (·.variant)) rule key := by
  obtain ⟨hlen, hall⟩ := List.forall₂_iff_get.mp h
  ext change
  rw [mem_merge hdocument]
  simp only [List.mem_filterMap, groupChanges, Set.mem_ofPred_eq, List.mem_map,
    exists_exists_and_eq_and, groupKey_variant]
  constructor
  · rintro ⟨d, ⟨i, hi, hlookup⟩, hd⟩
    obtain ⟨c, hc, hcd⟩ := Option.bind_eq_some_iff.mp hlookup
    obtain ⟨hlt, rfl⟩ := List.getElem?_eq_some_iff.mp hc
    have hlt' : i < xs.length := hlen ▸ hlt
    have hck := (mem_groupMembers_iff hlt').mp hi
    have hsame : current[i] = xs[i] := (hall i hlt' hlt).eq_of_mem hkey hck
    refine ⟨xs[i], List.getElem_mem hlt', hck, d.changeSet, ?_, hd⟩
    simp only [ConflictCandidate.variant, ← hsame, hcd, Option.map_some]
  · rintro ⟨c, hc, hck, s, hs, hmem⟩
    obtain ⟨i, hlt, rfl⟩ := List.getElem_of_mem hc
    have hlt' : i < current.length := hlen ▸ hlt
    have hsame : current[i] = xs[i] := (hall i hlt hlt').eq_of_mem hkey hck
    obtain ⟨d, hd, rfl⟩ := Option.map_eq_some_iff.mp hs
    refine ⟨d, ⟨i, (mem_groupMembers_iff hlt).mpr hck, ?_⟩, hmem⟩
    rw [List.getElem?_eq_getElem hlt', Option.bind_some, hsame, hd]

/-- One group: its candidates get the union of their documents, if there are two or more. -/
theorem mergeGroup_mergedSoFar (hA : JsonOfChanges A) (hkey : key ∉ done)
    (h : List.Forall₂ (MergedSoFar A toText rule (xs.map (·.variant)) done) xs current)
    (hnext : mergeGroup A plan rule current
      (groupMembers (xs.map (groupKey toText rule)) key) = .ok next) :
    List.Forall₂ (MergedSoFar A toText rule (xs.map (·.variant)) (key :: done)) xs next := by
  obtain ⟨hlen, hall⟩ := List.forall₂_iff_get.mp h
  have hsize := length_groupMembers_eq_groupSize toText rule xs key
  have heffect : ∀ c, groupKey toText rule c = some key →
      ruleEffect toText (xs.map (·.variant)) rule c.variant =
        if 2 ≤ (groupMembers (xs.map (groupKey toText rule)) key).length then
          some (groupChanges toText (xs.map (·.variant)) rule key) else none := by
    intro c hc
    rw [ruleEffect, groupKey_variant, hc, Option.bind_some, hsize]
  simp only [mergeGroup] at hnext
  split at hnext
  · rename_i hsmall
    obtain ⟨-, -, hnext⟩ := Except.bind_eq_ok.mp hnext
    simp only [Except.pure_eq_ok, Except.ok.injEq] at hnext
    subst hnext
    refine List.forall₂_iff_get.mpr ⟨hlen, fun i h₁ h₂ => ?_⟩
    have hsofar := hall i h₁ h₂
    by_cases hc : groupKey toText rule (xs.get ⟨i, h₁⟩) = some key
    · refine .of_merged hc ?_
      rw [hsofar.eq_of_mem hkey hc, heffect _ hc, if_neg (by omega)]
      rfl
    · exact hsofar.of_ne hc
  · rename_i hlarge
    obtain ⟨document, hdocument, hnext⟩ := Except.bind_eq_ok.mp hnext
    simp only [Except.pure_eq_ok, Except.ok.injEq] at hnext
    subst hnext
    have hchanges := branches_changes h hkey hdocument
    refine List.forall₂_iff_get.mpr ⟨by simpa using hlen, fun i h₁ h₂ => ?_⟩
    have h₂' : i < current.length := by simpa using h₂
    have hsofar := hall i h₁ h₂'
    simp only [List.get_eq_getElem, List.getElem_mapIdx] at hsofar ⊢
    by_cases hc : groupKey toText rule xs[i] = some key
    · rw [if_pos ((mem_groupMembers_iff h₁).mpr hc)]
      refine .of_merged hc ?_
      rw [withMerged_variant hA, hsofar.eq_of_mem hkey hc, heffect _ hc, if_pos (by omega),
        hchanges]
    · rw [if_neg (mt (mem_groupMembers_iff h₁).mp hc)]
      exact hsofar.of_ne hc

/-- All groups, each once. -/
theorem mergeGroups_mergedSoFar (hA : JsonOfChanges A) {keys : List (List String)}
    (hnodup : (keys ++ done).Nodup)
    (h : List.Forall₂ (MergedSoFar A toText rule (xs.map (·.variant)) done) xs current)
    (hfold : (keys.map (groupMembers (xs.map (groupKey toText rule)))).foldlM
      (mergeGroup A plan rule) current = .ok next) :
    ∃ done', (∀ key, key ∈ done' ↔ key ∈ keys ∨ key ∈ done) ∧
      List.Forall₂ (MergedSoFar A toText rule (xs.map (·.variant)) done') xs next := by
  induction keys generalizing done current with
  | nil =>
    simp only [List.map_nil, List.foldlM_nil, Except.pure_eq_ok, Except.ok.injEq] at hfold
    subst hfold
    exact ⟨done, fun key => by simp, h⟩
  | cons key keys ih =>
    obtain ⟨mid, hmid, hrest⟩ := Except.foldlM_cons_eq_ok.mp hfold
    obtain ⟨hkey, hkeys⟩ := List.nodup_cons.mp hnodup
    have hdone : key ∉ done := fun hmem => hkey (List.mem_append_right _ hmem)
    have hperm : (keys ++ key :: done).Perm (key :: (keys ++ done)) := List.perm_middle
    obtain ⟨done', hdone', hall⟩ :=
      ih (hperm.nodup_iff.mpr hnodup) (mergeGroup_mergedSoFar hA hdone h hmid) hrest
    refine ⟨done', fun k => ?_, hall⟩
    rw [hdone', List.mem_cons, List.mem_cons]
    tauto

/-- **The loop over the groups of a rule computes the rule.** -/
theorem mergeRule_variants (hA : JsonOfChanges A)
    (h : mergeRule A toText plan xs rule = .ok next) :
    next.map (·.variant) = ruleSpec A toText (xs.map (·.variant)) rule := by
  obtain ⟨groups, hgroups, hfold⟩ := Except.bind_eq_ok.mp h
  set keys := xs.map (groupKey toText rule) with hkeys
  have hmap : groups = ((keys.filterMap id).dedup.insertionSort (· ≤ ·)).map
      (groupMembers keys) := groupVariants_eq_map hgroups
  subst hmap
  have hstart : List.Forall₂ (MergedSoFar A toText rule (xs.map (·.variant)) []) xs xs :=
    List.forall₂_same.mpr fun c _ => ⟨fun _ hmem => absurd hmem List.not_mem_nil, fun _ => rfl⟩
  have hnodup : ((keys.filterMap id).dedup.insertionSort (· ≤ ·) ++ []).Nodup := by
    rw [List.append_nil]
    exact (List.perm_insertionSort _ _).nodup_iff.mpr (List.nodup_dedup _)
  obtain ⟨done, hdone, hall⟩ := mergeGroups_mergedSoFar hA hnodup hstart hfold
  obtain ⟨hlen, hall⟩ := List.forall₂_iff_get.mp hall
  refine List.ext_getElem (by simp [ruleSpec, hlen]) fun i h₁ h₂ => ?_
  have hx : i < xs.length := by simpa [ruleSpec] using h₂
  have hn : i < next.length := by simpa using h₁
  have hsofar : MergedSoFar A toText rule (xs.map (·.variant)) done xs[i] next[i] := hall i hx hn
  simp only [ruleSpec, List.getElem_map]
  cases hc : groupKey toText rule xs[i] with
  | none =>
    rw [hsofar.kept fun key _ => by simp [hc], ruleEffect, groupKey_variant, hc]
    rfl
  | some key =>
    refine hsofar.merged key ((hdone key).mpr (Or.inl ?_)) hc
    rw [List.mem_insertionSort, List.mem_dedup, List.mem_filterMap]
    exact ⟨some key, hkeys ▸ hc ▸ List.mem_map_of_mem (List.getElem_mem hx), rfl⟩

/-- The loop over the rules computes their composition. -/
theorem mergeRules_variants (hA : JsonOfChanges A) {rules : List ConflictMergeRule}
    (h : rules.foldlM (mergeRule A toText plan) xs = .ok next) :
    next.map (·.variant) = rules.foldl (ruleSpec A toText) (xs.map (·.variant)) := by
  induction rules generalizing xs with
  | nil =>
    simp only [List.foldlM_nil, Except.pure_eq_ok, Except.ok.injEq] at h
    rw [h, List.foldl_nil]
  | cons rule rest ih =>
    obtain ⟨mid, hmid, hrest⟩ := Except.foldlM_cons_eq_ok.mp h
    rw [ih hrest, mergeRule_variants hA hmid, List.foldl_cons]

/-- The rules keep the fields in key order. -/
theorem mergeRules_inKeyOrder {rules : List ConflictMergeRule}
    (hxs : ∀ c ∈ xs, c.InKeyOrder)
    (h : rules.foldlM (mergeRule A toText plan) xs = .ok next) : ∀ c ∈ next, c.InKeyOrder := by
  refine Except.foldlM_inv (I := fun ys : List ConflictCandidate => ∀ c ∈ ys, c.InKeyOrder)
    (fun ys hys rule _ zs hzs d hd => ?_) hxs h
  obtain ⟨i, hi, rfl⟩ := List.getElem_of_mem hd
  obtain ⟨hlen, hall⟩ := List.forall₂_iff_get.mp (mergeRule_steps hzs)
  have hi' : i < ys.length := hlen ▸ hi
  have hstep : MergeStep A rule ys[i] zs[i] := hall i hi' hi
  have horder := hys ys[i] (List.getElem_mem hi')
  generalize ys[i] = c at hstep horder
  generalize zs[i] = d at hstep
  cases hstep with
  | kept => exact horder
  | merged document => exact Table.insertEntry_pairwise horder

end Loop

/-! ### The collapse of equal values -/

section Collapse

/-- What two variants know about a field. -/
def joinField : Option (Set CrdtChange) → Option (Set CrdtChange) → Option (Set CrdtChange)
  | none, t => t
  | some s, none => some s
  | some s, some t => some (s ∪ t)

theorem joinField_comm (s t : Option (Set CrdtChange)) : joinField s t = joinField t s := by
  cases s <;> cases t <;> simp [joinField, Set.union_comm]

theorem joinField_assoc (s t u : Option (Set CrdtChange)) :
    joinField (joinField s t) u = joinField s (joinField t u) := by
  cases s <;> cases t <;> cases u <;> simp [joinField, Set.union_assoc]

/-- Two variants of one value: no source of its own, the fields of both. -/
def Variant.join (v w : Variant) : Variant where
  value := v.value
  sourceVersion := none
  fields path := joinField (v.fields path) (w.fields path)

theorem Variant.join_comm {v w : Variant} (h : v.value = w.value) : v.join w = w.join v := by
  simp only [Variant.join, h, joinField_comm]

theorem Variant.join_right_comm (u v w : Variant) :
    (u.join v).join w = (u.join w).join v := by
  simp only [Variant.join, Variant.mk.injEq, true_and]
  funext path
  rw [joinField_assoc, joinField_comm (v.fields path), ← joinField_assoc]

/-- The variants kept so far, by value. -/
abbrev VariantTable := Value → Option Variant

/-- A variant joins the one with its value. -/
def joinVariant (kept : VariantTable) (v : Variant) : VariantTable :=
  Function.update kept v.value (some (((kept v.value).map (·.join v)).getD v))

/-- All variants of a list, one for each value. -/
def collapseSpec (vs : List Variant) : VariantTable := vs.foldl joinVariant fun _ => none

/-- **Variants may join in any order.** -/
theorem joinVariant_comm (kept : VariantTable) (v w : Variant) :
    joinVariant (joinVariant kept v) w = joinVariant (joinVariant kept w) v := by
  by_cases h : v.value = w.value
  · simp only [joinVariant, h, Function.update_self, Function.update_idem]
    cases kept w.value with
    | none => simp [Variant.join_comm h]
    | some u => simp [Variant.join_right_comm u v w]
  · simp only [joinVariant, Function.update_of_ne h, Function.update_of_ne (Ne.symm h)]
    exact Function.update_comm h _ _ _

theorem collapseSpec_perm {vs ws : List Variant} (h : vs.Perm ws) :
    collapseSpec vs = collapseSpec ws :=
  h.foldl_eq' (fun v _ w _ kept => joinVariant_comm kept v w) _

/-- The fields of two candidates, joined. -/
theorem mergeFields_lookup {kept fields result : List (String × CrdtDocument)}
    (hnodup : (fields.map (·.1)).Nodup) (h : mergeFields kept fields = .ok result)
    (path : String) : (result.lookup path).map CrdtDocument.changeSet =
      joinField ((kept.lookup path).map CrdtDocument.changeSet)
        ((fields.lookup path).map CrdtDocument.changeSet) := by
  induction fields generalizing kept with
  | nil =>
    simp only [mergeFields, List.foldlM_nil, Except.pure_eq_ok, Except.ok.injEq] at h
    subst h
    cases kept.lookup path <;> rfl
  | cons e rest ih =>
    obtain ⟨l, document⟩ := e
    obtain ⟨hl, hrest⟩ := List.nodup_cons.mp hnodup
    obtain ⟨mid, hmid, htail⟩ := Except.foldlM_cons_eq_ok.mp h
    rw [ih hrest htail]
    have hinsert : ∃ d, mid = Table.insertEntry l d kept ∧ some d.changeSet =
        joinField ((kept.lookup l).map CrdtDocument.changeSet) (some document.changeSet) := by
      simp only at hmid
      split at hmid
      · rename_i current hcurrent
        obtain ⟨merged, hmerged, hmid⟩ := Except.bind_eq_ok.mp hmid
        simp only [Except.pure_eq_ok, Except.ok.injEq] at hmid
        refine ⟨merged, hmid.symm, ?_⟩
        rw [hcurrent, Option.map_some, joinField, Option.some.injEq]
        ext c
        rw [mem_merge hmerged]
        simp
      · rename_i hnone
        simp only [Except.pure_eq_ok, Except.ok.injEq] at hmid
        refine ⟨document, hmid.symm, ?_⟩
        rw [hnone, Option.map_none, joinField]
    obtain ⟨d, rfl, hd⟩ := hinsert
    by_cases hpath : path = l
    · subst hpath
      have hnone : rest.lookup path = none := by
        rw [List.lookup_eq_none_iff]
        intro e he
        rw [bne_iff_ne]
        intro heq
        exact hl (List.mem_map.mpr ⟨e, he, heq.symm⟩)
      rw [Table.lookup_insertEntry_self, Option.map_some, hd, hnone, List.lookup_cons_self,
        Option.map_none, joinField_comm, Option.map_some]
      rfl
    · rw [Table.lookup_insertEntry_of_ne hpath, List.lookup_cons, beq_false_of_ne hpath]

/-- The variant a list of candidates keeps for a value. -/
def keptIn (ys : List ConflictCandidate) : VariantTable := fun x =>
  (ys.find? fun c => decide (c.value = x)).map (·.variant)

theorem keptIn_cons (c : ConflictCandidate) (ys : List ConflictCandidate) :
    keptIn (c :: ys) = Function.update (keptIn ys) c.value (some c.variant) := by
  funext x
  by_cases hx : x = c.value
  · subst hx
    simp [keptIn]
  · rw [Function.update_of_ne hx]
    simp [keptIn, Ne.symm hx]

/-- One turn of the collapse. -/
theorem keptIn_addVariant {ys next : List ConflictCandidate} {c : ConflictCandidate}
    (hc : c.InKeyOrder) (h : addVariant ys c = .ok next) :
    keptIn next = joinVariant (keptIn ys) c.variant := by
  have hnodup : (c.crdtFields.map (·.1)).Nodup := hc.imp fun hlt => ne_of_lt hlt
  induction ys generalizing next with
  | nil =>
    simp only [addVariant, Except.ok.injEq] at h
    subst h
    rw [keptIn_cons]
    rfl
  | cons e rest ih =>
    by_cases hv : e.value = c.value
    · simp only [addVariant, if_pos hv] at h
      obtain ⟨fields, hfields, h⟩ := Except.bind_eq_ok.mp h
      simp only [Except.pure_eq_ok, Except.ok.injEq] at h
      subst h
      have hjoin : ({ e with crdtFields := fields, sourceVersion := none } :
          ConflictCandidate).variant = e.variant.join c.variant := by
        simp only [ConflictCandidate.variant, Variant.join, Variant.mk.injEq, true_and]
        exact funext (mergeFields_lookup hnodup hfields)
      rw [keptIn_cons, keptIn_cons, hjoin, joinVariant, hv]
      simp [ConflictCandidate.variant]
    · simp only [addVariant, if_neg hv] at h
      obtain ⟨rest', hrest', h⟩ := Except.bind_eq_ok.mp h
      simp only [Except.pure_eq_ok, Except.ok.injEq] at h
      subst h
      rw [keptIn_cons, ih hrest', keptIn_cons, joinVariant, joinVariant,
        Function.update_of_ne (Ne.symm hv : c.variant.value ≠ e.value)]
      exact Function.update_comm (Ne.symm hv) _ _ _

/-- **The collapse keeps the table of the variants**, each value once. -/
theorem collapse_variants {xs ys : List ConflictCandidate} (hxs : ∀ c ∈ xs, c.InKeyOrder)
    (h : collapseIdenticalVariants xs = .ok ys) :
    (ys.map (·.value)).Nodup ∧ keptIn ys = collapseSpec (xs.map (·.variant)) := by
  have key : ∀ kept : List ConflictCandidate, (kept.map (·.value)).Nodup →
      xs.foldlM addVariant kept = .ok ys → (ys.map (·.value)).Nodup ∧
        keptIn ys = (xs.map (·.variant)).foldl joinVariant (keptIn kept) := by
    clear h
    induction xs with
    | nil =>
      intro kept hkept h
      simp only [List.foldlM_nil, Except.pure_eq_ok, Except.ok.injEq] at h
      exact h ▸ ⟨hkept, rfl⟩
    | cons c cs ih =>
      intro kept hkept h
      obtain ⟨hc, hcs⟩ := List.forall_mem_cons.mp hxs
      obtain ⟨next, hnext, hrest⟩ := Except.foldlM_cons_eq_ok.mp h
      have hvalues : (next.map (·.value)).Nodup := by
        obtain ⟨next', hnext', hvalues⟩ := addVariant_ok kept c
        rw [hnext, Except.ok.injEq] at hnext'
        subst hnext'
        rw [hvalues]
        split
        · exact hkept
        · rename_i hnew
          exact List.nodup_append.mpr ⟨hkept, List.nodup_singleton _, fun a ha b hb hab => by
            rw [hab, List.mem_singleton.mp hb] at ha
            exact hnew ha⟩
      rw [List.map_cons, List.foldl_cons, ← keptIn_addVariant hc hnext]
      exact ih hcs next hvalues hrest
  exact key [] List.nodup_nil h

/-- Candidates with one value each are the same where their tables are. -/
theorem variants_perm {ys zs : List ConflictCandidate} (hys : (ys.map (·.value)).Nodup)
    (hzs : (zs.map (·.value)).Nodup) (h : keptIn ys = keptIn zs) :
    (ys.map (·.variant)).Perm (zs.map (·.variant)) := by
  have hmem : ∀ {ys : List ConflictCandidate}, (ys.map (·.value)).Nodup → ∀ v : Variant,
      v ∈ ys.map (·.variant) ↔ keptIn ys v.value = some v := by
    intro ys hys v
    rw [keptIn, List.mem_map, Option.map_eq_some_iff]
    constructor
    · rintro ⟨c, hc, rfl⟩
      refine ⟨c, ?_, rfl⟩
      cases hfind : ys.find? fun d => decide (d.value = c.variant.value) with
      | none => exact absurd (List.find?_eq_none.mp hfind c hc) (by simp [ConflictCandidate.variant])
      | some d =>
        have hvalue : d.value = c.variant.value := by simpa using List.find?_some hfind
        rw [Table.eq_of_key_eq (·.value) hys (List.mem_of_find?_eq_some hfind) hc hvalue]
    · rintro ⟨c, hc, rfl⟩
      exact ⟨c, List.mem_of_find?_eq_some hc, rfl⟩
  have hnodup : ∀ {ys : List ConflictCandidate}, (ys.map (·.value)).Nodup →
      (ys.map (·.variant)).Nodup := by
    intro ys hys
    refine List.Nodup.of_map (·.value) ?_
    rwa [List.map_map]
  refine (List.perm_ext_iff_of_nodup (hnodup hys) (hnodup hzs)).mpr fun v => ?_
  rw [hmem hys, hmem hzs, h]

end Collapse

/-! ### Two merges -/

section Unordered

variable {A : Automerge} {toText : Value → String} {plan : ConflictPlan}

/-- Some rule of the plan refuses the candidates. -/
def PlanRejects (toText : Value → String) (plan : ConflictPlan)
    (candidates : List ConflictCandidate) : Prop :=
  plan.otherwise = .reject ∧
    ∃ rule ∈ plan.merge, RuleRejects (candidates.map (groupKey toText rule))

/-- With `otherwise: mvcc` nothing is refused. -/
theorem mergeRule_isOk (hotherwise : plan.otherwise = .mvcc) (rule : ConflictMergeRule)
    (variants : List ConflictCandidate) :
    ∃ result, mergeRule A toText plan variants rule = .ok result := by
  obtain ⟨groups, hgroups⟩ : ∃ groups, groupVariants toText plan rule variants = .ok groups := by
    simp only [groupVariants, hotherwise, rejectIfRequired]
    split
    · exact ⟨_, rfl⟩
    · exact ⟨_, rfl⟩
  have hmembers := groupVariants_eq_members hgroups
  have hturn : ∀ current, MergeSteps A rule variants current → ∀ indexes ∈ groups,
      ∃ next, mergeGroup A plan rule current indexes = .ok next ∧
        MergeSteps A rule variants next := by
    intro current hsteps indexes hindexes
    by_cases hlen : indexes.length < 2
    · refine ⟨current, ?_, hsteps⟩
      simp only [mergeGroup, if_pos hlen, hotherwise, rejectIfRequired]
      rfl
    · obtain ⟨key, rfl⟩ := hmembers indexes hindexes
      obtain ⟨next, hnext⟩ := mergeGroup_isOk A plan (Nat.le_of_not_lt hlen)
        (hsteps.fields_of_groupMembers toText)
      exact ⟨next, hnext, hsteps.trans (mergeGroup_steps hnext)⟩
  obtain ⟨result, hresult, -⟩ := Except.foldlM_isOk hturn (MergeSteps.refl variants)
  exact ⟨result, Except.bind_eq_ok.mpr ⟨groups, hgroups, hresult⟩⟩

/-- **A merge goes through unless a rule of a rejecting plan refuses the candidates.** -/
theorem mergeCandidates_isOk_iff (A : Automerge) (toText : Value → String)
    (hdisjoint : plan.merge.Pairwise RulesDisjoint) (candidates : List ConflictCandidate) :
    (∃ resolution, mergeCandidates A toText plan candidates = .ok resolution) ↔
      ¬ PlanRejects toText plan candidates := by
  have hrules : (∃ resolution, mergeCandidates A toText plan candidates = .ok resolution) ↔
      ∃ result, plan.merge.foldlM (mergeRule A toText plan) candidates = .ok result := by
    constructor
    · rintro ⟨resolution, h⟩
      obtain ⟨result, hresult, -⟩ := Except.bind_eq_ok.mp h
      exact ⟨result, hresult⟩
    · rintro ⟨result, hresult⟩
      obtain ⟨collapsed, hcollapsed, -⟩ := collapseIdenticalVariants_ok result
      exact ⟨⟨collapsed⟩, Except.bind_eq_ok.mpr ⟨result, hresult,
        Except.bind_eq_ok.mpr ⟨collapsed, hcollapsed, rfl⟩⟩⟩
  rw [hrules]
  cases hotherwise : plan.otherwise with
  | reject =>
    rw [mergeRules_isOk_iff hotherwise hdisjoint]
    simp only [PlanRejects, hotherwise, true_and, not_exists, not_and]
  | mvcc =>
    refine iff_of_true ?_ fun h => by rw [PlanRejects, hotherwise] at h; cases h.1
    exact (Except.foldlM_isOk_iff (G := fun _ => True) fun current rule _ =>
      iff_of_true (mergeRule_isOk hotherwise rule current) trivial).mpr fun _ _ => trivial

theorem ruleRejects_perm {keys keys' : List (Option (List String))} (h : keys.Perm keys') :
    RuleRejects keys ↔ RuleRejects keys' := by
  simp only [RuleRejects, h.mem_iff, h.count_eq]

/-- Two merges end alike: both are refused with one error, or they keep the same variants. -/
def SameOutcome : Except ConflictError ConflictResolution →
    Except ConflictError ConflictResolution → Prop
  | .ok r, .ok r' => (r.variants.map (·.variant)).Perm (r'.variants.map (·.variant))
  | .error e, .error e' => e = e'
  | _, _ => False

/-- Writing at the path of one rule leaves what is at the path of the other. -/
def PathsApart (r s : ConflictMergeRule) : Prop :=
  ∀ v x : Value, (v.setPointer r.path x).pointer s.path = v.pointer s.path ∧
    (v.setPointer s.path x).pointer r.path = v.pointer r.path

/-- **A merge does not depend on order.** The paths of an accepted plan are apart in every value,
and the candidates and the rules may come in any order: the merge is refused in both, or keeps the
same variants, with the same values, source versions and changes. -/
theorem mergeCandidates_unordered (hA : JsonOfChanges A) (hplan : AcceptedPlan plan)
    {candidates candidates' : List ConflictCandidate} {rules : List ConflictMergeRule}
    (hfields : ∀ c ∈ candidates, c.InKeyOrder) (hcandidates : candidates.Perm candidates')
    (hrules : plan.merge.Perm rules) :
    plan.merge.Pairwise PathsApart ∧
      SameOutcome (mergeCandidates A toText plan candidates)
        (mergeCandidates A toText { plan with merge := rules } candidates') := by
  have hdisjoint := hplan.pairwise_disjoint
  refine ⟨hdisjoint.imp fun h v x => ⟨pointer_setPointer_of_disjoint h v x,
    pointer_setPointer_of_disjoint h.symm v x⟩, ?_⟩
  have hdisjoint' : rules.Pairwise RulesDisjoint :=
    hrules.pairwise hdisjoint fun h => h.symm
  have hrejects : PlanRejects toText plan candidates ↔
      PlanRejects toText { plan with merge := rules } candidates' := by
    refine and_congr_right fun _ => exists_congr fun rule => ?_
    rw [ruleRejects_perm (hcandidates.map _)]
    exact and_congr_left fun _ => hrules.mem_iff
  have hok := mergeCandidates_isOk_iff A toText hdisjoint candidates
  have hok' := @mergeCandidates_isOk_iff { plan with merge := rules } A toText hdisjoint'
    candidates'
  have hfields' : ∀ c ∈ candidates', c.InKeyOrder :=
    fun c hc => hfields c (hcandidates.mem_iff.mpr hc)
  cases h : mergeCandidates A toText plan candidates with
  | error e =>
    cases h' : mergeCandidates A toText { plan with merge := rules } candidates' with
    | error e' => rw [SameOutcome, mergeCandidates_error h, mergeCandidates_error h']
    | ok r' =>
      obtain ⟨r, hr⟩ := hok.mpr (mt hrejects.mp (hok'.mp ⟨r', h'⟩))
      rw [h] at hr
      cases hr
  | ok r =>
    cases h' : mergeCandidates A toText { plan with merge := rules } candidates' with
    | error e' =>
      obtain ⟨r', hr'⟩ := hok'.mpr (mt hrejects.mpr (hok.mp ⟨r, h⟩))
      rw [h'] at hr'
      cases hr'
    | ok r' =>
      obtain ⟨xs, hxs, hcollapse⟩ := Except.bind_eq_ok.mp h
      obtain ⟨ys, hys, hr⟩ := Except.bind_eq_ok.mp hcollapse
      obtain ⟨xs', hxs', hcollapse'⟩ := Except.bind_eq_ok.mp h'
      obtain ⟨ys', hys', hr'⟩ := Except.bind_eq_ok.mp hcollapse'
      cases hr
      cases hr'
      obtain ⟨hnodup, hkept⟩ := collapse_variants (mergeRules_inKeyOrder hfields hxs) hys
      obtain ⟨hnodup', hkept'⟩ := collapse_variants (mergeRules_inKeyOrder hfields' hxs') hys'
      refine variants_perm hnodup hnodup' ?_
      rw [hkept, hkept', mergeRules_variants hA hxs, mergeRules_variants hA hxs']
      exact collapseSpec_perm (rulesSpec_perm hdisjoint hrules (hcandidates.map _))

/-- Two heads of a note, in either order. -/
theorem noteHeads_unordered : notePlan.merge.Pairwise PathsApart ∧
    SameOutcome
      (mergeCandidates noteAutomerge (fun _ => "\"text\"") notePlan
        [noteHead "v1" "shopping", noteHead "v2" "errands"])
      (mergeCandidates noteAutomerge (fun _ => "\"text\"") notePlan
        [noteHead "v2" "errands", noteHead "v1" "shopping"]) :=
  @mergeCandidates_unordered noteAutomerge (fun _ => "\"text\"") notePlan (fun _ _ _ => rfl)
    notePlan_accepted [noteHead "v1" "shopping", noteHead "v2" "errands"]
    [noteHead "v2" "errands", noteHead "v1" "shopping"] notePlan.merge
    (by simp [ConflictCandidate.InKeyOrder, noteHead]) (List.Perm.swap _ _ _) (List.Perm.refl _)

end Unordered

end Patchouli
