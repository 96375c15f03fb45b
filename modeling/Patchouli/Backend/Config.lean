import Patchouli.Lib.Pointer
import Patchouli.Backend.Conflict

/-!
# Accepted conflict policies

`validate_conflict` of `config.rs`: what a configuration must satisfy before a conflict plan is
ever built from it. The checks compare pointer *texts*, byte by byte or as prefixes; what the
merge needs is that the rule paths address disjoint parts of every value.

## Main results

* `validJsonPointer_iff` — the byte loop accepts the well-formed pointers
* `AcceptedPlan.pairwise_disjoint` — the rules of an accepted plan have disjoint paths

The last section has what else the engine asks its configuration for: whether a value validates.
-/

namespace Patchouli

open Json (Value)

/-! ### Configuration errors -/

/-- `ConfigError::Invalid`. -/
structure ConfigError where
  path : String
  message : String
  deriving DecidableEq

/-- The `Display` text of a configuration error. -/
def ConfigError.text (error : ConfigError) : String :=
  "invalid backend configuration at " ++ error.path ++ ": " ++ error.message

def invalid (path message : String) : Except ConfigError Unit := .error ⟨path, message⟩

/-- `validate_aliases`, with the names of the configured metadata fields. -/
def validateAliases (path : String) (fields : List String) :
    List String → (seen : List String) → Except ConfigError Unit
  | [], _ => .ok ()
  | name :: rest, seen =>
    if !fields.contains name then invalid path ("unknown metadata field " ++ name.quote)
    else if seen.contains name then invalid path ("duplicate metadata field " ++ name.quote)
    else validateAliases path fields rest (name :: seen)

/-! ### Pointers -/

/-- The loop of `valid_json_pointer`: every `~` is followed by `0` or `1`. -/
def validEscapes : List UInt8 → Bool
  | [] => true
  | byte :: rest =>
    if byte = 126 then
      match rest with
      | [] => false
      | digit :: rest => (digit = 48 || digit = 49) && validEscapes rest
    else validEscapes rest

/-- `valid_json_pointer`. -/
def validJsonPointer (pointer : String) : Bool :=
  pointer.toList.head? = some '/' && validEscapes pointer.toUTF8.data.toList

/-- `nested_json_pointer`. -/
def nestedJsonPointer (parent child : String) : Bool :=
  parent = child || (parent.toList ++ ['/']).isPrefixOf child.toList

/-! ### Conflict policies -/

structure ConflictPolicy where
  defaultStrategy : ConflictStrategy
  strategyFrom : String
  baseVersions : String
  merge : List ConflictMergeRule
  otherwise : ConflictFallback

/-- The loop over the group paths of a rule. -/
def validateGroupBy (ruleRoot : String) : List String → (seen : List String) →
    Except ConfigError Unit
  | [], _ => .ok ()
  | pointer :: rest, seen =>
    if !validJsonPointer pointer then
      invalid (ruleRoot ++ ".group_by")
        "group paths must be non-root RFC 6901 JSON Pointers relative to the merged value"
    else if seen.contains pointer then
      invalid (ruleRoot ++ ".group_by") ("duplicate group path " ++ pointer.quote)
    else validateGroupBy ruleRoot rest (pointer :: seen)

/-- The loop over the merge rules, from position `index`. -/
def validateMergeRules (root : String) : List ConflictMergeRule → (index : ℕ) →
    (paths : List String) → Except ConfigError Unit
  | [], _, _ => .ok ()
  | rule :: rest, index, paths => do
    let ruleRoot := root ++ ".merge[" ++ toString index ++ "]"
    if !validJsonPointer rule.path then
      invalid (ruleRoot ++ ".path")
        "path must be a non-root RFC 6901 JSON Pointer relative to the entity value"
    else if paths.any fun existing =>
        nestedJsonPointer existing rule.path || nestedJsonPointer rule.path existing then
      invalid (ruleRoot ++ ".path") "merge paths must not duplicate or contain one another"
    else do
      validateGroupBy ruleRoot rule.groupBy []
      validateMergeRules root rest (index + 1) (rule.path :: paths)

/-- `validate_conflict`. -/
def validateConflict (root : String) (conflict : ConflictPolicy) (fields : List String) :
    Except ConfigError Unit := do
  validateAliases (root ++ ".strategy_from") fields [conflict.strategyFrom] []
  validateAliases (root ++ ".base_versions") fields [conflict.baseVersions] []
  validateMergeRules root conflict.merge 0 []

/-- A plan whose rules come from a policy the configuration check accepted. -/
def AcceptedPlan (plan : ConflictPlan) : Prop :=
  ∃ root policy fields, validateConflict root policy fields = .ok () ∧ policy.merge = plan.merge

/-! ### The byte loop -/

/-- A byte below 128 in the encoding of a character is the whole encoding. -/
theorem utf8EncodeChar_of_lt {c : Char} {b : UInt8} (hb : b ∈ String.utf8EncodeChar c)
    (hlt : b.toNat < 128) : String.utf8EncodeChar c = [b] ∧ b.toNat = c.toNat := by
  have hc : c.val.toNat = c.toNat := rfl
  unfold String.utf8EncodeChar at *
  dsimp only at *
  split at hb
  · rename_i h
    simp only [List.mem_singleton] at hb
    subst hb
    simp only [h, if_true, true_and]
    simp only [UInt8.toNat_ofNat']
    omega
  · split at hb
    · simp only [List.mem_cons, List.not_mem_nil, or_false] at hb
      rcases hb with rfl | rfl <;> simp at hlt <;> omega
    · split at hb
      · simp only [List.mem_cons, List.not_mem_nil, or_false] at hb
        rcases hb with rfl | rfl | rfl <;> simp at hlt <;> omega
      · simp only [List.mem_cons, List.not_mem_nil, or_false] at hb
        rcases hb with rfl | rfl | rfl | rfl <;> simp at hlt <;> omega

/-- An ASCII byte encodes its own character only. -/
theorem eq_of_mem_utf8EncodeChar {c d : Char} {b : UInt8} (hb : b ∈ String.utf8EncodeChar c)
    (hd : b.toNat = d.toNat) (hlt : d.toNat < 128) : c = d := by
  have h := (utf8EncodeChar_of_lt hb (by omega)).2
  exact Char.ext (UInt32.toNat_inj.mp (show c.toNat = d.toNat by omega))

theorem validEscapes_append_of_forall_ne {bs rest : List UInt8} (h : ∀ b ∈ bs, b ≠ 126) :
    validEscapes (bs ++ rest) = validEscapes rest := by
  induction bs with
  | nil => rfl
  | cons b bs ih =>
    rw [List.forall_mem_cons] at h
    rw [List.cons_append, validEscapes.eq_def]
    simp only [h.1, if_false, ih h.2]

/-- Bytes and characters agree on the escapes. -/
theorem validEscapes_flatMap_iff (cs : List Char) :
    validEscapes (cs.flatMap String.utf8EncodeChar) = true ↔ Json.EscapesWellFormed cs := by
  induction cs using Json.EscapesWellFormed.induct with
  | case1 => simp [validEscapes, Json.EscapesWellFormed]
  | case2 cs ih | case3 cs ih =>
    simpa [String.utf8EncodeChar, validEscapes, Json.EscapesWellFormed] using ih
  | case4 c cs h0 h1 ih =>
    rw [List.flatMap_cons]
    by_cases hc : c = '~'
    · subst hc
      have hfalse : ¬ Json.EscapesWellFormed ('~' :: cs) := by
        rw [Json.EscapesWellFormed]
        · exact fun h => h.1 rfl
        · exact fun ds hd hds => h0 ds hd hds
        · exact fun ds hd hds => h1 ds hd hds
      refine iff_of_false ?_ hfalse
      rw [show String.utf8EncodeChar '~' = [126] by decide, List.cons_append, List.nil_append,
        validEscapes.eq_def]
      simp only [if_true]
      cases cs with
      | nil => simp
      | cons d ds =>
        rw [List.flatMap_cons]
        cases hd : String.utf8EncodeChar d with
        | nil => exact absurd hd String.utf8EncodeChar_ne_nil
        | cons b bs =>
          have hb : b ∈ String.utf8EncodeChar d := by simp [hd]
          have hne0 : b ≠ 48 := by
            rintro rfl
            exact h0 ds rfl (by rw [eq_of_mem_utf8EncodeChar (d := '0') hb rfl (by decide)])
          have hne1 : b ≠ 49 := by
            rintro rfl
            exact h1 ds rfl (by rw [eq_of_mem_utf8EncodeChar (d := '1') hb rfl (by decide)])
          simp [hne0, hne1]
    · have hne : ∀ b ∈ String.utf8EncodeChar c, b ≠ 126 := by
        rintro b hb rfl
        exact hc (eq_of_mem_utf8EncodeChar (d := '~') hb rfl (by decide))
      rw [validEscapes_append_of_forall_ne hne, ih, Json.EscapesWellFormed]
      · simp [hc]
      · exact fun ds hd hds => h0 ds hd hds
      · exact fun ds hd hds => h1 ds hd hds

/-- The bytes of a string are those of its characters. -/
theorem toUTF8_toList (s : String) :
    s.toUTF8.data.toList = s.toList.flatMap String.utf8EncodeChar := by
  have h : s.toByteArray = s.toList.utf8Encode := String.utf8Encode_toList.symm
  rw [show s.toUTF8 = s.toByteArray from rfl, h, List.utf8Encode, List.toList_data_toByteArray]

/-- **What the pointer check accepts.** -/
theorem validJsonPointer_iff (pointer : String) :
    validJsonPointer pointer = true ↔ Json.PointerWellFormed pointer := by
  rw [validJsonPointer, toUTF8_toList, Bool.and_eq_true, decide_eq_true_iff,
    validEscapes_flatMap_iff, Json.PointerWellFormed]
  constructor
  · rintro ⟨hhead, hescapes⟩
    cases hs : pointer.toList with
    | nil => simp [hs] at hhead
    | cons c cs =>
      simp only [hs, List.head?_cons, Option.some.injEq] at hhead hescapes
      subst hhead
      rw [Json.EscapesWellFormed] at hescapes
      · exact ⟨cs, rfl, hescapes.2⟩
      · intro ds hd _; exact absurd hd (by decide)
      · intro ds hd _; exact absurd hd (by decide)
  · rintro ⟨cs, hcs, hescapes⟩
    rw [hcs]
    refine ⟨rfl, ?_⟩
    rw [Json.EscapesWellFormed]
    · exact ⟨by decide, hescapes⟩
    · intro ds hd _; exact absurd hd (by decide)
    · intro ds hd _; exact absurd hd (by decide)

theorem nestedJsonPointer_iff (parent child : String) :
    nestedJsonPointer parent child = true ↔
      parent = child ∨ ∃ rest, child.toList = parent.toList ++ '/' :: rest := by
  rw [nestedJsonPointer, Bool.or_eq_true, decide_eq_true_iff, List.isPrefixOf_iff_prefix]
  refine or_congr Iff.rfl ?_
  constructor
  · rintro ⟨rest, h⟩
    exact ⟨rest, by rw [← h]; simp⟩
  · rintro ⟨rest, h⟩
    exact ⟨rest, by rw [h]; simp⟩

/-! ### Accepted rules -/

/-- The path a rule addresses. -/
def ConflictMergeRule.Addresses (rule : ConflictMergeRule) (path : List (List Char)) : Prop :=
  Json.pointerTokens rule.path = some path

/-- Two rules address disjoint parts of every value. -/
def RulesDisjoint (r s : ConflictMergeRule) : Prop :=
  r.path ≠ s.path ∧ ∀ p q, r.Addresses p → s.Addresses q → Json.Disjoint p q

theorem RulesDisjoint.symm {r s : ConflictMergeRule} (h : RulesDisjoint r s) :
    RulesDisjoint s r :=
  ⟨h.1.symm, fun p q hp hq => (h.2 q p hq hp).symm⟩

/-- The loop accepts only rules that neither equal nor contain one another or a path seen
before. -/
theorem validateMergeRules_ok {root : String} {rules : List ConflictMergeRule} {index : ℕ}
    {paths : List String} (h : validateMergeRules root rules index paths = .ok ()) :
    (∀ r ∈ rules, Json.PointerWellFormed r.path ∧ ∀ p ∈ paths,
        nestedJsonPointer p r.path = false ∧ nestedJsonPointer r.path p = false) ∧
      rules.Pairwise fun r s =>
        nestedJsonPointer r.path s.path = false ∧ nestedJsonPointer s.path r.path = false := by
  induction rules generalizing index paths with
  | nil => simp
  | cons rule rest ih =>
    simp only [validateMergeRules] at h
    split at h
    · cases h
    · rename_i hvalid
      split at h
      · cases h
      · rename_i hnested
        obtain ⟨-, -, hrest⟩ := Except.bind_eq_ok.mp h
        obtain ⟨hall, hpair⟩ := ih hrest
        simp only [Bool.not_eq_true', Bool.not_eq_false] at hvalid
        simp only [List.any_eq_true, Bool.or_eq_true, not_exists, not_and, not_or,
          Bool.not_eq_true] at hnested
        refine ⟨?_, List.pairwise_cons.mpr ⟨fun s hs => (hall s hs).2 rule.path (by simp), hpair⟩⟩
        rw [List.forall_mem_cons]
        exact ⟨⟨(validJsonPointer_iff _).mp hvalid, hnested⟩, fun s hs =>
          ⟨(hall s hs).1, fun p hp => (hall s hs).2 p (List.mem_cons_of_mem _ hp)⟩⟩

/-- **Accepted rules are disjoint.** -/
theorem AcceptedPlan.pairwise_disjoint {plan : ConflictPlan} (h : AcceptedPlan plan) :
    plan.merge.Pairwise RulesDisjoint := by
  obtain ⟨root, policy, fields, hok, hmerge⟩ := h
  obtain ⟨-, -, hok⟩ := Except.bind_eq_ok.mp hok
  obtain ⟨-, -, hok⟩ := Except.bind_eq_ok.mp hok
  rw [hmerge] at hok
  obtain ⟨hall, hpair⟩ := validateMergeRules_ok hok
  refine hpair.imp_of_mem fun {r s} hr hs hnested => ?_
  have hne : ∀ {p q : String}, nestedJsonPointer p q = false →
      p ≠ q ∧ ∀ rest, q.toList ≠ p.toList ++ '/' :: rest := by
    intro p q hpq
    have hnot := (nestedJsonPointer_iff p q).not.mp (by simp [hpq])
    rw [not_or] at hnot
    exact ⟨hnot.1, fun rest hrest => hnot.2 ⟨rest, hrest⟩⟩
  refine ⟨(hne hnested.1).1, fun p q hp hq => ?_⟩
  exact Json.pointerTokens_disjoint (hall r hr).1 (hall s hs).1 (hne hnested.1).1
    (hne hnested.1).2 (hne hnested.2).2 hp hq

/-- An accepted rule addresses a path. -/
theorem AcceptedPlan.addresses {plan : ConflictPlan} (h : AcceptedPlan plan)
    {rule : ConflictMergeRule} (hrule : rule ∈ plan.merge) : ∃ path, rule.Addresses path := by
  obtain ⟨root, policy, fields, hok, hmerge⟩ := h
  obtain ⟨-, -, hok⟩ := Except.bind_eq_ok.mp hok
  obtain ⟨-, -, hok⟩ := Except.bind_eq_ok.mp hok
  rw [hmerge] at hok
  exact ((validateMergeRules_ok hok).1 rule hrule).1.pointerTokens

/-! ### Entity values -/

/-- An entity type: its value schema, as what the built validator answers. A refusal has the path
inside the value and a message. -/
structure EntityPolicy where
  validate : Value → Except (String × String) Unit

/-- The configuration as the engine uses it; metadata fields and rules have already become the
`PolicySelection` of a request. -/
structure BackendConfig where
  entityTypes : List (String × EntityPolicy)
  idempotencySeconds : ℕ
  changesSeconds : ℕ

/-- `validate_entity_value`. The schemas of a loaded configuration always build. -/
def BackendConfig.validateEntityValue (config : BackendConfig) (entityType : String)
    (value : Value) : Except ConfigError Unit :=
  match config.entityTypes.lookup entityType with
  | none => invalid ("entity_types." ++ entityType) "entity type is not configured"
  | some policy =>
    match policy.validate value with
    | .ok () => .ok ()
    | .error (path, message) =>
      invalid ("entity_types." ++ entityType ++ ".value" ++ path) message

/-- A value the schema of its entity type accepts. -/
def BackendConfig.SchemaValid (config : BackendConfig) (entityType : String) (value : Value) :
    Prop :=
  ∃ policy, config.entityTypes.lookup entityType = some policy ∧ policy.validate value = .ok ()

theorem BackendConfig.validateEntityValue_eq_ok {config : BackendConfig} {entityType : String}
    {value : Value} {u : Unit} :
    config.validateEntityValue entityType value = .ok u ↔ config.SchemaValid entityType value := by
  unfold BackendConfig.validateEntityValue BackendConfig.SchemaValid invalid
  cases config.entityTypes.lookup entityType with
  | none => simp
  | some policy => cases hvalid : policy.validate value <;> simp [hvalid]

end Patchouli
