import Patchouli.Backend.Instruction
import Patchouli.Lib.JsonText

/-!
# What a cursor is bound to

The fingerprint of a query is the SHA-256 digest of its normalized parts as compact JSON. Two
queries share it exactly when they ask the same: the same scope and types, the same text without
blanks around it, the same set of ids, the same set of predicates, the same order. That takes both
directions. Normalizing must forget how the client wrote the query (`Reads.unique`: the ids are
listed in order, the predicates by their pointers), and writing must forget nothing
(`QueryIdentity.text_injective`, which rests on `Json.FloatText.write_injective`).

## Main definitions

* `QueryIdentity.toJson`, `QueryText.codec` — the fingerprint and the cursor as they are written
* `QueryText.parseQuery`
* `Asked`, `asked` — what an instruction asks, without the way it is written

## Main results

* `parseIdentity_reads` — an accepted instruction is read as what it asks
* `QueryText.digest_eq_iff` — equal fingerprints, equal questions
* `QueryText.parseQuery_cursor_iff` — when a query takes a cursor
-/

namespace Patchouli

open Json (Value FloatText)

/-! ### The fingerprint -/

def RetrieveFilterOperator.text : RetrieveFilterOperator → String
  | .equal => "equal"
  | .notEqual => "not_equal"
  | .lessThan => "less_than"
  | .lessThanOrEqual => "less_than_or_equal"
  | .greaterThan => "greater_than"
  | .greaterThanOrEqual => "greater_than_or_equal"
  | .contains => "contains"

def RetrieveOrder.text : RetrieveOrder → String
  | .relevance => "relevance"
  | .newest => "newest"
  | .oldest => "oldest"
  | .idAscending => "id_ascending"
  | .idDescending => "id_descending"

/-- An optional list of strings, as `serde` writes it. -/
def stringsJson : Option (List String) → Value
  | none => .null
  | some strings => .array (strings.map .string)

section Text

variable (floats : FloatText)

/-- `serde_json::to_string`. -/
def jsonText (value : Value) : String := String.ofList (floats.write value)

/-- A filter, with the text of its operand. -/
def RetrieveFilter.toJson (filter : RetrieveFilter) : Value :=
  .object [("pointer", .string filter.pointer), ("operator", .string filter.operator.text),
    ("value_json", .string (jsonText floats filter.valueJson))]

/-- The parts of a query in `fingerprint`. -/
def QueryIdentity.toJson (identity : QueryIdentity) : Value :=
  .object [("scope_json", .string identity.scopeJson),
    ("entity_types", stringsJson identity.entityTypes),
    ("text", identity.text.elim .null .string),
    ("entity_ids", stringsJson identity.entityIds),
    ("filters", .array (identity.filters.map (·.toJson floats))),
    ("order", .string identity.order.text)]

end Text

/-- A cursor, in `encode_cursor`. -/
def RetrieveCursor.toJson (cursor : RetrieveCursor) : Value :=
  .object [("order", .string cursor.order.text),
    ("query_fingerprint", .string cursor.queryFingerprint),
    ("score", .number (.float cursor.score)),
    ("recorded_at_unix_ms", .number (.posInt (UInt64.ofNat cursor.recordedAtUnixMs))),
    ("entity_type", .string cursor.entityType), ("entity_id", .string cursor.entityId)]

/-- The libraries behind `query.rs`: how floats are printed, how JSON texts are read, and the
digest. -/
structure QueryText where
  floats : FloatText
  sha256 : String → String
  read : String → Except String Value
  decode : String → Except String RetrieveCursor

namespace QueryText

variable (texts : QueryText)

/-- `fingerprint`, `encode_cursor`, and how a cursor is read back. -/
def codec : QueryCodec where
  digest identity := texts.sha256 (jsonText texts.floats (identity.toJson texts.floats))
  encode cursor := jsonText texts.floats cursor.toJson
  decode := texts.decode

/-- `parse_query`. -/
def parseQuery (scopeJson : String) (entityTypes : List String) (queryJson : String) (limit : ℕ) :
    Except BackendError RetrieveQuery := do
  let instruction ← (texts.read queryJson).mapError fun error =>
    invalidRequest ("retrieval query must be a JSON object: " ++ error)
  texts.codec.parseInstruction scopeJson entityTypes instruction limit

/-- What the fingerprint relies on: no two texts have one digest, and what is read is a JSON
value. -/
structure Lawful : Prop where
  sha256_injective : Function.Injective texts.sha256
  read_normal : ∀ text value, texts.read text = .ok value → value.Normal

/-- A cursor that was written is read back, up to the rounding of its score. -/
def Recalls (cursor : RetrieveCursor) : Prop :=
  ∃ read, texts.decode (texts.codec.encode cursor) = .ok read ∧
    read.order = cursor.order ∧ read.queryFingerprint = cursor.queryFingerprint ∧
    read.entityType = cursor.entityType ∧ read.entityId = cursor.entityId

end QueryText

/-! ### What an instruction asks -/

/-- What a condition means: the operator it names, or else equality with it. -/
inductive Means : Value → RetrieveFilterOperator → Value → Prop where
  | operator {name : String} {operand : Value} {operator : RetrieveFilterOperator}
      (hname : conditionOperator name = some operator) :
      Means (.object [(name, operand)]) operator operand
  | bare {value : Value} (hvalue : ∀ name operand, value = .object [(name, operand)] →
      conditionOperator name = none) : Means value .equal value

/-- The question an instruction puts in a scope, to some types. -/
structure Asked where
  scopeJson : String
  entityTypes : List String
  text : Option String
  ids : Option (Set String)
  filters : Set (String × RetrieveFilterOperator × Value)
  order : Option RetrieveOrder

/-- The order a name stands for. -/
def orderNamed : String → Option RetrieveOrder
  | "relevance" => some .relevance
  | "newest" => some .newest
  | "oldest" => some .oldest
  | "id_asc" => some .idAscending
  | "id_desc" => some .idDescending
  | _ => none

/-- The order that is asked for, or else the default. -/
def effectiveOrder (value : Option Value) (hasText : Bool) : Option RetrieveOrder :=
  match value with
  | some value => value.asStr.bind orderNamed
  | none => some (if hasText then .relevance else .newest)

/-- What an instruction asks. -/
def asked (scopeJson : String) (entityTypes : List String) (object : List (String × Value)) :
    Asked where
  scopeJson
  entityTypes
  text := ((objectGet object "text").bind Value.asStr).map trim
  ids := ((objectGet object "ids").bind Value.asArray).map fun values => {id | .string id ∈ values}
  filters := {filter | ∃ entries, objectGet object "where" = some (.object entries) ∧
    ∃ entry ∈ entries, entry.1 = filter.1 ∧ Means entry.2 filter.2.1 filter.2.2}
  order := effectiveOrder (objectGet object "order") (objectGet object "text").isSome

/-- A filter as a triple. -/
def RetrieveFilter.triple (filter : RetrieveFilter) : String × RetrieveFilterOperator × Value :=
  (filter.pointer, filter.operator, filter.valueJson)

/-- An identity lists what is asked, in one fixed way. -/
structure Reads (identity : QueryIdentity) (question : Asked) : Prop where
  scopeJson : identity.scopeJson = question.scopeJson
  entityTypes : identity.entityTypes = some question.entityTypes
  text : identity.text = question.text
  ids : identity.entityIds.map (fun ids => {id | id ∈ ids}) = question.ids
  idsSorted : ∀ ids, identity.entityIds = some ids → ids.Pairwise (· < ·)
  filters : {filter | filter ∈ identity.filters.map (·.triple)} = question.filters
  filtersSorted : (identity.filters.map (·.pointer)).Pairwise (· < ·)
  order : some identity.order = question.order

/-- Two sorted lists of one set are equal. -/
theorem eq_of_pairwise_lt {xs ys : List String} (hx : xs.Pairwise (· < ·))
    (hy : ys.Pairwise (· < ·)) (h : ∀ s, s ∈ xs ↔ s ∈ ys) : xs = ys := by
  have hperm : xs.Perm ys := (List.perm_ext_iff_of_nodup (hx.imp fun h => ne_of_lt h)
    (hy.imp fun h => ne_of_lt h)).mpr h
  exact hperm.eq_of_pairwise (fun a b _ _ hab hba => absurd hab (lt_asymm hba)) hx hy

/-- **One way to list a question.** -/
theorem Reads.unique {i j : QueryIdentity} {question : Asked} (hi : Reads i question)
    (hj : Reads j question) : i = j := by
  have hids : i.entityIds = j.entityIds := by
    have h := hi.ids.trans hj.ids.symm
    cases hx : i.entityIds with
    | none =>
      cases hy : j.entityIds with
      | none => rfl
      | some ys => rw [hx, hy] at h; cases h
    | some xs =>
      cases hy : j.entityIds with
      | none => rw [hx, hy] at h; cases h
      | some ys =>
        rw [hx, hy] at h
        have hset : {id | id ∈ xs} = {id | id ∈ ys} := Option.some.inj h
        rw [eq_of_pairwise_lt (hi.idsSorted xs hx) (hj.idsSorted ys hy)
          fun s => Set.ext_iff.mp hset s]
  have hfilters : i.filters = j.filters := by
    have hset := hi.filters.trans hj.filters.symm
    have hinj : Function.Injective RetrieveFilter.triple := by
      rintro ⟨p, o, v⟩ ⟨q, o', v'⟩ h
      simpa [RetrieveFilter.triple] using h
    have hmem : ∀ f, f ∈ i.filters ↔ f ∈ j.filters := by
      intro f
      have := Set.ext_iff.mp hset f.triple
      simpa [List.mem_map, hinj.eq_iff] using this
    have hsorted : ∀ {fs : List RetrieveFilter}, (fs.map (·.pointer)).Pairwise (· < ·) →
        fs.Pairwise fun f g => f.pointer < g.pointer := fun h => List.pairwise_map.mp h
    have hx := hsorted hi.filtersSorted
    have hy := hsorted hj.filtersSorted
    have hnodup : ∀ {fs : List RetrieveFilter}, (fs.Pairwise fun f g => f.pointer < g.pointer) →
        fs.Nodup := fun h => h.imp fun hlt heq => absurd hlt (by rw [heq]; exact lt_irrefl _)
    have hperm := (List.perm_ext_iff_of_nodup (hnodup hx) (hnodup hy)).mpr hmem
    exact hperm.eq_of_pairwise (fun f g _ _ hfg hgf => absurd hfg (lt_asymm hgf)) hx hy
  have hscope := hi.scopeJson.trans hj.scopeJson.symm
  have htypes := hi.entityTypes.trans hj.entityTypes.symm
  have htext := hi.text.trans hj.text.symm
  have horder := Option.some.inj (hi.order.trans hj.order.symm)
  cases i
  cases j
  simp_all

/-- An identity says what is asked. -/
theorem Reads.determines {identity : QueryIdentity} {a b : Asked} (ha : Reads identity a)
    (hb : Reads identity b) : a = b := by
  have htypes := Option.some.inj (ha.entityTypes.symm.trans hb.entityTypes)
  have hscope := ha.scopeJson.symm.trans hb.scopeJson
  have htext := ha.text.symm.trans hb.text
  have hids := ha.ids.symm.trans hb.ids
  have hfilters := ha.filters.symm.trans hb.filters
  have horder := ha.order.symm.trans hb.order
  cases a
  cases b
  simp_all

/-! ### Reading an instruction -/

theorem uniqueStrings_spec {field : String} {values : List Value} {unique ids : List String}
    (hnodup : unique.Nodup) (h : uniqueStrings field values unique = .ok ids) :
    ids.Nodup ∧ ∀ id, id ∈ ids ↔ id ∈ unique ∨ .string id ∈ values := by
  induction values generalizing unique with
  | nil =>
    rw [uniqueStrings, Except.ok.injEq] at h
    subst h
    simpa using hnodup
  | cons value values ih =>
    cases value with
    | string s =>
      rw [uniqueStrings] at h
      split at h
      · cases h
      · rename_i hs
        have hnew : s ∉ unique := fun hmem => hs (Or.inr hmem)
        obtain ⟨hids, hmem⟩ := ih (List.nodup_cons.mpr ⟨hnew, hnodup⟩) h
        refine ⟨hids, fun id => (hmem id).trans ?_⟩
        simp only [List.mem_cons, Value.string.injEq, or_assoc, or_left_comm]
    | _ => simp [uniqueStrings] at h

theorem optionalStringSet_reads {object : List (String × Value)} {field : String}
    {ids : Option (List String)} (h : optionalStringSet object field = .ok ids) :
    ids.map (fun ids => {id | id ∈ ids}) = ((objectGet object field).bind Value.asArray).map
        (fun values => {id | .string id ∈ values}) ∧
      ∀ list, ids = some list → list.Pairwise (· < ·) := by
  unfold optionalStringSet at h
  cases hget : objectGet object field with
  | none =>
    simp only [hget, Except.ok.injEq] at h
    subst h
    simp
  | some value =>
    simp only [hget] at h
    cases value with
    | array values =>
      simp only at h
      split at h
      · cases h
      · obtain ⟨unique, hunique, hids⟩ := Except.bind_eq_ok.mp h
        obtain ⟨hnodup, hmem⟩ := uniqueStrings_spec List.nodup_nil hunique
        simp only [Except.pure_eq_ok, Except.ok.injEq] at hids
        subst hids
        constructor
        · simp [Value.asArray, hmem]
        · intro list hlist
          obtain rfl := Option.some.inj hlist
          have hle := List.pairwise_insertionSort (· ≤ ·) unique
          have hne := ((Table.sorted_perm unique).nodup_iff).mpr hnodup
          exact (hle.and hne).imp fun hab => lt_of_le_of_ne hab.1 hab.2
    | _ => cases h

theorem optionalNonEmptyString_reads {object : List (String × Value)} {field : String}
    {text : Option String} (h : optionalNonEmptyString object field = .ok text) :
    text = ((objectGet object field).bind Value.asStr).map trim ∧
      text.isSome = (objectGet object field).isSome := by
  unfold optionalNonEmptyString at h
  cases hget : objectGet object field with
  | none =>
    simp only [hget, Except.ok.injEq] at h
    subst h
    simp
  | some value =>
    simp only [hget] at h
    cases value with
    | string s =>
      simp only at h
      split at h
      · cases h
      · simp only [Except.ok.injEq] at h
        subst h
        simp [Value.asStr]
    | _ => cases h

/-- **A condition is read as what it means.** -/
theorem parseCondition_means {value operand : Value} {operator : RetrieveFilterOperator}
    (h : parseCondition value = .ok (operator, operand)) : Means value operator operand := by
  have hbare : (∀ name operand, value ≠ .object [(name, operand)]) → Means value .equal value :=
    fun hne => .bare fun name operand hvalue => absurd hvalue (hne name operand)
  by_cases hone : ∃ name inner, value = .object [(name, inner)]
  · obtain ⟨name, inner, rfl⟩ := hone
    simp only [parseCondition] at h
    cases hname : conditionOperator name with
    | some op =>
      simp only [hname, Except.ok.injEq, Prod.mk.injEq] at h
      obtain ⟨rfl, rfl⟩ := h
      exact .operator hname
    | none =>
      simp only [hname] at h
      split at h
      · cases h
      · simp only [Except.ok.injEq, Prod.mk.injEq] at h
        obtain ⟨rfl, rfl⟩ := h
        refine .bare fun name' operand hvalue => ?_
        cases hvalue
        exact hname
  · have hne : ∀ name inner, value ≠ .object [(name, inner)] :=
      fun name inner hvalue => hone ⟨name, inner, hvalue⟩
    rw [parseCondition] at h
    · simp only [Except.ok.injEq, Prod.mk.injEq] at h
      obtain ⟨rfl, rfl⟩ := h
      exact hbare hne
    · exact hne

/-- A condition means one thing. -/
theorem Means.unique {value a b : Value} {o p : RetrieveFilterOperator} (ha : Means value o a)
    (hb : Means value p b) : o = p ∧ a = b := by
  cases ha with
  | operator hname =>
    cases hb with
    | operator hname' => exact ⟨Option.some.inj (hname.symm.trans hname'), rfl⟩
    | bare hvalue => rw [hvalue _ _ rfl] at hname; cases hname
  | bare hvalue =>
    cases hb with
    | operator hname => rw [hvalue _ _ rfl] at hname; cases hname
    | bare => exact ⟨rfl, rfl⟩

theorem parseFilter_reads {entry : String × Value} {filter : RetrieveFilter}
    (h : parseFilter entry = .ok filter) :
    filter.pointer = entry.1 ∧ Means entry.2 filter.operator filter.valueJson := by
  obtain ⟨_, -, hrest⟩ := Except.bind_eq_ok.mp h
  obtain ⟨⟨operator, operand⟩, hcondition, hfilter⟩ := Except.bind_eq_ok.mp hrest
  simp only [Except.pure_eq_ok, Except.ok.injEq] at hfilter
  subst hfilter
  exact ⟨rfl, parseCondition_means hcondition⟩

/-- Where the keys of `where` are sorted, the filters are, and they are the predicates asked for. -/
theorem parseFilters_reads {value : Option Value} {filters : List RetrieveFilter}
    (hsorted : ∀ entries, value = some (.object entries) → (entries.map (·.1)).Pairwise (· < ·))
    (h : parseFilters value = .ok filters) :
    {filter | filter ∈ filters.map (·.triple)} =
        {filter | ∃ entries, value = some (.object entries) ∧ ∃ entry ∈ entries,
          entry.1 = filter.1 ∧ Means entry.2 filter.2.1 filter.2.2} ∧
      (filters.map (·.pointer)).Pairwise (· < ·) := by
  unfold parseFilters at h
  cases value with
  | none =>
    simp only [Except.ok.injEq] at h
    subst h
    simp
  | some value =>
    cases value with
    | object entries =>
      simp only at h
      constructor
      · ext ⟨pointer, operator, operand⟩
        simp only [Set.mem_ofPred_eq, List.mem_map, RetrieveFilter.triple, Prod.mk.injEq,
          Option.some.injEq, Value.object.injEq, exists_eq_left']
        constructor
        · rintro ⟨filter, hfilter, rfl, rfl, rfl⟩
          obtain ⟨entry, hentry, hparse⟩ := Except.mem_of_mapM h hfilter
          obtain ⟨hpointer, hmeans⟩ := parseFilter_reads hparse
          exact ⟨entry, hentry, hpointer.symm, hmeans⟩
        · rintro ⟨entry, hentry, rfl, hmeans⟩
          obtain ⟨filter, hfilter, hparse⟩ := Except.mapM_mem h hentry
          obtain ⟨hpointer, hmeans'⟩ := parseFilter_reads hparse
          obtain ⟨hoperator, hoperand⟩ := hmeans'.unique hmeans
          exact ⟨filter, hfilter, hpointer, hoperator, hoperand⟩
      · have hpointers : List.Forall₂ (· = ·) (entries.map (·.1)) (filters.map (·.pointer)) := by
          rw [List.forall₂_map_left_iff, List.forall₂_map_right_iff]
          exact (Except.mapM_forall₂ h).imp fun _ _ hparse => (parseFilter_reads hparse).1.symm
        rw [List.forall₂_eq_eq_eq] at hpointers
        rw [← hpointers]
        exact hsorted entries rfl
    | _ => cases h

theorem parseOrder_reads {value : Option Value} {hasText : Bool} {order : RetrieveOrder}
    (h : parseOrder value hasText = .ok order) :
    some order = effectiveOrder value hasText := by
  unfold parseOrder at h
  split at h
  · simpa [effectiveOrder] using h.symm
  · split at h
    · simpa [effectiveOrder, Value.asStr, orderNamed] using h.symm
    · cases h
  all_goals first | cases h; rfl | cases h

/-- **An accepted instruction is read as what it asks.** -/
theorem parseIdentity_reads {scopeJson : String} {entityTypes : List String}
    {object : List (String × Value)} {identity : QueryIdentity}
    (hsorted : ∀ entries, objectGet object "where" = some (.object entries) →
      (entries.map (·.1)).Pairwise (· < ·))
    (h : parseIdentity scopeJson entityTypes object = .ok identity) :
    Reads identity (asked scopeJson entityTypes object) := by
  obtain ⟨_, -, h⟩ := Except.bind_eq_ok.mp h
  obtain ⟨text, htext, h⟩ := Except.bind_eq_ok.mp h
  obtain ⟨ids, hids, h⟩ := Except.bind_eq_ok.mp h
  obtain ⟨filters, hfilters, h⟩ := Except.bind_eq_ok.mp h
  obtain ⟨order, horder, h⟩ := Except.bind_eq_ok.mp h
  simp only [Except.pure_eq_ok, Except.ok.injEq] at h
  subst h
  obtain ⟨htext, hsome⟩ := optionalNonEmptyString_reads htext
  obtain ⟨hids, hidsSorted⟩ := optionalStringSet_reads hids
  obtain ⟨hfilters, hfiltersSorted⟩ := parseFilters_reads hsorted hfilters
  rw [hsome] at horder
  exact {
    scopeJson := rfl
    entityTypes := rfl
    text := htext
    ids := hids
    idsSorted := hidsSorted
    filters := hfilters
    filtersSorted := hfiltersSorted
    order := parseOrder_reads horder }

/-! ### Writing loses nothing -/

theorem jsonText_injective {floats : FloatText} {v w : Value} (hv : v.All Value.NumbersNormal)
    (hw : w.All Value.NumbersNormal) (h : jsonText floats v = jsonText floats w) : v = w :=
  FloatText.write_injective hv hw (String.ofList_injective h)

theorem stringsJson_injective : Function.Injective stringsJson := by
  intro a b h
  cases a with
  | none =>
    cases b with
    | none => rfl
    | some _ => cases h
  | some xs =>
    cases b with
    | none => cases h
    | some ys =>
      have hmap : xs.map Value.string = ys.map Value.string := by simpa [stringsJson] using h
      have hinj : Function.Injective Value.string := fun _ _ h => Value.string.inj h
      rw [hinj.list_map hmap]

theorem RetrieveFilterOperator.text_injective : Function.Injective RetrieveFilterOperator.text := by
  intro a b h
  cases a <;> cases b <;> first | rfl | exact absurd h (by decide)

theorem RetrieveOrder.text_injective : Function.Injective RetrieveOrder.text := by
  intro a b h
  cases a <;> cases b <;> first | rfl | exact absurd h (by decide)

/-- A filter whose operand is as it was read. -/
def RetrieveFilter.Normal (filter : RetrieveFilter) : Prop :=
  filter.valueJson.All Value.NumbersNormal

theorem RetrieveFilter.toJson_injective {floats : FloatText} {f g : RetrieveFilter} (hf : f.Normal)
    (hg : g.Normal) (h : f.toJson floats = g.toJson floats) : f = g := by
  simp only [RetrieveFilter.toJson, Value.object.injEq, List.cons.injEq, Prod.mk.injEq,
    Value.string.injEq, true_and, and_true] at h
  obtain ⟨hpointer, hoperator, hvalue⟩ := h
  have hoperand := jsonText_injective hf hg hvalue
  have hoperator := RetrieveFilterOperator.text_injective hoperator
  cases f
  cases g
  simp_all

/-- Lists of distinguishable things are distinguishable. -/
theorem map_inj_of_forall {α β : Type*} {f : α → β} {P : α → Prop}
    (hf : ∀ a b, P a → P b → f a = f b → a = b) {xs ys : List α} (hx : ∀ a ∈ xs, P a)
    (hy : ∀ a ∈ ys, P a) (h : xs.map f = ys.map f) : xs = ys := by
  induction xs generalizing ys with
  | nil => simpa [eq_comm] using h
  | cons x xs ih =>
    cases ys with
    | nil => cases h
    | cons y ys =>
      rw [List.forall_mem_cons] at hx hy
      rw [List.map_cons, List.map_cons, List.cons.injEq] at h
      rw [hf x y hx.1 hy.1 h.1, ih hx.2 hy.2 h.2]

/-- **The parts of a query are told by their text.** -/
theorem QueryIdentity.text_injective {floats : FloatText} {i j : QueryIdentity}
    (hi : ∀ f ∈ i.filters, f.Normal) (hj : ∀ f ∈ j.filters, f.Normal)
    (h : jsonText floats (i.toJson floats) = jsonText floats (j.toJson floats)) : i = j := by
  have hstrings : ∀ strings, (stringsJson strings).All Value.NumbersNormal := by
    rintro (_ | strings)
    · trivial
    · refine ⟨trivial, Value.AllValues.iff_forall.mpr fun value hvalue => ?_⟩
      obtain ⟨s, -, rfl⟩ := List.mem_map.mp hvalue
      trivial
  have hnormal : ∀ identity : QueryIdentity,
      (identity.toJson floats).All Value.NumbersNormal := by
    intro identity
    refine ⟨trivial, trivial, hstrings _, ?_, hstrings _, ⟨trivial, ?_⟩, trivial, trivial⟩
    · cases identity.text <;> trivial
    · refine Value.AllValues.iff_forall.mpr fun value hvalue => ?_
      obtain ⟨f, -, rfl⟩ := List.mem_map.mp hvalue
      exact ⟨trivial, trivial, trivial, trivial, trivial⟩
  have hjson := jsonText_injective (hnormal i) (hnormal j) h
  simp only [QueryIdentity.toJson, Value.object.injEq, List.cons.injEq, Prod.mk.injEq,
    Value.string.injEq, Value.array.injEq, true_and, and_true] at hjson
  obtain ⟨hscope, htypes, htext, hids, hfilters, horder⟩ := hjson
  have htypes := stringsJson_injective htypes
  have hids := stringsJson_injective hids
  have horder := RetrieveOrder.text_injective horder
  have hfilters := map_inj_of_forall (fun _ _ => RetrieveFilter.toJson_injective) hi hj hfilters
  have htext : i.text = j.text := by
    cases hx : i.text <;> cases hy : j.text <;> simp_all
  cases i
  cases j
  simp_all

/-- A filter's operand lies inside the condition. -/
theorem Means.normal {value operand : Value} {operator : RetrieveFilterOperator}
    (h : Means value operator operand) (hvalue : value.All Value.NumbersNormal) :
    operand.All Value.NumbersNormal := by
  cases h with
  | operator => exact hvalue.2.1
  | bare => exact hvalue

/-! ### Cursors -/

/-- A cursor that is read is taken by the queries of its order and its fingerprint. -/
theorem QueryCodec.parseQuery_isOk_iff {codec : QueryCodec} {identity : QueryIdentity}
    {encoded : String} {decoded : RetrieveCursor} {limit : ℕ}
    (hdecode : codec.decode encoded = .ok decoded) (htype : decoded.entityType ≠ "")
    (hid : decoded.entityId ≠ "") :
    (∃ query, codec.parseQuery identity (some encoded) limit = .ok query) ↔
      decoded.order = identity.order ∧ decoded.queryFingerprint = codec.digest identity := by
  simp only [parseQuery, Except.bind_eq_ok, Except.pure_eq_ok, parseCursor, hdecode, htype, hid,
    or_false]
  constructor
  · rintro ⟨query, after, hafter, -⟩
    split at hafter
    · cases hafter
    · rename_i hsame
      exact ⟨by_contra fun h => hsame (Or.inl h), by_contra fun h => hsame (Or.inr h)⟩
  · rintro ⟨horder, hfingerprint⟩
    exact ⟨_, some decoded, by simp [horder, hfingerprint], rfl⟩

theorem objectGet_eq_lookup (object : List (String × Value)) (field : String) :
    objectGet object field = object.lookup field := by
  induction object with
  | nil => rfl
  | cons entry object ih =>
    obtain ⟨key, value⟩ := entry
    by_cases h : key = field
    · subst h
      simp [objectGet, Value.field]
    · have hlist : key.toList ≠ field.toList := fun hlist => h (String.toList_injective hlist)
      rw [objectGet] at ih ⊢
      rw [Value.field, if_neg hlist, ih, List.lookup_cons, beq_false_of_ne (Ne.symm h)]

theorem objectGet_mem {object : List (String × Value)} {field : String} {value : Value}
    (h : objectGet object field = some value) : (field, value) ∈ object := by
  rw [objectGet_eq_lookup] at h
  obtain ⟨before, after, hobject, -⟩ := List.lookup_eq_some_iff.mp h
  rw [hobject]
  simp

/-- An instruction, with a cursor. -/
def withCursor (object : List (String × Value)) (cursor : String) : List (String × Value) :=
  Table.insertEntry "cursor" (.string cursor) object

theorem objectGet_withCursor (object : List (String × Value)) (cursor : String) :
    objectGet (withCursor object cursor) "cursor" = some (.string cursor) := by
  rw [objectGet_eq_lookup]
  exact Table.lookup_insertEntry_self _ _ _

theorem objectGet_withCursor_of_ne {field : String} (h : field ≠ "cursor")
    (object : List (String × Value)) (cursor : String) :
    objectGet (withCursor object cursor) field = objectGet object field := by
  rw [objectGet_eq_lookup, objectGet_eq_lookup]
  exact Table.lookup_insertEntry_of_ne h _ _

theorem rejectUnknownFields_eq_ok_iff {object : List (String × Value)} :
    rejectUnknownFields object = .ok () ↔
      ∀ entry ∈ object, entry.1 ∈ instructionFields := by
  unfold rejectUnknownFields
  cases h : (object.map (·.1)).find? (· ∉ instructionFields) with
  | none =>
    rw [List.find?_eq_none] at h
    simpa using h
  | some field =>
    have hmem := List.mem_of_find?_eq_some h
    have hunknown := List.find?_some h
    obtain ⟨entry, hentry, rfl⟩ := List.mem_map.mp hmem
    simp only [reduceCtorEq, false_iff]
    exact fun hall => absurd (hall entry hentry) (by simpa using hunknown)

/-- The cursor is no part of what a query is recognized by. -/
theorem parseIdentity_withCursor {scopeJson : String} {entityTypes : List String}
    {object : List (String × Value)} {identity : QueryIdentity} (cursor : String)
    (h : parseIdentity scopeJson entityTypes object = .ok identity) :
    parseIdentity scopeJson entityTypes (withCursor object cursor) = .ok identity := by
  have hknown : rejectUnknownFields object = .ok () := (Except.bind_eq_ok.mp h).choose_spec.1
  have hknown' : rejectUnknownFields (withCursor object cursor) = .ok () := by
    rw [rejectUnknownFields_eq_ok_iff] at hknown ⊢
    intro entry hentry
    rcases Table.mem_insertEntry hentry with rfl | hentry
    · exact show "cursor" ∈ instructionFields by decide
    · exact hknown entry hentry
  rw [parseIdentity, hknown] at h
  rw [parseIdentity, hknown']
  simpa only [optionalNonEmptyString, optionalStringSet,
    objectGet_withCursor_of_ne (show "text" ≠ "cursor" by decide),
    objectGet_withCursor_of_ne (show "ids" ≠ "cursor" by decide),
    objectGet_withCursor_of_ne (show "where" ≠ "cursor" by decide),
    objectGet_withCursor_of_ne (show "order" ≠ "cursor" by decide)] using h

namespace QueryText

variable {texts : QueryText}

/-- What an accepted query is made of. -/
theorem parseQuery_spec {scopeJson queryJson : String} {entityTypes : List String} {limit : ℕ}
    {object : List (String × Value)} (hread : texts.read queryJson = .ok (.object object))
    {query : RetrieveQuery}
    (h : texts.parseQuery scopeJson entityTypes queryJson limit = .ok query) :
    ∃ identity, parseIdentity scopeJson entityTypes object = .ok identity ∧
      query.order = identity.order ∧ query.fingerprint = texts.codec.digest identity := by
  simp only [parseQuery, hread, Except.mapError, bind, Except.bind,
    QueryCodec.parseInstruction] at h
  obtain ⟨identity, hidentity, h⟩ := Except.bind_eq_ok.mp h
  obtain ⟨cursor, -, h⟩ := Except.bind_eq_ok.mp h
  obtain ⟨after, -, h⟩ := Except.bind_eq_ok.mp h
  simp only [Except.pure_eq_ok, Except.ok.injEq] at h
  subst h
  exact ⟨identity, hidentity, rfl, rfl⟩

/-- An instruction that was read is read as what it asks, and its operands are. -/
theorem reads_of_read (hlaw : texts.Lawful) {scopeJson queryJson : String}
    {entityTypes : List String} {object : List (String × Value)}
    (hread : texts.read queryJson = .ok (.object object)) {identity : QueryIdentity}
    (h : parseIdentity scopeJson entityTypes object = .ok identity) :
    Reads identity (asked scopeJson entityTypes object) ∧ ∀ f ∈ identity.filters, f.Normal := by
  have hnormal := hlaw.read_normal _ _ hread
  have hwhere : ∀ entries, objectGet object "where" = some (.object entries) →
      (Value.object entries).Normal := fun entries hget =>
    Value.AllFields.iff_forall.mp hnormal.2 _ (objectGet_mem hget)
  have hreads := parseIdentity_reads (fun entries hget => (hwhere entries hget).self.2) h
  refine ⟨hreads, fun f hf => ?_⟩
  have hasked : f.triple ∈ (asked scopeJson entityTypes object).filters := by
    rw [← hreads.filters]
    exact List.mem_map_of_mem hf
  obtain ⟨entries, hget, entry, hentry, -, hmeans⟩ := hasked
  have hvalue := Value.AllFields.iff_forall.mp (hwhere entries hget).2 entry hentry
  exact hmeans.normal (hvalue.imp fun _ hv => hv.1)

/-- **Equal fingerprints, equal questions.** -/
theorem digest_eq_iff (hlaw : texts.Lawful) {i j : QueryIdentity} {a b : Asked} (hi : Reads i a)
    (hj : Reads j b) (hinormal : ∀ f ∈ i.filters, f.Normal)
    (hjnormal : ∀ f ∈ j.filters, f.Normal) :
    texts.codec.digest i = texts.codec.digest j ↔ a = b := by
  constructor
  · intro h
    have hij : i = j :=
      QueryIdentity.text_injective hinormal hjnormal (hlaw.sha256_injective h)
    exact hi.determines (hij ▸ hj)
  · rintro rfl
    rw [hi.unique hj]

/-- **When a query takes a cursor.** A cursor with the order and the fingerprint of one query is
accepted with another exactly when the two ask the same, whatever limit comes with it. -/
theorem parseQuery_cursor_iff (hlaw : texts.Lawful) {scope₁ scope₂ text₁ text₂ text₃ : String}
    {types₁ types₂ : List String} {limit₁ limit₂ limit₃ : ℕ} {query₁ query₂ : RetrieveQuery}
    (h₁ : texts.parseQuery scope₁ types₁ text₁ limit₁ = .ok query₁)
    (h₂ : texts.parseQuery scope₂ types₂ text₂ limit₂ = .ok query₂)
    {object₁ object₂ : List (String × Value)} (hread₁ : texts.read text₁ = .ok (.object object₁))
    (hread₂ : texts.read text₂ = .ok (.object object₂)) {cursor : RetrieveCursor}
    (horder : cursor.order = query₁.order)
    (hfingerprint : cursor.queryFingerprint = query₁.fingerprint)
    (htype : cursor.entityType ≠ "") (hid : cursor.entityId ≠ "")
    (hrecalls : texts.Recalls cursor)
    (hread₃ : texts.read text₃ = .ok (.object (withCursor object₂ (texts.codec.encode cursor)))) :
    (∃ query, texts.parseQuery scope₂ types₂ text₃ limit₃ = .ok query) ↔
      asked scope₁ types₁ object₁ = asked scope₂ types₂ object₂ := by
  obtain ⟨i, hi, hiorder, hidigest⟩ := parseQuery_spec hread₁ h₁
  obtain ⟨j, hj, -, -⟩ := parseQuery_spec hread₂ h₂
  obtain ⟨hireads, hinormal⟩ := reads_of_read hlaw hread₁ hi
  obtain ⟨hjreads, hjnormal⟩ := reads_of_read hlaw hread₂ hj
  obtain ⟨decoded, hdecode, hdorder, hdfingerprint, hdtype, hdid⟩ := hrecalls
  rw [← digest_eq_iff hlaw hireads hjreads hinormal hjnormal]
  have hparse : texts.parseQuery scope₂ types₂ text₃ limit₃ =
      texts.codec.parseQuery j (some (texts.codec.encode cursor)) limit₃ := by
    have hcursor := parseIdentity_withCursor (texts.codec.encode cursor) hj
    simp only [parseQuery, hread₃, Except.mapError, bind, Except.bind,
      QueryCodec.parseInstruction, hcursor, objectGet_withCursor, cursorText]
  rw [hparse, QueryCodec.parseQuery_isOk_iff hdecode (hdtype ▸ htype) (hdid ▸ hid), hdfingerprint,
    hfingerprint, hidigest]
  refine and_iff_right_of_imp fun hdigest => ?_
  have hij : i = j :=
    QueryIdentity.text_injective hinormal hjnormal (hlaw.sha256_injective hdigest)
  rw [hdorder, horder, hiorder, hij]

end QueryText

end Patchouli
