import Patchouli.Backend.Config
import Patchouli.Backend.Query
import Patchouli.Lib.Fallible

/-!
# The retrieval instruction

How `query.rs` reads the JSON object a client sends: the fields it knows, the texts and ids it
takes, the predicates under `where`, the order, and at last the cursor, which has to carry the
fingerprint of everything else.

A predicate is a bare value, or an object with one operator. `ConditionRead` says what that comes to
for an object with operator names among its keys; the loop over the object's entries that would
decide it is a look at its size here, and the two part ways on objects of two keys and more.

## Main definitions

* `validatePointer`, `parseCondition`, `parseFilters`, `parseOrder`
* `parseQuery`
* `ConditionRead` — a condition with operator names is an operator or an error

## Main results

* `pointer_validators_agree` — the two pointer checks accept one language
* `parseCondition_reads_iff` — when a condition with operator names is read as one
-/

namespace Patchouli

open Json (Value)

/-! ### Fields -/

/-- The fields of an instruction. -/
def instructionFields : List String := ["text", "ids", "where", "order", "cursor"]

/-- `reject_unknown_fields`. -/
def rejectUnknownFields (object : List (String × Value)) : Except BackendError Unit :=
  match (object.map (·.1)).find? (· ∉ instructionFields) with
  | some field =>
    .error (invalidRequest ("retrieval query contains unknown field " ++ field.quote))
  | none => .ok ()

/-- `Map::get`. -/
def objectGet (object : List (String × Value)) (field : String) : Option Value :=
  Value.field field.toList object

/-- `char::is_whitespace`. -/
def isWhitespace (c : Char) : Bool :=
  (9 ≤ c.toNat && c.toNat ≤ 13) || (0x2000 ≤ c.toNat && c.toNat ≤ 0x200A) ||
    [0x20, 0x85, 0xA0, 0x1680, 0x2028, 0x2029, 0x202F, 0x205F, 0x3000].contains c.toNat

/-- `str::trim`. -/
def trim (text : String) : String :=
  String.ofList ((text.toList.dropWhile isWhitespace).reverse.dropWhile isWhitespace).reverse

/-- `optional_non_empty_string`. -/
def optionalNonEmptyString (object : List (String × Value)) (field : String) :
    Except BackendError (Option String) :=
  match objectGet object field with
  | none => .ok none
  | some (.string value) =>
    if trim value = "" then
      .error (invalidRequest ("retrieval query " ++ field.quote ++ " must not be empty"))
    else .ok (some (trim value))
  | some _ => .error (invalidRequest ("retrieval query " ++ field.quote ++ " must be a string"))

/-- The loop of `optional_string_set`, over the values that follow those in `unique`. -/
def uniqueStrings (field : String) : List Value → (unique : List String) →
    Except BackendError (List String)
  | [], unique => .ok unique
  | .string value :: rest, unique =>
    if trim value = "" ∨ value ∈ unique then
      .error (invalidRequest
        ("retrieval query " ++ field.quote ++ " entries must be non-empty and unique"))
    else uniqueStrings field rest (value :: unique)
  | _ :: _, _ =>
    .error (invalidRequest ("retrieval query " ++ field.quote ++ " entries must be strings"))

/-- `optional_string_set`. The set is listed in order. -/
def optionalStringSet (object : List (String × Value)) (field : String) :
    Except BackendError (Option (List String)) :=
  match objectGet object field with
  | none => .ok none
  | some (.array values) =>
    if values = [] then
      .error (invalidRequest ("retrieval query " ++ field.quote ++ " must not be empty"))
    else do
      let unique ← uniqueStrings field values []
      return some (Table.sorted unique)
  | some _ => .error (invalidRequest ("retrieval query " ++ field.quote ++ " must be an array"))

/-! ### Filters -/

/-- The loop of `validate_pointer`, over the bytes from an index on. -/
def checkEscapes (pointer : String) : List UInt8 → Except BackendError Unit
  | [] => .ok ()
  | byte :: rest =>
    if byte = 126 ∧ ¬ (rest.head? = some 48 ∨ rest.head? = some 49) then
      .error (invalidRequest
        ("retrieval filter path " ++ pointer.quote ++ " contains an invalid escape"))
    else checkEscapes pointer rest

/-- `validate_pointer`. -/
def validatePointer (pointer : String) : Except BackendError Unit :=
  if pointer.toList.head? ≠ some '/' then
    .error (invalidRequest
      ("retrieval filter path " ++ pointer.quote ++ " must be an RFC 6901 JSON pointer"))
  else checkEscapes pointer pointer.toUTF8.data.toList

/-- The operators of `parse_condition`. -/
def conditionOperator : String → Option RetrieveFilterOperator
  | "$eq" => some .equal
  | "$ne" => some .notEqual
  | "$lt" => some .lessThan
  | "$lte" => some .lessThanOrEqual
  | "$gt" => some .greaterThan
  | "$gte" => some .greaterThanOrEqual
  | "$contains" => some .contains
  | _ => none

/-- `parse_condition`. -/
def parseCondition (value : Value) : Except BackendError (RetrieveFilterOperator × Value) :=
  match value with
  | .object [(name, operand)] =>
    match conditionOperator name with
    | some operator => .ok (operator, operand)
    | none =>
      if name.toList.head? = some '$' then
        .error (invalidRequest
          ("retrieval query contains unknown filter operator " ++ name.quote))
      else .ok (.equal, value)
  | _ => .ok (.equal, value)

/-- One predicate of `parse_filters`. -/
def parseFilter (entry : String × Value) : Except BackendError RetrieveFilter := do
  validatePointer entry.1
  let (operator, operand) ← parseCondition entry.2
  return { pointer := entry.1, operator, valueJson := operand }

/-- `parse_filters`. -/
def parseFilters (value : Option Value) : Except BackendError (List RetrieveFilter) :=
  match value with
  | none => .ok []
  | some (.object entries) => entries.mapM parseFilter
  | some _ => .error (invalidRequest "retrieval query \"where\" must be an object")

/-! ### Order and cursor -/

/-- `parse_order`. -/
def parseOrder (value : Option Value) (hasText : Bool) : Except BackendError RetrieveOrder :=
  match value with
  | none => .ok (if hasText then .relevance else .newest)
  | some (.string "relevance") =>
    if hasText then .ok .relevance
    else .error (invalidRequest "relevance order requires retrieval query text")
  | some (.string "newest") => .ok .newest
  | some (.string "oldest") => .ok .oldest
  | some (.string "id_asc") => .ok .idAscending
  | some (.string "id_desc") => .ok .idDescending
  | some _ => .error (invalidRequest
      "retrieval query order must be relevance, newest, oldest, id_asc, or id_desc")

/-- The text of a cursor, in `parse_cursor`. -/
def cursorText (value : Option Value) : Except BackendError (Option String) :=
  match value with
  | none => .ok none
  | some (.string encoded) => .ok (some encoded)
  | some _ => .error (invalidRequest "retrieval query cursor must be a string")

/-- The parts of an instruction that the fingerprint covers, in `parse_query`. -/
def parseIdentity (scopeJson : String) (entityTypes : List String)
    (object : List (String × Value)) : Except BackendError QueryIdentity := do
  rejectUnknownFields object
  let text ← optionalNonEmptyString object "text"
  let entityIds ← optionalStringSet object "ids"
  let filters ← parseFilters (objectGet object "where")
  let order ← parseOrder (objectGet object "order") text.isSome
  return { scopeJson, entityTypes := some entityTypes, text, entityIds, filters, order }

/-- `parse_query` on the instruction's JSON value. -/
def QueryCodec.parseInstruction (codec : QueryCodec) (scopeJson : String)
    (entityTypes : List String) (instruction : Value) (limit : ℕ) :
    Except BackendError RetrieveQuery :=
  match instruction with
  | .object object => do
    let identity ← parseIdentity scopeJson entityTypes object
    let cursor ← cursorText (objectGet object "cursor")
    codec.parseQuery identity cursor limit
  | _ => .error (invalidRequest "retrieval query must be a JSON object")

/-! ### The two pointer checks -/

/-- The loop that skips over an escape and the one that does not find the same escapes: the digit
skipped is no `~`. -/
theorem checkEscapes_eq_ok_iff {pointer : String} (bytes : List UInt8) :
    checkEscapes pointer bytes = .ok () ↔ validEscapes bytes = true := by
  induction bytes using validEscapes.induct with
  | case1 => simp [checkEscapes, validEscapes]
  | case2 => simp [checkEscapes, validEscapes]
  | case3 digit rest ih =>
    rw [checkEscapes, validEscapes, if_pos rfl]
    by_cases hdigit : digit = 48 ∨ digit = 49
    · have htilde : digit ≠ 126 := by rcases hdigit with rfl | rfl <;> decide
      have hskip : checkEscapes pointer (digit :: rest) = checkEscapes pointer rest := by
        rw [checkEscapes, if_neg fun h => htilde h.1]
      rw [if_neg fun h => h.2 (by simpa using hdigit), hskip, ih]
      simp [hdigit]
    · rw [if_pos ⟨rfl, by simpa using hdigit⟩]
      simp [hdigit]
  | case4 byte rest hbyte ih =>
    rw [checkEscapes, if_neg fun h => hbyte h.1, ih, validEscapes.eq_def (byte :: rest)]
    simp only [hbyte, if_false]

/-- **One language.** The check of the configuration and the check of a query accept the same
pointers, the non-root pointers of RFC 6901. -/
theorem pointer_validators_agree (pointer : String) :
    (validJsonPointer pointer = true ↔ validatePointer pointer = .ok ()) ∧
      (validatePointer pointer = .ok () ↔ Json.NonRootPointer pointer) := by
  have hagree : validJsonPointer pointer = true ↔ validatePointer pointer = .ok () := by
    rw [validJsonPointer, validatePointer, Bool.and_eq_true, decide_eq_true_iff]
    by_cases hhead : pointer.toList.head? = some '/'
    · rw [if_neg (not_not_intro hhead), checkEscapes_eq_ok_iff]
      simp [hhead]
    · rw [if_pos hhead]
      simp [hhead]
  refine ⟨hagree, hagree.symm.trans ?_⟩
  exact (validJsonPointer_iff pointer).trans (Json.pointerWellFormed_iff pointer)

/-! ### Conditions -/

/-- An object with an operator name among its keys is read as that operator, where it is a known
one and alone, and rejected otherwise. -/
structure ConditionRead (object : List (String × Value)) : Prop where
  operator : ∀ name operand operator, object = [(name, operand)] →
    conditionOperator name = some operator →
      parseCondition (.object object) = .ok (operator, operand)
  rejected : (¬ ∃ name operand operator, object = [(name, operand)] ∧
      conditionOperator name = some operator) →
    ∃ error, parseCondition (.object object) = .error error

theorem conditionOperator_dollar {name : String} {operator : RetrieveFilterOperator}
    (h : conditionOperator name = some operator) : name.toList.head? = some '$' := by
  unfold conditionOperator at h
  split at h <;> first | rfl | cases h

/-- **When a condition is read as what it is.** An object with an operator name among its keys is
read as an operator or rejected exactly when that key is its only one; with more keys it is compared
for equality as a whole. -/
theorem parseCondition_reads_iff {object : List (String × Value)}
    (hdollar : ∃ entry ∈ object, entry.1.toList.head? = some '$') :
    ConditionRead object ↔ object.length = 1 := by
  constructor
  · intro h
    by_contra hlength
    have hmany : ∀ name operand, object ≠ [(name, operand)] := by
      rintro name operand rfl
      exact hlength rfl
    obtain ⟨error, herror⟩ := h.rejected fun ⟨name, operand, _, hobject, _⟩ =>
      hmany name operand hobject
    rw [parseCondition] at herror
    · cases herror
    · intro name operand hobject
      exact hmany name operand (by injection hobject)
  · intro hlength
    obtain ⟨⟨name, operand⟩, rfl⟩ := List.length_eq_one_iff.mp hlength
    have hname : name.toList.head? = some '$' := by simpa using hdollar
    constructor
    · intro name' operand' operator hobject hoperator
      cases hobject
      simp [parseCondition, hoperator]
    · intro hunknown
      have hnone : conditionOperator name = none := by
        cases hoperator : conditionOperator name with
        | none => rfl
        | some operator => exact absurd ⟨name, operand, operator, rfl, hoperator⟩ hunknown
      simp [parseCondition, hnone, hname]

/-- An operator that does not exist is rejected. -/
theorem parseCondition_regex_read : ConditionRead [("$regex", .string "needle")] :=
  (parseCondition_reads_iff ⟨("$regex", .string "needle"), by simp, by decide⟩).mpr rfl

/-- A range given as one object is compared for equality. -/
theorem parseCondition_range_not_read :
    ¬ ConditionRead [("$gt", .number (.posInt 1)), ("$lt", .number (.posInt 5))] := by
  intro h
  obtain ⟨error, herror⟩ := h.rejected fun ⟨_, _, _, hobject, _⟩ => by cases hobject
  cases herror

end Patchouli
