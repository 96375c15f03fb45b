import Patchouli.Backend.Crdt
import Patchouli.Lib.JsonText

/-!
# Values written into documents

`CrdtDocument::change` hydrates the value of a document, brings it to the requested value and
reconciles it back. What it reconciles reads back as the requested value, and a text that stands at
the same place in both is still the Automerge object it was, so that concurrent edits of it merge.

A place is a list of array indices and object keys. Where the place ends in a text of the hydrated
value and in a string of the requested one, `nodeAt_update` says what is there afterwards, and so it
does for every other place.

The source edits arrays and maps in place. `updateInPlace` does that; `update` builds the new array
or map from the requested one, and is the same function on maps in key order.

## Main definitions

* `CrdtJson.nodeAt`, `CrdtJson.jsonAt` — what stands at a place
* `CrdtJson.updateInPlace` — `CrdtJson::update` with the edits of the source

## Main results

* `CrdtJson.nodeAt_update` — what stands at a place after an update
* `hydration_exact` — what is written reads back, and texts stay the objects they are
* `CrdtJson.updateInPlace_eq_update`
-/

namespace Patchouli

open Json (Value)

namespace CrdtJson

/-! ### Reading back -/

mutual

theorem intoJson_fromJson : ∀ value : Value, (fromJson value).intoJson = value
  | .null | .bool _ | .number _ | .string _ => rfl
  | .array values => by rw [fromJson, intoJson, intoValues_fromValues values]
  | .object fields => by rw [fromJson, intoJson, intoFields_fromFields fields]

theorem intoValues_fromValues : ∀ values : List Value, intoValues (fromValues values) = values
  | [] => rfl
  | v :: vs => by rw [fromValues, intoValues, intoJson_fromJson v, intoValues_fromValues vs]

theorem intoFields_fromFields : ∀ fields : List (String × Value),
    intoFields (fromFields fields) = fields
  | [] => rfl
  | (k, v) :: fs => by rw [fromFields, intoFields, intoJson_fromJson v, intoFields_fromFields fs]

end

mutual

/-- **An update reads back as what was asked for**, whatever was there. -/
theorem intoJson_update : ∀ (next : Value) (current : CrdtJson),
    (update next current).intoJson = next
  | .null, _ | .bool _, _ | .number _, _ => by simp only [update, fromJson, intoJson]
  | .string s, current => by
    cases current with
    | text t => rfl
    | _ => simp only [update, intoJson_fromJson]
  | .array next, current => by
    cases current with
    | array current => rw [update, intoJson, intoValues_updateValues next current]
    | _ => simp only [update, intoJson_fromJson]
  | .object next, current => by
    cases current with
    | object current => rw [update, intoJson, intoFields_updateFields next current]
    | _ => simp only [update, intoJson_fromJson]

theorem intoValues_updateValues : ∀ (next : List Value) (current : List CrdtJson),
    intoValues (updateValues next current) = next
  | [], _ => rfl
  | n :: ns, c :: cs => by
    rw [updateValues, intoValues, intoJson_update n c, intoValues_updateValues ns cs]
  | n :: ns, [] => by
    rw [updateValues, intoValues, intoJson_fromJson n, intoValues_updateValues ns []]

theorem intoFields_updateFields : ∀ (next : List (String × Value))
    (current : List (String × CrdtJson)), intoFields (updateFields next current) = next
  | [], _ => rfl
  | (k, n) :: ns, current => by
    rw [updateFields]
    split
    · rw [intoFields, intoJson_update n _, intoFields_updateFields ns current]
    · rw [intoFields, intoJson_fromJson n, intoFields_updateFields ns current]

end

/-! ### Places -/

/-- A step down from a value. -/
inductive PlaceStep where
  | element (i : ℕ)
  | entry (k : String)

/-- The part of a hydrated value one step down. -/
def child : PlaceStep → CrdtJson → Option CrdtJson
  | .element i, .array values => values[i]?
  | .entry k, .object fields => fields.lookup k
  | _, _ => none

/-- What stands at a place of a hydrated value. -/
def nodeAt : List PlaceStep → CrdtJson → Option CrdtJson
  | [], value => some value
  | step :: place, value => (child step value).bind fun c => nodeAt place c

/-- The part of a JSON value one step down. -/
def jsonChild : PlaceStep → Value → Option Value
  | .element i, .array values => values[i]?
  | .entry k, .object fields => fields.lookup k
  | _, _ => none

/-- What stands at a place of a JSON value. -/
def jsonAt : List PlaceStep → Value → Option Value
  | [], value => some value
  | step :: place, value => (jsonChild step value).bind fun v => jsonAt place v

/-- A value brought to the requested one, or made for it. -/
def bring (next : Value) : Option CrdtJson → CrdtJson
  | some current => update next current
  | none => fromJson next

theorem getElem?_fromValues (values : List Value) (i : ℕ) :
    (fromValues values)[i]? = values[i]?.map fromJson := by
  induction values generalizing i with
  | nil => simp [fromValues]
  | cons v vs ih =>
    cases i with
    | zero => simp [fromValues]
    | succ i => simpa [fromValues] using ih i

theorem lookup_fromFields (fields : List (String × Value)) (k : String) :
    (fromFields fields).lookup k = (fields.lookup k).map fromJson := by
  induction fields with
  | nil => simp [fromFields]
  | cons field fields ih =>
    obtain ⟨l, v⟩ := field
    simp only [fromFields, List.lookup_cons]
    split
    · rfl
    · exact ih

theorem getElem?_updateValues (next : List Value) (current : List CrdtJson) (i : ℕ) :
    (updateValues next current)[i]? = next[i]?.map fun n => bring n current[i]? := by
  induction next generalizing current i with
  | nil => simp [updateValues]
  | cons n ns ih =>
    cases current with
    | nil =>
      cases i with
      | zero => simp [updateValues, bring]
      | succ i => simpa [updateValues] using ih [] i
    | cons c cs =>
      cases i with
      | zero => simp [updateValues, bring]
      | succ i => simpa [updateValues] using ih cs i

theorem lookup_updateFields (next : List (String × Value)) (current : List (String × CrdtJson))
    (k : String) :
    (updateFields next current).lookup k =
      (next.lookup k).map fun n => bring n (current.lookup k) := by
  induction next with
  | nil => simp [updateFields]
  | cons field next ih =>
    obtain ⟨l, n⟩ := field
    have hcons : updateFields ((l, n) :: next) current =
        (l, bring n (current.lookup l)) :: updateFields next current := by
      rw [updateFields]
      cases current.lookup l <;> rfl
    rw [hcons, List.lookup_cons, List.lookup_cons]
    split
    · rename_i heq
      rw [eq_of_beq heq, Option.map_some]
    · exact ih

theorem child_fromJson (step : PlaceStep) (value : Value) :
    child step (fromJson value) = (jsonChild step value).map fromJson := by
  cases step <;> cases value <;>
    simp only [fromJson, child, jsonChild, getElem?_fromValues, lookup_fromFields, Option.map_none]

/-- One step down, the part is brought to the requested part, or made for it. -/
theorem child_update (step : PlaceStep) (next : Value) (current : CrdtJson) :
    child step (update next current) =
      (jsonChild step next).map fun n => bring n (child step current) := by
  cases next with
  | array next =>
    cases current with
    | array current =>
      cases step with
      | element i => exact getElem?_updateValues next current i
      | entry k => rfl
    | _ =>
      simp only [update, child_fromJson]
      cases step <;> simp only [child, jsonChild, bring, Option.map_none]
  | object next =>
    cases current with
    | object current =>
      cases step with
      | element i => rfl
      | entry k => exact lookup_updateFields next current k
    | _ =>
      simp only [update, child_fromJson]
      cases step <;> simp only [child, jsonChild, bring, Option.map_none]
  | string s => cases current <;> cases step <;> rfl
  | _ => cases step <;> simp only [update, fromJson, child, jsonChild, Option.map_none]

theorem nodeAt_fromJson (place : List PlaceStep) (value : Value) :
    nodeAt place (fromJson value) = (jsonAt place value).map fromJson := by
  induction place generalizing value with
  | nil => rfl
  | cons step place ih =>
    rw [nodeAt, child_fromJson, jsonAt]
    cases jsonChild step value with
    | none => rfl
    | some v => exact ih v

/-- **What stands at a place after an update**: what stood there, brought to what is requested
there; or what is made for it, where nothing stood. -/
theorem nodeAt_update (place : List PlaceStep) (next : Value) (current : CrdtJson) :
    nodeAt place (update next current) =
      (jsonAt place next).map fun n => bring n (nodeAt place current) := by
  induction place generalizing next current with
  | nil => rfl
  | cons step place ih =>
    rw [nodeAt, child_update, jsonAt, nodeAt]
    cases jsonChild step next with
    | none => rfl
    | some n =>
      cases child step current with
      | none => exact nodeAt_fromJson place n
      | some c => exact ih n c

/-- A text that is asked to be another one stays the object it is. -/
theorem nodeAt_update_text {place : List PlaceStep} {next : Value} {current : CrdtJson}
    {text : CrdtText} {s : String} (hcurrent : nodeAt place current = some (.text text))
    (hnext : jsonAt place next = some (.string s)) :
    nodeAt place (update next current) =
      some (.text { value := s, object := text.object, fromHeads := text.fromHeads }) := by
  rw [nodeAt_update, hcurrent, hnext]
  rfl

/-- No other text is an object of the document. -/
theorem nodeAt_update_new {place : List PlaceStep} {next : Value} {current : CrdtJson}
    {text : CrdtText} (hcurrent : ∀ old, nodeAt place current ≠ some (.text old))
    (h : nodeAt place (update next current) = some (.text text)) :
    text = CrdtText.new text.value := by
  rw [nodeAt_update] at h
  obtain ⟨n, -, hbring⟩ := Option.map_eq_some_iff.mp h
  have hfresh : ∀ {n : Value}, fromJson n = .text text → text = CrdtText.new text.value := by
    intro n hn
    cases n <;> simp only [fromJson, CrdtJson.text.injEq, reduceCtorEq] at hn
    rw [← hn]
    rfl
  cases hat : nodeAt place current with
  | none =>
    rw [hat] at hbring
    exact hfresh hbring
  | some c =>
    rw [hat, bring] at hbring
    cases n with
    | string s =>
      cases c with
      | text old => exact absurd hat (hcurrent old)
      | _ => exact hfresh hbring
    | array next => cases c <;> simp [update, fromJson] at hbring
    | object next => cases c <;> simp [update, fromJson] at hbring
    | _ => simp [update, fromJson] at hbring

/-! ### Edits in place -/

mutual

/-- `CrdtJson::update` as it is written: an array is updated up to the shorter length, truncated and
extended; a map retains the keys that are requested, and updates or inserts each of them. -/
def updateInPlace : Value → CrdtJson → CrdtJson
  | .string next, .text current => .text (current.update next)
  | .array next, .array current =>
    let truncated := (updateZip next current).take next.length
    .array (truncated ++ fromValues (next.drop truncated.length))
  | .object next, .object current =>
    .object (updateEntries next (current.filter fun field => (next.lookup field.1).isSome))
  | next, _ => fromJson next

/-- Both as long as both last. -/
def updateZip : List Value → List CrdtJson → List CrdtJson
  | n :: ns, c :: cs => updateInPlace n c :: updateZip ns cs
  | _, current => current

def updateEntries : List (String × Value) → List (String × CrdtJson) → List (String × CrdtJson)
  | [], current => current
  | (k, n) :: ns, current =>
    updateEntries ns (Table.insertEntry k
      (match current.lookup k with
        | some c => updateInPlace n c
        | none => fromJson n) current)

end

mutual

/-- Every map in the value is in key order. -/
def InKeyOrder : CrdtJson → Prop
  | .array values => AllInKeyOrder values
  | .object fields => (fields.map (·.1)).Pairwise (· < ·) ∧ FieldsInKeyOrder fields
  | _ => True

def AllInKeyOrder : List CrdtJson → Prop
  | [] => True
  | v :: vs => InKeyOrder v ∧ AllInKeyOrder vs

def FieldsInKeyOrder : List (String × CrdtJson) → Prop
  | [] => True
  | (_, v) :: fs => InKeyOrder v ∧ FieldsInKeyOrder fs

end

theorem AllInKeyOrder.iff_forall {values : List CrdtJson} :
    AllInKeyOrder values ↔ ∀ v ∈ values, InKeyOrder v := by
  induction values with
  | nil => simp [AllInKeyOrder]
  | cons v vs ih => rw [AllInKeyOrder, ih, List.forall_mem_cons]

theorem FieldsInKeyOrder.iff_forall {fields : List (String × CrdtJson)} :
    FieldsInKeyOrder fields ↔ ∀ field ∈ fields, InKeyOrder field.2 := by
  induction fields with
  | nil => simp [FieldsInKeyOrder]
  | cons f fs ih => rw [FieldsInKeyOrder, ih, List.forall_mem_cons]

theorem FieldsInKeyOrder.lookup {fields : List (String × CrdtJson)} (h : FieldsInKeyOrder fields)
    {k : String} {v : CrdtJson} (hv : fields.lookup k = some v) : InKeyOrder v := by
  obtain ⟨l₁, l₂, rfl, -⟩ := List.lookup_eq_some_iff.mp hv
  exact FieldsInKeyOrder.iff_forall.mp h (k, v) (by simp)

theorem keys_updateFields (next : List (String × Value)) (current : List (String × CrdtJson)) :
    (updateFields next current).map (·.1) = next.map (·.1) := by
  induction next with
  | nil => rfl
  | cons field next ih =>
    rw [updateFields]
    split <;> simp [ih]

/-- A key that is not requested is left alone. -/
theorem lookup_updateEntries_of_not_mem {k : String} :
    ∀ {next : List (String × Value)} (current : List (String × CrdtJson)), k ∉ next.map (·.1) →
      (updateEntries next current).lookup k = current.lookup k
  | [], _, _ => rfl
  | (l, n) :: ns, current, h => by
    rw [List.map_cons, List.mem_cons, not_or] at h
    rw [updateEntries, lookup_updateEntries_of_not_mem _ h.2, Table.lookup_insertEntry_of_ne h.1]

theorem updateEntries_pairwise : ∀ (next : List (String × Value))
    {current : List (String × CrdtJson)}, (current.map (·.1)).Pairwise (· < ·) →
      ((updateEntries next current).map (·.1)).Pairwise (· < ·)
  | [], _, h => h
  | (l, n) :: ns, current, h => by
    rw [updateEntries]
    exact updateEntries_pairwise ns (Table.insertEntry_pairwise h)

theorem updateValues_nil (next : List Value) : updateValues next [] = fromValues next := by
  induction next with
  | nil => rfl
  | cons n ns ih => rw [updateValues, fromValues, ih]

mutual

/-- **The edits in place make the same value**, for maps in key order. -/
theorem updateInPlace_eq_update : ∀ {next : Value} {current : CrdtJson},
    next.All Value.KeysSorted → InKeyOrder current → updateInPlace next current = update next current
  | .null, _, _, _ | .bool _, _, _, _ | .number _, _, _, _ => by
    simp only [updateInPlace, update]
  | .string s, current, _, _ => by
    cases current <;> simp only [updateInPlace, update]
  | .array next, current, hnext, hcurrent => by
    cases current with
    | array current =>
      simp only [updateInPlace, update, CrdtJson.array.injEq]
      exact updateZip_eq_updateValues hnext.2 hcurrent
    | _ => simp only [updateInPlace, update]
  | .object next, current, hnext, hcurrent => by
    cases current with
    | object current =>
      simp only [updateInPlace, update, CrdtJson.object.injEq]
      have hretained : ((current.filter fun field => (next.lookup field.1).isSome).map
          (·.1)).Pairwise (· < ·) :=
        hcurrent.1.sublist (List.filter_sublist.map _)
      have hparts : ∀ j c, (current.filter fun field => (next.lookup field.1).isSome).lookup j =
          some c → InKeyOrder c := by
        intro j c hc
        rw [Table.lookup_filter_key fun j => (next.lookup j).isSome] at hc
        split at hc
        · exact hcurrent.2.lookup hc
        · cases hc
      refine Table.eq_of_lookup_eq (updateEntries_pairwise next hretained)
        (by rw [keys_updateFields]; exact hnext.1) fun k => ?_
      rw [lookup_updateFields]
      cases hk : next.lookup k with
      | none =>
        have hnot : k ∉ next.map (·.1) := by
          intro hmem
          obtain ⟨field, hfield, rfl⟩ := List.mem_map.mp hmem
          simpa using List.lookup_eq_none_iff.mp hk field hfield
        rw [lookup_updateEntries_of_not_mem _ hnot,
          Table.lookup_filter_key fun j => (next.lookup j).isSome, hk]
        rfl
      | some n =>
        rw [lookup_updateEntries hnext.2 hnext.1 (fun j _ => hparts j) hk,
          Table.lookup_filter_key fun j => (next.lookup j).isSome, hk]
        rfl
    | _ => simp only [updateInPlace, update]

theorem updateZip_eq_updateValues : ∀ {next : List Value} {current : List CrdtJson},
    Value.AllValues Value.KeysSorted next → AllInKeyOrder current →
      (updateZip next current).take next.length ++
        fromValues (next.drop ((updateZip next current).take next.length).length) =
          updateValues next current
  | [], current, _, _ => by simp [updateZip, updateValues, fromValues]
  | n :: ns, [], _, _ => by simp [updateZip, updateValues_nil]
  | n :: ns, c :: cs, hnext, hcurrent => by
    have ih := updateZip_eq_updateValues hnext.2 hcurrent.2
    simp only [updateZip, updateValues, List.length_cons, List.take_succ_cons, List.drop_succ_cons,
      List.cons_append, updateInPlace_eq_update hnext.1 hcurrent.1, ih]

/-- A requested key is brought to its value. -/
theorem lookup_updateEntries : ∀ {next : List (String × Value)} {current : List (String × CrdtJson)},
    Value.AllFields Value.KeysSorted next → (next.map (·.1)).Pairwise (· < ·) →
    (∀ j ∈ next.map (·.1), ∀ c, current.lookup j = some c → InKeyOrder c) →
    ∀ {k : String} {n : Value}, next.lookup k = some n →
      (updateEntries next current).lookup k = some (bring n (current.lookup k))
  | [], _, _, _, _, _, _, h => by simp at h
  | (l, m) :: ns, current, hnext, hkeys, hcurrent, k, n, h => by
    rw [List.map_cons, List.pairwise_cons] at hkeys
    rw [updateEntries]
    by_cases hk : k = l
    · subst hk
      obtain rfl : m = n := by simpa using h
      have hnot : k ∉ ns.map (·.1) := fun hmem => lt_irrefl k (hkeys.1 k hmem)
      rw [lookup_updateEntries_of_not_mem _ hnot, Table.lookup_insertEntry_self]
      cases hc : current.lookup k with
      | none => rfl
      | some c =>
        have hin : InKeyOrder c := hcurrent k List.mem_cons_self c hc
        simp only [bring, updateInPlace_eq_update hnext.1 hin]
    · have hrest : ns.lookup k = some n := by
        rwa [List.lookup_cons, beq_false_of_ne hk] at h
      rw [lookup_updateEntries hnext.2 hkeys.2 (fun j hj c hc => ?_) hrest,
        Table.lookup_insertEntry_of_ne hk]
      rw [Table.lookup_insertEntry_of_ne (hkeys.1 j hj).ne'] at hc
      exact hcurrent j (List.mem_cons_of_mem _ hj) c hc

end

end CrdtJson

open CrdtJson in
/-- **The hydration of JSON is exact.** A JSON value that was taken up reads back as itself; brought
to another one, it reads back as the other, and so does every hydrated value, which is what a change
of a document reconciles. A text that stands where the requested value has a string stays the
object it is, with the heads it was read at. -/
theorem hydration_exact (cur next : Value) :
    (fromJson cur).intoJson = cur ∧
    (update next (fromJson cur)).intoJson = next ∧
    (∀ (A : Automerge) (actor : String) (document : CrdtDocument), ∃ written : CrdtJson,
      document.change A actor next = ⟨A.reconcile actor document.changes written⟩ ∧
        written.intoJson = next) ∧
    ∀ (hydrated : CrdtJson) (place : List PlaceStep) (text : CrdtText) (s : String),
      nodeAt place hydrated = some (.text text) → jsonAt place next = some (.string s) →
      ∃ kept, nodeAt place (update next hydrated) = some (.text kept) ∧ kept.value = s ∧
        kept.object = text.object ∧ kept.fromHeads = text.fromHeads :=
  ⟨intoJson_fromJson cur, intoJson_update next _,
    fun _ _ _ => ⟨_, rfl, intoJson_update next _⟩,
    fun _ _ _ _ hhydrated hnext => ⟨_, nodeAt_update_text hhydrated hnext, rfl, rfl, rfl⟩⟩

end Patchouli
