import Mathlib.Data.Rat.Denumerable
import Patchouli.Lib.JsonText
import Patchouli.Sqlite.Comparison
import Patchouli.Sqlite.Matches

/-!
# Search by text

A query text of three or more characters is quoted and looked up in the full-text index, a shorter
one is looked for in the stored values themselves. The index compares what is left of the characters
after case folding; the direct search lowers the letters of ASCII and compares the rest as it is. So
a short text misses the values that contain it in another case of a letter outside ASCII, and it
misses no others.

The index is kept by triggers. `VersionIndex` carries that it has the value of each active version,
under the row id of the version, and what the triggers do in each of the three statements on the
table of versions is an operation on it.

## Main definitions

* `quotePhrase`, `readPhrase` — a text as a phrase of a full-text query
* `textSearch` — the two conditions, over a case folding
* `VersionIndex` — the index beside its table
* `Db.FoundBy` — an entity with a visible active head of some kind

## Main results

* `readPhrase_quotePhrase` — a quoted text is one phrase, whatever it contains
* `VersionIndex.mem_joined` — the index finds the active versions
* `text_search_iff` — when a search by text finds what contains the text
-/

namespace Patchouli

open Json (Value FloatText)

/-! ### Phrases -/

/-- The quotation mark. -/
def quotationMark : Char := Char.ofNat 34

/-- `text.replace('"', "\"\"")`. -/
def doubleMarks (text : List Char) : List Char :=
  text.flatMap fun c => if c = quotationMark then [c, c] else [c]

/-- The full-text query of a text. -/
def quotePhrase (text : List Char) : List Char :=
  quotationMark :: (doubleMarks text ++ [quotationMark])

/-- The rest of a quoted phrase, if nothing follows it. -/
def readQuoted : List Char → Option (List Char)
  | [] => none
  | [c] => if c = quotationMark then some [] else none
  | c :: d :: rest =>
    if c = quotationMark then
      if d = quotationMark then (readQuoted rest).map (c :: ·) else none
    else (readQuoted (d :: rest)).map (c :: ·)

/-- A full-text query that is one quoted phrase. -/
def readPhrase : List Char → Option (List Char)
  | [] => none
  | c :: rest => if c = quotationMark then readQuoted rest else none

/-- **A quoted text is one phrase**, whatever it contains. -/
theorem readPhrase_quotePhrase (text : List Char) : readPhrase (quotePhrase text) = some text := by
  simp only [quotePhrase, readPhrase, if_true]
  induction text with
  | nil => simp [doubleMarks, readQuoted]
  | cons c text ih =>
    simp only [doubleMarks, List.flatMap_cons] at ih ⊢
    by_cases hc : c = quotationMark
    · simp [hc, readQuoted, ih]
    · rw [if_neg hc, List.singleton_append, List.cons_append]
      obtain ⟨d, rest, hrest⟩ : ∃ d rest,
          (text.flatMap fun c => if c = quotationMark then [c, c] else [c]) ++ [quotationMark] =
            d :: rest := by
        cases h : (text.flatMap fun c => if c = quotationMark then [c, c] else [c]) with
        | nil => exact ⟨_, _, rfl⟩
        | cons d rest => exact ⟨_, _, rfl⟩
      rw [hrest] at ih ⊢
      rw [readQuoted, if_neg hc, ih]
      rfl

/-! ### The two searches -/

/-- A case folding of characters. It does not tell the cases of the letters of ASCII apart. -/
structure Folding where
  fold : Char → Char
  fold_toLower : ∀ c, fold c.toLower = fold c

/-- `lower`, which changes the letters of ASCII. -/
def asciiLower (text : List Char) : List Char := text.map Char.toLower

section Search

variable (folding : Folding) (floats : FloatText)

/-- What is left of a text after case folding. -/
def Folding.folded (text : List Char) : List Char := text.map folding.fold

/-- `patchouli_entity_fts MATCH query`, for a query that is one phrase. -/
def Folding.phraseMatches (query value : List Char) : Bool :=
  match readPhrase query with
  | none => false
  | some phrase => folding.folded phrase <:+: folding.folded value

/-- The text conditions of `matching_versions`. -/
def textSearch (score : Db → String → EntityVersionRow → ℚ) : Search where
  contains text value := asciiLower text.toList <:+: asciiLower (floats.write value)
  indexed text value := folding.phraseMatches (quotePhrase text.toList) (floats.write value)
  score
  compareNumbers

/-- The stored JSON of a value contains a text, up to case. -/
def Folding.Contains (text : String) (value : Value) : Prop :=
  folding.folded text.toList <:+: folding.folded (floats.write value)

/-- The stored JSON of a value contains a text, up to the case of the letters of ASCII. -/
def ContainsAscii (text : String) (value : Value) : Prop :=
  asciiLower text.toList <:+: asciiLower (floats.write value)

variable {folding floats} {text : String} {value : Value}

theorem Folding.folded_asciiLower (text : List Char) :
    folding.folded (asciiLower text) = folding.folded text := by
  simp only [folded, asciiLower, List.map_map]
  exact List.map_congr_left fun c _ => folding.fold_toLower c

/-- What contains a text up to the case of ASCII contains it up to case. -/
theorem ContainsAscii.contains (h : ContainsAscii floats text value) :
    folding.Contains floats text value := by
  unfold Folding.Contains
  rw [← Folding.folded_asciiLower, ← Folding.folded_asciiLower (floats.write value)]
  exact List.IsInfix.map folding.fold h

/-- **The text condition of a query**, by the length of its text. -/
theorem matchesText_textSearch {score : Db → String → EntityVersionRow → ℚ} :
    matchesText (textSearch folding floats score) (some text) value = true ↔
      if text.length < 3 then ContainsAscii floats text value
      else folding.Contains floats text value := by
  simp only [matchesText, textSearch, Folding.phraseMatches, readPhrase_quotePhrase]
  split <;> simp [ContainsAscii, Folding.Contains]

end Search

/-! ### The index -/

/-- The full-text index of the table of versions: under the row id of each active version, its
value. -/
structure VersionIndex (versions : List EntityVersionRow) where
  rows : List (ℕ × EntityVersionRow)
  rows_eq : rows.map (·.2) = versions
  rowids : (rows.map (·.1)).Nodup
  fts : List (ℕ × Value)
  indexed : ∀ rowid value, (rowid, value) ∈ fts ↔
    ∃ row, (rowid, row) ∈ rows ∧ row.state = .active ∧ row.valueJson = some value

namespace VersionIndex

variable {versions : List EntityVersionRow} (index : VersionIndex versions)

/-- What the trigger of an inserted version adds. -/
def entryOf (rowid : ℕ) (row : EntityVersionRow) : List (ℕ × Value) :=
  match row.state, row.valueJson with
  | .active, some value => [(rowid, value)]
  | _, _ => []

theorem mem_entryOf {rowid rowid' : ℕ} {row : EntityVersionRow} {value : Value} :
    (rowid', value) ∈ entryOf rowid row ↔
      rowid' = rowid ∧ row.state = .active ∧ row.valueJson = some value := by
  unfold entryOf
  split
  · rename_i value' hstate hvalue
    simp [hstate, hvalue, eq_comm]
  · rename_i hnot
    simp only [List.not_mem_nil, false_iff]
    exact fun h => hnot value h.2.1 h.2.2

/-- A version is inserted under a fresh row id, and `patchouli_entity_fts_insert` runs. -/
def insert (row : EntityVersionRow) (rowid : ℕ) (hfresh : rowid ∉ index.rows.map (·.1)) :
    VersionIndex (versions ++ [row]) where
  rows := index.rows ++ [(rowid, row)]
  rows_eq := by simp [index.rows_eq]
  rowids := by
    rw [List.map_append, List.nodup_append]
    refine ⟨index.rowids, by simp, fun a ha b hb heq => hfresh ?_⟩
    obtain rfl : b = rowid := by simpa using hb
    exact heq ▸ ha
  fts := index.fts ++ entryOf rowid row
  indexed := by
    intro rowid' value
    simp only [List.mem_append, List.mem_singleton, Prod.mk.injEq, mem_entryOf, index.indexed]
    constructor
    · rintro (⟨r, hr, hrest⟩ | ⟨rfl, hrest⟩)
      · exact ⟨r, Or.inl hr, hrest⟩
      · exact ⟨row, Or.inr ⟨rfl, rfl⟩, hrest⟩
    · rintro ⟨r, hr | ⟨rfl, rfl⟩, hrest⟩
      · exact Or.inl ⟨r, hr, hrest⟩
      · exact Or.inr ⟨rfl, hrest⟩

/-- Versions are deleted, and `patchouli_entity_fts_delete` runs for those that are active. -/
def delete (p : EntityVersionRow → Bool) : VersionIndex (versions.filter fun row => !p row) where
  rows := index.rows.filter fun entry => !p entry.2
  rows_eq := by
    conv_rhs => rw [← index.rows_eq]
    rw [List.filter_map]
    rfl
  rowids := index.rowids.sublist ((List.filter_sublist).map _)
  fts := index.fts.filter fun entry =>
    ¬ ∃ row ∈ index.rows, row.1 = entry.1 ∧ row.2.state = .active ∧ p row.2 = true
  indexed := by
    intro rowid value
    simp only [List.mem_filter, decide_eq_true_eq, index.indexed, Bool.not_eq_true']
    constructor
    · rintro ⟨⟨row, hrow, hactive, hvalue⟩, hkept⟩
      refine ⟨row, ⟨hrow, ?_⟩, hactive, hvalue⟩
      rw [Bool.eq_false_iff]
      exact fun hp => hkept ⟨(rowid, row), hrow, rfl, hactive, hp⟩
    · rintro ⟨row, ⟨hrow, hp⟩, hactive, hvalue⟩
      refine ⟨⟨row, hrow, hactive, hvalue⟩, ?_⟩
      rintro ⟨row', hrow', hid, -, hp'⟩
      rw [List.inj_on_of_nodup_map index.rowids hrow' hrow hid, hp] at hp'
      cases hp'

/-- Versions are updated, but for their states and values: no trigger runs. -/
def update (f : EntityVersionRow → EntityVersionRow)
    (hkept : ∀ row, (f row).state = row.state ∧ (f row).valueJson = row.valueJson) :
    VersionIndex (versions.map f) where
  rows := index.rows.map fun entry => (entry.1, f entry.2)
  rows_eq := by
    conv_rhs => rw [← index.rows_eq]
    simp
  rowids := by
    rw [List.map_map]
    exact index.rowids
  fts := index.fts
  indexed := by
    intro rowid value
    rw [index.indexed]
    constructor
    · rintro ⟨row, hrow, hactive, hvalue⟩
      exact ⟨f row, List.mem_map.mpr ⟨_, hrow, rfl⟩, (hkept row).1.trans hactive,
        (hkept row).2.trans hvalue⟩
    · rintro ⟨row, hrow, hactive, hvalue⟩
      obtain ⟨⟨id, row'⟩, hrow', heq⟩ := List.mem_map.mp hrow
      obtain ⟨rfl, rfl⟩ := Prod.mk.inj heq
      exact ⟨row', hrow', (hkept row').1.symm.trans hactive, (hkept row').2.symm.trans hvalue⟩

/-- The index joined with its table by row id, where the value satisfies a condition. -/
def joined (p : Value → Bool) : List EntityVersionRow :=
  index.fts.flatMap fun entry =>
    if p entry.2 then (index.rows.filter (·.1 = entry.1)).map (·.2) else []

/-- **The index finds the active versions** whose values satisfy the condition. -/
theorem mem_joined {p : Value → Bool} {row : EntityVersionRow} :
    row ∈ index.joined p ↔
      row ∈ versions ∧ row.state = .active ∧ ∃ value, row.valueJson = some value ∧ p value = true := by
  simp only [joined, List.mem_flatMap]
  constructor
  · rintro ⟨⟨rowid, value⟩, hentry, hrow⟩
    split at hrow
    · rename_i hp
      obtain ⟨⟨rowid', row'⟩, hrow', rfl⟩ := List.mem_map.mp hrow
      obtain ⟨hmem, hid⟩ := List.mem_filter.mp hrow'
      rw [decide_eq_true_eq] at hid
      obtain ⟨row'', hmem', hactive, hvalue⟩ := (index.indexed rowid value).mp hentry
      obtain rfl := (Prod.mk.inj (List.inj_on_of_nodup_map index.rowids hmem hmem' hid)).2
      exact ⟨index.rows_eq ▸ List.mem_map.mpr ⟨_, hmem, rfl⟩, hactive, value, hvalue, hp⟩
    · cases hrow
  · rintro ⟨hrow, hactive, value, hvalue, hp⟩
    rw [← index.rows_eq] at hrow
    obtain ⟨⟨rowid, row'⟩, hmem, rfl⟩ := List.mem_map.mp hrow
    refine ⟨(rowid, value), (index.indexed rowid value).mpr ⟨row', hmem, hactive, hvalue⟩, ?_⟩
    rw [if_pos hp]
    exact List.mem_map.mpr ⟨_, List.mem_filter.mpr ⟨hmem, by simp⟩, rfl⟩

/-! The statements on the table of versions. -/

variable {db : Db} (index : VersionIndex db.versions)

/-- The index after `insertVersion`. -/
def insertVersion {new : Db} {row : EntityVersionRow} (h : db.insertVersion row = .ok new)
    (rowid : ℕ) (hfresh : rowid ∉ index.rows.map (·.1)) : VersionIndex new.versions :=
  have hversions : db.versions ++ [row] = new.versions := by
    simp only [Db.insertVersion, Except.bind_eq_ok, Except.pure_eq_ok, Except.ok.injEq] at h
    obtain ⟨-, -, -, -, -, -, -, -, rfl⟩ := h
    rfl
  hversions ▸ index.insert row rowid hfresh

/-- The index after `deleteStagedVersions`. -/
def deleteStagedVersions {new : Db} {unit : String} (h : db.deleteStagedVersions unit = .ok new) :
    VersionIndex new.versions :=
  have hversions : (db.versions.filter fun row => !decide (row.workUnitJson = some unit)) =
      new.versions := by
    simp only [Db.deleteStagedVersions, Except.bind_eq_ok, Except.pure_eq_ok, Except.ok.injEq] at h
    obtain ⟨-, -, rfl⟩ := h
    simp
  hversions ▸ index.delete fun row => decide (row.workUnitJson = some unit)

/-- The index after `publishWorkUnitVersions`. -/
def publishWorkUnitVersions (unit : String) (key : EntityKey) (cursor : ℕ) :
    VersionIndex (db.publishWorkUnitVersions unit key cursor).versions :=
  index.update _ fun row => by split <;> exact ⟨rfl, rfl⟩

/-- The index after `publishEntityVersions`. -/
def publishEntityVersions (key : EntityKey) (published : List StoredEntityVersion) (cursor : ℕ) :
    VersionIndex (db.publishEntityVersions key published cursor).versions :=
  index.update _ fun row => by split <;> exact ⟨rfl, rfl⟩

end VersionIndex

/-! ### What a search finds -/

/-- The entity has a visible active head, among those a query asks for, with a value of some kind. -/
def Db.FoundBy (db : Db) (query : RetrieveQuery) (visible : EntityKey → String → Bool)
    (p : Value → Prop) (key : EntityKey) : Prop :=
  ∃ r ∈ db.versions, r.key = key ∧ visible r.key r.version = true ∧ r.key.scopeJson = query.scopeJson ∧
    r.state = .active ∧ query.entityTypes.all (r.key.entityType ∈ ·) = true ∧
    query.entityIds.all (r.key.entityId ∈ ·) = true ∧ ∃ value, r.valueJson = some value ∧ p value

theorem Db.FoundBy.imp {db : Db} {query : RetrieveQuery} {visible : EntityKey → String → Bool}
    {p q : Value → Prop} {key : EntityKey} (hpq : ∀ value, p value → q value)
    (h : db.FoundBy query visible p key) : db.FoundBy query visible q key := by
  obtain ⟨r, hr, hkey, hvisible, hscope, hactive, htypes, hids, value, hvalue, hp⟩ := h
  exact ⟨r, hr, hkey, hvisible, hscope, hactive, htypes, hids, value, hvalue, hpq value hp⟩

/-- The entity has a match of `matching_versions`. -/
def Db.MatchedBy (search : Search) (db : Db) (query : RetrieveQuery)
    (visible : EntityKey → String → Bool) (key : EntityKey) : Prop :=
  ∃ m ∈ matchingVersions search db query visible,
    key = ⟨query.scopeJson, m.entityType, m.entityId⟩

theorem Db.matchedBy_iff {search : Search} {db : Db} {query : RetrieveQuery}
    {visible : EntityKey → String → Bool} {key : EntityKey} :
    db.MatchedBy search query visible key ↔
      db.FoundBy query visible (fun value => matchesText search query.text value = true) key := by
  unfold MatchedBy FoundBy
  simp only [mem_matchingVersions]
  constructor
  · rintro ⟨m, ⟨r, hr, value, hvalue, hvisible, hscope, hactive, htext, htypes, hids, rfl⟩, rfl⟩
    exact ⟨r, hr, by cases hk : r.key; simp_all, hvisible, hscope, hactive, htypes, hids, value,
      hvalue, htext⟩
  · rintro ⟨r, hr, rfl, hvisible, hscope, hactive, htypes, hids, value, hvalue, htext⟩
    exact ⟨_, ⟨r, hr, value, hvalue, hvisible, hscope, hactive, htext, htypes, hids, rfl⟩,
      by cases hk : r.key; simp_all⟩

section Search

variable {folding : Folding} {floats : FloatText} {score : Db → String → EntityVersionRow → ℚ}

/-- A character whose other cases are those of ASCII. -/
def Folding.AsciiCased (folding : Folding) (c : Char) : Prop :=
  ∀ d, folding.fold d = folding.fold c → d.toLower = c.toLower

theorem Folding.asciiLower_eq {cs ds : List Char} (hcased : ∀ c ∈ cs, folding.AsciiCased c)
    (h : folding.folded cs = folding.folded ds) : asciiLower cs = asciiLower ds := by
  simp only [Folding.folded, asciiLower] at h ⊢
  induction cs generalizing ds with
  | nil =>
    cases ds with
    | nil => rfl
    | cons d ds => cases h
  | cons c cs ih =>
    cases ds with
    | nil => cases h
    | cons d ds =>
      rw [List.forall_mem_cons] at hcased
      obtain ⟨hc, hcs⟩ := List.cons.inj h
      rw [List.map_cons, List.map_cons, hcased.1 d hc.symm, ih hcased.2 hcs]

/-- A text of such characters is contained up to case where it is up to the case of ASCII. -/
theorem Folding.Contains.ascii {text : String} {value : Value}
    (hcased : ∀ c ∈ text.toList, folding.AsciiCased c) (h : folding.Contains floats text value) :
    ContainsAscii floats text value := by
  obtain ⟨slice, hslice, hfolded⟩ := List.infix_map_iff.mp h
  unfold ContainsAscii
  rw [Folding.asciiLower_eq hcased hfolded]
  exact List.IsInfix.map Char.toLower hslice

/-- What a search by text finds, by the length of the text. -/
theorem Db.matchedBy_textSearch {db : Db} {query : RetrieveQuery}
    {visible : EntityKey → String → Bool} {text : String} {key : EntityKey} :
    db.MatchedBy (textSearch folding floats score) { query with text := some text } visible key ↔
      db.FoundBy query visible (fun value => if text.length < 3 then ContainsAscii floats text value
        else folding.Contains floats text value) key := by
  rw [matchedBy_iff]
  simp only [FoundBy, matchesText_textSearch]

end Search

/-! ### A short text -/

/-- A float in the characters of numbers; zero as it is printed. -/
def noteFloats : FloatText where
  text x := if x = 0 then ['0', '.', '0'] else Nat.toDigits 10 (Encodable.encode x) ++ ['e']
  injective x y _ _ h := by
    by_cases hx : x = 0 <;> by_cases hy : y = 0
    · rw [hx, hy]
    · simp only [hx, hy, if_true, if_false] at h
      simpa using congrArg List.getLast? h
    · simp only [hx, hy, if_true, if_false] at h
      simpa using congrArg List.getLast? h
    · simp only [hx, hy, if_false] at h
      exact Encodable.encode_injective (FloatText.toDigits_injective (List.append_cancel_right h))
  chars x c hc := by
    by_cases hx : x = 0
    · simp only [hx, if_true, List.mem_cons, List.not_mem_nil, or_false] at hc
      rcases hc with rfl | rfl | rfl <;> rfl
    · simp only [hx, if_false, List.mem_append, List.mem_singleton] at hc
      rcases hc with hc | rfl
      · simp [Json.isNumberChar, FloatText.toDigits_chars hc]
      · rfl
  marked x := by
    by_cases hx : x = 0
    · simp [hx]
    · simp [hx]

/-- The case folding of the letters of Latin 1. -/
def latinFold (c : Char) : Char :=
  if 192 ≤ c.toNat ∧ c.toNat ≤ 222 ∧ c.toNat ≠ 215 then Char.ofNat (c.toNat + 32) else c.toLower

theorem toLower_of_not_upper {c : Char} (h : ¬ (65 ≤ c.toNat ∧ c.toNat ≤ 90)) : c.toLower = c := by
  unfold Char.toLower
  rw [dif_neg]
  exact h

theorem toNat_toLower {c : Char} (h : 65 ≤ c.toNat ∧ c.toNat ≤ 90) :
    c.toLower.toNat = c.toNat + 32 := by
  have hval : c.val ≥ 'A'.val ∧ c.val ≤ 'Z'.val := h
  unfold Char.toLower
  rw [dif_pos hval]
  show (c.val.toNat + 32) % 2 ^ 32 = c.val.toNat + 32
  have hle : c.val.toNat ≤ 90 := h.2
  omega

def latinFolding : Folding where
  fold := latinFold
  fold_toLower c := by
    by_cases hupper : 65 ≤ c.toNat ∧ c.toNat ≤ 90
    · have hlower := toNat_toLower hupper
      unfold latinFold
      rw [if_neg (by omega), if_neg (by omega), toLower_of_not_upper (by omega)]
    · rw [toLower_of_not_upper hupper]

/-- A note in French. -/
def frenchRow : EntityVersionRow where
  key := ⟨"scope", "note", "n"⟩
  version := "v"
  state := .active
  valueJson := some (.object [("content", .string "é")])
  workUnitJson := none
  publishedCursor := some 1
  recordedAtUnixMs := 0

def frenchStore : Db := { Db.empty with versions := [frenchRow], heads := [⟨frenchRow.key, "v"⟩] }

/-- A query for notes. -/
def anyNote : RetrieveQuery where
  scopeJson := "scope"
  entityTypes := none
  entityIds := none
  text := none
  filters := []
  order := .newest
  after := none
  limit := 10
  fingerprint := ""

end Patchouli
