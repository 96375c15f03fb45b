import Mathlib.Data.List.Sort
import Mathlib.Data.List.Induction
import Mathlib.Data.List.Nodup
import Mathlib.Data.String.Basic
import Mathlib.Order.Bounds.Defs

/-!
# Tables and sorted results

What a program over a relational store keeps needing, over arbitrary row types:

* a keyed table is a list of rows; `upsert` is `INSERT … ON CONFLICT (key) DO UPDATE`;
* a map in key order (`BTreeMap`) is a list of entries; `insertEntry` keeps the order;
* `ORDER BY` is a sort, and two results over the same rows are the same list
  (`sortedResult_eq`), whatever order the rows are stored in.

## Main results

* `Table.find?_upsert_self`, `Table.find?_upsert_of_ne` — an upsert touches one key
* `Table.foldl_upsert_greatest` — a loop of upserts that keep the greater value
* `Table.Raises.valueAt_cases` — a table of maxima only ever holds what was written to it
* `Table.sortedResult_eq` — equal sets of rows, equal sorted results
* `Table.lookup_insertEntry_self`, `Table.lookup_insertEntry_of_ne`
* `Table.eq_of_lookup_eq` — maps in key order with the same lookups
-/

namespace Table

/-! ### Keyed tables -/

section Upsert

variable {α κ : Type*} [DecidableEq κ]

/-- Change the row under a key, or append a new one. -/
def upsert (key : α → κ) (new : α) (change : α → α) : List α → List α
  | [] => [new]
  | row :: rows => if key row = key new then change row :: rows else row :: upsert key new change rows

variable (key : α → κ) (new : α) {change : α → α}

theorem find?_upsert_self (hchange : ∀ row, key (change row) = key row) (rows : List α) :
    (upsert key new change rows).find? (fun row => key row = key new) =
      some ((rows.find? fun row => key row = key new).elim new change) := by
  induction rows with
  | nil => simp [upsert]
  | cons r rs ih =>
    by_cases hk : key r = key new
    · simp [upsert, hk, hchange]
    · simp only [upsert, if_neg hk, List.find?_cons, decide_eq_false hk]
      exact ih

/-- Lookups under other keys see nothing of it. -/
theorem find?_upsert_of_ne (hchange : ∀ row, key (change row) = key row) {k : κ}
    (hne : k ≠ key new) (rows : List α) :
    (upsert key new change rows).find? (fun row => key row = k) =
      rows.find? fun row => key row = k := by
  induction rows with
  | nil => simp [upsert, hne.symm]
  | cons r rs ih =>
    by_cases hk : key r = key new
    · simp [upsert, hk, hchange, hne.symm]
    · simp only [upsert, if_neg hk, List.find?_cons, ih]

theorem map_upsert_eq (hchange : ∀ row, key (change row) = key row) (rows : List α) :
    (upsert key new change rows).map key =
      if key new ∈ rows.map key then rows.map key else rows.map key ++ [key new] := by
  induction rows with
  | nil => simp [upsert]
  | cons r rs ih =>
    by_cases hk : key r = key new
    · simp [upsert, hk, hchange]
    · simp only [upsert, if_neg hk, List.map_cons, ih, List.mem_cons, Ne.symm hk, false_or]
      split <;> rfl

/-- A row of a keyed table after an upsert: untouched under another key, changed, or new. -/
theorem mem_upsert_cases {rows : List α} (hnodup : (rows.map key).Nodup) {row : α}
    (h : row ∈ upsert key new change rows) :
    (row ∈ rows ∧ key row ≠ key new) ∨ (∃ old ∈ rows, key old = key new ∧ row = change old) ∨
      (row = new ∧ key new ∉ rows.map key) := by
  induction rows with
  | nil => exact Or.inr (Or.inr ⟨List.mem_singleton.mp h, by simp⟩)
  | cons r rs ih =>
    obtain ⟨hr, hrs⟩ := List.nodup_cons.mp hnodup
    by_cases hk : key r = key new
    · rw [upsert, if_pos hk, List.mem_cons] at h
      rcases h with rfl | hmem
      · exact Or.inr (Or.inl ⟨r, List.mem_cons_self, hk, rfl⟩)
      · refine Or.inl ⟨List.mem_cons_of_mem _ hmem, fun hrow => hr ?_⟩
        exact List.mem_map.mpr ⟨row, hmem, hrow.trans hk.symm⟩
    · rw [upsert, if_neg hk, List.mem_cons] at h
      rcases h with rfl | hmem
      · exact Or.inl ⟨List.mem_cons_self, hk⟩
      · rcases ih hrs hmem with ⟨hold, hne⟩ | ⟨old, hold, hkey, rfl⟩ | ⟨rfl, hnew⟩
        · exact Or.inl ⟨List.mem_cons_of_mem _ hold, hne⟩
        · exact Or.inr (Or.inl ⟨old, List.mem_cons_of_mem _ hold, hkey, rfl⟩)
        · refine Or.inr (Or.inr ⟨rfl, ?_⟩)
          rw [List.map_cons, List.mem_cons, not_or]
          exact ⟨fun heq => hk heq.symm, hnew⟩

/-- The keys after a loop of upserts: those there were and those it wrote, each once. -/
theorem foldl_upsert_keys {β : Type*} {mk : β → α} {step : β → α → α}
    (hstep : ∀ x row, key (step x row) = key row) (xs : List β) {rows : List α}
    (hrows : (rows.map key).Nodup) :
    ((xs.foldl (fun rows x => upsert key (mk x) (step x) rows) rows).map key).Nodup ∧
      ∀ k, k ∈ (xs.foldl (fun rows x => upsert key (mk x) (step x) rows) rows).map key ↔
        k ∈ rows.map key ∨ ∃ x ∈ xs, key (mk x) = k := by
  induction xs generalizing rows with
  | nil => exact ⟨hrows, fun k => by simp⟩
  | cons x xs ih =>
    have hkeys := map_upsert_eq key (mk x) (hstep x) rows
    have hnext : ((upsert key (mk x) (step x) rows).map key).Nodup := by
      rw [hkeys]
      split
      · exact hrows
      · rename_i hnew
        exact List.nodup_append.mpr ⟨hrows, List.nodup_singleton _, fun a ha b hb hab => by
          rw [hab, List.mem_singleton.mp hb] at ha
          exact hnew ha⟩
    obtain ⟨hnodup, hmem⟩ := ih hnext
    refine ⟨hnodup, fun k => ?_⟩
    rw [List.foldl_cons, hmem, hkeys]
    split
    · rename_i hold
      simp only [List.mem_cons, exists_eq_or_imp]
      constructor
      · rintro (h | h)
        · exact Or.inl h
        · exact Or.inr (Or.inr h)
      · rintro (h | rfl | h)
        · exact Or.inl h
        · exact Or.inl hold
        · exact Or.inr h
    · rw [List.mem_append, List.mem_singleton, or_assoc, eq_comm (a := k)]
      simp only [List.mem_cons, exists_eq_or_imp]

/-! ### Maxima in a keyed table -/

/-- **A loop of upserts that keep the greater value builds the table of the greatest values**: each
row carries the greatest of the values written under its key. -/
theorem foldl_upsert_greatest {β γ : Type*} [LinearOrder γ] {val : α → γ} {mk : β → α}
    {step : β → α → α} (hkey : ∀ x row, key (step x row) = key row)
    (hval : ∀ x row, val (step x row) = max (val row) (val (mk x))) (xs : List β) {row : α}
    (h : row ∈ xs.foldl (fun rows x => upsert key (mk x) (step x) rows) []) :
    IsGreatest {v | ∃ x ∈ xs, key (mk x) = key row ∧ val (mk x) = v} (val row) := by
  induction xs using List.reverseRecOn generalizing row with
  | nil => cases h
  | append_singleton xs x ih =>
    have hnil : (([] : List α).map key).Nodup := List.nodup_nil
    obtain ⟨hnodup, hkeys⟩ := foldl_upsert_keys key hkey xs hnil
    rw [List.foldl_concat] at h
    have hmem : ∀ {y : β} {k : κ}, (y ∈ xs ++ [x] ∧ key (mk y) = k) ↔
        (y ∈ xs ∧ key (mk y) = k) ∨ (y = x ∧ key (mk x) = k) := by
      intro y k
      rw [List.mem_append, List.mem_singleton, or_and_right]
      refine or_congr_right ⟨?_, ?_⟩ <;> rintro ⟨rfl, hk⟩ <;> exact ⟨rfl, hk⟩
    rcases mem_upsert_cases key (mk x) hnodup h with ⟨hold, hne⟩ | ⟨old, hold, hk, rfl⟩ | ⟨rfl, hnew⟩
    · obtain ⟨⟨y, hy, hyk, hyv⟩, hupper⟩ := ih hold
      refine ⟨⟨y, List.mem_append_left _ hy, hyk, hyv⟩, ?_⟩
      rintro v ⟨z, hz, hzk, rfl⟩
      rcases hmem.mp ⟨hz, hzk⟩ with ⟨hzmem, -⟩ | ⟨rfl, hxk⟩
      · exact hupper ⟨z, hzmem, hzk, rfl⟩
      · exact absurd hxk.symm hne
    · obtain ⟨⟨y, hy, hyk, hyv⟩, hupper⟩ := ih hold
      rw [hkey, hval]
      constructor
      · rcases max_choice (val old) (val (mk x)) with hmax | hmax
        · exact ⟨y, List.mem_append_left _ hy, hyk, hyv.trans hmax.symm⟩
        · exact ⟨x, by simp, hk.symm, hmax.symm⟩
      · rintro v ⟨z, hz, hzk, rfl⟩
        rcases hmem.mp ⟨hz, hzk⟩ with ⟨hzmem, -⟩ | ⟨rfl, -⟩
        · exact le_max_of_le_left (hupper ⟨z, hzmem, hzk, rfl⟩)
        · exact le_max_right _ _
    · refine ⟨⟨x, by simp, rfl, rfl⟩, ?_⟩
      rintro v ⟨z, hz, hzk, rfl⟩
      rcases hmem.mp ⟨hz, hzk⟩ with ⟨hzmem, -⟩ | ⟨rfl, -⟩
      · exact absurd ((hkeys _).mpr (Or.inr ⟨z, hzmem, hzk⟩)) hnew
      · exact le_rfl

/-- The number a table keeps under a key; zero where it has no row. -/
def valueAt (val : α → ℕ) (rows : List α) (k : κ) : ℕ :=
  ((rows.find? fun row => key row = k).map val).getD 0

variable {val : α → ℕ}

/-- An upsert that keeps the maximum raises the number under its key, and no other. -/
theorem valueAt_upsert (hchange : ∀ row, key (change row) = key row)
    (hval : ∀ row, val (change row) = max (val row) (val new)) (rows : List α) (k : κ) :
    valueAt key val (upsert key new change rows) k =
      if k = key new then max (valueAt key val rows k) (val new) else valueAt key val rows k := by
  unfold valueAt
  split
  · rename_i hk
    subst hk
    rw [find?_upsert_self key new hchange]
    cases rows.find? fun row => key row = key new with
    | none => simp
    | some row => simp [hval]
  · rename_i hk
    rw [find?_upsert_of_ne key new hchange hk]

/-- A loop of upserts that raises numbers: what is kept under a key becomes the maximum of what it
was and what is written. -/
structure Raises {β : Type*} (key : α → κ) (val : α → ℕ) (mk : β → α) (step : β → α → α) :
    Prop where
  key_eq : ∀ x row, key (step x row) = key row
  val_eq : ∀ x row, val (step x row) = max (val row) (val (mk x))

namespace Raises

variable {key} {β : Type*} {mk : β → α} {step : β → α → α}

/-- Numbers never fall. -/
theorem le_valueAt (h : Raises key val mk step) (xs : List β) (rows : List α) (k : κ) :
    valueAt key val rows k ≤
      valueAt key val (xs.foldl (fun rows x => upsert key (mk x) (step x) rows) rows) k := by
  induction xs generalizing rows with
  | nil => exact le_rfl
  | cons x xs ih =>
    refine le_trans ?_ (ih _)
    rw [valueAt_upsert key (mk x) (h.key_eq x) (h.val_eq x)]
    split
    · exact le_max_left _ _
    · exact le_rfl

/-- Every number of the loop is reached. -/
theorem valueAt_covers (h : Raises key val mk step) {xs : List β} (rows : List α) {x : β}
    (hx : x ∈ xs) : val (mk x) ≤ valueAt key val
      (xs.foldl (fun rows x => upsert key (mk x) (step x) rows) rows) (key (mk x)) := by
  induction xs generalizing rows with
  | nil => simp at hx
  | cons y xs ih =>
    rcases List.mem_cons.mp hx with rfl | hmem
    · refine le_trans ?_ (h.le_valueAt xs _ _)
      rw [valueAt_upsert key (mk x) (h.key_eq x) (h.val_eq x), if_pos rfl]
      exact le_max_right _ _
    · exact ih _ hmem

/-- A number is what it was, or one of the loop's. -/
theorem valueAt_cases (h : Raises key val mk step) (xs : List β) (rows : List α) (k : κ) :
    valueAt key val (xs.foldl (fun rows x => upsert key (mk x) (step x) rows) rows) k =
        valueAt key val rows k ∨
      ∃ x ∈ xs, key (mk x) = k ∧
        valueAt key val (xs.foldl (fun rows x => upsert key (mk x) (step x) rows) rows) k =
          val (mk x) := by
  induction xs generalizing rows with
  | nil => exact Or.inl rfl
  | cons x xs ih =>
    rw [List.foldl_cons]
    rcases ih (upsert key (mk x) (step x) rows) with heq | ⟨y, hy, hkey, heq⟩
    · rw [valueAt_upsert key (mk x) (h.key_eq x) (h.val_eq x)] at heq
      split at heq
      · rename_i hk
        rcases max_choice (valueAt key val rows k) (val (mk x)) with hmax | hmax
        · exact Or.inl (heq.trans hmax)
        · exact Or.inr ⟨x, by simp, hk.symm, heq.trans hmax⟩
      · exact Or.inl heq
    · exact Or.inr ⟨y, List.mem_cons_of_mem _ hy, hkey, heq⟩

/-- Writing zeros changes nothing. -/
theorem valueAt_of_zero (h : Raises key val mk step) (hzero : ∀ x, val (mk x) = 0) (xs : List β)
    (rows : List α) (k : κ) :
    valueAt key val (xs.foldl (fun rows x => upsert key (mk x) (step x) rows) rows) k =
      valueAt key val rows k := by
  rcases h.valueAt_cases xs rows k with heq | ⟨x, -, -, heq⟩
  · exact heq
  · have hle := h.le_valueAt xs rows k
    rw [heq, hzero] at hle ⊢
    omega

end Raises

end Upsert

/-- A row is determined by its key where keys are unique. -/
theorem eq_of_key_eq {α κ : Type*} (key : α → κ) {rows : List α} (h : (rows.map key).Nodup)
    {r s : α} (hr : r ∈ rows) (hs : s ∈ rows) (hk : key r = key s) : r = s :=
  List.inj_on_of_nodup_map h hr hs hk

/-! ### Maps in key order -/

section Entries

variable {α : Type*}

/-- `BTreeMap::insert`. -/
def insertEntry (k : String) (v : α) : List (String × α) → List (String × α)
  | [] => [(k, v)]
  | (l, w) :: rest =>
    if k = l then (k, v) :: rest
    else if k < l then (k, v) :: (l, w) :: rest
    else (l, w) :: insertEntry k v rest

theorem lookup_insertEntry_self (k : String) (v : α) (m : List (String × α)) :
    (insertEntry k v m).lookup k = some v := by
  induction m with
  | nil => simp [insertEntry]
  | cons e rest ih =>
    obtain ⟨l, w⟩ := e
    simp only [insertEntry]
    split
    · simp
    · split
      · simp
      · rename_i hne _
        rw [List.lookup_cons, beq_false_of_ne hne]
        exact ih

theorem lookup_insertEntry_of_ne {k l : String} (hne : l ≠ k) (v : α) (m : List (String × α)) :
    (insertEntry k v m).lookup l = m.lookup l := by
  induction m with
  | nil => simp [insertEntry, hne]
  | cons e rest ih =>
    obtain ⟨j, w⟩ := e
    simp only [insertEntry]
    split
    · rename_i hk
      subst hk
      simp only [List.lookup_cons, beq_false_of_ne hne]
    · split
      · simp only [List.lookup_cons, beq_false_of_ne hne]
      · simp only [List.lookup_cons, ih]

theorem insertEntry_insertEntry_self (k : String) (v w : α) (m : List (String × α)) :
    insertEntry k w (insertEntry k v m) = insertEntry k w m := by
  induction m with
  | nil => simp [insertEntry]
  | cons e rest ih =>
    obtain ⟨l, x⟩ := e
    by_cases hk : k = l
    · simp [insertEntry, hk]
    · by_cases hlt : k < l
      · simp [insertEntry, hk, hlt]
      · simp [insertEntry, hk, hlt, ih]

theorem mem_insertEntry {k : String} {v : α} {m : List (String × α)} {e : String × α}
    (h : e ∈ insertEntry k v m) : e = (k, v) ∨ e ∈ m := by
  induction m with
  | nil => simpa [insertEntry] using h
  | cons f rest ih =>
    obtain ⟨l, w⟩ := f
    simp only [insertEntry] at h
    split at h
    · rcases List.mem_cons.mp h with rfl | h
      · exact Or.inl rfl
      · exact Or.inr (List.mem_cons_of_mem _ h)
    · split at h
      · rcases List.mem_cons.mp h with rfl | h
        · exact Or.inl rfl
        · exact Or.inr h
      · rcases List.mem_cons.mp h with rfl | h
        · exact Or.inr (by simp)
        · rcases ih h with h | h
          · exact Or.inl h
          · exact Or.inr (List.mem_cons_of_mem _ h)

theorem insertEntry_pairwise {k : String} {v : α} {m : List (String × α)}
    (h : (m.map (·.1)).Pairwise (· < ·)) :
    ((insertEntry k v m).map (·.1)).Pairwise (· < ·) := by
  induction m with
  | nil => simp [insertEntry]
  | cons e rest ih =>
    obtain ⟨l, w⟩ := e
    rw [List.map_cons, List.pairwise_cons] at h
    obtain ⟨hl, hrest⟩ := h
    simp only [insertEntry]
    split
    · rename_i hk
      subst hk
      exact List.pairwise_cons.mpr ⟨hl, hrest⟩
    · split
      · rename_i hlt
        refine List.pairwise_cons.mpr ⟨fun j hj => ?_, List.pairwise_cons.mpr ⟨hl, hrest⟩⟩
        rcases List.mem_cons.mp hj with rfl | hj
        · exact hlt
        · exact lt_trans hlt (hl j hj)
      · rename_i hne hlt
        refine List.pairwise_cons.mpr ⟨fun j hj => ?_, ih hrest⟩
        obtain ⟨e, he, rfl⟩ := List.mem_map.mp hj
        rcases mem_insertEntry he with rfl | he
        · exact lt_of_le_of_ne (not_lt.mp hlt) (Ne.symm hne)
        · exact hl _ (List.mem_map_of_mem he)

/-- `BTreeMap::retain`, by a condition on the key. -/
theorem lookup_filter_key (p : String → Bool) (m : List (String × α)) (k : String) :
    (m.filter fun e => p e.1).lookup k = if p k then m.lookup k else none := by
  induction m with
  | nil => simp
  | cons e rest ih =>
    obtain ⟨l, v⟩ := e
    by_cases hk : k = l
    · subst hk
      by_cases hp : p k
      · simp [hp]
      · simpa [hp] using ih
    · by_cases hp : p l
      · simp only [List.filter_cons, hp, if_true, List.lookup_cons, beq_false_of_ne hk, ih]
      · simp only [List.filter_cons, hp, Bool.false_eq_true, if_false, List.lookup_cons,
          beq_false_of_ne hk, ih]

theorem lookup_eq_none_of_lt {k : String} {m : List (String × α)}
    (h : ∀ l ∈ m.map (·.1), k < l) : m.lookup k = none := by
  rw [List.lookup_eq_none_iff]
  intro e he
  simpa using (h e.1 (List.mem_map_of_mem he)).ne

/-- Maps in key order with the same lookups are the same map. -/
theorem eq_of_lookup_eq {m m' : List (String × α)} (hm : (m.map (·.1)).Pairwise (· < ·))
    (hm' : (m'.map (·.1)).Pairwise (· < ·)) (h : ∀ k, m.lookup k = m'.lookup k) : m = m' := by
  induction m generalizing m' with
  | nil =>
    cases m' with
    | nil => rfl
    | cons e rest =>
      obtain ⟨k, v⟩ := e
      simpa using h k
  | cons e rest ih =>
    obtain ⟨k, v⟩ := e
    cases m' with
    | nil => simpa using h k
    | cons e' rest' =>
      obtain ⟨l, w⟩ := e'
      rw [List.map_cons, List.pairwise_cons] at hm hm'
      have hk : k = l := by
        rcases lt_trichotomy k l with hlt | heq | hlt
        · have hnone : ((l, w) :: rest').lookup k = none := by
            refine lookup_eq_none_of_lt fun j hj => ?_
            rcases List.mem_cons.mp hj with rfl | hj
            · exact hlt
            · exact hlt.trans (hm'.1 j hj)
          simpa [hnone] using h k
        · exact heq
        · have hnone : ((k, v) :: rest).lookup l = none := by
            refine lookup_eq_none_of_lt fun j hj => ?_
            rcases List.mem_cons.mp hj with rfl | hj
            · exact hlt
            · exact hlt.trans (hm.1 j hj)
          simpa [hnone] using h l
      subst hk
      have hv : v = w := by simpa using h k
      subst hv
      refine congrArg _ (ih hm.2 hm'.2 fun j => ?_)
      by_cases hj : j = k
      · rw [hj, lookup_eq_none_of_lt hm.1, lookup_eq_none_of_lt hm'.1]
      · simpa [List.lookup_cons, beq_false_of_ne hj] using h j

/-- Entries that a map has, inserted one after the other. -/
theorem lookup_foldl_insertEntry {m entries acc : List (String × α)}
    (h : ∀ e ∈ entries, m.lookup e.1 = some e.2) (k : String) :
    (entries.foldl (fun acc e => insertEntry e.1 e.2 acc) acc).lookup k =
      if k ∈ entries.map (·.1) then m.lookup k else acc.lookup k := by
  induction entries generalizing acc with
  | nil => simp
  | cons e rest ih =>
    rw [List.forall_mem_cons] at h
    rw [List.foldl_cons, ih h.2]
    by_cases hk : k = e.1
    · subst hk
      simp [lookup_insertEntry_self, h.1]
    · rw [lookup_insertEntry_of_ne hk, List.map_cons]
      simp only [List.mem_cons, hk, false_or]

theorem foldl_insertEntry_pairwise {entries acc : List (String × α)}
    (h : (acc.map (·.1)).Pairwise (· < ·)) :
    ((entries.foldl (fun acc e => insertEntry e.1 e.2 acc) acc).map (·.1)).Pairwise (· < ·) := by
  induction entries generalizing acc with
  | nil => exact h
  | cons e rest ih => exact ih (insertEntry_pairwise h)

theorem pairwise_filter_keys {m : List (String × α)} (h : (m.map (·.1)).Pairwise (· < ·))
    (p : String × α → Bool) : ((m.filter p).map (·.1)).Pairwise (· < ·) :=
  List.Pairwise.sublist (List.filter_sublist.map _) h

/-- **Picking entries by name.** In whatever order they are picked, they are the part of the map
with these names. -/
theorem foldl_insertEntry_eq_filter {m entries : List (String × α)}
    (hm : (m.map (·.1)).Pairwise (· < ·)) (h : ∀ e ∈ entries, m.lookup e.1 = some e.2) :
    entries.foldl (fun acc e => insertEntry e.1 e.2 acc) [] =
      m.filter fun e => decide (e.1 ∈ entries.map (·.1)) := by
  refine eq_of_lookup_eq (foldl_insertEntry_pairwise .nil) (pairwise_filter_keys hm _) fun k => ?_
  rw [lookup_foldl_insertEntry h,
    lookup_filter_key (fun k => decide (k ∈ entries.map (·.1))) m k]
  simp only [decide_eq_true_eq, List.lookup_nil]

/-- A key is there where it can be looked up. -/
theorem mem_keys_iff {m : List (String × α)} {k : String} :
    k ∈ m.map (·.1) ↔ ∃ v, m.lookup k = some v := by
  rw [← Option.isSome_iff_exists, List.lookup_isSome_iff, List.mem_map]
  simp only [beq_iff_eq, @eq_comm _ k]

/-- The entry of a key. -/
theorem mem_of_lookup {m : List (String × α)} {k : String} {v : α} (h : m.lookup k = some v) :
    (k, v) ∈ m := by
  obtain ⟨before, after, rfl, -⟩ := List.lookup_eq_some_iff.mp h
  simp

/-- The entry of a key is the only one. -/
theorem lookup_of_mem {m : List (String × α)} (hm : (m.map (·.1)).Pairwise (· < ·)) {k : String}
    {v : α} (h : (k, v) ∈ m) : m.lookup k = some v := by
  obtain ⟨before, after, rfl⟩ := List.append_of_mem h
  refine List.lookup_eq_some_iff.mpr ⟨before, after, rfl, fun e he => ?_⟩
  rw [List.map_append, List.pairwise_append] at hm
  simpa using (hm.2.2 e.1 (List.mem_map_of_mem he) k (by simp)).ne'

end Entries

/-! ### Sorted results -/

/-- `ORDER BY version`. -/
def sorted (l : List String) : List String := l.insertionSort (· ≤ ·)

@[simp] theorem mem_sorted {l : List String} {s : String} : s ∈ sorted l ↔ s ∈ l :=
  List.mem_insertionSort _

theorem sorted_perm (l : List String) : (sorted l).Perm l := List.perm_insertionSort _ l

theorem sorted_eq_iff {l l' : List String} : sorted l = sorted l' ↔ l.Perm l' := by
  constructor
  · intro h
    exact (sorted_perm l).symm.trans (h ▸ sorted_perm l')
  · intro h
    refine List.Perm.eq_of_pairwise' (List.pairwise_insertionSort _ l)
      (List.pairwise_insertionSort _ l') ?_
    exact (sorted_perm l).trans (h.trans (sorted_perm l').symm)

theorem sorted_sorted (l : List String) : sorted (sorted l) = sorted l :=
  sorted_eq_iff.mpr (sorted_perm l)

theorem sorted_nodup {l : List String} (h : l.Nodup) : (sorted l).Nodup :=
  (sorted_perm l).nodup_iff.mpr h

/-- **Equal sets, equal results.** Sorting by an order that tells the rows apart forgets how
they are stored. -/
theorem sortedResult_eq {α : Type*} {r : α → α → Prop} [DecidableRel r] [Std.Total r]
    [IsTrans α r] {l l' : List α} (hanti : ∀ a ∈ l, ∀ b ∈ l, r a b → r b a → a = b)
    (hl : l.Nodup) (hl' : l'.Nodup) (h : ∀ a, a ∈ l ↔ a ∈ l') :
    l.insertionSort r = l'.insertionSort r := by
  have hperm : (l.insertionSort r).Perm (l'.insertionSort r) :=
    (List.perm_insertionSort r l).trans
      (((List.perm_ext_iff_of_nodup hl hl').mpr h).trans (List.perm_insertionSort r l').symm)
  refine List.Perm.eq_of_pairwise ?_ (List.pairwise_insertionSort r l)
    (List.pairwise_insertionSort r l') hperm
  intro a b ha hb hab hba
  exact hanti a ((List.mem_insertionSort r).mp ha) b ((h b).mpr ((List.mem_insertionSort r).mp hb))
    hab hba

/-- An entry that comes before no other is the last of a sorted list. -/
theorem getLast?_insertionSort {α : Type*} {r : α → α → Prop} [DecidableRel r] [Std.Total r]
    [IsTrans α r] {l : List α} {a : α} (ha : a ∈ l) (hlast : ∀ b ∈ l, r a b → b = a) :
    (l.insertionSort r).getLast? = some a := by
  have hmem : a ∈ l.insertionSort r := (List.mem_insertionSort r).mpr ha
  have hsorted := List.pairwise_insertionSort r l
  obtain ⟨b, hb⟩ := List.getLast?_isSome.mpr (List.ne_nil_of_mem hmem) |> Option.isSome_iff_exists.mp
  obtain ⟨front, hsplit⟩ := List.getLast?_eq_some_iff.mp hb
  rw [hsplit] at hmem hsorted
  rw [hb, Option.some.injEq]
  rcases List.mem_append.mp hmem with hfront | hfront
  · have hbefore := (List.pairwise_append.mp hsorted).2.2 a hfront b (List.mem_singleton.mpr rfl)
    refine hlast b ?_ hbefore
    rw [← List.mem_insertionSort r, hsplit]
    exact List.mem_append_right _ (List.mem_singleton.mpr rfl)
  · exact (List.mem_singleton.mp hfront).symm

end Table
