import Mathlib.Order.Compare
import Patchouli.Lib.Double
import Patchouli.Lib.JsonText
import Patchouli.Sqlite.Retrieve

/-!
# Filters that compare

`compare_json` compares two numbers as signed integers where both are, else as unsigned ones, else
as doubles. Two integers are compared exactly, whichever of the three it comes to: an integer that
is not signed and one that is not unsigned are far enough apart for their doubles. An integer and a
float are compared as doubles, and a nearest double passes over no other: the comparison is right
unless the integer is rounded to the very float it is compared with. There it answers that the two
are equal, and `==`, which keeps the representations apart, that they are not.

## Main definitions

* `Json.Number.asI64`, `Json.Number.asU64`, `Json.Number.asF64`, `compareNumbers`
* `Collide` — an integer and the float it is rounded to
* `OrderedFilters` — the filters say of one pair what a total order says

## Main results

* `compareNumbers_integers`, `compareNumbers_floats` — what is compared
* `filter_comparison_iff` — which pairs the filters order, and that `$lt` is transitive
-/

namespace Json.Number

/-- `Number::as_i64`. -/
def asI64 : Number → Option ℤ
  | posInt n => if n.toNat < 2 ^ 63 then some n.toNat else none
  | negInt n => some n.toInt
  | float _ => none

/-- `Number::as_u64`. -/
def asU64 : Number → Option ℕ
  | posInt n => some n.toNat
  | negInt _ => none
  | float _ => none

/-- `Number::as_f64`. -/
def asF64 : Number → Option ℚ
  | posInt n => some (Double.roundInt n.toNat)
  | negInt n => some (Double.roundInt n.toInt)
  | float x => some x

/-- The number that is denoted. -/
def toRat : Number → ℚ
  | posInt n => n.toNat
  | negInt n => n.toInt
  | float x => x

/-- A number in the representation of a float. -/
def IsFloat : Number → Prop
  | float _ => True
  | _ => False

instance (n : Number) : Decidable n.IsFloat := by
  cases n <;> unfold IsFloat <;> infer_instance

/-- **Every number is converted to a nearest double.** -/
theorem asF64_nearest {n : Number} (h : n.Normal) :
    ∃ r, n.asF64 = some r ∧ Double.Nearest n.toRat r := by
  cases n with
  | posInt n =>
    refine ⟨_, rfl, ?_⟩
    have hlt := n.toNat_lt
    have := Double.roundInt_nearest (z := n.toNat) (by simpa using hlt)
    simpa [toRat] using this
  | negInt n =>
    refine ⟨_, rfl, Double.roundInt_nearest ?_⟩
    have hlow := n.le_toInt
    have hhigh := n.toInt_lt
    omega
  | float x => exact ⟨x, rfl, h.nearest⟩

end Json.Number

namespace Patchouli

open Json (Number Value)

/-- The numbers of `compare_json`. -/
def compareNumbers (left right : Number) : Option Ordering :=
  match left.asI64, right.asI64 with
  | some left, some right => some (compare left right)
  | _, _ =>
    match left.asU64, right.asU64 with
    | some left, some right => some (compare left right)
    | _, _ => do return compare (← left.asF64) (← right.asF64)

variable {a b c : Number}

/-! ### What is compared -/

/-- The doubles of numbers are in the order of the numbers. -/
theorem asF64_mono {r s : ℚ} (ha : a.Normal) (hb : b.Normal) (hr : a.asF64 = some r)
    (hs : b.asF64 = some s) (hlt : a.toRat < b.toRat) : r ≤ s := by
  obtain ⟨r', hr', hnear⟩ := Number.asF64_nearest ha
  obtain ⟨s', hs', hnear'⟩ := Number.asF64_nearest hb
  obtain rfl := Option.some.inj (hr.symm.trans hr')
  obtain rfl := Option.some.inj (hs.symm.trans hs')
  exact hnear.mono hnear' hlt

/-- The doubles of a negative number and of one from `2 ^ 63` on are far apart. -/
theorem asF64_far {r s : ℚ} (ha : a.Normal) (hb : b.Normal) (hr : a.asF64 = some r)
    (hs : b.asF64 = some s) (hneg : a.toRat ≤ 0) (hlarge : 2 ^ 63 ≤ b.toRat) : r < s := by
  obtain ⟨r', hr', hnear⟩ := Number.asF64_nearest ha
  obtain ⟨s', hs', hnear'⟩ := Number.asF64_nearest hb
  obtain rfl := Option.some.inj (hr.symm.trans hr')
  obtain rfl := Option.some.inj (hs.symm.trans hs')
  have hzero : Double.IsDouble 0 := ⟨0, 0, by norm_num, by norm_num, by norm_num, by norm_num⟩
  have hpow : Double.IsDouble (2 ^ 63) :=
    ⟨1, 63, by norm_num, by norm_num, by norm_num, by norm_num⟩
  have hle := hnear.ge_of_ge hzero hneg
  have hge := hnear'.le_of_le hpow hlarge
  linarith [show (0 : ℚ) < 2 ^ 63 by norm_num]

theorem compare_natCast (m n : ℕ) : compare (m : ℚ) (n : ℚ) = compare m n := by
  rw [← cmp_eq_compare, ← cmp_eq_compare]
  exact Nat.strictMono_cast.cmp_map_eq m n

theorem compare_intCast (m n : ℤ) : compare (m : ℚ) (n : ℚ) = compare m n := by
  rw [← cmp_eq_compare, ← cmp_eq_compare]
  exact Int.cast_strictMono.cmp_map_eq m n

theorem negInt_toRat {n : Int64} (h : (Number.negInt n).Normal) : (Number.negInt n).toRat < 0 := by
  have hneg : n.toInt < 0 := Int64.lt_iff_toInt_lt.mp h
  show (n.toInt : ℚ) < 0
  exact_mod_cast hneg

theorem posInt_toRat {n : UInt64} (h : ¬ n.toNat < 2 ^ 63) : 2 ^ 63 ≤ (Number.posInt n).toRat := by
  have hlarge := not_lt.mp h
  show (2 ^ 63 : ℚ) ≤ n.toNat
  exact_mod_cast hlarge

/-- **Integers are compared exactly.** -/
theorem compareNumbers_integers (ha : a.Normal) (hb : b.Normal) (hai : ¬ a.IsFloat)
    (hbi : ¬ b.IsFloat) : compareNumbers a b = some (compare a.toRat b.toRat) := by
  cases a with
  | float => exact absurd trivial hai
  | posInt m =>
    cases b with
    | float => exact absurd trivial hbi
    | posInt n =>
      simp only [compareNumbers, Number.asI64, Number.asU64, Number.toRat]
      split
      · rename_i i j hi hj
        obtain ⟨-, ⟨⟩⟩ := Option.ite_none_right_eq_some.mp hi
        obtain ⟨-, ⟨⟩⟩ := Option.ite_none_right_eq_some.mp hj
        rw [← compare_intCast, Int.cast_natCast, Int.cast_natCast]
      · rw [compare_natCast]
    | negInt n =>
      by_cases hm : m.toNat < 2 ^ 63
      · simp only [compareNumbers, Number.asI64, Number.toRat, if_pos hm]
        rw [← compare_intCast, Int.cast_natCast]
      · obtain ⟨hneg, hlarge⟩ : (Number.negInt n).toRat < 0 ∧ 2 ^ 63 ≤ (Number.posInt m).toRat :=
          ⟨negInt_toRat hb, posInt_toRat hm⟩
        have hfar := asF64_far hb ha rfl rfl hneg.le hlarge
        simp only [compareNumbers, Number.asI64, Number.asU64, if_neg hm]
        rw [compare_gt_iff_gt.mpr (by linarith : (Number.negInt n).toRat < (Number.posInt m).toRat)]
        exact congrArg some (compare_gt_iff_gt.mpr hfar)
  | negInt m =>
    cases b with
    | float => exact absurd trivial hbi
    | negInt n =>
      simp only [compareNumbers, Number.asI64, Number.toRat, compare_intCast]
    | posInt n =>
      by_cases hn : n.toNat < 2 ^ 63
      · simp only [compareNumbers, Number.asI64, Number.toRat, if_pos hn]
        rw [← compare_intCast, Int.cast_natCast]
      · obtain ⟨hneg, hlarge⟩ : (Number.negInt m).toRat < 0 ∧ 2 ^ 63 ≤ (Number.posInt n).toRat :=
          ⟨negInt_toRat ha, posInt_toRat hn⟩
        have hfar := asF64_far ha hb rfl rfl hneg.le hlarge
        simp only [compareNumbers, Number.asI64, Number.asU64, if_neg hn]
        rw [compare_lt_iff_lt.mpr (by linarith : (Number.negInt m).toRat < (Number.posInt n).toRat)]
        exact congrArg some (compare_lt_iff_lt.mpr hfar)

/-- **With a float, doubles are compared.** -/
theorem compareNumbers_floats {r s : ℚ} (hr : a.asF64 = some r) (hs : b.asF64 = some s)
    (h : a.IsFloat ∨ b.IsFloat) : compareNumbers a b = some (compare r s) := by
  have hnone : a.asI64 = none ∨ b.asI64 = none := by
    refine h.imp ?_ ?_ <;> intro hfloat
    · cases a <;> first | rfl | exact hfloat.elim
    · cases b <;> first | rfl | exact hfloat.elim
  have hnone' : a.asU64 = none ∨ b.asU64 = none := by
    refine h.imp ?_ ?_ <;> intro hfloat
    · cases a <;> first | rfl | exact hfloat.elim
    · cases b <;> first | rfl | exact hfloat.elim
  unfold compareNumbers
  split
  · rename_i hi hj
    rcases hnone with hnone | hnone
    · rw [hnone] at hi
      cases hi
    · rw [hnone] at hj
      cases hj
  · split
    · rename_i hi hj
      rcases hnone' with hnone | hnone
      · rw [hnone] at hi
        cases hi
      · rw [hnone] at hj
        cases hj
    · rw [hr, hs]
      rfl

/-! ### The order of numbers -/

theorem asF64_float {r : ℚ} (h : a.IsFloat) (hr : a.asF64 = some r) : r = a.toRat := by
  cases a with
  | float => exact (Option.some.inj hr).symm
  | posInt => exact h.elim
  | negInt => exact h.elim

theorem compare_congr {x y r s : ℚ} (hlt : r < s ↔ x < y) (hgt : s < r ↔ y < x) :
    compare r s = compare x y := by
  rcases lt_trichotomy x y with h | rfl | h
  · rw [compare_lt_iff_lt.mpr h, compare_lt_iff_lt.mpr (hlt.mpr h)]
  · rw [compare_eq_iff_eq.mpr rfl, compare_eq_iff_eq]
    exact le_antisymm (not_lt.mp fun h => lt_irrefl x (hgt.mp h))
      (not_lt.mp fun h => lt_irrefl x (hlt.mp h))
  · rw [compare_gt_iff_gt.mpr h, compare_gt_iff_gt.mpr (hgt.mpr h)]

/-- An integer and the float it is rounded to. -/
def Collide (a b : Number) : Prop := ¬ (a.IsFloat ↔ b.IsFloat) ∧ a.asF64 = b.asF64

/-- **A comparison is right**, but for an integer and the float it is rounded to. -/
theorem compareNumbers_eq (ha : a.Normal) (hb : b.Normal) (h : ¬ Collide a b) :
    compareNumbers a b = some (compare a.toRat b.toRat) := by
  by_cases hfloat : a.IsFloat ∨ b.IsFloat
  · obtain ⟨r, hr, hnear⟩ := Number.asF64_nearest ha
    obtain ⟨s, hs, hnear'⟩ := Number.asF64_nearest hb
    rw [compareNumbers_floats hr hs hfloat, Option.some.injEq]
    have hsides : (r < s ↔ a.toRat < b.toRat) ∧ (s < r ↔ b.toRat < a.toRat) := by
      rcases hfloat with hfloat | hfloat
      · obtain rfl := asF64_float hfloat hr
        by_cases hfloat' : b.IsFloat
        · rw [asF64_float hfloat' hs]
          exact ⟨Iff.rfl, Iff.rfl⟩
        · have hne : s ≠ a.toRat := fun heq =>
            h ⟨fun hiff => hfloat' (hiff.mp hfloat), by rw [hr, hs, heq]⟩
          exact ⟨hnear'.gt_iff hnear.isDouble hne, hnear'.lt_iff hnear.isDouble hne⟩
      · obtain rfl := asF64_float hfloat hs
        by_cases hfloat' : a.IsFloat
        · rw [asF64_float hfloat' hr]
          exact ⟨Iff.rfl, Iff.rfl⟩
        · have hne : r ≠ b.toRat := fun heq =>
            h ⟨fun hiff => hfloat' (hiff.mpr hfloat), by rw [hr, hs, heq]⟩
          exact ⟨hnear.lt_iff hnear'.isDouble hne, hnear.gt_iff hnear'.isDouble hne⟩
    exact compare_congr hsides.1 hsides.2
  · exact compareNumbers_integers ha hb (fun h => hfloat (Or.inl h)) fun h => hfloat (Or.inr h)

/-- An integer and the float it is rounded to are equal when they are compared. -/
theorem compareNumbers_collide (ha : a.Normal) (h : Collide a b) :
    compareNumbers a b = some .eq := by
  obtain ⟨r, hr, -⟩ := Number.asF64_nearest ha
  rw [compareNumbers_floats hr (h.2 ▸ hr) (by have := h.1; tauto), compare_eq_iff_eq.mpr rfl]

/-- What is less is less exactly. -/
theorem compareNumbers_lt (ha : a.Normal) (hb : b.Normal) (h : compareNumbers a b = some .lt) :
    a.toRat < b.toRat := by
  by_cases hcollide : Collide a b
  · rw [compareNumbers_collide ha hcollide] at h
    cases h
  · rw [compareNumbers_eq ha hb hcollide, Option.some.injEq] at h
    exact compare_lt_iff_lt.mp h

/-- Doubles of numbers of which one is a float, and less, are apart. -/
theorem asF64_lt_of_less {r s : ℚ} (hr : a.asF64 = some r) (hs : b.asF64 = some s)
    (hfloat : a.IsFloat ∨ b.IsFloat) (h : compareNumbers a b = some .lt) : r < s := by
  rw [compareNumbers_floats hr hs hfloat, Option.some.injEq] at h
  exact compare_lt_iff_lt.mp h

/-- **What is less is less transitively.** Were the first and the last an integer and the float it is
rounded to, the three would be rounded to one double, and one of the two comparisons with the float
among them would not have found it apart. -/
theorem compareNumbers_trans (ha : a.Normal) (hb : b.Normal) (hc : c.Normal)
    (hab : compareNumbers a b = some .lt) (hbc : compareNumbers b c = some .lt) :
    compareNumbers a c = some .lt := by
  have hlt := compareNumbers_lt ha hb hab
  have hlt' := compareNumbers_lt hb hc hbc
  by_cases hcollide : Collide a c
  · obtain ⟨hkinds, hsame⟩ := hcollide
    obtain ⟨r, hr, -⟩ := Number.asF64_nearest ha
    obtain ⟨s, hs, -⟩ := Number.asF64_nearest hb
    have hr' : c.asF64 = some r := hsame ▸ hr
    have hrs : r ≤ s := asF64_mono ha hb hr hs hlt
    have hsr : s ≤ r := asF64_mono hb hc hs hr' hlt'
    by_cases hfloat : a.IsFloat ∨ b.IsFloat
    · exact absurd (asF64_lt_of_less hr hs hfloat hab) (not_lt.mpr hsr)
    · have hfloat' : b.IsFloat ∨ c.IsFloat := by tauto
      exact absurd (asF64_lt_of_less hs hr' hfloat' hbc) (not_lt.mpr hrs)
  · rw [compareNumbers_eq ha hc hcollide, compare_lt_iff_lt.mpr (hlt.trans hlt')]

/-- Integers of one value are one number. -/
theorem integer_ext (ha : a.Normal) (hb : b.Normal) (hai : ¬ a.IsFloat) (hbi : ¬ b.IsFloat)
    (h : a.toRat = b.toRat) : a = b := by
  have hnonneg : ∀ n : UInt64, 0 ≤ (Number.posInt n).toRat := fun n => Nat.cast_nonneg n.toNat
  cases a with
  | float => exact absurd trivial hai
  | posInt m =>
    cases b with
    | float => exact absurd trivial hbi
    | posInt n => rw [UInt64.toNat_inj.mp (Nat.cast_injective h)]
    | negInt n => exact absurd (h ▸ negInt_toRat hb) (not_lt.mpr (hnonneg m))
  | negInt m =>
    cases b with
    | float => exact absurd trivial hbi
    | posInt n => exact absurd (h ▸ negInt_toRat ha) (not_lt.mpr (hnonneg n))
    | negInt n => rw [Int64.toInt_inj.mp (Int.cast_injective h)]

/-- **Equality of numbers is equality of their representations**, but for an integer and the float it
is rounded to. -/
theorem toRat_eq_iff (ha : a.Normal) (hb : b.Normal) (h : ¬ Collide a b) :
    a.toRat = b.toRat ↔ a = b := by
  refine ⟨fun heq => ?_, fun heq => congrArg _ heq⟩
  by_cases hkinds : a.IsFloat ↔ b.IsFloat
  · by_cases hfloat : a.IsFloat
    · cases a <;> first | exact hfloat.elim | skip
      cases b <;> first | exact (hkinds.mp hfloat).elim | skip
      exact congrArg Number.float heq
    · exact integer_ext ha hb hfloat (fun hb => hfloat (hkinds.mpr hb)) heq
  · obtain ⟨r, hr, hnear⟩ := Number.asF64_nearest ha
    obtain ⟨s, hs, hnear'⟩ := Number.asF64_nearest hb
    have hdouble : Double.IsDouble a.toRat := by
      by_cases hfloat : a.IsFloat
      · exact asF64_float hfloat hr ▸ hnear.isDouble
      · have hfloat' : b.IsFloat := by tauto
        exact heq ▸ asF64_float hfloat' hs ▸ hnear'.isDouble
    refine absurd ⟨hkinds, ?_⟩ h
    rw [hr, hs, hnear.eq_of_isDouble hdouble, hnear'.eq_of_isDouble (heq ▸ hdouble), heq]

/-! ### The filters of a pair -/

/-- Two numbers, as they are read, or two strings. -/
def Comparable : Value → Value → Prop
  | .number m, .number n => m.Normal ∧ n.Normal
  | .string _, .string _ => True
  | _, _ => False

/-- The exact order of numbers, and that of strings. -/
def Precedes : Value → Value → Prop
  | .number m, .number n => m.toRat < n.toRat
  | .string s, .string t => s < t
  | _, _ => False

/-- Values that are an integer and the float it is rounded to. -/
def CollidingValues : Value → Value → Prop
  | .number m, .number n => Collide m n
  | _, _ => False

/-- Exactly one of three. -/
def ExactlyOne (p q r : Prop) : Prop := (p ∧ ¬ q ∧ ¬ r) ∨ (¬ p ∧ q ∧ ¬ r) ∨ (¬ p ∧ ¬ q ∧ r)

/-- What the filters with one expected value say of a value, if it is what the order says. -/
structure OrderedFilters (filter : RetrieveFilterOperator → Bool) (actual expected : Value) :
    Prop where
  one : ExactlyOne (filter .lessThan) (filter .equal) (filter .greaterThan)
  lessThanOrEqual : filter .lessThanOrEqual ↔ filter .lessThan ∨ filter .equal
  greaterThanOrEqual : filter .greaterThanOrEqual ↔ filter .greaterThan ∨ filter .equal
  notEqual : filter .notEqual ↔ ¬ filter .equal
  exact : filter .lessThan ↔ Precedes actual expected

/-- What the filters at a pointer say of a stored value, numbers being compared by
`compareNumbers`. -/
def Search.filters (search : Search) (stored : Value) (pointer : String) (expected : Value)
    (operator : RetrieveFilterOperator) : Bool :=
  matchesFilter { search with compareNumbers := Patchouli.compareNumbers } stored
    ⟨pointer, operator, expected⟩

section Filters

variable (search : Search) {stored actual expected : Value} {pointer : String}

/-- The filters at a value that compares, by the outcome of the comparison. -/
theorem Search.filters_of_compare {o : Ordering} (hat : stored.pointer pointer = some actual)
    (hcompare : compareJson { search with compareNumbers := Patchouli.compareNumbers } actual
      expected = some o) :
    (search.filters stored pointer expected .lessThan ↔ o = .lt) ∧
    (search.filters stored pointer expected .greaterThan ↔ o = .gt) ∧
    (search.filters stored pointer expected .lessThanOrEqual ↔ o = .lt ∨ o = .eq) ∧
    (search.filters stored pointer expected .greaterThanOrEqual ↔ o = .gt ∨ o = .eq) ∧
    (search.filters stored pointer expected .equal ↔ actual = expected) ∧
    (search.filters stored pointer expected .notEqual ↔ actual ≠ expected) := by
  simp [Search.filters, matchesFilter, hat, hcompare]

/-- A comparison that is the order, and finds equal what is equal, orders the filters. -/
theorem Search.orderedFilters {o : Ordering} (hat : stored.pointer pointer = some actual)
    (hcompare : compareJson { search with compareNumbers := Patchouli.compareNumbers } actual
      expected = some o) (hlt : o = .lt ↔ Precedes actual expected)
    (heq : o = .eq ↔ actual = expected) :
    OrderedFilters (search.filters stored pointer expected) actual expected := by
  obtain ⟨hless, hgreater, hle, hge, hequal, hne⟩ := search.filters_of_compare hat hcompare
  refine ⟨?_, ?_, ?_, ?_, hless.trans hlt⟩
  · rw [hless, hgreater, hequal, ← heq]
    cases o <;> simp [ExactlyOne]
  · rw [hle, hless, hequal, heq]
  · rw [hge, hgreater, hequal, heq]
  · rw [hne, hequal]

/-- The filters of a pair are those of the order, but for an integer and the float it is rounded to,
which `$lte` finds equal and `$eq` does not. -/
theorem Search.orderedFilters_iff (hat : stored.pointer pointer = some actual)
    (hcomparable : Comparable actual expected) :
    OrderedFilters (search.filters stored pointer expected) actual expected ↔
      ¬ CollidingValues actual expected := by
  cases actual <;> cases expected <;> try exact hcomparable.elim
  · rename_i m n
    obtain ⟨hm, hn⟩ := hcomparable
    refine ⟨fun h hcollide => ?_, fun h => ?_⟩
    · have hsame : compareJson { search with compareNumbers := Patchouli.compareNumbers }
          (.number m) (.number n) = some .eq := compareNumbers_collide hm hcollide
      obtain ⟨hless, hgreater, -, -, hequal, -⟩ := search.filters_of_compare hat hsame
      have hne : Value.number m ≠ .number n := by
        rintro ⟨⟩
        exact hcollide.1 Iff.rfl
      have hone := h.one
      rw [hless, hgreater, hequal] at hone
      simp [ExactlyOne, hne] at hone
    · refine search.orderedFilters hat (compareNumbers_eq hm hn h) compare_lt_iff_lt ?_
      rw [compare_eq_iff_eq, toRat_eq_iff hm hn h, Value.number.injEq]
  · rename_i s t
    refine iff_of_true (search.orderedFilters hat (o := compare s t) rfl compare_lt_iff_lt ?_) id
    rw [compare_eq_iff_eq, Value.string.injEq]

/-- What is less than what is less is less. -/
theorem Search.lessThan_trans {stored' middle : Value} {pointer' : String}
    (hat : stored.pointer pointer = some actual) (hat' : stored'.pointer pointer' = some middle)
    (hcomparable : Comparable actual middle) (hcomparable' : Comparable middle expected)
    (hless : search.filters stored pointer middle .lessThan)
    (hless' : search.filters stored' pointer' expected .lessThan) :
    search.filters stored pointer expected .lessThan := by
  simp only [Search.filters, matchesFilter, hat, hat', decide_eq_true_eq] at hless hless' ⊢
  cases actual <;> cases middle <;> try exact hcomparable.elim
  · cases expected <;> try exact hcomparable'.elim
    exact compareNumbers_trans hcomparable.1 hcomparable.2 hcomparable'.2 hless hless'
  · cases expected <;> try exact hcomparable'.elim
    rename_i s t u
    simp only [compareJson, Option.some.injEq, compare_lt_iff_lt] at hless hless' ⊢
    exact hless.trans hless'

/-- **Filters that compare order every pair but one kind.** For two numbers or two strings the
filters say what the exact order says, unless one is an integer and the other the float it is
rounded to; and `$lt` is transitive. -/
theorem filter_comparison_iff (search : Search) :
    (∀ stored pointer actual expected, stored.pointer pointer = some actual →
      Comparable actual expected →
        (OrderedFilters (search.filters stored pointer expected) actual expected ↔
          ¬ CollidingValues actual expected)) ∧
    ∀ stored pointer stored' pointer' actual middle expected,
      stored.pointer pointer = some actual → stored'.pointer pointer' = some middle →
      Comparable actual middle → Comparable middle expected →
      search.filters stored pointer middle .lessThan →
      search.filters stored' pointer' expected .lessThan →
        search.filters stored pointer expected .lessThan :=
  ⟨fun _ _ _ _ => search.orderedFilters_iff,
    fun _ _ _ _ _ _ _ => search.lessThan_trans⟩

end Filters

/-- A retrieval that finds nothing by text. -/
def noTexts : Search := ⟨fun _ _ => false, fun _ _ => false, fun _ _ _ => 0, compareNumbers⟩

/-- A stored value with a number. -/
def numbered (n : Number) : Value := .object [("n", .number n)]

/-- One and the float two are in order for the filters. -/
theorem one_before_two : OrderedFilters
    (noTexts.filters (numbered (.posInt 1)) "/n" (.number (.float 2))) (.number (.posInt 1))
      (.number (.float 2)) := by
  refine ((filter_comparison_iff noTexts).1 _ _ _ _ ?_ ?_).mpr ?_
  · decide +kernel
  · exact ⟨trivial, 2, 0, by norm_num, by norm_num, by norm_num, by norm_num⟩
  · rintro ⟨-, hsame⟩
    exact absurd hsame (by decide +kernel)

/-- **One is at most the float one, and neither less than it nor equal to it.** -/
theorem one_beside_float_one :
    noTexts.filters (numbered (.posInt 1)) "/n" (.number (.float 1)) .lessThanOrEqual = true ∧
    noTexts.filters (numbered (.posInt 1)) "/n" (.number (.float 1)) .lessThan = false ∧
    noTexts.filters (numbered (.posInt 1)) "/n" (.number (.float 1)) .equal = false ∧
    noTexts.filters (numbered (.posInt 1)) "/n" (.number (.float 1)) .greaterThan = false := by
  decide +kernel

/-- The least integer that is not a double is not greater than the double it is rounded to. -/
example : noTexts.filters (numbered (.posInt (2 ^ 53 + 1))) "/n" (.number (.float (2 ^ 53)))
    .greaterThan = false := by
  decide +kernel

end Patchouli
