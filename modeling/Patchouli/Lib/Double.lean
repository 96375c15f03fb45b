import Mathlib.Algebra.Order.Field.Basic
import Mathlib.Algebra.Order.Ring.Abs
import Mathlib.Data.Rat.Cast.Order
import Mathlib.Tactic.Linarith
import Mathlib.Tactic.NormNum
import Mathlib.Tactic.Positivity
import Mathlib.Tactic.Ring

/-!
# Integers among the doubles

A finite binary64 number is the rational it denotes. What a program sees of the conversion of an
integer is that it answers a nearest double, and everything about comparing integers with doubles
follows from that alone: a nearest double never passes over another double (`Nearest.le_of_le`), so
it compares with every double other than itself as the integer does, and the conversion is monotone
(`Nearest.mono`).

`roundNat` is the conversion itself, to nearest and from a tie to even.

## Main definitions

* `Double.IsDouble`, `Double.Nearest`
* `Double.roundNat`, `Double.roundInt`

## Main results

* `Double.Nearest.le_of_le`, `Double.Nearest.mono`
* `Double.roundInt_nearest`
-/

namespace Double

/-- A rational that a finite double denotes. -/
def IsDouble (x : ℚ) : Prop :=
  ∃ m e : ℤ, |m| < 2 ^ 53 ∧ -1074 ≤ e ∧ e ≤ 971 ∧ x = m * (2 : ℚ) ^ e

/-- No double is closer to `z` than `r`. -/
structure Nearest (z r : ℚ) : Prop where
  isDouble : IsDouble r
  nearest : ∀ x, IsDouble x → |z - r| ≤ |z - x|

/-- The nearest double, from a tie the one with an even significand. -/
def roundNat (n : ℕ) : ℕ :=
  let unit := 2 ^ (n.log2 - 52)
  let low := n / unit
  if 2 * (n % unit) < unit ∨ (2 * (n % unit) = unit ∧ low % 2 = 0) then low * unit
  else (low + 1) * unit

/-- The nearest double of an integer. -/
def roundInt (z : ℤ) : ℤ := z.sign * roundNat z.natAbs

theorem IsDouble.neg {x : ℚ} (h : IsDouble x) : IsDouble (-x) := by
  obtain ⟨m, e, hm, hlow, hhigh, rfl⟩ := h
  exact ⟨-m, e, by rwa [abs_neg], hlow, hhigh, by push_cast; ring⟩

/-- A double is the nearest to itself. -/
theorem IsDouble.nearest {x : ℚ} (h : IsDouble x) : Nearest x x := by
  refine ⟨h, fun y _ => ?_⟩
  rw [sub_self, abs_zero]
  exact abs_nonneg _

/-! ### Nearest doubles -/

section Nearest

variable {y z r s x : ℚ}

/-- **A nearest double passes over no double.** -/
theorem Nearest.le_of_le (h : Nearest z r) (hx : IsDouble x) (hle : x ≤ z) : x ≤ r := by
  by_contra hlt
  rw [not_le] at hlt
  have hcloser := h.nearest x hx
  rw [abs_of_nonneg (by linarith), abs_of_nonneg (by linarith)] at hcloser
  linarith

theorem Nearest.ge_of_ge (h : Nearest z r) (hx : IsDouble x) (hle : z ≤ x) : r ≤ x := by
  by_contra hlt
  rw [not_le] at hlt
  have hcloser := h.nearest x hx
  rw [abs_of_nonpos (by linarith), abs_of_nonpos (by linarith)] at hcloser
  linarith

/-- A nearest double is on the side of every other double on which the number is. -/
theorem Nearest.lt_iff (h : Nearest z r) (hx : IsDouble x) (hne : r ≠ x) : r < x ↔ z < x := by
  constructor
  · intro hlt
    by_contra hle
    exact absurd (h.le_of_le hx (not_lt.mp hle)) (not_le.mpr hlt)
  · exact fun hlt => lt_of_le_of_ne (h.ge_of_ge hx hlt.le) hne

theorem Nearest.gt_iff (h : Nearest z r) (hx : IsDouble x) (hne : r ≠ x) : x < r ↔ x < z := by
  constructor
  · intro hlt
    by_contra hle
    exact absurd (h.ge_of_ge hx (not_lt.mp hle)) (not_le.mpr hlt)
  · exact fun hlt => lt_of_le_of_ne (h.le_of_le hx hlt.le) hne.symm

/-- The only double nearest to a double is the double itself. -/
theorem Nearest.eq_of_isDouble (h : Nearest z r) (hz : IsDouble z) : r = z := by
  have hcloser := h.nearest z hz
  rw [sub_self, abs_zero] at hcloser
  exact (sub_eq_zero.mp (abs_nonpos_iff.mp hcloser)).symm

/-- **Conversion is monotone.** -/
theorem Nearest.mono (hy : Nearest y r) (hz : Nearest z s) (hlt : y < z) : r ≤ s := by
  by_contra hsr
  rw [not_le] at hsr
  have hry : ¬ y ≤ s := fun hle => absurd (hy.ge_of_ge hz.isDouble hle) (by linarith)
  have hzs : ¬ r ≤ z := fun hle => absurd (hz.le_of_le hy.isDouble hle) (by linarith)
  rw [not_le] at hry hzs
  have hyr := hy.nearest s hz.isDouble
  have hzr := hz.nearest r hy.isDouble
  rw [abs_of_nonpos (by linarith), abs_of_nonneg (by linarith)] at hyr
  rw [abs_of_nonneg (by linarith), abs_of_nonpos (by linarith)] at hzr
  linarith

theorem Nearest.neg (h : Nearest z r) : Nearest (-z) (-r) := by
  refine ⟨h.isDouble.neg, fun x hx => ?_⟩
  have hcloser := h.nearest (-x) hx.neg
  rwa [show -z - -r = -(z - r) by ring, show -z - x = -(z - -x) by ring, abs_neg, abs_neg]

end Nearest

/-! ### Rounding a natural number -/

/-- Between two neighbouring multiples of the unit there is no double. -/
theorem IsDouble.gap {x : ℚ} (hx : IsDouble x) {low k : ℕ} (hlow : 2 ^ 52 ≤ low)
    (hlt : (low * 2 ^ k : ℚ) < x) : ((low + 1) * 2 ^ k : ℚ) ≤ x := by
  obtain ⟨m, e, hm, -, -, rfl⟩ := hx
  have hlow' : (2 ^ 52 : ℚ) ≤ low := by exact_mod_cast hlow
  by_cases hke : (k : ℤ) ≤ e
  · obtain ⟨d, hd⟩ := Int.le.dest hke
    have hsplit : (m : ℚ) * 2 ^ e = (m * 2 ^ d : ℤ) * 2 ^ k := by
      rw [← hd, zpow_add₀ (by norm_num), zpow_natCast, zpow_natCast]
      push_cast
      ring
    rw [hsplit] at hlt ⊢
    have hint : (low : ℤ) < m * 2 ^ d := by
      have := lt_of_mul_lt_mul_right hlt (by positivity)
      exact_mod_cast this
    have : ((low : ℤ) + 1 : ℤ) ≤ m * 2 ^ d := hint
    refine mul_le_mul_of_nonneg_right ?_ (by positivity)
    exact_mod_cast this
  · exfalso
    have hpow : (2 : ℚ) ^ e * 2 ≤ 2 ^ k := by
      rw [← zpow_natCast, ← zpow_add_one₀ (by norm_num)]
      exact zpow_le_zpow_right₀ (by norm_num) (by omega)
    have hm' : (m : ℚ) < 2 ^ 53 := by exact_mod_cast (abs_lt.mp hm).2
    have hpos : (0 : ℚ) < 2 ^ e := zpow_pos (by norm_num) e
    have h1 : (m : ℚ) * 2 ^ e ≤ 2 ^ 53 * 2 ^ e := mul_le_mul_of_nonneg_right hm'.le hpos.le
    have h2 : (2 : ℚ) ^ 53 * 2 ^ e ≤ 2 ^ 52 * 2 ^ k := by nlinarith
    have hunit : (0 : ℚ) ≤ 2 ^ k := by positivity
    have h3 : (2 : ℚ) ^ 52 * 2 ^ k ≤ low * 2 ^ k := mul_le_mul_of_nonneg_right hlow' hunit
    linarith

/-- A short multiple of a unit is a double. -/
theorem isDouble_mul_pow {low k : ℕ} (hlow : low ≤ 2 ^ 53) (hk : k ≤ 900) :
    IsDouble ((low * 2 ^ k : ℕ) : ℚ) := by
  rcases hlow.lt_or_eq with hlt | rfl
  · refine ⟨low, k, ?_, by omega, by omega, by push_cast; rw [zpow_natCast]⟩
    rw [abs_of_nonneg (by positivity)]
    exact_mod_cast hlt
  · refine ⟨2 ^ 52, k + 1, by norm_num, by omega, by omega, ?_⟩
    rw [show (k : ℤ) + 1 = ((k + 1 : ℕ) : ℤ) by push_cast; rfl, zpow_natCast]
    push_cast
    ring

/-- **Rounding answers a nearest double.** -/
theorem roundNat_nearest {n : ℕ} (hn : n < 2 ^ 64) : Nearest n (roundNat n) := by
  have hlog : n.log2 ≤ 63 := by
    by_cases h0 : n = 0
    · subst h0; decide
    · have := (Nat.log2_lt h0).mpr hn
      omega
  generalize hk : n.log2 - 52 = k at *
  have hunit : 0 < 2 ^ k := by positivity
  have hdiv : n / 2 ^ k * 2 ^ k + n % 2 ^ k = n := by
    rw [Nat.mul_comm]
    exact Nat.div_add_mod n (2 ^ k)
  have hmod : n % 2 ^ k < 2 ^ k := Nat.mod_lt n hunit
  have hsmall : n / 2 ^ k < 2 ^ 53 := by
    rw [Nat.div_lt_iff_lt_mul hunit, ← pow_add]
    refine lt_of_lt_of_le Nat.lt_log2_self ?_
    exact Nat.pow_le_pow_right (by norm_num) (by omega)
  have hlarge : k ≠ 0 → 2 ^ 52 ≤ n / 2 ^ k := by
    intro hk0
    rw [Nat.le_div_iff_mul_le hunit, ← pow_add]
    have hpos : n ≠ 0 := by rintro rfl; simp at hk; omega
    exact le_trans (Nat.pow_le_pow_right (by norm_num) (by omega)) (Nat.log2_self_le hpos)
  have hround : roundNat n =
      if 2 * (n % 2 ^ k) < 2 ^ k ∨ (2 * (n % 2 ^ k) = 2 ^ k ∧ n / 2 ^ k % 2 = 0)
      then n / 2 ^ k * 2 ^ k else (n / 2 ^ k + 1) * 2 ^ k := by
    rw [roundNat, hk]
  generalize n / 2 ^ k = low at *
  generalize n % 2 ^ k = rem at *
  have hcast : (low * 2 ^ k + rem : ℚ) = n := by exact_mod_cast hdiv
  -- A double below `n` is at most the lower multiple, one above it at least the upper.
  have hsides : k ≠ 0 → ∀ x, IsDouble x → x ≤ low * 2 ^ k ∨ ((low + 1) * 2 ^ k : ℚ) ≤ x :=
    fun hk0 x hx => (le_or_gt x (low * 2 ^ k)).imp_right (hx.gap (hlarge hk0))
  have hexact : k = 0 → rem = 0 := by
    rintro rfl
    simpa using hmod
  split at hround
  · rename_i hdown
    rw [hround]
    refine ⟨isDouble_mul_pow hsmall.le (by omega), fun x hx => ?_⟩
    have hhalf : (2 * rem : ℚ) ≤ 2 ^ k := by
      have : 2 * rem ≤ 2 ^ k := by omega
      exact_mod_cast this
    have hr0 : (0 : ℚ) ≤ rem := by positivity
    push_cast
    rw [← hcast, show (low * 2 ^ k + rem - low * 2 ^ k : ℚ) = rem by ring, abs_of_nonneg hr0]
    by_cases hk0 : k = 0
    · rw [hexact hk0]
      simp
    · rcases hsides hk0 x hx with hle | hge
      · rw [le_abs]; left; linarith
      · rw [le_abs]; right; linarith
  · rename_i hup
    rw [hround]
    have hk0 : k ≠ 0 := by
      intro h0
      have := hexact h0
      subst h0
      omega
    refine ⟨isDouble_mul_pow hsmall (by omega), fun x hx => ?_⟩
    have hhalf : (2 ^ k : ℚ) ≤ 2 * rem := by
      have : 2 ^ k ≤ 2 * rem := by omega
      exact_mod_cast this
    have hr1 : (rem : ℚ) ≤ 2 ^ k := by exact_mod_cast hmod.le
    push_cast
    rw [← hcast, show (low * 2 ^ k + rem - (low + 1) * 2 ^ k : ℚ) = -(2 ^ k - rem) by ring, abs_neg,
      abs_of_nonneg (by linarith)]
    rcases hsides hk0 x hx with hle | hge
    · rw [le_abs]; left; linarith
    · rw [le_abs]; right; linarith

/-- **An integer is converted to a nearest double.** -/
theorem roundInt_nearest {z : ℤ} (hz : z.natAbs < 2 ^ 64) : Nearest z (roundInt z) := by
  have h := roundNat_nearest hz
  rcases lt_trichotomy z 0 with hneg | rfl | hpos
  · have habs : (z.natAbs : ℚ) = -z := by
      rw [← Int.cast_natCast, Int.natCast_natAbs, abs_of_neg hneg]
      push_cast
      rfl
    rw [habs] at h
    have := h.neg
    rw [neg_neg] at this
    rw [roundInt, Int.sign_eq_neg_one_of_neg hneg]
    simpa using this
  · simpa [roundInt, roundNat] using h
  · have habs : (z.natAbs : ℚ) = z := by
      rw [← Int.cast_natCast, Int.natCast_natAbs, abs_of_pos hpos]
    rw [habs] at h
    rw [roundInt, Int.sign_eq_one_of_pos hpos]
    simpa using h

end Double
