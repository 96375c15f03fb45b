import Mathlib.Data.Set.Basic

/-!
# Three-way merges of sets

Two sides change a common base. The three-way merge keeps what either side added and what of the
base both sides kept: an element of the base that one side removed stays removed. The union of the
two sides forgets removals.

## Main results

* `ThreeWay.merge_subset_union` — the union never keeps too little
* `ThreeWay.union_eq_merge_iff` — when the union is the merge: the sides removed the same
-/

namespace ThreeWay

variable {α : Type*} {base left right : Set α}

/-- The three-way merge. -/
def merge (base left right : Set α) : Set α :=
  (left \ base) ∪ (right \ base) ∪ (base ∩ left ∩ right)

theorem merge_subset_union : merge base left right ⊆ left ∪ right := by
  rintro v ((⟨hl, -⟩ | ⟨hr, -⟩) | ⟨⟨-, hl⟩, -⟩)
  · exact Or.inl hl
  · exact Or.inr hr
  · exact Or.inl hl

/-- **The union is the merge exactly when the sides removed the same elements of the base.** -/
theorem union_eq_merge_iff (base left right : Set α) :
    left ∪ right = merge base left right ↔ ∀ v ∈ base, v ∈ left ↔ v ∈ right := by
  constructor
  · intro h v hbase
    have kept : v ∈ left ∪ right → v ∈ left ∧ v ∈ right := by
      rw [h]
      rintro ((⟨-, hnot⟩ | ⟨-, hnot⟩) | ⟨⟨-, hl⟩, hr⟩)
      · exact absurd hbase hnot
      · exact absurd hbase hnot
      · exact ⟨hl, hr⟩
    exact ⟨fun hl => (kept (Or.inl hl)).2, fun hr => (kept (Or.inr hr)).1⟩
  · intro h
    refine Set.Subset.antisymm ?_ merge_subset_union
    intro v hv
    by_cases hbase : v ∈ base
    · have hboth : v ∈ left ∧ v ∈ right := by
        rcases hv with hl | hr
        · exact ⟨hl, (h v hbase).mp hl⟩
        · exact ⟨(h v hbase).mpr hr, hr⟩
      exact Or.inr ⟨⟨hbase, hboth.1⟩, hboth.2⟩
    · rcases hv with hl | hr
      · exact Or.inl (Or.inl ⟨hl, hbase⟩)
      · exact Or.inl (Or.inr ⟨hr, hbase⟩)

end ThreeWay
