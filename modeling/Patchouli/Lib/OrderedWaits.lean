import Mathlib.Data.Finset.Max
import Mathlib.Logic.Relation

/-!
# Ordered acquisition

Tasks hold keys and wait for keys. If a task only ever waits for a key above all the keys it holds,
no tasks wait for each other in a circle, and among finitely many waiting tasks the one with the
greatest key waits for no task that waits itself.

## Main results

* `OrderedWaits.acyclic`
* `OrderedWaits.exists_unblocked`
-/

namespace OrderedWaits

open Relation

variable {τ κ : Type*} {waits holds : τ → κ → Prop}

/-- A task waits for a key that another task holds. -/
def WaitsFor (waits holds : τ → κ → Prop) (t t' : τ) : Prop :=
  ∃ k, waits t k ∧ holds t' k

/-- Along a chain of waiting tasks the keys increase. -/
theorem lt_of_waitsFor [Preorder κ] (hordered : ∀ t k k', waits t k → holds t k' → k' < k)
    {t t' : τ} (h : TransGen (WaitsFor waits holds) t t') {k' : κ} (hwaits : waits t' k') :
    ∃ k, waits t k ∧ k < k' := by
  induction h generalizing k' with
  | single h =>
    obtain ⟨k, hk, hheld⟩ := h
    exact ⟨k, hk, hordered _ _ _ hwaits hheld⟩
  | tail _ h ih =>
    obtain ⟨mid, hmid, hheld⟩ := h
    obtain ⟨k, hk, hlt⟩ := ih hmid
    exact ⟨k, hk, hlt.trans (hordered _ _ _ hwaits hheld)⟩

/-- **No circle of waiting tasks.** -/
theorem acyclic [Preorder κ] (hordered : ∀ t k k', waits t k → holds t k' → k' < k)
    (hone : ∀ t k k', waits t k → waits t k' → k = k') (t : τ) :
    ¬ TransGen (WaitsFor waits holds) t t := by
  intro h
  obtain ⟨_, ⟨k, hk, -⟩, -⟩ := TransGen.head'_iff.mp h
  obtain ⟨k', hk', hlt⟩ := lt_of_waitsFor hordered h hk
  exact (hone t k k' hk hk' ▸ hlt).false

/-- **Somebody is not blocked.** Among waiting tasks one waits for no task that waits. -/
theorem exists_unblocked [LinearOrder κ] (hordered : ∀ t k k', waits t k → holds t k' → k' < k)
    (tasks : Finset τ) (key : τ → κ)
    (hall : ∀ t k, waits t k → t ∈ tasks ∧ k = key t) (hne : tasks.Nonempty) :
    ∃ t ∈ tasks, ∀ t', holds t' (key t) → ∀ k, ¬ waits t' k := by
  obtain ⟨t, ht, hmax⟩ := tasks.exists_max_image key hne
  refine ⟨t, ht, fun t' hholds k hwaits => ?_⟩
  obtain ⟨ht', rfl⟩ := hall t' k hwaits
  exact (hordered t' _ _ hwaits hholds).not_ge (hmax t' ht')

end OrderedWaits
