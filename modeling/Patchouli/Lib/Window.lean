import Mathlib.Algebra.Order.Group.Nat
import Mathlib.Data.List.Perm.Subperm

/-!
# Windows of a log

A log whose keys increase is read window by window: the entries above one position, up to and with
another. Windows that meet make one window, so a reader that goes on from where a window ended reads
the log once, in order and with nothing left out. New entries come above every window there was.

## Main definitions

* `Window.window` — the entries above `lo`, up to `hi`

## Main results

* `Window.window_append`, `Window.window_cons`, `Window.window_split` — windows that meet
* `Window.window_grown`, `Window.window_sublist` — a log that grows, and one that is cut below
-/

namespace Window

variable {α : Type} (key : α → ℕ)

/-- The entries of a log above `lo`, up to `hi`. -/
def window (log : List α) (lo hi : ℕ) : List α :=
  log.filter fun entry => lo < key entry ∧ key entry ≤ hi

variable {key} {log added : List α} {lo mid hi : ℕ} {entry : α}

theorem mem_window :
    entry ∈ window key log lo hi ↔ entry ∈ log ∧ lo < key entry ∧ key entry ≤ hi := by
  simp [window]

@[simp]
theorem window_self : window key log lo lo = [] := by
  refine List.filter_eq_nil_iff.mpr fun entry _ => ?_
  simp only [decide_eq_true_eq]
  omega

theorem filter_window (lo' hi' : ℕ) :
    (window key log lo hi).filter (fun entry => lo' < key entry ∧ key entry ≤ hi') =
      window key log (max lo lo') (min hi hi') := by
  unfold window
  rw [List.filter_filter]
  refine List.filter_congr fun entry _ => ?_
  rw [← Bool.decide_and, decide_eq_decide]
  omega

/-- **Windows that meet make one window.** -/
theorem window_append (h : log.Pairwise (key · < key ·)) (hlo : lo ≤ mid) (hhi : mid ≤ hi) :
    window key log lo mid ++ window key log mid hi = window key log lo hi := by
  induction log with
  | nil => rfl
  | cons entry log ih =>
    obtain ⟨hentry, hlog⟩ := List.pairwise_cons.mp h
    have ih := ih hlog
    simp only [window, List.filter_cons, decide_eq_true_eq] at ih ⊢
    by_cases hmid : key entry ≤ mid
    · rw [if_neg (by omega : ¬ (mid < key entry ∧ key entry ≤ hi))]
      by_cases hin : lo < key entry
      · rw [if_pos ⟨hin, hmid⟩, if_pos ⟨hin, by omega⟩, List.cons_append, ih]
      · rw [if_neg (by omega), if_neg (by omega), ih]
    · have hnone : log.filter (fun entry => lo < key entry ∧ key entry ≤ mid) = [] := by
        refine List.filter_eq_nil_iff.mpr fun other hother => ?_
        have := hentry other hother
        simp only [decide_eq_true_eq]
        omega
      rw [hnone, List.nil_append] at ih
      rw [if_neg (by omega), hnone, List.nil_append, ih]
      refine if_congr ?_ rfl rfl
      omega

/-- The first entry of a window, and the window after it. -/
theorem window_cons {rest : List α} (h : log.Pairwise (key · < key ·))
    (heq : window key log lo hi = entry :: rest) :
    lo < key entry ∧ key entry ≤ hi ∧ window key log lo (key entry) = [entry] ∧
      window key log (key entry) hi = rest := by
  have hmem : entry ∈ window key log lo hi := by simp [heq]
  obtain ⟨-, hlo, hhi⟩ := mem_window.mp hmem
  have hsorted : (entry :: rest).Pairwise (key · < key ·) := heq ▸ h.filter _
  obtain ⟨hrest, -⟩ := List.pairwise_cons.mp hsorted
  have hfirst : window key log lo (key entry) = [entry] := by
    rw [← max_self lo, ← min_eq_right hhi, ← filter_window, heq,
      List.filter_cons_of_pos (by simp [hlo]), List.filter_eq_nil_iff.mpr]
    intro other hother
    have := hrest other hother
    simp only [decide_eq_true_eq]
    omega
  have hmeet : window key log lo (key entry) ++ window key log (key entry) hi = _ :=
    window_append h hlo.le hhi
  rw [hfirst, heq] at hmeet
  exact ⟨hlo, hhi, hfirst, List.cons_injective hmeet⟩

/-- **The front of a window is a window**, and what is left is the next one. -/
theorem window_split {front back : List α} (h : log.Pairwise (key · < key ·)) (hle : lo ≤ hi)
    (heq : window key log lo hi = front ++ back) :
    ∃ mid, lo ≤ mid ∧ mid ≤ hi ∧ window key log lo mid = front ∧ window key log mid hi = back := by
  induction front generalizing lo with
  | nil => exact ⟨lo, le_rfl, hle, window_self, heq⟩
  | cons entry front ih =>
    obtain ⟨hlo, hhi, hfirst, hrest⟩ := window_cons h heq
    obtain ⟨mid, hmid, hmidhi, hfront, hback⟩ := ih hhi hrest
    refine ⟨mid, hlo.le.trans hmid, hmidhi, ?_, hback⟩
    rw [← window_append h hlo.le hmid, hfirst, hfront]
    rfl

/-- A log grows above its windows. -/
theorem window_grown (hadded : ∀ entry ∈ added, hi < key entry) :
    window key (log ++ added) lo hi = window key log lo hi := by
  have hnone : added.filter (fun entry => lo < key entry ∧ key entry ≤ hi) = [] := by
    refine List.filter_eq_nil_iff.mpr fun entry hentry => ?_
    have := hadded entry hentry
    simp only [decide_eq_true_eq]
    omega
  rw [window, List.filter_append, hnone, List.append_nil]
  rfl

/-- A log that lost no entry of a window still has that window. -/
theorem window_sublist {kept : List α} (h : log.Pairwise (key · < key ·)) (hsub : kept.Sublist log)
    (hkept : ∀ entry ∈ log, lo < key entry → key entry ≤ hi → entry ∈ kept) :
    window key kept lo hi = window key log lo hi := by
  have hnodup : (window key log lo hi).Nodup := by
    refine (h.filter _).imp fun {a b} hlt heq => ?_
    rw [heq] at hlt
    exact lt_irrefl _ hlt
  have hsubset : window key log lo hi ⊆ window key kept lo hi := by
    intro entry hentry
    obtain ⟨hmem, hlo, hhi⟩ := mem_window.mp hentry
    exact mem_window.mpr ⟨hkept entry hmem hlo hhi, hlo, hhi⟩
  exact (hsub.filter _).eq_of_length_le (hnodup.subperm hsubset).length_le

end Window
