import Mathlib.Data.List.Dedup
import Mathlib.Logic.Relation
import Mathlib.Logic.Function.Iterate

/-!
# Reachability along a table of edges

`WITH RECURSIVE reachable … UNION …` over an edge table: start from some nodes and follow edges
until nothing new is found. A round adds the targets of the edges that leave the nodes seen so
far. Every round but the last uses up an edge, so as many rounds as there are edges suffice.

## Main results

* `Closure.mem_reach_iff` — the nodes found are the nodes on a path
* `Closure.reach_congr` — only the edges that leave reachable nodes matter
-/

namespace Closure

variable {α : Type*} [DecidableEq α]

/-- One round. -/
def grow (edges : List (α × α)) (seen : List α) : List α :=
  seen ++ ((edges.filter fun e => e.1 ∈ seen ∧ e.2 ∉ seen).map (·.2)).dedup

/-- The nodes reachable from `start`. -/
def reach (edges : List (α × α)) (start : List α) : List α := (grow edges)^[edges.length] start

variable {edges : List (α × α)} {seen start : List α}

theorem mem_grow {x : α} : x ∈ grow edges seen ↔ x ∈ seen ∨ ∃ s ∈ seen, (s, x) ∈ edges := by
  simp only [grow, List.mem_append, List.mem_dedup, List.mem_map, List.mem_filter,
    decide_eq_true_eq, Prod.exists, exists_eq_right]
  constructor
  · rintro (h | ⟨s, hedge, hs, -⟩)
    · exact Or.inl h
    · exact Or.inr ⟨s, hs, hedge⟩
  · rintro (h | ⟨s, hs, hedge⟩)
    · exact Or.inl h
    · by_cases hx : x ∈ seen
      · exact Or.inl hx
      · exact Or.inr ⟨s, hedge, hs, hx⟩

/-- No edge leaves the nodes seen. -/
def Closed (edges : List (α × α)) (seen : List α) : Prop :=
  ∀ e ∈ edges, e.1 ∈ seen → e.2 ∈ seen

theorem grow_of_closed (h : Closed edges seen) : grow edges seen = seen := by
  have hnil : (edges.filter fun e => e.1 ∈ seen ∧ e.2 ∉ seen) = [] := by
    rw [List.filter_eq_nil_iff]
    intro e he hnew
    simp only [decide_eq_true_eq] at hnew
    exact hnew.2 (h e he hnew.1)
  rw [grow, hnil, List.map_nil, List.dedup_nil, List.append_nil]

/-- The edges whose target was not seen yet. -/
def pending (edges : List (α × α)) (seen : List α) : ℕ :=
  (edges.filter fun e => e.2 ∉ seen).length

theorem pending_grow_lt (h : ¬ Closed edges seen) :
    pending edges (grow edges seen) < pending edges seen := by
  simp only [Closed, not_forall] at h
  obtain ⟨e, he, hsource, htarget⟩ := h
  have hsub : (edges.filter fun e => e.2 ∉ grow edges seen).Sublist
      (edges.filter fun e => e.2 ∉ seen) := by
    refine List.monotone_filter_right _ fun d hd => ?_
    simp only [decide_eq_true_eq] at hd ⊢
    exact fun hseen => hd (mem_grow.mpr (Or.inl hseen))
  refine Nat.lt_of_le_of_ne hsub.length_le fun hlen => ?_
  have hmem : e ∈ edges.filter fun e => e.2 ∉ seen := by simpa using ⟨he, htarget⟩
  rw [← hsub.eq_of_length hlen] at hmem
  simp only [List.mem_filter, decide_eq_true_eq] at hmem
  exact hmem.2 (mem_grow.mpr (Or.inr ⟨e.1, hsource, he⟩))

theorem closed_iterate_grow (n : ℕ) (h : pending edges seen ≤ n) :
    Closed edges ((grow edges)^[n] seen) := by
  induction n generalizing seen with
  | zero =>
    intro e he _
    by_contra htarget
    have : e ∈ edges.filter fun e => e.2 ∉ seen := by simpa using ⟨he, htarget⟩
    have := List.length_pos_of_mem this
    simp only [pending] at h
    omega
  | succ n ih =>
    rw [Function.iterate_succ_apply]
    by_cases hclosed : Closed edges seen
    · rw [grow_of_closed hclosed, Function.iterate_fixed (grow_of_closed hclosed)]
      exact hclosed
    · exact ih (by have := pending_grow_lt hclosed; omega)

theorem closed_reach : Closed edges (reach edges start) :=
  closed_iterate_grow edges.length (List.length_filter_le _ _)

theorem subset_iterate_grow (n : ℕ) : start ⊆ (grow edges)^[n] start := by
  induction n generalizing start with
  | zero => exact List.Subset.refl start
  | succ n ih =>
    rw [Function.iterate_succ_apply]
    exact List.Subset.trans (fun x hx => mem_grow.mpr (Or.inl hx)) ih

/-- **What is found is what can be reached.** -/
theorem mem_reach_iff {x : α} :
    x ∈ reach edges start ↔
      ∃ s ∈ start, Relation.ReflTransGen (fun a b => (a, b) ∈ edges) s x := by
  constructor
  · have key : ∀ n : ℕ, x ∈ (grow edges)^[n] start →
        ∃ s ∈ start, Relation.ReflTransGen (fun a b => (a, b) ∈ edges) s x := by
      intro n
      induction n generalizing x with
      | zero => exact fun h => ⟨x, h, .refl⟩
      | succ n ih =>
        rw [Function.iterate_succ_apply', mem_grow]
        rintro (h | ⟨s, hs, hedge⟩)
        · exact ih h
        · obtain ⟨s₀, hs₀, hpath⟩ := ih hs
          exact ⟨s₀, hs₀, hpath.tail hedge⟩
    exact key edges.length
  · rintro ⟨s, hs, hpath⟩
    induction hpath with
    | refl => exact subset_iterate_grow edges.length hs
    | tail _ hedge ih => exact closed_reach _ hedge ih

theorem subset_reach : start ⊆ reach edges start := subset_iterate_grow edges.length

/-- **Only edges out of reachable nodes matter.** -/
theorem reach_congr {edges' : List (α × α)}
    (h : ∀ a ∈ reach edges start, ∀ b, (a, b) ∈ edges ↔ (a, b) ∈ edges') (x : α) :
    x ∈ reach edges start ↔ x ∈ reach edges' start := by
  constructor
  · intro hx
    obtain ⟨s, hs, hpath⟩ := mem_reach_iff.mp hx
    refine mem_reach_iff.mpr ⟨s, hs, ?_⟩
    clear hx
    induction hpath with
    | refl => exact .refl
    | tail hpre hedge ih =>
      exact ih.tail ((h _ (mem_reach_iff.mpr ⟨s, hs, hpre⟩) _).mp hedge)
  · intro hx
    obtain ⟨s, hs, hpath⟩ := mem_reach_iff.mp hx
    clear hx
    induction hpath with
    | refl => exact subset_reach hs
    | tail _ hedge ih => exact closed_reach _ ((h _ ih _).mpr hedge) ih

end Closure
