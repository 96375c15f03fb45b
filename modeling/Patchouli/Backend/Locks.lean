import Patchouli.Lib.OrderedWaits
import Patchouli.Lib.Table
import Patchouli.Model

/-!
# Execution locks

Requests that share a linearization key, a commit ordering key or an idempotency key run one after
the other: each takes the mutexes of its keys before it starts. The mutexes live in a registry that
holds them weakly, so that a mutex nobody uses goes away; dead entries are pruned by the next task
that enters the registry.

A task is a call of `acquire_many` and what becomes of its guards. The registry has a mutex of its
own, under which a task prunes the entries one by one, then looks its keys up one by one; other tasks
lock, unlock and are cancelled in between. A reference to a mutex is counted until the task that
holds it drops it, after it has unlocked the mutex. Who gets a mutex that becomes free is left open.

## Main definitions

* `ExecutionLocks`, `LockEvent`, `ExecutionLocks.step`
* `ExecutionLocks.Inv` — what every interleaving keeps

## Main results

* `execution_locks_exclude`
-/

namespace Patchouli

open Relation

/-- A mutex and the key it was created for: a strong reference in a task, a weak one in the
registry. -/
structure KeyLock where
  key : String
  mutex : ℕ
  deriving DecidableEq

/-- Where a task is in `acquire_many`, with the keys it has not looked up. -/
inductive LockStage where
  /-- It waits for the mutex of the registry. -/
  | entering (keys : List String)
  /-- It is inside `retain`, with the entries that are not checked. -/
  | pruning (unchecked : List KeyLock) (keys : List String)
  /-- It looks its keys up. -/
  | looking (keys : List String)
  /-- It has found no mutex for a key. -/
  | inserting (key : String) (keys : List String)
  /-- It locks what it has found, first to last, and then holds it. -/
  | locking
  /-- It has finished or was cancelled, and drops what it has. -/
  | dropping

namespace LockStage

/-- The task holds the mutex of the registry. -/
def Inside : LockStage → Prop
  | .pruning _ _ | .looking _ | .inserting _ _ => True
  | .entering _ | .locking | .dropping => False

instance (stage : LockStage) : Decidable stage.Inside := by
  cases stage <;> unfold Inside <;> infer_instance

/-- The keys a task has not looked up. -/
def keys : LockStage → List String
  | .entering keys | .pruning _ keys | .looking keys => keys
  | .inserting key keys => key :: keys
  | .locking | .dropping => []

end LockStage

structure LockTask where
  stage : LockStage
  locks : List KeyLock
  guards : List KeyLock

/-- The strong references of a task: mutexes it has not locked, and guards. -/
def LockTask.references (task : LockTask) : List KeyLock := task.guards ++ task.locks

/-- `ExecutionLocks`, the mutexes created so far, and the tasks that use them. -/
structure ExecutionLocks where
  byKey : List KeyLock
  created : ℕ
  tasks : List LockTask

/-- The keys of `acquire_many`, in the order of its `BTreeSet`. -/
def acquireKeys (selections : List PolicySelection) (mutation : Bool) : List String :=
  Table.sorted (selections.flatMap fun selection =>
    selection.consistency.linearizationKey.toList ++
      if mutation then
        selection.consistency.commitOrderingKey.toList ++ selection.idempotencyKey.toList
      else []).dedup

/-- What can happen next. -/
inductive LockEvent where
  | call (selections : List PolicySelection) (mutation : Bool)
  | enter (task : ℕ)
  | prune (task : ℕ)
  | look (task : ℕ)
  | insert (task : ℕ)
  | lock (task : ℕ)
  | drop (task : ℕ)
  | unlock (task : ℕ) (guard : KeyLock)
  | release (task : ℕ) (lock : KeyLock)

namespace ExecutionLocks

/-- Nobody has called `acquire_many`. -/
def empty : ExecutionLocks := ⟨[], 0, []⟩

variable (s : ExecutionLocks)

/-- The strong count of a mutex is not zero. -/
def Alive (mutex : ℕ) : Prop :=
  ∃ task ∈ s.tasks, ∃ lock ∈ task.references, lock.mutex = mutex

instance (mutex : ℕ) : Decidable (s.Alive mutex) :=
  inferInstanceAs (Decidable (∃ task ∈ s.tasks, ∃ lock ∈ task.references, lock.mutex = mutex))

/-- A mutex is locked. -/
def Locked (mutex : ℕ) : Prop :=
  ∃ task ∈ s.tasks, ∃ guard ∈ task.guards, guard.mutex = mutex

instance (mutex : ℕ) : Decidable (s.Locked mutex) :=
  inferInstanceAs (Decidable (∃ task ∈ s.tasks, ∃ guard ∈ task.guards, guard.mutex = mutex))

/-- `known.get(&key).and_then(Weak::upgrade)`. -/
def upgrade (key : String) : Option KeyLock :=
  s.byKey.find? fun entry => entry.key = key ∧ s.Alive entry.mutex

/-- A task goes on. -/
def put (i : ℕ) (task : LockTask) : ExecutionLocks := { s with tasks := s.tasks.set i task }

/-- The next entry of `known.retain(|_, lock| lock.strong_count() > 0)`. -/
def pruneEntry (entry : KeyLock) : ExecutionLocks :=
  if s.Alive entry.mutex then s else { s with byKey := s.byKey.filter (· ≠ entry) }

/-- `known.insert(key, Arc::downgrade(&lock))` with a new mutex. -/
def insertKey (key : String) : ExecutionLocks :=
  { s with
    byKey := s.byKey.filter (·.key ≠ key) ++ [⟨key, s.created⟩]
    created := s.created + 1 }

/-- The step of a task, if it can make it. -/
def advance (event : LockEvent) (i : ℕ) (task : LockTask) : ExecutionLocks :=
  match event, task.stage with
  | .enter _, .entering keys =>
    if ∃ other ∈ s.tasks, other.stage.Inside then s
    else s.put i { task with stage := .pruning s.byKey keys }
  | .prune _, .pruning (entry :: unchecked) keys =>
    (s.pruneEntry entry).put i { task with stage := .pruning unchecked keys }
  | .prune _, .pruning [] keys => s.put i { task with stage := .looking keys }
  | .look _, .looking (key :: keys) =>
    match s.upgrade key with
    | some lock => s.put i { task with stage := .looking keys, locks := task.locks ++ [lock] }
    | none => s.put i { task with stage := .inserting key keys }
  | .look _, .looking [] => s.put i { task with stage := .locking }
  | .insert _, .inserting key keys =>
    (s.insertKey key).put i
      { task with stage := .looking keys, locks := task.locks ++ [⟨key, s.created⟩] }
  | .lock _, .locking =>
    match task.locks with
    | [] => s
    | lock :: locks =>
      if s.Locked lock.mutex then s
      else s.put i { task with locks, guards := task.guards ++ [lock] }
  | .drop _, .entering _ => s.put i { task with stage := .dropping }
  | .drop _, .locking => s.put i { task with stage := .dropping }
  | .unlock _ guard, .dropping =>
    if guard ∈ task.guards then
      s.put i { task with guards := task.guards.erase guard, locks := task.locks ++ [guard] }
    else s
  | .release _ lock, .dropping => s.put i { task with locks := task.locks.erase lock }
  | _, _ => s

/-- One event. -/
def step (event : LockEvent) : ExecutionLocks :=
  match event with
  | .call selections mutation =>
    { s with tasks := s.tasks ++ [⟨.entering (acquireKeys selections mutation), [], []⟩] }
  | .enter i | .prune i | .look i | .insert i | .lock i | .drop i | .unlock i _ | .release i _ =>
    match s.tasks[i]? with
    | some task => s.advance event i task
    | none => s

/-- A task waits for the mutex of a key. -/
def Waits (i : ℕ) (key : String) : Prop :=
  ∃ task lock, s.tasks[i]? = some task ∧ task.stage = .locking ∧ task.locks.head? = some lock ∧
    lock.key = key

/-- A task holds the guard of a key. -/
def Holds (i : ℕ) (key : String) : Prop :=
  ∃ task guard, s.tasks[i]? = some task ∧ guard ∈ task.guards ∧ guard.key = key

end ExecutionLocks

/-- The states that calls of `acquire_many` reach, in any interleaving. -/
inductive LocksReachable : ExecutionLocks → Prop
  | empty : LocksReachable .empty
  | step {s : ExecutionLocks} (event : LockEvent) (h : LocksReachable s) :
      LocksReachable (s.step event)

namespace ExecutionLocks

/-! ### What every interleaving keeps -/

/-- What every interleaving keeps. -/
structure Inv (s : ExecutionLocks) : Prop where
  keys : (s.byKey.map (·.key)).Nodup
  mutexes : (s.byKey.map (·.mutex)).Nodup
  created : ∀ entry ∈ s.byKey, entry.mutex < s.created
  /-- A live mutex is the one of its key in the registry. -/
  known : ∀ task ∈ s.tasks, ∀ lock ∈ task.references, lock ∈ s.byKey
  /-- The registry has one user. -/
  inside : ∀ (i j : ℕ) t t', s.tasks[i]? = some t → s.tasks[j]? = some t' → t.stage.Inside →
    t'.stage.Inside → i = j
  /-- A key without a mutex stays without one until its task inserts it. -/
  missing : ∀ task ∈ s.tasks, ∀ key keys, task.stage = .inserting key keys →
    ∀ other ∈ s.tasks, ∀ lock ∈ other.references, lock.key ≠ key
  /-- A mutex has one guard. -/
  guards : ∀ (i j : ℕ) t t', s.tasks[i]? = some t → s.tasks[j]? = some t' → ∀ g ∈ t.guards,
    ∀ g' ∈ t'.guards, g.mutex = g'.mutex → i = j
  /-- A task takes its keys in their order. -/
  ordered : ∀ task ∈ s.tasks, task.stage ≠ .dropping →
    (task.references.map (·.key) ++ task.stage.keys).Pairwise (· < ·)

variable {s : ExecutionLocks} {i : ℕ} {task task' : LockTask}

theorem acquireKeys_sorted (selections : List PolicySelection) (mutation : Bool) :
    (acquireKeys selections mutation).Pairwise (· < ·) := by
  have hle := List.pairwise_insertionSort (α := String) (· ≤ ·)
  have hnodup : (acquireKeys selections mutation).Nodup := Table.sorted_nodup (List.nodup_dedup _)
  exact (List.Pairwise.and (hle _) hnodup).imp fun h => lt_of_le_of_ne h.1 h.2

theorem mem_put {other : LockTask} (h : other ∈ (s.put i task').tasks) :
    other ∈ s.tasks ∨ other = task' :=
  List.mem_or_eq_of_mem_set h

theorem getElem?_put {j : ℕ} {t : LockTask} (h : (s.put i task').tasks[j]? = some t) :
    (j = i ∧ t = task') ∨ (j ≠ i ∧ s.tasks[j]? = some t) := by
  simp only [put, List.getElem?_set] at h
  split at h
  · rename_i hij
    split at h
    · exact Or.inl ⟨hij.symm, (Option.some.inj h).symm⟩
    · cases h
  · rename_i hij
    exact Or.inr ⟨fun hji => hij hji.symm, h⟩

/-- **What a task may do** to what it holds. -/
theorem Inv.put (inv : s.Inv) (hi : s.tasks[i]? = some task)
    (hreferences : ∀ lock ∈ task'.references,
      lock ∈ task.references ∨ task.stage.Inside ∧ lock ∈ s.byKey)
    (hinside : task'.stage.Inside → task.stage.Inside ∨ ∀ other ∈ s.tasks, ¬ other.stage.Inside)
    (hinserting : ∀ key keys, task'.stage = .inserting key keys →
      (∀ other ∈ s.tasks, ∀ lock ∈ other.references, lock.key ≠ key) ∧
        task'.references ⊆ task.references)
    (hguards : ∀ g ∈ task'.guards, g ∈ task.guards ∨ ¬ s.Locked g.mutex)
    (hordered : task'.stage ≠ .dropping →
      (task'.references.map (·.key) ++ task'.stage.keys).Pairwise (· < ·)) :
    (s.put i task').Inv := by
  have hmem : task ∈ s.tasks := List.mem_of_getElem? hi
  refine ⟨inv.keys, inv.mutexes, inv.created, fun other hother lock hlock => ?_, ?_, ?_, ?_, ?_⟩
  · rcases mem_put hother with hold | rfl
    · exact inv.known other hold lock hlock
    · exact (hreferences lock hlock).elim (inv.known task hmem lock) And.right
  · intro j k t t' hj hk hin hin'
    rcases getElem?_put hj with ⟨rfl, rfl⟩ | ⟨-, hold⟩ <;>
      rcases getElem?_put hk with ⟨rfl, rfl⟩ | ⟨-, hold'⟩
    · rfl
    · exact (hinside hin).elim (fun h => inv.inside _ _ _ _ hi hold' h hin')
        fun h => absurd hin' (h _ (List.mem_of_getElem? hold'))
    · exact (hinside hin').elim (fun h => inv.inside _ _ _ _ hold hi hin h)
        fun h => absurd hin (h _ (List.mem_of_getElem? hold))
    · exact inv.inside _ _ _ _ hold hold' hin hin'
  · intro t ht key keys hstage other hother lock hlock
    obtain ⟨j, hj⟩ := List.mem_iff_getElem?.mp ht
    rcases getElem?_put hj with ⟨rfl, rfl⟩ | ⟨hne, hsame⟩
    · obtain ⟨hall, hsub⟩ := hinserting key keys hstage
      rcases mem_put hother with hold | rfl
      · exact hall other hold lock hlock
      · exact hall task hmem lock (hsub hlock)
    · have hmissing := inv.missing t (List.mem_of_getElem? hsame) key keys hstage
      rcases mem_put hother with hold | rfl
      · exact hmissing other hold lock hlock
      · rcases hreferences lock hlock with hold | ⟨hin, -⟩
        · exact hmissing task hmem lock hold
        · exact absurd (inv.inside _ _ _ _ hsame hi (by rw [hstage]; trivial) hin) hne
  · intro j k t t' hj hk g hg g' hg' hsame
    have hfree : ∀ {l : ℕ} {other : LockTask} {x y : KeyLock}, s.tasks[l]? = some other →
        x ∈ task'.guards → y ∈ other.guards → x.mutex = y.mutex → l = i := by
      intro l other x y hl hx hy hxy
      rcases hguards x hx with hold | hunlocked
      · exact (inv.guards _ _ _ _ hi hl x hold y hy hxy).symm
      · exact absurd ⟨other, List.mem_of_getElem? hl, y, hy, hxy.symm⟩ hunlocked
    rcases getElem?_put hj with ⟨rfl, rfl⟩ | ⟨-, hold⟩ <;>
      rcases getElem?_put hk with ⟨rfl, rfl⟩ | ⟨-, hold'⟩
    · rfl
    · exact (hfree hold' hg hg' hsame).symm
    · exact hfree hold hg' hg hsame.symm
    · exact inv.guards _ _ _ _ hold hold' g hg g' hg' hsame
  · intro other hother hstage
    rcases mem_put hother with hold | rfl
    · exact inv.ordered other hold hstage
    · exact hordered hstage

/-- Pruning removes no mutex that is in use. -/
theorem Inv.pruneEntry (inv : s.Inv) (entry : KeyLock) : (s.pruneEntry entry).Inv := by
  unfold ExecutionLocks.pruneEntry
  split
  · exact inv
  · rename_i hdead
    have hsub : List.Sublist (s.byKey.filter (· ≠ entry)) s.byKey := List.filter_sublist
    refine ⟨inv.keys.sublist (hsub.map _), inv.mutexes.sublist (hsub.map _),
      fun e he => inv.created e (hsub.subset he), fun task htask lock hlock => ?_, inv.inside,
      inv.missing, inv.guards, inv.ordered⟩
    refine List.mem_filter.mpr ⟨inv.known task htask lock hlock, ?_⟩
    simp only [ne_eq, decide_eq_true_eq]
    rintro rfl
    exact hdead ⟨task, htask, lock, hlock, rfl⟩

/-- A new mutex, for a key that nobody has one for. -/
theorem Inv.insertKey (inv : s.Inv) {key : String}
    (hmissing : ∀ task ∈ s.tasks, ∀ lock ∈ task.references, lock.key ≠ key) :
    (s.insertKey key).Inv := by
  have hsub : List.Sublist (s.byKey.filter (·.key ≠ key)) s.byKey := List.filter_sublist
  refine ⟨?_, ?_, fun entry hentry => ?_, fun task htask lock hlock => ?_, inv.inside, inv.missing,
    inv.guards, inv.ordered⟩
  · simp only [ExecutionLocks.insertKey, List.map_append, List.map_cons, List.map_nil]
    refine List.nodup_append.mpr ⟨inv.keys.sublist (hsub.map _), List.nodup_singleton _, ?_⟩
    rintro _ hk _ hnew rfl
    obtain ⟨e, he, rfl⟩ := List.mem_map.mp hk
    have hne := (List.mem_filter.mp he).2
    simp [List.mem_singleton.mp hnew] at hne
  · simp only [ExecutionLocks.insertKey, List.map_append, List.map_cons, List.map_nil]
    refine List.nodup_append.mpr ⟨inv.mutexes.sublist (hsub.map _), List.nodup_singleton _, ?_⟩
    rintro _ hm _ hnew rfl
    obtain ⟨e, he, hsame⟩ := List.mem_map.mp hm
    have hlt := inv.created e (hsub.subset he)
    rw [hsame, List.mem_singleton.mp hnew] at hlt
    exact hlt.false
  · show entry.mutex < s.created + 1
    rcases List.mem_append.mp hentry with hold | hnew
    · exact (inv.created entry (hsub.subset hold)).trans (Nat.lt_succ_self _)
    · rw [List.mem_singleton.mp hnew]
      exact Nat.lt_succ_self _
  · refine List.mem_append_left _ (List.mem_filter.mpr ⟨inv.known task htask lock hlock, ?_⟩)
    simpa using hmissing task htask lock hlock

theorem upgrade_eq_some {key : String} {lock : KeyLock} (h : s.upgrade key = some lock) :
    lock ∈ s.byKey ∧ lock.key = key := by
  have hcond := List.find?_some h
  simp only [decide_eq_true_eq] at hcond
  exact ⟨List.mem_of_find?_eq_some h, hcond.1⟩

/-- A key that is not found has no mutex in use. -/
theorem Inv.upgrade_eq_none (inv : s.Inv) {key : String} (h : s.upgrade key = none) :
    ∀ task ∈ s.tasks, ∀ lock ∈ task.references, lock.key ≠ key := by
  rintro task htask lock hlock rfl
  have hno := List.find?_eq_none.mp h lock (inv.known task htask lock hlock)
  simp only [decide_eq_true_eq, not_and, true_implies] at hno
  exact hno ⟨task, htask, lock, hlock, rfl⟩

/-- A task goes on with what it has. -/
theorem Inv.setStage (inv : s.Inv) (hi : s.tasks[i]? = some task) {stage : LockStage}
    (hinside : stage.Inside → task.stage.Inside ∨ ∀ other ∈ s.tasks, ¬ other.stage.Inside)
    (hinserting : ∀ key keys, stage = .inserting key keys →
      ∀ other ∈ s.tasks, ∀ lock ∈ other.references, lock.key ≠ key)
    (hkeys : stage ≠ .dropping → task.stage ≠ .dropping ∧ stage.keys = task.stage.keys) :
    (s.put i { task with stage }).Inv := by
  refine inv.put hi (fun _ h => Or.inl h) hinside
    (fun key keys h => ⟨hinserting key keys h, List.Subset.refl _⟩) (fun _ h => Or.inl h) fun h => ?_
  obtain ⟨hlive, hsame⟩ := hkeys h
  show (task.references.map (·.key) ++ stage.keys).Pairwise (· < ·)
  rw [hsame]
  exact inv.ordered task (List.mem_of_getElem? hi) hlive

/-- A task inside the registry gets the next of its keys. -/
theorem Inv.find (inv : s.Inv) (hi : s.tasks[i]? = some task) (hinside : task.stage.Inside)
    {lock : KeyLock} {keys : List String} (hkeys : task.stage.keys = lock.key :: keys)
    (hlock : lock ∈ s.byKey) :
    (s.put i { task with stage := .looking keys, locks := task.locks ++ [lock] }).Inv := by
  have hlive : task.stage ≠ .dropping := fun h => by rw [h] at hinside; exact hinside
  have hordered := inv.ordered task (List.mem_of_getElem? hi) hlive
  refine inv.put hi (fun l hl => ?_) (fun _ => Or.inl hinside) (fun _ _ h => by cases h)
    (fun _ h => Or.inl h) fun _ => ?_
  · simp only [LockTask.references, ← List.append_assoc] at hl
    rcases List.mem_append.mp hl with hold | hnew
    · exact Or.inl hold
    · exact Or.inr ⟨hinside, List.mem_singleton.mp hnew ▸ hlock⟩
  · rw [hkeys] at hordered
    simpa [LockTask.references, LockStage.keys] using hordered

/-- A step of a task keeps the invariant. -/
theorem Inv.advance (inv : s.Inv) (event : LockEvent) (hi : s.tasks[i]? = some task) :
    (s.advance event i task).Inv := by
  unfold ExecutionLocks.advance
  split
  · rename_i keys hstage
    split
    · exact inv
    · rename_i hfree
      exact inv.setStage hi (fun _ => Or.inr fun other hother hin => hfree ⟨other, hother, hin⟩)
        (fun _ _ h => by cases h) fun _ => by simp [hstage, LockStage.keys]
  · rename_i entry unchecked keys hstage
    have hi' : (s.pruneEntry entry).tasks[i]? = some task := by
      unfold ExecutionLocks.pruneEntry
      split <;> exact hi
    exact (inv.pruneEntry entry).setStage hi' (fun _ => Or.inl (by rw [hstage]; trivial))
      (fun _ _ h => by cases h) fun _ => by simp [hstage, LockStage.keys]
  · rename_i keys hstage
    exact inv.setStage hi (fun _ => Or.inl (by rw [hstage]; trivial)) (fun _ _ h => by cases h)
      fun _ => by simp [hstage, LockStage.keys]
  · rename_i key keys hstage
    have hinside : task.stage.Inside := by rw [hstage]; trivial
    split
    · rename_i lock hfound
      obtain ⟨hlock, hkey⟩ := upgrade_eq_some hfound
      exact inv.find hi hinside (by rw [hstage, hkey]; rfl) hlock
    · rename_i hnone
      refine inv.setStage hi (fun _ => Or.inl hinside) (fun key' keys' h => ?_)
        fun _ => by simp [hstage, LockStage.keys]
      rw [LockStage.inserting.injEq] at h
      exact h.1 ▸ inv.upgrade_eq_none hnone
  · rename_i hstage
    exact inv.setStage hi (fun h => h.elim) (fun _ _ h => by cases h)
      fun _ => by simp [hstage, LockStage.keys]
  · rename_i key keys hstage
    have hmissing := inv.missing task (List.mem_of_getElem? hi) key keys hstage
    have hkeys : task.stage.keys = (⟨key, s.created⟩ : KeyLock).key :: keys := by rw [hstage]; rfl
    exact (inv.insertKey hmissing).find hi (by rw [hstage]; trivial) hkeys
      (List.mem_append_right _ (List.mem_singleton_self _))
  · rename_i hstage
    split
    · exact inv
    · rename_i lock locks hlocks
      split
      · exact inv
      · rename_i hunlocked
        have hordered := inv.ordered task (List.mem_of_getElem? hi) (by simp [hstage])
        have hsame : (task.guards ++ [lock]) ++ locks = task.references := by
          rw [LockTask.references, hlocks, List.append_assoc, List.singleton_append]
        refine inv.put hi (fun l hl => Or.inl (hsame ▸ hl))
          (fun h => by simp [hstage, LockStage.Inside] at h) (fun _ _ h => by simp [hstage] at h)
          (fun g hg => ?_) fun _ => ?_
        · rcases List.mem_append.mp hg with hheld | hnew
          · exact Or.inl hheld
          · exact Or.inr (List.mem_singleton.mp hnew ▸ hunlocked)
        · show (((task.guards ++ [lock]) ++ locks).map (·.key) ++ task.stage.keys).Pairwise (· < ·)
          rw [hsame]
          exact hordered
  · rename_i keys hstage
    exact inv.setStage hi (fun h => h.elim) (fun _ _ h => by cases h) fun h => absurd rfl h
  · rename_i hstage
    exact inv.setStage hi (fun h => h.elim) (fun _ _ h => by cases h) fun h => absurd rfl h
  · rename_i guard hstage
    split
    · rename_i hguard
      refine inv.put hi (fun l hl => Or.inl ?_) (fun h => by simp [hstage, LockStage.Inside] at h)
        (fun _ _ h => by simp [hstage] at h) (fun g hg => Or.inl (List.mem_of_mem_erase hg))
        fun h => absurd hstage h
      have hl' : l ∈ task.guards.erase guard ∨ l ∈ task.locks ∨ l = guard := by
        simpa [LockTask.references] using hl
      rcases hl' with hheld | hheld | rfl
      · exact List.mem_append_left _ (List.mem_of_mem_erase hheld)
      · exact List.mem_append_right _ hheld
      · exact List.mem_append_left _ hguard
    · exact inv
  · rename_i lock hstage
    refine inv.put hi (fun l hl => Or.inl ?_) (fun h => by simp [hstage, LockStage.Inside] at h)
      (fun _ _ h => by simp [hstage] at h) (fun g hg => Or.inl hg) fun h => absurd hstage h
    rcases List.mem_append.mp hl with hheld | hheld
    · exact List.mem_append_left _ hheld
    · exact List.mem_append_right _ (List.mem_of_mem_erase hheld)
  · exact inv

/-- **Every interleaving keeps the invariant.** -/
theorem Inv.step (inv : s.Inv) (event : LockEvent) : (s.step event).Inv := by
  cases event with
  | call selections mutation =>
    let new : LockTask := ⟨.entering (acquireKeys selections mutation), [], []⟩
    have hnew : ∀ task ∈ s.tasks ++ [new], task ∈ s.tasks ∨ task = new := fun task htask =>
      (List.mem_append.mp htask).imp_right List.mem_singleton.mp
    have hat : ∀ {j : ℕ} {t : LockTask}, (s.tasks ++ [new])[j]? = some t →
        s.tasks[j]? = some t ∨ t = new := by
      intro j t hj
      rw [List.getElem?_append] at hj
      split at hj
      · exact Or.inl hj
      · exact Or.inr (List.mem_singleton.mp (List.mem_of_getElem? hj))
    refine ⟨inv.keys, inv.mutexes, inv.created, fun task htask lock hlock => ?_, ?_, ?_, ?_, ?_⟩
    · rcases hnew task htask with hold | rfl
      · exact inv.known task hold lock hlock
      · cases hlock
    · intro j k t t' hj hk hin hin'
      rcases hat hj with hold | rfl
      · rcases hat hk with hold' | rfl
        · exact inv.inside _ _ _ _ hold hold' hin hin'
        · exact hin'.elim
      · exact hin.elim
    · intro t ht key keys hstage other hother lock hlock
      rcases hnew t ht with hold | rfl
      · rcases hnew other hother with hold' | rfl
        · exact inv.missing t hold key keys hstage other hold' lock hlock
        · cases hlock
      · cases hstage
    · intro j k t t' hj hk g hg g' hg' hsame
      rcases hat hj with hold | rfl
      · rcases hat hk with hold' | rfl
        · exact inv.guards _ _ _ _ hold hold' g hg g' hg' hsame
        · cases hg'
      · cases hg
    · intro task htask hstage
      rcases hnew task htask with hold | rfl
      · exact inv.ordered task hold hstage
      · exact acquireKeys_sorted selections mutation
  | _ =>
    unfold ExecutionLocks.step
    dsimp only
    split
    · exact inv.advance _ ‹_›
    · exact inv

end ExecutionLocks

open ExecutionLocks OrderedWaits

theorem LocksReachable.inv {s : ExecutionLocks} (h : LocksReachable s) : s.Inv := by
  induction h with
  | empty =>
    refine ⟨List.nodup_nil, List.nodup_nil, ?_, ?_, ?_, ?_, ?_, ?_⟩ <;>
      simp [ExecutionLocks.empty]
  | step event _ ih => exact ih.step event

/-- A task that waits has the keys it holds before the key it waits for. -/
theorem LocksReachable.waits_ordered {s : ExecutionLocks} (h : LocksReachable s) {i : ℕ}
    {key held : String} (hwaits : s.Waits i key) (hholds : s.Holds i held) : held < key := by
  obtain ⟨task, lock, hi, hstage, hhead, rfl⟩ := hwaits
  obtain ⟨task', guard, hi', hguard, rfl⟩ := hholds
  obtain rfl := Option.some.inj (hi.symm.trans hi')
  have hordered := h.inv.ordered task (List.mem_of_getElem? hi) (by simp [hstage])
  rw [LockTask.references, List.map_append, List.append_assoc] at hordered
  refine (List.pairwise_append.mp hordered).2.2 _ (List.mem_map_of_mem hguard) _ ?_
  exact List.mem_append_left _ (List.mem_map_of_mem (List.mem_of_head? hhead))

/-- Two references for a key are the same. -/
theorem LocksReachable.reference_eq {s : ExecutionLocks} (h : LocksReachable s) {t t' : LockTask}
    (ht : t ∈ s.tasks) (ht' : t' ∈ s.tasks) {lock lock' : KeyLock} (hlock : lock ∈ t.references)
    (hlock' : lock' ∈ t'.references) (hkey : lock.key = lock'.key) : lock = lock' :=
  Table.eq_of_key_eq (·.key) h.inv.keys (h.inv.known t ht lock hlock)
    (h.inv.known t' ht' lock' hlock') hkey

/-- The key that a task would wait for. -/
def ExecutionLocks.nextKey (s : ExecutionLocks) (i : ℕ) : String :=
  ((s.tasks[i]?.bind (·.locks.head?)).map (·.key)).getD ""

theorem ExecutionLocks.Waits.nextKey {s : ExecutionLocks} {i : ℕ} {key : String}
    (h : s.Waits i key) : i ∈ Finset.range s.tasks.length ∧ key = s.nextKey i := by
  obtain ⟨task, lock, hi, -, hhead, rfl⟩ := h
  obtain ⟨hlt, -⟩ := List.getElem?_eq_some_iff.mp hi
  refine ⟨Finset.mem_range.mpr hlt, ?_⟩
  rw [ExecutionLocks.nextKey, hi, Option.bind_some, hhead]
  rfl

/-- **Execution locks exclude and cannot deadlock.** No two tasks hold a guard for the same key, nor
does one task hold two; all references for a key are to one mutex; no tasks wait for each other in a
circle, and if any task waits, one waits for a key that no waiting task holds. -/
theorem execution_locks_exclude {s : ExecutionLocks} (h : LocksReachable s) :
    (∀ (i j : ℕ) t t' g g', s.tasks[i]? = some t → s.tasks[j]? = some t' → g ∈ t.guards →
      g' ∈ t'.guards → g.key = g'.key → i = j ∧ g = g') ∧
    (∀ t ∈ s.tasks, ∀ t' ∈ s.tasks, ∀ lock ∈ t.references, ∀ lock' ∈ t'.references,
      lock.key = lock'.key → lock.mutex = lock'.mutex) ∧
    (∀ i, ¬ TransGen (WaitsFor s.Waits s.Holds) i i) ∧
    ∀ i key, s.Waits i key → ∃ j waited, s.Waits j waited ∧
      ∀ k, s.Holds k waited → ∀ key', ¬ s.Waits k key' := by
  have hordered : ∀ (i : ℕ) key held, s.Waits i key → s.Holds i held → held < key :=
    fun _ _ _ => h.waits_ordered
  refine ⟨?_, ?_, ?_, ?_⟩
  · intro i j t t' g g' hi hj hg hg' hkey
    have hsame := h.reference_eq (List.mem_of_getElem? hi) (List.mem_of_getElem? hj)
      (List.mem_append_left _ hg) (List.mem_append_left _ hg') hkey
    exact ⟨h.inv.guards i j t t' hi hj g hg g' hg' (congrArg _ hsame), hsame⟩
  · intro t ht t' ht' lock hlock lock' hlock' hkey
    rw [h.reference_eq ht ht' hlock hlock' hkey]
  · exact OrderedWaits.acyclic hordered fun i key key' hkey hkey' =>
      hkey.nextKey.2.trans hkey'.nextKey.2.symm
  · classical
    intro i key hwaits
    have hne : ((Finset.range s.tasks.length).filter fun i => ∃ key, s.Waits i key).Nonempty :=
      ⟨i, Finset.mem_filter.mpr ⟨hwaits.nextKey.1, key, hwaits⟩⟩
    obtain ⟨j, hj, hfree⟩ := exists_unblocked hordered _ s.nextKey
      (fun i key hwaits => ⟨Finset.mem_filter.mpr ⟨hwaits.nextKey.1, key, hwaits⟩,
        hwaits.nextKey.2⟩) hne
    obtain ⟨waited, hwaited⟩ := (Finset.mem_filter.mp hj).2
    exact ⟨j, waited, hwaited, hwaited.nextKey.2 ▸ hfree⟩

/-- The state after some events. -/
def ExecutionLocks.after (events : List LockEvent) : ExecutionLocks :=
  events.foldl ExecutionLocks.step .empty

theorem LocksReachable.after (events : List LockEvent) :
    LocksReachable (ExecutionLocks.after events) := by
  induction events using List.reverseRecOn with
  | nil => exact .empty
  | append_singleton events event ih =>
    simp only [ExecutionLocks.after, List.foldl_append, List.foldl_cons, List.foldl_nil]
    exact .step event ih

/-- A selection with nothing but an idempotency key. -/
def keyedSelection (key : String) : PolicySelection where
  fields := []
  scope := "scope"
  consistency :=
    { snapshotKey := none, allowedSources := [.authority], causal := [], linearizationKey := none
      sessions := [], commitOrderingKey := none }
  conflict :=
    { strategy := .reject, baseVersionsField := "base_versions", baseVersions := none, merge := []
      otherwise := .reject }
  idempotencyKey := some key
  publicationKey := none
  idempotency := .keyed [key]
  publication := .immediate

/-- Two tasks with the same key: the first holds its guard, and the second has come as far as the
mutex. -/
def twoTasks : ExecutionLocks :=
  ExecutionLocks.after [.call [keyedSelection "k"] true, .call [keyedSelection "k"] true, .enter 0,
    .prune 0, .look 0, .insert 0, .look 0, .lock 0, .enter 1, .prune 1, .prune 1, .look 1, .look 1,
    .lock 1]

theorem twoTasks_exclude : twoTasks.Holds 0 "k" ∧ twoTasks.Waits 1 "k" ∧ ¬ twoTasks.Holds 1 "k" := by
  have hholds : twoTasks.Holds 0 "k" := ⟨_, ⟨"k", 0⟩, rfl, List.mem_singleton_self _, rfl⟩
  refine ⟨hholds, ⟨_, ⟨"k", 0⟩, rfl, rfl, rfl, rfl⟩, ?_⟩
  rintro ⟨task, guard, htask, hguard, hkey⟩
  obtain ⟨holder, held, hholder, hheld, hheldKey⟩ := hholds
  have hsame := (execution_locks_exclude (LocksReachable.after _)).1 0 1 holder task held guard
    hholder htask hheld hguard (hheldKey.trans hkey.symm)
  cases hsame.1

end Patchouli
