import AceMesh.Task
import Mathlib.Algebra.Group.Nat.Defs
import Mathlib.Logic.Function.Basic

/-!
# Stealing on one node of the machine

Two strategies of `get_next_task` keep to the node of a worker. With `USE_STEALING_NUMA` it steals
from a random worker that `FastRandom::getnum` looks up in a table, one row for each node; with
`USE_STEALING_SHARED` it polls the queue of its node. Both are made for two nodes of 14 cores, and
nothing keeps `create_worker_thread` from making more workers than that (`inBounds_iff`).
-/

namespace AceMesh

/-- The strategies that are aware of the nodes. -/
inductive NumaStrategy
  | stealingNuma
  | stealingShared
  deriving DecidableEq

namespace NumaStrategy

def numaNum : Nat := 2

/-- The cores of a node. -/
def cores : Nat := 14

/-- The workers on each node. -/
def numa : List (List Nat) :=
  [[0, 1, 2, 3, 4, 5, 6, 7, 8, 9, 10, 11, 12, 13],
    [14, 15, 16, 17, 18, 19, 20, 21, 22, 23, 24, 25, 26, 27]]

def randMax : Nat := 2 ^ 31 - 1

/-! ## `USE_STEALING_NUMA` -/

/-- The `number` of workers on node `tmp` that `getnum` chooses from. -/
def candidates (tmp numThreads : Nat) : Nat :=
  if (numThreads - 1) / cores % numaNum = tmp then
    if numThreads / cores / numaNum * cores + numThreads % cores = 0 then cores
    else numThreads / cores / numaNum * cores + numThreads % cores
  else
    if numThreads / cores / numaNum * cores = 0 then cores
    else numThreads / cores / numaNum * cores

/-- `FastRandom::getnum`, when `rand()` returns `draw`. It has no result where it reads outside of
the row of the node. -/
def getnum (draw id numThreads : Nat) : Option Nat :=
  let tmp := id / cores % numaNum
  let number := candidates tmp numThreads
  if (numThreads - 1) / cores % numaNum = tmp ∧ number = 1 then (numa.getD tmp [])[0]?
  else (numa.getD tmp [])[draw % number]?

theorem numa_row {tmp k : Nat} (htmp : tmp < numaNum) (hk : k < cores) :
    (numa.getD tmp [])[k]? = some (cores * tmp + k) := by
  revert k
  revert tmp
  decide

theorem numa_row_none {tmp k : Nat} (htmp : tmp < numaNum) (hk : cores ≤ k) :
    (numa.getD tmp [])[k]? = none := by
  have hlength : ∀ tmp < numaNum, (numa.getD tmp []).length = cores := by decide
  rw [List.getElem?_eq_none_iff, hlength tmp htmp]
  exact hk

/-- Within the machine, and with 42 workers, the candidates on a worker's node are in its row of
the table and exist. -/
theorem candidates_le {id numThreads : Nat} (hn : 2 ≤ numThreads) (hid : id < numThreads)
    (hmax : numThreads ≤ 28 ∨ numThreads = 42) :
    0 < candidates (id / cores % numaNum) numThreads ∧
      candidates (id / cores % numaNum) numThreads ≤ cores ∧
      cores * (id / cores % numaNum) + candidates (id / cores % numaNum) numThreads ≤
        numThreads := by
  unfold candidates cores numaNum
  split <;> split <;> omega

/-- With more workers one node has more candidates than its row has entries. -/
theorem exists_candidates_gt {numThreads : Nat} (hn : 28 < numThreads) (hne : numThreads ≠ 42) :
    ∃ id < numThreads, cores < candidates (id / cores % numaNum) numThreads := by
  refine ⟨14 * ((numThreads - 1) / 14 % 2), by omega, ?_⟩
  unfold candidates cores numaNum
  split <;> split <;> omega

theorem getnum_spec {draw id numThreads : Nat} (hn : 2 ≤ numThreads) (hid : id < numThreads)
    (hmax : numThreads ≤ 28 ∨ numThreads = 42) :
    ∃ x, getnum draw id numThreads = some x ∧ x < numThreads := by
  obtain ⟨hpos, hrow, hle⟩ := candidates_le hn hid hmax
  have htmp : id / cores % numaNum < numaNum := Nat.mod_lt _ (by decide)
  unfold getnum
  dsimp only
  generalize id / cores % numaNum = tmp at *
  generalize candidates tmp numThreads = number at *
  by_cases hone : (numThreads - 1) / cores % numaNum = tmp ∧ number = 1
  · rw [if_pos hone, numa_row htmp (by decide)]
    exact ⟨_, rfl, by omega⟩
  · have hdraw := Nat.mod_lt draw hpos
    rw [if_neg hone, numa_row htmp (Nat.lt_of_lt_of_le hdraw hrow)]
    exact ⟨_, rfl, by omega⟩

/-- A draw for which `getnum` reads behind the row. -/
theorem getnum_none {id numThreads : Nat}
    (hgt : cores < candidates (id / cores % numaNum) numThreads) :
    getnum 14 id numThreads = none := by
  have htmp : id / cores % numaNum < numaNum := Nat.mod_lt _ (by decide)
  unfold getnum
  dsimp only
  generalize id / cores % numaNum = tmp at *
  generalize candidates tmp numThreads = number at *
  unfold cores at hgt
  rw [if_neg (by omega), Nat.mod_eq_of_lt hgt]
  exact numa_row_none htmp (Nat.le_refl 14)

/-! ## `USE_STEALING_SHARED` -/

/-- `shared_queue`, a stack for each node. -/
abbrev SharedQueue := Fin numaNum → List TaskId

/-- `enqueue` with an affinity. -/
def enqueue (q : SharedQueue) (numThreads : Nat) (t : TaskId) (taskId : Nat) : Option SharedQueue :=
  if h : taskId % numThreads / cores < numaNum then
    some (Function.update q ⟨_, h⟩ (t :: q ⟨_, h⟩))
  else none

/-- The shared queue that worker `id` polls in `get_next_task`, and what it finds there. -/
def pollShared (q : SharedQueue) (id : Nat) : Option (Option TaskId × SharedQueue) :=
  if h : id / cores < numaNum then
    match q ⟨_, h⟩ with
    | [] => some (none, q)
    | t :: rest => some (some t, Function.update q ⟨_, h⟩ rest)
  else none

theorem enqueue_spec (q : SharedQueue) (t : TaskId) {numThreads affinity : Nat}
    (ha : affinity < numThreads) (hmax : numThreads ≤ 28) :
    ∃ q', enqueue q numThreads t affinity = some q' ∧
      pollShared q' affinity = some (some t, q) := by
  have hnode : affinity / cores < numaNum := by
    unfold cores numaNum
    omega
  refine ⟨Function.update q ⟨_, hnode⟩ (t :: q ⟨_, hnode⟩), ?_, ?_⟩
  · unfold enqueue
    simp only [Nat.mod_eq_of_lt ha]
    exact dif_pos hnode
  · unfold pollShared
    rw [dif_pos hnode]
    simp only [Function.update_self, Function.update_idem, Function.update_eq_self]

theorem enqueue_none (q : SharedQueue) (t : TaskId) {numThreads : Nat} (hn : 28 < numThreads) :
    enqueue q numThreads t 28 = none := by
  unfold enqueue
  rw [dif_neg]
  rw [Nat.mod_eq_of_lt hn]
  decide

/-! ## Bounds -/

/-- With `numThreads` workers a strategy keeps to its table or its queues: every draw of every
worker names a worker; every task, whatever its affinity, is queued where a worker finds it. -/
def InBounds (numThreads : Nat) : NumaStrategy → Prop
  | .stealingNuma => ∀ id < numThreads, ∀ draw ≤ randMax,
      ∃ x, getnum draw id numThreads = some x ∧ x < numThreads
  | .stealingShared => ∀ q t, ∀ affinity < numThreads,
      ∃ q', enqueue q numThreads t affinity = some q' ∧
        ∃ id < numThreads, pollShared q' id = some (some t, q)

/-- The strategies keep to their tables on a machine of two nodes with 14 cores; besides, the
table of victims does for 42 workers. -/
theorem inBounds_iff (strategy : NumaStrategy) {numThreads : Nat} (hn : 2 ≤ numThreads) :
    InBounds numThreads strategy ↔
      numThreads ≤ numaNum * cores ∨ strategy = .stealingNuma ∧ numThreads = 42 := by
  cases strategy with
  | stealingNuma =>
      constructor
      · intro h
        by_contra hnot
        obtain ⟨hgt, hne⟩ := not_or.mp hnot
        obtain ⟨id, hid, hcandidates⟩ := exists_candidates_gt (Nat.lt_of_not_le hgt)
          fun heq => hne ⟨rfl, heq⟩
        obtain ⟨x, hx, -⟩ := h id hid 14 (by decide)
        rw [getnum_none hcandidates] at hx
        cases hx
      · intro hmax id hid draw _
        rcases hmax with hle | ⟨-, heq⟩
        · exact getnum_spec hn hid (Or.inl hle)
        · exact getnum_spec hn hid (Or.inr heq)
  | stealingShared =>
      constructor
      · intro h
        left
        by_contra hgt
        obtain ⟨q', hq', -⟩ := h (fun _ => []) 0 28 (Nat.lt_of_not_le hgt)
        rw [enqueue_none _ _ (Nat.lt_of_not_le hgt)] at hq'
        cases hq'
      · rintro (hmax | ⟨hne, -⟩) q t affinity ha
        · obtain ⟨q', hq', hpoll⟩ := enqueue_spec q t ha hmax
          exact ⟨q', hq', affinity, ha, hpoll⟩
        · cases hne

theorem inBounds_iff_two : InBounds 2 .stealingShared :=
  (inBounds_iff .stealingShared (Nat.le_refl 2)).mpr (Or.inl (by decide))

/-- 29 workers: a draw of worker 0 reads behind the row of its node, and there is no queue for
affinity 28. -/
theorem not_inBounds : ¬InBounds 29 .stealingNuma ∧ ¬InBounds 29 .stealingShared := by
  constructor
  · intro h
    obtain ⟨x, hx, -⟩ := h 0 (by decide) 14 (by decide)
    rw [show getnum 14 0 29 = none by decide] at hx
    cases hx
  · intro h
    obtain ⟨q', hq', -⟩ := h (fun _ => []) 0 28 (by decide)
    cases hq'

end NumaStrategy

end AceMesh
