import AceMesh.Lib.CInt
import AceMesh.TaskDagGraph

/-!
# Automatic affinities

In the `AUTO_AFFINITY` build `register_task` numbers the tasks round the threads. The counter
that it takes the numbers from has its own copy of the number of threads; `sche_num_threads` is
another one, which the program may set, and a named `begin_split_task` hands it on to the
counter. Only an initialisation changes the number of schedulers, and it does not reset the
counter.

So a task may get the number of a scheduler that does not exist: if the counter has gone round
more threads than there are schedulers, and so many tasks have been registered since it was reset
that this matters (`affinities_in_bounds`, `register_beyond`).

`registered` and `round` record the tasks since the last reset and the thread number of the
counter when the last of them was registered. `given` records the affinities, each with the
number of schedulers at this time. No step reads them.
-/

namespace AceMesh

/-- What the affinities depend on. -/
structure AutoAffinity where
  id : Int
  threadNum : Int
  scheNumThreads : Int
  schedulers : Nat
  registered : Nat
  round : Nat
  /-- The last task first. -/
  given : List (Int × Nat)

namespace AutoAffinity

/-- The static objects as a program starts. -/
def start : AutoAffinity where
  id := 0
  threadNum := 0
  scheNumThreads := 1
  schedulers := 0
  registered := 0
  round := 0
  given := []

inductive Event
  | init (threadNum : Int)
  | setThreadNum (threadNum : Int)
  | resetAffinity
  /-- `begin_split_task` with and without a name. -/
  | beginSplitTask (named : Bool)
  | registerTask
  deriving DecidableEq

def resetAffinityId (s : AutoAffinity) : AutoAffinity := { s with id := 0, registered := 0 }

/-- The task gets the number, and the counter goes on. -/
def give (s : AutoAffinity) : AutoAffinity :=
  { s with
    id := (s.id + 1).tmod s.threadNum
    registered := s.registered + 1
    round := s.threadNum.natAbs
    given := (s.id, s.schedulers) :: s.given }

/-- `get_affinity_id` in `register_task`. -/
def registerTask (s : AutoAffinity) : Option AutoAffinity :=
  if CInt.InRange (s.id + 1) ∧ s.threadNum ≠ 0 then some s.give else none

/-- The generator of the task graph, as long as its numbers are not negative. -/
def generator (s : AutoAffinity) : AffinityIdGenerator := ⟨s.id.toNat, s.threadNum.toNat⟩

theorem generator_give {s : AutoAffinity} (hid : 0 ≤ s.id) (hnum : 0 ≤ s.threadNum) :
    s.give.generator = s.generator.getAffinityId.2 := by
  have hnext : ((s.id + 1).tmod s.threadNum).toNat = (s.id.toNat + 1) % s.threadNum.toNat := by
    rw [Int.tmod_eq_emod_of_nonneg (by omega), Int.toNat_emod (by omega) hnum,
      Int.toNat_add hid (by decide)]
    rfl
  exact congrArg (AffinityIdGenerator.mk · _) hnext

theorem generator_resetAffinityId (s : AutoAffinity) :
    s.resetAffinityId.generator = s.generator.resetAffinityId := rfl

/-- `begin_split_task`. -/
def beginSplitTask (allCyclic : Bool) (s : AutoAffinity) (named : Bool) : AutoAffinity :=
  let s := if named then { s with threadNum := s.scheNumThreads } else s
  if allCyclic then s else s.resetAffinityId

/-- `aceMesh_runtime_init`, with `init` of the task graph and `create_worker_thread`. -/
def init (s : AutoAffinity) (threadNum : Int) : Option AutoAffinity :=
  if 0 < threadNum then
    some { s with
      threadNum := threadNum, scheNumThreads := threadNum, schedulers := threadNum.toNat }
  else none

def step (allCyclic : Bool) (s : AutoAffinity) : Event → Option AutoAffinity
  | .init threadNum => s.init threadNum
  | .setThreadNum threadNum => some { s with scheNumThreads := threadNum }
  | .resetAffinity => some s.resetAffinityId
  | .beginSplitTask named => some (s.beginSplitTask allCyclic named)
  | .registerTask => s.registerTask

def run (allCyclic : Bool) (s : AutoAffinity) : List Event → Option AutoAffinity
  | [] => some s
  | e :: es => (s.step allCyclic e).bind fun s => run allCyclic s es

/-- A runtime is initialised with a positive `int`. A task is registered while the counter has a
thread number other than zero, and either there are more schedulers than tasks since the last
reset of the counter, or the last of these tasks was registered when the counter went round no
more threads than there are schedulers. -/
def Meets (s : AutoAffinity) : Event → Prop
  | .init threadNum => 0 < threadNum ∧ threadNum < 2 ^ 31
  | .registerTask => s.threadNum ≠ 0 ∧
      (s.registered < s.schedulers ∨ 0 < s.registered ∧ s.round ≤ s.schedulers)
  | _ => True

instance (s : AutoAffinity) : DecidablePred s.Meets
  | .init _ => inferInstanceAs (Decidable (_ ∧ _))
  | .registerTask => inferInstanceAs (Decidable (_ ∧ _))
  | .setThreadNum _ => isTrue trivial
  | .resetAffinity => isTrue trivial
  | .beginSplitTask _ => isTrue trivial

/-- All steps of the run meet the condition. -/
def MeetsAll (allCyclic : Bool) (s : AutoAffinity) : List Event → Prop
  | [] => True
  | e :: es => s.Meets e ∧ ∀ s' ∈ s.step allCyclic e, MeetsAll allCyclic s' es

instance decidableMeetsAll (allCyclic : Bool) (s : AutoAffinity) :
    (es : List Event) → Decidable (s.MeetsAll allCyclic es)
  | [] => isTrue trivial
  | e :: es =>
    have := fun s' : AutoAffinity => decidableMeetsAll allCyclic s' es
    inferInstanceAs (Decidable (_ ∧ ∀ s' ∈ s.step allCyclic e, s'.MeetsAll allCyclic es))

/-- The counter has not gone beyond the tasks registered, nor beyond the threads that it went
round. -/
structure Inv (s : AutoAffinity) : Prop where
  nonneg : 0 ≤ s.id
  registered : s.id ≤ s.registered
  round : 0 < s.registered → s.id < s.round
  schedulers : s.schedulers < 2 ^ 31
  given : ∀ a ∈ s.given, 0 ≤ a.1 ∧ a.1 < a.2

variable {allCyclic : Bool} {s s' : AutoAffinity}

theorem inv_start : start.Inv where
  nonneg := Int.le_refl 0
  registered := Int.le_refl 0
  round := fun h => absurd h (Nat.lt_irrefl 0)
  schedulers := by decide
  given := fun _ h => absurd h List.not_mem_nil

theorem Inv.reset (h : s.Inv) : s.resetAffinityId.Inv where
  nonneg := Int.le_refl 0
  registered := Int.le_refl 0
  round := fun hpos => absurd hpos (Nat.lt_irrefl 0)
  schedulers := h.schedulers
  given := h.given

/-- The thread numbers may be set to anything. -/
theorem Inv.setThreads (h : s.Inv) (threadNum scheNumThreads : Int) {schedulers : Nat}
    (hlt : schedulers < 2 ^ 31) :
    Inv { s with
      threadNum := threadNum, scheNumThreads := scheNumThreads, schedulers := schedulers } where
  nonneg := h.nonneg
  registered := h.registered
  round := h.round
  schedulers := hlt
  given := h.given

/-- The next number is below the number of schedulers. -/
theorem Inv.id_lt (h : s.Inv) (hmeets : s.Meets .registerTask) : s.id < s.schedulers := by
  obtain ⟨-, hfew | ⟨hpos, hround⟩⟩ := hmeets
  · exact h.registered.trans_lt (Int.ofNat_lt.mpr hfew)
  · exact (h.round hpos).trans_le (Int.ofNat_le.mpr hround)

theorem Inv.canRegister (h : s.Inv) (hmeets : s.Meets .registerTask) :
    s.registerTask = some s.give := by
  have hid := h.id_lt hmeets
  have hnonneg := h.nonneg
  have hlt : (s.schedulers : Int) < 2 ^ 31 := by exact_mod_cast h.schedulers
  exact if_pos ⟨⟨by omega, by omega⟩, hmeets.1⟩

theorem Inv.give (h : s.Inv) (hmeets : s.Meets .registerTask) : s.give.Inv := by
  have hnonneg := h.nonneg
  have hvalue : (s.id + 1).tmod s.threadNum =
      (((s.id + 1).natAbs % s.threadNum.natAbs : Nat) : Int) := by
    rw [← Int.natAbs_tmod]
    exact (Int.natAbs_of_nonneg (Int.tmod_nonneg _ (by omega))).symm
  constructor
  · change 0 ≤ (s.id + 1).tmod s.threadNum
    rw [hvalue]
    exact Int.natCast_nonneg _
  · change (s.id + 1).tmod s.threadNum ≤ ((s.registered + 1 : Nat) : Int)
    have hle := Nat.mod_le (s.id + 1).natAbs s.threadNum.natAbs
    have hregistered := h.registered
    rw [hvalue]
    omega
  · intro _
    change (s.id + 1).tmod s.threadNum < (s.threadNum.natAbs : Int)
    rw [hvalue]
    exact Int.ofNat_lt.mpr (Nat.mod_lt _ (Int.natAbs_pos.mpr hmeets.1))
  · exact h.schedulers
  · intro a ha
    rcases List.mem_cons.mp ha with rfl | ha
    · exact ⟨hnonneg, h.id_lt hmeets⟩
    · exact h.given a ha

theorem Inv.step (h : s.Inv) {e : Event} (hmeets : s.Meets e) :
    ∃ s', s.step allCyclic e = some s' ∧ s'.Inv := by
  cases e with
  | init threadNum =>
      obtain ⟨hpos, hlt⟩ := hmeets
      refine ⟨_, if_pos hpos, h.setThreads threadNum threadNum ?_⟩
      omega
  | setThreadNum threadNum => exact ⟨_, rfl, h.setThreads s.threadNum threadNum h.schedulers⟩
  | resetAffinity => exact ⟨_, rfl, h.reset⟩
  | beginSplitTask named =>
      refine ⟨_, rfl, ?_⟩
      have hnamed : (if named then { s with threadNum := s.scheNumThreads } else s).Inv := by
        split
        · exact h.setThreads s.scheNumThreads s.scheNumThreads h.schedulers
        · exact h
      unfold AutoAffinity.beginSplitTask
      dsimp only
      split
      · exact hnamed
      · exact hnamed.reset
  | registerTask => exact ⟨_, h.canRegister hmeets, h.give hmeets⟩

theorem Inv.run (h : s.Inv) {es : List Event} (hmeets : s.MeetsAll allCyclic es) :
    ∃ s', s.run allCyclic es = some s' ∧ s'.Inv := by
  induction es generalizing s with
  | nil => exact ⟨s, rfl, h⟩
  | cons e es ih =>
      obtain ⟨s₁, hstep, hinv⟩ := h.step hmeets.1
      obtain ⟨s', hrun, hinv'⟩ := ih hinv (hmeets.2 s₁ hstep)
      refine ⟨s', ?_, hinv'⟩
      unfold AutoAffinity.run
      rw [hstep]
      exact hrun

/-- In every run whose steps meet the condition all affinities name schedulers. -/
theorem affinities_in_bounds {es : List Event} (hmeets : start.MeetsAll allCyclic es) :
    ∃ s, start.run allCyclic es = some s ∧ ∀ a ∈ s.given, 0 ≤ a.1 ∧ a.1 < a.2 := by
  obtain ⟨s, hs, hinv⟩ := inv_start.run hmeets
  exact ⟨s, hs, hinv.given⟩

/-- Two sessions with a loop each, the second one with fewer threads. -/
theorem affinities_in_bounds_two : ∃ s,
    start.run false [.init 4, .beginSplitTask true, .registerTask, .init 2, .beginSplitTask false,
      .registerTask] = some s ∧ ∀ a ∈ s.given, 0 ≤ a.1 ∧ a.1 < a.2 :=
  affinities_in_bounds (by decide)

/-- A loop after `acemesh_set_thread_num` gets the number of a scheduler that does not exist; so
does, in the `ALL_CYCLIC` build, the first task of a session with fewer threads. -/
theorem affinity_out_of_bounds :
    (start.run false ([.init 2, .setThreadNum 8, .beginSplitTask true] ++
        List.replicate 3 .registerTask)).map (·.given.head?) = some (some (2, 2)) ∧
      (start.run true ([.init 8] ++ List.replicate 6 .registerTask ++
        [.init 4, .beginSplitTask true, .registerTask])).map (·.given.head?) =
          some (some (6, 4)) := by
  decide

/-- The condition is needed: after a reset the tasks get the numbers of the threads that the
counter goes round, so if these are more than the schedulers, one task more than there are
schedulers is too many. -/
theorem register_beyond {k : Nat} (hnonneg : 0 ≤ s.id) (hround : s.id + k < s.threadNum.natAbs)
    (hrange : s.id + k < 2 ^ 31 - 1) :
    ∃ s', s.run allCyclic (List.replicate (k + 1) .registerTask) = some s' ∧
      s'.given.head? = some (s.id + k, s.schedulers) := by
  have hgive (s : AutoAffinity) (hnonneg : 0 ≤ s.id) (hlt : s.id + 1 < 2 ^ 31)
      (hne : s.threadNum ≠ 0) : s.registerTask = some s.give :=
    if_pos ⟨⟨by omega, hlt⟩, hne⟩
  induction k generalizing s with
  | zero =>
      refine ⟨s.give, ?_, ?_⟩
      · change (s.registerTask.bind fun s => some s) = some s.give
        rw [hgive s hnonneg (by omega) (by omega)]
        rfl
      · change some (s.id, s.schedulers) = some (s.id + 0, s.schedulers)
        rw [Int.add_zero]
  | succ k ih =>
      have hnext : s.give.id = s.id + 1 := by
        change (s.id + 1).tmod s.threadNum = s.id + 1
        rcases Int.natAbs_eq s.threadNum with hpos | hneg
        · apply Int.tmod_eq_of_lt
          · omega
          · omega
        · rw [hneg, Int.tmod_neg]
          apply Int.tmod_eq_of_lt
          · omega
          · omega
      have hround' : s.give.id + k < s.give.threadNum.natAbs := by
        rw [hnext]
        change s.id + 1 + k < s.threadNum.natAbs
        omega
      obtain ⟨s', hrun, hhead⟩ := ih (s := s.give) (by omega) hround' (by omega)
      refine ⟨s', ?_, ?_⟩
      · rw [List.replicate_succ]
        change (s.registerTask.bind fun s => s.run allCyclic _) = some s'
        rw [hgive s hnonneg (by omega) (by omega)]
        exact hrun
      · rw [hhead, hnext]
        change some (s.id + 1 + k, s.schedulers) = _
        rw [Int.add_assoc, Int.add_comm 1]
        rfl

end AutoAffinity

end AceMesh
