import AceMesh.MpiStrategy
import AceMesh.RoundRun

/-!
# What one step does in any of the builds

`Turn` lists what a step of a thread can do, with the stage that the task at hand reaches
(`Suspend.Advance`); `threadStep_turn` is the only place where the definition of a step is
unfolded. `Move` adds the main thread.
-/

namespace AceMesh.MpiStrategy

open Suspend (Act Stage)

variable {m : Nat}

/-- In `get_next_task`, or about to call it. -/
def Pc.searching : Pc → Bool
  | .next | .clear | .poll | .pop => true
  | _ => false

/-- What a step means to the task at hand: an act that is recorded, and the stage reached. -/
structure Label (m : Nat) where
  task : TaskId
  act : Option (Act TaskId)
  stage : Stage (Thread m)

namespace Kernels

/-- The steps of thread `i`. -/
inductive Turn (b : Strategy) (s : Kernels m) (i : Thread m) :
    Kernels m → Option (Label m) → Prop
  | search {n : Nat} {p : Pc} (pc : (s.pc i).searching = true) (pc' : p.searching = true) :
      Turn b s i ((s.setNumMpi n).setPc i p) none
  | pop {q : Queue m} {t : TaskId} {rest : List TaskId} (pc : (s.pc i).searching = true)
      (owner : q.owner = i) (queue : s.queue q = t :: rest) :
      Turn b s i ((s.setQueue q rest).setPc i (.hold t)) none
  | handOver {t : TaskId} (pc : s.pc i = .hold t) :
      Turn b s i ((s.enqueue .mpi t).setPc i .next) none
  | skip {t : TaskId} (pc : s.pc i = .hold t) (kind : (s.heap t).isAceMesh = false) :
      Turn b s i (s.setPc i (.ret t none)) none
  | start {t : TaskId} (pc : s.pc i = .hold t)
      (mpi : b = .extraThread → i ≠ .mpi → s.blocking t = false) :
      Turn b s i ((s.setPc i (.body t)).record i t .start) (some ⟨t, some .start, .started i⟩)
  | finish {t : TaskId} {mode : Bool} (pc : s.pc i = .body t) :
      Turn b s i (((s.setSuspend t mode).setPc i (.restore t)).record i t
          (.finish ((s.setSuspend t mode).isSuspended b t)))
        (some ⟨t, some (.finish ((s.setSuspend t mode).isSuspended b t)),
          .stopped i ((s.setSuspend t mode).isSuspended b t)⟩)
  | restore {t : TaskId} (pc : s.pc i = .restore t) :
      Turn b s i ((s.setHeap (if (s.heap t).reused then s.heap.restoreRefCount t
        else s.heap)).setPc i (.test t)) none
  | requeue {t : TaskId} (pc : s.pc i = .test t) (suspended : s.isSuspended b t = true) :
      Turn b s i (((s.enqueue (suspendQueue b i) t).setPc i (.ret t none)).record i t .requeue)
        (some ⟨t, some .requeue, .ready⟩)
  | resume {t : TaskId} (pc : s.pc i = .test t) (clear : s.isSuspended b t = false) :
      Turn b s i (s.setPc i (.loop t 0)) (some ⟨t, none, .walking i 0⟩)
  | walk {t succ : TaskId} {k : Nat} (pc : s.pc i = .loop t k)
      (next : (s.heap t).successorTasks[k]? = some succ) :
      Turn b s i ((s.walkEdge i t succ).setPc i
          (if (s.heap succ).refCount - 1 = 0 then .push t k succ else .loop t (k + 1)))
        (some ⟨t, some (.walk succ), .walking i (k + 1)⟩)
  | arrive {t : TaskId} {k : Nat} (pc : s.pc i = .loop t k)
      (last : (s.heap t).successorTasks.length ≤ k) : Turn b s i (s.setPc i (.vert t)) none
  | spawn {t succ : TaskId} {k : Nat} {q : Queue m} (pc : s.pc i = .push t k succ) :
      Turn b s i ((s.enqueue q succ).setPc i (.loop t (k + 1))) none
  | walkVertical {t succ : TaskId} (pc : s.pc i = .vert t)
      (next : (s.heap t).verticalTask = some succ) :
      Turn b s i ((s.walkEdge i t succ).setPc i
          (.ret t (if (s.heap succ).refCount - 1 = 0 then some succ else none)))
        (some ⟨t, some (.walk succ), .walking i ((s.heap t).successorTasks.length + 1)⟩)
  | back {t : TaskId} (pc : s.pc i = .vert t) (next : (s.heap t).verticalTask = none) :
      Turn b s i (s.setPc i (.ret t none)) none
  | retire {t : TaskId} {v : Option TaskId} (pc : s.pc i = .ret t v) :
      Turn b s i (s.retire b i t v) <|
        if s.isSuspended b t then none
        else
          let deleted := deletes b i (s.heap t).reused (s.blocking t) (s.suspend t)
          some ⟨t, if deleted then some .delete else none, .gone i deleted⟩

/-- What the end of a turn does. -/
structure Retires (b : Strategy) (s : Kernels m) (i : Thread m) (t : TaskId) (v : Option TaskId)
    (s' : Kernels m) : Prop where
  shape : s.heap.SameShape s'.heap
  refCount : ∀ u, v ≠ some u → (s'.heap u).refCount = (s.heap u).refCount
  blocking : s'.blocking = s.blocking
  suspend : s'.suspend = s.suspend
  queue : s'.queue = s.queue
  pc : s'.pc = Function.update s.pc i (afterReturn v)
  main : s'.main = s.main
  log : s'.log = s.log ++
    if deletes b i (s.heap t).reused (s.blocking t) (s.suspend t) then [⟨i, t, .delete⟩] else []

theorem restoreReturned_shape (h : Heap) (i : Thread m) (v : Option TaskId) :
    h.SameShape (restoreReturned h i v) := by
  unfold restoreReturned
  split
  · exact h.sameShape_modify _ _ rfl
  · exact Heap.SameShape.refl h

theorem restoreReturned_refCount (h : Heap) (i : Thread m) {v : Option TaskId} {u : TaskId}
    (hu : v ≠ some u) : (restoreReturned h i v u).refCount = (h u).refCount := by
  unfold restoreReturned
  split
  · rename_i succ
    have hne : u ≠ succ := fun he => hu (he ▸ rfl)
    rw [Heap.restoreRefCount, Heap.modify_of_ne h hne]
  · rfl

theorem retire_spec (b : Strategy) (s : Kernels m) (i : Thread m) (t : TaskId)
    (v : Option TaskId) : Retires b s i t v (s.retire b i t v) := by
  have hshape := restoreReturned_shape s.heap i v
  have hcount : ∀ u, v ≠ some u →
      (restoreReturned s.heap i v u).refCount = (s.heap u).refCount := fun u hu =>
    restoreReturned_refCount s.heap i hu
  have hdelete : (restoreReturned s.heap i v).SameShape ((restoreReturned s.heap i v).delete t) :=
    Heap.sameShape_modify _ t _ rfl
  unfold retire
  dsimp only
  by_cases hdel : deletes b i (s.heap t).reused (s.blocking t) (s.suspend t) = true
  · rw [if_pos hdel]
    refine ⟨hshape.trans hdelete, fun u hu => ?_, rfl, rfl, rfl, rfl, rfl,
      by rw [if_pos hdel]; rfl⟩
    show ((restoreReturned s.heap i v).delete t u).refCount = _
    rw [← hcount u hu]
    exact Heap.refCount_of_delete _ t u
  · rw [if_neg hdel]
    refine ⟨hshape, hcount, rfl, rfl, rfl, rfl, rfl, ?_⟩
    rw [if_neg hdel, List.append_nil]
    rfl

theorem tryPop_turn {b : Strategy} {s : Kernels m} {i : Thread m} {q : Queue m} {hit : Bool}
    {miss : Pc} (hpc : (s.pc i).searching = true) (howner : q.owner = i)
    (hmiss : miss.searching = true) : Turn b s i (s.tryPop i q hit miss) none := by
  have hsearch : Turn b s i (s.setPc i miss) none := Turn.search (n := s.numMpi) hpc hmiss
  unfold tryPop
  split
  · rename_i t rest hqueue
    split
    · exact Turn.pop hpc howner hqueue
    · exact hsearch
  · exact hsearch

theorem threadStep_turn {b : Strategy} {s s' : Kernels m} {i : Thread m} {hit mode : Bool}
    (h : s.threadStep b i hit mode = some s') : ∃ label, Turn b s i s' label := by
  cases hpc : s.pc i with
  | next =>
      have hsearching : (s.pc i).searching = true := by rw [hpc]; rfl
      simp only [threadStep, hpc] at h
      split at h
      · cases h
        exact ⟨_, tryPop_turn hsearching rfl rfl⟩
      · cases h
        refine ⟨_, Turn.search hsearching ?_⟩
        split <;> rfl
      · cases h
        exact ⟨_, Turn.search (n := s.numMpi) hsearching rfl⟩
  | clear =>
      simp only [threadStep, hpc, Option.some.injEq] at h
      subst h
      exact ⟨_, Turn.search (by rw [hpc]; rfl) rfl⟩
  | poll =>
      simp only [threadStep, hpc, Option.some.injEq] at h
      subst h
      exact ⟨_, tryPop_turn (by rw [hpc]; rfl) rfl rfl⟩
  | pop =>
      simp only [threadStep, hpc, Option.some.injEq] at h
      subst h
      exact ⟨_, tryPop_turn (by rw [hpc]; rfl) rfl rfl⟩
  | hold t =>
      simp only [threadStep, hpc] at h
      split at h
      · cases h
        exact ⟨_, Turn.handOver hpc⟩
      · rename_i hno
        split at h
        · cases h
          refine ⟨_, Turn.start hpc fun hb hi => ?_⟩
          by_contra hblocking
          exact hno ⟨hb, hi, by simpa using hblocking⟩
        · rename_i hkind
          cases h
          exact ⟨_, Turn.skip hpc (by simpa using hkind)⟩
  | body t =>
      simp only [threadStep, hpc, Option.some.injEq] at h
      subst h
      exact ⟨_, Turn.finish hpc⟩
  | restore t =>
      simp only [threadStep, hpc, Option.some.injEq] at h
      subst h
      exact ⟨_, Turn.restore hpc⟩
  | test t =>
      simp only [threadStep, hpc] at h
      split at h
      · rename_i hsuspended
        cases h
        exact ⟨_, Turn.requeue hpc hsuspended⟩
      · rename_i hclear
        cases h
        exact ⟨_, Turn.resume hpc (by simpa using hclear)⟩
  | loop t k =>
      simp only [threadStep, hpc] at h
      split at h
      · rename_i succ hnext
        have hwalk := Turn.walk (b := b) hpc hnext
        split at h
        · rename_i hzero
          rw [if_pos hzero] at hwalk
          cases h
          exact ⟨_, hwalk⟩
        · rename_i hzero
          rw [if_neg hzero] at hwalk
          cases h
          exact ⟨_, hwalk⟩
      · rename_i hnone
        cases h
        exact ⟨_, Turn.arrive hpc (List.getElem?_eq_none_iff.mp hnone)⟩
  | push t k succ =>
      simp only [threadStep, hpc] at h
      obtain ⟨q, -, rfl⟩ := Option.map_eq_some_iff.mp h
      exact ⟨_, Turn.spawn hpc⟩
  | vert t =>
      simp only [threadStep, hpc] at h
      split at h
      · rename_i succ hnext
        have hwalk := Turn.walkVertical (b := b) hpc hnext
        split at h
        · rename_i hzero
          rw [if_pos hzero] at hwalk
          cases h
          exact ⟨_, hwalk⟩
        · rename_i hzero
          rw [if_neg hzero] at hwalk
          cases h
          exact ⟨_, hwalk⟩
      · rename_i hnone
        cases h
        exact ⟨_, Turn.back hpc hnone⟩
  | ret t v =>
      simp only [threadStep, hpc, Option.some.injEq] at h
      subst h
      exact ⟨_, Turn.retire hpc⟩

/-- The event that a label leaves in the log. -/
def events (i : Thread m) : Option (Label m) → List (Suspend.Event TaskId (Thread m))
  | some l => (l.act.map (Suspend.Event.mk i l.task)).toList
  | none => []

namespace Turn

variable {b : Strategy} {s s' : Kernels m} {i : Thread m} {label : Option (Label m)}

theorem shape (h : Turn b s i s' label) : s.heap.SameShape s'.heap := by
  cases h with
  | restore pc => exact s.heap.sameShape_restore _
  | walk pc next => exact s.heap.sameShape_decrement _
  | walkVertical pc next => exact s.heap.sameShape_decrement _
  | @retire t v pc => exact (s.retire_spec b i t v).shape
  | search => exact Heap.SameShape.refl _
  | pop => exact Heap.SameShape.refl _
  | handOver => exact Heap.SameShape.refl _
  | skip => exact Heap.SameShape.refl _
  | start => exact Heap.SameShape.refl _
  | finish => exact Heap.SameShape.refl _
  | requeue => exact Heap.SameShape.refl _
  | resume => exact Heap.SameShape.refl _
  | arrive => exact Heap.SameShape.refl _
  | spawn => exact Heap.SameShape.refl _
  | back => exact Heap.SameShape.refl _

/-- Neither the types nor the main thread's place in the program change. -/
theorem frame (h : Turn b s i s' label) : s'.blocking = s.blocking ∧ s'.main = s.main := by
  cases h with
  | @retire t v pc => exact ⟨(s.retire_spec b i t v).blocking, (s.retire_spec b i t v).main⟩
  | search => exact ⟨rfl, rfl⟩
  | pop => exact ⟨rfl, rfl⟩
  | handOver => exact ⟨rfl, rfl⟩
  | skip => exact ⟨rfl, rfl⟩
  | start => exact ⟨rfl, rfl⟩
  | finish => exact ⟨rfl, rfl⟩
  | restore => exact ⟨rfl, rfl⟩
  | requeue => exact ⟨rfl, rfl⟩
  | resume => exact ⟨rfl, rfl⟩
  | walk => exact ⟨rfl, rfl⟩
  | arrive => exact ⟨rfl, rfl⟩
  | spawn => exact ⟨rfl, rfl⟩
  | walkVertical => exact ⟨rfl, rfl⟩
  | back => exact ⟨rfl, rfl⟩

theorem others (h : Turn b s i s' label) {j : Thread m} (hj : j ≠ i) : s'.pc j = s.pc j := by
  cases h with
  | @retire t v pc =>
      rw [(s.retire_spec b i t v).pc]
      exact Function.update_of_ne hj ..
  | search => exact Function.update_of_ne hj ..
  | pop => exact Function.update_of_ne hj ..
  | handOver => exact Function.update_of_ne hj ..
  | skip => exact Function.update_of_ne hj ..
  | start => exact Function.update_of_ne hj ..
  | finish => exact Function.update_of_ne hj ..
  | restore => exact Function.update_of_ne hj ..
  | requeue => exact Function.update_of_ne hj ..
  | resume => exact Function.update_of_ne hj ..
  | walk => exact Function.update_of_ne hj ..
  | arrive => exact Function.update_of_ne hj ..
  | spawn => exact Function.update_of_ne hj ..
  | walkVertical => exact Function.update_of_ne hj ..
  | back => exact Function.update_of_ne hj ..

/-- Only the body of a task changes its flag. -/
theorem suspend (h : Turn b s i s' label) {t : TaskId} (ht : s.pc i ≠ .body t) :
    s'.suspend t = s.suspend t := by
  cases h with
  | @retire u v pc => rw [(s.retire_spec b i u v).suspend]
  | @finish u mode pc =>
      refine Function.update_of_ne ?_ ..
      rintro rfl
      exact ht pc
  | search => rfl
  | pop => rfl
  | handOver => rfl
  | skip => rfl
  | start => rfl
  | restore => rfl
  | requeue => rfl
  | resume => rfl
  | walk => rfl
  | arrive => rfl
  | spawn => rfl
  | walkVertical => rfl
  | back => rfl

/-- Unless the thread returns from a task that has been queued once more, which it does not
delete, the log tells the label. -/
theorem log (h : Turn b s i s' label) : s'.log = s.log ++ events i label := by
  cases h with
  | @retire t v pc =>
      rw [(s.retire_spec b i t v).log]
      by_cases hsuspended : s.isSuspended b t = true
      · have hkept : deletes b i (s.heap t).reused (s.blocking t) (s.suspend t) = false := by
          obtain ⟨hb, hblocking, hsuspend⟩ := isSuspended_iff.mp hsuspended
          rw [hblocking, hsuspend]
          unfold deletes
          split
          · exact absurd rfl hb
          · simp
          · rfl
          · rfl
          · simp
        rw [hkept, if_pos hsuspended]
        rfl
      · rw [if_neg hsuspended]
        dsimp only [events]
        split <;> rfl
  | search => exact (List.append_nil _).symm
  | pop => exact (List.append_nil _).symm
  | handOver => exact (List.append_nil _).symm
  | skip => exact (List.append_nil _).symm
  | start => rfl
  | finish => rfl
  | restore => exact (List.append_nil _).symm
  | requeue => rfl
  | resume => exact (List.append_nil _).symm
  | walk => rfl
  | arrive => exact (List.append_nil _).symm
  | spawn => exact (List.append_nil _).symm
  | walkVertical => rfl
  | back => exact (List.append_nil _).symm

/-- A counter goes down by the walk of an edge; only that of a task at hand is restored. -/
theorem refCount (h : Turn b s i s' label) {u : TaskId} (hrestore : s.pc i ≠ .restore u)
    (hreturned : ∀ t, s.pc i ≠ .ret t (some u)) : (s'.heap u).refCount = (s.heap u).refCount -
      if (label.bind Label.act) = some (.walk u) then 1 else 0 := by
  cases h with
  | @retire t v pc =>
      rw [(s.retire_spec b i t v).refCount u (fun hv => hreturned t (hv ▸ pc)), if_neg]
      · exact (Int.sub_zero _).symm
      · split
        · simp
        · dsimp only [Option.bind_some]
          split <;> simp
  | @restore t pc =>
      have hne : u ≠ t := by
        rintro rfl
        exact hrestore pc
      show ((if (s.heap t).reused then s.heap.restoreRefCount t else s.heap) u).refCount = _
      rw [Heap.refCount_restore, if_neg fun hand => hne hand.1]
      simp
  | @walk t succ k pc next =>
      show (s.heap.decrementRefCount succ u).refCount = _
      rw [Heap.refCount_decrement]
      simp [eq_comm]
  | @walkVertical t succ pc next =>
      show (s.heap.decrementRefCount succ u).refCount = _
      rw [Heap.refCount_decrement]
      simp [eq_comm]
  | search => simp [setPc, setNumMpi]
  | pop => simp [setPc, setQueue]
  | handOver => simp [setPc, enqueue, setQueue]
  | skip => simp [setPc]
  | start => simp [setPc, record]
  | finish => simp [setPc, record, setSuspend]
  | requeue => simp [setPc, record, enqueue, setQueue]
  | resume => simp [setPc]
  | arrive => simp [setPc]
  | spawn => simp [setPc, enqueue, setQueue]
  | back => simp [setPc]

end Turn

end Kernels

/-- All edges of `t` have been walked; the thread has still to return. -/
def Pc.Leftover (h : Heap) (t : TaskId) : Pc → Prop
  | .loop u k => u = t ∧ (h t).successorTasks.length ≤ k ∧ (h t).verticalTask = none
  | .vert u => u = t ∧ (h t).verticalTask = none
  | .ret u v => u = t ∧ v = none
  | _ => False

theorem Pc.leftover_shape {h h' : Heap} (hs : h.SameShape h') (t : TaskId) (p : Pc) :
    p.Leftover h' t ↔ p.Leftover h t := by
  cases p <;> simp only [Pc.Leftover, hs.successorTasks, hs.verticalTask]

namespace Kernels

/-- A thread that has only to return does no more than that. -/
structure Returns (s s' : Kernels m) (i : Thread m) (t : TaskId) : Prop where
  pc : (s'.pc i).Leftover s.heap t ∨ s'.pc i = .next
  queue : s'.queue = s.queue
  suspend : s'.suspend = s.suspend
  refCount : ∀ u, (s'.heap u).refCount = (s.heap u).refCount
  log : s'.log = s.log ∨ (s'.log = s.log ++ [⟨i, t, .delete⟩] ∧ (s.heap t).reused = false)

theorem deletes_reused {b : Strategy} {i : Thread m} {blocking suspend : Bool} :
    deletes b i true blocking suspend = false := by
  unfold deletes
  split <;> simp

theorem Turn.returns {b : Strategy} {s s' : Kernels m} {i : Thread m} {label : Option (Label m)}
    (h : Turn b s i s' label) {t : TaskId} (hpc : (s.pc i).Leftover s.heap t) :
    Returns s s' i t := by
  have hself : ∀ (s₁ : Kernels m) p, (s₁.setPc i p).pc i = p := fun s₁ p => Function.update_self ..
  cases h with
  | @walk u succ k pc next =>
      rw [pc] at hpc
      obtain ⟨rfl, hlen, -⟩ := hpc
      rw [List.getElem?_eq_none hlen] at next
      cases next
  | @walkVertical u succ pc next =>
      rw [pc] at hpc
      obtain ⟨rfl, hnone⟩ := hpc
      rw [hnone] at next
      cases next
  | @arrive u k pc last =>
      rw [pc] at hpc
      obtain ⟨rfl, -, hnone⟩ := hpc
      refine ⟨Or.inl ?_, rfl, rfl, fun _ => rfl, Or.inl rfl⟩
      rw [hself]
      exact ⟨rfl, hnone⟩
  | @back u pc next =>
      rw [pc] at hpc
      obtain ⟨rfl, -⟩ := hpc
      refine ⟨Or.inl ?_, rfl, rfl, fun _ => rfl, Or.inl rfl⟩
      rw [hself]
      exact ⟨rfl, rfl⟩
  | @retire u v pc =>
      rw [pc] at hpc
      obtain ⟨rfl, rfl⟩ := hpc
      have hspec := s.retire_spec b i u none
      refine ⟨Or.inr ?_, hspec.queue, hspec.suspend, fun w => hspec.refCount w nofun, ?_⟩
      · rw [hspec.pc]
        exact Function.update_self ..
      · rw [hspec.log]
        cases hreused : (s.heap u).reused with
        | true =>
            rw [deletes_reused]
            exact Or.inl (List.append_nil _)
        | false =>
            split
            · exact Or.inr ⟨rfl, rfl⟩
            · exact Or.inl (List.append_nil _)
  | @search n p pc pc' =>
      cases hp : s.pc i <;> rw [hp] at hpc pc <;> first | exact hpc.elim | cases pc
  | @pop q u rest pc owner queue =>
      cases hp : s.pc i <;> rw [hp] at hpc pc <;> first | exact hpc.elim | cases pc
  | handOver pc => rw [pc] at hpc; exact hpc.elim
  | skip pc kind => rw [pc] at hpc; exact hpc.elim
  | start pc mpi => rw [pc] at hpc; exact hpc.elim
  | finish pc => rw [pc] at hpc; exact hpc.elim
  | restore pc => rw [pc] at hpc; exact hpc.elim
  | requeue pc suspended => rw [pc] at hpc; exact hpc.elim
  | resume pc clear => rw [pc] at hpc; exact hpc.elim
  | spawn pc => rw [pc] at hpc; exact hpc.elim

/-- Between two turns a thread has nothing or one task in its hand. -/
theorem threadStep_between {b : Strategy} {s s' : Kernels m} {i : Thread m} {hit mode : Bool}
    (h : s.threadStep b i hit mode = some s') (hends : endsTurn (s.pc i) (s'.pc i) = true) :
    s'.pc i = .next ∨ ∃ t, s'.pc i = .hold t := by
  have hcases : s'.pc i = .next ∨ ∃ t v, s.pc i = .ret t v := by
    generalize s.pc i = p at hends
    generalize s'.pc i = p' at hends
    unfold endsTurn at hends
    split at hends
    · exact Or.inl rfl
    · exact Or.inr ⟨_, _, rfl⟩
    · cases hends
  obtain hnext | ⟨t, v, hpc⟩ := hcases
  · exact Or.inl hnext
  · simp only [threadStep, hpc, Option.some.injEq] at h
    subst h
    rw [(s.retire_spec b i t v).pc, Function.update_self]
    cases v with
    | none => exact Or.inl rfl
    | some succ => exact Or.inr ⟨succ, rfl⟩

/-- The steps of all threads. -/
inductive Move (b : Strategy) (s : Kernels m) : Kernels m → Option (Label m) → Prop
  | turn {i : Thread m} {s' : Kernels m} {label : Option (Label m)}
      (working : i = .main → ∃ e, s.main = .run e) (present : i = .mpi → b = .extraThread)
      (turn : Turn b s i s' label) : Move b s s' label
  | turnEnd {e : TaskId} {s' : Kernels m} {label : Option (Label m)} (main : s.main = .run e)
      (turn : Turn b s .main s' label)
      (between : s'.pc .main = .next ∨ ∃ t, s'.pc .main = .hold t) :
      Move b s { s' with main := .test e } label
  | root {e t : TaskId} {roots : List TaskId} {q : Queue m}
      (main : s.main = .spawn e (t :: roots)) :
      Move b s { s.enqueue q t with main := .spawn e roots } none
  | enter {e : TaskId} (main : s.main = .spawn e []) :
      Move b s { s.setPc .main .next with main := .test e } none
  | test {e : TaskId} (main : s.main = .test e) :
      Move b s { s with main := if 1 < (s.heap e).refCount then .run e else .left e } none
  | keep {e : TaskId} (main : s.main = .left e) (reused : (s.heap e).reused = true) :
      Move b s { s with main := .returned e } none
  | delete {e : TaskId} (main : s.main = .left e) (reused : (s.heap e).reused = false) :
      Move b s { (s.setHeap (s.heap.delete e)).record .main e .delete with main := .returned e }
        none
  | back {e : TaskId} (main : s.main = .returned e) :
      Move b s { s with
        heap := if (s.heap e).reused then s.heap.restoreRefCount e else s.heap
        main := .prog } none

theorem step_move {b : Strategy} {s s' : Kernels m} {i : Thread m} {hit mode : Bool}
    (h : s.step b i hit mode = some s') : ∃ label, Move b s s' label := by
  have hmain : ∀ {s'}, s.mainStep b hit mode = some s' → ∃ label, Move b s s' label := by
    intro s' h
    cases hm : s.main with
    | prog => simp [mainStep, hm] at h
    | spawn e roots =>
        cases roots with
        | nil =>
            simp only [mainStep, hm, Option.some.injEq] at h
            subst h
            exact ⟨_, Move.enter hm⟩
        | cons t roots =>
            simp only [mainStep, hm] at h
            obtain ⟨q, -, rfl⟩ := Option.map_eq_some_iff.mp h
            exact ⟨_, Move.root hm⟩
    | test e =>
        simp only [mainStep, hm, Option.some.injEq] at h
        subst h
        exact ⟨_, Move.test hm⟩
    | run e =>
        simp only [mainStep, hm] at h
        obtain ⟨s₁, hstep, rfl⟩ := Option.map_eq_some_iff.mp h
        obtain ⟨label, hturn⟩ := threadStep_turn hstep
        split
        · rename_i hends
          exact ⟨label, Move.turnEnd hm hturn (threadStep_between hstep hends)⟩
        · exact ⟨label, Move.turn (i := .main) (fun _ => ⟨e, hm⟩) (fun he => nomatch he) hturn⟩
    | left e =>
        simp only [mainStep, hm] at h
        split at h
        · rename_i hreused
          cases h
          exact ⟨_, Move.keep hm hreused⟩
        · rename_i hreused
          cases h
          exact ⟨_, Move.delete hm (by simpa using hreused)⟩
    | returned e =>
        simp only [mainStep, hm, Option.some.injEq] at h
        subst h
        exact ⟨_, Move.back hm⟩
  cases i with
  | worker j =>
      simp only [step] at h
      split at h
      · exact hmain h
      · rename_i hj
        obtain ⟨label, hturn⟩ := threadStep_turn h
        have hother : (.worker j : Thread m) ≠ .main :=
          fun he => hj (congrArg Fin.val (Thread.worker.inj he))
        exact ⟨label, Move.turn (fun he => absurd he hother) (fun he => nomatch he) hturn⟩
  | mpi =>
      simp only [step] at h
      split at h
      · rename_i hb
        obtain ⟨label, hturn⟩ := threadStep_turn h
        exact ⟨label, Move.turn (i := .mpi) (fun he => nomatch he) (fun _ => hb) hturn⟩
      · cases h

end Kernels

end AceMesh.MpiStrategy
