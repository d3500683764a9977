import AceMesh.Task
import AceMesh.Lib.Linked
import Mathlib.Data.List.Rotate

/-!
# The polling queue

A pass of `mpi_worker_kernel_func` over the communication tasks that wait for MPI. It takes a
node from `polling_queue`, tests the two handles, and hands the task over to `mpi_queue` or puts
the node back. It ends when it meets the first node that it has put back.

The queue is intrusive: it links the nodes through their own `next`, and `try_pop` leaves `tail`
where it was. `Holds` is what the queue keeps nevertheless, and `pollLoop_spec` is what a pass
does from any of its turns on. `calls` and `examined` record what the pass has done; no step
reads more of them than the number of calls.
-/

namespace AceMesh

abbrev MtestId := Nat

/-- `mtest_task` without its link. -/
structure MtestTask where
  commHandle1 : Option Nat
  commHandle2 : Option Nat
  commTask : TaskId
  commKind1 : Int

inductive Handle
  | first
  | second
  deriving DecidableEq

def MtestTask.commHandle (mt : MtestTask) : Handle → Option Nat
  | .first => mt.commHandle1
  | .second => mt.commHandle2

/-- `aceMesh_mtest_queue`, with the links of all nodes. -/
structure MtestQueue where
  next : MtestId → Option MtestId
  head : Option MtestId
  tail : Option MtestId

namespace MtestQueue

def push (q : MtestQueue) (t : MtestId) : Option MtestQueue :=
  let next := Function.update q.next t none
  match q.head with
  | none => some { next := next, head := some t, tail := some t }
  | some _ =>
    q.tail.map fun last => { q with next := Function.update next last (some t), tail := some t }

def tryPop (q : MtestQueue) : Option MtestId × MtestQueue :=
  match q.head with
  | none => (none, q)
  | some oldTop => (some oldTop, { q with head := q.next oldTop })

/-- The queue holds these nodes. Nothing is known of the tail of an empty one. -/
structure Holds (q : MtestQueue) (l : List MtestId) : Prop where
  linked : Linked q.next q.head l
  last : ∀ t ∈ l.getLast?, q.tail = some t
  nodup : l.Nodup

variable {q : MtestQueue} {l : List MtestId}

theorem Holds.push (h : q.Holds l) {t : MtestId} (ht : t ∉ l) :
    ∃ q', q.push t = some q' ∧ q'.Holds (l ++ [t]) := by
  have hnodup : (l ++ [t]).Nodup := by
    rw [← List.concat_eq_append]
    exact h.nodup.concat ht
  have hlinked := h.linked.update ht none
  have hend : Function.update q.next t none t = none := Function.update_self ..
  rcases List.eq_nil_or_concat l with rfl | ⟨l', x, rfl⟩
  · refine ⟨⟨Function.update q.next t none, some t, some t⟩, ?_, ⟨⟨rfl, hend⟩, ?_, hnodup⟩⟩
    · unfold MtestQueue.push
      rw [show q.head = none from h.linked]
    · intro u hu
      exact hu
  · rw [List.concat_eq_append] at *
    let next := Function.update (Function.update q.next t none) x (some t)
    have htail : q.tail = some x := h.last x (by simp)
    obtain ⟨y, hhead⟩ : ∃ y, q.head = some y := by
      cases l' with
      | nil => exact ⟨x, h.linked.1⟩
      | cons y l' => exact ⟨y, h.linked.1⟩
    refine ⟨⟨next, q.head, some t⟩, ?_, ⟨hlinked.snoc h.nodup ht hend, ?_, hnodup⟩⟩
    · unfold MtestQueue.push
      rw [hhead, htail]
      rfl
    · intro u hu
      rw [List.getLast?_append_of_ne_nil _ (List.cons_ne_nil t [])] at hu
      exact hu

theorem Holds.tryPop_nil (h : q.Holds []) : q.tryPop = (none, q) := by
  unfold tryPop
  rw [show q.head = none from h.linked]

theorem Holds.tryPop_cons {t : MtestId} (h : q.Holds (t :: l)) :
    ∃ q', q.tryPop = (some t, q') ∧ q'.Holds l := by
  refine ⟨{ q with head := q.next t }, ?_, h.linked.2, ?_, (List.nodup_cons.mp h.nodup).2⟩
  · unfold tryPop
    rw [h.linked.1]
  · intro u hu
    apply h.last
    rw [List.getLast?_cons, hu]
    rfl

end MtestQueue

/-- A call of `MPI_Test` for a handle of a node, with its outcome. -/
structure TestCall where
  node : MtestId
  handle : Handle
  rest : Int

structure Polling where
  pollingQueue : MtestQueue
  /-- The oldest task first. -/
  mpiQueue : List TaskId
  calls : List TestCall
  examined : List MtestId

namespace Polling

def push (p : Polling) (t : MtestId) : Option Polling :=
  (p.pollingQueue.push t).map fun q => { p with pollingQueue := q }

def getNextMtestTask (p : Polling) : Option MtestId × Polling :=
  let (t, q) := p.pollingQueue.tryPop
  (t, { p with pollingQueue := q })

/-- `mpi_queue.push`. -/
def pushMpi (p : Polling) (t : TaskId) : Polling := { p with mpiQueue := p.mpiQueue ++ [t] }

section Pass

variable (mpiTest : Nat → Nat → Int) (nodes : MtestId → MtestTask)

/-- The tests of one request, at most `n` of them. -/
def testLoop (p : Polling) (mt : MtestId) (h : Handle) (request : Nat) : Nat → Int × Polling
  | 0 => (0, p)
  | n + 1 =>
    let rest := mpiTest p.calls.length request
    let p := { p with calls := p.calls ++ [⟨mt, h, rest⟩] }
    if rest = 0 then testLoop p mt h request n else (rest, p)

/-- For both handles the number of tests depends on `comm_kind1`. -/
def testMaxCount (mt : MtestTask) : Nat := if mt.commKind1 ≠ 3 then 1 else 8

def testHandle (p : Polling) (mt : MtestId) (h : Handle) : Bool × Polling :=
  match (nodes mt).commHandle h with
  | none => (true, p)
  | some request =>
    let (rest, p) := p.testLoop mpiTest mt h request (testMaxCount (nodes mt))
    (decide (rest ≠ 0), p)

/-- Both handles of a node; the result is `flag`. -/
def examine (p : Polling) (mt : MtestId) : Bool × Polling :=
  let p := { p with examined := p.examined ++ [mt] }
  let (flag1, p) := p.testHandle mpiTest nodes mt .first
  let (flag2, p) := p.testHandle mpiTest nodes mt .second
  (flag1 && flag2, p)

/-- A node is handed over or put back; the result is `old_mt`. -/
def handle (p : Polling) (mt : MtestId) (oldMt : Option MtestId) :
    Option (Option MtestId × Polling) :=
  let (flag, p) := p.examine mpiTest nodes mt
  if flag then some (oldMt, p.pushMpi (nodes mt).commTask)
  else (p.push mt).map fun p => (some (oldMt.getD mt), p)

/-- `while (mt != NULL)`, for `fuel` turns at most. -/
def pollLoop : Nat → Polling → Option MtestId → Option MtestId → Option Polling
  | 0, _, _, _ => none
  | _ + 1, p, none, _ => some p
  | fuel + 1, p, some mt, oldMt =>
    (p.handle mpiTest nodes mt oldMt).bind fun (oldMt, p) =>
      let (mt, p) := p.getNextMtestTask
      if mt = oldMt then
        match mt with
        | none => some p
        | some mt => p.push mt
      else pollLoop fuel p mt oldMt

/-- The polling loop of `mpi_worker_kernel_func`. -/
def poll (fuel : Nat) (p : Polling) : Option Polling :=
  let (mt, p) := p.getNextMtestTask
  pollLoop mpiTest nodes fuel p mt none

/-! ## One node -/

/-- Among these calls one has found the request complete. -/
def Passed (calls : List TestCall) (t : MtestId) (h : Handle) : Prop :=
  (nodes t).commHandle h = none ∨ ∃ c ∈ calls, c.node = t ∧ c.handle = h ∧ c.rest ≠ 0

instance (calls : List TestCall) (t : MtestId) (h : Handle) : Decidable (Passed nodes calls t h) :=
  inferInstanceAs (Decidable (_ ∨ _))

/-- Both handles of a node are complete or null. -/
def Complete (calls : List TestCall) (t : MtestId) : Prop :=
  Passed nodes calls t .first ∧ Passed nodes calls t .second

instance (calls : List TestCall) : DecidablePred (Complete nodes calls) :=
  fun _ => inferInstanceAs (Decidable (_ ∧ _))

variable {nodes} {calls calls' : List TestCall} {t : MtestId}

/-- Only the calls for the handle count. -/
theorem passed_congr {h : Handle}
    (heq : ∀ c : TestCall, c.node = t → c.handle = h → (c ∈ calls ↔ c ∈ calls')) :
    Passed nodes calls t h ↔ Passed nodes calls' t h := by
  apply or_congr_right
  constructor
  · rintro ⟨c, hc, hnode, hhandle, hrest⟩
    exact ⟨c, (heq c hnode hhandle).mp hc, hnode, hhandle, hrest⟩
  · rintro ⟨c, hc, hnode, hhandle, hrest⟩
    exact ⟨c, (heq c hnode hhandle).mpr hc, hnode, hhandle, hrest⟩

theorem complete_congr (heq : ∀ c : TestCall, c.node = t → (c ∈ calls ↔ c ∈ calls')) :
    Complete nodes calls t ↔ Complete nodes calls' t :=
  and_congr (passed_congr fun c hc _ => heq c hc) (passed_congr fun c hc _ => heq c hc)

variable (nodes)

/-- The calls `new` are made for the handle `h` of the node `t`. -/
def CallsFor (new : List TestCall) (t : MtestId) (h : Handle) : Prop :=
  ∀ c ∈ new, c.node = t ∧ c.handle = h

/-- Every request of the node is tested. -/
def Tested (calls : List TestCall) (t : MtestId) : Prop :=
  ∀ h, (nodes t).commHandle h ≠ none → ∃ c ∈ calls, c.node = t ∧ c.handle = h

theorem testLoop_spec (p : Polling) (t : MtestId) (h : Handle) (request n : Nat) :
    ∃ rest new, p.testLoop mpiTest t h request n = (rest, { p with calls := p.calls ++ new }) ∧
      CallsFor new t h ∧ (0 < n → new ≠ []) ∧ (rest ≠ 0 ↔ ∃ c ∈ new, c.rest ≠ 0) := by
  induction n generalizing p with
  | zero =>
      refine ⟨0, [], ?_, fun c hc => absurd hc List.not_mem_nil, fun hn => absurd hn (by omega), ?_⟩
      · rw [List.append_nil]
        rfl
      · simp
  | succ n ih =>
      let call : TestCall := ⟨t, h, mpiTest p.calls.length request⟩
      unfold testLoop
      by_cases hrest : mpiTest p.calls.length request = 0
      · obtain ⟨rest, new, hp, hnew, -, hflag⟩ := ih { p with calls := p.calls ++ [call] }
        refine ⟨rest, call :: new, ?_, ?_, fun _ => List.cons_ne_nil call new, ?_⟩
        · simp only [if_pos hrest]
          rw [hp, List.append_assoc]
          rfl
        · intro c hc
          rcases List.mem_cons.mp hc with rfl | hc
          · exact ⟨rfl, rfl⟩
          · exact hnew c hc
        · rw [hflag]
          constructor
          · rintro ⟨c, hc, hne⟩
            exact ⟨c, List.mem_cons_of_mem call hc, hne⟩
          · rintro ⟨c, hc, hne⟩
            rcases List.mem_cons.mp hc with rfl | hc
            · exact absurd hrest hne
            · exact ⟨c, hc, hne⟩
      · refine ⟨call.rest, [call], ?_, ?_, fun _ => List.cons_ne_nil call [], ?_⟩
        · simp only [if_neg hrest]
          rfl
        · intro c hc
          rw [List.mem_singleton.mp hc]
          exact ⟨rfl, rfl⟩
        · exact ⟨fun _ => ⟨call, List.mem_singleton.mpr rfl, hrest⟩, fun _ => hrest⟩

theorem testHandle_spec (p : Polling) (t : MtestId) (h : Handle) :
    ∃ flag new, p.testHandle mpiTest nodes t h = (flag, { p with calls := p.calls ++ new }) ∧
      CallsFor new t h ∧ ((nodes t).commHandle h ≠ none → new ≠ []) ∧
      (flag = true ↔ Passed nodes new t h) := by
  unfold testHandle
  split
  · rename_i hnull
    refine ⟨true, [], ?_, fun c hc => absurd hc List.not_mem_nil, fun hne => absurd hnull hne, ?_⟩
    · rw [List.append_nil]
    · exact ⟨fun _ => Or.inl hnull, fun _ => rfl⟩
  · rename_i request hrequest
    have hpos : 0 < testMaxCount (nodes t) := by
      unfold testMaxCount
      split <;> omega
    obtain ⟨rest, new, hp, hnew, hne, hflag⟩ := p.testLoop_spec mpiTest t h request
      (testMaxCount (nodes t))
    refine ⟨decide (rest ≠ 0), new, ?_, hnew, fun _ => hne hpos, ?_⟩
    · rw [hp]
    · rw [decide_eq_true_iff, hflag]
      constructor
      · rintro ⟨c, hc, hrest⟩
        exact Or.inr ⟨c, hc, (hnew c hc).1, (hnew c hc).2, hrest⟩
      · rintro (hnull | ⟨c, hc, -, -, hrest⟩)
        · rw [hrequest] at hnull
          cases hnull
        · exact ⟨c, hc, hrest⟩

theorem examine_spec (p : Polling) (t : MtestId) :
    ∃ flag new, p.examine mpiTest nodes t =
        (flag, { p with calls := p.calls ++ new, examined := p.examined ++ [t] }) ∧
      (∀ c ∈ new, c.node = t) ∧ Tested nodes new t ∧
      (flag = true ↔ Complete nodes new t) := by
  let p₁ : Polling := { p with examined := p.examined ++ [t] }
  obtain ⟨flag₁, new₁, hp₁, hnew₁, hne₁, hflag₁⟩ := p₁.testHandle_spec mpiTest nodes t .first
  let p₂ : Polling := { p₁ with calls := p.calls ++ new₁ }
  obtain ⟨flag₂, new₂, hp₂, hnew₂, hne₂, hflag₂⟩ := p₂.testHandle_spec mpiTest nodes t .second
  have hfirst {c : TestCall} (hc : c.handle = .first) : c ∈ new₁ ++ new₂ ↔ c ∈ new₁ := by
    rw [List.mem_append, or_iff_left]
    intro hmem
    rw [(hnew₂ c hmem).2] at hc
    cases hc
  have hsecond {c : TestCall} (hc : c.handle = .second) : c ∈ new₁ ++ new₂ ↔ c ∈ new₂ := by
    rw [List.mem_append, or_iff_right]
    intro hmem
    rw [(hnew₁ c hmem).2] at hc
    cases hc
  refine ⟨flag₁ && flag₂, new₁ ++ new₂, ?_, ?_, ?_, ?_⟩
  · unfold examine
    change (match p₁.testHandle mpiTest nodes t .first with
      | (flag1, p) => match p.testHandle mpiTest nodes t .second with
        | (flag2, p) => (flag1 && flag2, p)) = _
    rw [hp₁]
    change (match p₂.testHandle mpiTest nodes t .second with
      | (flag2, p) => (flag₁ && flag2, p)) = _
    rw [hp₂, ← List.append_assoc]
  · intro c hc
    rcases List.mem_append.mp hc with hc | hc
    · exact (hnew₁ c hc).1
    · exact (hnew₂ c hc).1
  · rintro (_ | _) hne
    · obtain ⟨c, hc⟩ := List.exists_mem_of_ne_nil _ (hne₁ hne)
      exact ⟨c, List.mem_append.mpr (Or.inl hc), hnew₁ c hc⟩
    · obtain ⟨c, hc⟩ := List.exists_mem_of_ne_nil _ (hne₂ hne)
      exact ⟨c, List.mem_append.mpr (Or.inr hc), hnew₂ c hc⟩
  · rw [Bool.and_eq_true, hflag₁, hflag₂]
    exact and_congr (passed_congr fun c _ hc => (hfirst hc).symm)
      (passed_congr fun c _ hc => (hsecond hc).symm)

/-! ## A pass -/

/-- What a pass over the nodes `l` does: it makes the calls `new`, it appends the tasks of the
complete nodes to `mpi_queue`, and the nodes `kept` and the others of `l` stay. -/
structure PassEnd (p p' : Polling) (kept l : List MtestId) (new : List TestCall) : Prop where
  calls : p'.calls = p.calls ++ new
  only : ∀ c ∈ new, c.node ∈ l
  tested : ∀ t ∈ l, Tested nodes new t
  examined : p'.examined = p.examined ++ l
  mpiQueue : p'.mpiQueue =
    p.mpiQueue ++ (l.filter (Complete nodes new)).map fun t => (nodes t).commTask
  queue : p'.pollingQueue.Holds
    ((kept ++ l.filter fun t => ¬Complete nodes new t).rotate 1)

variable {p p' : Polling} {l kept : List MtestId}

theorem getNext_nil (h : p.pollingQueue.Holds []) : p.getNextMtestTask = (none, p) := by
  unfold getNextMtestTask
  rw [h.tryPop_nil]

theorem getNext_cons (h : p.pollingQueue.Holds (t :: l)) :
    ∃ q, p.getNextMtestTask = (some t, { p with pollingQueue := q }) ∧ q.Holds l := by
  obtain ⟨q, hq, hholds⟩ := h.tryPop_cons
  refine ⟨q, ?_, hholds⟩
  unfold getNextMtestTask
  rw [hq]

theorem push_holds (h : p.pollingQueue.Holds l) (ht : t ∉ l) :
    ∃ q, p.push t = some { p with pollingQueue := q } ∧ q.Holds (l ++ [t]) := by
  obtain ⟨q, hq, hholds⟩ := h.push ht
  refine ⟨q, ?_, hholds⟩
  unfold push
  rw [hq]
  rfl

/-- The node is handed over, or it becomes the last one that has been put back. -/
theorem handle_spec (hqueue : p.pollingQueue.Holds (l ++ kept)) (ht : t ∉ l ++ kept) :
    ∃ new kept' p', p.handle mpiTest nodes t kept.head? = some (kept'.head?, p') ∧
      (∀ c ∈ new, c.node = t) ∧ Tested nodes new t ∧
      kept' = (kept ++ [t].filter fun t => ¬Complete nodes new t) ∧
      p'.pollingQueue.Holds (l ++ kept') ∧ p'.calls = p.calls ++ new ∧
      p'.examined = p.examined ++ [t] ∧
      p'.mpiQueue =
        p.mpiQueue ++ ([t].filter (Complete nodes new)).map fun t => (nodes t).commTask := by
  obtain ⟨flag, new, hp, hnew, htested, hflag⟩ := p.examine_spec mpiTest nodes t
  let p₁ : Polling := { p with calls := p.calls ++ new, examined := p.examined ++ [t] }
  by_cases hcomplete : Complete nodes new t
  · refine ⟨new, kept, p₁.pushMpi (nodes t).commTask, ?_, hnew, htested, ?_, hqueue, rfl, rfl, ?_⟩
    · unfold handle
      rw [hp, hflag.mpr hcomplete]
      rfl
    · simp [hcomplete]
    · simp [hcomplete, pushMpi, p₁]
  · obtain ⟨q, hq, hholds⟩ := push_holds (p := p₁) hqueue ht
    refine ⟨new, kept ++ [t], { p₁ with pollingQueue := q }, ?_, hnew, htested, ?_, ?_, rfl, rfl, ?_⟩
    · have hhead : (kept ++ [t]).head? = some (kept.head?.getD t) := by
        cases kept <;> rfl
      unfold handle
      rw [hp, hhead]
      change (if flag then _ else (p₁.push t).map _) = _
      rw [hq, if_neg fun h => hcomplete (hflag.mp h)]
      rfl
    · simp [hcomplete]
    · rw [← List.append_assoc]
      exact hholds
    · simp [hcomplete, p₁]

/-- The nodes before `l` have been examined without its calls, and the other way round. -/
theorem complete_append {new₁ new₂ : List TestCall} {t u : MtestId}
    (hnew₁ : ∀ c ∈ new₁, c.node = t) (hnew₂ : ∀ c ∈ new₂, c.node ∈ l) (ht : t ∉ l) :
    (Complete nodes (new₁ ++ new₂) t ↔ Complete nodes new₁ t) ∧
      (u ∈ l → (Complete nodes (new₁ ++ new₂) u ↔ Complete nodes new₂ u)) := by
  constructor
  · apply complete_congr
    intro c hc
    rw [List.mem_append, or_iff_left]
    intro hmem
    apply ht
    rw [← hc]
    exact hnew₂ c hmem
  · intro hu
    apply complete_congr
    intro c hc
    rw [List.mem_append, or_iff_right]
    intro hmem
    apply ht
    rw [← hnew₁ c hmem, hc]
    exact hu

/-- One node, then the others. -/
theorem PassEnd.cons {p₁ : Polling} {new₁ new₂ : List TestCall} (ht : t ∉ l)
    (hnew₁ : ∀ c ∈ new₁, c.node = t) (htested : Tested nodes new₁ t)
    (hcalls : p₁.calls = p.calls ++ new₁) (hexamined : p₁.examined = p.examined ++ [t])
    (hmpi : p₁.mpiQueue =
      p.mpiQueue ++ ([t].filter (Complete nodes new₁)).map fun t => (nodes t).commTask)
    (h : PassEnd nodes p₁ p' (kept ++ [t].filter fun t => ¬Complete nodes new₁ t) l new₂) :
    PassEnd nodes p p' kept (t :: l) (new₁ ++ new₂) := by
  have hhead (u : MtestId) (hu : u ∈ [t]) :
      Complete nodes (new₁ ++ new₂) u ↔ Complete nodes new₁ u := by
    rw [List.mem_singleton.mp hu]
    exact (complete_append nodes (u := t) hnew₁ h.only ht).1
  have hrest (u : MtestId) (hu : u ∈ l) :
      Complete nodes (new₁ ++ new₂) u ↔ Complete nodes new₂ u :=
    (complete_append nodes hnew₁ h.only ht).2 hu
  have hcomplete : (t :: l).filter (Complete nodes (new₁ ++ new₂)) =
      [t].filter (Complete nodes new₁) ++ l.filter (Complete nodes new₂) := by
    rw [← List.singleton_append, List.filter_append]
    congr 1 <;> refine List.filter_congr fun u hu => decide_eq_decide.mpr ?_
    · exact hhead u hu
    · exact hrest u hu
  have hpending : ((t :: l).filter fun u => ¬Complete nodes (new₁ ++ new₂) u) =
      ([t].filter fun u => ¬Complete nodes new₁ u) ++
        l.filter fun u => ¬Complete nodes new₂ u := by
    rw [← List.singleton_append, List.filter_append]
    congr 1 <;> refine List.filter_congr fun u hu => decide_eq_decide.mpr (not_congr ?_)
    · exact hhead u hu
    · exact hrest u hu
  constructor
  · rw [h.calls, hcalls, List.append_assoc]
  · intro c hc
    rcases List.mem_append.mp hc with hc | hc
    · rw [hnew₁ c hc]
      exact List.mem_cons_self
    · exact List.mem_cons_of_mem t (h.only c hc)
  · intro u hu h' hne
    rcases List.mem_cons.mp hu with rfl | hu
    · obtain ⟨c, hc, hfor⟩ := htested h' hne
      exact ⟨c, List.mem_append.mpr (Or.inl hc), hfor⟩
    · obtain ⟨c, hc, hfor⟩ := h.tested u hu h' hne
      exact ⟨c, List.mem_append.mpr (Or.inr hc), hfor⟩
  · rw [h.examined, hexamined, List.append_assoc]
    rfl
  · rw [h.mpiQueue, hmpi, hcomplete, List.map_append, List.append_assoc]
  · rw [hpending, ← List.append_assoc]
    exact h.queue

theorem passEnd_nil (hqueue : p.pollingQueue.Holds (kept.rotate 1)) :
    PassEnd nodes p p kept [] [] where
  calls := (List.append_nil _).symm
  only := fun _ hc => absurd hc List.not_mem_nil
  tested := fun _ ht => absurd ht List.not_mem_nil
  examined := (List.append_nil _).symm
  mpiQueue := (List.append_nil _).symm
  queue := by
    rw [List.filter_nil, List.append_nil]
    exact hqueue

/-- It does not matter what the queue was. -/
theorem PassEnd.of_queue {q : MtestQueue} {new : List TestCall}
    (h : PassEnd nodes { p with pollingQueue := q } p' kept l new) :
    PassEnd nodes p p' kept l new where
  calls := h.calls
  only := h.only
  tested := h.tested
  examined := h.examined
  mpiQueue := h.mpiQueue
  queue := h.queue

theorem pollLoop_turn {oldMt oldMt' : Option MtestId}
    (h : p.handle mpiTest nodes t oldMt = some (oldMt', p')) (fuel : Nat) :
    pollLoop mpiTest nodes (fuel + 1) p (some t) oldMt =
      let (mt, p₁) := p'.getNextMtestTask
      if mt = oldMt' then
        match mt with
        | none => some p₁
        | some mt => p₁.push mt
      else pollLoop mpiTest nodes fuel p₁ mt oldMt' := by
  rw [pollLoop, h]
  rfl

/-- From any turn on: `t` is the node in hand, `l` are the nodes that the pass has not met, and
behind them the queue holds those that it has put back. -/
theorem pollLoop_spec (hqueue : p.pollingQueue.Holds (l ++ kept)) (ht : t ∉ l ++ kept) :
    ∃ p' new, (∀ fuel, l.length < fuel →
        pollLoop mpiTest nodes fuel p (some t) kept.head? = some p') ∧
      PassEnd nodes p p' kept (t :: l) new := by
  induction l generalizing p t kept with
  | nil =>
      obtain ⟨new, kept', p₁, hhandle, hnew, htested, hkept, hholds, hcalls, hexamined, hmpi⟩ :=
        handle_spec mpiTest nodes hqueue ht
      -- all nodes have been met: the queue is empty, or its head is the first one put back
      obtain ⟨q, hend, hqueue'⟩ : ∃ q : MtestQueue,
          (∀ fuel, 0 < fuel → pollLoop mpiTest nodes fuel p (some t) kept.head? =
            some { p₁ with pollingQueue := q }) ∧ q.Holds (kept'.rotate 1) := by
        cases kept' with
        | nil =>
            refine ⟨p₁.pollingQueue, fun fuel hfuel => ?_, hholds⟩
            obtain ⟨fuel, rfl⟩ := Nat.exists_eq_succ_of_ne_zero (Nat.ne_of_gt hfuel)
            rw [pollLoop_turn mpiTest nodes hhandle, getNext_nil hholds]
            rfl
        | cons r kept' =>
            obtain ⟨q, hnext, hq⟩ := getNext_cons hholds
            have hr : r ∉ kept' := (List.nodup_cons.mp hholds.nodup).1
            obtain ⟨q', hpush, hq'⟩ := push_holds (p := { p₁ with pollingQueue := q }) hq hr
            refine ⟨q', fun fuel hfuel => ?_, ?_⟩
            · obtain ⟨fuel, rfl⟩ := Nat.exists_eq_succ_of_ne_zero (Nat.ne_of_gt hfuel)
              rw [pollLoop_turn mpiTest nodes hhandle, hnext]
              exact (if_pos rfl).trans hpush
            · rw [List.rotate_cons_succ, List.rotate_zero]
              exact hq'
      refine ⟨_, new ++ [], hend, ?_⟩
      refine .cons nodes List.not_mem_nil hnew htested hcalls hexamined hmpi ?_
      rw [← hkept]
      exact .of_queue nodes (passEnd_nil nodes hqueue')
  | cons u l ih =>
      obtain ⟨new, kept', p₁, hhandle, hnew, htested, hkept, hholds, hcalls, hexamined, hmpi⟩ :=
        handle_spec mpiTest nodes hqueue ht
      obtain ⟨q, hnext, hq⟩ := getNext_cons hholds
      have hu : u ∉ l ++ kept' := (List.nodup_cons.mp hholds.nodup).1
      have hfirst : some u ≠ kept'.head? := by
        intro heq
        exact hu (List.mem_append.mpr (Or.inr (List.mem_of_mem_head? heq.symm)))
      obtain ⟨p', new', hrun, hpass⟩ := ih (p := { p₁ with pollingQueue := q }) hq hu
      refine ⟨p', new ++ new', fun fuel hfuel => ?_, ?_⟩
      · obtain ⟨fuel, rfl⟩ := Nat.exists_eq_succ_of_ne_zero (Nat.ne_of_gt (Nat.zero_lt_of_lt hfuel))
        rw [pollLoop_turn mpiTest nodes hhandle, hnext]
        exact (if_neg hfirst).trans (hrun fuel (Nat.lt_of_succ_lt_succ hfuel))
      · rw [hkept] at hpass
        exact .cons nodes (fun hm => ht (List.mem_append.mpr (Or.inl hm))) hnew htested hcalls
          hexamined hmpi (.of_queue nodes hpass)

/-- A pass over the queue ends, examines every node once, hands over the tasks of the complete
nodes in order, and leaves the others in the queue, the first of them now the last. -/
theorem polling_pass (hqueue : p.pollingQueue.Holds l) :
    ∃ p' new, (∀ fuel, l.length < fuel → poll mpiTest nodes fuel p = some p') ∧
      p'.calls = p.calls ++ new ∧ (∀ c ∈ new, c.node ∈ l) ∧ (∀ t ∈ l, Tested nodes new t) ∧
      p'.examined = p.examined ++ l ∧
      p'.mpiQueue =
        p.mpiQueue ++ (l.filter (Complete nodes new)).map (fun t => (nodes t).commTask) ∧
      p'.pollingQueue.Holds ((l.filter fun t => ¬Complete nodes new t).rotate 1) := by
  obtain ⟨p', new, hrun, hpass⟩ : ∃ p' new,
      (∀ fuel, l.length < fuel → poll mpiTest nodes fuel p = some p') ∧
        PassEnd nodes p p' [] l new := by
    cases l with
    | nil =>
        refine ⟨p, [], fun fuel hfuel => ?_, passEnd_nil nodes hqueue⟩
        obtain ⟨fuel, rfl⟩ := Nat.exists_eq_succ_of_ne_zero (Nat.ne_of_gt hfuel)
        unfold poll
        rw [getNext_nil hqueue]
        rfl
    | cons t l =>
        obtain ⟨q, hnext, hq⟩ := getNext_cons hqueue
        rw [← List.append_nil l] at hq
        have ht : t ∉ l ++ [] := by
          rw [List.append_nil]
          exact (List.nodup_cons.mp hqueue.nodup).1
        obtain ⟨p', new, hrun, hpass⟩ :=
          pollLoop_spec mpiTest nodes (p := { p with pollingQueue := q }) hq ht
        refine ⟨p', new, fun fuel hfuel => ?_, .of_queue nodes hpass⟩
        unfold poll
        rw [hnext]
        exact hrun fuel (Nat.lt_of_succ_lt hfuel)
  exact ⟨p', new, hrun, hpass.calls, hpass.only, hpass.tested, hpass.examined, hpass.mpiQueue,
    hpass.queue⟩

end Pass

/-- Two nodes in the queue: the first one waits, the other one has no request. -/
theorem polling_pass_two :
    let nodes : MtestId → MtestTask := fun t =>
      if t = 0 then ⟨some 5, none, 10, 3⟩ else ⟨none, none, 11, 3⟩
    let queue : MtestQueue := ⟨fun t => if t = 0 then some 1 else none, some 0, some 1⟩
    ∃ p', (∀ fuel, 2 < fuel →
        poll (fun _ _ => 0) nodes fuel ⟨queue, [], [], []⟩ = some p') ∧
      p'.examined = [0, 1] := by
  intro nodes queue
  have hqueue : queue.Holds [0, 1] :=
    ⟨⟨rfl, rfl, rfl⟩, fun _ ht => ht, List.nodup_cons.mpr ⟨by decide, List.nodup_singleton 1⟩⟩
  obtain ⟨p', -, hrun, -, -, -, hexamined, -⟩ :=
    polling_pass (fun _ _ => 0) nodes (p := ⟨queue, [], [], []⟩) hqueue
  exact ⟨p', hrun, hexamined⟩

end Polling

end AceMesh
