import AceMesh.OwnQueues
import AceMesh.Termination

/-!
# `spawn_and_wait` returns in the default build

In the default build nothing needs to be asked of the queues. A `compare_and_swap` fails because
another one on the same stack has succeeded, a push or a pop that takes effect takes from what is
left to be done (`Runtime.weight`), and between two of them a thread that has work needs a
bounded number of its own steps for the next one (`cost`). So it is enough that every thread
takes its turns (`default_build_returns`).
-/

open AceMesh.TaskDagGraph AceMesh.Runtime

namespace AceMesh.Stealing

variable {m : Nat}

/-! ## What is left to be done -/

/-- Nothing is left, and the main thread has yet to see it. -/
def late (s : Stealing m) (e : TaskId) (i : Fin (m + 1)) : Nat :=
  if i.val = 0 ∧ (s.runtime.heap e).refCount ≤ 1 then 1 else 0

/-- The own steps that thread `i` needs at most until a push or a pop of it takes effect, as long
as none of the others does, or until the main thread looks at the counter of the end task. In
front of an empty queue this goes round. -/
def opCost (s : Stealing m) (e : TaskId) (i : Fin (m + 1)) : Op (m + 1) → Nat
  | .pushLoad _ _ => 3
  | .pushLink j _ oldTop => if s.queues.taskPool j = oldTop then 2 else 5
  | .pushCas j _ oldTop => if s.queues.taskPool j = oldTop then 1 else 4
  | .popLoad j => if s.queues.taskPool j = none then 5 + 2 * s.late e i else 3
  | .popNext j oldTop => if s.queues.taskPool j = some oldTop then 2 else 8
  | .popCas j oldTop _ => if s.queues.taskPool j = some oldTop then 1 else 7
  | .popped _ none => if s.queues.taskPool i = none then 5 + s.late e i else 6
  | .pushed _ _ => 9
  | .popped _ (some _) => 9
  | .idle =>
    match s.runtime.demand i with
    | .pop => if s.queues.taskPool i = none then 5 + 3 * s.late e i else 4
    | .push _ => 4
    | .other => 5

def cost (s : Stealing m) (e : TaskId) (i : Fin (m + 1)) : Nat := s.opCost e i (s.queues.op i)

/-- What is left to be done, down to the atomic steps. -/
def weight (nodes : Finset TaskId) (e : TaskId) (s : Stealing m) : Nat :=
  s.runtime.weight nodes * (9 * (m + 1) + 1) + ∑ i, s.cost e i

variable {s s' : Stealing m} {i : Fin (m + 1)} {nodes : Finset TaskId} {e : TaskId}
  {next : TaskId → Option TaskId}

theorem late_le (s : Stealing m) (e : TaskId) (i : Fin (m + 1)) : s.late e i ≤ 1 := by
  unfold late
  split
  · exact Nat.le_refl 1
  · exact Nat.zero_le 1

theorem cost_le (s : Stealing m) (e : TaskId) (i : Fin (m + 1)) : s.cost e i ≤ 9 := by
  have hlate := s.late_le e i
  unfold cost opCost
  split <;> first
    | omega
    | (split <;> first | omega | (split <;> omega))

/-- The thread sees the same as before. -/
theorem cost_congr (hop : s'.queues.op i = s.queues.op i)
    (htop : s'.queues.taskPool = s.queues.taskPool)
    (hdemand : s'.runtime.demand i = s.runtime.demand i)
    (hcount : (s'.runtime.heap e).refCount = (s.runtime.heap e).refCount) :
    s'.cost e i = s.cost e i := by
  unfold cost opCost late
  rw [hop, htop, hdemand, hcount]

theorem sum_cost_le (s : Stealing m) (e : TaskId) : ∑ i, s.cost e i ≤ 9 * (m + 1) := by
  calc
    ∑ i, s.cost e i ≤ ∑ _i : Fin (m + 1), 9 := Finset.sum_le_sum fun i _ => s.cost_le e i
    _ = 9 * (m + 1) := by
      rw [Finset.sum_const, Finset.card_univ, Fintype.card_fin, smul_eq_mul, Nat.mul_comm]

theorem weight_lt_of_runtime (h : s'.runtime.weight nodes < s.runtime.weight nodes) :
    s'.weight nodes e < s.weight nodes e := by
  have hsum := s'.sum_cost_le e
  have hmul : (s'.runtime.weight nodes + 1) * (9 * (m + 1) + 1) ≤
      s.runtime.weight nodes * (9 * (m + 1) + 1) := Nat.mul_le_mul_right _ h
  rw [Nat.add_mul, Nat.one_mul] at hmul
  unfold weight
  omega

/-- One thread goes on, and the others see the same as before. -/
theorem weight_of_cost (h : s'.runtime.weight nodes = s.runtime.weight nodes)
    (hothers : ∀ a, a ≠ i → s'.cost e a = s.cost e a) :
    s'.weight nodes e + s.cost e i = s.weight nodes e + s'.cost e i := by
  have hsum : ∑ a ∈ Finset.univ.erase i, s'.cost e a = ∑ a ∈ Finset.univ.erase i, s.cost e a :=
    Finset.sum_congr rfl fun a ha => hothers a (Finset.ne_of_mem_erase ha)
  unfold weight
  rw [h, ← Finset.sum_erase_add _ (s'.cost e) (Finset.mem_univ i),
    ← Finset.sum_erase_add _ (s.cost e) (Finset.mem_univ i), hsum]
  omega

/-! ## Steps -/

/-- The thread stands in front of its empty queue, or the main thread has looked at the counter of
the end task; there is something left to do. -/
structure Waits (e : TaskId) (s : Stealing m) (i : Fin (m + 1)) (s' : Stealing m) : Prop where
  frame : s'.runtime = { s.runtime with main := s'.runtime.main }
  main : i ≠ 0 → s'.runtime.main = s.runtime.main
  front : (s.runtime.demand i = .pop ∧ s.runtime.queue i = []) ∨
    i = 0 ∧ ∃ e', s.runtime.main = .test e' ∧ s'.runtime.main = .run e'
  left : i = 0 → 1 < (s.runtime.heap e).refCount

/-- In the runtime nothing happens. -/
theorem weight_of_stays (hruntime : s'.runtime = s.runtime)
    (hop : ∀ a, a ≠ i → s'.queues.op a = s.queues.op a)
    (htop : s'.queues.taskPool = s.queues.taskPool) :
    s'.weight nodes e + s.cost e i = s.weight nodes e + s'.cost e i := by
  refine weight_of_cost (by rw [hruntime]) fun a ha => ?_
  exact cost_congr (hop a ha) htop (by rw [hruntime]) (by rw [hruntime])

theorem cost_setOp (s : Stealing m) (e : TaskId) (i : Fin (m + 1)) (o : Op (m + 1)) :
    (s.setOp i o).cost e i = s.opCost e i o := by
  unfold cost
  rw [show (s.setOp i o).queues.op i = o by simp [setOp]]
  rfl

theorem weight_setOp (s : Stealing m) (nodes : Finset TaskId) (e : TaskId) (i : Fin (m + 1))
    (o : Op (m + 1)) :
    (s.setOp i o).weight nodes e + s.cost e i = s.weight nodes e + s.opCost e i o := by
  rw [← cost_setOp]
  refine weight_of_stays rfl (fun a ha => ?_) rfl
  show (s.queues.setOp i o).op a = _
  rw [Stacks.setOp_op, if_neg ha]

theorem Inv.present_eq_nil (h : s.Inv) {j : Fin (m + 1)} (hnone : s.queues.taskPool j = none) :
    s.queues.present j = [] := by
  have hlinked := h.linkage.linked j
  rwa [hnone, Linked.nil_iff] at hlinked

theorem Inv.queue_eq_nil (h : s.Inv) {j : Fin (m + 1)} (hnone : s.queues.taskPool j = none) :
    s.runtime.queue j = [] :=
  (h.queue j).trans (h.present_eq_nil hnone)

theorem refCount_of_late (h : s.late e i = 0) (hi : i = 0) : 1 < (s.runtime.heap e).refCount := by
  unfold late at h
  split at h
  · cases h
  · next hno =>
      by_contra hle
      exact hno ⟨by rw [hi]; rfl, by omega⟩

theorem late_of_refCount (h : i = 0 → 1 < (s.runtime.heap e).refCount) : s.late e i = 0 := by
  unfold late
  refine if_neg fun hbad => ?_
  have hlt := h (Fin.ext hbad.1)
  omega

theorem cost_of_pop (hop : s.queues.op i = .idle) (hdemand : s.runtime.demand i = .pop) :
    s.cost e i = if s.queues.taskPool i = none then 5 + 3 * s.late e i else 4 := by
  unfold cost
  rw [hop]
  simp only [opCost, hdemand]

theorem cost_of_push {t : TaskId} (hop : s.queues.op i = .idle)
    (hdemand : s.runtime.demand i = .push t) : s.cost e i = 4 := by
  unfold cost
  rw [hop]
  simp only [opCost, hdemand]

theorem cost_of_other (hop : s.queues.op i = .idle) (hdemand : s.runtime.demand i = .other) :
    s.cost e i = 5 := by
  unfold cost
  rw [hop]
  simp only [opCost, hdemand]

theorem opCost_idle_lt (s : Stealing m) (e : TaskId) (i : Fin (m + 1)) :
    s.opCost e i .idle < 9 := by
  have hlate := s.late_le e i
  simp only [opCost]
  split
  · split <;> omega
  · omega
  · omega

/-- With work in reach a thread between two operations has at most `5` steps to go. -/
theorem cost_idle_le (hop : s.queues.op i = .idle) (hlate : s.late e i = 0) : s.cost e i ≤ 5 := by
  cases hdemand : s.runtime.demand i with
  | pop =>
      rw [cost_of_pop hop hdemand, hlate]
      split <;> omega
  | push t =>
      rw [cost_of_push hop hdemand]
      omega
  | other =>
      rw [cost_of_other hop hdemand]

/-- A read leads on, and costs something unless the queue is empty. -/
theorem reads_progress (h : s.OwnInv next) {o : Op (m + 1)}
    (hreads : s.queues.Reads (s.queues.op i) o) :
    s.opCost e i o < s.cost e i ∨ (s.opCost e i o = s.cost e i ∧ s.runtime.demand i = .pop ∧
      s.queues.taskPool i = none ∧ s.late e i = 0) := by
  have hload := h.owned.load i
  have hnext := h.owned.next i
  have hpop := h.inv.popping i
  unfold cost
  generalize s.queues.op i = o' at hreads hload hnext hpop ⊢
  cases hreads with
  | load =>
      left
      simp only [opCost, if_true]
      omega
  | retry hne =>
      left
      simp only [opCost, if_neg hne]
      omega
  | @empty j hnone =>
      obtain rfl := hload j rfl
      simp only [opCost, if_pos hnone]
      by_cases hlate : s.late e j = 0
      · exact Or.inr ⟨by omega, hpop rfl, hnone, hlate⟩
      · left
        omega
  | top htop =>
      left
      simp only [opCost, htop, if_true, reduceCtorEq, if_false]
      omega
  | next =>
      left
      simp only [opCost]
      split <;> omega
  | @fail j oldTop newTop hne =>
      left
      obtain ⟨rfl, hmem, -⟩ := hnext j oldTop newTop rfl
      have hsome : s.queues.taskPool j ≠ none := by
        intro hnone
        rw [h.inv.present_eq_nil hnone] at hmem
        cases hmem
      simp only [opCost, if_neg hne, if_neg hsome]
      omega

/-- When a step of the runtime rests, the other threads see the same as before. -/
theorem weight_of_rests (h : s.Inv) {r : Runtime m} {hit : Bool} {q : Stacks (m + 1) (m + 1)}
    (hstep : s.runtime.step i hit = some r) (hrests : s.runtime.Rests hit i r)
    (hsame : r.weight nodes = s.runtime.weight nodes)
    (hop : ∀ a, a ≠ i → q.op a = s.queues.op a) (htop : q.taskPool = s.queues.taskPool) :
    (({ s with queues := q } : Stealing m).setRuntime r).weight nodes e + s.cost e i =
      s.weight nodes e + (({ s with queues := q } : Stealing m).setRuntime r).cost e i := by
  refine weight_of_cost hsame fun a ha => ?_
  refine cost_congr (hop a ha) htop ((step_move h.session.inside hstep).demand ha) ?_
  show (r.heap e).refCount = _
  rw [hrests.frame]

theorem setOp_progress (h : s.OwnInv next) {o : Op (m + 1)}
    (hcost : s.opCost e i o < s.cost e i ∨ (s.opCost e i o = s.cost e i ∧
      s.runtime.demand i = .pop ∧ s.queues.taskPool i = none ∧ s.late e i = 0)) :
    (s.setOp i o).weight nodes e < s.weight nodes e ∨
      ((s.setOp i o).weight nodes e = s.weight nodes e ∧ Waits e s i (s.setOp i o)) := by
  have hsum := s.weight_setOp nodes e i o
  rcases hcost with hlt | ⟨heq, hdemand, hnone, hlate⟩
  · left
    omega
  · refine Or.inr ⟨by omega, rfl, fun _ => rfl, Or.inl ⟨hdemand, h.inv.queue_eq_nil hnone⟩, ?_⟩
    exact refCount_of_late hlate

/-- What takes effect on a queue takes from what is left in the runtime. -/
theorem weight_of_effect (hin : InRound nodes e s.runtime) {r : Runtime m}
    (hstep : s.runtime.step i true = some r) (hqueue : r.queue ≠ s.runtime.queue)
    (hruntime : s'.runtime = r) : s'.weight nodes e < s.weight nodes e := by
  apply weight_lt_of_runtime
  rw [hruntime]
  rcases hin.progress hstep with hlt | ⟨-, hrests⟩
  · exact hlt
  · refine absurd ?_ hqueue
    rw [hrests.frame]

theorem OwnMove.progress (h : s.OwnInv next) (hin : InRound nodes e s.runtime)
    (hmove : s.OwnMove i s') : s'.weight nodes e < s.weight nodes e ∨
      (s'.weight nodes e = s.weight nodes e ∧ Waits e s i s') := by
  cases hmove with
  | beginPop op demand =>
      apply setOp_progress h
      rw [cost_of_pop op demand]
      simp only [opCost]
      by_cases hnone : s.queues.taskPool i = none
      · rw [if_pos hnone, if_pos hnone]
        by_cases hlate : s.late e i = 0
        · exact Or.inr ⟨by omega, demand, hnone, hlate⟩
        · left
          omega
      · rw [if_neg hnone, if_neg hnone]
        left
        omega
  | @beginPush j t op demand target =>
      apply setOp_progress h
      left
      rw [cost_of_push op demand]
      exact Nat.lt_succ_self 3
  | @other r op demand step =>
      rcases hin.progress step with hlt | ⟨hsame, hrests⟩
      · exact Or.inl (weight_lt_of_runtime hlt)
      -- the main thread looks at the counter
      obtain ⟨rfl, e', hm, hlt, hrun⟩ : i = 0 ∧ ∃ e', s.runtime.main = .test e' ∧
          1 < (s.runtime.heap e').refCount ∧ r.main = .run e' := by
        cases hrests with
        | worker hi pc empty =>
            rw [demand_of_ne _ hi, pc] at demand
            cases demand
        | @test e' main lt => exact ⟨rfl, e', main, lt, rfl⟩
        | run main pc empty =>
            rw [demand_zero, main] at demand
            rw [pc] at demand
            cases demand
      obtain rfl : e' = e := by
        have hwaits := hin.waits
        rw [hm] at hwaits
        exact Option.some_inj.mp hwaits
      have hsum : (s.setRuntime r).weight nodes e' + s.cost e' 0 =
          s.weight nodes e' + (s.setRuntime r).cost e' 0 :=
        weight_of_rests h.inv step hrests hsame (fun _ _ => rfl) rfl
      have hle : (s.setRuntime r).cost e' 0 ≤ 5 := by
        refine cost_idle_le op (late_of_refCount fun _ => ?_)
        show 1 < (r.heap e').refCount
        rw [hrests.frame]
        exact hlt
      rw [cost_of_other op demand] at hsum
      rcases Nat.lt_or_eq_of_le hle with hless | heq
      · left
        omega
      · exact Or.inr ⟨by omega, hrests.frame, fun hi => absurd rfl hi, Or.inr ⟨rfl, e', hm, hrun⟩,
          fun _ => hlt⟩
  | reads hreads => exact setOp_progress h (reads_progress h hreads)
  | @write j t oldTop op =>
      left
      have hsum : ({ s with queues := s.queues.writeNext i j t oldTop } : Stealing m).weight nodes e +
          s.cost e i = s.weight nodes e +
            ({ s with queues := s.queues.writeNext i j t oldTop } : Stealing m).cost e i :=
        weight_of_stays rfl (fun a ha => by rw [Stacks.writeNext_op, if_neg ha]) rfl
      have hbefore : s.cost e i = if s.queues.taskPool j = oldTop then 2 else 5 := by
        unfold cost
        rw [op]
        rfl
      have hafter : ({ s with queues := s.queues.writeNext i j t oldTop } : Stealing m).cost e i =
          if s.queues.taskPool j = oldTop then 1 else 4 := by
        unfold cost
        rw [Stacks.writeNext_op, if_pos rfl]
        rfl
      by_cases htop : s.queues.taskPool j = oldTop
      · rw [if_pos htop] at hbefore hafter
        omega
      · rw [if_neg htop] at hbefore hafter
        omega
  | @put j t r op step =>
      left
      refine weight_of_effect hin step (fun hsame => ?_) rfl
      obtain ⟨hdemand, htarget⟩ := h.inv.pushing i j t (by rw [op]; rfl)
      have hqueue := step_queue step
      rw [hdemand] at hqueue
      obtain ⟨j', -, hqueue⟩ := hqueue
      have hhead := congrFun (hqueue.symm.trans hsame) j'
      rw [Function.update_self] at hhead
      exact List.cons_ne_self _ _ hhead
  | @take j oldTop newTop op top =>
      left
      obtain ⟨rfl, -, -⟩ := h.owned.next i j oldTop newTop op
      obtain ⟨rest, hrest, -, -⟩ := h.inv.linkage.takeOff j top
      have hdemand := h.inv.popping j (by rw [op]; rfl)
      have hqueue : s.runtime.queue j = oldTop :: rest := (h.inv.queue j).trans hrest
      refine weight_of_effect hin (step_getTask hdemand hqueue) (fun hsame => ?_) rfl
      have hhead : Function.update s.runtime.queue j ((s.runtime.queue j).erase oldTop) j =
          s.runtime.queue j := congrFun hsame j
      rw [Function.update_self, hqueue, List.erase_cons_head] at hhead
      exact List.cons_ne_self _ _ hhead.symm
  | pushed op =>
      apply setOp_progress h
      left
      rw [show s.cost e i = 9 by unfold cost; rw [op]; rfl]
      exact s.opCost_idle_lt e i
  | popped op =>
      apply setOp_progress h
      left
      rw [show s.cost e i = 9 by unfold cost; rw [op]; rfl]
      exact s.opCost_idle_lt e i
  | @missed j r op step =>
      rcases hin.progress step with hlt | ⟨hsame, hrests⟩
      · exact Or.inl (weight_lt_of_runtime hlt)
      have hdemand := h.inv.popping i (by rw [op]; rfl)
      have hidle : ((s.setOp i .idle).setRuntime r).queues.op i = .idle := by
        simp [setOp, setRuntime]
      have hsum : ((s.setOp i .idle).setRuntime r).weight nodes e + s.cost e i =
          s.weight nodes e + ((s.setOp i .idle).setRuntime r).cost e i :=
        weight_of_rests (q := s.queues.setOp i .idle) h.inv step hrests hsame
          (fun a ha => by rw [Stacks.setOp_op, if_neg ha]) rfl
      have hbefore : s.cost e i = if s.queues.taskPool i = none then 5 + s.late e i else 6 := by
        unfold cost
        rw [op]
        rfl
      have hafter : ((s.setOp i .idle).setRuntime r).cost e i =
          if i = 0 ∨ s.queues.taskPool i = none then 5 else 4 := by
        by_cases hi : i = 0
        · -- back to the test of the counter
          subst hi
          rw [if_pos (Or.inl rfl)]
          apply cost_of_other hidle
          rcases hrests.of_main with ⟨e', hm, -, -⟩ | ⟨e', hm, -, -, hr⟩
          · rw [demand_zero, hm] at hdemand
            cases hdemand
          · show r.demand 0 = .other
            rw [hr, demand_zero]
        · obtain ⟨hr, -, -⟩ := hrests.of_worker hi
          rw [cost_of_pop hidle (by rw [← hr] at hdemand; exact hdemand),
            late_of_refCount fun hbad => absurd hbad hi]
          simp only [hi, false_or]
          rfl
      by_cases hnone : s.queues.taskPool i = none
      · rw [if_pos hnone] at hbefore
        rw [if_pos (Or.inr hnone)] at hafter
        by_cases hlate : s.late e i = 0
        · refine Or.inr ⟨by omega, hrests.frame, fun hi => ?_, Or.inl ⟨hdemand, ?_⟩,
            refCount_of_late hlate⟩
          · show r.main = _
            rw [(hrests.of_worker hi).1]
          · exact h.inv.queue_eq_nil hnone
        · left
          omega
      · rw [if_neg hnone] at hbefore
        left
        split at hafter <;> omega

theorem ownStep_isSome (hin : InRound nodes e s.runtime) (i : Fin (m + 1)) :
    (s.ownStep i).isSome := by
  have hstep : ∀ hit, (s.runtime.step i hit).isSome := fun hit => hin.step_isSome i hit
  have hstack : (s.stackStep i).isSome := by
    unfold stackStep
    dsimp only
    split
    · rw [Option.isSome_map]
      exact hstep true
    · rfl
    · rfl
  unfold ownStep
  split
  · rw [Option.isSome_map]
    exact hstep false
  · next hnot =>
      unfold threadStep
      split
      · split
        · rfl
        · next t demand =>
            obtain ⟨r, hr⟩ := Option.isSome_iff_exists.mp (hstep true)
            have hqueue := step_queue hr
            rw [demand] at hqueue
            obtain ⟨j, hj, -⟩ := hqueue
            rw [hj]
            rfl
        · rw [Option.isSome_map]
          exact hstep false
      · rfl
      · rfl
      · next op => exact absurd op (hnot _)
      all_goals exact hstack

/-! ## Schedules -/

structure InOwnRound (next : TaskId → Option TaskId) (nodes : Finset TaskId) (e : TaskId)
    (s : Stealing m) : Prop where
  own : s.OwnInv next
  round : InRound nodes e s.runtime

/-- A step of a round ends it, makes progress or waits. -/
theorem InOwnRound.step_cases (h : InOwnRound next nodes e s) (i : Fin (m + 1)) :
    ∃ s', s.ownStep i = some s' ∧ (s'.runtime.main = .prog ∨ InOwnRound next nodes e s' ∧
      (s'.weight nodes e < s.weight nodes e ∨
        (s'.weight nodes e = s.weight nodes e ∧ Waits e s i s'))) := by
  obtain ⟨s', hs'⟩ := Option.isSome_iff_exists.mp (ownStep_isSome h.round i)
  have hmove := ownStep_cases hs'
  have hround : s'.runtime.main = .prog ∨ InRound nodes e s'.runtime := by
    rcases hmove.shows h.own with hsame | ⟨hit, hact⟩
    · right
      rw [show s'.runtime = s.runtime from congrArg Session.runtime hsame]
      exact h.round
    · obtain ⟨r, hr, hcases⟩ := h.round.step_cases i hit
      obtain ⟨r', hr', heq⟩ := Option.map_eq_some_iff.mp hact
      obtain rfl := Option.some_inj.mp (hr.symm.trans hr')
      rw [show s'.runtime = r from (congrArg Session.runtime heq).symm]
      exact hcases.imp_right And.left
  refine ⟨s', hs', hround.imp_right fun hin => ⟨⟨h.own.ownStep hs', hin⟩, ?_⟩⟩
  exact hmove.progress h.own h.round

/-- The state after the first steps of a schedule. -/
def ownAfter (s : Stealing m) (schedule : ℕ → Fin (m + 1)) : ℕ → Stealing m :=
  Fair.after ownStep s schedule

variable {schedule : ℕ → Fin (m + 1)}

/-- The threads do not wait for ever. -/
theorem not_waiting (hin : ∀ n, InOwnRound next nodes e (s.ownAfter schedule n))
    (hfair : ∀ i, Fair.InfinitelyOften fun k => schedule k = i) (n : ℕ) :
    ¬∀ k, n ≤ k → Waits e (s.ownAfter schedule k) (schedule k) (s.ownAfter schedule (k + 1)) := by
  intro hwaits
  have hfrozen : ∀ k, n ≤ k → (s.ownAfter schedule k).runtime =
      { (s.ownAfter schedule n).runtime with main := (s.ownAfter schedule k).runtime.main } := by
    intro k hk
    induction k, hk using Nat.le_induction with
    | base => rfl
    | succ k hk ih =>
        have hframe := (hwaits k hk).frame
        rw [ih] at hframe
        exact hframe
  have hstays : ∀ {N k : ℕ}, n ≤ N → N ≤ k → (∀ l, N ≤ l → l < k → schedule l ≠ 0) →
      (s.ownAfter schedule k).runtime.main = (s.ownAfter schedule N).runtime.main := by
    intro N k hN hk hall
    induction k, hk using Nat.le_induction with
    | base => rfl
    | succ k hk ih =>
        rw [(hwaits k (hN.trans hk)).main (hall k hk (Nat.lt_succ_self k))]
        exact ih fun l hl hlt => hall l hl (Nat.lt_succ_of_lt hlt)
  -- the main thread comes to its queue
  obtain ⟨k, hk, hzero, hpop, hempty⟩ : ∃ k, n ≤ k ∧ schedule k = 0 ∧
      (s.ownAfter schedule k).runtime.demand 0 = .pop ∧
      (s.ownAfter schedule k).runtime.queue 0 = [] := by
    obtain ⟨k, hk, hzero, -⟩ := (hfair 0).first n
    have hfront := (hwaits k hk).front
    rw [hzero] at hfront
    rcases hfront with ⟨hpop, hempty⟩ | ⟨-, e', -, hrun⟩
    · exact ⟨k, hk, hzero, hpop, hempty⟩
    · obtain ⟨l, hl, hzero', hfirst⟩ := (hfair 0).first (k + 1)
      have hnl : n ≤ l := (hk.trans (Nat.le_succ k)).trans hl
      have hfront := (hwaits l hnl).front
      rw [hzero'] at hfront
      rcases hfront with ⟨hpop, hempty⟩ | ⟨-, e'', htest, -⟩
      · exact ⟨l, hnl, hzero', hpop, hempty⟩
      · rw [hstays (hk.trans (Nat.le_succ k)) hl hfirst, hrun] at htest
        cases htest
  have hleft := (hwaits k hk).left hzero
  have hidle : ∀ i, (s.ownAfter schedule k).runtime.pc i = .next ∧
      (s.ownAfter schedule k).runtime.queue i = [] := by
    intro i
    by_cases hi : i = 0
    · subst hi
      refine ⟨?_, hempty⟩
      rw [demand_zero] at hpop
      split at hpop
      · cases hpop
      · exact Pc.eq_next_of_demand hpop
      · cases hpop
    · obtain ⟨l, hl, hli⟩ := hfair i n
      have hfront := (hwaits l hl).front
      rw [hli] at hfront
      rcases hfront with ⟨hdemand, hnil⟩ | ⟨hbad, -⟩
      · rw [demand_of_ne _ hi] at hdemand
        have hnext := Pc.eq_next_of_demand hdemand
        rw [hfrozen l hl] at hnext hnil
        rw [hfrozen k hk]
        exact ⟨hnext, hnil⟩
      · exact absurd hbad hi
  have hround := (hin k).round.round
  have hcount := hround.endCount
  rcases hround.exists_work (by omega) with hroots | ⟨i, hi⟩ | ⟨i, t, hhand | ⟨l, hat⟩⟩
  · rw [demand_zero] at hpop
    split at hpop
    · cases hpop
    · next e' hm =>
        rw [hm] at hroots
        exact hroots rfl
    · cases hpop
  · exact hi (hidle i).2
  · rw [(hidle i).1] at hhand
    cases hhand
  · rw [(hidle i).1] at hat
    exact Pc.not_at_of_stage rfl t l hat

theorem InOwnRound.returns (h : InOwnRound next nodes e s)
    (hfair : ∀ i, Fair.InfinitelyOften fun k => schedule k = i) :
    ∃ n, (s.ownAfter schedule (n + 1)).runtime.main = .prog ∧
      (∀ k, k ≤ n → InOwnRound next nodes e (s.ownAfter schedule k)) ∧
      ∀ k, k ≤ n → (s.ownAfter schedule k).ownStep (schedule k) =
        some (s.ownAfter schedule (k + 1)) :=
  Fair.reaches (P := InOwnRound next nodes e) (G := fun s => s.runtime.main = .prog)
    (R := fun (s : Stealing m) i s' => Waits e s i s') (w := fun s => s.weight nodes e)
    h (fun _ i hin => hin.step_cases i) fun hin n => not_waiting hin hfair n

/-! ## Every program -/

theorem OwnMove.runtime (h : s.OwnInv next) (hmove : s.OwnMove i s') :
    s'.runtime = s.runtime ∨ ∃ hit, s.runtime.step i hit = some s'.runtime := by
  rcases hmove.shows h with hsame | ⟨hit, hact⟩
  · exact Or.inl (congrArg Session.runtime hsame)
  · obtain ⟨r, hr, heq⟩ := Option.map_eq_some_iff.mp hact
    rw [show s'.runtime = r from (congrArg Session.runtime heq).symm]
    exact Or.inr ⟨hit, hr⟩

theorem steps_ownAfter {n : ℕ}
    (hin : ∀ k, k ≤ n → InOwnRound next nodes e (s.ownAfter schedule k))
    (hsteps : ∀ k, k ≤ n → (s.ownAfter schedule k).ownStep (schedule k) =
      some (s.ownAfter schedule (k + 1))) {k : ℕ} (hk : k ≤ n) :
    s.runtime.Steps (s.ownAfter schedule k).runtime := by
  induction k with
  | zero => exact .refl
  | succ k ih =>
      have hle := Nat.le_of_succ_le hk
      have hlast := hsteps k hle
      rcases (ownStep_cases hlast).runtime (hin k hle).own with hsame | ⟨hit, hstep⟩
      · rw [hsame]
        exact ih hle
      · exact (ih hle).tail ⟨_, _, hstep⟩

/-- Whatever program has called `spawn_and_wait`, and wherever the threads are in their pushes and
pops: if the graph has a task and every thread takes its turns, then `spawn_and_wait` returns, no
thread is stuck before, and the tasks of the graph, and no others, have each run once. -/
theorem default_build_returns {acts : List (OwnAct m)} (hrun : (start next).ownRun acts = some s)
    (hm : s.runtime.main ≠ .prog) (hne : runningTasks s.session.calls ≠ some [])
    (hfair : ∀ i, Fair.InfinitelyOften fun k => schedule k = i) :
    ∃ tasks n, runningTasks s.session.calls = some tasks ∧
      (s.ownAfter schedule n).runtime.main = .prog ∧
      (∀ k, k < n → (s.ownAfter schedule k).ownStep (schedule k) =
        some (s.ownAfter schedule (k + 1))) ∧
      ∀ u, (s.ownAfter schedule n).runtime.log.count (.start u) = (if u ∈ tasks then 1 else 0) ∧
        (s.ownAfter schedule n).runtime.log.count (.finish u) = if u ∈ tasks then 1 else 0 := by
  obtain ⟨hown, -⟩ := (refines_session next).lift isRun_ownRun Session.isRun_run ownInv_start hrun
  have hinv := hown.inv.session
  obtain ⟨lo, a, e, hduring⟩ := hinv.during hm
  have hin := hduring.inRound hne
  obtain ⟨n, hback, hbefore, hsteps⟩ := InOwnRound.returns ⟨hown, hin⟩ hfair
  have hlast := hbefore n (Nat.le_refl n)
  obtain ⟨hret, hlog⟩ : (s.ownAfter schedule n).runtime.main = .returned e ∧
      (s.ownAfter schedule (n + 1)).runtime.log = (s.ownAfter schedule n).runtime.log := by
    rcases (ownStep_cases (hsteps n (Nat.le_refl n))).runtime hlast.own with hsame | ⟨hit, hstep⟩
    · have hwaits := hlast.round.waits
      rw [← hsame, hback] at hwaits
      cases hwaits
    · exact hlast.round.returned_of_prog hstep hback
  have hexecutes := hinv.executes hduring.running _
    (steps_ownAfter hbefore hsteps (Nat.le_refl n)) (by simp [hret])
  refine ⟨interval a e, n + 1, hduring.running, hback, fun k hk => ?_, fun u => ?_⟩
  · exact hsteps k (Nat.le_of_lt_succ hk)
  · rw [hlog]
    exact hexecutes.2.2 e (Or.inr hret) u

/-- The two roots are on their queues, and the worker has missed its one. -/
theorem default_build_returns_roots : ∃ (s : Stealing 1) (n : ℕ),
    (start fun _ => none).ownRun Example.roots = some s ∧
      (s.ownAfter (fun n => (Session.Example.inTurns n).1) n).runtime.main = .prog ∧
      (s.ownAfter (fun n => (Session.Example.inTurns n).1) n).runtime.log.count (.finish 1) = 1 := by
  have hrun : ((start fun _ => none).ownRun Example.roots).map (fun s =>
      (decide (s.runtime.main ≠ .prog), runningTasks s.session.calls)) =
      some (true, some [1, 0]) := by decide
  obtain ⟨s, hs, hpair⟩ := Option.map_eq_some_iff.mp hrun
  obtain ⟨hm, hrunning⟩ := Prod.mk.inj hpair
  obtain ⟨tasks, n, htasks, hprog, -, hcount⟩ := default_build_returns hs (of_decide_eq_true hm)
    (by rw [hrunning]; decide) (Session.Example.fairRun_inTurns s.runtime).scheduled
  obtain rfl : [1, 0] = tasks := Option.some_inj.mp (hrunning.symm.trans htasks)
  exact ⟨s, n, hs, hprog, (hcount 1).2⟩

end AceMesh.Stealing
