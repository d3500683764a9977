import AceMesh.Choice
import AceMesh.Lib.Fair
import AceMesh.Separation

/-!
# `spawn_and_wait` returns

Every thread takes its turns, and a queue that is not empty does not refuse it forever (`Fair`).
Then the main thread comes back to the program (`spawn_and_wait_returns`).

What is left to be done is counted (`weight`): a step of a task on its way takes something from
it, the others wait in front of an empty queue or look at the counter of the end task (`Rests`).
While edges into the end task are left, some thread has work (`Round.exists_work`), and it does
not rest forever.

A stored graph without tasks is left out: storing marks the objects that can be reached from
the roots, so its end task is deleted after the first run.
-/

open AceMesh.TaskDagGraph AceMesh.Runtime

namespace AceMesh

variable {m : Nat}

/-! ## What is left to be done -/

/-- The steps that a task takes at most before its thread has gone through its edges. -/
def Pc.cost (h : Heap) : Pc → Nat
  | .next => 0
  | .hold _ => 0
  | .body t => 3 * (h t).successorTasks.length + 5
  | .restore t => 3 * (h t).successorTasks.length + 4
  | .loop t k => 3 * ((h t).successorTasks.length - k) + 3
  | .push t k _ => 3 * ((h t).successorTasks.length - k) + 2
  | .vert _ => 2
  | .ret _ _ => 1

def MainPc.cost : MainPc → Nat
  | .prog => 0
  | .spawn _ roots => 2 * roots.length + 4
  | .test _ => 3
  | .run _ => 3
  | .left _ => 2
  | .returned _ => 1

theorem Heap.SameShape.cost {h h' : Heap} (hs : h.SameShape h') (p : Pc) :
    p.cost h' = p.cost h := by
  cases p <;> simp only [Pc.cost, hs.successorTasks]

namespace Runtime

/-- The tasks that have not been started. -/
def unstartedCost (nodes : Finset TaskId) (r : Runtime m) : Nat :=
  ∑ t ∈ nodes, if r.starts t = 0 then 3 * (r.heap t).successorTasks.length + 6 else 0

def weight (nodes : Finset TaskId) (r : Runtime m) : Nat :=
  r.tally (Pc.cost r.heap) + ∑ i, (r.queue i).length + r.unstartedCost nodes + r.main.cost

section Weight

variable (nodes : Finset TaskId) (r : Runtime m)

theorem weight_setPc (i : Fin (m + 1)) (p : Pc) :
    (r.setPc i p).weight nodes + (r.pc i).cost r.heap = r.weight nodes + p.cost r.heap := by
  have hsum := tally_setPc (Pc.cost r.heap) r i p
  unfold weight
  show (r.setPc i p).tally (Pc.cost r.heap) + _ + r.unstartedCost nodes + r.main.cost + _ = _
  show (r.setPc i p).tally (Pc.cost r.heap) + ∑ i, (r.queue i).length + _ + _ + _ = _
  omega

theorem weight_setHeap {h : Heap} (hs : r.heap.SameShape h) :
    (r.setHeap h).weight nodes = r.weight nodes := by
  have hpc : (r.setHeap h).tally (Pc.cost h) = r.tally (Pc.cost r.heap) :=
    tally_congr fun i => hs.cost (r.pc i)
  have hunstarted : (r.setHeap h).unstartedCost nodes = r.unstartedCost nodes := by
    apply Finset.sum_congr rfl
    intro t _
    show (if r.starts t = 0 then 3 * (h t).successorTasks.length + 6 else 0) = _
    rw [hs.successorTasks]
  unfold weight
  show (r.setHeap h).tally (Pc.cost h) + ∑ i, (r.queue i).length + _ + r.main.cost = _
  rw [hpc, hunstarted]

theorem weight_localSpawn (j : Fin (m + 1)) (t : TaskId) :
    (r.localSpawn j t).weight nodes = r.weight nodes + 1 := by
  have hsum := sum_update List.length r.queue j (t :: r.queue j)
  rw [List.length_cons] at hsum
  unfold weight
  show r.tally (Pc.cost r.heap) + ∑ i, (Function.update r.queue j (t :: r.queue j) i).length +
    r.unstartedCost nodes + r.main.cost = _
  omega

theorem weight_pop {i : Fin (m + 1)} {t : TaskId} {rest : List TaskId}
    (hq : r.queue i = t :: rest) :
    { r with queue := Function.update r.queue i rest }.weight nodes + 1 = r.weight nodes := by
  have hsum := sum_update List.length r.queue i rest
  rw [hq, List.length_cons] at hsum
  unfold weight
  show r.tally (Pc.cost r.heap) + ∑ j, (Function.update r.queue i rest j).length +
    r.unstartedCost nodes + r.main.cost + 1 = _
  omega

/-- Finished bodies and walked edges are not counted. -/
theorem weight_record {ev : Event} (hev : ∀ t, ev ≠ .start t) :
    (r.record ev).weight nodes = r.weight nodes := by
  have hunstarted : (r.record ev).unstartedCost nodes = r.unstartedCost nodes := by
    apply Finset.sum_congr rfl
    intro t _
    rw [starts_record, if_neg (hev t), Nat.add_zero]
    rfl
  unfold weight
  rw [hunstarted]
  rfl

/-- A task is started. -/
theorem weight_start {t : TaskId} (ht : t ∈ nodes) (hzero : r.starts t = 0) :
    (r.record (.start t)).weight nodes + (3 * (r.heap t).successorTasks.length + 6) =
      r.weight nodes := by
  have hself : (r.record (.start t)).starts t ≠ 0 := by
    rw [starts_record, if_pos rfl]
    exact Nat.succ_ne_zero _
  have hrest : ∑ u ∈ nodes.erase t, (if (r.record (.start t)).starts u = 0 then
      3 * (r.heap u).successorTasks.length + 6 else 0) =
      ∑ u ∈ nodes.erase t, if r.starts u = 0 then
        3 * (r.heap u).successorTasks.length + 6 else 0 := by
    apply Finset.sum_congr rfl
    intro u hu
    have hne : Event.start t ≠ .start u := by
      intro heq
      exact (Finset.mem_erase.mp hu).1 (Event.start.inj heq).symm
    rw [starts_record, if_neg hne, Nat.add_zero]
  have hunstarted : (r.record (.start t)).unstartedCost nodes +
      (3 * (r.heap t).successorTasks.length + 6) = r.unstartedCost nodes := by
    unfold unstartedCost
    rw [← Finset.sum_erase_add nodes _ ht, ← Finset.sum_erase_add nodes _ ht]
    show ∑ u ∈ nodes.erase t, (if (r.record (.start t)).starts u = 0 then
      3 * (r.heap u).successorTasks.length + 6 else 0) + _ + _ = _
    rw [hrest, if_neg hself, if_pos hzero, Nat.add_zero]
  unfold weight
  show r.tally (Pc.cost r.heap) + ∑ i, (r.queue i).length +
    (r.record (.start t)).unstartedCost nodes + r.main.cost + _ = _
  omega

theorem weight_walkEdge (t succ : TaskId) : (r.walkEdge t succ).weight nodes = r.weight nodes := by
  unfold walkEdge
  rw [weight_record _ _ (fun _ => by simp), weight_setHeap _ _ (r.heap.sameShape_decrement succ)]

end Weight

/-! ## Steps -/

/-- A step without progress: in front of an empty queue, or one that refuses, and the turns of
the main thread around it. -/
inductive Rests (r : Runtime m) (hit : Bool) : Fin (m + 1) → Runtime m → Prop
  | worker {i : Fin (m + 1)} (hi : i ≠ 0) (pc : r.pc i = .next)
      (empty : r.queue i = [] ∨ hit = false) : Rests r hit i r
  | test {e : TaskId} (main : r.main = .test e) (lt : 1 < (r.heap e).refCount) :
      Rests r hit 0 { r with main := .run e }
  | run {e : TaskId} (main : r.main = .run e) (pc : r.pc 0 = .next)
      (empty : r.queue 0 = [] ∨ hit = false) : Rests r hit 0 { r with main := .test e }

theorem threadStep_next {r r' : Runtime m} {i : Fin (m + 1)} {hit : Bool} (hpc : r.pc i = .next)
    (h : r.threadStep i hit = some r') :
    (r' = r ∧ (r.queue i = [] ∨ hit = false)) ∨
      ∃ t rest, r.queue i = t :: rest ∧
        r' = { r.setPc i (.hold t) with queue := Function.update r.queue i rest } := by
  unfold threadStep at h
  simp only [hpc] at h
  cases hq : r.queue i with
  | nil =>
      simp only [hq] at h
      exact Or.inl ⟨(Option.some.inj h).symm, Or.inl rfl⟩
  | cons t rest =>
      simp only [hq] at h
      cases hit with
      | true => exact Or.inr ⟨t, rest, rfl, (Option.some.inj h).symm⟩
      | false => exact Or.inl ⟨(Option.some.inj h).symm, Or.inr rfl⟩

end Runtime

namespace Round

variable {nodes : Finset TaskId} {e : TaskId} {roots : List TaskId} {r r' : Runtime m}
  {i : Fin (m + 1)}

/-- A step of a thread, other than waiting, takes from what is left. -/
theorem weight_lt (h : Round nodes e roots r) (hpc : r.pc i ≠ .next) (hstep : ThreadStep r i r') :
    r'.weight nodes < r.weight nodes := by
  have hin := h.inside i
  -- what the move of the thread gives back
  have hset : ∀ (r₁ : Runtime m) (p : Pc), r₁.pc = r.pc → r.heap.SameShape r₁.heap →
      p.cost r.heap + r₁.weight nodes < r.weight nodes + (r.pc i).cost r.heap →
      (r₁.setPc i p).weight nodes < r.weight nodes := by
    intro r₁ p hsame hshape hlt
    have hsum := weight_setPc nodes r₁ i p
    rw [hsame, hshape.cost, hshape.cost] at hsum
    omega
  have hpos : ∀ {p : Pc}, r.pc i = p → (r.pc i).cost r.heap = p.cost r.heap := fun h => by rw [h]
  cases hstep with
  | wait pc => exact absurd pc hpc
  | pop pc _ => exact absurd pc hpc
  | @start t pc kind =>
      have hhand : (r.pc i).hand = some t := by rw [pc]; rfl
      obtain ⟨hmem, -, hzero⟩ := h.mem_of_hand hhand
      have hstart := weight_start nodes r hmem hzero
      have hsum := weight_setPc nodes (r.record (.start t)) i (.body t)
      have hbefore : ((r.record (.start t)).pc i).cost (r.record (.start t)).heap = 0 := by
        show (r.pc i).cost r.heap = 0
        rw [pc]
        rfl
      have hafter : (Pc.body t).cost (r.record (.start t)).heap =
          3 * (r.heap t).successorTasks.length + 5 := rfl
      show ((r.record (.start t)).setPc i (.body t)).weight nodes < _
      omega
  | @skip t pc kind =>
      have hhand : (r.pc i).hand = some t := by rw [pc]; rfl
      have hkind := h.runnable.kind t (h.mem_of_hand hhand).1
      rw [kind] at hkind
      cases hkind
  | @finish t pc =>
      show ((r.record (.finish t)).setPc i (.restore t)).weight nodes < _
      refine hset (r.record (.finish t)) _ rfl (Heap.SameShape.refl _) ?_
      rw [weight_record _ _ (fun _ => by simp), hpos pc]
      simp only [Pc.cost]
      omega
  | @restore t pc =>
      refine hset (r.setHeap _) _ rfl (r.heap.sameShape_restore t) ?_
      rw [weight_setHeap _ _ (r.heap.sameShape_restore t), hpos pc]
      simp only [Pc.cost]
      omega
  | @release t succ k pc next zero =>
      have hlt := (List.getElem?_eq_some_iff.mp next).1
      refine hset (r.walkEdge t succ) _ rfl (r.heap.sameShape_decrement succ) ?_
      rw [weight_walkEdge, hpos pc]
      simp only [Pc.cost]
      omega
  | @walk t succ k pc next nonzero =>
      have hlt := (List.getElem?_eq_some_iff.mp next).1
      refine hset (r.walkEdge t succ) _ rfl (r.heap.sameShape_decrement succ) ?_
      rw [weight_walkEdge, hpos pc]
      simp only [Pc.cost]
      omega
  | @arrive t k pc last =>
      refine hset r _ rfl (Heap.SameShape.refl _) ?_
      rw [hpos pc]
      simp only [Pc.cost]
      omega
  | @push t succ k r₁ pc spawned =>
      obtain ⟨j, rfl⟩ := spawnToId_localSpawn spawned
      rw [pc] at hin
      have hlt : k < (r.heap t).successorTasks.length := hin
      refine hset (r.localSpawn j succ) _ rfl (Heap.SameShape.refl _) ?_
      rw [weight_localSpawn, hpos pc]
      simp only [Pc.cost]
      omega
  | @releaseVertical t succ pc next zero =>
      refine hset (r.walkEdge t succ) _ rfl (r.heap.sameShape_decrement succ) ?_
      rw [weight_walkEdge, hpos pc]
      simp only [Pc.cost]
      omega
  | @walkVertical t succ pc next nonzero =>
      refine hset (r.walkEdge t succ) _ rfl (r.heap.sameShape_decrement succ) ?_
      rw [weight_walkEdge, hpos pc]
      simp only [Pc.cost]
      omega
  | back pc next =>
      refine hset r _ rfl (Heap.SameShape.refl _) ?_
      rw [hpos pc]
      simp only [Pc.cost]
      omega
  | @leave t pc =>
      refine hset (r.setHeap _) _ rfl (r.heap.sameShape_delete t) ?_
      rw [weight_setHeap _ _ (r.heap.sameShape_delete t), hpos pc]
      simp only [Pc.cost]
      omega
  | @leaveFor t succ pc =>
      refine hset (r.setHeap _) _ rfl (r.heap.sameShape_delete t) ?_
      rw [weight_setHeap _ _ (r.heap.sameShape_delete t), hpos pc]
      simp only [Pc.cost]
      omega

/-- Whatever a thread does in its loop. -/
theorem threadStep_weight (h : Round nodes e roots r) {hit : Bool}
    (hstep : r.threadStep i hit = some r') : r'.weight nodes < r.weight nodes ∨
      (r' = r ∧ r.pc i = .next ∧ (r.queue i = [] ∨ hit = false)) := by
  by_cases hpc : r.pc i = .next
  · rcases threadStep_next hpc hstep with ⟨rfl, hempty⟩ | ⟨t, rest, hq, rfl⟩
    · exact Or.inr ⟨rfl, hpc, hempty⟩
    · left
      have hpop := weight_pop nodes r hq
      have hsum := weight_setPc nodes { r with queue := Function.update r.queue i rest } i (.hold t)
      have hbefore : (({ r with queue := Function.update r.queue i rest } : Runtime m).pc i).cost
          r.heap = 0 := by
        show (r.pc i).cost r.heap = 0
        rw [hpc]
        rfl
      have hafter : (Pc.hold t).cost r.heap = 0 := rfl
      show (({ r with queue := Function.update r.queue i rest } : Runtime m).setPc i
        (.hold t)).weight nodes < _
      have hsum : _ + (({ r with queue := Function.update r.queue i rest } : Runtime m).pc i).cost
          r.heap = _ + (Pc.hold t).cost r.heap := hsum
      omega
  · exact Or.inl (h.weight_lt hpc (threadStep_cases hstep))

end Round

namespace Runtime

theorem weight_main (nodes : Finset TaskId) (r : Runtime m) (mpc : MainPc) :
    { r with main := mpc }.weight nodes + r.main.cost = r.weight nodes + mpc.cost := by
  unfold weight
  show r.tally (Pc.cost r.heap) + ∑ i, (r.queue i).length + r.unstartedCost nodes + mpc.cost + _ = _
  omega

theorem weight_main_lt (nodes : Finset TaskId) (r : Runtime m) {mpc : MainPc}
    (hlt : mpc.cost < r.main.cost) : { r with main := mpc }.weight nodes < r.weight nodes := by
  have hsum := weight_main nodes r mpc
  omega

end Runtime

namespace InRound

variable {nodes : Finset TaskId} {e : TaskId} {r r' : Runtime m} {i : Fin (m + 1)} {hit : Bool}

theorem threadStep_isSome (h : InRound nodes e r) (i : Fin (m + 1)) (hit : Bool) :
    (r.threadStep i hit).isSome := by
  obtain ⟨r', hr'⟩ := Runtime.threadStep_isSome (r := r) (i := i) hit fun t ht =>
    h.round.runnable.affinity t (h.round.mem_of_hand ht).1
  exact Option.isSome_of_eq_some hr'

/-- No thread is ever stuck during a round. -/
theorem step_isSome (h : InRound nodes e r) (i : Fin (m + 1)) (hit : Bool) :
    (r.step i hit).isSome := by
  unfold Runtime.step
  split
  · unfold mainStep
    cases hm : r.main with
    | prog =>
        have hwaits := h.waits
        rw [hm] at hwaits
        cases hwaits
    | spawn e' roots =>
        cases roots with
        | nil => rfl
        | cons t roots =>
            have hplace := h.round.place t
            rw [hm] at hplace
            have hmem : t ∈ nodes := by
              by_contra hno
              rw [if_neg fun hbad => hno hbad.1] at hplace
              simp [MainPc.roots] at hplace
            obtain ⟨r', hr'⟩ := spawnToId_isSome (h.round.runnable.affinity t hmem) 0
            exact (Option.isSome_map ..).trans (Option.isSome_of_eq_some hr')
    | run e' => exact (Option.isSome_map ..).trans (h.threadStep_isSome 0 hit)
    | test e' => rfl
    | left e' => rfl
    | returned e' => rfl
  · exact h.threadStep_isSome i hit

/-- A step makes progress, or is one of those that change nothing. -/
theorem progress (h : InRound nodes e r) (hstep : r.step i hit = some r') :
    r'.weight nodes < r.weight nodes ∨
      (r'.weight nodes = r.weight nodes ∧ r.Rests hit i r') := by
  unfold Runtime.step at hstep
  split at hstep
  · next hi =>
      subst hi
      have hin : ∀ e', r.main.waitsFor = some e' → e' = e := fun e' he =>
        Option.some_inj.mp (he.symm.trans h.waits)
      unfold mainStep at hstep
      cases hm : r.main with
      | prog =>
          have hwaits := h.waits
          rw [hm] at hwaits
          cases hwaits
      | spawn e' roots =>
          rw [hm] at hstep
          left
          cases roots with
          | cons t roots =>
              obtain ⟨r₁, hr₁, rfl⟩ := Option.map_eq_some_iff.mp hstep
              obtain ⟨j, rfl⟩ := spawnToId_localSpawn hr₁
              have hpush := weight_localSpawn nodes r j t
              have hmain := weight_main nodes (r.localSpawn j t) (.spawn e' roots)
              have hbefore : (r.localSpawn j t).main.cost = 2 * (roots.length + 1) + 4 := by
                show r.main.cost = _
                rw [hm]
                rfl
              have hafter : (MainPc.spawn e' roots).cost = 2 * roots.length + 4 := rfl
              omega
          | nil =>
              cases hstep
              have hset := weight_setPc nodes r 0 .next
              have hnext : Pc.next.cost r.heap = 0 := rfl
              have hle : (r.setPc 0 .next).weight nodes ≤ r.weight nodes := by omega
              have hcost : (MainPc.test e').cost < (r.setPc 0 .next).main.cost := by
                show 3 < r.main.cost
                rw [hm]
                exact Nat.lt_succ_self 3
              exact (weight_main_lt nodes _ hcost).trans_le hle
      | test e' =>
          rw [hm] at hstep
          cases hstep
          by_cases hlt : 1 < (r.heap e').refCount
          · right
            rw [if_pos hlt]
            have hmain := weight_main nodes r (.run e')
            rw [hm] at hmain
            exact ⟨Nat.add_right_cancel hmain, .test hm hlt⟩
          · left
            rw [if_neg hlt]
            have hcost : (MainPc.left e').cost < r.main.cost := by
              rw [hm]
              exact Nat.lt_succ_self 2
            exact weight_main_lt nodes r hcost
      | run e' =>
          rw [hm] at hstep
          obtain ⟨r₁, hr₁, hr'⟩ := Option.map_eq_some_iff.mp hstep
          have hmain₁ : r₁.main = .run e' := by
            rw [← hm]
            exact (threadStep_turn (h.round.inside 0) hr₁).main
          have hmain : ({ r₁ with main := .test e' } : Runtime m).weight nodes =
              r₁.weight nodes := by
            have hsum := weight_main nodes r₁ (.test e')
            rw [hmain₁] at hsum
            exact Nat.add_right_cancel hsum
          rcases h.round.threadStep_weight hr₁ with hlt | ⟨rfl, hpc, hempty⟩
          · left
            rw [← hr']
            split
            · rw [hmain]
              exact hlt
            · exact hlt
          · right
            rw [if_pos (by rw [hpc]; rfl)] at hr'
            rw [← hr']
            exact ⟨hmain, .run hm hpc hempty⟩
      | left e' =>
          rw [hm] at hstep
          cases hstep
          left
          have hdel := weight_setHeap nodes r (r.heap.sameShape_delete e')
          have hcost : (MainPc.returned e').cost < r.main.cost := by
            rw [hm]
            exact Nat.lt_succ_self 1
          rw [← hdel]
          exact weight_main_lt nodes (r.setHeap _) hcost
      | returned e' =>
          rw [hm] at hstep
          cases hstep
          left
          have hback := weight_setHeap nodes r (r.heap.sameShape_restore e')
          have hcost : MainPc.prog.cost < r.main.cost := by
            rw [hm]
            exact Nat.lt_succ_self 0
          rw [← hback]
          exact weight_main_lt nodes (r.setHeap _) hcost
  · next hi =>
      rcases h.round.threadStep_weight hstep with hlt | ⟨rfl, hpc, hempty⟩
      · exact Or.inl hlt
      · exact Or.inr ⟨rfl, .worker hi hpc hempty⟩

end InRound

/-! ## Threads that only rest -/

namespace Runtime

section

variable {r r' : Runtime m} {i : Fin (m + 1)} {hit : Bool}

theorem Rests.of_worker (h : r.Rests hit i r') (hi : i ≠ 0) :
    r' = r ∧ r.pc i = .next ∧ (r.queue i = [] ∨ hit = false) := by
  cases h with
  | worker _ hpc hempty => exact ⟨rfl, hpc, hempty⟩
  | test _ _ => exact absurd rfl hi
  | run _ _ _ => exact absurd rfl hi

theorem Rests.of_main (h : r.Rests hit 0 r') :
    (∃ e, r.main = .test e ∧ 1 < (r.heap e).refCount ∧ r' = { r with main := .run e }) ∨
      ∃ e, r.main = .run e ∧ r.pc 0 = .next ∧ (r.queue 0 = [] ∨ hit = false) ∧
        r' = { r with main := .test e } := by
  cases h with
  | worker hi _ _ => exact absurd rfl hi
  | test hm hlt => exact Or.inl ⟨_, hm, hlt, rfl⟩
  | run hm hpc hempty => exact Or.inr ⟨_, hm, hpc, hempty, rfl⟩

theorem Rests.frame (h : r.Rests hit i r') : r' = { r with main := r'.main } := by
  cases h <;> rfl

end

/-- From `n` on all threads rest. -/
def Resting (run : ℕ → Runtime m) (schedule : ℕ → Fin (m + 1) × Bool) (n : ℕ) : Prop :=
  ∀ k, n ≤ k → (run k).Rests (schedule k).2 (schedule k).1 (run (k + 1))

namespace Resting

variable {run : ℕ → Runtime m} {schedule : ℕ → Fin (m + 1) × Bool} {n : ℕ}

/-- Only the place of the main thread changes. -/
theorem frozen (h : Resting run schedule n) (k : ℕ) (hk : n ≤ k) :
    run k = { run n with main := (run k).main } := by
  induction k, hk using Nat.le_induction with
  | base => rfl
  | succ k hk ih =>
      have hframe := (h k hk).frame
      rw [ih] at hframe
      exact hframe

theorem stays (h : Resting run schedule n) {N k : ℕ} (hN : n ≤ N) (hk : N ≤ k)
    (hall : ∀ l, N ≤ l → l < k → (schedule l).1 ≠ 0) : (run k).main = (run N).main := by
  induction k, hk using Nat.le_induction with
  | base => rfl
  | succ k hk ih =>
      have hworker := (h k (hN.trans hk)).of_worker (hall k hk (Nat.lt_succ_self k))
      rw [hworker.1]
      exact ih fun l hl hlt => hall l hl (Nat.lt_succ_of_lt hlt)

/-- The next step of the main thread. -/
theorem next (h : Resting run schedule n)
    (hmain : Fair.InfinitelyOften fun k => (schedule k).1 = 0) {N : ℕ} (hN : n ≤ N) :
    ∃ k, N ≤ k ∧ (schedule k).1 = 0 ∧ (run k).main = (run N).main ∧
      (run k).Rests (schedule k).2 0 (run (k + 1)) := by
  obtain ⟨k, hNk, hzero, hfirst⟩ := hmain.first N
  have hrests := h k (hN.trans hNk)
  rw [hzero] at hrests
  exact ⟨k, hNk, hzero, h.stays hN hNk hfirst, hrests⟩

/-- The main thread goes on turning. -/
theorem turns (h : Resting run schedule n)
    (hmain : Fair.InfinitelyOften fun k => (schedule k).1 = 0) {N : ℕ} (hN : n ≤ N) :
    (∃ k, N ≤ k ∧ (schedule k).1 = 0 ∧ (∃ e, (run k).main = .run e) ∧
      (run k).Rests (schedule k).2 0 (run (k + 1))) ∧
    ∃ k, N ≤ k ∧ (schedule k).1 = 0 ∧ (∃ e, (run k).main = .test e) ∧
      (run k).Rests (schedule k).2 0 (run (k + 1)) := by
  obtain ⟨k, hNk, hzero, -, hrests⟩ := h.next hmain hN
  obtain ⟨l, hkl, hzero', hsame, hrests'⟩ := h.next hmain ((hN.trans hNk).trans (Nat.le_succ k))
  have hNl : N ≤ l := (hNk.trans (Nat.le_succ k)).trans hkl
  rcases hrests.of_main with ⟨e, hm, -, heq⟩ | ⟨e, hm, -, -, heq⟩
  · refine ⟨⟨l, hNl, hzero', ⟨e, ?_⟩, hrests'⟩, k, hNk, hzero, ⟨e, hm⟩, hrests⟩
    rw [hsame, heq]
  · refine ⟨⟨k, hNk, hzero, ⟨e, hm⟩, hrests⟩, l, hNl, hzero', ⟨e, ?_⟩, hrests'⟩
    rw [hsame, heq]

end Resting

/-! ## Fair schedules -/

/-- The state after the first steps of a schedule. -/
def after (r : Runtime m) (schedule : ℕ → Fin (m + 1) × Bool) : ℕ → Runtime m :=
  Fair.after (fun r a => r.step a.1 a.2) r schedule

/-- Thread `i` is about to pop from a queue that is not empty. -/
def Tries (r : Runtime m) (i : Fin (m + 1)) : Prop :=
  r.pc i = .next ∧ r.queue i ≠ [] ∧ (i.val = 0 → ∃ e, r.main = .run e)

/-- Every thread takes its turns, and a queue that is tried again and again gives a task again
and again. -/
structure FairRun (r : Runtime m) (schedule : ℕ → Fin (m + 1) × Bool) : Prop where
  scheduled : ∀ i, Fair.InfinitelyOften fun k => (schedule k).1 = i
  pops : ∀ i, Fair.InfinitelyOften (fun k => (schedule k).1 = i ∧ (r.after schedule k).Tries i) →
    Fair.InfinitelyOften fun k =>
      (schedule k).1 = i ∧ (r.after schedule k).Tries i ∧ (schedule k).2 = true

end Runtime

namespace InRound

variable {nodes : Finset TaskId} {e : TaskId} {r : Runtime m}
  {schedule : ℕ → Fin (m + 1) × Bool}

/-- A step of a round ends it, makes progress or rests. -/
theorem step_cases (h : InRound nodes e r) (i : Fin (m + 1)) (hit : Bool) :
    ∃ r', r.step i hit = some r' ∧ (r'.main = .prog ∨ InRound nodes e r' ∧
      (r'.weight nodes < r.weight nodes ∨
        (r'.weight nodes = r.weight nodes ∧ r.Rests hit i r'))) := by
  obtain ⟨r', hr'⟩ := Option.isSome_iff_exists.mp (h.step_isSome i hit)
  refine ⟨r', hr', ?_⟩
  by_cases hback : i = 0 ∧ r.main = .returned e
  · obtain ⟨rfl, hm⟩ := hback
    exact Or.inl (h.return hm hr').main
  · exact Or.inr ⟨h.step (fun hi hm => hback ⟨hi, hm⟩) hr', h.progress hr'⟩

/-- The threads of a fair run do not rest for ever. -/
theorem not_resting (hin : ∀ n, InRound nodes e (r.after schedule n))
    (hfair : r.FairRun schedule) (n : ℕ) : ¬Resting (r.after schedule) schedule n := by
  intro hrest
  have hmain := hfair.scheduled 0
  have hpending : ∀ k, n ≤ k → (r.after schedule k).pending nodes e =
      (r.after schedule n).pending nodes e := by
    intro k hk
    rw [hrest.frozen k hk]
    rfl
  obtain ⟨⟨N, hN, -, ⟨e₁, hm₁⟩, -⟩, -⟩ := hrest.turns hmain (Nat.le_refl n)
  by_cases hend : (r.after schedule n).pending nodes e = 0
  · -- the main thread sees that all is done
    obtain ⟨-, k, hk, -, ⟨e', hm⟩, hturn⟩ := hrest.turns hmain (Nat.le_refl n)
    have hcount := (hin k).round.endCount
    rw [hpending k hk, hend] at hcount
    rcases hturn.of_main with ⟨e'', hm', hlt, -⟩ | ⟨e'', hm', -⟩
    · have hwaits := (hin k).waits
      rw [hm'] at hwaits
      obtain rfl : e'' = e := Option.some_inj.mp hwaits
      omega
    · rw [hm] at hm'
      cases hm'
  · -- some thread has work
    have hwork := (hin N).round.exists_work (by rwa [hpending N hN])
    rw [hm₁] at hwork
    have hpc : ∀ k, n ≤ k → ∀ i, (r.after schedule k).pc i = (r.after schedule n).pc i := by
      intro k hk i
      rw [hrest.frozen k hk]
    have hqueue : ∀ k, n ≤ k → ∀ i,
        (r.after schedule k).queue i = (r.after schedule n).queue i := by
      intro k hk i
      rw [hrest.frozen k hk]
    -- in the end all threads stand in front of their queues
    have hall : ∀ i, (r.after schedule n).pc i = .next := by
      intro i
      by_cases hi : i = 0
      · subst hi
        obtain ⟨⟨k, hk, -, ⟨e', hm⟩, hturn⟩, -⟩ := hrest.turns hmain (Nat.le_refl n)
        rcases hturn.of_main with ⟨e'', hm', -⟩ | ⟨-, -, hnext, -⟩
        · rw [hm] at hm'
          cases hm'
        · rw [← hpc k hk]
          exact hnext
      · obtain ⟨k, hk, hki⟩ := hfair.scheduled i n
        have hworker := (hrest k hk).of_worker (by rwa [hki])
        rw [hki] at hworker
        rw [← hpc k hk]
        exact hworker.2.1
    rcases hwork with hroots | ⟨i, hi⟩ | ⟨i, t, hhand | ⟨k, hat⟩⟩
    · exact hroots rfl
    · -- the queue is tried again and again
      rw [hqueue N hN] at hi
      have htries : Fair.InfinitelyOften fun k =>
          (schedule k).1 = i ∧ (r.after schedule k).Tries i := by
        intro M
        by_cases hzero : i = 0
        · subst hzero
          obtain ⟨⟨k, hk, hk0, hm, -⟩, -⟩ := hrest.turns hmain (Nat.le_max_left n M)
          have hnk : n ≤ k := (Nat.le_max_left n M).trans hk
          refine ⟨k, (Nat.le_max_right n M).trans hk, hk0, ?_, ?_, fun _ => hm⟩
          · rw [hpc k hnk, hall]
          · rw [hqueue k hnk]
            exact hi
        · obtain ⟨k, hk, hki⟩ := hfair.scheduled i (max n M)
          have hnk : n ≤ k := (Nat.le_max_left n M).trans hk
          refine ⟨k, (Nat.le_max_right n M).trans hk, hki, ?_, ?_, ?_⟩
          · rw [hpc k hnk, hall]
          · rw [hqueue k hnk]
            exact hi
          · exact fun hbad => absurd (Fin.ext hbad) hzero
      obtain ⟨k, hk, hki, ⟨-, hne, hrun⟩, hhit⟩ := hfair.pops i htries n
      have hstep := hrest k hk
      rw [hki, hhit] at hstep
      by_cases hzero : i = 0
      · subst hzero
        obtain ⟨e', hm⟩ := hrun rfl
        rcases hstep.of_main with ⟨e'', hm', -⟩ | ⟨-, -, -, hempty, -⟩
        · rw [hm] at hm'
          cases hm'
        · exact hempty.elim hne Bool.noConfusion
      · exact (hstep.of_worker hzero).2.2.elim hne Bool.noConfusion
    · rw [hpc N hN, hall] at hhand
      cases hhand
    · rw [hpc N hN, hall] at hat
      exact Pc.not_at_of_stage rfl t k hat

/-- The main thread comes back from a round. -/
theorem returns (h : InRound nodes e r) (hfair : r.FairRun schedule) :
    ∃ n, (r.after schedule (n + 1)).main = .prog ∧
      (∀ k, k ≤ n → InRound nodes e (r.after schedule k)) ∧
      ∀ k, k ≤ n → (r.after schedule k).step (schedule k).1 (schedule k).2 =
        some (r.after schedule (k + 1)) :=
  Fair.reaches (P := InRound nodes e) (G := fun r => r.main = .prog)
    (R := fun (r : Runtime m) a r' => r.Rests a.2 a.1 r') (w := fun r => r.weight nodes)
    h (fun _ a hin => hin.step_cases a.1 a.2)
    fun hin n => not_resting hin hfair n

end InRound

/-! ## Every program -/

theorem Runtime.steps_after {r : Runtime m} {schedule : ℕ → Fin (m + 1) × Bool} {n : ℕ}
    (hsteps : ∀ k, k < n → (r.after schedule k).step (schedule k).1 (schedule k).2 =
      some (r.after schedule (k + 1))) : r.Steps (r.after schedule n) := by
  induction n with
  | zero => exact .refl
  | succ n ih =>
      have hlast := hsteps n (Nat.lt_succ_self n)
      exact (ih fun k hk => hsteps k (Nat.lt_succ_of_lt hk)).tail ⟨_, _, hlast⟩

/-- The step with which the main thread comes back. -/
theorem InRound.returned_of_prog {nodes : Finset TaskId} {e : TaskId} {r r' : Runtime m}
    (h : InRound nodes e r) {i : Fin (m + 1)} {hit : Bool} (hstep : r.step i hit = some r')
    (hm : r'.main = .prog) : r.main = .returned e ∧ r'.log = r.log := by
  have hback : i = 0 ∧ r.main = .returned e := by
    by_contra hno
    have hin := h.step (fun hi hbad => hno ⟨hi, hbad⟩) hstep
    have hwaits := hin.waits
    rw [hm] at hwaits
    cases hwaits
  obtain ⟨rfl, hret⟩ := hback
  refine ⟨hret, ?_⟩
  simp only [Runtime.step, if_true, Runtime.mainStep, hret, Option.some.injEq] at hstep
  rw [← hstep]

namespace Session

variable {s : Session m} {schedule : ℕ → Fin (m + 1) × Bool}

theorem During.inRound {lo : Int → TaskId} {a e : TaskId} (h : During lo a e s)
    (hne : runningTasks s.calls ≠ some []) : InRound (Finset.Ico a e) e s.runtime := by
  refine h.round.resolve_right fun hhollow => hne ?_
  rw [h.running, hhollow.1, interval, Nat.sub_self]
  rfl

/-- Whatever program has called `spawn_and_wait`, and wherever the threads are: if the graph has
a task and the threads go on in a fair way, then `spawn_and_wait` returns, no thread is stuck
before, and the tasks of the graph, and no others, have each run once. -/
theorem spawn_and_wait_returns (h : Reached (fun _ _ => True) s) (hm : s.runtime.main ≠ .prog)
    (hne : runningTasks s.calls ≠ some []) (hfair : s.runtime.FairRun schedule) :
    ∃ tasks n, runningTasks s.calls = some tasks ∧ (s.runtime.after schedule n).main = .prog ∧
      (∀ k, k < n → (s.runtime.after schedule k).step (schedule k).1 (schedule k).2 =
        some (s.runtime.after schedule (k + 1))) ∧
      ∀ u, (s.runtime.after schedule n).log.count (.start u) = (if u ∈ tasks then 1 else 0) ∧
        (s.runtime.after schedule n).log.count (.finish u) = if u ∈ tasks then 1 else 0 := by
  obtain ⟨lo, a, e, hduring⟩ := h.inv.during hm
  obtain ⟨n, hback, hbefore, hsteps⟩ := (hduring.inRound hne).returns hfair
  have hlast := hbefore n (Nat.le_refl n)
  obtain ⟨hret, hlog⟩ := hlast.returned_of_prog (hsteps n (Nat.le_refl n)) hback
  have hexecutes := h.inv.executes hduring.running _
    (steps_after fun k hk => hsteps k (Nat.le_of_lt hk)) (by simp [hret])
  refine ⟨interval a e, n + 1, hduring.running, hback, fun k hk => ?_, fun u => ?_⟩
  · exact hsteps k (Nat.le_of_lt_succ hk)
  · rw [hlog]
    exact hexecutes.2.2 e (Or.inr hret) u

namespace Example

/-- The two threads in turns. -/
def inTurns (n : ℕ) : Fin 2 × Bool := (⟨n % 2, Nat.mod_lt n Nat.two_pos⟩, true)

theorem fairRun_inTurns (r : Runtime 1) : r.FairRun inTurns where
  scheduled := by
    intro i n
    refine ⟨2 * n + i.val, by omega, ?_⟩
    apply Fin.ext
    show (2 * n + i.val) % 2 = i.val
    omega
  pops := by
    intro i htries n
    obtain ⟨k, hk, hki, ht⟩ := htries n
    exact ⟨k, hk, hki, ht, rfl⟩

end Example

/-- A stored graph is run for the second time. -/
theorem spawn_and_wait_returns_again : ∃ (s s' : Session 1) (n : ℕ),
    s.act (.call .spawnAndWait) = some s' ∧
      (s'.runtime.after Example.inTurns n).main = .prog ∧
      (s'.runtime.after Example.inTurns n).log.count (.finish 0) = 1 := by
  have hrun : (((start : Session 1).run Example.reused).bind fun s =>
      (s.act (.call .spawnAndWait)).map fun s' =>
        (decide (s'.runtime.main ≠ .prog), runningTasks s'.calls)) =
      some (true, some [0]) := by decide
  obtain ⟨s, hs, hrun⟩ := Option.bind_eq_some_iff.mp hrun
  obtain ⟨s', hs', hrun⟩ := Option.map_eq_some_iff.mp hrun
  obtain ⟨hm, hrunning⟩ := Prod.mk.inj hrun
  have hreached : Reached (fun _ _ => True) s' := (Reached.start.run _ hs).act trivial hs'
  obtain ⟨tasks, n, htasks, hprog, -, hcount⟩ := spawn_and_wait_returns hreached
    (of_decide_eq_true hm) (by rw [hrunning]; decide) (Example.fairRun_inTurns s'.runtime)
  obtain rfl : [0] = tasks := Option.some_inj.mp (hrunning.symm.trans htasks)
  exact ⟨s, s', n, hs', hprog, (hcount 0).2⟩

end Session

end AceMesh
