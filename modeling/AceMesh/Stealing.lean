import AceMesh.SessionRun
import AceMesh.PrivateQueue

/-!
# Queues that are stolen from

The build with `USE_STACK` and `USE_STEALING`: the queues are the task stacks, and a thread
whose own queue gives nothing tries to pop the queue of another one. The steps of `push` and
`try_pop` interleave with everything else. `queue` of the runtime is what the record of the
stacks says; a push or a pop changes it when its `compare_and_swap` succeeds, and no step
reads it.

A thread can stall in `try_pop` after it has read `next`. In a later round the task it has
seen is pushed again, with another `next`, and the `compare_and_swap` does not notice
(`stolen_stale`). Without such a `compare_and_swap` the stacks hold what was pushed and not
popped, and with it they do not (`stealing_sound_iff`).

Tasks are told apart by their numbers, so a new task is never at the address of a deleted one.
Where it is, the same can happen to graphs that are not stored.
-/

open AceMesh.TaskDagGraph AceMesh.Runtime

namespace AceMesh

/-- What a thread does next to a queue. -/
inductive Demand
  | pop
  | push (t : TaskId)
  | other
  deriving DecidableEq

def Pc.demand : Pc → Demand
  | .next => .pop
  | .push _ _ succ => .push succ
  | _ => .other

theorem Pc.eq_push_of_demand {p : Pc} {t : TaskId} (h : p.demand = .push t) :
    ∃ u k, p = .push u k t := by
  cases p with
  | push u k succ =>
      cases h
      exact ⟨u, k, rfl⟩
  | next => cases h
  | hold _ => cases h
  | body _ => cases h
  | restore _ => cases h
  | loop _ _ => cases h
  | vert _ => cases h
  | ret _ _ => cases h

theorem Pc.eq_next_of_demand {p : Pc} (h : p.demand = .pop) : p = .next := by
  cases p with
  | next => rfl
  | push _ _ _ => cases h
  | hold _ => cases h
  | body _ => cases h
  | restore _ => cases h
  | loop _ _ => cases h
  | vert _ => cases h
  | ret _ _ => cases h

/-- The push that a thread is in. -/
def Op.pushTo {k : Nat} : Op k → Option (Fin k × TaskId)
  | .pushLoad j t => some (j, t)
  | .pushLink j t _ => some (j, t)
  | .pushCas j t _ => some (j, t)
  | _ => none

/-- The thread has not got a task yet. -/
def Op.popping {k : Nat} : Op k → Bool
  | .popLoad _ => true
  | .popNext _ _ => true
  | .popCas _ _ _ => true
  | .popped _ none => true
  | _ => false

theorem Op.pushTo_of_pushing {k : Nat} {o : Op k} {t : TaskId} (h : o.pushing = some t) :
    ∃ j, o.pushTo = some (j, t) := by
  cases o with
  | pushLoad j u => cases h; exact ⟨j, rfl⟩
  | pushLink j u v => cases h; exact ⟨j, rfl⟩
  | pushCas j u v => cases h; exact ⟨j, rfl⟩
  | idle => cases h
  | pushed _ _ => cases h
  | popLoad _ => cases h
  | popNext _ _ => cases h
  | popCas _ _ _ => cases h
  | popped _ _ => cases h

theorem Stacks.Reads.same {k n : Nat} {s : Stacks k n} {o o' : Op k} (h : Reads s o o') :
    o'.pushTo = o.pushTo ∧ o'.popping = o.popping ∧ (∀ j t, o' ≠ .pushed j t) ∧
      ∀ j t, o' ≠ .popped j (some t) := by
  cases h with
  | load => simp [Op.pushTo, Op.popping]
  | retry _ => simp [Op.pushTo, Op.popping]
  | empty _ => simp [Op.pushTo, Op.popping]
  | top _ => simp [Op.pushTo, Op.popping]
  | next => simp [Op.pushTo, Op.popping]
  | fail _ => simp [Op.pushTo, Op.popping]

namespace Runtime

variable {m : Nat}

def demand (r : Runtime m) (i : Fin (m + 1)) : Demand :=
  if i.val = 0 then
    match r.main with
    | .spawn _ (t :: _) => .push t
    | .run _ => (r.pc i).demand
    | _ => .other
  else (r.pc i).demand

theorem demand_zero (r : Runtime m) : r.demand 0 = match r.main with
    | .spawn _ (t :: _) => .push t
    | .run _ => (r.pc 0).demand
    | _ => .other := if_pos rfl

theorem demand_of_ne (r : Runtime m) {i : Fin (m + 1)} (hi : i ≠ 0) :
    r.demand i = (r.pc i).demand := if_neg fun h => hi (Fin.ext h)

/-- The queue that `spawn_to_id` chooses. -/
def target (r : Runtime m) (i : Fin (m + 1)) (t : TaskId) : Option (Fin (m + 1)) :=
  let myId := (r.heap t).affinityId
  if -1 < myId then if h : myId.toNat < m + 1 then some ⟨myId.toNat, h⟩ else none
  else if myId = FOLLOW_AFFINITY then some i
  else none

theorem spawnToId_eq (r : Runtime m) (i : Fin (m + 1)) (t : TaskId) :
    r.spawnToId i t = (r.target i t).map fun j => r.localSpawn j t := by
  unfold spawnToId target
  dsimp only
  split
  · split <;> rfl
  · split <;> rfl

/-- `get_next_task` has got a task from queue `j`. -/
def getTask (r : Runtime m) (i j : Fin (m + 1)) (t : TaskId) : Runtime m :=
  { r.setPc i (.hold t) with queue := Function.update r.queue j ((r.queue j).erase t) }

/-- What a step does to the queues follows from what the thread demands. -/
theorem threadStep_queue {r r' : Runtime m} {i : Fin (m + 1)} {hit : Bool}
    (h : r.threadStep i hit = some r') : match (r.pc i).demand with
      | .pop => hit = false → r'.queue = r.queue
      | .push t => ∃ j, r.target i t = some j ∧
          r'.queue = Function.update r.queue j (t :: r.queue j)
      | .other => r'.queue = r.queue := by
  unfold threadStep at h
  cases hpc : r.pc i with
  | next =>
      rw [hpc] at h
      intro hhit
      subst hhit
      dsimp only at h
      split at h
      · cases h
        rfl
      · cases h
        rfl
  | push t k succ =>
      rw [hpc] at h
      dsimp only at h
      rw [spawnToId_eq, Option.map_map] at h
      obtain ⟨j, hj, rfl⟩ := Option.map_eq_some_iff.mp h
      exact ⟨j, hj, rfl⟩
  | hold t =>
      rw [hpc] at h
      dsimp only at h
      show r'.queue = r.queue
      split at h <;> cases h <;> rfl
  | body t =>
      rw [hpc] at h
      cases h
      rfl
  | restore t =>
      rw [hpc] at h
      cases h
      rfl
  | loop t k =>
      rw [hpc] at h
      dsimp only at h
      show r'.queue = r.queue
      split at h
      · split at h <;> cases h <;> rfl
      · cases h
        rfl
  | vert t =>
      rw [hpc] at h
      dsimp only at h
      show r'.queue = r.queue
      split at h
      · split at h <;> cases h <;> rfl
      · cases h
        rfl
  | ret t v =>
      rw [hpc] at h
      cases h
      rfl

theorem step_queue {r r' : Runtime m} {i : Fin (m + 1)} {hit : Bool}
    (h : r.step i hit = some r') : match r.demand i with
      | .pop => hit = false → r'.queue = r.queue
      | .push t => ∃ j, r.target i t = some j ∧
          r'.queue = Function.update r.queue j (t :: r.queue j)
      | .other => r'.queue = r.queue := by
  unfold step at h
  by_cases hi : i = 0
  · rw [if_pos hi] at h
    subst hi
    rw [demand_zero]
    unfold mainStep at h
    cases hm : r.main with
    | prog =>
        rw [hm] at h
        cases h
    | spawn e roots =>
        rw [hm] at h
        cases roots with
        | nil =>
            cases h
            rfl
        | cons t roots =>
            dsimp only at h
            rw [spawnToId_eq, Option.map_map] at h
            obtain ⟨j, hj, rfl⟩ := Option.map_eq_some_iff.mp h
            exact ⟨j, hj, rfl⟩
    | test e =>
        rw [hm] at h
        cases h
        rfl
    | run e =>
        rw [hm] at h
        obtain ⟨r₁, hr₁, hr'⟩ := Option.map_eq_some_iff.mp h
        have hqueue : r'.queue = r₁.queue := by
          split at hr' <;> cases hr' <;> rfl
        rw [hqueue]
        exact threadStep_queue hr₁
    | left e =>
        rw [hm] at h
        cases h
        rfl
    | returned e =>
        rw [hm] at h
        cases h
        rfl
  · rw [if_neg hi] at h
    rw [demand_of_ne r hi]
    exact threadStep_queue h

theorem Move.demand {r r' : Runtime m} {i a : Fin (m + 1)} (h : Move r i r') (ha : a ≠ i) :
    r'.demand a = r.demand a := by
  have hpc := h.others ha
  by_cases ha0 : a = 0
  · have hmain : r'.main = r.main := by
      cases h with
      | worker _ turn => exact turn.main
      | root _ _ => exact absurd ha0 ha
      | enter _ => exact absurd ha0 ha
      | test _ => exact absurd ha0 ha
      | run _ _ => exact absurd ha0 ha
      | turnEnd _ _ => exact absurd ha0 ha
      | leave _ => exact absurd ha0 ha
      | back _ => exact absurd ha0 ha
    subst ha0
    rw [demand_zero, demand_zero, hmain, hpc]
  · rw [demand_of_ne r' ha0, demand_of_ne r ha0, hpc]

theorem Move.target {r r' : Runtime m} {i : Fin (m + 1)} (h : Move r i r') (a : Fin (m + 1))
    (t : TaskId) : r'.target a t = r.target a t := by
  unfold Runtime.target
  rw [h.shape.affinityId]

end Runtime

structure Stealing (m : Nat) where
  session : Session m
  queues : Stacks (m + 1) (m + 1)

namespace Stealing

variable {m : Nat}

abbrev runtime (s : Stealing m) : Runtime m := s.session.runtime

def setRuntime (s : Stealing m) (r : Runtime m) : Stealing m :=
  { s with session := { s.session with runtime := r } }

def setOp (s : Stealing m) (i : Fin (m + 1)) (o : Op (m + 1)) : Stealing m :=
  { s with queues := s.queues.setOp i o }

def start (next : TaskId → Option TaskId) : Stealing m where
  session := Session.start
  queues := Stacks.initial next

/-- A step inside of `push` or `try_pop`. When the operation takes effect, the thread moves
on. -/
def stackStep (s : Stealing m) (i : Fin (m + 1)) : Option (Stealing m) :=
  let s' := { s with queues := s.queues.step i }
  match s'.queues.op i with
  | .pushed _ _ => (s.runtime.step i true).map s'.setRuntime
  | .popped j (some t) => some (s'.setRuntime (s.runtime.getTask i j t))
  | _ => some s'

/-- One step of thread `i`; `random` is what `my_random` gives. -/
def threadStep (s : Stealing m) (i : Fin (m + 1)) (random : Nat) : Option (Stealing m) :=
  match s.queues.op i with
  | .idle =>
    match s.runtime.demand i with
    | .pop => some (s.setOp i (.popLoad i))
    | .push t => (s.runtime.target i t).map fun j => s.setOp i (.pushLoad j t)
    | .other => (s.runtime.step i false).map s.setRuntime
  | .pushed _ _ => some (s.setOp i .idle)
  | .popped _ (some _) => some (s.setOp i .idle)
  | .popped j none =>
    -- the own queue has given nothing; with two threads or more there is another one
    if h : j = i ∧ 0 < m then
      some (s.setOp i (.popLoad (i.succAbove ⟨random % m, Nat.mod_lt _ h.2⟩)))
    else (s.runtime.step i false).map (s.setOp i .idle).setRuntime
  | .pushLoad _ _ => s.stackStep i
  | .pushLink _ _ _ => s.stackStep i
  | .pushCas _ _ _ => s.stackStep i
  | .popLoad _ => s.stackStep i
  | .popNext _ _ => s.stackStep i
  | .popCas _ _ _ => s.stackStep i

inductive Act (m : Nat)
  | thread (i : Fin (m + 1)) (random : Nat)
  | call (c : ProgramCall)

def act (s : Stealing m) : Act m → Option (Stealing m)
  | .thread i random => s.threadStep i random
  | .call c => (s.session.call c).map fun session => { s with session := session }

def run (s : Stealing m) : List (Act m) → Option (Stealing m)
  | [] => some s
  | a :: acts => (s.act a).bind fun s => s.run acts

/-- The tasks linked from `task_pool` are those pushed and not yet popped, and no push is
popped twice. -/
structure Sound (s : Stealing m) : Prop where
  linked : ∀ j, Linked s.queues.next (s.queues.taskPool j) (s.queues.present j)
  nodup : ∀ j, (s.queues.present j).Nodup
  matched : ∀ j t, s.queues.ops.count (.pop j t) ≤ s.queues.ops.count (.push j t)

/-- The act is no `compare_and_swap` that puts back a stale `next`. -/
def Fresh (s : Stealing m) : Act m → Prop
  | .thread i _ => s.queues.FreshPop i
  | .call _ => True

/-! ## The invariant -/

/-- The stacks hold what the record says, the record is what the runtime has in its queues,
and a thread is in an operation that it demands. -/
structure Inv (s : Stealing m) : Prop where
  session : s.session.Inv
  linkage : s.queues.Linkage
  queue : ∀ j, s.runtime.queue j = s.queues.present j
  pushing : ∀ i j t, (s.queues.op i).pushTo = some (j, t) →
    s.runtime.demand i = .push t ∧ s.runtime.target i t = some j
  popping : ∀ i, (s.queues.op i).popping = true → s.runtime.demand i = .pop

variable {s s' : Stealing m} {i : Fin (m + 1)}

theorem inv_start (next : TaskId → Option TaskId) : (start next : Stealing m).Inv where
  session := Or.inl ⟨_, _, Session.between_start⟩
  linkage := Stacks.linkage_initial next
  queue := fun _ => rfl
  pushing := fun _ _ _ h => by cases h
  popping := fun _ h => by cases h

/-- The thread goes on in an operation, or begins or ends one. -/
theorem Inv.goOn (h : s.Inv) {q : Stacks (m + 1) (m + 1)} (hlinkage : q.Linkage)
    (hpresent : ∀ j, q.present j = s.queues.present j) (hop : ∀ a, a ≠ i → q.op a = s.queues.op a)
    (hpush : ∀ j t, (q.op i).pushTo = some (j, t) →
      s.runtime.demand i = .push t ∧ s.runtime.target i t = some j)
    (hpop : (q.op i).popping = true → s.runtime.demand i = .pop) : Inv { s with queues := q } where
  session := h.session
  linkage := hlinkage
  queue := fun j => (h.queue j).trans (hpresent j).symm
  pushing := fun a j t ha => by
    by_cases hai : a = i
    · subst hai
      exact hpush j t ha
    · rw [show ({ s with queues := q } : Stealing m).queues.op a = s.queues.op a from hop a hai] at ha
      exact h.pushing a j t ha
  popping := fun a ha => by
    by_cases hai : a = i
    · subst hai
      exact hpop ha
    · rw [show ({ s with queues := q } : Stealing m).queues.op a = s.queues.op a from hop a hai] at ha
      exact h.popping a ha

/-- The thread moves on in the runtime, and is in no operation then. -/
theorem Inv.moveOn (h : s.Inv) {q : Stacks (m + 1) (m + 1)} {r : Runtime m}
    (hmove : Move s.runtime i r) (hlinkage : q.Linkage) (hqueue : ∀ j, r.queue j = q.present j)
    (hop : ∀ a, a ≠ i → q.op a = s.queues.op a) (hpush : (q.op i).pushTo = none)
    (hpop : (q.op i).popping = false) : Inv (({ s with queues := q } : Stealing m).setRuntime r) where
  session := h.session.move hmove
  linkage := hlinkage
  queue := hqueue
  pushing := fun a j t ha => by
    replace ha : (q.op a).pushTo = some (j, t) := ha
    by_cases hai : a = i
    · rw [hai, hpush] at ha
      cases ha
    · rw [hop a hai] at ha
      obtain ⟨hdemand, htarget⟩ := h.pushing a j t ha
      exact ⟨(hmove.demand hai).trans hdemand, (hmove.target a t).trans htarget⟩
  popping := fun a ha => by
    replace ha : (q.op a).popping = true := ha
    by_cases hai : a = i
    · rw [hai, hpop] at ha
      cases ha
    · rw [hop a hai] at ha
      exact (hmove.demand hai).trans (h.popping a ha)

/-- A thread that demands a push has the task in hand, or it is a root. -/
theorem hand_of_demand {r : Runtime m} {t : TaskId} (h : r.demand i = .push t) :
    (r.pc i).hand = some t ∨ (i = 0 ∧ ∃ e roots, r.main = .spawn e (t :: roots)) := by
  by_cases hi : i = 0
  · subst hi
    rw [demand_zero] at h
    split at h
    · rename_i e u roots hm
      cases h
      exact Or.inr ⟨rfl, e, roots, hm⟩
    · obtain ⟨u, k, hpc⟩ := Pc.eq_push_of_demand h
      exact Or.inl (by rw [hpc]; rfl)
    · cases h
  · rw [demand_of_ne r hi] at h
    obtain ⟨u, k, hpc⟩ := Pc.eq_push_of_demand h
    exact Or.inl (by rw [hpc]; rfl)

theorem inRound_of_demand {s : Session m} (h : s.Inv) {t : TaskId}
    (hdemand : s.runtime.demand i = .push t) : ∃ nodes e, InRound nodes e s.runtime := by
  have hnone : s.runtime.Idle → s.runtime.main.roots = [] → False := by
    intro hidle hroots
    obtain hhand | ⟨-, e, roots, hm⟩ := hand_of_demand hdemand
    · rw [(hidle.resting i).hand] at hhand
      cases hhand
    · rw [hm] at hroots
      cases hroots
  obtain ⟨lo, base, hbetween⟩ | ⟨lo, a, e, hduring⟩ := h
  · have hroots : s.runtime.main.roots = [] := by
      rw [hbetween.after.main]
      rfl
    exact (hnone hbetween.after.idle hroots).elim
  · obtain hin | ⟨-, hollow⟩ := hduring.round
    · exact ⟨_, _, hin⟩
    · exact (hnone hollow.idle hollow.roots).elim

/-- A task that a thread is about to push is in no queue, and no other thread pushes it. -/
theorem Inv.free (h : s.Inv) {t : TaskId} (hdemand : s.runtime.demand i = .push t)
    (hidle : s.queues.op i = .idle) : s.queues.Free t := by
  obtain ⟨nodes, e, hin⟩ := inRound_of_demand h.session hdemand
  have hplace : s.runtime.main.roots.count t + s.runtime.queued t + s.runtime.inHand t +
      s.runtime.starts t = if t ∈ nodes ∧ s.runtime.pending nodes t = 0 then 1 else 0 :=
    hin.round.place t
  have hone : s.runtime.main.roots.count t + s.runtime.queued t + s.runtime.inHand t ≤ 1 := by
    split at hplace <;> omega
  have hhand : ∀ a, (s.runtime.pc a).hand = some t → 0 < s.runtime.inHand t := fun a ha =>
    tally_pos (i := a) (by simp [ha])
  have hroot : ∀ e roots, s.runtime.main = .spawn e (t :: roots) →
      0 < s.runtime.main.roots.count t := by
    intro e roots hm
    rw [hm]
    exact List.count_pos_iff.mpr List.mem_cons_self
  refine ⟨fun j hmem => ?_, fun a ha => ?_⟩
  · have hqueued : 0 < s.runtime.queued t := by
      refine Finset.sum_pos' (fun _ _ => Nat.zero_le _) ⟨j, Finset.mem_univ j, ?_⟩
      rw [h.queue j]
      exact List.count_pos_iff.mpr hmem
    obtain hi | ⟨-, e, roots, hm⟩ := hand_of_demand hdemand
    · have := hhand i hi
      omega
    · have := hroot e roots hm
      omega
  · obtain ⟨j, hto⟩ := Op.pushTo_of_pushing ha
    have hai : a ≠ i := by
      intro he
      rw [he, hidle] at hto
      cases hto
    obtain hi | ⟨hi0, e, roots, hm⟩ := hand_of_demand hdemand
    · obtain hb | ⟨-, e, roots, hm⟩ := hand_of_demand (h.pushing a j t hto).1
      · have htwo : _ ≤ s.runtime.inHand t :=
          tally_two (f := fun p => if p.hand = some t then 1 else 0) (r := s.runtime) hai
        simp only [hi, hb, if_true] at htwo
        omega
      · have := hhand i hi
        have := hroot e roots hm
        omega
    · obtain hb | ⟨ha0, -⟩ := hand_of_demand (h.pushing a j t hto).1
      · have := hhand a hb
        have := hroot e roots hm
        omega
      · exact hai (ha0.trans hi0.symm)

/-! ## Steps -/

/-- The thread begins an operation or returns from one. -/
theorem Inv.setOp (h : s.Inv) {o : Op (m + 1)} (hlinkage : (s.queues.setOp i o).Linkage)
    (hpush : ∀ j t, o.pushTo = some (j, t) →
      s.runtime.demand i = .push t ∧ s.runtime.target i t = some j)
    (hpop : o.popping = true → s.runtime.demand i = .pop) : Inv (s.setOp i o) := by
  have hi : (s.queues.setOp i o).op i = o := by simp
  refine h.goOn (i := i) hlinkage (fun _ => rfl) (fun a ha => ?_) ?_ ?_
  · rw [Stacks.setOp_op, if_neg ha]
  · rw [hi]
    exact hpush
  · rw [hi]
    exact hpop

/-- Operations that are not pushes can be begun at any time. -/
theorem Inv.linkage_setOp (h : s.Inv) (i : Fin (m + 1)) {o : Op (m + 1)}
    (ho : o.pushing = none) : (s.queues.setOp i o).Linkage := by
  refine h.linkage.setOp (fun t ht => ?_) fun j t v he => ?_
  · rw [ho] at ht
    cases ht
  · rw [he] at ho
    cases ho

/-- A thread gets the task on top of stack `j`. -/
theorem Inv.getTask (h : s.Inv) {j : Fin (m + 1)} {t : TaskId} {rest : List TaskId}
    (hdemand : s.runtime.demand i = .pop) (hpresent : s.queues.present j = t :: rest) :
    Move s.runtime i (s.runtime.getTask i j t) := by
  have hqueue : s.runtime.queue j = t :: rest := (h.queue j).trans hpresent
  have heq : s.runtime.getTask i j t = { s.runtime.setPc i (.hold t) with
      queue := Function.update s.runtime.queue j rest } := by
    unfold Runtime.getTask
    rw [hqueue, List.erase_cons_head]
  rw [heq]
  by_cases hi : i = 0
  · subst hi
    rw [demand_zero] at hdemand
    split at hdemand
    · cases hdemand
    · rename_i e hm
      exact .run hm (.pop (Pc.eq_next_of_demand hdemand) hqueue)
    · cases hdemand
  · rw [demand_of_ne _ hi] at hdemand
    exact .worker hi (.pop (Pc.eq_next_of_demand hdemand) hqueue)

theorem Inv.stackStep (h : s.Inv) (hfresh : s.queues.FreshPop i)
    (hbusy : ¬ (s.queues.op i).Rest) (hs : s.stackStep i = some s') : s'.Inv := by
  have hlinkage := h.linkage.step hfresh
  unfold Stealing.stackStep at hs
  dsimp only at hs
  have hchange := s.queues.step_change i
  generalize hq : s.queues.step i = q at hs hchange hlinkage
  cases hchange with
  | still hi => exact absurd hi hbusy
  | @reads o hreads =>
      obtain ⟨hpush, hpop, hnot, hnot'⟩ := hreads.same
      rw [show (s.queues.setOp i o).op i = o by simp] at hs
      have hsame : s' = { s with queues := s.queues.setOp i o } := by
        split at hs
        · exact absurd rfl (hnot _ _)
        · exact absurd rfl (hnot' _ _)
        · exact (Option.some.inj hs).symm
      rw [hsame]
      refine h.setOp hlinkage ?_ ?_
      · rw [hpush]
        exact h.pushing i
      · rw [hpop]
        exact h.popping i
  | @write j t oldTop hi =>
      rw [show (s.queues.writeNext i j t oldTop).op i = .pushCas j t oldTop by
        simp [Stacks.writeNext_op]] at hs
      cases hs
      refine h.goOn (i := i) hlinkage (fun _ => rfl) ?_ ?_ ?_
      · intro a ha
        rw [Stacks.writeNext_op, if_neg ha]
      · rw [Stacks.writeNext_op, if_pos rfl]
        intro j' u hu
        cases hu
        exact h.pushing i j t (by rw [hi]; rfl)
      · rw [Stacks.writeNext_op, if_pos rfl]
        exact fun hno => by cases hno
  | @put j t hi =>
      rw [show (s.queues.putOn i j t).op i = .pushed j t by simp [Stacks.putOn_op]] at hs
      obtain ⟨r, hr, rfl⟩ := Option.map_eq_some_iff.mp hs
      obtain ⟨hdemand, htarget⟩ := h.pushing i j t (by rw [hi]; rfl)
      have hqueue := step_queue hr
      rw [hdemand] at hqueue
      obtain ⟨j', hj', hqueue⟩ := hqueue
      obtain rfl := Option.some.inj (htarget.symm.trans hj')
      refine h.moveOn (step_move h.session.inside hr) hlinkage ?_ ?_ ?_ ?_
      · intro b
        rw [hqueue, Stacks.present_putOn, Function.update_apply]
        by_cases hb : b = j
        · rw [if_pos hb, if_pos hb.symm, hb, h.queue]
        · rw [if_neg hb, if_neg (Ne.symm hb), h.queue]
      · intro a ha
        rw [Stacks.putOn_op, if_neg ha]
      · rw [Stacks.putOn_op, if_pos rfl]
        rfl
      · rw [Stacks.putOn_op, if_pos rfl]
        rfl
  | @take j oldTop newTop hi htop =>
      rw [show (s.queues.takeOff i j oldTop newTop).op i = .popped j (some oldTop) by
        simp [Stacks.takeOff_op]] at hs
      cases hs
      obtain ⟨rest, hrest, hafter, -⟩ := h.linkage.takeOff i htop
      have hdemand := h.popping i (by rw [hi]; rfl)
      refine h.moveOn (h.getTask hdemand hrest) hlinkage ?_ ?_ ?_ ?_
      · intro b
        show Function.update s.runtime.queue j ((s.runtime.queue j).erase oldTop) b = _
        rw [Stacks.present_takeOff, Function.update_apply]
        by_cases hb : b = j
        · rw [if_pos hb, if_pos hb.symm, hb, h.queue]
        · rw [if_neg hb, if_neg (Ne.symm hb), h.queue]
      · intro a ha
        rw [Stacks.takeOff_op, if_neg ha]
      · rw [Stacks.takeOff_op, if_pos rfl]
        rfl
      · rw [Stacks.takeOff_op, if_pos rfl]
        rfl

theorem Inv.threadStep (h : s.Inv) (hfresh : s.queues.FreshPop i) {random : Nat}
    (hs : s.threadStep i random = some s') : s'.Inv := by
  unfold Stealing.threadStep at hs
  cases hop : s.queues.op i with
  | idle =>
      rw [hop] at hs
      dsimp only at hs
      cases hdemand : s.runtime.demand i with
      | pop =>
          rw [hdemand] at hs
          cases hs
          exact h.setOp (h.linkage_setOp i rfl) (fun j t hno => by cases hno) fun _ => hdemand
      | push t =>
          rw [hdemand] at hs
          obtain ⟨j, hj, rfl⟩ := Option.map_eq_some_iff.mp hs
          refine h.setOp (h.linkage.beginPush (h.free hdemand hop) i j) ?_ fun hno => by cases hno
          intro j' t' he
          cases he
          exact ⟨hdemand, hj⟩
      | other =>
          rw [hdemand] at hs
          obtain ⟨r, hr, rfl⟩ := Option.map_eq_some_iff.mp hs
          have hqueue := step_queue hr
          rw [hdemand] at hqueue
          refine h.moveOn (q := s.queues) (step_move h.session.inside hr) h.linkage ?_
            (fun _ _ => rfl) (by rw [hop]; rfl) (by rw [hop]; rfl)
          intro j
          exact (congrFun hqueue j).trans (h.queue j)
  | pushed j t =>
      rw [hop] at hs
      cases hs
      exact h.setOp (h.linkage_setOp i rfl) (fun j t hno => by cases hno) fun hno => by cases hno
  | popped j t =>
      rw [hop] at hs
      cases t with
      | some t =>
          cases hs
          exact h.setOp (h.linkage_setOp i rfl) (fun j t hno => by cases hno) fun hno => by cases hno
      | none =>
          have hdemand := h.popping i (by rw [hop]; rfl)
          dsimp only at hs
          split at hs
          · cases hs
            exact h.setOp (h.linkage_setOp i rfl) (fun j t hno => by cases hno) fun _ => hdemand
          · obtain ⟨r, hr, rfl⟩ := Option.map_eq_some_iff.mp hs
            have hqueue := step_queue hr
            rw [hdemand] at hqueue
            have hnew : (s.queues.setOp i .idle).op i = .idle := by simp
            refine h.moveOn (step_move h.session.inside hr)
              (h.linkage_setOp i rfl) ?_ ?_ (by rw [hnew]; rfl) (by rw [hnew]; rfl)
            · intro j
              exact (congrFun (hqueue rfl) j).trans (h.queue j)
            · intro a ha
              rw [Stacks.setOp_op, if_neg ha]
  | pushLoad _ _ =>
      rw [hop] at hs
      exact h.stackStep hfresh (by simp [hop, Op.Rest]) hs
  | pushLink _ _ _ =>
      rw [hop] at hs
      exact h.stackStep hfresh (by simp [hop, Op.Rest]) hs
  | pushCas _ _ _ =>
      rw [hop] at hs
      exact h.stackStep hfresh (by simp [hop, Op.Rest]) hs
  | popLoad _ =>
      rw [hop] at hs
      exact h.stackStep hfresh (by simp [hop, Op.Rest]) hs
  | popNext _ _ =>
      rw [hop] at hs
      exact h.stackStep hfresh (by simp [hop, Op.Rest]) hs
  | popCas _ _ _ =>
      rw [hop] at hs
      exact h.stackStep hfresh (by simp [hop, Op.Rest]) hs

/-- A call leaves the threads where they are. -/
theorem call_frame {s s' : Session m} {c : ProgramCall} (hs : s.call c = some s') :
    s.runtime.main = .prog ∧ s'.runtime.pc = s.runtime.pc ∧ s'.runtime.queue = s.runtime.queue := by
  unfold Session.call at hs
  split at hs
  · rename_i hm
    refine ⟨hm, ?_⟩
    cases c with
    | build c =>
        have hs : s.build c = some s' := hs
        unfold Session.build at hs
        split at hs
        · cases hs
          exact ⟨rfl, rfl⟩
        · split at hs
          · cases hs
            exact ⟨rfl, rfl⟩
          · cases hs
        · cases hs
          exact ⟨rfl, rfl⟩
        · cases hs
          exact ⟨rfl, rfl⟩
        · cases hs
    | dagStart dagNo intVec floatVec =>
        dsimp only at hs
        split at hs
        · cases hs
        · cases hs
          exact ⟨rfl, rfl⟩
    | spawnAndWait =>
        dsimp only at hs
        split at hs
        · cases hs
        · obtain ⟨g, e, -, -, -, rfl⟩ := Session.spawnAndWait_eq_some hs
          exact ⟨rfl, rfl⟩
  · cases hs

/-- The program makes calls while no push is in progress. -/
theorem Inv.call (h : s.Inv) {c : ProgramCall} {session : Session m}
    (hs : s.session.call c = some session) : Inv { s with session := session } := by
  obtain ⟨hm, hpc, hqueue⟩ := call_frame hs
  have hdemand : ∀ a, s.runtime.demand a ≠ .other →
      a ≠ 0 ∧ session.runtime.demand a = s.runtime.demand a := by
    intro a ha
    by_cases ha0 : a = 0
    · subst ha0
      rw [demand_zero, show s.runtime.main = .prog from hm] at ha
      exact absurd rfl ha
    · rw [demand_of_ne _ ha0, demand_of_ne _ ha0, hpc]
      exact ⟨ha0, rfl⟩
  obtain ⟨lo, base, hbetween⟩ := h.session.between hm
  refine ⟨h.session.call hs, h.linkage, fun j => (congrFun hqueue j).trans (h.queue j), ?_, ?_⟩
  · intro a j t ha
    obtain ⟨hpush, -⟩ := h.pushing a j t ha
    obtain hhand | ⟨-, e, roots, hm'⟩ := hand_of_demand hpush
    · rw [(hbetween.after.idle.resting a).hand] at hhand
      cases hhand
    · rw [show s.runtime.main = .prog from hm] at hm'
      cases hm'
  · intro a ha
    have hpop := h.popping a ha
    exact (hdemand a (by simp [hpop])).2.trans hpop

theorem Inv.act (h : s.Inv) {a : Act m} (hfresh : s.Fresh a) (hs : s.act a = some s') :
    s'.Inv := by
  cases a with
  | thread i random => exact h.threadStep hfresh hs
  | call c =>
      obtain ⟨session, hcall, rfl⟩ := Option.map_eq_some_iff.mp hs
      exact h.call hcall

/-! ## Runs -/

theorem Inv.sound (h : s.Inv) : s.Sound where
  linked := h.linkage.linked
  nodup := h.linkage.nodup
  matched := fun j t => by
    have := h.linkage.balance j t
    omega

/-- If the stacks are sound after the act, it was no stale `compare_and_swap`. -/
theorem Inv.fresh_of_sound (h : s.Inv) {a : Act m}
    (hsound : ∀ s', s.act a = some s' → s'.Sound) : s.Fresh a := by
  cases a with
  | call c => trivial
  | thread i random =>
      intro j oldTop newTop hop htop
      have hstep : s.queues.step i = s.queues.takeOff i j oldTop newTop := by
        unfold Stacks.step
        rw [hop]
        exact if_pos htop
      have hact : s.act (.thread i random) = some (({ s with
          queues := s.queues.takeOff i j oldTop newTop } : Stealing m).setRuntime
            (s.runtime.getTask i j oldTop)) := by
        show s.threadStep i random = _
        unfold Stealing.threadStep
        rw [hop]
        show s.stackStep i = _
        unfold Stealing.stackStep
        rw [hstep]
        dsimp only
        rw [show (s.queues.takeOff i j oldTop newTop).op i = .popped j (some oldTop) by
          simp [Stacks.takeOff_op]]
      have hafter := (hsound _ hact).linked j
      have hbefore := h.linkage.linked j
      rw [htop] at hbefore
      obtain ⟨rest, hrest, hlinked⟩ := hbefore.cons_of_some
      replace hafter : Linked s.queues.next
          (Function.update s.queues.taskPool j newTop j)
          ((s.queues.takeOff i j oldTop newTop).present j) := hafter
      rw [Function.update_self, Stacks.present_takeOff, if_pos rfl, hrest,
        List.erase_cons_head] at hafter
      exact hafter.top_unique hlinked

/-- Every state of a run is sound. -/
def SoundRun (s : Stealing m) : List (Act m) → Prop
  | [] => s.Sound
  | a :: acts => s.Sound ∧ ∀ s', s.act a = some s' → SoundRun s' acts

/-- No act of a run puts back a stale `next`. -/
def FreshRun (s : Stealing m) : List (Act m) → Prop
  | [] => True
  | a :: acts => s.Fresh a ∧ ∀ s', s.act a = some s' → FreshRun s' acts

theorem SoundRun.head {acts : List (Act m)} (h : s.SoundRun acts) : s.Sound := by
  cases acts with
  | nil => exact h
  | cons a acts => exact h.1

theorem SoundRun.last {acts : List (Act m)} (h : s.SoundRun acts)
    (hrun : s.run acts = some s') : s'.Sound := by
  induction acts generalizing s with
  | nil =>
      cases hrun
      exact h
  | cons a acts ih =>
      obtain ⟨s₁, hs₁, hrest⟩ := Option.bind_eq_some_iff.mp hrun
      exact ih (h.2 s₁ hs₁) hrest

theorem Inv.soundRun_iff (h : s.Inv) (acts : List (Act m)) :
    s.SoundRun acts ↔ s.FreshRun acts := by
  induction acts generalizing s with
  | nil => exact ⟨fun _ => trivial, fun _ => h.sound⟩
  | cons a acts ih =>
      constructor
      · intro hsound
        obtain ⟨-, hrest⟩ := hsound
        have hfresh := h.fresh_of_sound fun s' hs' => (hrest s' hs').head
        exact ⟨hfresh, fun s' hs' => (ih (h.act hfresh hs')).mp (hrest s' hs')⟩
      · intro hrun
        obtain ⟨hfresh, hrest⟩ := hrun
        exact ⟨h.sound, fun s' hs' => (ih (h.act hfresh hs')).mpr (hrest s' hs')⟩

/-- Whatever the number of threads, the program, and the order of the steps: the stacks hold
at every point what has been pushed and not popped, exactly if no `compare_and_swap` of a
`try_pop` succeeds with a `next` that has been overwritten since it was read. -/
theorem stealing_sound_iff (m : Nat) (next : TaskId → Option TaskId) (acts : List (Act m)) :
    (start next).SoundRun acts ↔ (start next).FreshRun acts :=
  (inv_start next).soundRun_iff acts

namespace Example

def steps (i : Fin 2) (n : Nat) : List (Act 1) := List.replicate n (.thread i 0)

/-- A graph of three tasks, run twice by two threads. In the first round the worker steals
task `0` and runs it and task `1`; it finds task `2` alone on the queue of the main thread
and stalls, and the main thread runs task `2`. In the second round the main thread pushes
tasks `0`, `1` and `2`, and the worker goes on. -/
def delayed : List (Act 1) :=
  [.call (.dagStart 1 [] []), .call (.build .beginSplitTask)] ++
    List.replicate 3 (.call (.build (.registerTask AceMesh.Example.reader))) ++
    [.call (.build .endSplitTask), .call .spawnAndWait] ++
    steps AceMesh.Example.main 5 ++ steps AceMesh.Example.worker 13 ++
    steps AceMesh.Example.main 5 ++ steps AceMesh.Example.worker 11 ++
    steps AceMesh.Example.main 5 ++ steps AceMesh.Example.worker 5 ++ steps AceMesh.Example.main 16 ++
    [.call (.dagStart 1 [] []), .call .spawnAndWait] ++ steps AceMesh.Example.main 15 ++
    steps AceMesh.Example.worker 1

end Example

/-- The worker has taken task `2` with the `next` of the first round: task `0` has been
pushed and not popped, and no thread will find it. -/
theorem stolen_stale : ∃ s : Stealing 1, (start fun _ => none).run Example.delayed = some s ∧
    s.queues.taskPool 0 = none ∧ s.queues.present 0 = [0] ∧
    ¬ (start fun _ => none).SoundRun Example.delayed := by
  have hrun : ((start fun _ => none).run Example.delayed).map (fun s =>
      (s.queues.taskPool 0, s.queues.present 0)) = some (none, [0]) := by decide
  obtain ⟨s, hs, hpair⟩ := Option.map_eq_some_iff.mp hrun
  obtain ⟨htop, hpresent⟩ := Prod.mk.inj hpair
  refine ⟨s, hs, htop, hpresent, fun hsound => ?_⟩
  have hlinked := (hsound.last hs).linked 0
  rw [htop, hpresent] at hlinked
  exact absurd (Linked.nil_iff.mp hlinked) (by simp)

end Stealing

end AceMesh
