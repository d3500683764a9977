import AceMesh.Stack
import AceMesh.Lib.Runs

/-!
# The private queue

Any thread may push on a stack, only its owner pops. `act` is one thing that a thread does:
it begins a `push` or a `try_pop`, makes a step of the operation it is in, or returns from
it. A task is not pushed while it is on a stack or on the way to one.

The owner holds the pointer of a node that only it could take off, so between its read of
`next` and its `compare_and_swap` the node stays on the stack and its `next` is not written:
other threads write the `next` of tasks they are pushing, and those are on no stack.
-/

namespace AceMesh

namespace Stacks

variable {k n : Nat}

/-- What a thread does next. -/
inductive Act (k n : Nat)
  | push (i : Fin n) (j : Fin k) (t : TaskId)
  | pop (i : Fin n) (j : Fin k)
  | step (i : Fin n)
  | ret (i : Fin n)

def act (s : Stacks k n) : Act k n → Stacks k n
  | .push i j t => s.setOp i (.pushLoad j t)
  | .pop i j => s.setOp i (.popLoad j)
  | .step i => s.step i
  | .ret i => s.setOp i .idle

/-- The task is on no stack and no thread is pushing it. -/
def Free (s : Stacks k n) (t : TaskId) : Prop :=
  (∀ j, t ∉ s.present j) ∧ ∀ i, (s.op i).pushing ≠ some t

/-- Threads begin operations when they are in none; `owner j` alone pops stack `j`. -/
def Allowed (owner : Fin k → Fin n) (s : Stacks k n) : Act k n → Prop
  | .push i _ t => s.op i = .idle ∧ s.Free t
  | .pop i j => s.op i = .idle ∧ owner j = i
  | .step _ => True
  | .ret i => (s.op i).Rest

instance (s : Stacks k n) (t : TaskId) : Decidable (s.Free t) :=
  inferInstanceAs (Decidable ((∀ j, t ∉ s.present j) ∧ ∀ i, (s.op i).pushing ≠ some t))

instance (owner : Fin k → Fin n) (s : Stacks k n) (a : Act k n) :
    Decidable (s.Allowed owner a) :=
  match a with
  | .push i _ t => inferInstanceAs (Decidable (s.op i = .idle ∧ s.Free t))
  | .pop i j => inferInstanceAs (Decidable (s.op i = .idle ∧ owner j = i))
  | .step _ => isTrue trivial
  | .ret i => inferInstanceAs (Decidable (s.op i).Rest)

/-- The states that the threads can reach. -/
inductive Reached (owner : Fin k → Fin n) (next : TaskId → Option TaskId) : Stacks k n → Prop
  | initial : Reached owner next (initial next)
  | act {s : Stacks k n} {a : Act k n} :
      Reached owner next s → s.Allowed owner a → Reached owner next (s.act a)

/-- The acts of one run, each allowed when its turn comes. -/
def runActs (owner : Fin k → Fin n) (s : Stacks k n) : List (Act k n) → Option (Stacks k n)
  | [] => some s
  | a :: rest => if s.Allowed owner a then (s.act a).runActs owner rest else none

theorem isRun_runActs (owner : Fin k → Fin n) :
    IsRun (fun (s : Stacks k n) a => if s.Allowed owner a then some (s.act a) else none)
      (runActs owner) :=
  .checked (fun _ => rfl) fun _ _ _ => rfl

theorem Reached.runActs {owner : Fin k → Fin n} {next : TaskId → Option TaskId}
    {s s' : Stacks k n} (h : Reached owner next s) (acts : List (Act k n))
    (hrun : s.runActs owner acts = some s') : Reached owner next s' := by
  refine (isRun_runActs owner).keeps ?_ hrun h
  intro a _ s s' hact hreached
  obtain ⟨hallowed, hact⟩ := Option.ite_none_right_eq_some.mp hact
  cases hact
  exact hreached.act hallowed

/-- What a pop in progress has read is still so. -/
structure Owned (owner : Fin k → Fin n) (s : Stacks k n) : Prop where
  load : ∀ i j, s.op i = .popLoad j → owner j = i
  top : ∀ i j oldTop, s.op i = .popNext j oldTop → owner j = i ∧ oldTop ∈ s.present j
  next : ∀ i j oldTop newTop, s.op i = .popCas j oldTop newTop →
    owner j = i ∧ oldTop ∈ s.present j ∧ newTop = s.next oldTop

theorem Owned.freshPop {owner : Fin k → Fin n} {s : Stacks k n} (h : s.Owned owner)
    (i : Fin n) : s.FreshPop i := fun j oldTop newTop hi _ => (h.next i j oldTop newTop hi).2.2

theorem owned_initial (owner : Fin k → Fin n) (next : TaskId → Option TaskId) :
    (Stacks.initial next).Owned owner := by
  constructor
  · intro i j h
    cases h
  · intro i j oldTop h
    cases h
  · intro i j oldTop newTop h
    cases h

/-- A state that thread `i` has changed. It suffices to look at the operation of `i`, and for
the others that their stacks keep their tasks and the links of these. -/
theorem Owned.change {owner : Fin k → Fin n} {s s' : Stacks k n} (h : s.Owned owner)
    {i : Fin n} (hop : ∀ a, a ≠ i → s'.op a = s.op a)
    (hkeep : ∀ j t, owner j ≠ i → t ∈ s.present j → t ∈ s'.present j)
    (hlink : ∀ j t, t ∈ s.present j → s'.next t = s.next t)
    (hload : ∀ j, s'.op i = .popLoad j → owner j = i)
    (htop : ∀ j oldTop, s'.op i = .popNext j oldTop → owner j = i ∧ oldTop ∈ s'.present j)
    (hnext : ∀ j oldTop newTop, s'.op i = .popCas j oldTop newTop →
      owner j = i ∧ oldTop ∈ s'.present j ∧ newTop = s'.next oldTop) : s'.Owned owner := by
  refine ⟨fun a j ha => ?_, fun a j oldTop ha => ?_, fun a j oldTop newTop ha => ?_⟩
  · by_cases hai : a = i
    · rw [hai] at ha ⊢
      exact hload j ha
    · exact h.load a j ((hop a hai).symm.trans ha)
  · by_cases hai : a = i
    · rw [hai] at ha ⊢
      exact htop j oldTop ha
    · obtain ⟨hown, hmem⟩ := h.top a j oldTop ((hop a hai).symm.trans ha)
      exact ⟨hown, hkeep j oldTop (fun he => hai (hown.symm.trans he)) hmem⟩
  · by_cases hai : a = i
    · rw [hai] at ha ⊢
      exact hnext j oldTop newTop ha
    · obtain ⟨hown, hmem, heq⟩ := h.next a j oldTop newTop ((hop a hai).symm.trans ha)
      exact ⟨hown, hkeep j oldTop (fun he => hai (hown.symm.trans he)) hmem,
        heq.trans (hlink j oldTop hmem).symm⟩

/-- A thread that begins, ends or aborts an operation. -/
theorem Owned.setOp {owner : Fin k → Fin n} {s : Stacks k n} (h : s.Owned owner) {i : Fin n}
    {o : Op k} (hload : ∀ j, o = .popLoad j → owner j = i)
    (htop : ∀ j oldTop, o = .popNext j oldTop → owner j = i ∧ oldTop ∈ s.present j)
    (hnext : ∀ j oldTop newTop, o = .popCas j oldTop newTop →
      owner j = i ∧ oldTop ∈ s.present j ∧ newTop = s.next oldTop) : (s.setOp i o).Owned owner := by
  have hi : (s.setOp i o).op i = o := by simp
  refine h.change (i := i) (fun a hai => by rw [setOp_op, if_neg hai])
    (fun j t _ ht => ht) (fun j t _ => rfl) ?_ ?_ ?_
  · intro j hj
    exact hload j (hi.symm.trans hj)
  · intro j oldTop hj
    exact htop j oldTop (hi.symm.trans hj)
  · intro j oldTop newTop hj
    exact hnext j oldTop newTop (hi.symm.trans hj)

theorem Owned.step {owner : Fin k → Fin n} {s : Stacks k n} (h : s.Owned owner)
    (hs : s.Linkage) (i : Fin n) : (s.step i).Owned owner := by
  generalize hs' : s.step i = s'
  have hchange := s.step_change i
  rw [hs'] at hchange
  cases hchange with
  | still hi => exact h
  | @reads o hreads =>
      generalize hi : s.op i = o₀ at hreads
      cases hreads with
      | load => exact h.setOp (by simp) (by simp) (by simp)
      | retry => exact h.setOp (by simp) (by simp) (by simp)
      | empty => exact h.setOp (by simp) (by simp) (by simp)
      | fail => exact h.setOp (by simp) (by simp) (by simp)
      | @top j oldTop htop =>
          have hlinked := hs.linked j
          rw [htop] at hlinked
          obtain ⟨rest, hrest, -⟩ := hlinked.cons_of_some
          refine h.setOp (by simp) ?_ (by simp)
          intro j' oldTop' ho
          cases ho
          exact ⟨h.load i j hi, hrest ▸ List.mem_cons_self ..⟩
      | @next j oldTop =>
          obtain ⟨hown, hmem⟩ := h.top i j oldTop hi
          refine h.setOp (by simp) (by simp) ?_
          intro j' oldTop' newTop ho
          cases ho
          exact ⟨hown, hmem, rfl⟩
  | @write j t oldTop hi =>
      -- `t` is on no stack, so no thread has read its `next`
      have hout := hs.pushing i t (by rw [hi]; rfl)
      refine h.change (i := i) (fun a hai => (writeNext_op ..).trans (if_neg hai))
        (fun j' u _ hu => hu) ?_ (by simp [writeNext_op]) (by simp [writeNext_op])
        (by simp [writeNext_op])
      intro j' u hu
      have hut : u ≠ t := fun he => hout j' (by rw [← he]; exact hu)
      exact Function.update_of_ne hut ..
  | @put j t hi =>
      refine h.change (i := i) (fun a hai => (putOn_op ..).trans (if_neg hai)) ?_
        (fun j' u _ => rfl) (by simp [putOn_op]) (by simp [putOn_op]) (by simp [putOn_op])
      intro j' u _ hu
      rw [present_putOn]
      split
      · exact List.mem_cons_of_mem _ hu
      · exact hu
  | @take j oldTop newTop hi htop =>
      have hown := (h.next i j oldTop newTop hi).1
      refine h.change (i := i) (fun a hai => (takeOff_op ..).trans (if_neg hai)) ?_
        (fun j' u _ => rfl) (by simp [takeOff_op]) (by simp [takeOff_op]) (by simp [takeOff_op])
      intro j' u hj' hu
      have hj : j ≠ j' := fun he => hj' (he ▸ hown)
      rw [present_takeOff, if_neg hj]
      exact hu

/-- `push` is called with a task that is nowhere. -/
theorem Linkage.beginPush {s : Stacks k n} (h : s.Linkage) {t : TaskId} (hfree : s.Free t)
    (i : Fin n) (j : Fin k) : (s.setOp i (.pushLoad j t)).Linkage := by
  have hop : ∀ a u, ((s.setOp i (.pushLoad j t)).op a).pushing = some u →
      (a = i ∧ u = t) ∨ (s.op a).pushing = some u := by
    intro a u ha
    rw [setOp_op] at ha
    by_cases hai : a = i
    · rw [if_pos hai] at ha
      exact Or.inl ⟨hai, (Option.some.inj ha).symm⟩
    · rw [if_neg hai] at ha
      exact Or.inr ha
  refine ⟨h.linked, h.nodup, h.disjoint, ?_, ?_, ?_, h.balance⟩
  · intro a u ha
    obtain ⟨-, rfl⟩ | hau := hop a u ha
    · exact hfree.1
    · exact h.pushing a u hau
  · intro a b u ha hb
    obtain ⟨hai, rfl⟩ | hau := hop a u ha
    · obtain ⟨hbi, -⟩ | hbu := hop b u hb
      · rw [hai, hbi]
      · exact absurd hbu (hfree.2 b)
    · obtain ⟨-, rfl⟩ | hbu := hop b u hb
      · exact absurd hau (hfree.2 a)
      · exact h.pusher a b u hau hbu
  · intro a j' u o ha
    rw [setOp_op] at ha
    by_cases hai : a = i
    · rw [if_pos hai] at ha
      cases ha
    · rw [if_neg hai] at ha
      exact h.link a j' u o ha

theorem reached_linkage {owner : Fin k → Fin n} {next : TaskId → Option TaskId}
    {s : Stacks k n} (h : Reached owner next s) : s.Linkage ∧ s.Owned owner := by
  induction h with
  | initial => exact ⟨linkage_initial next, owned_initial owner next⟩
  | @act s a _ hallowed ih =>
      obtain ⟨hs, howned⟩ := ih
      cases a with
      | push i j t =>
          exact ⟨hs.beginPush hallowed.2 i j, howned.setOp (by simp) (by simp) (by simp)⟩
      | pop i j =>
          refine ⟨hs.setOp (by simp [Op.pushing]) (by simp), howned.setOp ?_ (by simp) (by simp)⟩
          intro j' ho
          cases ho
          exact hallowed.2
      | step i => exact ⟨hs.step (howned.freshPop i), howned.step hs i⟩
      | ret i =>
          exact ⟨hs.setOp (by simp [Op.pushing]) (by simp),
            howned.setOp (by simp) (by simp) (by simp)⟩

/-- A step that completes neither a push nor a pop leaves the tops alone, and writes the
`next` of the task that it is pushing if it writes any. -/
theorem step_incomplete (s : Stacks k n) {i : Fin n} (h : (s.step i).ops = s.ops) :
    (s.step i).taskPool = s.taskPool ∧
      ∀ t, (s.step i).next t ≠ s.next t → (s.op i).pushing = some t := by
  generalize hs' : s.step i = s' at h
  have hchange := s.step_change i
  rw [hs'] at hchange
  cases hchange with
  | still hi => exact ⟨rfl, fun t ht => absurd rfl ht⟩
  | reads hreads => exact ⟨rfl, fun t ht => absurd rfl ht⟩
  | @write j t oldTop hi =>
      refine ⟨rfl, fun u hu => ?_⟩
      by_cases hut : u = t
      · rw [hi, hut]
        rfl
      · exact absurd (Function.update_of_ne hut ..) hu
  | put hi => exact absurd h (by simp [putOn])
  | take hi htop => exact absurd h (by simp [takeOff])

/-- A `try_pop` that is about to return a task. -/
theorem popCas_of_popped {s : Stacks k n} {i : Fin n} {j : Fin k} {t : TaskId}
    (hbefore : s.op i ≠ .popped j (some t)) (hafter : (s.step i).op i = .popped j (some t)) :
    ∃ newTop, s.op i = .popCas j t newTop ∧ s.taskPool j = some t ∧
      s.step i = s.takeOff i j t newTop := by
  generalize hs' : s.step i = s' at hafter
  have hchange := s.step_change i
  rw [hs'] at hchange
  cases hchange with
  | still hi => exact absurd hafter hbefore
  | reads hreads =>
      rw [setOp_op, if_pos rfl] at hafter
      rw [hafter] at hreads
      generalize s.op i = o at hreads
      cases hreads
  | write hi => simp [writeNext_op] at hafter
  | put hi => simp [putOn_op] at hafter
  | @take j' oldTop newTop hi htop =>
      rw [takeOff_op, if_pos rfl] at hafter
      cases hafter
      exact ⟨newTop, hi, htop, rfl⟩

/-- The stack with one popper. In every state that the threads can reach, the tasks linked
from `task_pool` are those pushed and not yet popped, newest first and none twice; a step
that does not complete an operation changes at most the `next` of the task being pushed; and
a `try_pop` that returns a task returns the newest one. -/
theorem private_queue_correct (owner : Fin k → Fin n) (next : TaskId → Option TaskId)
    (s : Stacks k n) (h : Reached owner next s) :
    (∀ j, Linked s.next (s.taskPool j) (s.present j) ∧ (s.present j).Nodup) ∧
    (∀ j t, s.ops.count (.push j t) =
      s.ops.count (.pop j t) + if t ∈ s.present j then 1 else 0) ∧
    (∀ i, (s.step i).ops = s.ops → (s.step i).taskPool = s.taskPool ∧
      ∀ t, (s.step i).next t ≠ s.next t → (s.op i).pushing = some t) ∧
    ∀ i j t, s.op i ≠ .popped j (some t) → (s.step i).op i = .popped j (some t) →
      s.present j = t :: (s.step i).present j := by
  obtain ⟨hs, howned⟩ := reached_linkage h
  refine ⟨fun j => ⟨hs.linked j, hs.nodup j⟩, ?_, fun i hi => s.step_incomplete hi, ?_⟩
  · intro j t
    rw [hs.balance j t, (hs.nodup j).count]
  · intro i j t hbefore hafter
    obtain ⟨newTop, hi, htop, hstep⟩ := popCas_of_popped hbefore hafter
    obtain ⟨rest, hrest, hafter, -⟩ := hs.takeOff i htop
    rw [hstep, howned.freshPop i j t newTop hi htop, hafter, hrest]

/-- Thread `1` pushes tasks `7` and `9` while thread `0`, the owner, is about to pop: its
`compare_and_swap` fails, and at the second attempt it gets task `9`. -/
def Example.privateQueue : List (Act 1 2) :=
  [.push 1 0 7, .step 1, .step 1, .step 1, .ret 1, .pop 0 0, .step 0, .step 0,
    .push 1 0 9, .step 1, .step 1, .step 1, .ret 1, .step 0, .ret 0,
    .pop 0 0, .step 0, .step 0]

theorem private_queue_correct_example :
    ∃ s, (initial fun _ => none).runActs (fun _ : Fin 1 => 0) Example.privateQueue = some s ∧
      s.present 0 = [9, 7] ∧ Linked s.next (s.taskPool 0) [9, 7] ∧
      s.present 0 = 9 :: (s.step 0).present 0 := by
  refine ⟨_, rfl, by decide, ?_⟩
  have h := private_queue_correct (fun _ => 0) (fun _ => none) _
    (Reached.initial.runActs Example.privateQueue rfl)
  exact ⟨(h.1 0).1, h.2.2.2 0 0 9 (by decide) (by decide)⟩

end Stacks

end AceMesh
