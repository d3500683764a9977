import AceMesh.Task
import AceMesh.Lib.Linked
import Mathlib.Logic.Relation

/-!
# The task stacks

`aceMesh_stack.cpp`: `push` and `try_pop` of `concurrent_aceMesh_stack`, one step for every
access to a shared object: the load of `task_pool`, the write or read of `next`, the
`compare_and_swap`. The tasks of all stacks share their `next` fields, and a
`compare_and_swap` compares pointers, so it cannot tell a task from the same task pushed
again.

`ops` records the operations that took effect; `present` says what is on a stack by this
record alone. `Linkage` ties the memory to the record. It is kept by every step but one: a
pop must not put a stale `next` on the stack.
-/

namespace AceMesh

/-- Where a thread stands in an operation on one of `k` stacks. -/
inductive Op (k : Nat)
  | idle
  | pushLoad (j : Fin k) (t : TaskId)
  | pushLink (j : Fin k) (t : TaskId) (oldTop : Option TaskId)
  | pushCas (j : Fin k) (t : TaskId) (oldTop : Option TaskId)
  | pushed (j : Fin k) (t : TaskId)
  | popLoad (j : Fin k)
  | popNext (j : Fin k) (oldTop : TaskId)
  | popCas (j : Fin k) (oldTop : TaskId) (newTop : Option TaskId)
  | popped (j : Fin k) (t : Option TaskId)
  deriving DecidableEq

/-- An operation that took effect. -/
inductive StackEvent (k : Nat)
  | push (j : Fin k) (t : TaskId)
  | pop (j : Fin k) (t : TaskId)
  deriving DecidableEq

/-- `k` stacks and `n` threads. -/
structure Stacks (k n : Nat) where
  taskPool : Fin k → Option TaskId
  next : TaskId → Option TaskId
  op : Fin n → Op k
  ops : List (StackEvent k)

/-- The task whose push is in progress. -/
def Op.pushing {k : Nat} : Op k → Option TaskId
  | .pushLoad _ t => some t
  | .pushLink _ t _ => some t
  | .pushCas _ t _ => some t
  | _ => none

/-- The thread is in no operation, or its operation has returned. -/
def Op.Rest {k : Nat} : Op k → Prop
  | .idle => True
  | .pushed _ _ => True
  | .popped _ _ => True
  | _ => False

instance {k : Nat} : DecidablePred (Op.Rest : Op k → Prop)
  | .idle => isTrue trivial
  | .pushed _ _ => isTrue trivial
  | .popped _ _ => isTrue trivial
  | .pushLoad _ _ => isFalse not_false
  | .pushLink _ _ _ => isFalse not_false
  | .pushCas _ _ _ => isFalse not_false
  | .popLoad _ => isFalse not_false
  | .popNext _ _ => isFalse not_false
  | .popCas _ _ _ => isFalse not_false

/-- The tasks on stack `j`, newest first, by the record: those pushed and not yet popped. -/
def StackEvent.apply {k : Nat} (j : Fin k) (l : List TaskId) : StackEvent k → List TaskId
  | .push j' t => if j' = j then t :: l else l
  | .pop j' t => if j' = j then l.erase t else l

namespace Stacks

variable {k n : Nat}

def present (s : Stacks k n) (j : Fin k) : List TaskId := s.ops.foldl (StackEvent.apply j) []

def setOp (s : Stacks k n) (i : Fin n) (o : Op k) : Stacks k n :=
  { s with op := Function.update s.op i o }

/-- The stacks at the start; the `next` fields may hold anything. -/
def initial (next : TaskId → Option TaskId) : Stacks k n where
  taskPool := fun _ => none
  next := next
  op := fun _ => .idle
  ops := []

/-- `t->next = old_top` in `push`. -/
def writeNext (s : Stacks k n) (i : Fin n) (j : Fin k) (t : TaskId)
    (oldTop : Option TaskId) : Stacks k n :=
  { s.setOp i (.pushCas j t oldTop) with next := Function.update s.next t oldTop }

/-- The `compare_and_swap` of `push` succeeds. -/
def putOn (s : Stacks k n) (i : Fin n) (j : Fin k) (t : TaskId) : Stacks k n :=
  { s.setOp i (.pushed j t) with
    taskPool := Function.update s.taskPool j (some t)
    ops := s.ops ++ [.push j t] }

/-- The `compare_and_swap` of `try_pop` succeeds. -/
def takeOff (s : Stacks k n) (i : Fin n) (j : Fin k) (oldTop : TaskId)
    (newTop : Option TaskId) : Stacks k n :=
  { s.setOp i (.popped j (some oldTop)) with
    taskPool := Function.update s.taskPool j newTop
    ops := s.ops ++ [.pop j oldTop] }

/-- One step of the operation that thread `i` is in. -/
def step (s : Stacks k n) (i : Fin n) : Stacks k n :=
  match s.op i with
  | .pushLoad j t => s.setOp i (.pushLink j t (s.taskPool j))
  | .pushLink j t oldTop => s.writeNext i j t oldTop
  | .pushCas j t oldTop =>
    if s.taskPool j = oldTop then s.putOn i j t else s.setOp i (.pushLoad j t)
  | .popLoad j =>
    match s.taskPool j with
    | none => s.setOp i (.popped j none)
    | some oldTop => s.setOp i (.popNext j oldTop)
  | .popNext j oldTop => s.setOp i (.popCas j oldTop (s.next oldTop))
  | .popCas j oldTop newTop =>
    if s.taskPool j = some oldTop then s.takeOff i j oldTop newTop
    else s.setOp i (.popped j none)
  | .idle => s
  | .pushed _ _ => s
  | .popped _ _ => s

/-- The memory holds what the record says. -/
structure Linkage (s : Stacks k n) : Prop where
  linked : ∀ j, Linked s.next (s.taskPool j) (s.present j)
  nodup : ∀ j, (s.present j).Nodup
  disjoint : ∀ j j' t, t ∈ s.present j → t ∈ s.present j' → j = j'
  pushing : ∀ i t, (s.op i).pushing = some t → ∀ j, t ∉ s.present j
  pusher : ∀ i i' t, (s.op i).pushing = some t → (s.op i').pushing = some t → i = i'
  link : ∀ i j t oldTop, s.op i = .pushCas j t oldTop → s.next t = oldTop
  balance : ∀ j t, s.ops.count (.push j t) = s.ops.count (.pop j t) + (s.present j).count t

/-- A `compare_and_swap` of a pop that is about to succeed puts back the current `next`. -/
def FreshPop (s : Stacks k n) (i : Fin n) : Prop :=
  ∀ j oldTop newTop, s.op i = .popCas j oldTop newTop → s.taskPool j = some oldTop →
    newTop = s.next oldTop

instance (s : Stacks k n) (i : Fin n) : Decidable (s.FreshPop i) :=
  match hop : s.op i with
  | .popCas j oldTop newTop =>
    decidable_of_iff (s.taskPool j = some oldTop → newTop = s.next oldTop) <| by
      constructor
      · intro h j' o' n' ho
        rw [hop] at ho
        cases ho
        exact h
      · exact fun h => h j oldTop newTop hop
  | .idle => isTrue fun _ _ _ h => by simp [hop] at h
  | .pushLoad _ _ => isTrue fun _ _ _ h => by simp [hop] at h
  | .pushLink _ _ _ => isTrue fun _ _ _ h => by simp [hop] at h
  | .pushCas _ _ _ => isTrue fun _ _ _ h => by simp [hop] at h
  | .pushed _ _ => isTrue fun _ _ _ h => by simp [hop] at h
  | .popLoad _ => isTrue fun _ _ _ h => by simp [hop] at h
  | .popNext _ _ => isTrue fun _ _ _ h => by simp [hop] at h
  | .popped _ _ => isTrue fun _ _ _ h => by simp [hop] at h

@[simp] theorem setOp_op (s : Stacks k n) (i a : Fin n) (o : Op k) :
    (s.setOp i o).op a = if a = i then o else s.op a := Function.update_apply ..

theorem writeNext_op (s : Stacks k n) (i a : Fin n) (j : Fin k) (t : TaskId)
    (oldTop : Option TaskId) :
    (s.writeNext i j t oldTop).op a = if a = i then .pushCas j t oldTop else s.op a :=
  Function.update_apply ..

theorem putOn_op (s : Stacks k n) (i a : Fin n) (j : Fin k) (t : TaskId) :
    (s.putOn i j t).op a = if a = i then .pushed j t else s.op a := Function.update_apply ..

theorem takeOff_op (s : Stacks k n) (i a : Fin n) (j : Fin k) (oldTop : TaskId)
    (newTop : Option TaskId) :
    (s.takeOff i j oldTop newTop).op a = if a = i then .popped j (some oldTop) else s.op a :=
  Function.update_apply ..

theorem present_putOn (s : Stacks k n) (i : Fin n) (j j' : Fin k) (t : TaskId) :
    (s.putOn i j t).present j' = if j = j' then t :: s.present j' else s.present j' := by
  simp [present, putOn, StackEvent.apply]

theorem present_takeOff (s : Stacks k n) (i : Fin n) (j j' : Fin k) (oldTop : TaskId)
    (newTop : Option TaskId) : (s.takeOff i j oldTop newTop).present j' =
      if j = j' then (s.present j').erase oldTop else s.present j' := by
  simp [present, takeOff, StackEvent.apply]

/-- A step of a thread that reads, and changes nothing but where the thread stands. -/
inductive Reads (s : Stacks k n) : Op k → Op k → Prop
  | load {j : Fin k} {t : TaskId} : Reads s (.pushLoad j t) (.pushLink j t (s.taskPool j))
  | retry {j : Fin k} {t : TaskId} {oldTop : Option TaskId} (h : s.taskPool j ≠ oldTop) :
      Reads s (.pushCas j t oldTop) (.pushLoad j t)
  | empty {j : Fin k} (h : s.taskPool j = none) : Reads s (.popLoad j) (.popped j none)
  | top {j : Fin k} {oldTop : TaskId} (h : s.taskPool j = some oldTop) :
      Reads s (.popLoad j) (.popNext j oldTop)
  | next {j : Fin k} {oldTop : TaskId} :
      Reads s (.popNext j oldTop) (.popCas j oldTop (s.next oldTop))
  | fail {j : Fin k} {oldTop : TaskId} {newTop : Option TaskId}
      (h : s.taskPool j ≠ some oldTop) : Reads s (.popCas j oldTop newTop) (.popped j none)

theorem Reads.pushing {s : Stacks k n} {o o' : Op k} (h : Reads s o o') {t : TaskId}
    (ht : o'.pushing = some t) : o.pushing = some t := by
  cases h <;> exact ht

theorem Reads.ne_pushCas {s : Stacks k n} {o o' : Op k} (h : Reads s o o') (j : Fin k)
    (t : TaskId) (oldTop : Option TaskId) : o' ≠ .pushCas j t oldTop := by
  cases h <;> simp

/-- All that a step can do. -/
inductive Change (s : Stacks k n) (i : Fin n) : Stacks k n → Prop
  | still (h : (s.op i).Rest) : Change s i s
  | reads {o : Op k} (h : Reads s (s.op i) o) : Change s i (s.setOp i o)
  | write {j : Fin k} {t : TaskId} {oldTop : Option TaskId}
      (h : s.op i = .pushLink j t oldTop) : Change s i (s.writeNext i j t oldTop)
  | put {j : Fin k} {t : TaskId} (h : s.op i = .pushCas j t (s.taskPool j)) :
      Change s i (s.putOn i j t)
  | take {j : Fin k} {oldTop : TaskId} {newTop : Option TaskId}
      (h : s.op i = .popCas j oldTop newTop) (htop : s.taskPool j = some oldTop) :
      Change s i (s.takeOff i j oldTop newTop)

theorem step_change (s : Stacks k n) (i : Fin n) : Change s i (s.step i) := by
  unfold step
  cases hi : s.op i with
  | idle => exact .still (by rw [hi]; trivial)
  | pushLoad j t => exact .reads (hi ▸ .load)
  | pushLink j t oldTop => exact .write hi
  | pushCas j t oldTop =>
      show Change s i (if s.taskPool j = oldTop then s.putOn i j t else s.setOp i (.pushLoad j t))
      by_cases htop : s.taskPool j = oldTop
      · rw [if_pos htop]
        exact .put (by rw [hi, htop])
      · rw [if_neg htop]
        exact .reads (hi ▸ .retry htop)
  | pushed j t => exact .still (by rw [hi]; trivial)
  | popLoad j =>
      show Change s i (match s.taskPool j with
        | none => s.setOp i (.popped j none)
        | some oldTop => s.setOp i (.popNext j oldTop))
      split
      · rename_i htop
        exact .reads (hi ▸ .empty htop)
      · rename_i oldTop htop
        exact .reads (hi ▸ .top htop)
  | popNext j oldTop => exact .reads (hi ▸ .next)
  | popCas j oldTop newTop =>
      show Change s i (if s.taskPool j = some oldTop then s.takeOff i j oldTop newTop
        else s.setOp i (.popped j none))
      by_cases htop : s.taskPool j = some oldTop
      · rw [if_pos htop]
        exact .take hi htop
      · rw [if_neg htop]
        exact .reads (hi ▸ .fail htop)
  | popped j t => exact .still (by rw [hi]; trivial)

theorem linkage_initial (next : TaskId → Option TaskId) :
    (initial next : Stacks k n).Linkage := by
  have hnone : ∀ j, (initial next : Stacks k n).present j = [] := fun _ => rfl
  refine ⟨fun j => rfl, fun j => List.nodup_nil, ?_, ?_, ?_, ?_, fun j t => rfl⟩
  · intro j j' t ht
    rw [hnone] at ht
    cases ht
  · intro i t ht
    cases ht
  · intro i i' t ht
    cases ht
  · intro i j t oldTop ht
    cases ht

/-! ## Every step -/

/-- The stacks do not change, and the thread pushes what it pushed before. -/
theorem Linkage.setOp {s : Stacks k n} (h : s.Linkage) {i : Fin n} {o : Op k}
    (hpushing : ∀ t, o.pushing = some t → (s.op i).pushing = some t)
    (hlink : ∀ j t oldTop, o = .pushCas j t oldTop → s.next t = oldTop) :
    (s.setOp i o).Linkage := by
  have hop : ∀ a t, ((s.setOp i o).op a).pushing = some t → (s.op a).pushing = some t := by
    intro a t ha
    rw [setOp_op] at ha
    by_cases hai : a = i
    · rw [if_pos hai] at ha
      rw [hai]
      exact hpushing t ha
    · rwa [if_neg hai] at ha
  refine ⟨h.linked, h.nodup, h.disjoint, fun a t ha => h.pushing a t (hop a t ha),
    fun a a' t ha ha' => h.pusher a a' t (hop a t ha) (hop a' t ha'), ?_, h.balance⟩
  intro a j t oldTop ha
  rw [setOp_op] at ha
  by_cases hai : a = i
  · rw [if_pos hai] at ha
    exact hlink j t oldTop ha
  · rw [if_neg hai] at ha
    exact h.link a j t oldTop ha

/-- `t->next` is written before `t` is on a stack. -/
theorem Linkage.writeNext {s : Stacks k n} (h : s.Linkage) {i : Fin n} {j : Fin k} {t : TaskId}
    {oldTop : Option TaskId} (hi : s.op i = .pushLink j t oldTop) :
    (s.writeNext i j t oldTop).Linkage := by
  have hpush : (s.op i).pushing = some t := by rw [hi]; rfl
  have hout := h.pushing i t hpush
  have hop : ∀ a, ((s.writeNext i j t oldTop).op a).pushing = (s.op a).pushing := by
    intro a
    rw [writeNext_op]
    by_cases hai : a = i
    · rw [if_pos hai, hai, hpush]
      rfl
    · rw [if_neg hai]
  refine ⟨fun j' => (h.linked j').update (hout j') oldTop, h.nodup, h.disjoint,
    fun a u ha => h.pushing a u ((hop a).symm.trans ha),
    fun a a' u ha ha' => h.pusher a a' u ((hop a).symm.trans ha) ((hop a').symm.trans ha'),
    ?_, h.balance⟩
  intro a j' u o ha
  rw [writeNext_op] at ha
  show Function.update s.next t oldTop u = o
  by_cases hai : a = i
  · rw [if_pos hai] at ha
    cases ha
    exact Function.update_self ..
  · rw [if_neg hai] at ha
    have hut : u ≠ t := by
      intro hut
      exact hai (h.pusher a i t (by rw [ha, ← hut]; rfl) hpush)
    rw [Function.update_of_ne hut]
    exact h.link a j' u o ha

theorem Linkage.putOn {s : Stacks k n} (h : s.Linkage) {i : Fin n} {j : Fin k} {t : TaskId}
    (hi : s.op i = .pushCas j t (s.taskPool j)) : (s.putOn i j t).Linkage := by
  have hpush : (s.op i).pushing = some t := by rw [hi]; rfl
  have hout := h.pushing i t hpush
  have hop : ∀ a u, ((s.putOn i j t).op a).pushing = some u →
      a ≠ i ∧ (s.op a).pushing = some u := by
    intro a u ha
    rw [putOn_op] at ha
    by_cases hai : a = i
    · rw [if_pos hai] at ha
      cases ha
    · rw [if_neg hai] at ha
      exact ⟨hai, ha⟩
  constructor
  case linked =>
    intro j'
    rw [present_putOn]
    by_cases hj : j = j'
    · rw [if_pos hj, ← hj]
      refine ⟨Function.update_self .., ?_⟩
      show Linked s.next (s.next t) _
      rw [h.link i j t _ hi]
      exact h.linked j
    · rw [if_neg hj]
      show Linked s.next (Function.update s.taskPool j (some t) j') _
      rw [Function.update_of_ne (Ne.symm hj)]
      exact h.linked j'
  case nodup =>
    intro j'
    rw [present_putOn]
    split
    · exact List.nodup_cons.mpr ⟨hout j', h.nodup j'⟩
    · exact h.nodup j'
  case disjoint =>
    intro a b u ha hb
    rw [present_putOn] at ha hb
    by_cases hja : j = a
    · by_cases hjb : j = b
      · rw [← hja, ← hjb]
      · rw [if_neg hjb] at hb
        rw [if_pos hja] at ha
        obtain rfl | ha := List.mem_cons.mp ha
        · exact absurd hb (hout b)
        · exact h.disjoint a b u ha hb
    · rw [if_neg hja] at ha
      by_cases hjb : j = b
      · rw [if_pos hjb] at hb
        obtain rfl | hb := List.mem_cons.mp hb
        · exact absurd ha (hout a)
        · exact h.disjoint a b u ha hb
      · rw [if_neg hjb] at hb
        exact h.disjoint a b u ha hb
  case pushing =>
    intro a u ha j'
    obtain ⟨hai, hau⟩ := hop a u ha
    rw [present_putOn]
    split
    · intro hmem
      obtain rfl | hmem := List.mem_cons.mp hmem
      · exact hai (h.pusher a i u hau hpush)
      · exact h.pushing a u hau j' hmem
    · exact h.pushing a u hau j'
  case pusher =>
    intro a b u ha hb
    exact h.pusher a b u (hop a u ha).2 (hop b u hb).2
  case link =>
    intro a j' u o ha
    rw [putOn_op] at ha
    by_cases hai : a = i
    · rw [if_pos hai] at ha
      cases ha
    · rw [if_neg hai] at ha
      exact h.link a j' u o ha
  case balance =>
    intro j' u
    have hold := h.balance j' u
    rw [present_putOn]
    show (s.ops ++ [StackEvent.push j t]).count _ = (s.ops ++ [StackEvent.push j t]).count _ + _
    simp only [List.count_append, List.count_singleton, beq_iff_eq, StackEvent.push.injEq,
      reduceCtorEq, if_false]
    by_cases hj : j = j'
    · rw [if_pos hj, List.count_cons]
      by_cases htu : t = u
      · simp [hj, htu]
        omega
      · simp [htu]
        omega
    · simp [hj]
      omega

/-- The task taken off is the newest one on the stack. -/
theorem Linkage.takeOff {s : Stacks k n} (h : s.Linkage) (i : Fin n) {j : Fin k}
    {oldTop : TaskId} (htop : s.taskPool j = some oldTop) :
    ∃ rest, s.present j = oldTop :: rest ∧
      (s.takeOff i j oldTop (s.next oldTop)).present j = rest ∧
      (s.takeOff i j oldTop (s.next oldTop)).Linkage := by
  have hlinked := h.linked j
  rw [htop] at hlinked
  obtain ⟨rest, hrest, hchain⟩ := hlinked.cons_of_some
  have hpresent : ∀ j', (s.takeOff i j oldTop (s.next oldTop)).present j' =
      if j = j' then rest else s.present j' := by
    intro j'
    rw [present_takeOff]
    by_cases hj : j = j'
    · rw [if_pos hj, if_pos hj, ← hj, hrest, List.erase_cons_head]
    · rw [if_neg hj, if_neg hj]
  have hsub : ∀ j' u, u ∈ (s.takeOff i j oldTop (s.next oldTop)).present j' →
      u ∈ s.present j' := by
    intro j' u hu
    rw [hpresent] at hu
    by_cases hj : j = j'
    · rw [if_pos hj] at hu
      rw [← hj, hrest]
      exact List.mem_cons_of_mem _ hu
    · rwa [if_neg hj] at hu
  have hop : ∀ a u, ((s.takeOff i j oldTop (s.next oldTop)).op a).pushing = some u →
      (s.op a).pushing = some u := by
    intro a u ha
    rw [takeOff_op] at ha
    by_cases hai : a = i
    · rw [if_pos hai] at ha
      cases ha
    · rwa [if_neg hai] at ha
  refine ⟨rest, hrest, by rw [hpresent, if_pos rfl], ?_⟩
  constructor
  case linked =>
    intro j'
    rw [hpresent]
    show Linked s.next (Function.update s.taskPool j (s.next oldTop) j') _
    by_cases hj : j = j'
    · rw [if_pos hj, ← hj, Function.update_self]
      exact hchain
    · rw [if_neg hj, Function.update_of_ne (Ne.symm hj)]
      exact h.linked j'
  case nodup =>
    intro j'
    rw [present_takeOff]
    split
    · exact (h.nodup j').erase _
    · exact h.nodup j'
  case disjoint =>
    intro a b u ha hb
    exact h.disjoint a b u (hsub a u ha) (hsub b u hb)
  case pushing =>
    intro a u ha j' hmem
    exact h.pushing a u (hop a u ha) j' (hsub j' u hmem)
  case pusher =>
    intro a b u ha hb
    exact h.pusher a b u (hop a u ha) (hop b u hb)
  case link =>
    intro a j' u o ha
    rw [takeOff_op] at ha
    by_cases hai : a = i
    · rw [if_pos hai] at ha
      cases ha
    · rw [if_neg hai] at ha
      exact h.link a j' u o ha
  case balance =>
    intro j' u
    have hold := h.balance j' u
    rw [hpresent]
    show (s.ops ++ [StackEvent.pop j oldTop]).count _ =
      (s.ops ++ [StackEvent.pop j oldTop]).count _ + _
    simp only [List.count_append, List.count_singleton, beq_iff_eq, StackEvent.pop.injEq,
      reduceCtorEq, if_false]
    by_cases hj : j = j'
    · subst hj
      rw [hrest, List.count_cons] at hold
      by_cases htu : oldTop = u
      · simp [htu] at hold ⊢
        omega
      · simp [htu] at hold ⊢
        omega
    · simp [hj]
      omega

/-- A step keeps the memory right unless it is a pop that puts back a stale `next`. -/
theorem Linkage.step {s : Stacks k n} (h : s.Linkage) {i : Fin n} (hfresh : s.FreshPop i) :
    (s.step i).Linkage := by
  generalize hs' : s.step i = s'
  have hchange := s.step_change i
  rw [hs'] at hchange
  cases hchange with
  | still hi => exact h
  | reads hreads =>
      exact h.setOp (fun _ => hreads.pushing) fun j t v ho => absurd ho (hreads.ne_pushCas j t v)
  | write hi => exact h.writeNext hi
  | put hi => exact h.putOn hi
  | take hi htop =>
      rw [hfresh _ _ _ hi htop]
      obtain ⟨rest, -, -, hlinkage⟩ := h.takeOff i htop
      exact hlinkage

end Stacks

end AceMesh
