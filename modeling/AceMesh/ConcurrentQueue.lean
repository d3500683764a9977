import AceMesh.Lib.Atomic
import AceMesh.Lib.Linked
import AceMesh.Lib.Refinement
import AceMesh.Task

/-!
# The queue that is not secure for concurrency

`aceMesh_stack.cpp`: `push` and `try_pop` of `concurrent_aceMesh_queue`, the queue of the thread
for MPI tasks in builds without TBB's queue. One step for every access to a shared object. A node
is allocated by `push` and deleted by `try_pop`, and the allocator may hand out a deleted node
again. A step that touches a node that is not allocated has no result.

The source warns that the queue is not secure for concurrency. What it is good for: as long as
the pushes do not overlap one another, nor the pops, every interleaving of a push with a pop
comes down to a list to which each operation is applied at once (`queue_refines`). Two pushes that
overlap are enough to touch a deleted node (`overlapping_pushes`).
-/

namespace AceMesh

namespace ConcurrentQueue

abbrev NodeId := Nat

structure Node where
  t : Option TaskId
  next : Option NodeId
  deriving DecidableEq

/-- Where a thread stands in an operation. `p` is the local variable of the source, `q` the new
node. -/
inductive QueueOp
  | idle
  | pushNew (t : TaskId)
  | pushTail (t : TaskId) (q : NodeId)
  | pushNext (t : TaskId) (q : NodeId) (p : Option NodeId)
  | pushSwing (t : TaskId) (q : NodeId) (p : Option NodeId)
  | pushed (t : TaskId)
  | popHead
  | popTest (p : Option NodeId)
  | popNext (p : Option NodeId)
  | popCas (p next : Option NodeId)
  | popRead (p : Option NodeId)
  | popTask (p next : Option NodeId)
  | popDelete (p : Option NodeId) (t : Option TaskId)
  | popped (t : Option (Option TaskId))
  deriving DecidableEq

namespace QueueOp

def pushing : QueueOp → Bool
  | pushNew _ => true
  | pushTail _ _ => true
  | pushNext _ _ _ => true
  | pushSwing _ _ _ => true
  | _ => false

def popping : QueueOp → Bool
  | popHead => true
  | popTest _ => true
  | popNext _ => true
  | popCas _ _ => true
  | popRead _ => true
  | popTask _ _ => true
  | popDelete _ _ => true
  | _ => false

/-- The node that only this thread uses: the new one until it is linked, the old one from when it
is off the queue until it is deleted. -/
def held : QueueOp → Option NodeId
  | pushTail _ q => some q
  | pushNext _ q _ => some q
  | popRead p => p
  | popTask p _ => p
  | popDelete p _ => p
  | _ => none

/-- The number of steps until the operation returns, if it does not try again. -/
def left : QueueOp → Nat
  | pushNew _ => 4
  | pushTail _ _ => 3
  | pushNext _ _ _ => 2
  | pushSwing _ _ _ => 1
  | popHead => 7
  | popTest _ => 6
  | popNext _ => 5
  | popCas _ _ => 4
  | popRead _ => 3
  | popTask _ _ => 2
  | popDelete _ _ => 1
  | _ => 0

end QueueOp

end ConcurrentQueue

open ConcurrentQueue

/-- `head` and `tail` of `concurrent_aceMesh_queue`, the allocated nodes and `n` threads. `items`
records what the queue holds: changed by the `compare_and_swap` of `next` and by that of
`head`. -/
structure ConcurrentQueue (n : Nat) where
  head : Option NodeId
  tail : Option NodeId
  heap : NodeId → Option Node
  op : Fin n → QueueOp
  items : List TaskId

namespace ConcurrentQueue

variable {n : Nat}

/-- `head = tail = new node()`. -/
def initial (n : Nat) (dummy : NodeId) : ConcurrentQueue n where
  head := some dummy
  tail := some dummy
  heap := Function.update (fun _ => none) dummy (some ⟨none, none⟩)
  op := fun _ => .idle
  items := []

/-- What a pointer points to; nothing behind NULL and behind a deleted node. -/
def deref (s : ConcurrentQueue n) (p : Option NodeId) : Option Node := p.bind s.heap

def setOp (s : ConcurrentQueue n) (i : Fin n) (o : QueueOp) : ConcurrentQueue n :=
  { s with op := Function.update s.op i o }

/-- `new node(t)`, at the address `q`. -/
def newNode (s : ConcurrentQueue n) (i : Fin n) (t : TaskId) (q : NodeId) : ConcurrentQueue n :=
  { s.setOp i (.pushTail t q) with heap := Function.update s.heap q (some ⟨some t, none⟩) }

/-- `p->next.compare_and_swap(q, NULL)` succeeds. -/
def link (s : ConcurrentQueue n) (i : Fin n) (t : TaskId) (q p : NodeId) (node : Node) :
    ConcurrentQueue n :=
  { s.setOp i (.pushSwing t q (some p)) with
    heap := Function.update s.heap p (some { node with next := some q })
    items := s.items ++ [t] }

/-- `tail.compare_and_swap(q, p)`. -/
def swing (s : ConcurrentQueue n) (i : Fin n) (t : TaskId) (q : NodeId) (p : Option NodeId) :
    ConcurrentQueue n :=
  { s.setOp i (.pushed t) with tail := if s.tail = p then some q else s.tail }

/-- `head.compare_and_swap(p->next, p)` succeeds. -/
def advance (s : ConcurrentQueue n) (i : Fin n) (p next : Option NodeId) : ConcurrentQueue n :=
  { s.setOp i (.popRead p) with head := next, items := s.items.tail }

/-- `delete p` and `return true`. -/
def deleteNode (s : ConcurrentQueue n) (i : Fin n) (p : NodeId) (t : Option TaskId) :
    ConcurrentQueue n :=
  { s.setOp i (.popped (some t)) with heap := Function.update s.heap p none }

/-- One step of thread `i`; `fresh` is the node that the allocator would hand out. -/
def step (s : ConcurrentQueue n) (i : Fin n) (fresh : NodeId) : Option (ConcurrentQueue n) :=
  match s.op i with
  | .pushNew t => some (s.newNode i t fresh)
  | .pushTail t q => some (s.setOp i (.pushNext t q s.tail))
  | .pushNext _ _ none => none
  | .pushNext t q (some p) => (s.heap p).map fun node =>
      if node.next = none then s.link i t q p node else s.setOp i (.pushTail t q)
  | .pushSwing t q p => some (s.swing i t q p)
  | .popHead => some (s.setOp i (.popTest s.head))
  | .popTest p => (s.deref p).map fun node =>
      if node.next = none then s.setOp i (.popped none) else s.setOp i (.popNext p)
  | .popNext p => (s.deref p).map fun node => s.setOp i (.popCas p node.next)
  | .popCas p next =>
      some (if s.head = p then s.advance i p next else s.setOp i (.popped none))
  | .popRead p => (s.deref p).map fun node => s.setOp i (.popTask p node.next)
  | .popTask p next => (s.deref next).map fun node => s.setOp i (.popDelete p node.t)
  | .popDelete none _ => none
  | .popDelete (some p) t => (s.heap p).map fun _ => s.deleteNode i p t
  | .idle => some s
  | .pushed _ => some s
  | .popped _ => some s

inductive QueueAct (n : Nat)
  | push (i : Fin n) (t : TaskId)
  | tryPop (i : Fin n)
  | step (i : Fin n) (fresh : NodeId)

/-- A thread is in one operation at a time, and the allocator hands out no node that is in use. -/
def Proper (s : ConcurrentQueue n) : QueueAct n → Prop
  | .push i _ => (s.op i).pushing = false ∧ (s.op i).popping = false
  | .tryPop i => (s.op i).pushing = false ∧ (s.op i).popping = false
  | .step i fresh => ((s.op i).pushing = true ∨ (s.op i).popping = true) ∧ s.heap fresh = none

instance (s : ConcurrentQueue n) : DecidablePred s.Proper
  | .push _ _ => inferInstanceAs (Decidable (_ ∧ _))
  | .tryPop _ => inferInstanceAs (Decidable (_ ∧ _))
  | .step _ _ => inferInstanceAs (Decidable (_ ∧ _))

/-- A push begins when no other one is in progress, and so does a pop. -/
def Orderly (s : ConcurrentQueue n) (a : QueueAct n) : Prop :=
  s.Proper a ∧ match a with
    | .push _ _ => ∀ j, (s.op j).pushing = false
    | .tryPop _ => ∀ j, (s.op j).popping = false
    | .step _ _ => True

instance (s : ConcurrentQueue n) : DecidablePred s.Orderly
  | .push _ _ => inferInstanceAs (Decidable (_ ∧ ∀ _, _))
  | .tryPop _ => inferInstanceAs (Decidable (_ ∧ ∀ _, _))
  | .step _ _ => inferInstanceAs (Decidable (_ ∧ True))

def act (s : ConcurrentQueue n) : QueueAct n → Option (ConcurrentQueue n)
  | .push i t => some (s.setOp i (.pushNew t))
  | .tryPop i => some (s.setOp i .popHead)
  | .step i fresh => s.step i fresh

/-- A run of allowed acts. -/
def run (allowed : ConcurrentQueue n → QueueAct n → Prop) [∀ s a, Decidable (allowed s a)]
    (s : ConcurrentQueue n) : List (QueueAct n) → Option (ConcurrentQueue n)
  | [] => some s
  | a :: acts => if allowed s a then (s.act a).bind fun s => s.run allowed acts else none

theorem isRun_run (allowed : ConcurrentQueue n → QueueAct n → Prop)
    [∀ s a, Decidable (allowed s a)] :
    IsRun (fun (s : ConcurrentQueue n) a => if allowed s a then s.act a else none)
      (run allowed) :=
  .checked (fun _ => rfl) fun _ _ _ => rfl

/-! ## The list behind the queue -/

inductive QueueCall
  | push (t : TaskId)
  | tryPop
  deriving DecidableEq

/-- What an operation returns; `none` for a `try_pop` that returns false. -/
inductive QueueResult
  | pushed
  | popped (t : Option (Option TaskId))
  deriving DecidableEq

/-- The operations on a list, each done at once. -/
def fifo : List TaskId → QueueCall → List TaskId × QueueResult
  | items, .push t => (items ++ [t], .pushed)
  | [], .tryPop => ([], .popped none)
  | t :: items, .tryPop => (items, .popped (some (some t)))

/-- The task in the node behind `head`. -/
def front (s : ConcurrentQueue n) : Option TaskId := (s.deref s.head).bind (·.t)

/-- A push has taken effect when its node is linked, a pop when `head` has moved. -/
def QueueOp.shown (front : Option TaskId) : QueueOp → Called QueueCall QueueResult
  | .idle => .ready
  | .pushNew t => .called (.push t)
  | .pushTail t _ => .called (.push t)
  | .pushNext t _ _ => .called (.push t)
  | .pushSwing _ _ _ => .done .pushed
  | .pushed _ => .done .pushed
  | .popHead => .called .tryPop
  | .popTest _ => .called .tryPop
  | .popNext _ => .called .tryPop
  | .popCas _ _ => .called .tryPop
  | .popRead _ => .done (.popped (some front))
  | .popTask _ _ => .done (.popped (some front))
  | .popDelete _ t => .done (.popped (some t))
  | .popped t => .done (.popped t)

def shown (s : ConcurrentQueue n) : Atomic (List TaskId) QueueCall QueueResult n where
  object := s.items
  status := fun i => (s.op i).shown s.front

/-! ## What a step can do -/

/-- The steps that read, and change nothing but where the thread stands. -/
inductive Reads (s : ConcurrentQueue n) : QueueOp → QueueOp → Prop
  | tail {t : TaskId} {q : NodeId} : Reads s (.pushTail t q) (.pushNext t q s.tail)
  | retry {t : TaskId} {q p : NodeId} {node : Node} (found : s.heap p = some node)
      (linked : node.next ≠ none) : Reads s (.pushNext t q (some p)) (.pushTail t q)
  | head : Reads s .popHead (.popTest s.head)
  | empty {p : Option NodeId} {node : Node} (found : s.deref p = some node)
      (last : node.next = none) : Reads s (.popTest p) (.popped none)
  | test {p : Option NodeId} {node : Node} (found : s.deref p = some node)
      (linked : node.next ≠ none) : Reads s (.popTest p) (.popNext p)
  | next {p : Option NodeId} {node : Node} (found : s.deref p = some node) :
      Reads s (.popNext p) (.popCas p node.next)
  | fail {p next : Option NodeId} (moved : s.head ≠ p) : Reads s (.popCas p next) (.popped none)
  | read {p : Option NodeId} {node : Node} (found : s.deref p = some node) :
      Reads s (.popRead p) (.popTask p node.next)
  | task {p next : Option NodeId} {node : Node} (found : s.deref next = some node) :
      Reads s (.popTask p next) (.popDelete p node.t)

inductive Change (s : ConcurrentQueue n) (i : Fin n) : ConcurrentQueue n → Prop
  | reads {o : QueueOp} (reads : Reads s (s.op i) o) : Change s i (s.setOp i o)
  | new {t : TaskId} {q : NodeId} (op : s.op i = .pushNew t) (free : s.heap q = none) :
      Change s i (s.newNode i t q)
  | link {t : TaskId} {q p : NodeId} {node : Node} (op : s.op i = .pushNext t q (some p))
      (found : s.heap p = some node) (last : node.next = none) :
      Change s i (s.link i t q p node)
  | swing {t : TaskId} {q : NodeId} {p : Option NodeId} (op : s.op i = .pushSwing t q p) :
      Change s i (s.swing i t q p)
  | advance {p next : Option NodeId} (op : s.op i = .popCas p next) (top : s.head = p) :
      Change s i (s.advance i p next)
  | delete {p : NodeId} {t : Option TaskId} (op : s.op i = .popDelete (some p) t) :
      Change s i (s.deleteNode i p t)

variable {s s' : ConcurrentQueue n} {i : Fin n} {fresh : NodeId}

theorem step_change (hproper : s.Proper (.step i fresh)) (hs : s.step i fresh = some s') :
    Change s i s' := by
  obtain ⟨hbusy, hfree⟩ := hproper
  unfold step at hs
  split at hs
  case h_1 t op =>
    cases hs
    exact .new op hfree
  case h_2 t q op =>
    cases hs
    exact .reads (op ▸ .tail)
  case h_3 => cases hs
  case h_4 t q p op =>
    obtain ⟨node, hnode, rfl⟩ := Option.map_eq_some_iff.mp hs
    split
    · next hlast => exact .link op hnode hlast
    · next hlinked => exact .reads (op ▸ .retry hnode hlinked)
  case h_5 t q p op =>
    cases hs
    exact .swing op
  case h_6 op =>
    cases hs
    exact .reads (op ▸ .head)
  case h_7 p op =>
    obtain ⟨node, hnode, rfl⟩ := Option.map_eq_some_iff.mp hs
    split
    · next hlast => exact .reads (op ▸ .empty hnode hlast)
    · next hlinked => exact .reads (op ▸ .test hnode hlinked)
  case h_8 p op =>
    obtain ⟨node, hnode, rfl⟩ := Option.map_eq_some_iff.mp hs
    exact .reads (op ▸ .next hnode)
  case h_9 p next op =>
    cases hs
    split
    · next htop => exact .advance op htop
    · next hmoved => exact .reads (op ▸ .fail hmoved)
  case h_10 p op =>
    obtain ⟨node, hnode, rfl⟩ := Option.map_eq_some_iff.mp hs
    exact .reads (op ▸ .read hnode)
  case h_11 p next op =>
    obtain ⟨node, hnode, rfl⟩ := Option.map_eq_some_iff.mp hs
    exact .reads (op ▸ .task hnode)
  case h_12 => cases hs
  case h_13 p t op =>
    obtain ⟨node, -, rfl⟩ := Option.map_eq_some_iff.mp hs
    exact .delete op
  case h_14 op =>
    rw [op] at hbusy
    simp [QueueOp.pushing, QueueOp.popping] at hbusy
  case h_15 op =>
    rw [op] at hbusy
    simp [QueueOp.pushing, QueueOp.popping] at hbusy
  case h_16 op =>
    rw [op] at hbusy
    simp [QueueOp.pushing, QueueOp.popping] at hbusy

/-! ## The chain of nodes -/

def next (s : ConcurrentQueue n) (a : NodeId) : Option NodeId := (s.heap a).bind (·.next)

def task (s : ConcurrentQueue n) (a : NodeId) : Option TaskId := (s.heap a).bind (·.t)

theorem next_congr {a : NodeId} (h : s'.heap a = s.heap a) : s'.next a = s.next a :=
  congrArg (·.bind Node.next) h

theorem task_congr {a : NodeId} (h : s'.heap a = s.heap a) : s'.task a = s.task a :=
  congrArg (·.bind Node.t) h

/-- What the thread knows about the queue from what it has read. -/
def Knows (s : ConcurrentQueue n) (nodes : List NodeId) : QueueOp → Prop
  | .pushTail t q => s.heap q = some ⟨some t, none⟩
  | .pushNext t q p => s.heap q = some ⟨some t, none⟩ ∧ p = s.tail
  | .pushSwing _ q p => nodes.getLast? = some q ∧ s.tail = p
  | .popTest p => p = s.head
  | .popNext p => p = s.head ∧ s.items ≠ []
  | .popCas p next => p = s.head ∧ s.items ≠ [] ∧ next = p.bind s.next
  | .popRead p => p ≠ none ∧ p.bind s.next = s.head
  | .popTask p next => p ≠ none ∧ next = s.head
  | .popDelete p _ => p ≠ none
  | _ => True

def Swinging (o : QueueOp) : Prop := ∃ t q p, o = .pushSwing t q p

/-- The nodes from `head` on: a first one that has been used, then one for each item. Nothing else
is allocated but what a thread holds. -/
structure Chain (s : ConcurrentQueue n) (nodes : List NodeId) : Prop where
  linked : Linked s.next s.head nodes
  nodup : nodes.Nodup
  first : nodes ≠ []
  items : nodes.tail.map s.task = s.items.map some
  allocated : ∀ a, (s.heap a).isSome ↔ a ∈ nodes ∨ ∃ i, (s.op i).held = some a
  heldOut : ∀ i a, (s.op i).held = some a → a ∉ nodes
  holder : ∀ i j a, (s.op i).held = some a → (s.op j).held = some a → i = j
  pusher : ∀ i j, (s.op i).pushing = true → (s.op j).pushing = true → i = j
  popper : ∀ i j, (s.op i).popping = true → (s.op j).popping = true → i = j
  tail : (∀ i, ¬ Swinging (s.op i)) → s.tail = nodes.getLast?
  knows : ∀ i, s.Knows nodes (s.op i)

theorem setOp_op (s : ConcurrentQueue n) (i a : Fin n) (o : QueueOp) :
    (s.setOp i o).op a = if a = i then o else s.op a := Function.update_apply ..

theorem newNode_op (s : ConcurrentQueue n) (i a : Fin n) (t : TaskId) (q : NodeId) :
    (s.newNode i t q).op a = if a = i then .pushTail t q else s.op a := Function.update_apply ..

theorem newNode_heap (s : ConcurrentQueue n) (i : Fin n) (t : TaskId) (q a : NodeId) :
    (s.newNode i t q).heap a = if a = q then some ⟨some t, none⟩ else s.heap a :=
  Function.update_apply ..

theorem link_op (s : ConcurrentQueue n) (i a : Fin n) (t : TaskId) (q p : NodeId) (node : Node) :
    (s.link i t q p node).op a = if a = i then .pushSwing t q (some p) else s.op a :=
  Function.update_apply ..

theorem link_heap (s : ConcurrentQueue n) (i : Fin n) (t : TaskId) (q p a : NodeId)
    (node : Node) : (s.link i t q p node).heap a =
      if a = p then some { node with next := some q } else s.heap a := Function.update_apply ..

theorem swing_op (s : ConcurrentQueue n) (i a : Fin n) (t : TaskId) (q : NodeId)
    (p : Option NodeId) : (s.swing i t q p).op a = if a = i then .pushed t else s.op a :=
  Function.update_apply ..

theorem advance_op (s : ConcurrentQueue n) (i a : Fin n) (p next : Option NodeId) :
    (s.advance i p next).op a = if a = i then .popRead p else s.op a := Function.update_apply ..

theorem deleteNode_op (s : ConcurrentQueue n) (i a : Fin n) (p : NodeId) (t : Option TaskId) :
    (s.deleteNode i p t).op a = if a = i then .popped (some t) else s.op a :=
  Function.update_apply ..

theorem deleteNode_heap (s : ConcurrentQueue n) (i : Fin n) (p a : NodeId) (t : Option TaskId) :
    (s.deleteNode i p t).heap a = if a = p then none else s.heap a := Function.update_apply ..

theorem initial_heap (dummy a : NodeId) : (initial n dummy).heap a =
    if a = dummy then some ⟨none, none⟩ else none :=
  Function.update_apply (fun _ => none) dummy _ a

theorem chain_initial (dummy : NodeId) : Chain (initial n dummy) [dummy] := by
  have hheld : ∀ i a, ((initial n dummy).op i).held ≠ some a := fun i a h => by cases h
  constructor
  case linked =>
    refine ⟨rfl, ?_⟩
    show next _ dummy = none
    rw [next, initial_heap, if_pos rfl]
    rfl
  case nodup => exact List.nodup_singleton dummy
  case first => exact List.cons_ne_nil dummy []
  case items => rfl
  case allocated =>
    intro a
    rw [initial_heap]
    by_cases ha : a = dummy
    · simp [ha]
    · simp [ha, hheld]
  case heldOut => exact fun i a h => absurd h (hheld i a)
  case holder => exact fun i j a h => absurd h (hheld i a)
  case pusher => exact fun i j h => by cases h
  case popper => exact fun i j h => by cases h
  case tail => exact fun _ => rfl
  case knows => exact fun i => trivial

/-- A thread that is not pushing knows the first node and the one it has taken off. -/
theorem Knows.of_push {nodes nodes' : List NodeId} {o : QueueOp} (h : s.Knows nodes o)
    (hpush : o.pushing = false) (hhead : s'.head = s.head) (hitems : s.items ≠ [] → s'.items ≠ [])
    (hnext : ∀ a, (s.head = some a ∧ s.items ≠ []) ∨ o.held = some a → s'.next a = s.next a) :
    s'.Knows nodes' o := by
  cases o with
  | popTest p => exact Eq.trans h hhead.symm
  | popNext p => exact ⟨h.1.trans hhead.symm, hitems h.2⟩
  | popCas p next =>
      obtain ⟨hp, hne, rfl⟩ := h
      refine ⟨hp.trans hhead.symm, hitems hne, ?_⟩
      cases p with
      | none => rfl
      | some a => exact (hnext a (Or.inl ⟨hp.symm, hne⟩)).symm
  | popRead p =>
      refine ⟨h.1, ?_⟩
      cases p with
      | none => exact absurd rfl h.1
      | some a =>
          rw [hhead, ← h.2]
          exact hnext a (Or.inr rfl)
  | popTask p next => exact ⟨h.1, h.2.trans hhead.symm⟩
  | popDelete p t => exact h
  | pushTail t q => cases hpush
  | pushNext t q p => cases hpush
  | pushSwing t q p => cases hpush
  | idle => trivial
  | pushNew t => trivial
  | pushed t => trivial
  | popHead => trivial
  | popped t => trivial

/-- A thread that is not popping knows the new node and the last one. -/
theorem Knows.of_pop {nodes nodes' : List NodeId} {o : QueueOp} (h : s.Knows nodes o)
    (hpop : o.popping = false) (htail : s'.tail = s.tail)
    (hlast : nodes'.getLast? = nodes.getLast?)
    (hheap : ∀ a, o.held = some a → s'.heap a = s.heap a) : s'.Knows nodes' o := by
  cases o with
  | pushTail t q => exact (hheap q rfl).trans h
  | pushNext t q p => exact ⟨(hheap q rfl).trans h.1, h.2.trans htail.symm⟩
  | pushSwing t q p => exact ⟨hlast.trans h.1, htail.trans h.2⟩
  | popTest p => cases hpop
  | popNext p => cases hpop
  | popCas p next => cases hpop
  | popRead p => cases hpop
  | popTask p next => cases hpop
  | popDelete p t => cases hpop
  | idle => trivial
  | pushNew t => trivial
  | pushed t => trivial
  | popHead => trivial
  | popped t => trivial

namespace Chain

variable {nodes nodes' : List NodeId} {o : QueueOp}

/-- One thread goes on, and the fields that it may change are as they should be. -/
theorem change (h : Chain s nodes) (hop : ∀ j, s'.op j = if j = i then o else s.op j)
    (hlinked : Linked s'.next s'.head nodes') (hnodup : nodes'.Nodup) (hfirst : nodes' ≠ [])
    (hitems : nodes'.tail.map s'.task = s'.items.map some)
    (hallocated : ∀ a, (s'.heap a).isSome ↔
      a ∈ nodes' ∨ o.held = some a ∨ ∃ j, j ≠ i ∧ (s.op j).held = some a)
    (hheld : ∀ a, o.held = some a → a ∉ nodes' ∧ ∀ j, j ≠ i → (s.op j).held ≠ some a)
    (hout : ∀ j a, j ≠ i → (s.op j).held = some a → a ∉ nodes')
    (hpush : o.pushing = true → ∀ j, j ≠ i → (s.op j).pushing = false)
    (hpop : o.popping = true → ∀ j, j ≠ i → (s.op j).popping = false)
    (htail : ¬ Swinging o → (∀ j, j ≠ i → ¬ Swinging (s.op j)) → s'.tail = nodes'.getLast?)
    (hknows : s'.Knows nodes' o)
    (hothers : ∀ j, j ≠ i → s.Knows nodes (s.op j) → s'.Knows nodes' (s.op j)) :
    Chain s' nodes' := by
  have hself : s'.op i = o := by rw [hop, if_pos rfl]
  have hother : ∀ j, j ≠ i → s'.op j = s.op j := fun j hj => by rw [hop, if_neg hj]
  have honly : ∀ f : QueueOp → Bool, (∀ a b, f (s.op a) = true → f (s.op b) = true → a = b) →
      (f o = true → ∀ j, j ≠ i → f (s.op j) = false) →
      ∀ a b, f (s'.op a) = true → f (s'.op b) = true → a = b := by
    intro f hold hnew a b ha hb
    by_cases hai : a = i
    · by_cases hbi : b = i
      · rw [hai, hbi]
      · rw [hai, hself] at ha
        rw [hother b hbi, hnew ha b hbi] at hb
        cases hb
    · rw [hother a hai] at ha
      by_cases hbi : b = i
      · rw [hbi, hself] at hb
        rw [hnew hb a hai] at ha
        cases ha
      · rw [hother b hbi] at hb
        exact hold a b ha hb
  constructor
  case linked => exact hlinked
  case nodup => exact hnodup
  case first => exact hfirst
  case items => exact hitems
  case allocated =>
    intro a
    rw [hallocated]
    apply or_congr Iff.rfl
    constructor
    · rintro (ha | ⟨j, hj, ha⟩)
      · exact ⟨i, hself ▸ ha⟩
      · exact ⟨j, (hother j hj).symm ▸ ha⟩
    · rintro ⟨j, ha⟩
      by_cases hj : j = i
      · rw [hj, hself] at ha
        exact Or.inl ha
      · rw [hother j hj] at ha
        exact Or.inr ⟨j, hj, ha⟩
  case heldOut =>
    intro j a ha
    by_cases hj : j = i
    · rw [hj, hself] at ha
      exact (hheld a ha).1
    · rw [hother j hj] at ha
      exact hout j a hj ha
  case holder =>
    intro j k a ha hb
    by_cases hj : j = i
    · by_cases hk : k = i
      · rw [hj, hk]
      · rw [hj, hself] at ha
        rw [hother k hk] at hb
        exact absurd hb ((hheld a ha).2 k hk)
    · rw [hother j hj] at ha
      by_cases hk : k = i
      · rw [hk, hself] at hb
        exact absurd ha ((hheld a hb).2 j hj)
      · rw [hother k hk] at hb
        exact h.holder j k a ha hb
  case pusher => exact honly _ h.pusher hpush
  case popper => exact honly _ h.popper hpop
  case tail =>
    intro hnone
    refine htail (hself ▸ hnone i) fun j hj => ?_
    rw [← hother j hj]
    exact hnone j
  case knows =>
    intro j
    by_cases hj : j = i
    · rw [hj, hself]
      exact hknows
    · rw [hother j hj]
      exact hothers j hj (h.knows j)

theorem allocated_split (h : Chain s nodes) (i : Fin n) (a : NodeId) : (s.heap a).isSome ↔
    a ∈ nodes ∨ (s.op i).held = some a ∨ ∃ j, j ≠ i ∧ (s.op j).held = some a := by
  refine (h.allocated a).trans (or_congr Iff.rfl ⟨?_, ?_⟩)
  · rintro ⟨j, ha⟩
    by_cases hj : j = i
    · exact Or.inl (hj ▸ ha)
    · exact Or.inr ⟨j, hj, ha⟩
  · rintro (ha | ⟨j, -, ha⟩)
    · exact ⟨i, ha⟩
    · exact ⟨j, ha⟩

/-- The thread goes on to `o`, and nothing else changes. -/
theorem setOp (h : Chain s nodes) (hheld : o.held = (s.op i).held)
    (hpush : o.pushing = true → ∀ j, j ≠ i → (s.op j).pushing = false)
    (hpop : o.popping = true → ∀ j, j ≠ i → (s.op j).popping = false)
    (hswing : ¬ Swinging (s.op i)) (hknows : s.Knows nodes o) : Chain (s.setOp i o) nodes := by
  refine h.change (s.setOp_op i · o) h.linked h.nodup h.first h.items ?_ ?_
    (fun j a _ => h.heldOut j a) hpush hpop ?_ hknows fun _ _ hk => hk
  · intro a
    rw [hheld]
    exact h.allocated_split i a
  · intro a ha
    rw [hheld] at ha
    exact ⟨h.heldOut i a ha, fun j hj hb => hj (h.holder j i a hb ha)⟩
  · intro _ hnone
    apply h.tail
    intro j
    by_cases hj : j = i
    · exact hj ▸ hswing
    · exact hnone j hj

theorem not_pushing (h : Chain s nodes) (hi : (s.op i).pushing = true) {j : Fin n} (hj : j ≠ i) :
    (s.op j).pushing = false :=
  Bool.eq_false_iff.mpr fun hpush => hj (h.pusher j i hpush hi)

theorem not_popping (h : Chain s nodes) (hi : (s.op i).popping = true) {j : Fin n} (hj : j ≠ i) :
    (s.op j).popping = false :=
  Bool.eq_false_iff.mpr fun hpop => hj (h.popper j i hpop hi)

/-- `head` points to the first node. -/
theorem head_cons (h : Chain s nodes) :
    ∃ a rest, nodes = a :: rest ∧ s.head = some a ∧ Linked s.next (s.next a) rest := by
  have hlinked := h.linked
  cases nodes with
  | nil => exact absurd rfl h.first
  | cons a rest => exact ⟨a, rest, rfl, hlinked.1, hlinked.2⟩

theorem node (h : Chain s nodes) {a : NodeId} (ha : a ∈ nodes) : ∃ node, s.heap a = some node :=
  Option.isSome_iff_exists.mp ((h.allocated a).mpr (Or.inl ha))

theorem held_node (h : Chain s nodes) {a : NodeId} (ha : (s.op i).held = some a) :
    ∃ node, s.heap a = some node :=
  Option.isSome_iff_exists.mp ((h.allocated a).mpr (Or.inr ⟨i, ha⟩))

theorem items_length (h : Chain s nodes) : s.items.length + 1 = nodes.length := by
  have hlen := congrArg List.length h.items
  have hpos := List.length_pos_of_ne_nil h.first
  simp only [List.length_map, List.length_tail] at hlen
  omega

theorem items_nil (h : Chain s nodes) {a : NodeId} (ha : s.head = some a) :
    s.items = [] ↔ s.next a = none := by
  obtain ⟨b, rest, rfl, hb, hrest⟩ := h.head_cons
  obtain rfl : a = b := Option.some.inj (ha.symm.trans hb)
  have hlen := h.items_length
  constructor
  · intro hnil
    rw [hnil] at hlen
    obtain rfl : rest = [] := List.length_eq_zero_iff.mp (by simpa using hlen.symm)
    exact hrest
  · intro hnone
    rw [hnone, Linked.nil_iff] at hrest
    rw [hrest] at hlen
    exact List.length_eq_zero_iff.mp (by simpa using hlen)

theorem tail_last (h : Chain s nodes) (hi : (s.op i).pushing = true) (hswing : ¬ Swinging (s.op i)) :
    s.tail = nodes.getLast? := by
  apply h.tail
  intro j
  by_cases hj : j = i
  · exact hj ▸ hswing
  · rintro ⟨t, q, p, op⟩
    have hpush := h.not_pushing hi hj
    rw [op] at hpush
    cases hpush

theorem newNode (h : Chain s nodes) {t : TaskId} {q : NodeId} (hi : s.op i = .pushNew t)
    (hfree : s.heap q = none) : Chain (s.newNode i t q) nodes := by
  have hpush : (s.op i).pushing = true := by rw [hi]; rfl
  have hq : q ∉ nodes := by
    intro hmem
    obtain ⟨node, hnode⟩ := h.node hmem
    rw [hfree] at hnode
    cases hnode
  have hq' : ∀ j, (s.op j).held ≠ some q := by
    intro j hj
    obtain ⟨node, hnode⟩ := h.held_node hj
    rw [hfree] at hnode
    cases hnode
  have hheap : ∀ a, a ≠ q → (s.newNode i t q).heap a = s.heap a := by
    intro a ha
    rw [newNode_heap, if_neg ha]
  have hnodes : ∀ a ∈ nodes, (s.newNode i t q).heap a = s.heap a :=
    fun a ha => hheap a fun hqa => hq (hqa ▸ ha)
  refine h.change (s.newNode_op i · t q) ?_ h.nodup h.first ?_ ?_ ?_ (fun j a _ => h.heldOut j a)
    (fun _ j hj => h.not_pushing hpush hj) (fun hpop => by cases hpop) ?_ ?_ ?_
  · exact h.linked.congr fun a ha => next_congr (hnodes a ha)
  · rw [← show s.items = (s.newNode i t q).items from rfl, ← h.items]
    exact List.map_congr_left fun a ha => task_congr (hnodes a (List.mem_of_mem_tail ha))
  · intro a
    have hold := h.allocated_split i a
    rw [hi] at hold
    rw [newNode_heap]
    by_cases ha : a = q
    · simp [ha, QueueOp.held]
    · rw [if_neg ha, hold]
      simp [QueueOp.held, Ne.symm ha]
  · intro a ha
    obtain rfl : q = a := Option.some.inj ha
    exact ⟨hq, fun j _ => hq' j⟩
  · intro _ _
    exact h.tail_last hpush (by rw [hi]; rintro ⟨t, q, p, op⟩; cases op)
  · show (s.newNode i t q).heap q = _
    rw [newNode_heap, if_pos rfl]
  · intro j hj hk
    refine hk.of_push (h.not_pushing hpush hj) rfl id fun a ha => next_congr (hheap a ?_)
    rintro rfl
    rcases ha with ⟨hhead, -⟩ | hheld
    · obtain ⟨b, rest, rfl, hb, -⟩ := h.head_cons
      obtain rfl : a = b := Option.some.inj (hhead.symm.trans hb)
      exact hq List.mem_cons_self
    · exact hq' j hheld

theorem link (h : Chain s nodes) {t : TaskId} {q p : NodeId} {node : Node}
    (hi : s.op i = .pushNext t q (some p)) (hnode : s.heap p = some node)
    (hlast : node.next = none) : Chain (s.link i t q p node) (nodes ++ [q]) := by
  have hpush : (s.op i).pushing = true := by rw [hi]; rfl
  have hheld : (s.op i).held = some q := by rw [hi]; rfl
  obtain ⟨hq, htail⟩ : s.heap q = some ⟨some t, none⟩ ∧ some p = s.tail := by
    have hk := h.knows i
    rwa [hi] at hk
  have hqn := h.heldOut i q hheld
  have hend : nodes.getLast? = some p := by
    rw [htail]
    exact (h.tail_last hpush (by rw [hi]; rintro ⟨t, q, p, op⟩; cases op)).symm
  obtain ⟨before, rfl⟩ := List.getLast?_eq_some_iff.mp hend
  have hmem : p ∈ before ++ [p] := List.mem_append_right before List.mem_cons_self
  have hpnext : s.next p = none := by rw [next, hnode]; exact hlast
  have hother : ∀ a, a ≠ p → (s.link i t q p node).next a = s.next a := by
    intro a ha
    apply next_congr
    rw [link_heap, if_neg ha]
  have hnext : (s.link i t q p node).next = Function.update s.next p (some q) := by
    funext a
    by_cases ha : a = p
    · rw [ha, Function.update_self, next, link_heap, if_pos rfl]
      rfl
    · rw [Function.update_of_ne ha, hother a ha]
  have htask : ∀ a, (s.link i t q p node).task a = s.task a := by
    intro a
    rw [task, link_heap]
    by_cases ha : a = p
    · rw [if_pos ha, ha, task, hnode]
      rfl
    · rw [if_neg ha, task]
  refine h.change (s.link_op i · t q p node) ?_ ?_ ?_ ?_ ?_ (fun a ha => by cases ha) ?_
    (fun _ j hj => h.not_pushing hpush hj) (fun hpop => by cases hpop) ?_ ?_ ?_
  · rw [hnext]
    apply h.linked.snoc h.nodup hqn
    rw [next, hq]
    rfl
  · exact h.nodup.append (List.nodup_singleton q)
      (List.disjoint_singleton.mpr hqn)
  · exact List.append_ne_nil_of_right_ne_nil _ (List.cons_ne_nil q [])
  · rw [List.tail_append_of_ne_nil h.first, List.map_append]
    show _ = (s.items ++ [t]).map some
    have hqtask : (s.link i t q p node).task q = some t := by
      rw [htask, task, hq]
      rfl
    rw [List.map_append, ← h.items, List.map_congr_left fun a _ => htask a, List.map_singleton,
      hqtask]
    rfl
  · intro a
    have hold := h.allocated_split i a
    rw [hheld] at hold
    have hsome : ((s.link i t q p node).heap a).isSome = (s.heap a).isSome := by
      rw [link_heap]
      by_cases ha : a = p
      · rw [if_pos ha, ha, hnode]
        rfl
      · rw [if_neg ha]
    have hnew : a ∈ before ++ [p] ++ [q] ↔ a ∈ before ++ [p] ∨ some q = some a := by
      rw [List.mem_append, List.mem_singleton, Option.some.injEq, eq_comm (a := a)]
    rw [hsome, hold, hnew, or_assoc]
    show _ ↔ _ ∨ _ ∨ none = some a ∨ _
    simp only [reduceCtorEq, false_or]
  · intro j a hj ha hin
    rcases List.mem_append.mp hin with hin | hin
    · exact h.heldOut j a ha hin
    · obtain rfl := List.mem_singleton.mp hin
      exact hj (h.holder j i a ha hheld)
  · intro hno
    exact absurd ⟨t, q, some p, rfl⟩ hno
  · exact ⟨List.getLast?_concat, htail.symm⟩
  · intro j hj hk
    refine hk.of_push (h.not_pushing hpush hj) rfl (fun _ => ?_) fun a ha => hother a ?_
    · exact List.append_ne_nil_of_right_ne_nil _ (List.cons_ne_nil t [])
    · -- behind the last node there is no item
      rintro rfl
      rcases ha with ⟨hhead, hne⟩ | ha
      · exact hne ((h.items_nil hhead).mpr hpnext)
      · exact h.heldOut j a ha hmem

theorem swing (h : Chain s nodes) {t : TaskId} {q : NodeId} {p : Option NodeId}
    (hi : s.op i = .pushSwing t q p) : Chain (s.swing i t q p) nodes := by
  have hpush : (s.op i).pushing = true := by rw [hi]; rfl
  obtain ⟨hlast, htail⟩ : nodes.getLast? = some q ∧ s.tail = p := by
    have hk := h.knows i
    rwa [hi] at hk
  refine h.change (s.swing_op i · t q p) h.linked h.nodup h.first h.items ?_
    (fun a ha => by cases ha) (fun j a _ => h.heldOut j a) (fun hpush => by cases hpush)
    (fun hpop => by cases hpop) ?_ trivial ?_
  · intro a
    have hold := h.allocated_split i a
    rwa [hi] at hold
  · intro _ _
    show (if s.tail = p then some q else s.tail) = _
    rw [if_pos htail, hlast]
  · intro j hj hk
    exact hk.of_push (h.not_pushing hpush hj) rfl id fun a _ => rfl

/-- The first node goes, and the next one becomes the one that has been used. -/
theorem advance (h : Chain s nodes) {p next : Option NodeId} (hi : s.op i = .popCas p next) :
    Chain (s.advance i p next) nodes.tail := by
  have hpop : (s.op i).popping = true := by rw [hi]; rfl
  obtain ⟨hp, hne, hnext⟩ : p = s.head ∧ s.items ≠ [] ∧ next = p.bind s.next := by
    have hk := h.knows i
    rwa [hi] at hk
  obtain ⟨a, rest, rfl, ha, hrest⟩ := h.head_cons
  rw [ha] at hp
  rw [hp] at hnext
  obtain ⟨harest, hnodup⟩ := List.nodup_cons.mp h.nodup
  have hlen := h.items_length
  have hpos := List.length_pos_of_ne_nil hne
  have hrestne : rest ≠ [] := by
    apply List.ne_nil_of_length_pos
    rw [List.length_cons] at hlen
    omega
  have hlast : rest.getLast? = (a :: rest).getLast? := by
    rw [List.getLast?_cons_of_ne_nil hrestne]
  refine h.change (s.advance_op i · p next) ?_ hnodup hrestne ?_ ?_ ?_ ?_
    (fun hpush => by cases hpush) (fun _ j hj => h.not_popping hpop hj) ?_ ?_ ?_
  · show Linked s.next next rest
    rw [hnext]
    exact hrest
  · show rest.tail.map s.task = s.items.tail.map some
    rw [List.map_tail, List.map_tail, ← h.items]
    rfl
  · intro b
    have hold := h.allocated_split i b
    rw [hi, List.mem_cons] at hold
    show (s.heap b).isSome ↔ b ∈ rest ∨ p = some b ∨ _
    rw [hold, hp, Option.some.injEq, eq_comm (a := a)]
    simp only [QueueOp.held, reduceCtorEq, false_or]
    rw [or_assoc, or_left_comm]
  · intro b hb
    obtain rfl : a = b := Option.some.inj (hp.symm.trans hb)
    exact ⟨harest, fun j _ hj => h.heldOut j a hj List.mem_cons_self⟩
  · intro j b _ hb hin
    exact h.heldOut j b hb (List.mem_cons_of_mem a hin)
  · intro _ hnone
    show s.tail = rest.getLast?
    rw [hlast]
    apply h.tail
    intro j
    by_cases hj : j = i
    · rw [hj, hi]
      rintro ⟨t, q, p, op⟩
      cases op
    · exact hnone j hj
  · refine ⟨by rw [hp]; exact Option.some_ne_none a, ?_⟩
    show p.bind s.next = next
    rw [hnext, hp]
  · intro j hj hk
    exact hk.of_pop (h.not_popping hpop hj) rfl hlast fun b _ => rfl

theorem deleteNode (h : Chain s nodes) {p : NodeId} {t : Option TaskId}
    (hi : s.op i = .popDelete (some p) t) : Chain (s.deleteNode i p t) nodes := by
  have hpop : (s.op i).popping = true := by rw [hi]; rfl
  have hheld : (s.op i).held = some p := by rw [hi]; rfl
  have hp := h.heldOut i p hheld
  have hheap : ∀ a, a ≠ p → (s.deleteNode i p t).heap a = s.heap a := by
    intro a ha
    rw [deleteNode_heap, if_neg ha]
  have hnodes : ∀ a ∈ nodes, (s.deleteNode i p t).heap a = s.heap a :=
    fun a ha => hheap a fun hap => hp (hap ▸ ha)
  refine h.change (s.deleteNode_op i · p t) ?_ h.nodup h.first ?_ ?_ (fun a ha => by cases ha)
    (fun j a _ => h.heldOut j a) (fun hpush => by cases hpush) (fun hpop => by cases hpop) ?_
    trivial ?_
  · exact h.linked.congr fun a ha => next_congr (hnodes a ha)
  · rw [← show s.items = (s.deleteNode i p t).items from rfl, ← h.items]
    exact List.map_congr_left fun a ha => task_congr (hnodes a (List.mem_of_mem_tail ha))
  · intro a
    have hold := h.allocated_split i a
    rw [hheld] at hold
    rw [deleteNode_heap]
    by_cases ha : a = p
    · rw [if_pos ha, ha]
      constructor
      · intro hsome
        cases hsome
      · rintro (hin | hnone | ⟨j, hj, hother⟩)
        · exact absurd hin hp
        · cases hnone
        · exact absurd (h.holder j i p hother hheld) hj
    · rw [if_neg ha, hold]
      simp [QueueOp.held, Ne.symm ha]
  · intro _ hnone
    apply h.tail
    intro j
    by_cases hj : j = i
    · rw [hj, hi]
      rintro ⟨t, q, p, op⟩
      cases op
    · exact hnone j hj
  · intro j hj hk
    refine hk.of_pop (h.not_popping hpop hj) rfl rfl fun a ha => hheap a ?_
    rintro rfl
    exact hj (h.holder j i a ha hheld)

/-- No operation tries again, and none fails because of another one. -/
theorem reads (h : Chain s nodes) (hreads : Reads s (s.op i) o) : Chain (s.setOp i o) nodes := by
  have hk := h.knows i
  have hpush : (s.op i).pushing = true → ∀ j, j ≠ i → (s.op j).pushing = false :=
    fun hi _ hj => h.not_pushing hi hj
  have hpop : (s.op i).popping = true → ∀ j, j ≠ i → (s.op j).popping = false :=
    fun hi _ hj => h.not_popping hi hj
  have hswing : ¬ Swinging (s.op i) := by
    rintro ⟨t, q, p, op⟩
    rw [op] at hreads
    cases hreads
  generalize hi : s.op i = o₀ at hreads hk hpush hpop
  have hkeep := fun (hheld : o.held = o₀.held) hpush' hpop' hknows =>
    h.setOp (i := i) (hi ▸ hheld) hpush' hpop' hswing hknows
  cases hreads with
  | tail => exact hkeep rfl (fun _ => hpush rfl) (fun hpop => by cases hpop) ⟨hk, rfl⟩
  | retry found linked => exact hkeep rfl (fun _ => hpush rfl) (fun hpop => by cases hpop) hk.1
  | head => exact hkeep rfl (fun hpush => by cases hpush) (fun _ => hpop rfl) rfl
  | empty found last =>
      exact hkeep rfl (fun hpush => by cases hpush) (fun hpop => by cases hpop) trivial
  | @test p node found linked =>
      refine hkeep rfl (fun hpush => by cases hpush) (fun _ => hpop rfl) ⟨hk, ?_⟩
      obtain ⟨a, rest, -, ha, -⟩ := h.head_cons
      rw [show p = some a from Eq.trans hk ha] at found
      rw [Ne, h.items_nil ha, next, show s.heap a = some node from found]
      exact linked
  | @next p node found =>
      refine hkeep rfl (fun hpush => by cases hpush) (fun _ => hpop rfl) ⟨hk.1, hk.2, ?_⟩
      cases p with
      | none => cases found
      | some a => exact (congrArg (·.bind Node.next) found).symm
  | fail moved => exact hkeep rfl (fun hpush => by cases hpush) (fun hpop => by cases hpop) trivial
  | @read p node found =>
      refine hkeep rfl (fun hpush => by cases hpush) (fun _ => hpop rfl) ⟨hk.1, ?_⟩
      cases p with
      | none => cases found
      | some a => exact (congrArg (·.bind Node.next) found).symm.trans hk.2
  | task found => exact hkeep rfl (fun hpush => by cases hpush) (fun _ => hpop rfl) hk.1

end Chain

theorem chain_change {nodes : List NodeId} (h : Chain s nodes) (hs : Change s i s') :
    ∃ nodes', Chain s' nodes' := by
  cases hs with
  | reads hreads => exact ⟨nodes, h.reads hreads⟩
  | new op free => exact ⟨nodes, h.newNode op free⟩
  | link op found last => exact ⟨_, h.link op found last⟩
  | swing op => exact ⟨nodes, h.swing op⟩
  | advance op top => exact ⟨_, h.advance op⟩
  | delete op => exact ⟨nodes, h.deleteNode op⟩

theorem QueueOp.held_rest {o : QueueOp} (hpush : o.pushing = false) (hpop : o.popping = false) :
    o.held = none := by
  cases o with
  | pushTail t q => cases hpush
  | pushNext t q p => cases hpush
  | popRead p => cases hpop
  | popTask p next => cases hpop
  | popDelete p t => cases hpop
  | idle => rfl
  | pushNew t => rfl
  | pushSwing t q p => rfl
  | pushed t => rfl
  | popHead => rfl
  | popTest p => rfl
  | popNext p => rfl
  | popCas p next => rfl
  | popped t => rfl

theorem not_swinging {o : QueueOp} (hpush : o.pushing = false) : ¬ Swinging o := by
  rintro ⟨t, q, p, rfl⟩
  cases hpush

theorem chain_act {nodes : List NodeId} {a : QueueAct n} (h : Chain s nodes)
    (horder : s.Orderly a) (hs : s.act a = some s') : ∃ nodes', Chain s' nodes' := by
  obtain ⟨hproper, halone⟩ := horder
  cases a with
  | push i t =>
      cases hs
      exact ⟨nodes, h.setOp (QueueOp.held_rest hproper.1 hproper.2).symm (fun _ j _ => halone j)
        (fun hpop => by cases hpop) (not_swinging hproper.1) trivial⟩
  | tryPop i =>
      cases hs
      exact ⟨nodes, h.setOp (QueueOp.held_rest hproper.1 hproper.2).symm
        (fun hpush => by cases hpush) (fun _ j _ => halone j) (not_swinging hproper.1) trivial⟩
  | step i fresh => exact chain_change h (step_change hproper hs)

/-- An operation under way goes on, touches no node that is not allocated, and comes closer to
its return. -/
theorem Chain.progress {nodes : List NodeId} (h : Chain s nodes)
    (hbusy : (s.op i).pushing = true ∨ (s.op i).popping = true) :
    ∃ s', s.step i fresh = some s' ∧ (s'.op i).left < (s.op i).left := by
  have hk := h.knows i
  have hheld : ∀ a, (s.op i).held = some a → ∃ node, s.heap a = some node :=
    fun a ha => h.held_node ha
  obtain ⟨a, rest, hnodes, ha, -⟩ := h.head_cons
  obtain ⟨first, hfirst⟩ := h.node (a := a) (hnodes ▸ List.mem_cons_self)
  have hset : ∀ (o : QueueOp) (k : Nat), o.left < k →
      ∃ s', some (s.setOp i o) = some s' ∧ (s'.op i).left < k := by
    intro o k hlt
    refine ⟨_, rfl, ?_⟩
    rwa [setOp_op, if_pos rfl]
  unfold step
  cases hi : s.op i with
  | idle => simp [hi, QueueOp.pushing, QueueOp.popping] at hbusy
  | pushed t => simp [hi, QueueOp.pushing, QueueOp.popping] at hbusy
  | popped t => simp [hi, QueueOp.pushing, QueueOp.popping] at hbusy
  | pushNew t =>
      refine ⟨_, rfl, ?_⟩
      rw [newNode_op, if_pos rfl]
      exact Nat.lt_succ_self _
  | pushTail t q => exact hset _ _ (Nat.lt_succ_self _)
  | pushNext t q p =>
      rw [hi] at hk
      obtain ⟨-, hp⟩ := hk
      have hlast := h.tail_last (i := i) (by rw [hi]; rfl)
        (by rw [hi]; rintro ⟨t, q, p, op⟩; cases op)
      rw [← hp] at hlast
      cases p with
      | none => exact absurd (List.getLast?_eq_none_iff.mp hlast.symm) h.first
      | some b =>
          obtain ⟨before, rfl⟩ := List.getLast?_eq_some_iff.mp hlast.symm
          obtain ⟨node, hnode⟩ := h.node (List.mem_append_right before List.mem_cons_self)
          have hend : node.next = none := by
            have hnext := h.linked.next_last
            rwa [next, hnode] at hnext
          simp only [hnode, Option.map_some, if_pos hend]
          refine ⟨_, rfl, ?_⟩
          rw [link_op, if_pos rfl]
          exact Nat.lt_succ_self _
  | pushSwing t q p =>
      refine ⟨_, rfl, ?_⟩
      rw [swing_op, if_pos rfl]
      exact Nat.lt_succ_self _
  | popHead => exact hset _ _ (Nat.lt_succ_self _)
  | popTest p =>
      rw [hi] at hk
      simp only [deref, show p = s.head from hk, ha, Option.bind_some, hfirst, Option.map_some]
      split
      · exact hset _ _ (Nat.zero_lt_succ _)
      · exact hset _ _ (Nat.lt_succ_self _)
  | popNext p =>
      rw [hi] at hk
      simp only [deref, hk.1, ha, Option.bind_some, hfirst, Option.map_some]
      exact hset _ _ (Nat.lt_succ_self _)
  | popCas p next =>
      rw [hi] at hk
      simp only [hk.1, if_true]
      refine ⟨_, rfl, ?_⟩
      rw [advance_op, if_pos rfl]
      exact Nat.lt_succ_self _
  | popRead p =>
      rw [hi] at hk
      obtain ⟨b, rfl⟩ := Option.ne_none_iff_exists'.mp hk.1
      obtain ⟨node, hnode⟩ := hheld b (by rw [hi]; rfl)
      simp only [deref, Option.bind_some, hnode, Option.map_some]
      exact hset _ _ (Nat.lt_succ_self _)
  | popTask p next =>
      rw [hi] at hk
      simp only [deref, hk.2, ha, Option.bind_some, hfirst, Option.map_some]
      exact hset _ _ (Nat.lt_succ_self _)
  | popDelete p t =>
      rw [hi] at hk
      obtain ⟨b, rfl⟩ := Option.ne_none_iff_exists'.mp hk
      obtain ⟨node, hnode⟩ := hheld b (by rw [hi]; rfl)
      simp only [hnode, Option.map_some]
      refine ⟨_, rfl, ?_⟩
      rw [deleteNode_op, if_pos rfl]
      exact Nat.lt_succ_self _

/-! ## What a step shows -/

/-- Only a pop that has taken effect looks at the first node. -/
theorem QueueOp.shown_front {o : QueueOp} (hpop : o.popping = false)
    (front front' : Option TaskId) : o.shown front = o.shown front' := by
  cases o with
  | popRead p => cases hpop
  | popTask p next => cases hpop
  | idle => rfl
  | pushNew t => rfl
  | pushTail t q => rfl
  | pushNext t q p => rfl
  | pushSwing t q p => rfl
  | pushed t => rfl
  | popHead => rfl
  | popTest p => rfl
  | popNext p => rfl
  | popCas p next => rfl
  | popDelete p t => rfl
  | popped t => rfl

theorem front_eq {a : NodeId} (ha : s.head = some a) : s.front = s.task a := by
  rw [front, deref, ha]
  rfl

/-- One thread goes on, and the others show what they showed. -/
theorem shown_update {o : QueueOp} (hop : ∀ j, s'.op j = if j = i then o else s.op j)
    (hfront : ∀ j, j ≠ i → (s.op j).shown s'.front = (s.op j).shown s.front) :
    s'.shown = { object := s'.items,
                 status := Function.update s.shown.status i (o.shown s'.front) } := by
  have hstatus : s'.shown.status = Function.update s.shown.status i (o.shown s'.front) := by
    funext j
    show (s'.op j).shown s'.front = _
    rw [hop, Function.update_apply]
    by_cases hj : j = i
    · rw [if_pos hj, if_pos hj]
    · rw [if_neg hj, if_neg hj]
      exact hfront j hj
  rw [← hstatus]
  rfl

/-- Nothing shows. -/
theorem shown_same {o : QueueOp} (hop : ∀ j, s'.op j = if j = i then o else s.op j)
    (hfront : s'.front = s.front) (hitems : s'.items = s.items)
    (hsame : o.shown s.front = (s.op i).shown s.front) : s'.shown = s.shown := by
  rw [shown_update hop fun j _ => by rw [hfront], hfront, hitems, hsame]
  show (⟨s.items, Function.update s.shown.status i (s.shown.status i)⟩ : Atomic _ _ _ n) = s.shown
  rw [Function.update_eq_self]
  rfl

/-- An operation takes effect. -/
theorem shown_effect {o : QueueOp} {c : QueueCall}
    (hop : ∀ j, s'.op j = if j = i then o else s.op j)
    (hfront : ∀ j, j ≠ i → (s.op j).shown s'.front = (s.op j).shown s.front)
    (hcall : (s.op i).shown s.front = .called c) (hitems : s'.items = (fifo s.items c).1)
    (hresult : o.shown s'.front = .done (fifo s.items c).2) :
    Atomic.act fifo s.shown (.effect i) = some s'.shown := by
  rw [Atomic.act_effect (show s.shown.status i = .called c from hcall), shown_update hop hfront,
    hitems, hresult]
  rfl

/-- An operation begins. -/
theorem shown_call {o : QueueOp} {c : QueueCall} (hpush : (s.op i).pushing = false)
    (hpop : (s.op i).popping = false) (hcall : o.shown s.front = .called c) :
    Atomic.act fifo s.shown (.call i c) = some (s.setOp i o).shown := by
  have hready : ∀ c, s.shown.status i ≠ .called c := by
    intro c hc
    have hc : (s.op i).shown s.front = .called c := hc
    cases hi : s.op i with
    | idle => rw [hi] at hc; cases hc
    | pushed t => rw [hi] at hc; cases hc
    | popped t => rw [hi] at hc; cases hc
    | _ => simp [hi, QueueOp.pushing, QueueOp.popping] at hpush hpop
  rw [Atomic.act_call hready, shown_update (s.setOp_op i · o) fun _ _ => rfl]
  exact congrArg (fun called => some (⟨s.items, Function.update s.shown.status i called⟩ :
    Atomic _ _ _ n)) hcall.symm

theorem Chain.front_congr {nodes : List NodeId} (h : Chain s nodes) (hhead : s'.head = s.head)
    (htask : ∀ a ∈ nodes, s'.task a = s.task a) : s'.front = s.front := by
  obtain ⟨a, rest, rfl, ha, -⟩ := h.head_cons
  rw [front_eq ha, front_eq (hhead.trans ha)]
  exact htask a List.mem_cons_self

theorem Chain.shows_reads {nodes : List NodeId} {o : QueueOp} (h : Chain s nodes)
    (hreads : Reads s (s.op i) o) : (s.setOp i o).shown = s.shown ∨
      ∃ b, Atomic.act fifo s.shown b = some (s.setOp i o).shown := by
  have hk := h.knows i
  have hsame : o.shown s.front = (s.op i).shown s.front → (s.setOp i o).shown = s.shown :=
    shown_same (s.setOp_op i · o) rfl rfl
  have heffect := fun c => shown_effect (c := c) (s.setOp_op i · o) fun _ _ => rfl
  obtain ⟨a, rest, -, ha, -⟩ := h.head_cons
  generalize hi : s.op i = o₀ at hreads hk hsame heffect
  cases hreads with
  | tail => exact Or.inl (hsame rfl)
  | retry found linked => exact Or.inl (hsame rfl)
  | head => exact Or.inl (hsame rfl)
  | @empty p node found last =>
      rw [show p = some a from Eq.trans hk ha] at found
      have hnil : s.items = [] := by
        rw [h.items_nil ha, next, show s.heap a = some node from found]
        exact last
      refine Or.inr ⟨.effect i, heffect .tryPop rfl ?_ ?_⟩
      · rw [hnil]
        exact hnil
      · rw [hnil]
        rfl
  | test found linked => exact Or.inl (hsame rfl)
  | next found => exact Or.inl (hsame rfl)
  | fail moved => exact absurd hk.1.symm moved
  | read found => exact Or.inl (hsame rfl)
  | @task p next node found =>
      -- the node that is read is the first one
      rw [hk.2] at found
      apply Or.inl (hsame _)
      show Called.done (QueueResult.popped (some node.t)) = .done (.popped (some s.front))
      rw [front, found]
      rfl

theorem Chain.shows {nodes : List NodeId} (h : Chain s nodes) (hs : Change s i s') :
    s'.shown = s.shown ∨ ∃ b, Atomic.act fifo s.shown b = some s'.shown := by
  cases hs with
  | reads hreads => exact h.shows_reads hreads
  | @new t q op free =>
      refine Or.inl (shown_same (s.newNode_op i · t q) (h.front_congr rfl ?_) rfl ?_)
      · intro a ha
        apply task_congr
        rw [newNode_heap, if_neg]
        rintro rfl
        obtain ⟨node, hnode⟩ := h.node ha
        rw [free] at hnode
        cases hnode
      · rw [op]
        rfl
  | @link t q p node op found last =>
      have hfront : (s.link i t q p node).front = s.front := by
        apply h.front_congr (show (s.link i t q p node).head = s.head from rfl)
        intro a _
        rw [task, task, link_heap]
        by_cases ha : a = p
        · rw [if_pos ha, ha, found]
          rfl
        · rw [if_neg ha]
      refine Or.inr ⟨.effect i, shown_effect (c := .push t) (s.link_op i · t q p node)
        (fun _ _ => by rw [hfront]) ?_ rfl rfl⟩
      rw [op]
      rfl
  | @swing t q p op =>
      refine Or.inl (shown_same (s.swing_op i · t q p) rfl rfl ?_)
      rw [op]
      rfl
  | @advance p next op top =>
      have hpop : (s.op i).popping = true := by rw [op]; rfl
      have hk := h.knows i
      rw [op] at hk
      obtain ⟨hp, hne, hnext⟩ := hk
      obtain ⟨t, items, hcons⟩ := List.exists_cons_of_ne_nil hne
      -- the new first node is that of the first item
      have hfront : (s.advance i p next).front = some t := by
        obtain ⟨a, rest, rfl, ha, hrest⟩ := h.head_cons
        have hitems := h.items
        rw [hcons] at hitems
        obtain ⟨b, rest', rfl, hb, -⟩ := List.map_eq_cons_iff.mp hitems
        rw [hp, ha] at hnext
        rw [front_eq (a := b)]
        · exact hb
        · exact hnext.trans hrest.1
      refine Or.inr ⟨.effect i, shown_effect (c := .tryPop) (s.advance_op i · p next) ?_ ?_ ?_ ?_⟩
      · exact fun j hj => QueueOp.shown_front (h.not_popping hpop hj) _ _
      · rw [op]
        rfl
      · show s.items.tail = _
        rw [hcons]
        rfl
      · rw [hcons]
        show Called.done (QueueResult.popped (some (s.advance i p next).front)) = _
        rw [hfront]
        rfl
  | @delete p t op =>
      refine Or.inl (shown_same (s.deleteNode_op i · p t) (h.front_congr rfl ?_) rfl ?_)
      · intro a ha
        apply task_congr
        rw [deleteNode_heap, if_neg]
        rintro rfl
        exact h.heldOut i a (by rw [op]; rfl) ha
      · rw [op]
        rfl

theorem queue_refines_step : Refines
    (fun (s : ConcurrentQueue n) a => if s.Orderly a then s.act a else none) (Atomic.act fifo)
    shown (fun s => ∃ nodes, Chain s nodes) where
  keeps := by
    rintro s a s' ⟨nodes, h⟩ hs
    obtain ⟨horder, hs⟩ := Option.ite_none_right_eq_some.mp hs
    exact chain_act h horder hs
  shows := by
    rintro s a s' ⟨nodes, h⟩ hs
    obtain ⟨⟨hproper, -⟩, hs⟩ := Option.ite_none_right_eq_some.mp hs
    cases a with
    | push i t =>
        cases hs
        exact Or.inr ⟨.call i (.push t), shown_call hproper.1 hproper.2 rfl⟩
    | tryPop i =>
        cases hs
        exact Or.inr ⟨.call i .tryPop, shown_call hproper.1 hproper.2 rfl⟩
    | step i fresh => exact h.shows (step_change hproper hs)

/-- Thread 0 has read `tail` when thread 1 pushes and thread 2 pops: the node behind its `p` is
deleted before it comes to `p->next`. -/
theorem overlapping_pushes : ∃ acts : List (QueueAct 3), ∃ s : ConcurrentQueue 3,
    (initial 3 0).run Proper acts = some s ∧ s.Proper (.step 0 3) ∧ s.step 0 3 = none := by
  have hrun : ((initial 3 0).run Proper
      ([.push 0 7, .step 0 1, .step 0 2, .push 1 8, .step 1 2] ++ .replicate 3 (.step 1 3) ++
        [.tryPop 2] ++ .replicate 7 (.step 2 3))).map
      (fun s => decide (s.Proper (.step 0 3)) && (s.step 0 3).isNone) = some true := by decide
  obtain ⟨s, hs, hshow⟩ := Option.map_eq_some_iff.mp hrun
  obtain ⟨hproper, hnone⟩ := Bool.and_eq_true_iff.mp hshow
  exact ⟨_, s, hs, of_decide_eq_true hproper, Option.isNone_iff_eq_none.mp hnone⟩

end ConcurrentQueue

end AceMesh
