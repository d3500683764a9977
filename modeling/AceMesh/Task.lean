import Mathlib.Data.List.Nodup
import Mathlib.Logic.Function.Basic

/-!
# Task objects

`task.h` and `aceMesh_task.cpp`: the objects of the runtime, the counters they carry and
the two functions that record an edge. An object is named by a number, in the order of the
`new` expressions that made it, and the heap maps these names to the fields. A `task*` that
may be `NULL` is an `Option`.

`outs` lists the edges of a task in the order in which `aceMesh_task::execute` walks them:
first `successor_tasks`, then `vertical_task`. `AddsEdge` says all that `add_successor` and
`set_vertical_task` can do; everything proved about the graph goes through it.
-/

namespace AceMesh

/-- The identity of a task object. -/
abbrev TaskId := Nat

/-- The fields of `task` and `aceMesh_task` that the modelled functions use. -/
structure Task where
  /-- `aceMesh_task` (`true`) or `empty_task`: what `dynamic_cast` and `execute` look at. -/
  isAceMesh : Bool
  refCount : Int
  backupRef : Int
  reused : Bool
  stored : Bool
  affinityId : Int
  successorTasks : List TaskId
  verticalTask : Option TaskId
  /-- The object has been deleted. -/
  deleted : Bool
  deriving DecidableEq, Repr

abbrev Heap := TaskId → Task

def NO_SET_AFFINITY : Int := -1
def FOLLOW_AFFINITY : Int := -2

/-- What `task::task` leaves in the memory it is given: it sets neither `reused` nor
`backup_ref`. -/
structure Junk where
  reused : Bool
  backupRef : Int

/-- `new aceMesh_task`. -/
def Task.newAceMesh (junk : Junk) : Task where
  isAceMesh := true
  refCount := 0
  backupRef := junk.backupRef
  reused := junk.reused
  stored := false
  affinityId := NO_SET_AFFINITY
  successorTasks := []
  verticalTask := none
  deleted := false

/-- `new empty_task()`. The class declares no constructor, so the object is zero before
`task::task` runs. -/
def Task.newEmpty : Task :=
  { Task.newAceMesh ⟨false, 0⟩ with isAceMesh := false }

namespace Heap

/-- Change one object. -/
def modify (h : Heap) (t : TaskId) (f : Task → Task) : Heap :=
  Function.update h t (f (h t))

@[simp] theorem modify_self (h : Heap) (t : TaskId) (f : Task → Task) :
    h.modify t f t = f (h t) := Function.update_self ..

theorem modify_of_ne (h : Heap) {t u : TaskId} (hne : u ≠ t) (f : Task → Task) :
    h.modify t f u = h u := Function.update_of_ne hne ..

theorem modify_apply (h : Heap) (t u : TaskId) (f : Task → Task) :
    h.modify t f u = if u = t then f (h u) else h u := by
  by_cases hu : u = t
  · subst hu; simp
  · rw [modify_of_ne h hu, if_neg hu]

def incrementRefCount (h : Heap) (t : TaskId) : Heap :=
  h.modify t fun o => { o with refCount := o.refCount + 1 }

def decrementRefCount (h : Heap) (t : TaskId) : Heap :=
  h.modify t fun o => { o with refCount := o.refCount - 1 }

def storeRefCount (h : Heap) (t : TaskId) : Heap :=
  h.modify t fun o => { o with backupRef := o.refCount }

def restoreRefCount (h : Heap) (t : TaskId) : Heap :=
  h.modify t fun o => { o with refCount := o.backupRef }

def setReusedFlag (h : Heap) (t : TaskId) (val : Bool) : Heap :=
  h.modify t fun o => { o with reused := val }

def setStored (h : Heap) (t : TaskId) (val : Bool) : Heap :=
  h.modify t fun o => { o with stored := val }

def setAffinityId (h : Heap) (t : TaskId) (id : Int) : Heap :=
  h.modify t fun o => { o with affinityId := id }

/-- `delete t`. The fields keep what they held. -/
def delete (h : Heap) (t : TaskId) : Heap :=
  h.modify t fun o => { o with deleted := true }

/-- `this->successor_tasks.push_back(t)`. -/
def pushSuccessor (h : Heap) (this t : TaskId) : Heap :=
  h.modify this fun o => { o with successorTasks := o.successorTasks ++ [t] }

/-- `this->vertical_task = t`. -/
def assignVertical (h : Heap) (this t : TaskId) : Heap :=
  h.modify this fun o => { o with verticalTask := some t }

/-- `aceMesh_task::add_end_successor`: the vertical slot is overwritten without a look. -/
def addEndSuccessor (h : Heap) (this t : TaskId) : Heap :=
  (h.assignVertical this t).incrementRefCount t

/-- `aceMesh_task::add_successor`. -/
def addSuccessor (h : Heap) (this t : TaskId) : Heap :=
  if t ∈ (h this).successorTasks then h
  else if (h this).verticalTask = some t then h
  else (h.pushSuccessor this t).incrementRefCount t

/-- `aceMesh_task::set_vertical_task`: the slot is first come, a later task goes to the
successor list. -/
def setVerticalTask (h : Heap) (this t : TaskId) : Heap :=
  if (h this).verticalTask = some t then h
  else if t ∈ (h this).successorTasks then h
  else if (h this).verticalTask ≠ none then (h.pushSuccessor this t).incrementRefCount t
  else (h.assignVertical this t).incrementRefCount t

end Heap

/-- The edges of a task, in the order in which `execute` walks them. -/
def Task.outs (o : Task) : List TaskId := o.successorTasks ++ o.verticalTask.toList

/-- The fields that recording an edge leaves alone. -/
def Task.attrs (o : Task) : Bool × Int × Bool × Bool × Int × Bool :=
  (o.isAceMesh, o.backupRef, o.reused, o.stored, o.affinityId, o.deleted)

theorem Task.mem_outs {o : Task} {t : TaskId} :
    t ∈ o.outs ↔ t ∈ o.successorTasks ∨ o.verticalTask = some t := by
  simp [Task.outs, Option.mem_toList]

@[simp] theorem Task.outs_newAceMesh (junk : Junk) : (Task.newAceMesh junk).outs = [] := rfl

@[simp] theorem Task.outs_newEmpty : Task.newEmpty.outs = [] := rfl

theorem Task.outs_eq_nil {o : Task} :
    o.outs = [] ↔ o.successorTasks = [] ∧ o.verticalTask = none := by
  cases hv : o.verticalTask <;> simp [Task.outs, hv]

/-! ## Recording one edge -/

/-- All that recording the edge `u → t` does: the edge is there afterwards, no edge is
lost, none comes twice, and the counter of `t` grows exactly if the edge is new. -/
structure AddsEdge (h : Heap) (u t : TaskId) (h' : Heap) : Prop where
  mem_outs : ∀ x, x ∈ (h' u).outs ↔ x ∈ (h u).outs ∨ x = t
  nodup : (h u).outs.Nodup → (h' u).outs.Nodup
  outs_ne : ∀ w, w ≠ u → (h' w).outs = (h w).outs
  refCount : ∀ w, (h' w).refCount =
    (h w).refCount + if w = t ∧ t ∉ (h u).outs then 1 else 0
  attrs : ∀ w, (h' w).attrs = (h w).attrs
  frame : ∀ w, w ≠ u → w ≠ t → h' w = h w

theorem AddsEdge.of_mem {h : Heap} {u t : TaskId} (hmem : t ∈ (h u).outs) : AddsEdge h u t h where
  mem_outs := fun x => ⟨Or.inl, fun hx => hx.elim id fun he => he ▸ hmem⟩
  nodup := id
  outs_ne := fun _ _ => rfl
  refCount := fun w => by simp [hmem]
  attrs := fun _ => rfl
  frame := fun _ _ _ => rfl

/-- A new edge: the list of `u` becomes `o'` with `t` in it once more, and `t` is counted. -/
theorem AddsEdge.of_new {h : Heap} {u t : TaskId} {f : Task → Task} (hmem : t ∉ (h u).outs)
    (hperm : (f (h u)).outs.Perm (t :: (h u).outs)) (hattrs : (f (h u)).attrs = (h u).attrs)
    (hcount : (f (h u)).refCount = (h u).refCount) :
    AddsEdge h u t ((h.modify u f).incrementRefCount t) := by
  have houts : ∀ w, (((h.modify u f).incrementRefCount t) w).outs = ((h.modify u f) w).outs := by
    intro w
    rw [Heap.incrementRefCount, Heap.modify_apply]
    split <;> rfl
  have hself : ((h.modify u f) u).outs = (f (h u)).outs := by rw [Heap.modify_self]
  constructor
  · intro x
    rw [houts, hself, hperm.mem_iff, List.mem_cons, or_comm]
  · intro hnd
    rw [houts, hself, hperm.nodup_iff]
    exact List.nodup_cons.mpr ⟨hmem, hnd⟩
  · intro w hw
    rw [houts, Heap.modify_of_ne h hw]
  · intro w
    have hbase : ((h.modify u f) w).refCount = (h w).refCount := by
      rw [Heap.modify_apply]
      split
      · rename_i hw; rw [hw, hcount]
      · rfl
    rw [Heap.incrementRefCount, Heap.modify_apply]
    split
    · rename_i hw
      subst hw
      simp [hbase, hmem]
    · rename_i hw
      simp [hbase, hw]
  · intro w
    have hbase : ((h.modify u f) w).attrs = (h w).attrs := by
      rw [Heap.modify_apply]
      split
      · rename_i hw; rw [hw, hattrs]
      · rfl
    rw [Heap.incrementRefCount, Heap.modify_apply]
    split
    · exact hbase
    · exact hbase
  · intro w hu ht
    rw [Heap.incrementRefCount, Heap.modify_of_ne _ ht, Heap.modify_of_ne _ hu]

theorem pushSuccessor_addsEdge {h : Heap} {u t : TaskId} (hmem : t ∉ (h u).outs) :
    AddsEdge h u t ((h.pushSuccessor u t).incrementRefCount t) := by
  refine AddsEdge.of_new hmem ?_ rfl rfl
  simp [Task.outs]

theorem addSuccessor_addsEdge (h : Heap) (u t : TaskId) : AddsEdge h u t (h.addSuccessor u t) := by
  unfold Heap.addSuccessor
  split
  · rename_i hs
    exact AddsEdge.of_mem (Task.mem_outs.mpr (Or.inl hs))
  · split
    · rename_i hv
      exact AddsEdge.of_mem (Task.mem_outs.mpr (Or.inr hv))
    · rename_i hs hv
      exact pushSuccessor_addsEdge fun hm => (Task.mem_outs.mp hm).elim hs hv

theorem setVerticalTask_addsEdge (h : Heap) (u t : TaskId) :
    AddsEdge h u t (h.setVerticalTask u t) := by
  unfold Heap.setVerticalTask
  split
  · rename_i hv
    exact AddsEdge.of_mem (Task.mem_outs.mpr (Or.inr hv))
  · split
    · rename_i hs
      exact AddsEdge.of_mem (Task.mem_outs.mpr (Or.inl hs))
    · rename_i hv hs
      have hmem : t ∉ (h u).outs := fun hm => (Task.mem_outs.mp hm).elim hs hv
      split
      · exact pushSuccessor_addsEdge hmem
      · rename_i hnone
        have hnone : (h u).verticalTask = none := by simpa using hnone
        refine AddsEdge.of_new hmem ?_ rfl rfl
        simp [Task.outs, hnone, List.perm_append_singleton]

end AceMesh
