import AceMesh.Resumption

/-!
# Which tasks have been deleted

`scheduler.cpp` deletes a task that is not reused when `execute` has returned, and the end
task when the main thread has seen its counter. A task that has not run in this round is
still there.
-/

open AceMesh.TaskDagGraph AceMesh.Runtime

namespace AceMesh

/-! ## Deletions -/

/-- The task whose body is behind the thread. -/
def Pc.past : Pc → Option TaskId
  | .restore t => some t
  | .loop t _ => some t
  | .push t _ _ => some t
  | .vert t => some t
  | .ret t _ => some t
  | _ => none

/-- The task that the next step deletes. -/
def Pc.deletes (h : Heap) : Pc → Option TaskId
  | .ret t _ => if (h t).reused then none else some t
  | _ => none

theorem Pc.object_of_past {p : Pc} {t : TaskId} (h : p.past = some t) : p.object = some t := by
  cases p with
  | restore u => exact h
  | loop u k => exact h
  | push u k succ => exact h
  | vert u => exact h
  | ret u v => exact h
  | next => cases h
  | hold _ => cases h
  | body _ => cases h

theorem Pc.past_of_deletes {h : Heap} {p : Pc} {t : TaskId} (hp : p.deletes h = some t) :
    p.past = some t ∧ (h t).reused = false := by
  cases p with
  | ret u v =>
      unfold deletes at hp
      dsimp only at hp
      split at hp
      · cases hp
      · rename_i hreused
        cases hp
        exact ⟨rfl, by simpa using hreused⟩
  | next => cases hp
  | hold _ => cases hp
  | body _ => cases hp
  | restore _ => cases hp
  | loop _ _ => cases hp
  | push _ _ _ => cases hp
  | vert _ => cases hp

namespace Runtime

variable {m : Nat} {r r' : Runtime m} {i : Fin (m + 1)} {hit : Bool}

/-- The object that the next step of thread `i` deletes. -/
def deletes (r : Runtime m) (i : Fin (m + 1)) : Option TaskId :=
  if i.val = 0 then
    match r.main with
    | .run _ => (r.pc i).deletes r.heap
    | .left e => if (r.heap e).reused then none else some e
    | _ => none
  else (r.pc i).deletes r.heap

theorem deletes_zero (r : Runtime m) : r.deletes 0 = match r.main with
    | .run _ => (r.pc 0).deletes r.heap
    | .left e => if (r.heap e).reused then none else some e
    | _ => none := if_pos rfl

theorem deletes_of_ne (r : Runtime m) (hi : i ≠ 0) : r.deletes i = (r.pc i).deletes r.heap :=
  if_neg fun h => hi (Fin.ext h)

/-- The next step of thread `i` is the return from `spawn_and_wait`. -/
def returns (r : Runtime m) (i : Fin (m + 1)) : Bool :=
  i.val = 0 && match r.main with
    | .returned _ => true
    | _ => false

/-- The object is one that the thread is behind, or the end task. -/
theorem deletes_cases {t : TaskId} (ht : r.deletes i = some t) :
    (r.heap t).reused = false ∧ ((r.pc i).past = some t ∨ i = 0 ∧ r.main = .left t) := by
  unfold deletes at ht
  split at ht
  · rename_i hi
    split at ht
    · obtain ⟨hpast, hreused⟩ := Pc.past_of_deletes ht
      exact ⟨hreused, Or.inl hpast⟩
    · rename_i e hm
      split at ht
      · cases ht
      · rename_i hreused
        cases ht
        exact ⟨Bool.eq_false_of_not_eq_true hreused, Or.inr ⟨Fin.ext hi, hm⟩⟩
    · cases ht
  · obtain ⟨hpast, hreused⟩ := Pc.past_of_deletes ht
    exact ⟨hreused, Or.inl hpast⟩

theorem deleted_delete (h : Heap) (u t : TaskId) :
    ((if (h u).reused then h else h.delete u) t).deleted = true ↔
      (h t).deleted = true ∨ (if (h u).reused then none else some u) = some t := by
  by_cases hreused : (h u).reused = true
  · simp [hreused]
  · rw [if_neg hreused, if_neg hreused, Heap.delete, Heap.modify_apply]
    by_cases ht : t = u
    · simp [ht]
    · simp [ht, Ne.symm ht]

theorem ThreadStep.deleted (h : ThreadStep r i r') (t : TaskId) :
    (r'.heap t).deleted = true ↔
      (r.heap t).deleted = true ∨ (r.pc i).deletes r.heap = some t := by
  have hsame : (r.pc i).deletes r.heap = none → (r'.heap t).deleted = (r.heap t).deleted →
      ((r'.heap t).deleted = true ↔
        (r.heap t).deleted = true ∨ (r.pc i).deletes r.heap = some t) := by
    intro hp heq
    rw [hp, heq]
    simp
  cases h with
  | wait pc => exact hsame (by rw [pc]; rfl) rfl
  | pop pc _ => exact hsame (by rw [pc]; rfl) rfl
  | start pc _ => exact hsame (by rw [pc]; rfl) rfl
  | skip pc _ => exact hsame (by rw [pc]; rfl) rfl
  | finish pc => exact hsame (by rw [pc]; rfl) rfl
  | arrive pc _ => exact hsame (by rw [pc]; rfl) rfl
  | back pc _ => exact hsame (by rw [pc]; rfl) rfl
  | @restore u pc => exact hsame (by rw [pc]; rfl) (r.heap.deleted_restore u t)
  | release pc _ _ => exact hsame (by rw [pc]; rfl) (r.heap.deleted_decrement _ t)
  | walk pc _ _ => exact hsame (by rw [pc]; rfl) (r.heap.deleted_decrement _ t)
  | releaseVertical pc _ _ => exact hsame (by rw [pc]; rfl) (r.heap.deleted_decrement _ t)
  | walkVertical pc _ _ => exact hsame (by rw [pc]; rfl) (r.heap.deleted_decrement _ t)
  | push pc spawned =>
      obtain ⟨j, rfl⟩ := spawnToId_localSpawn spawned
      exact hsame (by rw [pc]; rfl) rfl
  | @leave u pc =>
      rw [pc]
      exact deleted_delete r.heap u t
  | @leaveFor u succ pc =>
      rw [pc]
      exact deleted_delete r.heap u t

theorem step_deleted (h : r.step i hit = some r') (t : TaskId) :
    (r'.heap t).deleted = true ↔ (r.heap t).deleted = true ∨ r.deletes i = some t := by
  obtain ⟨rfl, hmain⟩ | ⟨hi, hthread⟩ := step_cases h
  · rw [deletes_zero]
    cases hmain with
    | root main spawned =>
        obtain ⟨j, rfl⟩ := spawnToId_localSpawn spawned
        rw [main]
        show (r.heap t).deleted = true ↔ _
        simp
    | enter main =>
        rw [main]
        show (r.heap t).deleted = true ↔ _
        simp
    | test main =>
        rw [main]
        simp
    | run main turn _ =>
        rw [main]
        exact turn.deleted t
    | turnEnd main turn _ =>
        rw [main]
        exact turn.deleted t
    | @leave e main =>
        rw [main]
        exact deleted_delete r.heap e t
    | @back e main =>
        rw [main]
        show ((if (r.heap e).reused then r.heap.restoreRefCount e else r.heap) t).deleted = true ↔ _
        rw [r.heap.deleted_restore e t]
        simp
  · rw [deletes_of_ne r hi]
    exact hthread.deleted t

/-- A task gets behind a thread when its body ends. -/
theorem ThreadStep.past (h : ThreadStep r i r') {t : TaskId} (ht : (r'.pc i).past = some t) :
    (r.pc i).past = some t ∨ r'.log = r.log ++ [.finish t] ∨
      (r.pc i = .hold t ∧ (r.heap t).isAceMesh = false) := by
  have hset : ∀ (r₁ : Runtime m) p, (r₁.setPc i p).pc i = p := fun r₁ p =>
    Function.update_self ..
  cases h with
  | wait pc => exact Or.inl ht
  | pop pc _ =>
      replace ht : ((r.setPc i _).pc i).past = some t := ht
      rw [hset] at ht
      cases ht
  | start pc _ =>
      replace ht : ((r.setPc i _).pc i).past = some t := ht
      rw [hset] at ht
      cases ht
  | skip pc kind =>
      rw [hset] at ht
      cases ht
      exact Or.inr (Or.inr ⟨pc, kind⟩)
  | finish pc =>
      replace ht : ((r.setPc i _).pc i).past = some t := ht
      rw [hset] at ht
      cases ht
      exact Or.inr (Or.inl rfl)
  | restore pc => exact Or.inl (by rw [hset] at ht; rwa [pc])
  | release pc _ _ => exact Or.inl (by rw [hset] at ht; rwa [pc])
  | walk pc _ _ => exact Or.inl (by rw [hset] at ht; rwa [pc])
  | arrive pc _ => exact Or.inl (by rw [hset] at ht; rwa [pc])
  | push pc _ => exact Or.inl (by rw [hset] at ht; rwa [pc])
  | releaseVertical pc _ _ => exact Or.inl (by rw [hset] at ht; rwa [pc])
  | walkVertical pc _ _ => exact Or.inl (by rw [hset] at ht; rwa [pc])
  | back pc _ => exact Or.inl (by rw [hset] at ht; rwa [pc])
  | leave _ =>
      rw [hset] at ht
      cases ht
  | leaveFor _ =>
      rw [hset] at ht
      cases ht

theorem step_past (h : r.step i hit = some r') {t : TaskId} (ht : (r'.pc i).past = some t) :
    (r.pc i).past = some t ∨
      r'.log = r.log ++ [.finish t] ∨ (r.pc i = .hold t ∧ (r.heap t).isAceMesh = false) := by
  obtain ⟨rfl, hmain⟩ | ⟨-, hthread⟩ := step_cases h
  · cases hmain with
    | root _ spawned =>
        obtain ⟨j, rfl⟩ := spawnToId_localSpawn spawned
        exact Or.inl ht
    | enter _ =>
        replace ht : ((r.setPc 0 .next).pc 0).past = some t := ht
        rw [setPc_pc, if_pos rfl] at ht
        cases ht
    | run _ turn _ => exact turn.past ht
    | turnEnd _ turn _ => exact turn.past ht
    | test _ => exact Or.inl ht
    | leave _ => exact Or.inl ht
    | back _ => exact Or.inl ht
  · exact hthread.past ht

/-! ## Tasks that have not run -/

/-- No task that has not run in this round is deleted, and no thread is about to do it. -/
structure Unspent (tasks : List TaskId) (r : Runtime m) : Prop where
  alive : ∀ t ∈ tasks, r.finishes t = 0 → (r.heap t).deleted = false
  past : ∀ i t, (r.pc i).past = some t → t ∈ tasks →
    (r.heap t).reused = true ∨ r.finishes t ≠ 0

theorem Unspent.step {tasks : List TaskId} {r r' : Runtime m} {i : Fin (m + 1)} {hit : Bool}
    (h : Unspent tasks r) (hin : ∀ i, (r.pc i).Inside r.heap)
    (hkind : ∀ t ∈ tasks, (r.heap t).isAceMesh = true)
    (hend : ∀ e, r.main = .left e → e ∉ tasks) (hstep : r.step i hit = some r') :
    Unspent tasks r' := by
  have hmove := step_move hin hstep
  obtain ⟨l, hlog⟩ := hmove.log
  have hfinishes : ∀ t, r'.finishes t = 0 → r.finishes t = 0 := by
    intro t ht
    unfold finishes at ht ⊢
    rw [hlog, List.count_append] at ht
    omega
  constructor
  · intro t ht hfin
    have halive := h.alive t ht (hfinishes t hfin)
    rw [← Bool.not_eq_true, step_deleted hstep t]
    intro hdeleted
    obtain hdeleted | hdeletes := hdeleted
    · rw [halive] at hdeleted
      cases hdeleted
    · obtain ⟨hreused, hpc | ⟨-, hm⟩⟩ := deletes_cases hdeletes
      · obtain hr | hf := h.past i t hpc ht
        · rw [hreused] at hr
          cases hr
        · exact hf (hfinishes t hfin)
      · exact hend t hm ht
  · intro j t hj ht
    have hold : (r.pc j).past = some t → (r'.heap t).reused = true ∨ r'.finishes t ≠ 0 := by
      intro hpast
      rw [hmove.shape.reused]
      exact (h.past j t hpast ht).imp_right fun hne h0 => hne (hfinishes t h0)
    by_cases hji : j = i
    · subst hji
      obtain hpast | hfin | ⟨-, hnot⟩ := step_past hstep hj
      · exact hold hpast
      · right
        unfold finishes
        rw [hfin, List.count_append, List.count_singleton_self]
        omega
      · rw [hkind t ht] at hnot
        cases hnot
    · rw [hmove.others hji] at hj
      exact hold hj

theorem Unspent.of_alive {tasks : List TaskId} {r : Runtime m}
    (halive : ∀ t ∈ tasks, (r.heap t).deleted = false)
    (hpast : ∀ i t, (r.pc i).past = some t → t ∈ tasks → (r.heap t).reused = true) :
    Unspent tasks r where
  alive := fun t ht _ => halive t ht
  past := fun i t hi ht => Or.inl (hpast i t hi ht)

end Runtime

namespace Session

variable {m : Nat} {lo : Int → TaskId} {base a e : TaskId} {s s' : Session m}

theorem Inv.unspent (h : Inv s) {i : Fin (m + 1)} {hit : Bool} {r : Runtime m}
    (hstep : s.runtime.step i hit = some r) (hmain : s.runtime.main ≠ .prog) {tasks : List TaskId}
    (htasks : runningTasks s.calls = some tasks) (hu : Unspent tasks s.runtime) :
    Unspent tasks r := by
  obtain ⟨lo, a, e, hduring⟩ := h.during hmain
  obtain rfl : interval a e = tasks := Option.some.inj (hduring.running.symm.trans htasks)
  refine hu.step h.inside (fun t ht => ?_) (fun e' hm => ?_) hstep
  · obtain hround | ⟨hae, -⟩ := hduring.round
    · exact hround.round.runnable.kind t (Finset.mem_Ico.mpr (mem_interval.mp ht))
    · rw [hae, interval_self] at ht
      cases ht
  · have hwaits := hduring.waits
    rw [hm] at hwaits
    cases hwaits
    exact fun ht => Nat.lt_irrefl _ (mem_interval.mp ht).2

/-- The objects of the graph under construction are there when it is closed. -/
theorem Between.alive_prepared (h : Between lo base s) (hkind : s.kind ≠ .resumed)
    {g : TaskDagGraph} (hg : s.graph.prepare = some g) {t : TaskId} (hlo : base ≤ t)
    (hhi : t ≤ s.graph.fresh) : (g.heap t).deleted = false := by
  have hclosed := (h.looped.endConstructDag_attrs hlo hhi).2
  unfold kind at hkind
  cases prepared_of_prepare hg with
  | resumed hreuse _ => exact absurd (if_pos hreuse) hkind
  | stored heap _ _ hrun heq =>
      obtain ⟨heap', hrun', hmarks, -⟩ := h.looped.storeDagInfo
      obtain rfl := Option.some.inj (hrun'.symm.trans hrun)
      rw [heq]
      exact (hmarks.same.deleted t).trans hclosed
  | built _ _ heq =>
      rw [heq]
      exact hclosed

theorem runningTasks_new {no : Int} {kind : RunKind} {calls : List Call} {tasks : List TaskId}
    (hkind : kind ≠ .resumed) (h : runningTasks (.spawnAndWait no kind :: calls) = some tasks) :
    tasks = tasksSince calls := by
  cases kind with
  | built => exact (Option.some.inj h).symm
  | stored => exact (Option.some.inj h).symm
  | resumed => exact absurd rfl hkind

/-- When a graph starts to run all its tasks are there. -/
theorem Between.unspent (h : Between lo base s) (hloop : s.looping = false)
    (hs : s.spawnAndWait = some s') {tasks : List TaskId}
    (htasks : runningTasks s'.calls = some tasks) : Unspent tasks s'.runtime := by
  have hduring := h.spawnAndWait hloop hs
  obtain ⟨g, e, hg, -, -, rfl⟩ := spawnAndWait_eq_some hs
  have hdeleted := g.heap.deleted_increment e
  by_cases hkind : s.kind = .resumed
  · obtain ⟨lo', a, e', hduring⟩ := hduring
    obtain ⟨no, kind, calls, hcalls, hstored⟩ := hduring.current
    cases hcalls
    obtain ⟨inst, hinst, rfl, rfl⟩ := hstored (by rw [hkind]; exact RunKind.noConfusion)
    obtain rfl : interval (lo' s.graph.reuse.currDagNo) inst.endTask = tasks :=
      Option.some.inj (hduring.running.symm.trans htasks)
    have hkept : ∀ t ∈ interval (lo' s.graph.reuse.currDagNo) inst.endTask,
        (g.heap.incrementRefCount e t).reused = true ∧
          (g.heap.incrementRefCount e t).deleted = false := by
      intro t ht
      obtain ⟨hlo, hhi⟩ := mem_interval.mp ht
      have hk := hduring.shelf.kept _ inst hinst (Nat.lt_of_le_of_lt hlo hhi)
      exact ⟨hk.reused t hlo (Nat.le_of_lt hhi), hk.alive t hlo (Nat.le_of_lt hhi)⟩
    exact Unspent.of_alive (fun t ht => (hkept t ht).2) fun i t _ ht => (hkept t ht).1
  · rw [runningTasks_new hkind htasks, h.since]
    refine Unspent.of_alive (fun t ht => ?_) fun i t hi ht => ?_
    · obtain ⟨hlo, hhi⟩ := mem_interval.mp ht
      exact (hdeleted t).trans (h.alive_prepared hkind hg hlo (Nat.le_of_lt hhi))
    · have hlt := h.known i t (Pc.object_of_past hi)
      exact absurd hlt (Nat.not_lt.mpr (mem_interval.mp ht).1)

theorem spawnAndWait_fresh (hs : s.spawnAndWait = some s') :
    s.graph.fresh ≤ s'.graph.fresh := by
  obtain ⟨g, e, hg, -, -, rfl⟩ := spawnAndWait_eq_some hs
  change s.graph.fresh ≤ g.fresh
  cases prepared_of_prepare hg with
  | resumed _ heq =>
      rw [heq]
      unfold resumeFromBuffer
      split <;> exact Nat.le_refl _
  | stored heap _ _ _ heq =>
      rw [heq]
      exact Nat.le_succ _
  | built _ _ heq =>
      rw [heq]
      exact Nat.le_succ _

/-- `spawn_and_wait` deletes nothing before the graph runs. -/
theorem Between.spawnAndWait_deleted (h : Between lo base s) (hs : s.spawnAndWait = some s')
    {t : TaskId} (ht : t < s.graph.fresh) (hdeleted : (s.heap t).deleted = true) :
    (s'.heap t).deleted = true := by
  by_cases hlo : t < base
  · obtain ⟨e, -, hbelow⟩ := h.spawnAndWait_below hs
    rw [hbelow t hlo, s.heap.deleted_increment]
    exact hdeleted
  · have halive := (h.looped.kind t (Nat.not_lt.mp hlo) ht).2.2
    exact absurd (hdeleted.symm.trans halive) Bool.noConfusion

end Session

end AceMesh
