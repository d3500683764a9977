import AceMesh.Deletion
import AceMesh.Keeping

/-!
# Uses of deleted objects

A task that is not reused is deleted by the thread that has executed it, the end task by the
main thread. A thread that gets to a task, from a queue or from a hand, gets to one that is still
to be executed, so no other thread will delete it (`Round.available`), and an edge still to be
walked leads to such a task or to an end task that is waited for. Thus the threads use no
deleted object, except that `spawn_and_wait` looks at the flag `reused` of its end task once
more, behind the `delete` in `main_kernel_func` (`uses_deleted_iff`).
-/

open AceMesh.TaskDagGraph AceMesh.Runtime

namespace AceMesh

/-- The objects that the next step of a thread in its loop reads or writes. -/
def Pc.uses (h : Heap) : Pc → List TaskId
  | .next => []
  | .hold t => [t]
  | .body t => [t]
  | .restore t => [t]
  | .loop t k => t :: (h t).successorTasks[k]?.toList
  | .push t _ succ => [t, succ]
  | .vert t => t :: (h t).verticalTask.toList
  | .ret t _ => [t]

theorem Pc.uses_cases {h : Heap} {p : Pc} {t : TaskId} (ht : t ∈ p.uses h) :
    p.object = some t ∨ p.hand = some t ∨ ∃ u k, p.At h u k ∧ (h u).outs[k]? = some t := by
  have hfirst {u : TaskId} {o : Option TaskId} (ht : t ∈ u :: o.toList) :
      u = t ∨ o = some t := by
    rcases List.mem_cons.mp ht with rfl | ht
    · exact Or.inl rfl
    · exact Or.inr (Option.mem_toList.mp ht)
  have hedge {u : TaskId} {k : Nat} (hstage : p.stage h = some (u, k))
      (hout : (h u).outs[k]? = some t) : ∃ u k, p.At h u k ∧ (h u).outs[k]? = some t :=
    ⟨u, k, ⟨hstage, (List.getElem?_eq_some_iff.mp hout).1⟩, hout⟩
  cases p with
  | next => cases ht
  | hold u => exact Or.inl (congrArg some (List.mem_singleton.mp ht).symm)
  | body u => exact Or.inl (congrArg some (List.mem_singleton.mp ht).symm)
  | restore u => exact Or.inl (congrArg some (List.mem_singleton.mp ht).symm)
  | loop u k =>
      obtain rfl | hsucc := hfirst ht
      · exact Or.inl rfl
      · exact Or.inr (Or.inr (hedge rfl (Task.outs_getElem?_succ hsucc)))
  | push u k succ =>
      obtain rfl | hsucc := hfirst (o := some succ) ht
      · exact Or.inl rfl
      · exact Or.inr (Or.inl hsucc)
  | vert u =>
      obtain rfl | hsucc := hfirst ht
      · exact Or.inl rfl
      · exact Or.inr (Or.inr (hedge rfl (Task.outs_getElem?_vertical hsucc)))
  | ret u v => exact Or.inl (congrArg some (List.mem_singleton.mp ht).symm)

theorem Pc.object_cases {p : Pc} {t : TaskId} (h : p.object = some t) :
    p.hand = some t ∨ p = .body t ∨ p.past = some t := by
  cases p with
  | next => cases h
  | hold u => exact Or.inl h
  | body u =>
      cases h
      exact Or.inr (Or.inl rfl)
  | restore u => exact Or.inr (Or.inr h)
  | loop u k => exact Or.inr (Or.inr h)
  | push u k succ => exact Or.inr (Or.inr h)
  | vert u => exact Or.inr (Or.inr h)
  | ret u v => exact Or.inr (Or.inr h)

namespace Runtime

variable {m : Nat} {r r' : Runtime m} {i : Fin (m + 1)} {hit : Bool} {t : TaskId}

/-- The objects that the next step of thread `i` reads or writes. -/
def uses (r : Runtime m) (i : Fin (m + 1)) : List TaskId :=
  if i.val = 0 then
    match r.main with
    | .prog => []
    | .spawn _ [] => []
    | .spawn _ (t :: _) => [t]
    | .test e => [e]
    | .run _ => (r.pc i).uses r.heap
    | .left e => [e]
    | .returned e => [e]
  else (r.pc i).uses r.heap

theorem uses_zero (r : Runtime m) : r.uses 0 = match r.main with
    | .prog => []
    | .spawn _ [] => []
    | .spawn _ (t :: _) => [t]
    | .test e => [e]
    | .run _ => (r.pc 0).uses r.heap
    | .left e => [e]
    | .returned e => [e] := if_pos rfl

theorem uses_of_ne (r : Runtime m) (hi : i ≠ 0) : r.uses i = (r.pc i).uses r.heap :=
  if_neg fun h => hi (Fin.ext h)

/-! ## Steps -/

/-- A thread that has deleted its object goes on with what it has in hand. -/
theorem ThreadStep.hand_of_deletes (h : ThreadStep r i r')
    (hdel : (r.pc i).deletes r.heap = some t) (ht : (r'.pc i).object = some t) :
    (r.pc i).hand = some t := by
  obtain ⟨u, v, hret⟩ : ∃ u v, r.pc i = .ret u v := by
    cases hpc : r.pc i with
    | ret u v => exact ⟨u, v, rfl⟩
    | _ =>
        rw [hpc] at hdel
        cases hdel
  cases h with
  | leave pc =>
      rw [setPc_pc, if_pos rfl] at ht
      cases ht
  | leaveFor pc =>
      rw [setPc_pc, if_pos rfl] at ht
      rw [pc]
      exact ht
  | _ => simp_all

theorem step_hand_of_deletes (h : r.step i hit = some r') (hdel : r.deletes i = some t)
    (hleft : r.main ≠ .left t) (ht : (r'.pc i).object = some t) : (r.pc i).hand = some t := by
  obtain ⟨rfl, hmain⟩ | ⟨hi, hthread⟩ := step_cases h
  · rw [deletes_zero] at hdel
    cases hmain with
    | root main _ =>
        rw [main] at hdel
        cases hdel
    | enter main =>
        rw [main] at hdel
        cases hdel
    | test main =>
        rw [main] at hdel
        cases hdel
    | run main turn _ =>
        rw [main] at hdel
        exact turn.hand_of_deletes hdel ht
    | turnEnd main turn _ =>
        rw [main] at hdel
        exact turn.hand_of_deletes hdel ht
    | leave main =>
        rw [main] at hdel
        dsimp only at hdel
        split at hdel
        · cases hdel
        · cases hdel
          exact absurd main hleft
    | back main =>
        rw [main] at hdel
        cases hdel
  · rw [deletes_of_ne r hi] at hdel
    exact hthread.hand_of_deletes hdel ht

theorem step_returned (hin : ∀ i, (r.pc i).Inside r.heap) (h : r.step i hit = some r')
    {e : TaskId} : r'.main = .returned e ↔
      i = 0 ∧ r.main = .left e ∨ i ≠ 0 ∧ r.main = .returned e := by
  cases step_move hin h with
  | worker hi turn => simp [turn.main, hi]
  | root main _ => simp [main]
  | enter main => simp [main]
  | test main =>
      rw [main]
      dsimp only
      split <;> simp
  | run main turn => simp [turn.main, main]
  | turnEnd main turn => simp [main]
  | leave main => simp [main]
  | back main => simp [main]

/-! ## The objects that threads work at -/

/-- A task that thread `i` may get to: nobody will delete it before. -/
structure Available (r : Runtime m) (i : Fin (m + 1)) (t : TaskId) : Prop where
  alive : (r.heap t).deleted = false
  others : ∀ j, j ≠ i → (r.pc j).object = some t → (r.heap t).reused = true
  past : (r.pc i).past = some t → (r.heap t).reused = true
  noEnd : r.main ≠ .left t

/-- The threads work at objects that are there, together at reused ones only. -/
structure Tended (r : Runtime m) : Prop where
  alive : ∀ i t, (r.pc i).object = some t → (r.heap t).deleted = false
  shared : ∀ i j t, i ≠ j → (r.pc i).object = some t → (r.pc j).object = some t →
    (r.heap t).reused = true

theorem Tended.step (h : Tended r) (hin : ∀ i, (r.pc i).Inside r.heap)
    (hnew : ∀ t, (∃ l, t ∈ r.queue l) ∨ (r.pc i).hand = some t → Available r i t)
    (hend : ∀ j t, (r.pc j).object = some t → r.main ≠ .left t)
    (hstep : r.step i hit = some r') : Tended r' := by
  have hmove := step_move hin hstep
  -- only the thread that moves may get to another object
  have hobject (j : Fin (m + 1)) (t : TaskId) (ht : (r'.pc j).object = some t) :
      (r.pc j).object = some t ∨ j = i ∧ Available r i t := by
    by_cases hj : j = i
    · subst hj
      obtain hold | hgot := hmove.object ht
      · exact Or.inl hold
      · exact Or.inr ⟨rfl, hnew t hgot⟩
    · rw [hmove.others hj] at ht
      exact Or.inl ht
  constructor
  case alive =>
    intro j t ht
    rw [← Bool.not_eq_true, step_deleted hstep t]
    rintro (hdeleted | hdeletes)
    · obtain hold | ⟨-, havail⟩ := hobject j t ht
      · rw [h.alive j t hold] at hdeleted
        cases hdeleted
      · rw [havail.alive] at hdeleted
        cases hdeleted
    · obtain ⟨hreused, hpast | ⟨-, hm⟩⟩ := deletes_cases hdeletes
      · have hbehind := Pc.object_of_past hpast
        by_cases hj : j = i
        · subst hj
          have hhand := step_hand_of_deletes hstep hdeletes (hend j t hbehind) ht
          have hkept := (hnew t (Or.inr hhand)).past hpast
          rw [hreused] at hkept
          cases hkept
        · rw [hmove.others hj] at ht
          have hkept := h.shared j i t hj ht hbehind
          rw [hreused] at hkept
          cases hkept
      · obtain hold | ⟨-, havail⟩ := hobject j t ht
        · exact hend j t hold hm
        · exact havail.noEnd hm
  case shared =>
    intro j k t hjk hj hk
    rw [hmove.shape.reused]
    obtain hoj | ⟨rfl, havail⟩ := hobject j t hj
    · obtain hok | ⟨rfl, havail⟩ := hobject k t hk
      · exact h.shared j k t hjk hoj hok
      · exact havail.others j hjk hoj
    · obtain hok | ⟨rfl, -⟩ := hobject k t hk
      · exact havail.others k hjk.symm hok
      · exact absurd rfl hjk

end Runtime

/-! ## Inside a round -/

namespace Round

variable {m : Nat} {nodes : Finset TaskId} {e : TaskId} {roots tasks : List TaskId}
  {r : Runtime m} {i : Fin (m + 1)} {t : TaskId}

/-- A task that has not been started is there. -/
theorem alive_of_starts (h : Round nodes e roots r) (hu : Unspent tasks r) (ht : t ∈ tasks)
    (hstarts : r.starts t = 0) : (r.heap t).deleted = false := by
  have hfin := h.finished t
  exact hu.alive t ht (by omega)

/-- A task in a queue or in a hand has not been started, and is in no other hand. -/
theorem waiting (h : Round nodes e roots r) (ht : (∃ l, t ∈ r.queue l) ∨ (r.pc i).hand = some t) :
    t ∈ nodes ∧ r.starts t = 0 ∧ ∀ j, j ≠ i → (r.pc j).hand ≠ some t := by
  have hplace := h.place t
  obtain ⟨l, hl⟩ | hhand := ht
  · have hmem := h.mem_of_queue hl
    have hqueued : 0 < r.queued t :=
      Finset.sum_pos' (fun _ _ => Nat.zero_le _) ⟨l, Finset.mem_univ l, List.count_pos_iff.mpr hl⟩
    refine ⟨hmem, by split at hplace <;> omega, fun j _ hj => ?_⟩
    have hpos : 0 < r.inHand t := tally_pos (i := j) (by simp [hj])
    split at hplace <;> omega
  · obtain ⟨hmem, -, hstarts⟩ := h.mem_of_hand hhand
    refine ⟨hmem, hstarts, fun j hj hother => ?_⟩
    have htwo : _ ≤ r.inHand t :=
      tally_two (f := fun p => if p.hand = some t then 1 else 0) (r := r) hj
    simp only [hhand, hother, if_true] at htwo
    split at hplace <;> omega

theorem available (h : Round nodes e roots r) (hu : Unspent tasks r)
    (htasks : ∀ t ∈ nodes, t ∈ tasks) (hleft : ∀ t ∈ nodes, r.main ≠ .left t)
    (ht : (∃ l, t ∈ r.queue l) ∨ (r.pc i).hand = some t) : Available r i t := by
  obtain ⟨hmem, hstarts, hhand⟩ := h.waiting ht
  have hfin := h.finished t
  have hpast (j : Fin (m + 1)) (hj : (r.pc j).past = some t) : (r.heap t).reused = true :=
    (hu.past j t hj (htasks t hmem)).resolve_right fun hne => hne (by omega)
  constructor
  case alive => exact h.alive_of_starts hu (htasks t hmem) hstarts
  case others =>
    intro j hj hobject
    obtain hother | hbody | hbehind := Pc.object_cases hobject
    · exact absurd hother (hhand j hj)
    · have hpos : 0 < r.bodies t := tally_pos (i := j) (by simp [hbody])
      omega
    · exact hpast j hbehind
  case past => exact hpast i
  case noEnd => exact hleft t hmem

/-- An edge still to be walked leads to a task that has not been started, or to the end task. -/
theorem edge_unstarted (h : Round nodes e roots r) {u : TaskId} {k : Nat}
    (hat : (r.pc i).At r.heap u k) (hout : (r.outs u)[k]? = some t) :
    (t ∈ nodes ∧ r.starts t = 0) ∨ (t = e ∧ r.pending nodes e ≠ 0) := by
  obtain ⟨hmem, hwalked⟩ := h.walking i u k hat
  have hpos : 0 < r.pending nodes t :=
    Release.pending_pos_of_next hmem (by rw [hwalked]; exact hout)
  obtain hnode | rfl := h.runnable.dag.outs_mem u hmem t (List.mem_of_getElem? hout)
  · refine Or.inl ⟨hnode, ?_⟩
    by_contra hstarts
    have hzero := (h.mem_of_starts hstarts).2
    omega
  · exact Or.inr ⟨rfl, hpos.ne'⟩

theorem root_unstarted (h : Round nodes e (t :: roots) r) : t ∈ nodes ∧ r.starts t = 0 := by
  have hplace := h.place t
  rw [List.count_cons_self] at hplace
  split at hplace
  · rename_i hmem
    exact ⟨hmem.1, by omega⟩
  · omega

end Round

/-! ## Programs -/

namespace Session

variable {m : Nat} {lo : Int → TaskId} {base a e t : TaskId} {s s' : Session m}
  {i j : Fin (m + 1)} {hit : Bool} {r : Runtime m}

/-- No object that threads work at is gone or an end task, and the end task that is waited for
is there until the main thread has left its loop. -/
structure Tidy (s : Session m) : Prop where
  tended : Tended s.runtime
  stored : ∀ no inst, s.graph.reuse.dagInstanceMap no = some inst →
    ∀ i, (s.runtime.pc i).object ≠ some inst.endTask
  apart : ∀ e, s.runtime.main.waitsFor = some e → ∀ i, (s.runtime.pc i).object ≠ some e
  endTask : ∀ e, s.runtime.main.waitsFor = some e → ((s.heap e).deleted = true ↔
    s.runtime.main = .returned e ∧ (s.heap e).reused = false)
  unspent : s.runtime.main ≠ .prog → ∀ tasks, runningTasks s.calls = some tasks →
    Unspent tasks s.runtime

theorem tidy_start : Tidy (start : Session m) where
  tended := by
    constructor
    · intro i t ht
      cases ht
    · intro i j t _ ht
      cases ht
  stored := by
    intro no inst hno
    cases hno
  apart := by
    intro e he
    cases he
  endTask := by
    intro e he
    cases he
  unspent := fun hmain => absurd rfl hmain

/-! ### Steps of the threads -/

/-- Outside of a round of tasks no task is on its way. -/
theorem Inv.round_or_idle (h : s.Inv) :
    (∃ lo a e, During lo a e s ∧ InRound (Finset.Ico a e) e s.runtime) ∨ s.runtime.Idle := by
  obtain ⟨lo, base, hbetween⟩ | ⟨lo, a, e, hduring⟩ := h
  · exact Or.inr hbetween.after.idle
  · obtain hround | ⟨-, hollow⟩ := hduring.round
    · exact Or.inl ⟨lo, a, e, hduring, hround⟩
    · exact Or.inr hollow.idle

theorem not_waiting_of_idle (h : s.runtime.Idle) :
    ¬((∃ l, t ∈ s.runtime.queue l) ∨ (s.runtime.pc i).hand = some t) := by
  rintro (⟨l, hl⟩ | hhand)
  · rw [h.queue l] at hl
    cases hl
  · rw [(h.resting i).hand] at hhand
    cases hhand

/-- What runs is there to be executed. -/
theorem Tidy.unspent_interval (h : Tidy s) (hduring : During lo a e s) :
    Unspent (interval a e) s.runtime := by
  refine h.unspent (fun hm => ?_) _ hduring.running
  have hwaits := hduring.waits
  rw [hm] at hwaits
  cases hwaits

theorem mem_interval_of_mem_Ico (ht : t ∈ Finset.Ico a e) : t ∈ interval a e :=
  mem_interval.mpr (Finset.mem_Ico.mp ht)

theorem Tidy.available (h : Tidy s) (hinv : s.Inv)
    (ht : (∃ l, t ∈ s.runtime.queue l) ∨ (s.runtime.pc i).hand = some t) :
    Available s.runtime i t := by
  obtain ⟨lo, a, e, hduring, hround⟩ | hidle := hinv.round_or_idle
  · refine hround.round.available (h.unspent_interval hduring)
      (fun _ => mem_interval_of_mem_Ico) (fun u hu hm => ?_) ht
    have hwaits := hduring.waits
    rw [hm] at hwaits
    cases hwaits
    exact Finset.right_notMem_Ico hu
  · exact absurd ht (not_waiting_of_idle hidle)

/-- A thread only gets to tasks of the graph that runs. -/
theorem Inv.move_object (h : s.Inv) (hmove : Move s.runtime i r)
    (ht : (r.pc j).object = some t) : (s.runtime.pc j).object = some t ∨
      ∃ lo a e, During lo a e s ∧ a ≤ t ∧ t < e := by
  obtain hold | hgot := hmove.object ht
  · exact Or.inl hold
  · obtain ⟨lo, a, e, hduring, hround⟩ | hidle := h.round_or_idle
    · have hmem := (hround.round.waiting hgot).1
      exact Or.inr ⟨lo, a, e, hduring, Finset.mem_Ico.mp hmem⟩
    · exact absurd hgot (not_waiting_of_idle hidle)

theorem Tidy.thread (h : Tidy s) (hinv : s.Inv) (hstep : s.runtime.step i hit = some r) :
    Tidy { s with runtime := r } := by
  have hmove := step_move hinv.inside hstep
  have hwaiting {e : TaskId} (he : r.main.waitsFor = some e) :
      s.runtime.main.waitsFor = some e := by
    obtain hsame | hnone := hmove.waitsFor
    · rwa [hsame] at he
    · rw [hnone] at he
      cases he
  constructor
  case tended =>
    refine h.tended.step hinv.inside (fun t ht => h.available hinv ht) (fun j t ht hm => ?_) hstep
    exact h.apart t (by rw [hm]; rfl) j ht
  case stored =>
    intro no inst hno j hj
    have hno : s.graph.reuse.dagInstanceMap no = some inst := step_reuse hstep ▸ hno
    obtain hold | ⟨lo, a, e, hduring, hle, hlt⟩ := hinv.move_object hmove hj
    · exact h.stored no inst hno j hold
    · have hapart := hduring.apart no inst hno
      have hshelf := (hduring.shelf.tasks no inst hno).1
      lia
  case apart =>
    intro e he j hj
    obtain hold | ⟨lo, a, e', hduring, hle, hlt⟩ := hinv.move_object hmove hj
    · exact h.apart e (hwaiting he) j hold
    · obtain rfl := Option.some.inj ((hwaiting he).symm.trans hduring.waits)
      exact Nat.lt_irrefl _ hlt
  case endTask =>
    intro e he
    have hend := h.endTask e (hwaiting he)
    rw [step_deleted hstep e, hmove.shape.reused, step_returned hinv.inside hstep, hend]
    constructor
    · rintro (⟨hm, hreused⟩ | hdeletes)
      · refine ⟨Or.inr ⟨?_, hm⟩, hreused⟩
        rintro rfl
        rw [hmove.of_returned hm] at he
        cases he
      · obtain ⟨hreused, hpast | hleft⟩ := deletes_cases hdeletes
        · exact absurd (Pc.object_of_past hpast) (h.apart e (hwaiting he) i)
        · exact ⟨Or.inl hleft, hreused⟩
    · rintro ⟨⟨rfl, hm⟩ | ⟨-, hm⟩, hreused⟩
      · refine Or.inr ?_
        rw [deletes_zero, hm]
        exact if_neg (by rw [hreused]; exact Bool.false_ne_true)
      · exact Or.inl ⟨hm, hreused⟩
  case unspent =>
    intro hmain tasks htasks
    have hprog : s.runtime.main ≠ .prog := fun hm => hmain (hmove.prog hm)
    exact hinv.unspent hstep hprog htasks (h.unspent hprog tasks htasks)

/-! ### Calls -/

theorem build_pc {c : BuildCall} (hs : s.build c = some s') :
    s'.runtime.pc = s.runtime.pc := by
  unfold Session.build at hs
  split at hs
  · cases hs
    rfl
  · split at hs
    · cases hs
      rfl
    · cases hs
  · cases hs
    rfl
  · cases hs
    rfl
  · cases hs

/-- A call leaves the threads where they are, and their objects alone. -/
theorem Tidy.tended_call (h : Tidy s) (hpc : s'.runtime.pc = s.runtime.pc)
    (hframe : ∀ i t, (s.runtime.pc i).object = some t →
      (s'.heap t).deleted = (s.heap t).deleted ∧ (s'.heap t).reused = (s.heap t).reused) :
    Tended s'.runtime := by
  constructor
  · intro i t ht
    rw [hpc] at ht
    exact (hframe i t ht).1.trans (h.tended.alive i t ht)
  · intro i j t hij hi hj
    rw [hpc] at hi hj
    exact (hframe i t hi).2.trans (h.tended.shared i j t hij hi hj)

/-- A call that neither runs nor stores a graph. -/
theorem Tidy.call_quiet (h : Tidy s) (hbetween : Between lo base s)
    (hmain : s'.runtime.main = .prog) (hpc : s'.runtime.pc = s.runtime.pc)
    (hheap : ∀ t, t < base → s'.heap t = s.heap t)
    (hmap : s'.graph.reuse.dagInstanceMap = s.graph.reuse.dagInstanceMap) : Tidy s' where
  tended := by
    apply h.tended_call hpc
    intro i t ht
    rw [hheap t (hbetween.known i t ht)]
    exact ⟨rfl, rfl⟩
  stored := by
    intro no inst hno i
    rw [hpc]
    rw [hmap] at hno
    exact h.stored no inst hno i
  apart := by
    intro e he
    rw [hmain] at he
    cases he
  endTask := by
    intro e he
    rw [hmain] at he
    cases he
  unspent := fun hne => absurd hmain hne

/-- The end task that `spawn_and_wait` waits for is a new one or that of a stored graph. -/
theorem spawnAndWait_endTask (hs : s.spawnAndWait = some s')
    (hwaits : s'.runtime.main.waitsFor = some e) :
    e = s.graph.fresh ∨ ∃ no inst, s.graph.reuse.dagInstanceMap no = some inst ∧
      inst.endTask = e := by
  obtain ⟨g, e', hg, hend, -, rfl⟩ := spawnAndWait_eq_some hs
  obtain rfl : e' = e := Option.some.inj hwaits
  cases prepared_of_prepare hg with
  | resumed _ heq =>
      rw [heq] at hend
      unfold resumeFromBuffer at hend
      split at hend
      · rename_i inst hinst
        exact Or.inr ⟨_, inst, hinst, Option.some.inj hend⟩
      · cases hend
  | stored heap _ _ _ heq =>
      rw [heq] at hend
      exact Or.inl (Option.some.inj hend).symm
  | built _ _ heq =>
      rw [heq] at hend
      exact Or.inl (Option.some.inj hend).symm

theorem Tidy.spawnAndWait (h : Tidy s) (hbetween : Between lo base s) (hloop : s.looping = false)
    (hact : s.act (.call .spawnAndWait) = some s') (hs : s.spawnAndWait = some s') : Tidy s' := by
  obtain ⟨e, hwaits, hbelow⟩ := hbetween.spawnAndWait_below hs
  have hpc : s'.runtime.pc = s.runtime.pc := by
    obtain ⟨g, e', -, -, -, rfl⟩ := spawnAndWait_eq_some hs
    rfl
  have hknown (i : Fin (m + 1)) (t : TaskId) (ht : (s.runtime.pc i).object = some t) :
      t < s.graph.fresh := Nat.lt_of_lt_of_le (hbetween.known i t ht) hbetween.looped.lo_le
  constructor
  case tended =>
    apply h.tended_call hpc
    intro i t ht
    rw [hbelow t (hbetween.known i t ht)]
    exact ⟨s.heap.deleted_increment e t, (s.heap.sameShape_increment e).reused t⟩
  case stored =>
    intro no inst hno i hi
    rw [hpc] at hi
    obtain ⟨hold, -⟩ | ⟨-, -, -, rfl, -⟩ := (Effect.spawnAndWait hact).instance hno
    · exact h.stored no inst hold i hi
    · exact Nat.lt_irrefl _ (hknown i _ hi)
  case apart =>
    intro e he i hi
    rw [hpc] at hi
    obtain rfl | ⟨no, inst, hno, rfl⟩ := spawnAndWait_endTask hs he
    · exact Nat.lt_irrefl _ (hknown i _ hi)
    · exact h.stored no inst hno i hi
  case endTask =>
    intro e he
    obtain ⟨g, e', -, -, hdeleted, rfl⟩ := spawnAndWait_eq_some hs
    obtain rfl : e' = e := Option.some.inj he
    have halive : (g.heap.incrementRefCount e' e').deleted = false :=
      (g.heap.deleted_increment e' e').trans hdeleted
    constructor
    · intro hgone
      exact absurd (hgone.symm.trans halive) Bool.noConfusion
    · rintro ⟨hm, -⟩
      cases hm
  case unspent => exact fun _ tasks htasks => hbetween.unspent hloop hs htasks

theorem Tidy.act (h : Tidy s) (hinv : s.Inv) {c : Act m} (hact : s.act c = some s') : Tidy s' := by
  cases c with
  | thread i hit =>
      obtain ⟨r, hr, rfl⟩ := Option.map_eq_some_iff.mp hact
      exact h.thread hinv hr
  | call c =>
      obtain ⟨lo, base, hbetween, hmain, hcall⟩ := call_between hinv hact
      unfold Session.call at hcall
      rw [if_pos hmain] at hcall
      cases c with
      | build c =>
          obtain ⟨hheap, hreuse, -⟩ := build_frame hbetween hcall
          exact h.call_quiet hbetween ((build_main hcall).trans hmain) (build_pc hcall) hheap
            (congrArg DagReuse.dagInstanceMap hreuse)
      | dagStart dagNo intVec floatVec =>
          dsimp only at hcall
          split at hcall
          · cases hcall
          · cases hcall
            obtain ⟨u, hu, hmap, -⟩ := dagStart_eq s.graph dagNo intVec floatVec
            have hgraph : (s.dagStart dagNo intVec floatVec).graph = { s.graph with reuse := u } :=
              hu
            refine h.call_quiet hbetween hmain rfl (fun t _ => ?_) ?_
            · change (s.dagStart dagNo intVec floatVec).graph.heap t = _
              rw [hgraph]
            · rw [hgraph]
              exact hmap
      | spawnAndWait =>
          dsimp only at hcall
          split at hcall
          · cases hcall
          · rename_i hloop
            exact h.spawnAndWait hbetween (Bool.eq_false_of_not_eq_true hloop) hact hcall

theorem Reached.tidy {ok : Session m → Act m → Prop} (h : Reached ok s) : Tidy s := by
  induction h with
  | start => exact tidy_start
  | act hreached _ hact ih => exact ih.act hreached.inv hact

/-! ### What the threads use -/

/-- In its loop a thread uses no deleted object. -/
theorem Tidy.uses_alive (h : Tidy s) (hinv : s.Inv) (ht : t ∈ (s.runtime.pc i).uses s.heap) :
    (s.heap t).deleted = false := by
  obtain hobject | hhand | ⟨u, k, hat, hout⟩ := Pc.uses_cases ht
  · exact h.tended.alive i t hobject
  · exact (h.available hinv (Or.inr hhand)).alive
  · obtain ⟨lo, a, e, hduring, hround⟩ | hidle := hinv.round_or_idle
    · obtain ⟨hmem, hstarts⟩ | ⟨rfl, hpending⟩ := hround.round.edge_unstarted hat hout
      · exact hround.round.alive_of_starts (h.unspent_interval hduring)
          (mem_interval_of_mem_Ico hmem) hstarts
      · -- the main thread still waits for the end task
        rw [← Bool.not_eq_true, h.endTask _ hduring.waits]
        rintro ⟨hm, -⟩
        exact hpending (hround.ended (Or.inr hm))
    · exact absurd hat ((hidle.resting i).noEdge u k)

/-- The roots that are still to be pushed are there. -/
theorem Tidy.root_alive (h : Tidy s) (hinv : s.Inv) {roots : List TaskId}
    (hm : s.runtime.main = .spawn e (t :: roots)) : (s.heap t).deleted = false := by
  obtain ⟨lo, a, e', hduring⟩ := hinv.during (by rw [hm]; exact MainPc.noConfusion)
  obtain hround | ⟨-, hollow⟩ := hduring.round
  · have hroots := hround.round
    rw [hm] at hroots
    obtain ⟨hmem, hstarts⟩ := hroots.root_unstarted
    exact hroots.alive_of_starts (h.unspent_interval hduring) (mem_interval_of_mem_Ico hmem) hstarts
  · have hroots := hollow.roots
    rw [hm] at hroots
    cases hroots

/-- What the main thread uses is there until it looks at the end task behind its loop. -/
theorem Tidy.returned_of_uses (h : Tidy s) (hinv : s.Inv) (ht : t ∈ s.runtime.uses 0)
    (hdeleted : (s.heap t).deleted = true) :
    s.runtime.main = .returned t ∧ (s.heap t).reused = false := by
  have hgone (halive : (s.heap t).deleted = false) : s.runtime.main = .returned t ∧
      (s.heap t).reused = false := absurd (hdeleted.symm.trans halive) Bool.noConfusion
  rw [uses_zero] at ht
  cases hm : s.runtime.main with
  | prog =>
      rw [hm] at ht
      cases ht
  | spawn e roots =>
      rw [hm] at ht
      cases roots with
      | nil => cases ht
      | cons u roots =>
          obtain rfl := List.mem_singleton.mp ht
          rw [← hm]
          exact hgone (h.root_alive hinv hm)
  | run e =>
      rw [hm] at ht
      rw [← hm]
      exact hgone (h.uses_alive hinv ht)
  | test e =>
      rw [hm] at ht
      obtain rfl := List.mem_singleton.mp ht
      rw [← hm]
      exact (h.endTask t (by rw [hm]; rfl)).mp hdeleted
  | left e =>
      rw [hm] at ht
      obtain rfl := List.mem_singleton.mp ht
      rw [← hm]
      exact (h.endTask t (by rw [hm]; rfl)).mp hdeleted
  | returned e =>
      rw [hm] at ht
      obtain rfl := List.mem_singleton.mp ht
      exact ⟨rfl, ((h.endTask t (by rw [hm]; rfl)).mp hdeleted).2⟩

end Session

end AceMesh
