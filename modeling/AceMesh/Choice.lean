import AceMesh.Promise

/-!
# Which graph is run

`spawn_and_wait` looks at the flag of the current number, and both stay what the last
`dag_start` has made of them. So the graph of a `dag_start` that has returned `1` is run
until the next `dag_start` (`runs_old_graph`). When the last `dag_start` has returned `1`
exactly if one has done so since the last `spawn_and_wait`, the right tasks are run
(`spawn_and_wait_choice`). A stored graph must have a task for this: without one its end task
has been deleted by the run that stored it, and the call has no result.
-/

open AceMesh.TaskDagGraph AceMesh.Runtime

namespace AceMesh

/-- The numbers for which `dag_start` has returned `1` since the last `spawn_and_wait`. -/
def promised : List Call → List Int
  | [] => []
  | .dagStart no _ _ true :: calls => no :: promised calls
  | .dagStart _ _ _ false :: calls => promised calls
  | .task _ :: calls => promised calls
  | .spawnAndWait _ _ :: _ => []

/-- The tasks that the next `spawn_and_wait` is to run. -/
def expected (calls : List Call) : Option (List TaskId) :=
  match promised calls with
  | [] => some (tasksSince calls)
  | no :: _ => storedTasks no calls

/-- Either the last `dag_start` of the program has returned `1` since the last
`spawn_and_wait`, for the only number that has been promised since, and the graph of that number
has a task; or it has not returned `1`, and no `dag_start` since the last `spawn_and_wait`
has. -/
def fits (calls : List Call) : Bool :=
  match lastStart calls with
  | some ⟨no, _, _, true⟩ =>
    !(promised calls).isEmpty && (promised calls).all (· == no) &&
      (storedTasks no calls).any fun tasks => !tasks.isEmpty
  | _ => (promised calls).isEmpty

namespace Session

variable {m : Nat} {lo : Int → TaskId} {base a e : TaskId} {s s' : Session m}

/-! ## The choice -/

theorem Latest.reuses_iff (h : Latest s) : s.graph.reuses = true ↔
    ∃ b, lastStart s.calls = some b ∧ b.ret = true ∧ b.dagNo = s.graph.reuse.currDagNo := by
  unfold reuses
  rw [decide_eq_true_eq]
  cases hlast : lastStart s.calls with
  | none =>
      rw [h.missing hlast]
      simp
  | some b =>
      obtain ⟨hcurr, hflag⟩ := h.found b hlast
      rw [hcurr, hflag]
      simp

/-- What the code runs is what is expected. -/
theorem running_of_fits (h : Latest s) (hfits : fits s.calls = true) :
    runningTasks (.spawnAndWait s.graph.reuse.currDagNo s.kind :: s.calls) = expected s.calls ∧
      (s.kind = .resumed → ∃ tasks, storedTasks s.graph.reuse.currDagNo s.calls = some tasks ∧
        tasks ≠ []) := by
  unfold fits at hfits
  by_cases hreuse : s.graph.reuses = true
  · obtain ⟨b, hlast, hret, hno⟩ := h.reuses_iff.mp hreuse
    have hkind : s.kind = .resumed := if_pos hreuse
    obtain ⟨no, iv, fv, ret⟩ := b
    dsimp only at hret hno
    subst hret
    subst hno
    rw [hlast] at hfits
    simp only [Bool.and_eq_true, Bool.not_eq_true', List.all_eq_true, beq_iff_eq] at hfits
    obtain ⟨⟨hne, hall⟩, hstored⟩ := hfits
    rw [hkind]
    have htask : ∃ tasks, storedTasks s.graph.reuse.currDagNo s.calls = some tasks ∧
        tasks ≠ [] := by
      obtain ⟨tasks, htasks, hne⟩ := (Option.any_eq_true _ _).mp hstored
      refine ⟨tasks, htasks, fun hnil => ?_⟩
      rw [hnil] at hne
      cases hne
    refine ⟨?_, fun _ => htask⟩
    unfold expected
    split
    · rename_i hnil
      rw [hnil] at hne
      cases hne
    · rename_i no rest hcons
      rw [hall no (by rw [hcons]; exact List.mem_cons_self)]
      rfl
  · have hnil : promised s.calls = [] := by
      split at hfits
      · rename_i no iv fv hlast
        exact absurd (h.reuses_iff.mpr ⟨_, hlast, rfl, (h.found _ hlast).1.symm⟩) hreuse
      · exact List.isEmpty_iff.mp hfits
    have hexpected : expected s.calls = some (tasksSince s.calls) := by
      unfold expected
      rw [hnil]
    unfold kind
    rw [hexpected, if_neg hreuse]
    split
    · exact ⟨rfl, fun hk => RunKind.noConfusion hk⟩
    · exact ⟨rfl, fun hk => RunKind.noConfusion hk⟩

/-- The end task of a graph that has been built is new, also after `store_info`. -/
theorem Between.end_undeleted (h : Between lo base s) {g : TaskDagGraph}
    (hmarks : s.graph.endConstructDag.heap.SameButMarks g.heap) :
    (g.heap s.graph.fresh).deleted = false := by
  rw [hmarks.deleted]
  exact (h.looped.endConstructDag_attrs h.looped.lo_le (Nat.le_refl _)).2

/-- The call has a result unless there is nothing to resume. -/
theorem Between.spawnAndWait_isSome (h : Between lo base s)
    (hstored : s.kind = .resumed → ∃ tasks,
      storedTasks s.graph.reuse.currDagNo s.calls = some tasks ∧ tasks ≠ []) :
    ∃ s', s.spawnAndWait = some s' := by
  have hprepare : ∃ g e, s.graph.prepare = some g ∧ g.endTask = some e ∧
      (g.heap e).deleted = false := by
    by_cases hreuse : s.graph.reuses = true
    · rw [prepare_of_reuses hreuse]
      obtain ⟨tasks, htasks, hne⟩ := hstored (if_pos hreuse)
      have hinst : s.graph.reuse.dagInstanceMap s.graph.reuse.currDagNo ≠ none := fun hnone => by
        rw [h.shelf.missing _ hnone] at htasks
        cases htasks
      obtain ⟨inst, hinst⟩ := Option.ne_none_iff_exists'.mp hinst
      obtain ⟨hle, -, hinterval⟩ := h.shelf.tasks _ inst hinst
      have hlt : lo s.graph.reuse.currDagNo < inst.endTask := by
        refine Nat.lt_of_le_of_ne hle fun heq => hne ?_
        obtain rfl := Option.some.inj (htasks.symm.trans hinterval)
        rw [heq, interval_self]
      refine ⟨_, inst.endTask, rfl, ?_⟩
      unfold resumeFromBuffer
      rw [hinst]
      exact ⟨rfl, (h.shelf.kept _ inst hinst hlt).alive inst.endTask hle (Nat.le_refl _)⟩
    · by_cases hinit : s.graph.inits = true
      · obtain ⟨heap, hrun, hmarks, -⟩ := h.looped.storeDagInfo
        rw [prepare_of_inits hreuse hinit]
        exact ⟨_, s.graph.fresh, congrArg (Option.map saveToBuffer)
          (congrArg (Option.map _) hrun), rfl, h.end_undeleted hmarks.same⟩
      · rw [prepare_of_not_inits hreuse hinit]
        exact ⟨_, s.graph.fresh, rfl, rfl, h.end_undeleted fun _ => rfl⟩
  obtain ⟨g, e, hg, hend, hdeleted⟩ := hprepare
  have hspawn := (Runtime.spawn_eq_some_iff (r := { s.runtime with graph := g })).mpr
    ⟨e, hend, hdeleted, rfl⟩
  exact ⟨_, Option.bind_eq_some_iff.mpr ⟨g, hg, Option.map_eq_some_iff.mpr ⟨_, hspawn, rfl⟩⟩⟩

theorem act_spawnAndWait (hm : s.runtime.main = .prog) (hloop : s.looping = false)
    (hs : s.spawnAndWait = some s') : s.act (.call .spawnAndWait) = some s' := by
  change s.call .spawnAndWait = some s'
  unfold Session.call
  rw [if_pos hm]
  dsimp only
  rw [if_neg (by simp [hloop])]
  exact hs

/-! ## What is executed -/

/-- A call of `spawn_and_wait` starts no other tasks, and has run all of its own once when
the main thread leaves. -/
theorem During.executes (h : During lo a e s) :
    (∀ u, .start u ∈ s.runtime.log → u ∈ interval a e) ∧
    (s.runtime.main = .left e ∨ s.runtime.main = .returned e →
      ∀ u, s.runtime.starts u = (if u ∈ interval a e then 1 else 0) ∧
        s.runtime.finishes u = if u ∈ interval a e then 1 else 0) := by
  obtain hin | ⟨hae, hollow⟩ := h.round
  · have hmem : ∀ u, u ∈ Finset.Ico a e ↔ u ∈ interval a e := fun u => by
      rw [Finset.mem_Ico, mem_interval]
    have hstarted : ∀ u, .start u ∈ s.runtime.log → u ∈ interval a e := by
      intro u hu
      have hpos : 0 < s.runtime.starts u := List.count_pos_iff.mpr hu
      exact (hmem u).mp (hin.round.mem_of_starts (by omega)).1
    refine ⟨hstarted, fun hover u => ?_⟩
    by_cases hu : u ∈ interval a e
    · have hall := hin.round.complete (hin.ended hover) ((hmem u).mpr hu)
      rw [if_pos hu]
      exact ⟨hall.2.2, hall.2.1⟩
    · have hstart : s.runtime.starts u = 0 := by
        by_contra hne
        exact hu (hstarted u (List.count_pos_iff.mp (Nat.pos_of_ne_zero hne)))
      have hfin := hin.round.finished u
      rw [if_neg hu]
      omega
  · have hnone : ∀ u, u ∉ interval a e := by
      intro u
      rw [hae, interval_self]
      exact List.not_mem_nil
    unfold starts finishes
    rw [hollow.log]
    refine ⟨fun u hu => absurd hu List.not_mem_nil, fun _ u => ?_⟩
    rw [if_neg (hnone u)]
    exact ⟨rfl, rfl⟩

theorem Inv.steps (h : Inv s) {r : Runtime m} (hsteps : s.runtime.Steps r) :
    Inv { s with runtime := r } := by
  induction hsteps with
  | refl => exact h
  | tail _ hstep ih =>
      obtain ⟨i, hit, hstep⟩ := hstep
      exact ih.move (step_move ih.inside hstep)

/-- A task starts after its predecessors have finished. -/
theorem During.ordered (h : During lo a e s) {l₁ l₂ : List Event} {u v : TaskId}
    (hlog : s.runtime.log = l₁ ++ .start u :: l₂) (hv : v ∈ interval a e)
    (hu : u ∈ (s.heap v).outs) : .finish v ∈ l₁ := by
  obtain hin | ⟨-, hollow⟩ := h.round
  · refine hin.round.order l₁ u l₂ hlog v ?_ hu
    rw [Finset.mem_Ico]
    exact mem_interval.mp hv
  · rw [hollow.log] at hlog
    simp at hlog

/-- Whatever the threads do, the tasks `tasks` are run, each after its predecessors, and no
others; each has run once when the main thread leaves. -/
def Executes (s : Session m) (tasks : List TaskId) : Prop :=
  ∀ r, s.runtime.Steps r → r.main ≠ .prog →
    (∀ u, .start u ∈ r.log → u ∈ tasks) ∧
    (∀ l₁ u l₂, r.log = l₁ ++ .start u :: l₂ → ∀ v ∈ tasks, u ∈ (s.heap v).outs →
      .finish v ∈ l₁) ∧
    ∀ e, r.main = .left e ∨ r.main = .returned e → ∀ u,
      r.log.count (.start u) = (if u ∈ tasks then 1 else 0) ∧
      r.log.count (.finish u) = if u ∈ tasks then 1 else 0

theorem Inv.shape_steps (h : Inv s) {r : Runtime m} (hsteps : s.runtime.Steps r) :
    s.heap.SameShape r.heap := by
  induction hsteps with
  | refl => exact Heap.SameShape.refl _
  | tail hsteps hstep ih =>
      obtain ⟨i, hit, hstep⟩ := hstep
      exact ih.trans (step_move (h.steps hsteps).inside hstep).shape

/-- A call of `spawn_and_wait` executes the tasks of the graph that it runs. -/
theorem Inv.executes (h : Inv s) {tasks : List TaskId}
    (hrunning : runningTasks s.calls = some tasks) : s.Executes tasks := by
  intro r hsteps hmain
  obtain ⟨lo, a, e, hduring⟩ := (h.steps hsteps).during hmain
  obtain rfl : interval a e = tasks :=
    Option.some.inj (hduring.running.symm.trans hrunning)
  obtain ⟨hstarted, hover⟩ := hduring.executes
  refine ⟨hstarted, fun l₁ u l₂ hlog v hv hu => ?_, fun e₁ he₁ u => hover ?_ u⟩
  · refine hduring.ordered hlog hv ?_
    change u ∈ (r.heap v).outs
    rwa [(h.shape_steps hsteps).outs]
  · have hwaits := hduring.waits
    obtain hm₁ | hm₁ := he₁
    · rw [hm₁] at hwaits ⊢
      cases hwaits
      exact Or.inl rfl
    · rw [hm₁] at hwaits ⊢
      cases hwaits
      exact Or.inr rfl

/-- A `spawn_and_wait` whose calls fit can be made, and executes the tasks that are expected:
those registered since the last one, or, if `dag_start` has returned `1` since, those of the
stored graph. -/
theorem spawn_and_wait_choice (h : Reached (fun _ _ => True) s) (hm : s.runtime.main = .prog)
    (hloop : s.looping = false) (hfits : fits s.calls = true) :
    ∃ tasks s', expected s.calls = some tasks ∧
      s.act (.call .spawnAndWait) = some s' ∧
      ∀ r, s'.runtime.Steps r → r.main ≠ .prog →
        (∀ u, .start u ∈ r.log → u ∈ tasks) ∧
        (∀ e, r.main = .left e ∨ r.main = .returned e → ∀ u,
          r.log.count (.start u) = (if u ∈ tasks then 1 else 0) ∧
          r.log.count (.finish u) = if u ∈ tasks then 1 else 0) := by
  obtain ⟨lo, base, hbetween⟩ := h.inv.between hm
  obtain ⟨hrunning, hstored⟩ := running_of_fits h.latest hfits
  obtain ⟨s', hs'⟩ := hbetween.spawnAndWait_isSome hstored
  have hact := act_spawnAndWait hm hloop hs'
  have hinv' := h.inv.act hact
  have hcalls := (spawnAndWait_reuse hs').1
  obtain ⟨lo', a', e', hduring'⟩ := hbetween.spawnAndWait hloop hs'
  have hrun := hduring'.running
  rw [hcalls, hrunning] at hrun
  refine ⟨interval a' e', s', hrun, hact, fun r hsteps hmain => ?_⟩
  obtain ⟨hstarted, -, hover⟩ := hinv'.executes hduring'.running r hsteps hmain
  exact ⟨hstarted, hover⟩

namespace Example

/-- A loop with one task. -/
def loop : List (Act 1) :=
  [.call (.build .beginSplitTask), .call (.build (.registerTask AceMesh.Example.reader)),
    .call (.build .endSplitTask)]

/-- A numbered graph has been run and is announced again. -/
def reused : List (Act 1) :=
  .call (.dagStart 1 [] []) :: loop ++ .call .spawnAndWait :: turns 13 ++
    [.call (.dagStart 1 [] [])]

/-- It has been run again, and another graph is built. -/
def replaced : List (Act 1) :=
  reused ++ .call .spawnAndWait :: turns 13 ++ loop

def alternating : List (Fin 2 × Bool) :=
  (List.replicate 11 [(AceMesh.Example.main, true), (AceMesh.Example.worker, true)]).flatten

end Example

/-- The stored graph is run again. -/
theorem spawn_and_wait_choice_example : ∃ (s s' : Session 1) (r : Runtime 1),
    expected s.calls = some [0] ∧ s.act (.call .spawnAndWait) = some s' ∧
    s'.runtime.runSchedule Example.alternating = some r ∧ r.main = .left 1 ∧
    r.log.count (.start 0) = 1 ∧ r.log.count (.finish 0) = 1 := by
  have hrun : (((start : Session 1).run Example.reused).bind fun s =>
      (s.act (.call .spawnAndWait)).bind fun s' =>
        (s'.runtime.runSchedule Example.alternating).map fun r =>
          (decide (s.runtime.main = .prog) && !s.looping && fits s.calls,
            expected s.calls, r.main)) = some (true, some [0], .left 1) := by decide
  obtain ⟨s, hs, hrun⟩ := Option.bind_eq_some_iff.mp hrun
  obtain ⟨s', hs', hrun⟩ := Option.bind_eq_some_iff.mp hrun
  obtain ⟨r, hr, hrun⟩ := Option.map_eq_some_iff.mp hrun
  simp only [Prod.mk.injEq, Bool.and_eq_true, Bool.not_eq_true', decide_eq_true_eq] at hrun
  obtain ⟨⟨⟨hm, hloop⟩, hfits⟩, hexpected, hleft⟩ := hrun
  obtain ⟨tasks, s₁, htasks, hact, hall⟩ :=
    spawn_and_wait_choice (Reached.start.run _ hs) hm hloop hfits
  obtain rfl := Option.some.inj (hs'.symm.trans hact)
  obtain rfl := Option.some.inj (hexpected.symm.trans htasks)
  obtain ⟨-, hover⟩ := hall r (steps_of_runSchedule hr) (by simp [hleft])
  obtain ⟨hstart, hfinish⟩ := hover 1 (Or.inl hleft) 0
  exact ⟨s, s', r, hexpected, hs', hr, hleft, hstart, hfinish⟩

/-- A graph is built and run after a stored one has been run: the stored one is run again,
and the new task, number `2`, is not. -/
theorem runs_old_graph : ∃ (s s' : Session 1) (r : Runtime 1),
    Reached (fun _ _ => True) s ∧ promised s.calls = [] ∧ tasksSince s.calls = [2] ∧
    s.act (.call .spawnAndWait) = some s' ∧ s'.runtime.Steps r ∧ r.main = .left 1 ∧
    r.log.count (.start 2) = 0 ∧ r.log.count (.start 0) = 1 := by
  have hrun : (((start : Session 1).run Example.replaced).bind fun s =>
      (s.act (.call .spawnAndWait)).bind fun s' =>
        (s'.runtime.runSchedule Example.alternating).map fun r =>
          (promised s.calls, tasksSince s.calls, r.main, r.log.count (.start 2),
            r.log.count (.start 0))) = some ([], [2], .left 1, 0, 1) := by decide
  obtain ⟨s, hs, hrun⟩ := Option.bind_eq_some_iff.mp hrun
  obtain ⟨s', hs', hrun⟩ := Option.bind_eq_some_iff.mp hrun
  obtain ⟨r, hr, hrun⟩ := Option.map_eq_some_iff.mp hrun
  simp only [Prod.mk.injEq] at hrun
  obtain ⟨hpromised, hsince, hleft, hnew, hold⟩ := hrun
  exact ⟨s, s', r, Reached.start.run _ hs, hpromised, hsince, hs', steps_of_runSchedule hr,
    hleft, hnew, hold⟩

end Session

end AceMesh
