import AceMesh.SessionRun

/-!
# Runs of a stored graph

A graph that has been stored is followed through the rest of the program (`Tracked`): its
number keeps it, since `dag_reuse_cnt` is never `-1` again, and no call changes its edges or
the copies of its counters. So each run finds the counters that were stored, and the
invariant of a round applies to it (`resumption_correct`).

`store_info` reaches the end task from the tasks only. The end task of a graph without a
task is saved, and deleted by the first run (`resumption_of_nothing`).
-/

open AceMesh.TaskDagGraph AceMesh.Runtime

namespace AceMesh

namespace Session

variable {m : Nat} {lo : Int → TaskId} {base : TaskId} {s s' : Session m}

/-- The states that a program can reach from a state. -/
def Later : Session m → Session m → Prop :=
  Relation.ReflTransGen fun s s' => ∃ a : Act m, s.act a = some s'

theorem later_of_run {acts : List (Act m)} (h : s.run acts = some s') : Later s s' :=
  isRun_run.path (fun _ a _ hact => ⟨a, hact⟩) h

/-! ## What the calls leave alone -/

/-- `spawn_and_wait` counts one end task, marks the objects of the new graph, and nothing
else. -/
theorem Between.spawnAndWait_below (h : Between lo base s) (hs : s.spawnAndWait = some s') :
    ∃ e, s'.runtime.main.waitsFor = some e ∧
      ∀ t, t < base → s'.heap t = s.heap.incrementRefCount e t := by
  obtain ⟨g, e, hg, -, -, rfl⟩ := spawnAndWait_eq_some hs
  refine ⟨e, rfl, fun t ht => ?_⟩
  change g.heap.incrementRefCount e t = _
  have hheap : g.heap t = s.heap t := by
    cases prepared_of_prepare hg with
    | resumed _ heq =>
        rw [heq]
        unfold resumeFromBuffer
        split <;> rfl
    | stored heap hreuse hinit hrun heq =>
        obtain ⟨heap', hrun', hmarks, -⟩ := h.looped.storeDagInfo
        obtain rfl := Option.some.inj (hrun'.symm.trans hrun)
        rw [heq]
        exact (hmarks.frame t (Or.inl ht)).trans (h.closed_below ht)
    | built _ _ heq =>
        rw [heq]
        exact h.closed_below ht
  rw [Heap.incrementRefCount, Heap.incrementRefCount, Heap.modify_apply, Heap.modify_apply, hheap]

/-- What `spawn_and_wait` writes for later calls. -/
theorem spawnAndWait_reuse (hs : s.spawnAndWait = some s') :
    s'.calls = .spawnAndWait s.graph.reuse.currDagNo s.kind :: s.calls ∧
    (s.kind = .stored → s.graph.reuse.dagReuseCnt s.graph.reuse.currDagNo = some (-1) ∧
      s'.graph.endTask = some s.graph.fresh ∧
      s'.graph.reuse = { s.graph.reuse with
        dagReuseCnt := Function.update s.graph.reuse.dagReuseCnt s.graph.reuse.currDagNo (some 0)
        dagInstanceMap := Function.update s.graph.reuse.dagInstanceMap s.graph.reuse.currDagNo
          (some ⟨s.graph.fresh, s.graph.needSpawnTasks⟩) }) ∧
    (s.kind ≠ .stored → s'.graph.reuse = s.graph.reuse) := by
  obtain ⟨g, e, hg, hend, -, rfl⟩ := spawnAndWait_eq_some hs
  refine ⟨rfl, ?_⟩
  show (s.kind = .stored → _ ∧ g.endTask = some s.graph.fresh ∧ g.reuse = _) ∧
    (s.kind ≠ .stored → g.reuse = s.graph.reuse)
  unfold kind
  cases prepared_of_prepare hg with
  | resumed hreuse heq =>
      rw [if_pos hreuse, heq]
      refine ⟨fun hk => RunKind.noConfusion hk, fun _ => ?_⟩
      unfold resumeFromBuffer
      split <;> rfl
  | stored heap hreuse hinit _ heq =>
      rw [if_neg hreuse, if_pos hinit, heq]
      refine ⟨fun _ => ⟨?_, rfl, rfl⟩, fun hk => absurd rfl hk⟩
      unfold inits at hinit
      simp only [ne_eq, decide_eq_true_eq] at hinit
      exact hinit.2
  | built hreuse hinit heq =>
      rw [if_neg hreuse, if_neg hinit, heq]
      exact ⟨fun hk => RunKind.noConfusion hk, fun _ => rfl⟩

theorem build_frame (h : Between lo base s) {c : BuildCall} (hs : s.build c = some s') :
    (∀ t, t < base → s'.heap t = s.heap t) ∧ s'.graph.reuse = s.graph.reuse ∧
      ∀ no, storedTasks no s'.calls = storedTasks no s.calls := by
  unfold Session.build at hs
  split at hs
  · cases hs
    exact ⟨fun _ _ => rfl, rfl, fun _ => rfl⟩
  · split at hs
    · cases hs
      exact ⟨fun _ _ => rfl, rfl, fun _ => rfl⟩
    · cases hs
  · rename_i spec hloop
    cases hs
    have hbook := h.book_of_looping hloop
    exact ⟨fun t ht => taskGenerator_below hbook spec ht, taskGenerator_reuse _ spec,
      fun _ => rfl⟩
  · cases hs
    rw [endSplitTask_eq]
    exact ⟨fun _ _ => rfl, rfl, fun _ => rfl⟩
  · cases hs

/-! ## One stored graph -/

/-- The graph stored under a number, as it was when it was stored. -/
structure Tracked (no : Int) (inst : DagInstance) (tasks : List TaskId) (h₀ : Heap)
    (s : Session m) : Prop where
  slot : s.graph.reuse.dagInstanceMap no = some inst
  cnt : ∃ c, 0 ≤ c ∧ s.graph.reuse.dagReuseCnt no = some c
  tasks : storedTasks no s.calls = some tasks
  outs : ∀ t, t ≤ inst.endTask → (s.heap t).outs = (h₀ t).outs
  backup : ∀ t, t ≤ inst.endTask → (s.heap t).backupRef = (h₀ t).backupRef

namespace Tracked

variable {no : Int} {inst : DagInstance} {tasks : List TaskId} {h₀ : Heap}

theorem move (h : Tracked no inst tasks h₀ s) {i : Fin (m + 1)} {r : Runtime m}
    (hmove : Move s.runtime i r) : Tracked no inst tasks h₀ { s with runtime := r } := by
  have hreuse : r.graph.reuse = s.graph.reuse := hmove.reuse
  constructor
  case slot =>
    show r.graph.reuse.dagInstanceMap no = some inst
    rw [hreuse]
    exact h.slot
  case cnt =>
    show ∃ c, 0 ≤ c ∧ r.graph.reuse.dagReuseCnt no = some c
    rw [hreuse]
    exact h.cnt
  case tasks => exact h.tasks
  case outs => exact fun t ht => (hmove.shape.outs t).trans (h.outs t ht)
  case backup => exact fun t ht => (hmove.shape.backupRef t).trans (h.backup t ht)

theorem dagStart (h : Tracked no inst tasks h₀ s) (dagNo : Int) (intVec : List Int)
    (floatVec : List Double) :
    Tracked no inst tasks h₀ (s.dagStart dagNo intVec floatVec) := by
  obtain ⟨u, hu, hmap, -⟩ := dagStart_eq s.graph dagNo intVec floatVec
  have hgraph : (s.dagStart dagNo intVec floatVec).graph = { s.graph with reuse := u } := hu
  obtain ⟨c, hc, hcnt⟩ := h.cnt
  constructor
  case slot =>
    rw [hgraph]
    exact hmap ▸ h.slot
  case cnt =>
    show ∃ c, 0 ≤ c ∧ (s.graph.dagStart dagNo intVec floatVec).1.reuse.dagReuseCnt no = some c
    unfold TaskDagGraph.dagStart
    dsimp only
    split
    · rename_i cnt hsome
      split
      · by_cases hno : no = dagNo
        · rw [hno] at hcnt ⊢
          obtain rfl := Option.some.inj (hsome.symm.trans hcnt)
          exact ⟨cnt + 1, by omega, Function.update_self ..⟩
        · exact ⟨c, hc, (Function.update_of_ne hno ..).trans hcnt⟩
      · exact ⟨c, hc, hcnt⟩
    · rename_i hnone
      have hno : no ≠ dagNo := by
        intro he
        rw [he, hnone] at hcnt
        cases hcnt
      exact ⟨c, hc, (Function.update_of_ne hno ..).trans hcnt⟩
  case tasks => exact h.tasks
  case outs =>
    intro t ht
    show ((s.dagStart dagNo intVec floatVec).graph.heap t).outs = _
    rw [hgraph]
    exact h.outs t ht
  case backup =>
    intro t ht
    show ((s.dagStart dagNo intVec floatVec).graph.heap t).backupRef = _
    rw [hgraph]
    exact h.backup t ht

theorem spawnAndWait (h : Tracked no inst tasks h₀ s) (hbetween : Between lo base s)
    (hs : s.spawnAndWait = some s') : Tracked no inst tasks h₀ s' := by
  have hbelow : inst.endTask < base := (hbetween.shelf.tasks no inst h.slot).2.1
  obtain ⟨hcalls, hstored, hother⟩ := spawnAndWait_reuse hs
  obtain ⟨c, hc, hcnt⟩ := h.cnt
  obtain ⟨e, -, hframe⟩ := hbetween.spawnAndWait_below hs
  have hshape := s.heap.sameShape_increment e
  have houts : ∀ t, t ≤ inst.endTask → (s'.heap t).outs = (h₀ t).outs := by
    intro t ht
    rw [hframe t (Nat.lt_of_le_of_lt ht hbelow), hshape.outs]
    exact h.outs t ht
  have hbackup : ∀ t, t ≤ inst.endTask → (s'.heap t).backupRef = (h₀ t).backupRef := by
    intro t ht
    rw [hframe t (Nat.lt_of_le_of_lt ht hbelow), hshape.backupRef]
    exact h.backup t ht
  by_cases hkind : s.kind = .stored
  · -- another number: the counter of this one is not `-1`
    obtain ⟨hminus, -, hreuse⟩ := hstored hkind
    have hne : no ≠ s.graph.reuse.currDagNo := by
      intro he
      rw [← he, hcnt] at hminus
      have := Option.some.inj hminus
      omega
    refine ⟨?_, ⟨c, hc, ?_⟩, ?_, houts, hbackup⟩
    · rw [hreuse]
      exact (Function.update_of_ne hne ..).trans h.slot
    · rw [hreuse]
      exact (Function.update_of_ne hne ..).trans hcnt
    · rw [hcalls, hkind]
      show (if s.graph.reuse.currDagNo = no then _ else storedTasks no s.calls) = _
      rw [if_neg (Ne.symm hne)]
      exact h.tasks
  · have hreuse := hother hkind
    refine ⟨by rw [hreuse]; exact h.slot, by rw [hreuse]; exact h.cnt, ?_, houts, hbackup⟩
    rw [hcalls]
    cases hk : s.kind with
    | built => exact h.tasks
    | stored => exact absurd hk hkind
    | resumed => exact h.tasks

theorem act (h : Tracked no inst tasks h₀ s) (hinv : s.Inv) {a : Act m}
    (hs : s.act a = some s') : Tracked no inst tasks h₀ s' := by
  cases a with
  | thread i hit =>
      obtain ⟨r, hr, rfl⟩ := Option.map_eq_some_iff.mp hs
      exact h.move (step_move hinv.inside hr)
  | call c =>
      have hs : s.call c = some s' := hs
      unfold Session.call at hs
      by_cases hm : s.runtime.main = .prog
      · rw [if_pos hm] at hs
        obtain ⟨lo, base, hbetween⟩ := hinv.between hm
        have hbelow := (hbetween.shelf.tasks no inst h.slot).2.1
        cases c with
        | build c =>
            obtain ⟨hheap, hreuse, hcalls⟩ := build_frame hbetween hs
            have hsame : ∀ t, t ≤ inst.endTask → s'.heap t = s.heap t :=
              fun t ht => hheap t (Nat.lt_of_le_of_lt ht hbelow)
            refine ⟨by rw [hreuse]; exact h.slot, by rw [hreuse]; exact h.cnt,
              (hcalls no).trans h.tasks, fun t ht => ?_, fun t ht => ?_⟩
            · rw [hsame t ht]
              exact h.outs t ht
            · rw [hsame t ht]
              exact h.backup t ht
        | dagStart dagNo intVec floatVec =>
            dsimp only at hs
            split at hs
            · cases hs
            · cases hs
              exact h.dagStart dagNo intVec floatVec
        | spawnAndWait =>
            dsimp only at hs
            split at hs
            · cases hs
            · exact h.spawnAndWait hbetween hs
      · rw [if_neg hm] at hs
        cases hs

theorem later (h : Tracked no inst tasks h₀ s) (hinv : s.Inv) (hlater : Later s s') :
    Tracked no inst tasks h₀ s' ∧ s'.Inv := by
  induction hlater with
  | refl => exact ⟨h, hinv⟩
  | tail _ hact ih =>
      obtain ⟨a, ha⟩ := hact
      exact ⟨ih.1.act ih.2 ha, ih.2.act ha⟩

/-- The interval of a stored graph with tasks. -/
theorem range (h : Tracked no inst tasks h₀ s) (hshelf : Shelf (m + 1) lo base s.graph s.calls)
    (htasks : tasks ≠ []) : lo no < inst.endTask ∧
      ∀ t, t ∈ tasks ↔ lo no ≤ t ∧ t < inst.endTask := by
  obtain ⟨hle, -, hstored⟩ := hshelf.tasks no inst h.slot
  obtain rfl := Option.some.inj (h.tasks.symm.trans hstored)
  refine ⟨?_, fun t => mem_interval⟩
  by_contra hge
  rw [show inst.endTask = lo no by lia, interval_self] at htasks
  exact htasks rfl

section Shelved

variable (h : Tracked no inst tasks h₀ s) (hshelf : Shelf (m + 1) lo base s.graph s.calls)
  (htasks : tasks ≠ [])
include h hshelf htasks

theorem bounds {u : TaskId} (hu : u ∈ tasks ∨ u = inst.endTask) :
    lo no ≤ u ∧ u ≤ inst.endTask := by
  obtain ⟨hlt, hmem⟩ := h.range hshelf htasks
  rw [hmem] at hu
  lia

theorem undeleted {u : TaskId} (hu : u ∈ tasks ∨ u = inst.endTask) :
    (s.heap u).deleted = false := by
  obtain ⟨hlo, hhi⟩ := h.bounds hshelf htasks hu
  exact (hshelf.kept no inst h.slot (h.range hshelf htasks).1).alive u hlo hhi

end Shelved

/-- Between two calls the counters are the copies. -/
theorem counters (h : Tracked no inst tasks h₀ s) (hbetween : Between lo base s)
    (htasks : tasks ≠ []) {u : TaskId} (hu : u ∈ tasks ∨ u = inst.endTask) :
    (s.heap u).refCount = (h₀ u).backupRef := by
  obtain ⟨hlo, hhi⟩ := h.bounds hbetween.shelf htasks hu
  rw [← h.backup u hhi]
  exact hbetween.rested no inst h.slot (h.range hbetween.shelf htasks).1 (by simp) u hlo hhi

/-- A run under the number of the graph is a round of its tasks. -/
theorem inRound (h : Tracked no inst tasks h₀ s) {a e : TaskId} (hduring : During lo a e s)
    (htasks : tasks ≠ []) {kind : RunKind} {rest : List Call}
    (hcalls : s.calls = .spawnAndWait no kind :: rest) (hkind : kind ≠ .built) :
    InRound (Finset.Ico (lo no) inst.endTask) inst.endTask s.runtime := by
  obtain ⟨no', kind', calls, hcurrent, hinst⟩ := hduring.current
  rw [hcalls] at hcurrent
  obtain ⟨⟨rfl, rfl⟩, -⟩ : (no = no' ∧ kind = kind') ∧ rest = calls := by simpa using hcurrent
  obtain ⟨inst', hsome, rfl, rfl⟩ := hinst hkind
  obtain rfl := Option.some.inj (h.slot.symm.trans hsome)
  apply hduring.round.resolve_right
  rintro ⟨hempty, -⟩
  have hlt := (h.range hduring.shelf htasks).1
  lia

/-- What such a run does to the tasks. -/
theorem run_correct (h : Tracked no inst tasks h₀ s)
    (hshelf : Shelf (m + 1) lo base s.graph s.calls) (htasks : tasks ≠ [])
    (hin : InRound (Finset.Ico (lo no) inst.endTask) inst.endTask s.runtime) :
    (∀ l₁ u l₂, s.runtime.log = l₁ ++ .start u :: l₂ → ∀ v ∈ tasks,
      u ∈ (h₀ v).outs → .finish v ∈ l₁) ∧
    (∀ u, s.runtime.log.count (.start u) ≤ 1 ∧ (.start u ∈ s.runtime.log → u ∈ tasks)) ∧
    (s.runtime.main = .left inst.endTask ∨ s.runtime.main = .returned inst.endTask →
      ∀ u ∈ tasks, s.runtime.log.count (.start u) = 1 ∧ s.runtime.log.count (.finish u) = 1) := by
  have hnode : ∀ u, u ∈ Finset.Ico (lo no) inst.endTask ↔ u ∈ tasks := by
    intro u
    rw [Finset.mem_Ico, (h.range hshelf htasks).2]
  refine ⟨fun l₁ u l₂ hlog v hv hu => ?_, fun u => ⟨hin.round.starts_le u, fun hu => ?_⟩,
    fun hover u hu => ?_⟩
  · apply hin.round.order l₁ u l₂ hlog v ((hnode v).mpr hv)
    show u ∈ (s.heap v).outs
    rw [h.outs v (h.bounds hshelf htasks (Or.inl hv)).2]
    exact hu
  · have hpos : 0 < s.runtime.log.count (.start u) := List.count_pos_iff.mpr hu
    exact (hnode u).mp (hin.round.mem_of_starts (Nat.pos_iff_ne_zero.mp hpos)).1
  · have hall := hin.round.complete (hin.ended hover) ((hnode u).mpr hu)
    exact ⟨hall.2.2, hall.2.1⟩

end Tracked

/-- The call that stores a graph. -/
theorem tracked_of_stored (hs : s.spawnAndWait = some s') (hkind : s.kind = .stored) :
    Tracked s.graph.reuse.currDagNo ⟨s.graph.fresh, s.graph.needSpawnTasks⟩ (tasksSince s.calls)
      s'.heap s' := by
  obtain ⟨hcalls, hstored, -⟩ := spawnAndWait_reuse hs
  obtain ⟨-, -, hreuse⟩ := hstored hkind
  refine ⟨?_, ⟨0, Int.le_refl 0, ?_⟩, ?_, fun _ _ => rfl, fun _ _ => rfl⟩
  · rw [hreuse]
    exact Function.update_self ..
  · rw [hreuse]
    exact Function.update_self ..
  · rw [hcalls, hkind]
    exact if_pos rfl

/-- After the call that stores a graph with tasks, whatever the program does: no object of
the graph is deleted; between two calls its counters are the copies made by that call; and in
a run of the graph every task runs after its predecessors and once. -/
theorem resumption_correct (h : Reached (fun _ _ => True) s)
    (hstore : s.act (.call .spawnAndWait) = some s') (hkind : s.kind = .stored)
    (htasks : tasksSince s.calls ≠ []) {t : Session m} (hlater : Later s' t) :
    ∃ e, s'.graph.endTask = some e ∧
    (∀ u, u ∈ tasksSince s.calls ∨ u = e → (t.heap u).deleted = false) ∧
    (t.runtime.main = .prog → ∀ u, u ∈ tasksSince s.calls ∨ u = e →
      (t.heap u).refCount = (s'.heap u).backupRef) ∧
    ∀ kind rest, t.calls = .spawnAndWait s.graph.reuse.currDagNo kind :: rest → kind ≠ .built →
      t.runtime.main ≠ .prog →
      (∀ l₁ u l₂, t.runtime.log = l₁ ++ .start u :: l₂ → ∀ v ∈ tasksSince s.calls,
        u ∈ (s'.heap v).outs → .finish v ∈ l₁) ∧
      (∀ u, t.runtime.log.count (.start u) ≤ 1 ∧
        (.start u ∈ t.runtime.log → u ∈ tasksSince s.calls)) ∧
      (t.runtime.main = .left e ∨ t.runtime.main = .returned e →
        ∀ u ∈ tasksSince s.calls, t.runtime.log.count (.start u) = 1 ∧
          t.runtime.log.count (.finish u) = 1) := by
  have hinv := h.inv
  have hcall : s.call .spawnAndWait = some s' := hstore
  unfold Session.call at hcall
  by_cases hm : s.runtime.main = .prog
  · rw [if_pos hm] at hcall
    dsimp only at hcall
    by_cases hloop : s.looping = true
    · rw [if_pos hloop] at hcall
      cases hcall
    · rw [if_neg hloop] at hcall
      obtain ⟨-, hstored, -⟩ := spawnAndWait_reuse hcall
      obtain ⟨htracked, hinv'⟩ := (tracked_of_stored hcall hkind).later
        (hinv.act hstore) hlater
      refine ⟨s.graph.fresh, (hstored hkind).2.1, ?_⟩
      obtain ⟨lo, base, hbetween⟩ | ⟨lo, a, e, hduring⟩ := hinv'
      · exact ⟨fun u hu => htracked.undeleted hbetween.shelf htasks hu,
          fun _ u hu => htracked.counters hbetween htasks hu,
          fun _ _ _ _ hne => absurd hbetween.after.main hne⟩
      · refine ⟨fun u hu => htracked.undeleted hduring.shelf htasks hu, fun hprog => ?_,
          fun kind rest hcalls hkind' _ => htracked.run_correct hduring.shelf htasks
            (htracked.inRound hduring htasks hcalls hkind')⟩
        have hwaits := hduring.waits
        rw [hprog] at hwaits
        cases hwaits
  · rw [if_neg hm] at hcall
    cases hcall

namespace Example

/-- The rank has `n` tasks; its graph gets the number `1`. -/
def announced (n : Nat) : List (Act 1) :=
  [.call (.dagStart 1 [] []), .call (.build .beginSplitTask)] ++
    List.replicate n (.call (.build (.registerTask AceMesh.Example.reader))) ++
    [.call (.build .endSplitTask)]

/-- Both threads take turns. -/
def turns (n : Nat) : List (Act 1) :=
  (List.replicate n
    [.thread AceMesh.Example.main true, .thread AceMesh.Example.worker true]).flatten

/-- The first run, the call of the second, and a part of it. -/
def again (n k : Nat) : List (Act 1) :=
  turns n ++ [.call (.dagStart 1 [] []), .call .spawnAndWait] ++ turns k

/-- The run under way. -/
def current : List Call → Option (Int × RunKind)
  | .spawnAndWait no kind :: _ => some (no, kind)
  | _ => none

theorem eq_of_current {calls : List Call} {no : Int} {kind : RunKind}
    (h : current calls = some (no, kind)) : ∃ rest, calls = .spawnAndWait no kind :: rest := by
  cases calls with
  | nil => cases h
  | cons c rest =>
      cases c with
      | task t => cases h
      | dagStart dagNo intVec floatVec ret => cases h
      | spawnAndWait no' kind' =>
          cases h
          exact ⟨rest, rfl⟩

/-- What the two runs are started from, and what they lead to. -/
theorem states {n k : Nat} {w : TaskId × MainPc × List TaskId}
    (hrun : (((start : Session 1).run (announced n)).bind fun s =>
      (s.act (.call .spawnAndWait)).bind fun s' =>
        (s'.run (again (n * 9 + 4) k)).bind fun t =>
          s'.graph.endTask.bind fun e =>
            if s.kind = .stored ∧ s.graph.reuse.currDagNo = 1 ∧
                current t.calls = some (1, .resumed) then
              some (e, t.runtime.main, tasksSince s.calls)
            else none) = some w) :
    ∃ s s' t : Session 1, Reached (fun _ _ => True) s ∧
      s.act (.call .spawnAndWait) = some s' ∧ s.kind = .stored ∧
      s.graph.reuse.currDagNo = 1 ∧ Later s' t ∧
      (∃ rest, t.calls = .spawnAndWait 1 .resumed :: rest) ∧
      s'.graph.endTask = some w.1 ∧ t.runtime.main = w.2.1 ∧ tasksSince s.calls = w.2.2 := by
  obtain ⟨s, hs, hrun⟩ := Option.bind_eq_some_iff.mp hrun
  obtain ⟨s', hs', hrun⟩ := Option.bind_eq_some_iff.mp hrun
  obtain ⟨t, ht, hrun⟩ := Option.bind_eq_some_iff.mp hrun
  obtain ⟨e, he, hrun⟩ := Option.bind_eq_some_iff.mp hrun
  split at hrun
  · rename_i hif
    obtain ⟨hkind, hno, hcurrent⟩ := hif
    cases hrun
    exact ⟨s, s', t, Reached.start.run _ hs, hs', hkind, hno, later_of_run ht,
      eq_of_current hcurrent, he, rfl, rfl⟩
  · cases hrun

end Example

/-- A task that has run in both runs of its graph. -/
theorem resumption_correct_example : ∃ s s' t : Session 1,
    s.act (.call .spawnAndWait) = some s' ∧ Later s' t ∧
    (∃ rest, t.calls = .spawnAndWait 1 .resumed :: rest) ∧ t.runtime.main = .left 1 ∧
    t.runtime.log.count (.start 0) = 1 ∧ t.runtime.log.count (.finish 0) = 1 ∧
    (t.heap 0).deleted = false ∧ (t.heap 1).deleted = false := by
  obtain ⟨s, s', t, hreached, hact, hkind, hno, hlater, ⟨rest, hcalls⟩, hend, hmain, htasks⟩ :=
    Example.states (n := 1) (k := 11) (w := (1, .left 1, [0])) (by decide)
  dsimp only at hend hmain htasks
  obtain ⟨e, he, halive, -, hround⟩ :=
    resumption_correct hreached hact hkind (by simp [htasks]) hlater
  obtain rfl := Option.some.inj (hend.symm.trans he)
  rw [htasks] at halive hround
  obtain ⟨-, -, honce⟩ := hround .resumed rest (hno ▸ hcalls) (by decide) (by simp [hmain])
  obtain ⟨hstart, hfinish⟩ := honce (Or.inl hmain) 0 (by simp)
  exact ⟨s, s', t, hact, hlater, ⟨rest, hcalls⟩, hmain, hstart, hfinish,
    halive 0 (by simp), halive 1 (by simp)⟩

/-- The end task of a graph without a task is deleted by the first run. The number still
promises the graph, and the second call finds the deleted object. -/
theorem resumption_of_nothing : ∃ s s' t : Session 1, Reached (fun _ _ => True) s ∧
    s.act (.call .spawnAndWait) = some s' ∧ s.kind = .stored ∧
    s'.graph.endTask = some 0 ∧ Later s' t ∧ (t.heap 0).deleted = true ∧
    t.runtime.main = .prog ∧ t.looping = false ∧ t.kind = .resumed ∧
    t.graph.reuse.currDagNo = s.graph.reuse.currDagNo ∧ t.act (.call .spawnAndWait) = none := by
  have hrun : (((start : Session 1).run (Example.announced 0)).bind fun s =>
      (s.act (.call .spawnAndWait)).bind fun s' =>
        (s'.run (Example.turns 4 ++ [.call (.dagStart 1 [] [])])).map fun t =>
          decide (s.kind = .stored ∧ s'.graph.endTask = some 0 ∧ (t.heap 0).deleted = true ∧
            t.runtime.main = .prog ∧ t.looping = false ∧ t.kind = .resumed ∧
            t.graph.reuse.currDagNo = s.graph.reuse.currDagNo ∧
            (t.act (.call .spawnAndWait)).isNone = true)) = some true := by decide
  obtain ⟨s, hs, hrun⟩ := Option.bind_eq_some_iff.mp hrun
  obtain ⟨s', hs', hrun⟩ := Option.bind_eq_some_iff.mp hrun
  obtain ⟨t, ht, hrun⟩ := Option.map_eq_some_iff.mp hrun
  obtain ⟨hkind, hend, hdeleted, hmain, hloop, hresumed, hno, hnone⟩ := of_decide_eq_true hrun
  exact ⟨s, s', t, Reached.start.run _ hs, hs', hkind, hend, later_of_run ht, hdeleted, hmain,
    hloop, hresumed, hno, Option.isNone_iff_eq_none.mp hnone⟩

end Session

end AceMesh
