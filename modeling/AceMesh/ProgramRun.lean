import AceMesh.Program
import AceMesh.Resumption

/-!
# A program runs as if its tasks were called one after another

Between two calls the memory is the one that the changes made so far leave when the tasks of
every `spawn_and_wait` are run one after another (`Between.mem`). The graph under construction
orders its conflicts (`Dependence`), a stored graph keeps the edges it was stored with, so its
bodies conflict along chains of edges as often as it is run (`Ordered`); during a run the
machine simulates interleaved programs (`Running`). All this ends where the program resumes a
stored graph without a task, which is no step.
-/

open AceMesh.TaskDagGraph AceMesh.Runtime Relation

namespace AceMesh

variable {m : Nat} {V : Type}

/-! ## Bodies that conflict along edges -/

/-- The bodies from `lo` to `hi` conflict along chains of edges only. -/
def Ordered (body : TaskId → Serial.Prog Addr V) (outs : TaskId → List TaskId) (lo hi : TaskId) :
    Prop :=
  ∃ d : Serial.Declared Addr V, (∀ t, lo ≤ t → t < hi → body t = d.prog t) ∧
    ∀ u t, lo ≤ u → u < t → t < hi → d.Conflict u t →
      TransGen (Release.Edge (Finset.Ico lo hi) outs) u t

theorem Ordered.mono {body body' : TaskId → Serial.Prog Addr V} {outs outs' : TaskId → List TaskId}
    {lo hi : TaskId} (h : Ordered body outs lo hi)
    (hbody : ∀ t, lo ≤ t → t < hi → body' t = body t)
    (houts : ∀ t, lo ≤ t → t < hi → ∀ u ∈ outs t, u ∈ outs' t) : Ordered body' outs' lo hi := by
  obtain ⟨d, hprog, horder⟩ := h
  refine ⟨d, fun t hlo hhi => (hbody t hlo hhi).trans (hprog t hlo hhi), ?_⟩
  intro u t hlo hut hhi hc
  refine TransGen.mono ?_ _ _ (horder u t hlo hut hhi hc)
  rintro v w ⟨hv, hw, hmem⟩
  obtain ⟨hvlo, hvhi⟩ := Finset.mem_Ico.mp hv
  exact ⟨hv, hw, houts v hvlo hvhi w hmem⟩

/-- The graph of loops without conflicts orders its bodies. -/
theorem Dependence.ordered {lo : TaskId} {ps : List (Nat × TaskSpec)} {k : Nat}
    {g : TaskDagGraph} (h : Dependence lo ps k g) (hsorted : ps.Pairwise fun p q => p.1 ≤ q.1)
    (hfree : ConflictFree lo ps) {body : TaskId → Serial.Prog Addr V}
    (hbody : ∀ t, lo ≤ t → t < g.fresh →
      (body t).Within (DeclaresRead lo ps t) (DeclaresWrite lo ps t)) :
    Ordered body (fun t => (g.heap t).outs) lo g.fresh := by
  let d : Serial.Declared Addr V :=
    { prog := fun t => if lo ≤ t ∧ t < g.fresh then body t else .done
      reads := DeclaresRead lo ps
      writes := DeclaresWrite lo ps
      within := fun t => by
        split
        · rename_i ht
          exact hbody t ht.1 ht.2
        · trivial }
  refine ⟨d, fun t hlo hhi => (if_pos ⟨hlo, hhi⟩).symm, ?_⟩
  intro u t hlo hut hhi hc
  apply h.complete u t
  obtain ⟨a, ⟨⟨k, ty, hu, hw⟩, hread | hwrite⟩ | ⟨hread | hwrite, l, ty', ht, hw⟩⟩ := hc
  · obtain ⟨l, ty', ht, -⟩ := hread
    exact crossConflict_of_sorted hsorted hfree hut hu ht (Or.inl hw)
  · obtain ⟨l, ty', ht, -⟩ := hwrite
    exact crossConflict_of_sorted hsorted hfree hut hu ht (Or.inl hw)
  · obtain ⟨k, ty, hu, -⟩ := hread
    exact crossConflict_of_sorted hsorted hfree hut hu ht (Or.inr hw)
  · obtain ⟨k, ty, hu, -⟩ := hwrite
    exact crossConflict_of_sorted hsorted hfree hut hu ht (Or.inr hw)

/-- What the table and the edges say does not depend on the other fields. -/
theorem Dependence.congr {lo : TaskId} {ps : List (Nat × TaskSpec)} {k : Nat}
    {g g' : TaskDagGraph} (h : Dependence lo ps k g) (hbook : Book lo g')
    (hfresh : g'.fresh = g.fresh) (htable : g'.addrTask = g.addrTask)
    (houts : ∀ t, (g'.heap t).outs = (g.heap t).outs) : Dependence lo ps k g' := by
  have hedge : GraphEdge lo g' = GraphEdge lo g := by
    unfold GraphEdge
    rw [hfresh, funext houts]
  constructor
  case book => exact hbook
  case fresh => exact hfresh.trans h.fresh
  case loop_le => exact h.loop_le
  case sound =>
    rw [hedge]
    exact h.sound
  case complete =>
    rw [hedge]
    exact h.complete
  case table =>
    intro a
    rw [hedge, htable]
    exact h.table a

/-- Nothing has been registered since `spawn_and_wait` returned. -/
theorem Dependence.reset {g : TaskDagGraph} (hbook : Book g.fresh g)
    (htable : ∀ a, g.addrTask a = none) : Dependence g.fresh [] 0 g where
  book := hbook
  fresh := rfl
  loop_le := by simp
  sound := fun u t h => by simpa using h.1
  complete := fun u t ⟨k, l, _, a, type, type', ht, _⟩ =>
    absurd ht.range.1 (Nat.not_le_of_lt ht.range.2)
  table := fun a => by
    rw [htable]
    apply EntryOk.empty
    rintro t type ⟨j, hj, -⟩
    exact absurd hj (Nat.not_lt_zero j)

theorem conflictFree_nil (lo : TaskId) : ConflictFree lo [] := by
  rintro k t u - ⟨a, type, type', ht, -⟩
  obtain ⟨hlo, hhi⟩ := ht.range
  exact absurd hlo (Nat.not_le_of_lt hhi)

/-- A task that conflicts with no other one of its loop. -/
theorem ConflictFree.append {lo : TaskId} {ps : List (Nat × TaskSpec)} {k : Nat}
    {spec : TaskSpec} (h : ConflictFree lo ps)
    (hsep : ∀ p ∈ ps, p.1 = k → ∀ x ∈ p.2.accesses, ∀ y ∈ spec.accesses, ¬ x.Clash y) :
    ConflictFree lo (ps ++ [(k, spec)]) := by
  -- a new task and an old one of its loop
  have hnew : ∀ j t a type x, Accesses lo ps t j a type → j = k → x ∈ spec.accesses →
      x.addr = a → x.type ≠ .INOUT_NONE → ¬ (type.writes = true ∨ x.type.writes = true) := by
    rintro j t a type x ⟨-, ha, hnone, sp, hsp, y, hy, rfl, rfl⟩ rfl hx hxa hxn hw
    exact hsep _ (List.mem_of_getElem? hsp) rfl y hy x hx ⟨hxa.symm, ha, hnone, hxn, hw⟩
  rintro j t u hne ⟨a, type, type', ht, hu, hw⟩
  rcases accesses_append.mp ht with hold | ⟨rfl, rfl, -, hnone, x, hx, hxa, rfl⟩
  · rcases accesses_append.mp hu with hold' | ⟨rfl, rfl, -, hnone, x, hx, hxa, rfl⟩
    · exact h j t u hne ⟨a, type, type', hold, hold', hw⟩
    · exact hnew _ t a type x hold rfl hx hxa hnone hw
  · rcases accesses_append.mp hu with hold' | ⟨rfl, -⟩
    · exact hnew _ u a type' x hold' rfl hx hxa hnone hw.symm
    · exact hne rfl

/-! ## Replaying -/

theorem runAll_interval (body : TaskId → Serial.Prog Addr V) (lo hi : TaskId) (mem : Addr → V) :
    Serial.runAll body (interval lo hi) mem = Serial.serial body lo mem (hi - lo) :=
  Serial.runAll_range' body lo mem (hi - lo)

theorem replay_congr {body body' : TaskId → Serial.Prog Addr V} (mem : Addr → V)
    {changes : List (Change V)}
    (h : ∀ tasks, .run tasks ∈ changes → ∀ t ∈ tasks, body t = body' t) :
    replay body mem changes = replay body' mem changes := by
  induction changes with
  | nil => rfl
  | cons c changes ih =>
      have hrest := ih fun tasks hmem => h tasks (List.mem_cons_of_mem c hmem)
      cases c with
      | write a v => rw [replay, replay, hrest]
      | run tasks =>
          rw [replay, replay, hrest]
          exact Serial.runAll_congr (h tasks List.mem_cons_self) _

/-! ## The invariant -/

namespace Program

/-- Stored graphs order their bodies. -/
def Stored (lo : Int → TaskId) (s : Program m V) : Prop :=
  ∀ no inst, s.graph.reuse.dagInstanceMap no = some inst →
    Ordered s.body s.runtime.outs (lo no) inst.endTask

/-- Only registered tasks have been run. -/
def Known (s : Program m V) : Prop :=
  ∀ tasks, .run tasks ∈ s.changes → ∀ t ∈ tasks, t < s.graph.fresh

/-- Between two calls. -/
structure Between (mem₀ : Addr → V) (lo : Int → TaskId) (base : TaskId) (s : Program m V) :
    Prop where
  session : s.session.Between lo base
  stored : s.Stored lo
  dependence : Dependence base s.specs s.loops s.session.building
  tuples : s.session.looping = true →
    RecordedTuples base s.specs s.loops s.graph.oneVirtualTaskTuples
  closed : s.session.looping = false → ∀ p ∈ s.specs, p.1 < s.loops
  sorted : s.specs.Pairwise fun p q => p.1 ≤ q.1
  free : ConflictFree base s.specs
  within : ∀ t, base ≤ t → t < s.graph.fresh →
    (s.body t).Within (DeclaresRead base s.specs t) (DeclaresWrite base s.specs t)
  mem : s.mem = replay s.body mem₀ s.changes
  known : s.Known

/-- The run of the tasks from `a` to `e` that began with the memory `mem`. -/
inductive Running (a e : TaskId) (mem : Addr → V) (s : Program m V) : Prop
  | round (d : Serial.Declared Addr V) (st : Serial.State Addr V)
      (round : InRound (Finset.Ico a e) e s.runtime)
      (prog : ∀ t, a ≤ t → t < e → s.body t = d.prog t)
      (order : ∀ u t, a ≤ u → u < t → t < e → d.Conflict u t →
        TransGen (Release.Edge (Finset.Ico a e) s.runtime.outs) u t)
      (sim : Simulates s.machine st) (inv : Serial.Inv d a e mem st)
  | hollow (empty : a = e) (hollow : Hollow e s.runtime) (mem : s.mem = mem)

/-- During a run of the tasks from `a` to `e`. -/
structure During (mem₀ : Addr → V) (lo : Int → TaskId) (a e : TaskId) (s : Program m V) :
    Prop where
  session : s.session.During lo a e
  stored : s.Stored lo
  running : ∃ past, s.changes = .run (interval a e) :: past ∧
    s.Running a e (replay s.body mem₀ past)
  known : s.Known
  specs : s.specs = []
  loops : s.loops = 0

def Inv (mem₀ : Addr → V) (s : Program m V) : Prop :=
  (∃ lo base, s.Between mem₀ lo base) ∨ ∃ lo a e, s.During mem₀ lo a e

theorem between_start (mem : Addr → V) : Between mem (fun _ => 0) 0 (start mem : Program m V) where
  session := Session.between_start
  stored := fun no inst h => by cases h
  dependence := Dependence.blank (blank_init (m + 1))
  tuples := fun h => by cases h
  closed := fun _ p h => by cases h
  sorted := List.Pairwise.nil
  free := conflictFree_nil 0
  within := fun t _ h => absurd h (Nat.not_lt_zero t)
  mem := rfl
  known := fun tasks h => by cases h

/-! ## Steps of the threads -/

theorem Stored.shape {lo : Int → TaskId} {s : Program m V} (h : s.Stored lo) {r : Runtime m}
    (hshape : s.heap.SameShape r.heap)
    (hmap : r.graph.reuse.dagInstanceMap = s.graph.reuse.dagInstanceMap) (mem : Addr → V)
    (cont : Fin (m + 1) → Serial.Prog Addr V) :
    Stored lo { s with
      session := { s.session with runtime := r }, mem := mem, cont := cont } := by
  intro no inst hno
  apply (h no inst (hmap ▸ hno)).mono (fun _ _ _ => rfl)
  intro t _ _ u hu
  show u ∈ (r.heap t).outs
  rw [hshape.outs]
  exact hu

@[simp] theorem building_fresh (s : Session m) : s.building.fresh = s.graph.fresh := by
  unfold Session.building
  split <;> rfl

@[simp] theorem building_heap (s : Session m) : s.building.heap = s.heap := by
  unfold Session.building
  split <;> rfl

@[simp] theorem building_addrTask (s : Session m) : s.building.addrTask = s.graph.addrTask := by
  unfold Session.building
  split <;> rfl

/-- No call is under way. -/
theorem Between.thread {mem₀ : Addr → V} {lo : Int → TaskId} {base : TaskId} {s s' : Program m V}
    (h : s.Between mem₀ lo base) {i : Fin (m + 1)} {hit : Bool} (hs : s.thread i hit = some s') :
    s'.Between mem₀ lo base := by
  obtain ⟨x, hx, rfl⟩ := Option.map_eq_some_iff.mp hs
  have hafter := h.session.after
  obtain ⟨⟨t, hbody⟩, -⟩ | ⟨hstep, hmem⟩ := Machine.step_runtime hx
  · exact absurd (Or.inl hbody) ((hafter.idle.resting i).outside t)
  · have hmove := step_move (fun j => (hafter.idle.resting j).inside) hstep
    have hsession := h.session.move hmove
    have hgraph : x.runtime.graph = { s.graph with heap := x.runtime.heap } :=
      hmove.graph fun _ e hm => by rw [hafter.main] at hm; cases hm
    have hfresh : x.runtime.graph.fresh = s.graph.fresh := by rw [hgraph]
    constructor
    case session => exact hsession
    case stored => exact h.stored.shape hmove.shape (by rw [hgraph]) x.mem x.cont
    case dependence =>
      refine h.dependence.congr hsession.book ?_ ?_ fun t => ?_
      · rw [building_fresh, building_fresh]
        exact hfresh
      · rw [building_addrTask, building_addrTask]
        show x.runtime.graph.addrTask = _
        rw [hgraph]
      · rw [building_heap, building_heap]
        exact hmove.shape.outs t
    case tuples =>
      intro hloop
      show RecordedTuples base s.specs s.loops x.runtime.graph.oneVirtualTaskTuples
      rw [hgraph]
      exact h.tuples hloop
    case closed => exact h.closed
    case sorted => exact h.sorted
    case free => exact h.free
    case within => exact fun t hlo hhi => h.within t hlo (hfresh ▸ hhi)
    case mem => exact hmem.trans h.mem
    case known =>
      intro tasks htasks t ht
      show t < x.runtime.graph.fresh
      rw [hfresh]
      exact h.known tasks htasks t ht

/-- The run that is under way is not over yet. -/
theorem Running.step {a e : TaskId} {mem : Addr → V} {s : Program m V} (h : s.Running a e mem)
    {i : Fin (m + 1)} {hit : Bool} {x : Machine m V}
    (hx : s.machine.step s.body i hit = some x)
    (hback : i = 0 → ∀ e, s.runtime.main ≠ .returned e) :
    Running a e mem { s with
      session := { s.session with runtime := x.runtime }, mem := x.mem, cont := x.cont } := by
  cases h with
  | round d st hround hprog horder hsim hinv =>
      obtain ⟨st', hst, hsim'⟩ := hsim.step hround horder hprog hx
      have hinv' : Serial.Inv d a e mem st' := by
        rcases hst with rfl | hst
        · exact hinv
        · exact hinv.step hst
      obtain ⟨-, hsame⟩ | ⟨hstep, -⟩ := Machine.step_runtime hx
      · have hruntime : x.runtime = s.runtime := hsame
        refine .round d st' ?_ hprog ?_ hsim' hinv'
        · show InRound _ e x.runtime
          rw [hruntime]
          exact hround
        · show ∀ u t, _ → _ → _ → _ → TransGen (Release.Edge _ x.runtime.outs) u t
          rw [hruntime]
          exact horder
      · have hmove := step_move hround.round.inside hstep
        refine .round d st' (hround.move (fun hi => hback hi e) hmove) hprog ?_ hsim' hinv'
        show ∀ u t, _ → _ → _ → _ → TransGen (Release.Edge _ x.runtime.outs) u t
        rw [show x.runtime.outs = s.runtime.outs from hmove.shape.outs_fun]
        exact horder
  | hollow hempty hhollow hmem =>
      obtain ⟨⟨t, hbody⟩, -⟩ | ⟨hstep, hsame⟩ := Machine.step_runtime hx
      · exact absurd (Or.inl hbody) ((hhollow.idle.resting i).outside t)
      · have hmove := step_move (fun j => (hhollow.idle.resting j).inside) hstep
        exact .hollow hempty (hhollow.move hback hmove).1 (hsame.trans hmem)

/-- When `spawn_and_wait` returns, the tasks have been run as if one after another. -/
theorem Running.mem_of_returned {a e : TaskId} {mem : Addr → V} {s : Program m V}
    (h : s.Running a e mem) (hle : a ≤ e) (hm : s.runtime.main = .returned e) :
    s.mem = Serial.runAll s.body (interval a e) mem := by
  rw [runAll_interval]
  cases h with
  | round d st hround hprog _ hsim hinv =>
      have hall : ∀ t, a ≤ t → t < e → st.finished t := by
        intro t hlo hhi
        rw [hsim.finished]
        have hfin := (hround.round.complete (hround.ended (Or.inr hm))
          (Finset.mem_Ico.mpr ⟨hlo, hhi⟩)).2.1
        change s.runtime.finishes t ≠ 0
        omega
      calc
        s.mem = st.mem := hsim.mem.symm
        _ = Serial.serial d.prog a mem (e - a) := hinv.serial_of_finished hle hall
        _ = Serial.serial s.body a mem (e - a) :=
          Serial.serial_congr mem fun t hlo hhi =>
            (hprog t hlo (Nat.lt_of_lt_of_eq hhi (Nat.add_sub_cancel' hle))).symm
  | hollow hempty _ hmem =>
      subst hempty
      rw [hmem, Nat.sub_self]
      rfl

theorem During.thread {mem₀ : Addr → V} {lo : Int → TaskId} {a e : TaskId} {s s' : Program m V}
    (h : s.During mem₀ lo a e) {i : Fin (m + 1)} {hit : Bool} (hs : s.thread i hit = some s') :
    s'.Inv mem₀ := by
  obtain ⟨x, hx, rfl⟩ := Option.map_eq_some_iff.mp hs
  obtain ⟨past, hchanges, hrunning⟩ := h.running
  have hinside : ∀ j, (s.runtime.pc j).Inside s.heap :=
    Session.Inv.inside (Or.inr ⟨lo, a, e, h.session⟩)
  by_cases hback : i = 0 ∧ ∃ e', s.runtime.main = .returned e'
  · -- the last step of `spawn_and_wait`
    obtain ⟨rfl, e', hm⟩ := hback
    have hwaits := h.session.waits
    rw [hm] at hwaits
    cases hwaits
    obtain ⟨⟨t, hbody⟩, -⟩ | ⟨hstep, hmem⟩ := Machine.step_runtime hx
    · exact absurd (Or.inl hbody) (((h.session.idle (Or.inr hm)).resting 0).outside t)
    · obtain hruntime := (step_move hinside hstep).of_returned hm
      have hshape := (step_move hinside hstep).shape
      have hsession := h.session.back hm
      rw [← hruntime] at hsession
      refine Or.inl ⟨lo, s.graph.fresh, ?_⟩
      have hfresh : x.runtime.graph.fresh = s.graph.fresh := by rw [hruntime]; rfl
      constructor
      case session => exact hsession
      case stored => exact h.stored.shape hshape (by rw [hruntime]; rfl) x.mem x.cont
      case dependence =>
        have hreset : Dependence _ [] 0 (Session.building { s.session with runtime := x.runtime }) :=
          Dependence.reset (by rw [building_fresh]; exact hfresh ▸ hsession.book)
            (by rw [building_addrTask]; rw [hruntime]; exact fun _ => rfl)
        rw [building_fresh] at hreset
        show Dependence _ s.specs s.loops _
        rw [h.specs, h.loops, ← hfresh]
        exact hreset
      case tuples =>
        intro hloop
        have hnot := h.session.looping
        rw [show s.session.looping = true from hloop] at hnot
        cases hnot
      case closed =>
        intro _ p hp
        rw [show s.specs = [] from h.specs] at hp
        cases hp
      case sorted =>
        show s.specs.Pairwise _
        rw [h.specs]
        exact List.Pairwise.nil
      case free =>
        show ConflictFree _ s.specs
        rw [h.specs]
        exact conflictFree_nil _
      case within => exact fun t hlo hhi => absurd hlo (Nat.not_le_of_lt (hfresh ▸ hhi))
      case mem =>
        show x.mem = replay s.body mem₀ s.changes
        rw [hmem, hchanges]
        exact hrunning.mem_of_returned h.session.range.1 hm
      case known =>
        intro tasks htasks t ht
        show t < x.runtime.graph.fresh
        rw [hfresh]
        exact h.known tasks htasks t ht
  · have hback : i = 0 → ∀ e, s.runtime.main ≠ .returned e :=
      fun hi e' hm => hback ⟨hi, e', hm⟩
    have hmoved : Session.During lo a e { s.session with runtime := x.runtime } ∧
        s.heap.SameShape x.runtime.heap ∧ x.runtime.graph.reuse = s.graph.reuse ∧
        x.runtime.graph.fresh = s.graph.fresh := by
      obtain ⟨-, hsame⟩ | ⟨hstep, -⟩ := Machine.step_runtime hx
      · have hruntime : x.runtime = s.runtime := hsame
        rw [hruntime]
        exact ⟨h.session, Heap.SameShape.refl _, rfl, rfl⟩
      · have hmove := step_move hinside hstep
        have hgraph : x.runtime.graph = { s.graph with heap := x.runtime.heap } :=
          hmove.graph hback
        exact ⟨h.session.move hback hmove, hmove.shape, by rw [hgraph], by rw [hgraph]⟩
    obtain ⟨hsession, hshape, hreuse, hfresh⟩ := hmoved
    refine Or.inr ⟨lo, a, e, hsession, ?_, ?_, ?_, h.specs, h.loops⟩
    · exact h.stored.shape hshape (congrArg DagReuse.dagInstanceMap hreuse) x.mem x.cont
    · exact ⟨past, hchanges, hrunning.step hx hback⟩
    · intro tasks htasks t ht
      show t < x.runtime.graph.fresh
      rw [hfresh]
      exact h.known tasks htasks t ht

/-! ## Calls that build -/

theorem call_build {s s' : Session m} {c : BuildCall} (hs : s.call (.build c) = some s') :
    s.runtime.main = .prog ∧ s.build c = some s' := by
  unfold Session.call at hs
  split at hs
  · rename_i hm
    exact ⟨hm, hs⟩
  · cases hs

section Calls

variable {mem₀ : Addr → V} {lo : Int → TaskId} {base : TaskId} {s s' : Program m V}

theorem Between.push (h : s.Between mem₀ lo base) {c : PushCall} {item : Addr × AreaFlag}
    {args : List (Addr × AreaFlag)} (hs : s.push c item args = some s') :
    s'.Between mem₀ lo base := by
  obtain ⟨-, hs⟩ := Option.ite_none_right_eq_some.mp hs
  cases hs
  exact { h with }

theorem Between.write (h : s.Between mem₀ lo base) {a : Addr} {v : V}
    (hs : s.write a v = some s') : s'.Between mem₀ lo base := by
  obtain ⟨-, hs⟩ := Option.ite_none_right_eq_some.mp hs
  cases hs
  refine { h with mem := ?_, known := ?_ }
  · show Function.update s.mem a v = Function.update (replay s.body mem₀ s.changes) a v
    rw [h.mem]
  · intro tasks htasks t ht
    obtain hmem | hmem := List.mem_cons.mp htasks
    · cases hmem
    · exact h.known tasks hmem t ht

/-- A call that builds keeps the objects of the stored graphs and the numbers. -/
theorem Between.stored_build (h : s.Between mem₀ lo base) {c : BuildCall} {session : Session m}
    (hs : s.session.build c = some session) {body : TaskId → Serial.Prog Addr V}
    (hbody : ∀ t, t < base → body t = s.body t) (no : Int) (inst : DagInstance)
    (hno : session.graph.reuse.dagInstanceMap no = some inst) :
    Ordered body session.runtime.outs (lo no) inst.endTask := by
  obtain ⟨hheap, hreuse, -⟩ := Session.build_frame h.session hs
  have hno : s.graph.reuse.dagInstanceMap no = some inst := hreuse ▸ hno
  have hlt := (h.session.shelf.tasks no inst hno).2.1
  refine (h.stored no inst hno).mono (fun t _ hhi => hbody t (Nat.lt_trans hhi hlt)) ?_
  intro t _ hhi u hu
  show u ∈ (session.heap t).outs
  rw [hheap t (Nat.lt_trans hhi hlt)]
  exact hu

theorem build_beginCall {s s' : Session m} {l : Loop} (hs : s.build l.beginCall = some s') :
    s.looping = false ∧
      s' = { s.setGraph (s.graph.build l.beginCall) with looping := true } := by
  unfold Loop.beginCall at hs ⊢
  unfold Session.build at hs
  cases hl : l.named with
  | none =>
      rw [hl] at hs
      cases hloop : s.looping with
      | true =>
          rw [hloop] at hs
          cases hs
      | false =>
          rw [hloop] at hs
          cases hs
          exact ⟨rfl, rfl⟩
  | some n =>
      rw [hl] at hs
      cases hloop : s.looping with
      | true =>
          rw [hloop] at hs
          cases hs
      | false =>
          rw [hloop] at hs
          obtain ⟨-, hs⟩ := Option.ite_none_right_eq_some.mp hs
          cases hs
          exact ⟨rfl, rfl⟩

theorem Between.beginCall (h : s.Between mem₀ lo base) {l : Loop} {session : Session m}
    (hs : s.session.build l.beginCall = some session) :
    Between mem₀ lo base { s with session := session } := by
  have hsession := h.session.build hs
  have hstored := h.stored_build hs (fun _ _ => rfl)
  obtain ⟨hloop, rfl⟩ := build_beginCall hs
  obtain ⟨hdep, hrec⟩ := h.dependence.begin (h.closed hloop) l
  have hbegin : s.session.building.build l.beginCall = s.graph.build l.beginCall := by
    unfold Session.building Loop.beginCall
    rw [hloop]
    cases l.named <;> rfl
  have hfresh : (s.graph.build l.beginCall).fresh = s.graph.fresh := by
    unfold Loop.beginCall
    cases l.named <;> rfl
  rw [hbegin] at hdep hrec
  constructor
  case session => exact hsession
  case stored => exact hstored
  case dependence => exact hdep
  case tuples => exact fun _ => hrec
  case closed =>
    intro hnot
    cases hnot
  case sorted => exact h.sorted
  case free => exact h.free
  case within => exact fun t hlo hhi => h.within t hlo (hfresh ▸ hhi)
  case mem => exact h.mem
  case known =>
    intro tasks htasks t ht
    show t < (s.graph.build l.beginCall).fresh
    rw [hfresh]
    exact h.known tasks htasks t ht

theorem Between.endSplitTask (h : s.Between mem₀ lo base) {session : Session m}
    (hs : s.session.build .endSplitTask = some session) :
    Between mem₀ lo base { s with session := session, loops := s.loops + 1 } := by
  have hsession := h.session.build hs
  have hstored := h.stored_build hs (fun _ _ => rfl)
  obtain ⟨hloop, rfl⟩ : s.session.looping = true ∧
      session = { s.session.setGraph s.graph.endSplitTask with looping := false } := by
    unfold Session.build at hs
    cases hloop : s.session.looping with
    | false =>
        rw [hloop] at hs
        cases hs
    | true =>
        rw [hloop] at hs
        cases hs
        exact ⟨rfl, rfl⟩
  have hbuilding : s.session.building = s.graph := by
    unfold Session.building
    rw [if_pos hloop]
  have hdep := h.dependence
  rw [hbuilding] at hdep
  have hend := hdep.endSplit (h.tuples hloop) h.free
  have hfresh : s.graph.endSplitTask.fresh = s.graph.fresh := by
    rw [endSplitTask_eq]
  constructor
  case session => exact hsession
  case stored => exact hstored
  case dependence =>
    refine hend.congr hsession.book ?_ ?_ fun t => ?_
    · exact building_fresh _
    · exact building_addrTask _
    · rw [building_heap]
      rfl
  case tuples =>
    intro hnot
    cases hnot
  case closed => exact fun _ p hp => Nat.lt_succ_of_le (hdep.loop_le p hp)
  case sorted => exact h.sorted
  case free => exact h.free
  case within => exact fun t hlo hhi => h.within t hlo (hfresh ▸ hhi)
  case mem => exact h.mem
  case known =>
    intro tasks htasks t ht
    show t < s.graph.endSplitTask.fresh
    rw [hfresh]
    exact h.known tasks htasks t ht

theorem Between.dagStart (h : s.Between mem₀ lo base) (hloop : s.session.looping = false)
    (dagNo : Int) (intVec : List Int) (floatVec : List Double) :
    Between mem₀ lo base { s with session := s.session.dagStart dagNo intVec floatVec } := by
  have hsession := h.session.dagStart hloop dagNo intVec floatVec
  obtain ⟨u, hu, hmap, -⟩ := Session.dagStart_eq s.graph dagNo intVec floatVec
  have hgraph : (s.session.dagStart dagNo intVec floatVec).graph = { s.graph with reuse := u } := hu
  have hfresh : (s.session.dagStart dagNo intVec floatVec).graph.fresh = s.graph.fresh := by
    rw [hgraph]
  constructor
  case session => exact hsession
  case stored =>
    intro no inst hno
    have hsame : (s.session.dagStart dagNo intVec floatVec).graph.reuse.dagInstanceMap =
        s.graph.reuse.dagInstanceMap := by
      rw [hgraph]
      exact hmap
    have hold : s.graph.reuse.dagInstanceMap no = some inst := hsame ▸ hno
    apply (h.stored no inst hold).mono (fun _ _ _ => rfl)
    intro t _ _ v hv
    show v ∈ ((s.session.dagStart dagNo intVec floatVec).graph.heap t).outs
    rw [hgraph]
    exact hv
  case dependence =>
    refine h.dependence.congr hsession.book ?_ ?_ fun t => ?_
    · rw [building_fresh, building_fresh]
      exact hfresh
    · rw [building_addrTask, building_addrTask, hgraph]
    · rw [building_heap, building_heap]
      exact congrArg (fun g => (g.heap t).outs) hgraph
  case tuples =>
    intro hnot
    rw [show s.session.looping = true from hnot] at hloop
    cases hloop
  case closed => exact h.closed
  case sorted => exact h.sorted
  case free => exact h.free
  case within => exact fun t hlo hhi => h.within t hlo (hfresh ▸ hhi)
  case mem => exact h.mem
  case known =>
    intro tasks htasks t ht
    show t < (s.session.dagStart dagNo intVec floatVec).graph.fresh
    rw [hfresh]
    exact h.known tasks htasks t ht

/-- A task is registered with a body that stays within what has been pushed for it. -/
theorem Between.taskGenerator (h : s.Between mem₀ lo base) {junk : Junk}
    {ciGetNeighbors : Option (List Addr)} {body : Serial.Prog Addr V}
    (hok : s.Honest (.taskGenerator junk ciGetNeighbors body))
    (hs : s.taskGenerator junk ciGetNeighbors body = some s') : s'.Between mem₀ lo base := by
  obtain ⟨hwithin, hsep⟩ := hok
  obtain ⟨session, hcall, rfl⟩ := Option.map_eq_some_iff.mp hs
  generalize ciTask junk ciGetNeighbors s.localVector = spec at hwithin hsep hcall ⊢
  obtain ⟨-, hbuild⟩ := call_build hcall
  have hsession := h.session.build hbuild
  have hbody : ∀ t, t ≠ s.graph.fresh →
      Function.update s.body s.graph.fresh body t = s.body t :=
    fun t ht => Function.update_of_ne ht _ _
  have hle : base ≤ s.graph.fresh := h.session.looped.lo_le
  have hold : ∀ t, t < base → Function.update s.body s.graph.fresh body t = s.body t :=
    fun t ht => hbody t (Nat.ne_of_lt (Nat.lt_of_lt_of_le ht hle))
  have hstored := h.stored_build hbuild hold
  obtain ⟨hloop, rfl⟩ : s.session.looping = true ∧
      session = { s.session.setGraph (s.graph.taskGenerator spec) with
        calls := .task s.graph.fresh :: s.session.calls } := by
    unfold Session.build at hbuild
    cases hloop : s.session.looping with
    | false =>
        rw [hloop] at hbuild
        cases hbuild
    | true =>
        rw [hloop] at hbuild
        cases hbuild
        exact ⟨rfl, rfl⟩
  have hbuilding : s.session.building = s.graph := by
    unfold Session.building
    rw [if_pos hloop]
  have hdep := h.dependence
  rw [hbuilding] at hdep
  constructor
  case session => exact hsession
  case stored => exact hstored
  case dependence =>
    refine (hdep.register spec).congr hsession.book ?_ ?_ fun t => ?_
    · exact building_fresh _
    · exact building_addrTask _
    · rw [building_heap]
      rfl
  case tuples =>
    intro _
    show RecordedTuples _ _ _ (s.graph.taskGenerator spec).oneVirtualTaskTuples
    rw [taskGenerator_tuples, hdep.fresh]
    exact (h.tuples hloop).append spec
  case closed =>
    intro hnot
    rw [show s.session.looping = false from hnot] at hloop
    cases hloop
  case sorted =>
    apply List.pairwise_append.mpr
    refine ⟨h.sorted, List.pairwise_singleton _ _, fun p hp q hq => ?_⟩
    rw [List.mem_singleton.mp hq]
    exact hdep.loop_le p hp
  case free => exact h.free.append hsep
  case within =>
    intro t hlo hhi
    have hhi : t < (s.graph.taskGenerator spec).fresh := hhi
    rw [taskGenerator_fresh] at hhi
    show (Function.update s.body s.graph.fresh body t).Within _ _
    by_cases ht : t = s.graph.fresh
    · subst ht
      rw [Function.update_self]
      apply hwithin.mono
      · rintro a ⟨ha, x, hx, hxa, hread⟩
        refine ⟨s.loops, x.type, accesses_append.mpr (Or.inr ⟨hdep.fresh, rfl, ha, ?_, x, hx,
          hxa, rfl⟩), hread⟩
        intro hnone
        rw [hnone] at hread
        cases hread
      · rintro a ⟨ha, x, hx, hxa, hwrite⟩
        refine ⟨s.loops, x.type, accesses_append.mpr (Or.inr ⟨hdep.fresh, rfl, ha, ?_, x, hx,
          hxa, rfl⟩), hwrite⟩
        intro hnone
        rw [hnone] at hwrite
        cases hwrite
    · rw [hbody t ht]
      apply (h.within t hlo (by lia)).mono
      · rintro a ⟨k, type, hacc, hread⟩
        exact ⟨k, type, accesses_append.mpr (Or.inl hacc), hread⟩
      · rintro a ⟨k, type, hacc, hwrite⟩
        exact ⟨k, type, accesses_append.mpr (Or.inl hacc), hwrite⟩
  case mem =>
    refine h.mem.trans (replay_congr mem₀ fun tasks htasks t ht => (hbody t ?_).symm)
    exact Nat.ne_of_lt (h.known tasks htasks t ht)
  case known =>
    intro tasks htasks t ht
    show t < (s.graph.taskGenerator spec).fresh
    rw [taskGenerator_fresh]
    exact Nat.lt_succ_of_lt (h.known tasks htasks t ht)

end Calls

/-! ## The call of `spawn_and_wait` -/

/-- Preparing a graph adds edges to its end task only. -/
theorem spawnAndWait_outs {lo : Int → TaskId} {base : TaskId} {s s' : Session m}
    (h : s.Between lo base) (hs : s.spawnAndWait = some s') :
    s.graph.fresh ≤ s'.graph.fresh ∧ s'.runtime.pc = s.runtime.pc ∧ s'.runtime.log = [] ∧
      ∀ t, t < s.graph.fresh → ∀ u ∈ (s.heap t).outs, u ∈ (s'.heap t).outs := by
  obtain ⟨g, e, hg, -, -, rfl⟩ := Session.spawnAndWait_eq_some hs
  have hclosed : ∀ t, t < s.graph.fresh → ∀ u ∈ (s.heap t).outs,
      u ∈ (s.graph.endConstructDag.heap t).outs := by
    intro t hhi u hu
    by_cases hlo : base ≤ t
    · exact (h.looped.mem_outs_closed (Finset.mem_Ico.mpr ⟨hlo, hhi⟩)).mpr (Or.inl hu)
    · rw [h.closed_below (Nat.lt_of_not_le hlo)]
      exact hu
  have hprepared : s.graph.fresh ≤ g.fresh ∧
      ∀ t, t < s.graph.fresh → ∀ u ∈ (s.heap t).outs, u ∈ (g.heap t).outs := by
    cases prepared_of_prepare hg with
    | resumed _ heq =>
        have hsame : g.heap = s.heap ∧ g.fresh = s.graph.fresh := by
          rw [heq]
          unfold resumeFromBuffer
          split <;> exact ⟨rfl, rfl⟩
        rw [hsame.1, hsame.2]
        exact ⟨Nat.le_refl _, fun _ _ _ => id⟩
    | stored heap _ _ hrun heq =>
        obtain ⟨heap', hrun', hmarks, -⟩ := h.looped.storeDagInfo
        obtain rfl := Option.some.inj (hrun'.symm.trans hrun)
        rw [heq]
        refine ⟨Nat.le_succ _, fun t ht u hu => ?_⟩
        show u ∈ (heap' t).outs
        rw [hmarks.same.outs]
        exact hclosed t ht u hu
    | built _ _ heq =>
        rw [heq]
        exact ⟨Nat.le_succ _, hclosed⟩
  refine ⟨hprepared.1, rfl, rfl, fun t ht u hu => ?_⟩
  show u ∈ (g.heap.incrementRefCount e t).outs
  rw [(g.heap.sameShape_increment e).outs]
  exact hprepared.2 t ht u hu

/-- What is run is the graph under construction or a stored one, and only the former can be
new among the stored ones. -/
theorem spawnAndWait_kinds {lo : Int → TaskId} {base : TaskId} {s s' : Session m}
    (h : s.Between lo base) (hloop : s.looping = false) (hs : s.spawnAndWait = some s') :
    ∃ lo' a e, s'.During lo' a e ∧
      (∀ no inst, s'.graph.reuse.dagInstanceMap no = some inst →
        (s.graph.reuse.dagInstanceMap no = some inst ∧ lo' no = lo no) ∨
        (lo' no = base ∧ inst.endTask = s.graph.fresh)) ∧
      ((a = base ∧ e = s.graph.fresh) ∨
        ∃ no inst, s.graph.reuse.dagInstanceMap no = some inst ∧ a = lo no ∧ e = inst.endTask) := by
  have hreuse := Session.spawnAndWait_reuse hs
  obtain ⟨g, hg, hr⟩ := Option.bind_eq_some_iff.mp hs
  obtain ⟨r, hspawn, rfl⟩ := Option.map_eq_some_iff.mp hr
  by_cases hreuses : s.graph.reuses = true
  · have hkind : s.kind = .resumed := if_pos hreuses
    rw [hkind] at hreuse ⊢
    rw [prepare_of_reuses hreuses] at hg
    cases hg
    obtain ⟨inst, hinst, hduring⟩ := h.spawnResumed hloop hspawn
    refine ⟨lo, _, _, hduring, fun no inst' hno => Or.inl ⟨?_, rfl⟩, Or.inr ⟨_, inst, hinst, rfl,
      rfl⟩⟩
    rwa [hreuse.2.2 (by decide)] at hno
  · by_cases hinits : s.graph.inits = true
    · have hkind : s.kind = .stored := (if_neg hreuses).trans (if_pos hinits)
      rw [hkind] at hreuse ⊢
      obtain ⟨g', hg', hduring⟩ := h.spawnStored hloop
      rw [prepare_of_inits hreuses hinits, hg'] at hg
      cases hg
      refine ⟨_, _, _, hduring r hspawn, fun no inst hno => ?_, Or.inl ⟨rfl, rfl⟩⟩
      rw [(hreuse.2.1 rfl).2.2] at hno
      let stored : TaskDagGraph := { s.graph with reuse := { s.graph.reuse with
        dagInstanceMap := Function.update s.graph.reuse.dagInstanceMap
          s.graph.reuse.currDagNo (some ⟨s.graph.fresh, s.graph.needSpawnTasks⟩) } }
      have hsome : stored.reuse.dagInstanceMap no = some inst := hno
      obtain ⟨rfl, rfl⟩ | ⟨hne, hold⟩ := Shelf.stored_cases (g := s.graph) rfl hsome
      · exact Or.inr ⟨Function.update_self .., rfl⟩
      · exact Or.inl ⟨hold, Function.update_of_ne hne ..⟩
    · have hkind : s.kind = .built := (if_neg hreuses).trans (if_neg hinits)
      rw [hkind] at hreuse ⊢
      rw [prepare_of_not_inits hreuses hinits] at hg
      cases hg
      refine ⟨lo, _, _, h.spawnBuilt hloop hspawn _, fun no inst hno => Or.inl ⟨?_, rfl⟩,
        Or.inl ⟨rfl, rfl⟩⟩
      rwa [hreuse.2.2 (by decide)] at hno

/-- No body is running. -/
theorem simulates_init {s : Machine m V} (hpc : ∀ i t, s.runtime.pc i ≠ .body t)
    (hlog : s.runtime.log = []) : Simulates s (Serial.State.init s.mem) where
  mem := rfl
  rest := fun t p => iff_of_false (fun h => by cases h) fun ⟨i, hi, _⟩ => hpc i t hi
  started := fun t => iff_of_false not_false (by simp [starts, hlog])
  finished := fun t => iff_of_false not_false (by simp [finishes, hlog])

theorem Between.spawnAndWait {mem₀ : Addr → V} {lo : Int → TaskId} {base : TaskId}
    {s : Program m V} (h : s.Between mem₀ lo base) (hloop : s.session.looping = false)
    {session : Session m} (hs : s.session.spawnAndWait = some session) :
    ∃ lo a e, During mem₀ lo a e { s with
      session := session
      specs := []
      loops := 0
      changes := .run ((runningTasks session.calls).getD []) :: s.changes } := by
  obtain ⟨hfresh, hpc, hlog, houts⟩ := spawnAndWait_outs h.session hs
  obtain ⟨lo', a, e, hduring, hmap, hrange⟩ := spawnAndWait_kinds h.session hloop hs
  have hbuilt : Ordered s.body session.runtime.outs base s.graph.fresh := by
    have hordered := h.dependence.ordered h.sorted h.free
      (show ∀ t, base ≤ t → t < s.session.building.fresh → (s.body t).Within _ _ by
        rw [building_fresh]
        exact h.within)
    rw [building_fresh, building_heap] at hordered
    exact hordered.mono (fun _ _ _ => rfl) fun t _ hhi => houts t hhi
  have hstored : ∀ no inst, s.graph.reuse.dagInstanceMap no = some inst →
      Ordered s.body session.runtime.outs (lo no) inst.endTask := by
    intro no inst hno
    have hlt := (h.session.shelf.tasks no inst hno).2.1
    have hle : base ≤ s.graph.fresh := h.session.looped.lo_le
    exact (h.stored no inst hno).mono (fun _ _ _ => rfl) fun t _ hhi => houts t (by lia)
  have hrun : Ordered s.body session.runtime.outs a e := by
    obtain ⟨rfl, rfl⟩ | ⟨no, inst, hno, rfl, rfl⟩ := hrange
    · exact hbuilt
    · exact hstored no inst hno
  have htasks : (runningTasks session.calls).getD [] = interval a e := by
    rw [hduring.running]
    rfl
  rw [htasks]
  refine ⟨lo', a, e, hduring, ?_, ⟨s.changes, rfl, ?_⟩, ?_, rfl, rfl⟩
  · intro no inst hno
    obtain ⟨hold, hlo⟩ | ⟨hlo, hend⟩ := hmap no inst hno
    · rw [hlo]
      exact hstored no inst hold
    · rw [hlo, hend]
      exact hbuilt
  · obtain hin | ⟨hempty, hhollow⟩ := hduring.round
    · obtain ⟨d, hprog, horder⟩ := hrun
      refine .round d (Serial.State.init s.mem) hin hprog horder (simulates_init ?_ hlog) ?_
      · intro i t hbody
        have hrest := (h.session.after.idle.resting i).outside t
        rw [← congrFun hpc i] at hrest
        exact hrest (Or.inl hbody)
      · rw [h.mem]
        exact Serial.Inv.init d a e _
    · exact .hollow hempty hhollow h.mem
  · intro tasks hmem t ht
    obtain hnew | hold := List.mem_cons.mp hmem
    · cases hnew
      exact Nat.lt_trans (mem_interval.mp ht).2 hduring.range.2
    · exact Nat.lt_of_lt_of_le (h.known tasks hold t ht) hfresh

/-! ## Every run -/

theorem Inv.between {mem₀ : Addr → V} {s : Program m V} (h : s.Inv mem₀)
    (hm : s.runtime.main = .prog) : ∃ lo base, s.Between mem₀ lo base := by
  obtain hbetween | ⟨lo, a, e, hduring⟩ := h
  · exact hbetween
  · have hwaits := hduring.session.waits
    rw [hm] at hwaits
    cases hwaits

theorem call_main {s s' : Session m} {c : ProgramCall} (hs : s.call c = some s') :
    s.runtime.main = .prog := by
  unfold Session.call at hs
  exact (Option.ite_none_right_eq_some.mp hs).1

theorem Inv.call {mem₀ : Addr → V} {s s' : Program m V} (h : s.Inv mem₀) {c : ProgramCall}
    (hs : s.call c = some s') : s'.Inv mem₀ := by
  have hmain : ∀ {c : ProgramCall} {session : Session m}, s.session.call c = some session →
      ∃ lo base, s.Between mem₀ lo base := fun hcall => h.between (call_main hcall)
  cases c with
  | build c =>
      have hbegin : ∀ {l : Loop} {session : Session m},
          s.session.call (.build l.beginCall) = some session →
          Inv mem₀ { s with session := session } := by
        intro l session hcall
        obtain ⟨lo, base, hbetween⟩ := hmain hcall
        exact Or.inl ⟨lo, base, hbetween.beginCall (call_build hcall).2⟩
      cases c with
      | registerTask spec => cases hs
      | beginSplitTask =>
          obtain ⟨session, hcall, rfl⟩ := Option.map_eq_some_iff.mp hs
          exact hbegin (l := ⟨none, []⟩) hcall
      | beginSplitTaskNamed n =>
          obtain ⟨session, hcall, rfl⟩ := Option.map_eq_some_iff.mp hs
          exact hbegin (l := ⟨some n, []⟩) hcall
      | endSplitTask =>
          obtain ⟨session, hcall, rfl⟩ := Option.map_eq_some_iff.mp hs
          obtain ⟨lo, base, hbetween⟩ := hmain hcall
          exact Or.inl ⟨lo, base, hbetween.endSplitTask (call_build hcall).2⟩
  | dagStart no iv fv =>
      obtain ⟨session, hcall, rfl⟩ := Option.map_eq_some_iff.mp hs
      obtain ⟨lo, base, hbetween⟩ := hmain hcall
      unfold Session.call at hcall
      obtain ⟨-, hcall⟩ := Option.ite_none_right_eq_some.mp hcall
      obtain ⟨hloop, hcall⟩ := Option.ite_none_left_eq_some.mp hcall
      cases hcall
      exact Or.inl ⟨lo, base, hbetween.dagStart (by simpa using hloop) no iv fv⟩
  | spawnAndWait =>
      obtain ⟨session, hcall, rfl⟩ := Option.map_eq_some_iff.mp hs
      obtain ⟨lo, base, hbetween⟩ := hmain hcall
      unfold Session.call at hcall
      obtain ⟨-, hcall⟩ := Option.ite_none_right_eq_some.mp hcall
      obtain ⟨hloop, hcall⟩ := Option.ite_none_left_eq_some.mp hcall
      exact Or.inr (hbetween.spawnAndWait (by simpa using hloop) hcall)

theorem Inv.act {mem₀ : Addr → V} {s s' : Program m V} (h : s.Inv mem₀) {a : Act m V}
    (hok : s.Honest a) (hs : s.act a = some s') : s'.Inv mem₀ := by
  cases a with
  | thread i hit =>
      obtain ⟨lo, base, hbetween⟩ | ⟨lo, a, e, hduring⟩ := h
      · exact Or.inl ⟨lo, base, hbetween.thread hs⟩
      · exact hduring.thread hs
  | push c item args =>
      obtain ⟨lo, base, hbetween⟩ := h.between (Option.ite_none_right_eq_some.mp hs).1
      exact Or.inl ⟨lo, base, hbetween.push hs⟩
  | write a v =>
      obtain ⟨lo, base, hbetween⟩ := h.between (Option.ite_none_right_eq_some.mp hs).1
      exact Or.inl ⟨lo, base, hbetween.write hs⟩
  | taskGenerator junk ciGetNeighbors body =>
      obtain ⟨session, hcall, -⟩ := Option.map_eq_some_iff.mp hs
      obtain ⟨lo, base, hbetween⟩ := h.between (call_main hcall)
      exact Or.inl ⟨lo, base, hbetween.taskGenerator hok hs⟩
  | call c => exact h.call hs

theorem Reached.inv {mem : Addr → V} {s : Program m V} (h : Reached Honest mem s) :
    s.Inv mem := by
  induction h with
  | start => exact Or.inl ⟨_, _, between_start mem⟩
  | act _ hok hact ih => exact ih.act hok hact

/-- However many threads there are, in whatever order they make their steps, and whether a
graph is built or run again: when `spawn_and_wait` has returned, the memory is the one that the
tasks leave when each `spawn_and_wait` runs its own one after another, in the order of their
registration. -/
theorem program_serial {mem : Addr → V} {s : Program m V} (h : Reached Honest mem s)
    (hmain : s.runtime.main = .prog) : s.mem = replay s.body mem s.changes := by
  obtain ⟨lo, base, hbetween⟩ := h.inv.between hmain
  exact hbetween.mem

namespace Example

/-- One task reads `8` and writes `16`, another one reads `16` and writes `8`. -/
def relayBody : Nat → Serial.Prog Addr Nat
  | 0 => .read 8 fun v => .write 16 (v + 1) .done
  | _ => .read 16 fun v => .write 8 (2 * v) .done

def reads : Nat → List Addr
  | 0 => [8]
  | _ => [16]

def writes : Nat → List Addr
  | 0 => [16]
  | _ => [8]

theorem relayBody_within (k : Nat) : (relayBody k).Within (· ∈ reads k) (· ∈ writes k) := by
  match k with
  | 0 => exact ⟨List.mem_cons_self, fun _ => ⟨List.mem_cons_self, trivial⟩⟩
  | _ + 1 => exact ⟨List.mem_cons_self, fun _ => ⟨List.mem_cons_self, trivial⟩⟩

/-- A line of the program: it registers one of the two tasks, or does something else. -/
inductive Line
  | task (k : Nat)
  | other (a : Act 1 Nat)

def Line.act : Line → Act 1 Nat
  | .task k => .taskGenerator ⟨true, 5⟩ none (relayBody k)
  | .other a => a

def Line.Ok (s : Program 1 Nat) : Line → Prop
  | .task k =>
    (∀ a ∈ reads k, Reads (ciTask ⟨true, 5⟩ none s.localVector) a) ∧
    (∀ a ∈ writes k, Writes (ciTask ⟨true, 5⟩ none s.localVector) a) ∧
    s.Separate (ciTask ⟨true, 5⟩ none s.localVector)
  | .other (.taskGenerator _ _ _) => False
  | .other _ => True

instance (s : Program 1 Nat) (l : Line) : Decidable (l.Ok s) :=
  match l with
  | .task _ => inferInstanceAs (Decidable (_ ∧ _ ∧ _))
  | .other (.taskGenerator _ _ _) => instDecidableFalse
  | .other (.thread _ _) => instDecidableTrue
  | .other (.push _ _ _) => instDecidableTrue
  | .other (.write _ _) => instDecidableTrue
  | .other (.call _) => instDecidableTrue

theorem Line.Ok.honest {s : Program 1 Nat} {l : Line} (h : l.Ok s) : s.Honest l.act := by
  cases l with
  | task k => exact ⟨(relayBody_within k).mono h.1 h.2.1, h.2.2⟩
  | other a =>
      cases a with
      | taskGenerator _ _ _ => exact h.elim
      | thread _ _ => exact trivial
      | push _ _ _ => exact trivial
      | write _ _ => exact trivial
      | call _ => exact trivial

def run (s : Program 1 Nat) : List Line → Option (Program 1 Nat)
  | [] => some s
  | l :: lines => if l.Ok s then (s.act l.act).bind fun s => run s lines else none

theorem reached_run {mem : Addr → Nat} {s s' : Program 1 Nat} (h : Reached Honest mem s)
    (lines : List Line) (hrun : run s lines = some s') : Reached Honest mem s' := by
  have hisrun : IsRun (fun s (l : Line) => if l.Ok s then s.act l.act else none) run :=
    .checked (fun _ => rfl) fun _ _ _ => rfl
  refine hisrun.keeps ?_ hrun h
  intro l _ s s' hact hreached
  obtain ⟨hok, hact⟩ := Option.ite_none_right_eq_some.mp hact
  exact hreached.act hok.honest hact

/-- Each task in a loop of its own. -/
def relay : List Line :=
  [.other (.call (.dagStart 3 [] [])),
    .other (.call (.build .beginSplitTask)),
    .other (.push .acemeshPushRlist (8, .NORMAL) []),
    .other (.push .acemeshPushWlist (16, .NORMAL) []),
    .task 0,
    .other (.call (.build .endSplitTask)),
    .other (.call (.build .beginSplitTask)),
    .other (.push .acemeshPushRlist (16, .NORMAL) []),
    .other (.push .acemeshPushWlist (8, .NORMAL) []),
    .task 1,
    .other (.call (.build .endSplitTask)),
    .other (.call .spawnAndWait)]

def turns (n : Nat) : List Line :=
  (List.replicate n ((List.finRange 2).map fun i => .other (.thread i true))).flatten

/-- The graph is stored under a number and run, and run again on another value. -/
def relayTwice (n k : Nat) : List Line :=
  relay ++ turns n ++ [.other (.write 8 5), .other (.call (.dagStart 3 [] [])),
    .other (.call .spawnAndWait)] ++ turns k

end Example

/-- The second run takes the graph that the first one has stored. -/
theorem program_serial_relay : ∃ s : Program 1 Nat, Reached Honest (fun _ => 2) s ∧
    s.runtime.main = .prog ∧ s.mem 8 = 12 ∧
    s.mem = replay s.body (fun _ => 2) s.changes := by
  have hrun : (Example.run (start fun _ => 2) (Example.relayTwice 24 24)).map
      (fun s => (s.runtime.main, s.mem 8)) = some (.prog, 12) := by decide +kernel
  obtain ⟨s, hs, hend⟩ := Option.map_eq_some_iff.mp hrun
  obtain ⟨hmain, hvalue⟩ := Prod.mk.inj hend
  have hreached := Example.reached_run .start _ hs
  exact ⟨s, hreached, hmain, hvalue, program_serial hreached hmain⟩

end Program

end AceMesh
