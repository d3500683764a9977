import AceMesh.Lib.Phases
import AceMesh.MainHand
import AceMesh.RoundRun

/-!
# Running a graph part by part

`spawn_and_wait_with_separation`, behind `end_construct_dag_separation`: the loop over
`sep_data` takes one part after the other, in the order of the keys. Each turn looks up the
end task of the part, adds one to its counter, spawns the roots of the part and waits as
`spawn_and_wait` does. The workers go on with the tasks of all parts meanwhile.

`Parted` says what the graph looks like, `Release.InTurn` what the parts need; `Parting` is
the invariant of the whole function, and `InPart` of one turn of its loop.
-/

open AceMesh.TaskDagGraph AceMesh.Runtime

namespace AceMesh

variable {m : Nat}

/-! ## The loop over the parts -/

structure Separation (m : Nat) where
  runtime : Runtime m
  /-- From `map_itr` to the end of `sep_data`. -/
  sepData : List (Int × List TaskId)
  sepEndTasks : Int → Option TaskId

namespace Separation

def parts (s : Separation m) : List Int := s.sepData.map (·.1)

/-- The roots of the parts whose turn has not come. -/
def laterRoots (s : Separation m) : List TaskId := s.sepData.flatMap (·.2)

/-- The head of the loop. `operator[]` makes a `NULL` entry for a part that is not there,
which `increment_ref_count` would dereference. Behind the last part the graph is reset. -/
def nextPart (s : Separation m) : Option (Separation m) :=
  match s.sepData with
  | (id, my_sep_data) :: rest =>
    (s.sepEndTasks id).map fun my_part =>
      { s with
        runtime := { s.runtime.setHeap (s.runtime.heap.incrementRefCount my_part) with
          main := .spawn my_part my_sep_data }
        sepData := rest }
  | [] =>
    some { s with
      runtime := { s.runtime with graph := s.runtime.graph.resetTaskGraph, main := .prog } }

/-- One step of one thread. `wait_for_all` returns to the loop. -/
def step (s : Separation m) (i : Fin (m + 1)) (hit : Bool) : Option (Separation m) :=
  match i.val, s.runtime.main with
  | 0, .returned _ => s.nextPart
  | _, _ => (s.runtime.step i hit).map fun r => { s with runtime := r }

/-- Any number of steps of any threads, in any order. -/
def Steps : Separation m → Separation m → Prop :=
  Relation.ReflTransGen fun s s' => ∃ i hit, s.step i hit = some s'

/-- The steps of one schedule. -/
def runSchedule (s : Separation m) : List (Fin (m + 1) × Bool) → Option (Separation m)
  | [] => some s
  | (i, hit) :: rest => (s.step i hit).bind fun s => s.runSchedule rest

theorem isRun_runSchedule : IsRun (fun (s : Separation m) a => s.step a.1 a.2) runSchedule :=
  ⟨fun _ => rfl, fun _ _ _ => rfl⟩

theorem steps_of_runSchedule {s s' : Separation m} {schedule : List (Fin (m + 1) × Bool)}
    (h : s.runSchedule schedule = some s') : s.Steps s' :=
  isRun_runSchedule.path (fun _ a _ hstep => ⟨a.1, a.2, hstep⟩) h

/-- A step is one of the runtime, or the return from a wait. -/
theorem step_cases {s s' : Separation m} {i : Fin (m + 1)} {hit : Bool}
    (h : s.step i hit = some s') :
    (i = 0 ∧ (∃ e, s.runtime.main = .returned e) ∧ s.nextPart = some s') ∨
    ((i = 0 → ∀ e, s.runtime.main ≠ .returned e) ∧
      ∃ r, s.runtime.step i hit = some r ∧ s' = { s with runtime := r }) := by
  unfold step at h
  split at h
  · rename_i e hval hmain
    exact Or.inl ⟨Fin.ext hval, ⟨e, hmain⟩, h⟩
  · rename_i hno
    obtain ⟨r, hr, rfl⟩ := Option.map_eq_some_iff.mp h
    refine Or.inr ⟨?_, r, hr, rfl⟩
    intro hi e he
    exact hno e (congrArg Fin.val hi) he

end Separation

/-! ## What the graph looks like -/

/-- An acyclic graph in which the tasks without a successor, and only these, lead to the end
task of their part. -/
structure Parted (n : Nat) (nodes : Finset TaskId) (part : TaskId → Int)
    (endOf : Int → Option TaskId) (h : Heap) : Prop where
  acyclic : ∀ u, ¬ Relation.TransGen (Release.Edge nodes fun t => (h t).outs) u u
  inner : ∀ u ∈ nodes, ¬ Release.Last nodes (fun t => (h t).outs) u →
    ∀ x ∈ (h u).outs, x ∈ nodes
  last : ∀ u, Release.Last nodes (fun t => (h t).outs) u →
    ∃ e, endOf (part u) = some e ∧ (h u).outs = [e]
  ends_notMem : ∀ q e, endOf q = some e → e ∉ nodes
  ends_inj : ∀ q q' e, endOf q = some e → endOf q' = some e → q = q'
  ends_used : ∀ q e, endOf q = some e →
    ∃ u, Release.Last nodes (fun t => (h t).outs) u ∧ part u = q
  affinity : ∀ t ∈ nodes, 0 ≤ (h t).affinityId ∧ (h t).affinityId < n

theorem Parted.sameShape {n : Nat} {nodes : Finset TaskId} {part : TaskId → Int}
    {endOf : Int → Option TaskId} {h h' : Heap} (hp : Parted n nodes part endOf h)
    (hs : h.SameShape h') : Parted n nodes part endOf h' where
  acyclic := by rw [hs.outs_fun]; exact hp.acyclic
  inner := by
    rw [hs.outs_fun]
    intro u hu hlast x hx
    exact hp.inner u hu hlast x (hs.outs u ▸ hx)
  last := by
    rw [hs.outs_fun]
    intro u hu
    rw [hs.outs]
    exact hp.last u hu
  ends_notMem := hp.ends_notMem
  ends_inj := hp.ends_inj
  ends_used := by rw [hs.outs_fun]; exact hp.ends_used
  affinity := fun t ht => by rw [hs.affinityId]; exact hp.affinity t ht

/-- An edge out of the graph comes from a task without a successor. -/
theorem Parted.last_of_out {n : Nat} {nodes : Finset TaskId} {part : TaskId → Int}
    {endOf : Int → Option TaskId} {h : Heap} (hp : Parted n nodes part endOf h) {u x : TaskId}
    (hu : u ∈ nodes) (hx : x ∈ (h u).outs) (hxn : x ∉ nodes) :
    Release.Last nodes (fun t => (h t).outs) u ∧ endOf (part u) = some x := by
  by_cases hlast : Release.Last nodes (fun t => (h t).outs) u
  · obtain ⟨e, he, houts⟩ := hp.last u hlast
    rw [houts] at hx
    rw [List.mem_singleton.mp hx]
    exact ⟨hlast, he⟩
  · exact absurd (hp.inner u hu hlast x hx) hxn

/-! ## The invariant -/

/-- The invariant while the roots of the parts in `sepData` wait for their turn. -/
structure Parting (nodes : Finset TaskId) (part : TaskId → Int) (s : Separation m) : Prop where
  parted : Parted (m + 1) nodes part s.sepEndTasks s.runtime.heap
  inTurn : Release.InTurn nodes s.runtime.outs part (Carried nodes s.runtime.heap)
  flow : Flow nodes (Round.excess nodes s.runtime) (s.runtime.main.roots ++ s.laterRoots)
    s.runtime
  /-- The end tasks of the parts that had their turn have been counted once more. -/
  counted : ∀ q e, s.sepEndTasks q = some e → (s.runtime.heap e).refCount =
    s.runtime.pending nodes e + if q ∈ s.parts then 0 else 1
  sorted : s.parts.Pairwise (· < ·)
  listed : ∀ q l, (q, l) ∈ s.sepData → l ≠ [] ∧
    ∀ t, t ∈ l ↔ Release.First nodes s.runtime.outs t ∧ part t = q
  hand : MainHand nodes s.runtime

namespace Parting

variable {nodes : Finset TaskId} {part : TaskId → Int} {s : Separation m}

theorem mem_of_root (h : Parting nodes part s) {t : TaskId} (ht : t ∈ s.runtime.main.roots) :
    t ∈ nodes := by
  have hpos : 0 < (s.runtime.main.roots ++ s.laterRoots).count t :=
    List.count_pos_iff.mpr (List.mem_append_left _ ht)
  have hplace := h.flow.place t
  split at hplace
  · rename_i hmem
    exact hmem.1
  · omega

/-- A root of a part whose turn has not come is not started. -/
theorem unstarted (h : Parting nodes part s) {t : TaskId}
    (ht : Release.First nodes s.runtime.outs t) (hpart : part t ∈ s.parts) :
    s.runtime.starts t = 0 := by
  obtain ⟨⟨q, l⟩, hmem, hq⟩ := List.mem_map.mp hpart
  have htl : t ∈ l := ((h.listed q l hmem).2 t).mpr ⟨ht, hq.symm⟩
  refine h.flow.starts_of_root (List.mem_append_right _ ?_)
  exact List.mem_flatMap.mpr ⟨(q, l), hmem, htl⟩

/-- No end task loses its last count: while its part waits, a root of the part leads to a
task that still counts on it. -/
theorem endTask_kept (h : Parting nodes part s) {i : Fin (m + 1)} {u x : TaskId} {k : Nat}
    (hi : (s.runtime.pc i).At s.runtime.heap u k) (hnext : (s.runtime.outs u)[k]? = some x)
    (hx : x ∉ nodes) : (s.runtime.heap x).refCount ≠ 1 := by
  obtain ⟨hu, hwalked⟩ := h.flow.walking i u k hi
  have hmem := List.mem_of_getElem? hnext
  obtain ⟨hlast, hend⟩ := h.parted.last_of_out hu hmem hx
  have hnext' : (s.runtime.outs u)[s.runtime.walked u]? = some x := by rw [hwalked]; exact hnext
  have hpos : 0 < s.runtime.pending nodes x := Release.pending_pos_of_next hu hnext'
  have hcount := h.counted _ x hend
  by_cases hpart : part u ∈ s.parts
  · obtain ⟨y, a, b, ha, hb, hpa, hpb, hay, hyb⟩ := h.inTurn.across u (Or.inr hlast)
    have hsa := h.unstarted ha (hpa ▸ hpart)
    have hsb := h.flow.unstarted_of_path (hay.trans hyb) hsa
    have hne : u ≠ b := fun heq => by
      have hone := h.flow.starts_of_at hi
      rw [heq] at hone
      omega
    obtain ⟨e, he, houts⟩ := h.parted.last b hb
    have hxe : x = e := Option.some.inj (hend.symm.trans (hpb ▸ he))
    have htwo : 2 ≤ s.runtime.pending nodes x := by
      refine Release.two_le_pending hu hb.1 hne ?_ ?_
      · rw [List.drop_eq_getElem_cons (List.getElem?_eq_some_iff.mp hnext').1]
        exact List.mem_cons.mpr (Or.inl (List.getElem?_eq_some_iff.mp hnext').2.symm)
      · rw [h.flow.unstarted b hsb, List.drop_zero]
        change x ∈ (s.runtime.heap b).outs
        rw [houts, hxe]
        exact List.mem_singleton_self e
    rw [if_pos hpart] at hcount
    omega
  · rw [if_neg hpart] at hcount
    omega

/-- A step of the runtime that keeps the roots. -/
theorem of_flow (h : Parting nodes part s) {roots : List TaskId} {r : Runtime m}
    (hshape : s.runtime.heap.SameShape r.heap)
    (hflow : Flow nodes (Round.excess nodes s.runtime) roots r)
    (hroots : roots = r.main.roots ++ s.laterRoots) (hhand : MainHand nodes r) :
    Parting nodes part { s with runtime := r } := by
  have houts : r.outs = s.runtime.outs := hshape.outs_fun
  constructor
  case parted => exact h.parted.sameShape hshape
  case inTurn =>
    change Release.InTurn nodes r.outs part _
    rw [houts]
    exact h.inTurn.mono fun x _ hx => hshape.symm.carried hx
  case flow =>
    rw [← show roots = r.main.roots ++ Separation.laterRoots { s with runtime := r } from hroots]
    exact { hflow with outside := fun t _ => by unfold Round.excess; omega }
  case counted =>
    intro q e he
    have hold := h.counted q e he
    have hnew := hflow.outside e (h.parted.ends_notMem q e he)
    unfold Round.excess at hnew
    change (r.heap e).refCount = r.pending nodes e + if q ∈ s.parts then 0 else 1
    omega
  case sorted => exact h.sorted
  case listed =>
    intro q l hmem
    change l ≠ [] ∧ ∀ t, t ∈ l ↔ Release.First nodes r.outs t ∧ part t = q
    rw [houts]
    exact h.listed q l hmem
  case hand => exact hhand

end Parting

/-! ## One turn of the loop -/

/-- The main thread is in the turn of part `p`, whose end task is `e`. -/
structure InPart (nodes : Finset TaskId) (part : TaskId → Int) (p : Int) (e : TaskId)
    (s : Separation m) : Prop where
  parting : Parting nodes part s
  current : s.sepEndTasks p = some e
  waits : s.runtime.main.waitsFor = some e
  next : ∀ q ∈ s.parts, p < q
  past : ∀ q e', s.sepEndTasks q = some e' → q ≠ p → q ∉ s.parts →
    s.runtime.pending nodes e' = 0
  resting : ∀ roots, s.runtime.main = .spawn e roots →
    (s.runtime.pc 0).Resting s.runtime.heap
  ended : s.runtime.main = .left e ∨ s.runtime.main = .returned e →
    s.runtime.pending nodes e = 0

/-- Between two turns every end task of a part that had its turn is done with. -/
structure BetweenParts (nodes : Finset TaskId) (part : TaskId → Int) (s : Separation m) :
    Prop where
  parting : Parting nodes part s
  done : ∀ q e, s.sepEndTasks q = some e → q ∉ s.parts → s.runtime.pending nodes e = 0
  resting : (s.runtime.pc 0).Resting s.runtime.heap
  roots : s.runtime.main.roots = []

/-- All tasks have been executed, and the program goes on. -/
structure AfterParts (nodes : Finset TaskId) (r : Runtime m) : Prop where
  after : AfterRound r
  executed : ∀ t ∈ nodes, r.starts t = 1 ∧ r.finishes t = 1
  inOrder : InOrder nodes r.outs r.log
  starts_le : ∀ t, r.starts t ≤ 1

namespace InPart

variable {nodes : Finset TaskId} {part : TaskId → Int} {p : Int} {e : TaskId}
  {s : Separation m}

/-- A task that the main thread would drop leads to an end task that is not done with. -/
theorem notHeld (h : InPart nodes part p e s)
    (hmain : s.runtime.main = .left e ∨ s.runtime.main = .returned e) {x : TaskId}
    (hx : s.runtime.pc 0 = .hold x) (hcarried : Carried nodes s.runtime.heap x) : False := by
  have hparting := h.parting
  have hhand : (s.runtime.pc 0).hand = some x := by rw [hx]; rfl
  obtain ⟨hmem, hready, hnot⟩ := hparting.flow.mem_of_hand hhand
  obtain ⟨q, a, b, ha, hb, hpa, hpb, hax, hxb⟩ := hparting.inTurn.held x hmem hcarried
  have hnotb := hparting.flow.unstarted_of_path hxb hnot
  -- the last task behind `x` still has its edge to the end task of the part
  obtain ⟨e', he', houts⟩ := hparting.parted.last b hb
  have hleft : s.runtime.pending nodes e' ≠ 0 := by
    intro hzero
    refine Release.pending_eq_zero_iff.mp hzero b hb.1 ?_
    rw [hparting.flow.unstarted b hnotb, List.drop_zero]
    change e' ∈ (s.runtime.heap b).outs
    rw [houts]
    exact List.mem_singleton_self e'
  rw [hpb] at he'
  by_cases hqp : q = p
  · subst hqp
    have hee : e = e' := Option.some.inj (h.current.symm.trans he')
    exact hleft (hee ▸ h.ended hmain)
  · by_cases hpart : q ∈ s.parts
    · -- the first task before `x` would not be pushed yet
      have hnota := hparting.unstarted ha (hpa ▸ hpart)
      have hxa : a = x := by
        rcases Relation.reflTransGen_iff_eq_or_transGen.mp hax with heq | htrans
        · exact heq.symm
        · have hfin := List.count_pos_iff.mpr (hparting.flow.finished_of_reach htrans hready)
          have hsum := hparting.flow.finished a
          unfold finishes at hsum
          omega
      obtain ⟨⟨q', l⟩, hql, hq'⟩ := List.mem_map.mp hpart
      have hal : a ∈ s.laterRoots := List.mem_flatMap.mpr
        ⟨(q', l), hql, ((hparting.listed q' l hql).2 a).mpr ⟨ha, hpa.trans hq'.symm⟩⟩
      have hplace := hparting.flow.place x
      have hroots : 0 < (s.runtime.main.roots ++ s.laterRoots).count x :=
        List.count_pos_iff.mpr (List.mem_append_right _ (hxa ▸ hal))
      have hheld : 0 < s.runtime.inHand x := tally_pos (i := 0) (by simp [hhand])
      split at hplace <;> omega
    · exact hleft (h.past q e' he' hqp hpart)

/-- When the main thread has left the loop it holds nothing. -/
theorem pc_next (h : InPart nodes part p e s)
    (hmain : s.runtime.main = .left e ∨ s.runtime.main = .returned e) :
    s.runtime.pc 0 = .next := by
  rcases h.parting.hand.paused e (Or.inr hmain) with hnext | ⟨x, hx, hcarried⟩
  · exact hnext
  · exact absurd (h.notHeld hmain hx hcarried) not_false

theorem pending_over (h : InPart nodes part p e s) :
    (s.runtime.heap e).refCount ≤ 1 ↔ s.runtime.pending nodes e = 0 := by
  have hcount := h.parting.counted p e h.current
  rw [if_neg fun hp => Int.lt_irrefl p (h.next p hp)] at hcount
  omega

/-- A step of the runtime inside of the turn. -/
theorem of_flow (h : InPart nodes part p e s) {roots : List TaskId} {r : Runtime m}
    (hshape : s.runtime.heap.SameShape r.heap)
    (hflow : Flow nodes (Round.excess nodes s.runtime) roots r)
    (hroots : roots = r.main.roots ++ s.laterRoots) (hhand : MainHand nodes r)
    (hless : ∀ t, r.pending nodes t ≤ s.runtime.pending nodes t)
    (hwaits : r.main.waitsFor = some e)
    (hresting : ∀ roots, r.main = .spawn e roots → (r.pc 0).Resting r.heap)
    (hended : r.main = .left e ∨ r.main = .returned e → r.pending nodes e = 0) :
    InPart nodes part p e { s with runtime := r } where
  parting := h.parting.of_flow hshape hflow hroots hhand
  current := h.current
  waits := hwaits
  next := h.next
  past := fun q e' he' hqp hq => Nat.le_zero.mp (h.past q e' he' hqp hq ▸ hless e')
  resting := hresting
  ended := hended

/-- Every step up to the return of the wait. -/
theorem step (h : InPart nodes part p e s) {i : Fin (m + 1)} {hit : Bool} {r : Runtime m}
    (hback : i = 0 → s.runtime.main ≠ .returned e) (hstep : s.runtime.step i hit = some r) :
    InPart nodes part p e { s with runtime := r } := by
  have hin := h.parting.flow.inside
  have hmove := step_move hin hstep
  have hhand := h.parting.hand.step (fun j t ht => (h.parting.flow.mem_of_hand ht).1)
    (fun e' t roots hm => h.parting.mem_of_root (by rw [hm]; exact List.mem_cons_self)) hin hstep
  have hless : ∀ t, r.pending nodes t ≤ s.runtime.pending nodes t := hmove.pending_le
  have hshape := hmove.shape
  have hflow := h.parting.flow
  have hwaits := h.waits
  cases hmove with
  | worker hi turn =>
      refine h.of_flow hshape (hflow.turn turn fun _ _ _ => h.parting.endTask_kept) ?_ hhand
        hless ?_ ?_ ?_
      · rw [turn.main]
      · rw [turn.main]
        exact hwaits
      · intro roots hspawn
        rw [turn.main] at hspawn
        rw [turn.others (Ne.symm hi)]
        exact hshape.resting (h.resting roots hspawn)
      · intro hover
        rw [turn.main] at hover
        exact Nat.le_zero.mp (h.ended hover ▸ hless e)
  | @root e' t roots hm j =>
      rw [hm] at hwaits hflow
      cases hwaits
      exact h.of_flow hshape ((hflow.spawnRoot j).withMain _) rfl hhand hless rfl
        (fun _ _ => h.resting _ hm) (by simp)
  | @enter e' hm =>
      rw [hm] at hwaits hflow
      cases hwaits
      have hrest := h.resting [] hm
      have hquiet : Flow nodes (Round.excess nodes s.runtime)
          ((MainPc.spawn e []).roots ++ s.laterRoots)
          ((s.runtime.setHeap s.runtime.heap).setPc 0 .next) :=
        hflow.quiet (Heap.SameShape.refl _) (fun _ => rfl) ⟨by simp [Pc.object], hrest.hand.symm,
          fun t k => iff_of_false (Pc.not_at_of_stage rfl t k) (hrest.noEdge t k), hrest.outside,
          by simp [Pc.BeforeRestore]⟩ trivial
      exact h.of_flow hshape (hquiet.withMain _) rfl hhand hless rfl (by simp) (by simp)
  | @test e' hm =>
      rw [hm] at hwaits hflow
      cases hwaits
      by_cases hlt : 1 < (s.runtime.heap e).refCount
      · rw [if_pos hlt] at hhand ⊢
        exact h.of_flow hshape (hflow.withMain _) rfl hhand hless rfl (by simp) (by simp)
      · rw [if_neg hlt] at hhand ⊢
        refine h.of_flow hshape (hflow.withMain _) rfl hhand hless rfl (by simp) fun _ => ?_
        exact h.pending_over.mp (by omega)
  | run hm turn =>
      have hmain := turn.main.trans hm
      refine h.of_flow hshape (hflow.turn turn fun _ _ _ => h.parting.endTask_kept) ?_ hhand
        hless ?_ ?_ ?_
      · rw [turn.main]
      · rw [turn.main]
        exact hwaits
      · rw [hmain]
        simp
      · rw [hmain]
        simp
  | @turnEnd e' r₁ hm turn =>
      have hnew := hflow.turn turn fun _ _ _ => h.parting.endTask_kept
      rw [hm] at hwaits hnew
      cases hwaits
      exact h.of_flow hshape (hnew.withMain _) rfl hhand hless rfl (by simp) (by simp)
  | @leave e' hm =>
      rw [hm] at hwaits hflow
      cases hwaits
      have hdelete : Flow nodes (Round.excess nodes s.runtime)
          ((MainPc.left e).roots ++ s.laterRoots)
          (s.runtime.setHeap (if (s.runtime.heap e).reused then s.runtime.heap
            else s.runtime.heap.delete e)) :=
        hflow.same (s.runtime.heap.sameShape_delete e) (s.runtime.heap.refCount_delete e) rfl
          (fun _ => rfl) (fun _ _ _ => Iff.rfl) (fun _ _ => Iff.rfl) (fun _ _ => Iff.rfl)
          (fun j => ((s.runtime.heap.sameShape_delete e).inside _).mpr (hin j))
      refine h.of_flow hshape (hdelete.withMain _) rfl hhand hless rfl (by simp) fun _ => ?_
      exact Nat.le_zero.mp (h.ended (Or.inl hm) ▸ hless e)
  | @back e' hm =>
      rw [hm] at hwaits hback
      cases hwaits
      exact absurd rfl (hback rfl)

/-- After the wait the loop goes on from here. -/
theorem between (h : InPart nodes part p e s) (hmain : s.runtime.main = .returned e) :
    BetweenParts nodes part s where
  parting := h.parting
  done := fun q e' he' hq => by
    by_cases hqp : q = p
    · rw [hqp, h.current] at he'
      cases he'
      exact h.ended (Or.inr hmain)
    · exact h.past q e' he' hqp hq
  resting := by
    rw [h.pc_next (Or.inr hmain)]
    exact Pc.resting_next _
  roots := by rw [hmain]; rfl

end InPart

/-! ## From one turn to the next -/

namespace BetweenParts

variable {nodes : Finset TaskId} {part : TaskId → Int} {s : Separation m}

/-- The state after the head of the loop. -/
def opened (s : Separation m) (e : TaskId) (l : List TaskId) (rest : List (Int × List TaskId)) :
    Separation m :=
  { s with
    runtime := { s.runtime.setHeap (s.runtime.heap.incrementRefCount e) with main := .spawn e l }
    sepData := rest }

section Opened

variable {q : Int} {e : TaskId} {l : List TaskId} {rest : List (Int × List TaskId)}

theorem pending_opened (s : Separation m) (x : TaskId) :
    (opened s e l rest).runtime.pending nodes x = s.runtime.pending nodes x :=
  Release.pending_congr (fun u _ => (s.runtime.heap.sameShape_increment e).outs u)
    (fun _ _ => rfl) x

/-- The count for the wait makes up for the part that is no longer waiting. -/
theorem counted_opened (h : Parting nodes part s) (hdata : s.sepData = (q, l) :: rest)
    (he : s.sepEndTasks q = some e) {q' : Int} {e' : TaskId}
    (he' : s.sepEndTasks q' = some e') :
    ((opened s e l rest).runtime.heap e').refCount =
      (opened s e l rest).runtime.pending nodes e' +
        if q' ∈ (opened s e l rest).parts then 0 else 1 := by
  have hparts : s.parts = q :: rest.map (·.1) := by rw [Separation.parts, hdata]; rfl
  have hsorted := h.sorted
  rw [hparts, List.pairwise_cons] at hsorted
  have hqrest : q ∉ rest.map (·.1) := fun hmem => Int.lt_irrefl q (hsorted.1 q hmem)
  have hold := h.counted q' e' he'
  have hnew := s.runtime.heap.refCount_increment e e'
  rw [pending_opened]
  change (s.runtime.heap.incrementRefCount e e').refCount =
    s.runtime.pending nodes e' + if q' ∈ rest.map (·.1) then 0 else 1
  by_cases hqq : q' = q
  · subst hqq
    cases Option.some.inj (he.symm.trans he')
    rw [if_pos (hparts ▸ List.mem_cons_self)] at hold
    rw [if_pos rfl] at hnew
    rw [if_neg hqrest]
    omega
  · have hne' : e' ≠ e := fun heq => hqq (h.parted.ends_inj q' q e (heq ▸ he') he)
    have hmem : q' ∈ s.parts ↔ q' ∈ rest.map (·.1) := by
      rw [hparts, List.mem_cons, or_iff_right hqq]
    simp only [hmem] at hold
    rw [if_neg hne'] at hnew
    omega

theorem parting_opened (h : BetweenParts nodes part s) (hdata : s.sepData = (q, l) :: rest)
    (he : s.sepEndTasks q = some e) : Parting nodes part (opened s e l rest) := by
  have hparting := h.parting
  have hshape := s.runtime.heap.sameShape_increment e
  have houts : (opened s e l rest).runtime.outs = s.runtime.outs := hshape.outs_fun
  constructor
  case parted => exact hparting.parted.sameShape hshape
  case inTurn =>
    rw [houts]
    exact hparting.inTurn.mono fun x _ hx => hshape.symm.carried hx
  case flow =>
    have hroots : s.runtime.main.roots ++ s.laterRoots = l ++ rest.flatMap (·.2) := by
      rw [h.roots, Separation.laterRoots, hdata]
      rfl
    have hflow := (hparting.flow.increment (hparting.parted.ends_notMem q e he)).withMain
      (.spawn e l)
    rw [hroots] at hflow
    exact { hflow with outside := fun t _ => by unfold Round.excess; omega }
  case counted => exact fun q' e' he' => counted_opened hparting hdata he he'
  case sorted =>
    have hsorted := hparting.sorted
    rw [Separation.parts, hdata] at hsorted
    exact (List.pairwise_cons.mp hsorted).2
  case listed =>
    rw [houts]
    exact fun q' l' hmem => hparting.listed q' l' (hdata ▸ List.mem_cons_of_mem _ hmem)
  case hand =>
    exact @MainHand.withMain m nodes s.runtime hparting.hand
      { s.runtime.graph with heap := s.runtime.heap.incrementRefCount e } (.spawn e l) hshape
      (by simp)

end Opened

/-- The head of the loop finds the end task of the next part. -/
theorem nextPart_cons (h : BetweenParts nodes part s) {q : Int} {l : List TaskId}
    {rest : List (Int × List TaskId)} (hdata : s.sepData = (q, l) :: rest) :
    ∃ e, s.nextPart = some (opened s e l rest) ∧ InPart nodes part q e (opened s e l rest) := by
  have hparting := h.parting
  have hparts : s.parts = q :: rest.map (·.1) := by rw [Separation.parts, hdata]; rfl
  have hsorted := hparting.sorted
  rw [hparts, List.pairwise_cons] at hsorted
  -- the part has a root, so it has a task without a successor
  obtain ⟨hne, hl⟩ := hparting.listed q l (hdata ▸ List.mem_cons_self)
  obtain ⟨t, ht⟩ := List.exists_mem_of_ne_nil l hne
  obtain ⟨hfirst, hpart⟩ := (hl t).mp ht
  obtain ⟨b, hb, hpb⟩ := hparting.inTurn.exists_last hfirst
  obtain ⟨e, he, -⟩ := hparting.parted.last b hb
  rw [hpb, hpart] at he
  refine ⟨e, by simp only [Separation.nextPart, hdata, he, Option.map_some]; rfl, ?_⟩
  refine ⟨parting_opened h hdata he, he, rfl, hsorted.1, ?_,
    fun _ _ => (s.runtime.heap.sameShape_increment e).resting h.resting,
    by simp [opened]⟩
  intro q' e' he' hqq hnot
  rw [pending_opened]
  refine h.done q' e' he' ?_
  rw [hparts, List.mem_cons, or_iff_right hqq]
  exact hnot

/-- When all parts had their turn, all tasks have been executed. -/
theorem executed (h : BetweenParts nodes part s) (hdata : s.sepData = []) {t : TaskId}
    (ht : t ∈ nodes) : s.runtime.walked t = (s.runtime.outs t).length ∧
      s.runtime.finishes t = 1 ∧ s.runtime.starts t = 1 := by
  have hflow := h.parting.flow
  have hparts : s.parts = [] := by rw [Separation.parts, hdata]; rfl
  refine hflow.through ht (Release.complete_of_pending_out h.parting.parted.acyclic hflow.full
    (fun u _ hu => hflow.walked_of_pending hu) ?_ ht)
  intro u hu x hx
  by_cases hxn : x ∈ nodes
  · exact Or.inl hxn
  · obtain ⟨-, hend⟩ := h.parting.parted.last_of_out hu hx hxn
    exact Or.inr (h.done _ x hend (by simp [hparts]))

theorem nextPart_nil (h : BetweenParts nodes part s) (hdata : s.sepData = []) :
    ∃ s', s.nextPart = some s' ∧ AfterParts nodes s'.runtime ∧ s'.sepData = [] := by
  have hflow := h.parting.flow
  have hidle := hflow.idle_of_through fun t ht => h.executed hdata ht
  refine ⟨{ s with
    runtime := { s.runtime with graph := s.runtime.graph.resetTaskGraph, main := .prog } },
    by simp only [Separation.nextPart, hdata], ?_, hdata⟩
  refine ⟨⟨⟨hidle.queue, hidle.resting⟩, rfl⟩, fun t ht => ?_, hflow.order, hflow.starts_le⟩
  exact (h.executed hdata ht).2.symm

theorem nextPart (h : BetweenParts nodes part s) : ∃ s', s.nextPart = some s' ∧
    ((∃ p e, InPart nodes part p e s') ∨ AfterParts nodes s'.runtime) := by
  cases hdata : s.sepData with
  | nil =>
      obtain ⟨s', hs', hafter, -⟩ := h.nextPart_nil hdata
      exact ⟨s', hs', Or.inr hafter⟩
  | cons head rest =>
      obtain ⟨e, hs', hin⟩ := h.nextPart_cons hdata
      exact ⟨_, hs', Or.inl ⟨_, e, hin⟩⟩

end BetweenParts

theorem AfterParts.step {nodes : Finset TaskId} {r r' : Runtime m} (h : AfterParts nodes r)
    {i : Fin (m + 1)} {hit : Bool} (hstep : r.step i hit = some r') : AfterParts nodes r' := by
  have hmove := step_move (fun j => (h.after.idle.resting j).inside) hstep
  obtain ⟨hafter, hsame⟩ := h.after.move hmove
  refine ⟨hafter, ?_, ?_, ?_⟩
  · intro t ht
    unfold starts finishes
    rw [hsame.log]
    exact h.executed t ht
  · rw [hsame.log, show r'.outs = r.outs from hsame.shape.outs_fun]
    exact h.inOrder
  · unfold starts
    rw [hsame.log]
    exact h.starts_le

/-! ## The beginning -/

/-- The program has closed the graph by parts and comes to the loop. -/
structure PartsReady (nodes : Finset TaskId) (part : TaskId → Int) (s : Separation m) : Prop where
  parted : Parted (m + 1) nodes part s.sepEndTasks s.runtime.heap
  kind : ∀ t ∈ nodes, (s.runtime.heap t).isAceMesh = true
  counts : ∀ t ∈ nodes, (s.runtime.heap t).refCount = inDegree nodes s.runtime.heap t
  endCounts : ∀ q e, s.sepEndTasks q = some e →
    (s.runtime.heap e).refCount = inDegree nodes s.runtime.heap e
  sorted : s.parts.Pairwise (· < ·)
  listed : ∀ q l, (q, l) ∈ s.sepData → l ≠ [] ∧ l.Nodup ∧
    ∀ t, t ∈ l ↔ Release.First nodes s.runtime.outs t ∧ part t = q
  covered : ∀ t, Release.First nodes s.runtime.outs t → part t ∈ s.parts
  idle : s.runtime.Idle
  main : s.runtime.main = .prog
  pc : s.runtime.pc 0 = .next
  log : s.runtime.log = []

namespace PartsReady

variable {nodes : Finset TaskId} {part : TaskId → Int} {s : Separation m}

theorem first_iff (t : TaskId) : Release.First nodes s.runtime.outs t ↔
    t ∈ nodes ∧ inDegree nodes s.runtime.heap t = 0 := by
  refine and_congr_right fun _ => ?_
  rw [inDegree, Finset.sum_eq_zero_iff]
  simp only [List.count_eq_zero]

theorem mem_laterRoots (h : PartsReady nodes part s) (t : TaskId) :
    t ∈ s.laterRoots ↔ Release.First nodes s.runtime.outs t := by
  constructor
  · intro ht
    obtain ⟨⟨q, l⟩, hmem, htl⟩ := List.mem_flatMap.mp ht
    exact (((h.listed q l hmem).2.2 t).mp htl).1
  · intro ht
    obtain ⟨⟨q, l⟩, hmem, hq⟩ := List.mem_map.mp (h.covered t ht)
    exact List.mem_flatMap.mpr ⟨(q, l), hmem, ((h.listed q l hmem).2.2 t).mpr ⟨ht, hq.symm⟩⟩

theorem laterRoots_nodup (h : PartsReady nodes part s) : s.laterRoots.Nodup := by
  refine List.nodup_flatMap.mpr ⟨fun a ha => (h.listed a.1 a.2 ha).2.1, ?_⟩
  have hsorted := h.sorted
  rw [Separation.parts, List.pairwise_map] at hsorted
  refine hsorted.imp_of_mem ?_
  intro a b ha hb hlt t hta htb
  have hpa := (((h.listed a.1 a.2 ha).2.2 t).mp hta).2
  have hpb := (((h.listed b.1 b.2 hb).2.2 t).mp htb).2
  exact absurd (hpa.symm.trans hpb) (ne_of_lt hlt)

theorem full (h : PartsReady nodes part s) {t : TaskId} (ht : t ∈ nodes) :
    s.runtime.outs t ≠ [] := by
  by_cases hlast : Release.Last nodes s.runtime.outs t
  · obtain ⟨e, -, houts⟩ := h.parted.last t hlast
    change (s.runtime.heap t).outs ≠ []
    simp [houts]
  · intro hnil
    exact hlast ⟨ht, by simp [hnil]⟩

theorem between (h : PartsReady nodes part s)
    (hturn : Release.InTurn nodes s.runtime.outs part (Carried nodes s.runtime.heap)) :
    BetweenParts nodes part s := by
  have hflow : Flow nodes (fun t => (s.runtime.heap t).refCount - inDegree nodes s.runtime.heap t)
      s.laterRoots s.runtime :=
    Flow.start_run (fun t ht => h.full ht) h.kind h.counts h.laterRoots_nodup
      (fun t => (h.mem_laterRoots t).trans (first_iff t)) h.idle h.log
  have hresting := h.idle.resting 0
  have hmem : ∀ q e, s.sepEndTasks q = some e → q ∈ s.parts := by
    intro q e he
    obtain ⟨u, hu, hpu⟩ := h.parted.ends_used q e he
    obtain ⟨t, ht, hpt⟩ := hturn.exists_first hu
    rw [← hpu, ← hpt]
    exact h.covered t ht
  refine ⟨?_, fun q e he hq => absurd (hmem q e he) hq, hresting, by rw [h.main]; rfl⟩
  constructor
  case parted => exact h.parted
  case inTurn => exact hturn
  case flow =>
    rw [h.main]
    exact { hflow with outside := fun t _ => by unfold Round.excess; omega }
  case counted =>
    intro q e he
    rw [if_pos (hmem q e he), hflow.outside e (h.parted.ends_notMem q e he), h.endCounts q e he]
    omega
  case sorted => exact h.sorted
  case listed => exact fun q l hql => ⟨(h.listed q l hql).1, (h.listed q l hql).2.2⟩
  case hand =>
    constructor
    · simp [h.idle.queue 0]
    · simp [h.pc, Pc.object]
    · simp [h.pc]
    · simp [h.main]

end PartsReady

/-! ## Any interleaving -/

/-- A spawn fails only for a task whose affinity names no thread. -/
theorem Runtime.spawnToId_isSome {r : Runtime m} {t : TaskId}
    (haff : 0 ≤ (r.heap t).affinityId ∧ (r.heap t).affinityId < (m + 1 : Nat))
    (i : Fin (m + 1)) : ∃ r', r.spawnToId i t = some r' := by
  have hlt : (r.heap t).affinityId.toNat < m + 1 := by omega
  simp only [spawnToId]
  rw [if_pos (by omega), dif_pos hlt]
  exact ⟨_, rfl⟩

theorem Runtime.threadStep_isSome {r : Runtime m} {i : Fin (m + 1)} (hit : Bool)
    (haff : ∀ t, (r.pc i).hand = some t →
      0 ≤ (r.heap t).affinityId ∧ (r.heap t).affinityId < (m + 1 : Nat)) :
    ∃ r', r.threadStep i hit = some r' := by
  unfold threadStep
  split
  · split
    · split <;> exact ⟨_, rfl⟩
    · exact ⟨_, rfl⟩
  · split <;> exact ⟨_, rfl⟩
  · exact ⟨_, rfl⟩
  · exact ⟨_, rfl⟩
  · split
    · split <;> exact ⟨_, rfl⟩
    · exact ⟨_, rfl⟩
  · rename_i t k succ hpc
    obtain ⟨r', hr'⟩ := spawnToId_isSome (haff succ (by rw [hpc]; rfl)) i
    exact ⟨_, by rw [hr']; rfl⟩
  · split
    · split <;> exact ⟨_, rfl⟩
    · exact ⟨_, rfl⟩
  · exact ⟨_, rfl⟩

namespace InPart

variable {nodes : Finset TaskId} {part : TaskId → Int} {p : Int} {e : TaskId}
  {s : Separation m}

theorem step_isSome (h : InPart nodes part p e s) (i : Fin (m + 1)) (hit : Bool) :
    ∃ s', s.step i hit = some s' := by
  have hflow := h.parting.flow
  have hthread : ∀ j, ∃ r, s.runtime.threadStep j hit = some r := fun j =>
    threadStep_isSome hit fun t ht => h.parting.parted.affinity t (hflow.mem_of_hand ht).1
  have hlift : ∀ {r}, s.runtime.step i hit = some r →
      (i = 0 → ∀ e', s.runtime.main ≠ .returned e') →
      s.step i hit = some { s with runtime := r } := by
    intro r hr hno
    unfold Separation.step
    split
    · rename_i e' hval hm
      exact absurd hm (hno (Fin.ext hval) e')
    · rw [hr]
      rfl
  by_cases hi : i = 0
  · have hwaits := h.waits
    cases hmain : s.runtime.main with
    | prog => rw [hmain] at hwaits; cases hwaits
    | spawn e' roots =>
        cases roots with
        | nil =>
            exact ⟨_, hlift (by simp only [Runtime.step, hi, if_true, mainStep, hmain]; rfl)
              (by simp [hmain])⟩
        | cons t roots =>
            have ht : t ∈ nodes :=
              h.parting.mem_of_root (by rw [hmain]; exact List.mem_cons_self)
            obtain ⟨r, hr⟩ := spawnToId_isSome (h.parting.parted.affinity t ht) 0
            exact ⟨_, hlift (by simp only [Runtime.step, hi, if_true, mainStep, hmain, hr]; rfl)
              (by simp [hmain])⟩
    | test e' =>
        exact ⟨_, hlift (by simp only [Runtime.step, hi, if_true, mainStep, hmain]; rfl)
          (by simp [hmain])⟩
    | run e' =>
        obtain ⟨r, hr⟩ := hthread 0
        exact ⟨_, hlift (by simp only [Runtime.step, hi, if_true, mainStep, hmain, hr]; rfl)
          (by simp [hmain])⟩
    | left e' =>
        exact ⟨_, hlift (by simp only [Runtime.step, hi, if_true, mainStep, hmain]; rfl)
          (by simp [hmain])⟩
    | returned e' =>
        rw [hmain] at hwaits
        cases hwaits
        obtain ⟨s', hs', -⟩ := (h.between hmain).nextPart
        refine ⟨s', ?_⟩
        subst hi
        simp only [Separation.step, hmain]
        exact hs'
  · obtain ⟨r, hr⟩ := hthread i
    exact ⟨_, hlift (by rw [Runtime.step, if_neg hi, hr]) fun hz => absurd hz hi⟩

/-- While the main thread waits for the part, some released task is not through. -/
theorem exists_work (h : InPart nodes part p e s)
    (hmain : s.runtime.main = .test e ∨ s.runtime.main = .run e)
    (hlt : 1 < (s.runtime.heap e).refCount) :
    (∃ i, s.runtime.queue i ≠ []) ∨
      ∃ i t, (s.runtime.pc i).hand = some t ∨ (s.runtime.pc i).Active s.runtime.heap t := by
  have hflow := h.parting.flow
  have hpending : s.runtime.pending nodes e ≠ 0 := fun hzero => by
    have := h.pending_over.mpr hzero
    omega
  obtain ⟨u, hu, hmem⟩ : ∃ u ∈ nodes, e ∈ (s.runtime.outs u).drop (s.runtime.walked u) := by
    by_contra hno
    push Not at hno
    exact hpending (Release.pending_eq_zero_iff.mpr hno)
  have hleft : s.runtime.walked u < (s.runtime.outs u).length := by
    by_contra hge
    rw [List.drop_eq_nil_of_le (by omega)] at hmem
    simp at hmem
  obtain ⟨hlast, hend⟩ := h.parting.parted.last_of_out hu (List.mem_of_mem_drop hmem)
    (h.parting.parted.ends_notMem p e h.current)
  have hpart : part u = p := h.parting.parted.ends_inj _ _ e hend h.current
  obtain ⟨v, hv, hpath, hvleft, hvready⟩ :=
    Release.exists_ready_over h.parting.parted.acyclic hu hleft
  rcases hflow.somewhere hv hvready hvleft with hroot | ⟨i, hi⟩ | ⟨i, hi⟩
  · -- a root that waits for its turn belongs to a later part
    have hlater : v ∈ s.laterRoots := by
      rcases List.mem_append.mp hroot with hroot | hroot
      · rcases hmain with hm | hm <;> rw [hm] at hroot <;> cases hroot
      · exact hroot
    obtain ⟨⟨q, l⟩, hql, hvl⟩ := List.mem_flatMap.mp hlater
    obtain ⟨hfirst, hq⟩ := ((h.parting.listed q l hql).2 v).mp hvl
    have hle := h.parting.inTurn.before v u hfirst hlast hpath
    have hlt := h.next q (List.mem_map.mpr ⟨(q, l), hql, rfl⟩)
    omega
  · exact Or.inl ⟨i, List.ne_nil_of_mem hi⟩
  · exact Or.inr ⟨i, v, hi⟩

end InPart

/-- Between the first and the last part, or behind the last. -/
def Separated (nodes : Finset TaskId) (part : TaskId → Int) (s : Separation m) : Prop :=
  (∃ p e, InPart nodes part p e s) ∨ AfterParts nodes s.runtime

theorem Separated.step {nodes : Finset TaskId} {part : TaskId → Int} {s s' : Separation m}
    (h : Separated nodes part s) {i : Fin (m + 1)} {hit : Bool} (hstep : s.step i hit = some s') :
    Separated nodes part s' := by
  rcases h with ⟨p, e, hin⟩ | hafter
  · rcases Separation.step_cases hstep with ⟨-, ⟨e', hmain⟩, hnext⟩ | ⟨hno, r, hr, rfl⟩
    · have hwaits := hin.waits
      rw [hmain] at hwaits
      cases hwaits
      obtain ⟨s₁, hs₁, hcases⟩ := (hin.between hmain).nextPart
      rw [hs₁] at hnext
      cases hnext
      exact hcases
    · exact Or.inl ⟨p, e, hin.step (fun hi => hno hi e) hr⟩
  · rcases Separation.step_cases hstep with ⟨-, ⟨e', hmain⟩, -⟩ | ⟨-, r, hr, rfl⟩
    · rw [hafter.after.main] at hmain
      cases hmain
    · exact Or.inr (hafter.step hr)

theorem Separated.steps {nodes : Finset TaskId} {part : TaskId → Int} {s s' : Separation m}
    (h : Separated nodes part s) (hsteps : s.Steps s') : Separated nodes part s' := by
  induction hsteps with
  | refl => exact h
  | tail _ hlast ih =>
      obtain ⟨i, hit, hstep⟩ := hlast
      exact ih.step hstep

/-- What every state of a run of the loop is like: tasks are executed in order and at most
once, no step fails before the function has returned, there is always something to do while
the main thread waits, and when it has returned every task has been executed. -/
structure RunsAll (nodes : Finset TaskId) (s : Separation m) : Prop where
  inOrder : InOrder nodes s.runtime.outs s.runtime.log
  once : ∀ t, s.runtime.log.count (.start t) ≤ 1
  goesOn : ∀ i hit, s.step i hit = none → i = 0 ∧ s.runtime.main = .prog
  work : ∀ e, s.runtime.main = .test e ∨ s.runtime.main = .run e →
    1 < (s.runtime.heap e).refCount → (∃ i, s.runtime.queue i ≠ []) ∨
      ∃ i t, (s.runtime.pc i).hand = some t ∨ (s.runtime.pc i).Active s.runtime.heap t
  executed : s.runtime.main = .prog → ∀ t ∈ nodes,
    s.runtime.log.count (.start t) = 1 ∧ s.runtime.log.count (.finish t) = 1

theorem Separated.runsAll {nodes : Finset TaskId} {part : TaskId → Int} {s : Separation m}
    (h : Separated nodes part s) : RunsAll nodes s := by
  rcases h with ⟨p, e, hin⟩ | hafter
  · have hflow := hin.parting.flow
    refine ⟨hflow.order, hflow.starts_le, ?_, ?_, ?_⟩
    · intro i hit hnone
      obtain ⟨s', hs'⟩ := hin.step_isSome i hit
      rw [hnone] at hs'
      cases hs'
    · intro e' hmain hlt
      have hwaits := hin.waits
      have heq : e' = e := by
        rcases hmain with hm | hm <;> rw [hm] at hwaits <;> exact Option.some.inj hwaits
      subst heq
      exact hin.exists_work hmain hlt
    · intro hprog
      have hwaits := hin.waits
      rw [hprog] at hwaits
      cases hwaits
  · refine ⟨hafter.inOrder, hafter.starts_le, ?_, ?_, fun _ => hafter.executed⟩
    · intro i hit hnone
      refine ⟨?_, hafter.after.main⟩
      by_contra hi
      obtain ⟨r, hr⟩ := @threadStep_isSome m s.runtime i hit
        (by simp [(hafter.after.idle.resting i).hand])
      have hstep : s.runtime.step i hit = some r := by rw [Runtime.step, if_neg hi, hr]
      unfold Separation.step at hnone
      split at hnone
      · rename_i e' hval hm
        exact hi (Fin.ext hval)
      · rw [hstep] at hnone
        cases hnone
    · intro e hmain
      rw [hafter.after.main] at hmain
      rcases hmain with hm | hm <;> cases hm

/-- The loop over the parts, in any interleaving. -/
theorem separation_correct {nodes : Finset TaskId} {part : TaskId → Int} {s₀ : Separation m}
    (hready : PartsReady nodes part s₀)
    (hturn : Release.InTurn nodes s₀.runtime.outs part (Carried nodes s₀.runtime.heap)) :
    ∃ s₁, s₀.nextPart = some s₁ ∧ ∀ s, s₁.Steps s → RunsAll nodes s := by
  obtain ⟨s₁, hs₁, hin⟩ := (hready.between hturn).nextPart
  have hseparated : Separated nodes part s₁ := hin
  exact ⟨s₁, hs₁, fun s hsteps => (hseparated.steps hsteps).runsAll⟩

end AceMesh
