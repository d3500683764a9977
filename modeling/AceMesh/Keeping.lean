import AceMesh.Choice
import AceMesh.Freeing

/-!
# The stored graphs of a program

What no act of a program changes: the edges, kinds and marks of a graph that has been stored
(`act_shape`), and, as long as the graph is not run, everything about its objects
(`Tracked.act_still`).
-/

open AceMesh.TaskDagGraph AceMesh.Runtime

namespace AceMesh

namespace Session

variable {m : Nat} {lo : Int → TaskId} {base : TaskId} {s s' : Session m} {a : Act m}
  {no : Int} {inst : DagInstance} {tasks : List TaskId} {h₀ : Heap}

/-- A call is made between two calls, and outside of loops if it is not a building call. -/
theorem call_between (hinv : s.Inv) {c : ProgramCall} (hact : s.act (.call c) = some s') :
    ∃ lo base, Between lo base s ∧ s.runtime.main = .prog ∧ s.call c = some s' := by
  have hcall : s.call c = some s' := hact
  have hmain : s.runtime.main = .prog := by
    unfold Session.call at hcall
    by_contra hm
    rw [if_neg hm] at hcall
    cases hcall
  obtain ⟨lo, base, hbetween⟩ := hinv.between hmain
  exact ⟨lo, base, hbetween, hmain, hcall⟩

/-- The kinds of acts. -/
inductive ActKind (s s' : Session m) : Prop
  | thread (i : Fin (m + 1)) (r : Runtime m) (move : Move s.runtime i r)
      (eq : s' = { s with runtime := r })
  | build (lo : Int → TaskId) (base : TaskId) (between : Between lo base s) (c : BuildCall)
      (eq : s.build c = some s')
  | dagStart (lo : Int → TaskId) (base : TaskId) (between : Between lo base s) (dagNo : Int)
      (intVec : List Int) (floatVec : List Double) (looping : s.looping = false)
      (eq : s' = s.dagStart dagNo intVec floatVec)
  | spawnAndWait (lo : Int → TaskId) (base : TaskId) (between : Between lo base s)
      (looping : s.looping = false) (eq : s.spawnAndWait = some s')

theorem act_kind (hinv : s.Inv) (hact : s.act a = some s') : ActKind s s' := by
  cases a with
  | thread i hit =>
      obtain ⟨r, hr, rfl⟩ := Option.map_eq_some_iff.mp hact
      exact .thread i r (step_move hinv.inside hr) rfl
  | call c =>
      obtain ⟨lo, base, hbetween, hmain, hcall⟩ := call_between hinv hact
      unfold Session.call at hcall
      rw [if_pos hmain] at hcall
      cases c with
      | build c => exact .build lo base hbetween c hcall
      | dagStart dagNo intVec floatVec =>
          dsimp only at hcall
          split at hcall
          · cases hcall
          · rename_i hloop
            cases hcall
            exact .dagStart lo base hbetween dagNo intVec floatVec (by simpa using hloop) rfl
      | spawnAndWait =>
          dsimp only at hcall
          split at hcall
          · cases hcall
          · rename_i hloop
            exact .spawnAndWait lo base hbetween (by simpa using hloop) hcall

theorem build_main {c : BuildCall} (hs : s.build c = some s') :
    s'.runtime.main = s.runtime.main := by
  unfold Session.build at hs
  split at hs
  · cases hs
    rfl
  · split at hs
    · cases hs
      rfl
    · cases hs
  · cases hs
    rfl
  · cases hs
    rfl
  · cases hs

/-- The objects of a stored graph keep everything but their counters and their lives. -/
theorem act_shape (hinv : s.Inv) (hact : s.act a = some s')
    (hslot : s.graph.reuse.dagInstanceMap no = some inst) {t : TaskId}
    (ht : t ≤ inst.endTask) :
    s'.heap t = { s.heap t with
      refCount := (s'.heap t).refCount, deleted := (s'.heap t).deleted } := by
  cases act_kind hinv hact with
  | thread i r hmove heq =>
      subst heq
      exact hmove.shape t
  | build lo base hbetween c heq =>
      have hlt := (hbetween.shelf.tasks no inst hslot).2.1
      rw [(build_frame hbetween heq).1 t (Nat.lt_of_le_of_lt ht hlt)]
  | dagStart lo base hbetween dagNo intVec floatVec _ heq =>
      obtain ⟨u, hu, -, -⟩ := dagStart_eq s.graph dagNo intVec floatVec
      have hgraph : s'.graph = { s.graph with reuse := u } := by
        rw [heq]
        exact hu
      have hheap : s'.heap = s.heap := by
        change s'.graph.heap = _
        rw [hgraph]
      rw [hheap]
  | spawnAndWait lo base hbetween _ heq =>
      have hlt := (hbetween.shelf.tasks no inst hslot).2.1
      obtain ⟨e, -, hframe⟩ := hbetween.spawnAndWait_below heq
      rw [hframe t (Nat.lt_of_le_of_lt ht hlt)]
      exact s.heap.sameShape_increment e t

/-- A graph gets its number when it is stored, and keeps it. -/
theorem Effect.instance (heffect : Effect s s')
    (hslot : s'.graph.reuse.dagInstanceMap no = some inst) :
    (s.graph.reuse.dagInstanceMap no = some inst ∧
      storedTasks no s'.calls = storedTasks no s.calls) ∨
    s.act (.call .spawnAndWait) = some s' ∧ s.kind = .stored ∧
      no = s.graph.reuse.currDagNo ∧ inst = ⟨s.graph.fresh, s.graph.needSpawnTasks⟩ ∧
      storedTasks no s'.calls = some (tasksSince s.calls) := by
  cases heffect with
  | quiet hreuse hcalls => exact Or.inl ⟨hreuse ▸ hslot, by rw [hcalls]⟩
  | task t hreuse hcalls => exact Or.inl ⟨hreuse ▸ hslot, by rw [hcalls]; rfl⟩
  | dagStart dagNo intVec floatVec heq =>
      obtain ⟨u, hu, hmap, -⟩ := dagStart_eq s.graph dagNo intVec floatVec
      have hgraph : s'.graph = { s.graph with reuse := u } := by
        rw [heq]
        exact hu
      rw [hgraph] at hslot
      refine Or.inl ⟨hmap ▸ hslot, ?_⟩
      rw [heq]
      rfl
  | spawnAndWait hact =>
      obtain ⟨hcalls, hstored, hother⟩ := spawnAndWait_reuse (call_spawnAndWait hact)
      by_cases hkind : s.kind = .stored
      · obtain ⟨-, -, hreuse⟩ := hstored hkind
        rw [hreuse] at hslot
        rw [hcalls, hkind]
        change Function.update s.graph.reuse.dagInstanceMap _ _ no = _ at hslot
        by_cases hno : no = s.graph.reuse.currDagNo
        · subst hno
          rw [Function.update_self] at hslot
          refine Or.inr ⟨hact, rfl, rfl, (Option.some.inj hslot).symm, ?_⟩
          exact if_pos rfl
        · rw [Function.update_of_ne hno] at hslot
          exact Or.inl ⟨hslot, if_neg (Ne.symm hno)⟩
      · rw [hother hkind] at hslot
        refine Or.inl ⟨hslot, ?_⟩
        rw [hcalls]
        cases hk : s.kind with
        | built => rfl
        | stored => exact absurd hk hkind
        | resumed => rfl

/-- A stored graph is tracked from any state on. -/
theorem Reached.tracked (h : Reached (fun _ _ => True) s)
    (hslot : s.graph.reuse.dagInstanceMap no = some inst)
    (htasks : storedTasks no s.calls = some tasks) : Tracked no inst tasks s.heap s := by
  induction h generalizing inst tasks with
  | start => cases hslot
  | @act s s' a h _ hact ih =>
      obtain ⟨hold, hsame⟩ | ⟨hstore, hkind, rfl, rfl, hnew⟩ :=
        (act_effect hact).instance hslot
      · have htracked := (ih hold (hsame ▸ htasks)).act h.inv hact
        exact { htracked with outs := fun _ _ => rfl, backup := fun _ _ => rfl }
      · obtain rfl := Option.some.inj (htasks.symm.trans hnew)
        exact tracked_of_stored (call_spawnAndWait hstore) hkind

/-! ## A stored graph that is not run -/

/-- The objects of a stored graph with tasks. -/
theorem Tracked.objects (h : Tracked no inst tasks h₀ s)
    (hshelf : Shelf (m + 1) lo base s.graph s.calls) (hne : tasks ≠ []) :
    lo no < inst.endTask ∧ inst.endTask < base ∧
      ∀ u, (u ∈ tasks ∨ u = inst.endTask) ↔ lo no ≤ u ∧ u ≤ inst.endTask := by
  obtain ⟨hlt, hmem⟩ := h.range hshelf hne
  refine ⟨hlt, (hshelf.tasks no inst h.slot).2.1, fun u => ?_⟩
  rw [hmem]
  lia

/-- Reused objects are not deleted. -/
theorem Tracked.alive (h : Tracked no inst tasks h₀ s) (hinv : s.Inv) (hne : tasks ≠ [])
    {u : TaskId} (hu : u ∈ tasks ∨ u = inst.endTask) : (s.heap u).deleted = false := by
  obtain ⟨lo, base, hbetween⟩ | ⟨lo, a, e, hduring⟩ := hinv
  · exact h.undeleted hbetween.shelf hne hu
  · exact h.undeleted hduring.shelf hne hu

theorem Tracked.steps (h : Tracked no inst tasks h₀ s) (hinv : s.Inv) {r : Runtime m}
    (hsteps : s.runtime.Steps r) : Tracked no inst tasks h₀ { s with runtime := r } := by
  induction hsteps with
  | refl => exact h
  | tail hsteps hstep ih =>
      obtain ⟨i, hit, hstep⟩ := hstep
      exact ih.move (step_move (hinv.steps hsteps).inside hstep)

/-- A thread leaves the objects of the graph alone. -/
theorem Tracked.move_still (h : Tracked no inst tasks h₀ s) (hinv : s.Inv) (hne : tasks ≠ [])
    {i : Fin (m + 1)} {r : Runtime m} (hmove : Move s.runtime i r)
    (hwaits : s.runtime.main.waitsFor ≠ some inst.endTask) {u : TaskId}
    (hu : u ∈ tasks ∨ u = inst.endTask) : r.heap u = s.heap u := by
  have hkeep : (s.heap u).reused = true → (r.heap u).refCount = (s.heap u).refCount →
      r.heap u = s.heap u := by
    intro hreused hcount
    have hshape := hmove.shape u
    rw [hcount, hmove.deleted hreused] at hshape
    exact hshape
  obtain ⟨lo, base, hbetween⟩ | ⟨lo, a, e, hduring⟩ := hinv
  · obtain ⟨hlt, -, hmem⟩ := h.objects hbetween.shelf hne
    have hu := (hmem u).mp hu
    exact hkeep ((hbetween.shelf.kept no inst h.slot hlt).reused u hu.1 hu.2)
      ((hbetween.after.move hmove).2.refCount u)
  · obtain ⟨hlt, -, hmem⟩ := h.objects hduring.shelf hne
    have hu := (hmem u).mp hu
    have hother : inst.endTask ≠ e := fun he => hwaits (he ▸ hduring.waits)
    have hoff : u < a ∨ e < u := by
      have := hduring.apart no inst h.slot
      lia
    refine hkeep ((hduring.shelf.kept no inst h.slot hlt).reused u hu.1 hu.2) ?_
    by_cases hback : i = 0 ∧ ∃ e', s.runtime.main = .returned e'
    · -- the end task of the graph that has been run gets its counter back
      obtain ⟨rfl, e', hm⟩ := hback
      have hwait := hduring.waits
      rw [hm] at hwait
      cases hwait
      have hue : u ≠ e := by
        have := hduring.range
        lia
      obtain rfl := hmove.of_returned hm
      exact (Heap.refCount_restore s.heap e u).trans (if_neg fun hand => hue hand.1)
    · exact (hduring.move_frame (fun hi e' hm => hback ⟨hi, e', hm⟩) hmove).2.1 u hoff

/-- As long as other graphs are run, no act changes the objects of a stored one. -/
theorem Tracked.act_still (h : Tracked no inst tasks h₀ s) (hinv : s.Inv) (hne : tasks ≠ [])
    (hact : s.act a = some s') (hwaits : s.runtime.main.waitsFor ≠ some inst.endTask)
    (hwaits' : s'.runtime.main.waitsFor ≠ some inst.endTask) {u : TaskId}
    (hu : u ∈ tasks ∨ u = inst.endTask) : s'.heap u = s.heap u := by
  cases act_kind hinv hact with
  | thread i r hmove heq =>
      subst heq
      exact h.move_still hinv hne hmove hwaits hu
  | build lo base hbetween c heq =>
      obtain ⟨-, hlt, hmem⟩ := h.objects hbetween.shelf hne
      exact (build_frame hbetween heq).1 u (Nat.lt_of_le_of_lt ((hmem u).mp hu).2 hlt)
  | dagStart lo base hbetween dagNo intVec floatVec _ heq =>
      obtain ⟨v, hv, -, -⟩ := dagStart_eq s.graph dagNo intVec floatVec
      have hgraph : s'.graph = { s.graph with reuse := v } := by
        rw [heq]
        exact hv
      change s'.graph.heap u = _
      rw [hgraph]
  | spawnAndWait lo base hbetween hloop heq =>
      obtain ⟨-, hlt, hmem⟩ := h.objects hbetween.shelf hne
      obtain ⟨e, hwait, hframe⟩ := hbetween.spawnAndWait_below heq
      rw [hframe u (Nat.lt_of_le_of_lt ((hmem u).mp hu).2 hlt)]
      -- the end task that is counted lies in the graph that is run
      obtain ⟨lo', a', e', hduring⟩ := hbetween.spawnAndWait hloop heq
      have htracked' := h.act hinv hact
      obtain ⟨-, -, hmem'⟩ := htracked'.objects hduring.shelf hne
      have hu' := (hmem' u).mp hu
      obtain rfl := Option.some.inj (hwait.symm.trans hduring.waits)
      have hue : u ≠ e := by
        have hother : inst.endTask ≠ e := fun he => hwaits' (he ▸ hwait)
        have := hduring.apart no inst htracked'.slot
        have := hduring.range
        lia
      exact Heap.modify_of_ne s.heap hue _

end Session

end AceMesh
