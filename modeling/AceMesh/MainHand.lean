import AceMesh.Turn

/-!
# What the main thread can hold

The main thread takes tasks from its own queue, on which only tasks of its affinity are
pushed, and goes on with a vertical task that it has released. `main_kernel_func` tests the
counter of the end task between two tasks, and there its local `t` is either `NULL` or such
a vertical task (`Carried`). A task that it still holds when the test fails is dropped.
-/

namespace AceMesh

open TaskDagGraph

/-- An object that the main thread may execute: a task of its affinity, or the vertical task
of such an object. -/
inductive Own (nodes : Finset TaskId) (h : Heap) : TaskId → Prop
  | queued {t : TaskId} (node : t ∈ nodes) (affinity : (h t).affinityId ≤ 0) : Own nodes h t
  | vertical {t x : TaskId} (own : Own nodes h t) (next : (h t).verticalTask = some x) :
      Own nodes h x

/-- An object that the main thread may hold at the test of its loop. -/
def Carried (nodes : Finset TaskId) (h : Heap) (x : TaskId) : Prop :=
  ∃ t, Own nodes h t ∧ (h t).verticalTask = some x

theorem Heap.SameShape.own {nodes : Finset TaskId} {h h' : Heap} (hs : h.SameShape h')
    {t : TaskId} (ht : Own nodes h t) : Own nodes h' t := by
  induction ht with
  | queued hmem haff => exact .queued hmem (by rw [hs.affinityId]; exact haff)
  | vertical _ hnext ih => exact .vertical ih (by rw [hs.verticalTask]; exact hnext)

theorem Heap.SameShape.carried {nodes : Finset TaskId} {h h' : Heap} (hs : h.SameShape h')
    {x : TaskId} (hx : Carried nodes h x) : Carried nodes h' x := by
  obtain ⟨t, ht, hnext⟩ := hx
  exact ⟨t, hs.own ht, by rw [hs.verticalTask]; exact hnext⟩

/-- The position of the main thread at the test of its loop. -/
def Pc.Paused (nodes : Finset TaskId) (h : Heap) (p : Pc) : Prop :=
  p = .next ∨ ∃ x, p = .hold x ∧ Carried nodes h x

theorem Heap.SameShape.paused {nodes : Finset TaskId} {h h' : Heap} (hs : h.SameShape h')
    {p : Pc} (hp : p.Paused nodes h) : p.Paused nodes h' :=
  hp.imp_right fun ⟨x, hx, hcarried⟩ => ⟨x, hx, hs.carried hcarried⟩

namespace Runtime

variable {m : Nat} {nodes : Finset TaskId} {r r' : Runtime m} {i : Fin (m + 1)}

/-- The queue of the main thread gets only tasks of its affinity. -/
theorem spawnToId_ownQueue {t u : TaskId} (hspawn : r.spawnToId i t = some r')
    (hu : u ∈ r'.queue 0) : u ∈ r.queue 0 ∨ (u = t ∧ (r.heap u).affinityId ≤ 0) := by
  have hpushed : ∀ j, u ∈ (r.localSpawn j t).queue 0 →
      u ∈ r.queue 0 ∨ (0 = j ∧ u = t) := by
    intro j hmem
    by_cases hj : 0 = j
    · subst hj
      change u ∈ Function.update r.queue 0 (t :: r.queue 0) 0 at hmem
      rw [Function.update_self] at hmem
      rcases List.mem_cons.mp hmem with hut | hmem
      · exact Or.inr ⟨rfl, hut⟩
      · exact Or.inl hmem
    · change u ∈ Function.update r.queue j (t :: r.queue j) 0 at hmem
      rw [Function.update_of_ne hj] at hmem
      exact Or.inl hmem
  simp only [spawnToId] at hspawn
  split at hspawn
  · split at hspawn
    · rename_i hlt
      cases hspawn
      refine (hpushed _ hu).imp_right ?_
      rintro ⟨hzero, rfl⟩
      have hval : (r.heap u).affinityId.toNat = 0 := (congrArg Fin.val hzero).symm
      exact ⟨rfl, by omega⟩
    · cases hspawn
  · rename_i hneg
    split at hspawn
    · cases hspawn
      refine (hpushed _ hu).imp_right ?_
      rintro ⟨-, rfl⟩
      exact ⟨rfl, by omega⟩
    · cases hspawn

theorem spawnToId_frame {t : TaskId} (hspawn : r.spawnToId i t = some r') :
    r'.heap = r.heap ∧ r'.pc = r.pc ∧ r'.main = r.main := by
  obtain ⟨j, rfl⟩ := spawnToId_localSpawn hspawn
  exact ⟨rfl, rfl, rfl⟩

theorem ThreadStep.ownQueue (h : ThreadStep r i r') {u : TaskId} (hu : u ∈ r'.queue 0) :
    u ∈ r.queue 0 ∨ ((r.pc i).hand = some u ∧ (r.heap u).affinityId ≤ 0) := by
  cases h with
  | @pop t rest _ queue =>
      apply Or.inl
      by_cases hi : 0 = i
      · subst hi
        change u ∈ Function.update r.queue 0 rest 0 at hu
        rw [Function.update_self] at hu
        exact queue ▸ List.mem_cons_of_mem t hu
      · change u ∈ Function.update r.queue i rest 0 at hu
        rwa [Function.update_of_ne hi] at hu
  | push pc spawned =>
      apply (spawnToId_ownQueue spawned hu).imp_right
      rintro ⟨rfl, haff⟩
      exact ⟨by rw [pc]; rfl, haff⟩
  | _ => exact Or.inl hu

/-- What the main thread works at, and what it may hold. -/
structure MainHand (nodes : Finset TaskId) (r : Runtime m) : Prop where
  queue : ∀ t ∈ r.queue 0, Own nodes r.heap t
  object : ∀ t, (r.pc 0).object = some t → Own nodes r.heap t
  handed : ∀ t x, r.pc 0 = .ret t (some x) → (r.heap t).verticalTask = some x
  paused : ∀ e, r.main = .test e ∨ r.main = .left e ∨ r.main = .returned e →
    (r.pc 0).Paused nodes r.heap

namespace MainHand

/-- The position that a step of the main thread leads to. -/
theorem threadStep (h : MainHand nodes r) (hstep : ThreadStep r 0 r') :
    (∀ t, (r'.pc 0).object = some t → Own nodes r.heap t) ∧
    (∀ t x, r'.pc 0 = .ret t (some x) → (r.heap t).verticalTask = some x) ∧
    (endsTurn (r.pc 0) (r'.pc 0) = true → (r'.pc 0).Paused nodes r.heap) := by
  have hset : ∀ (r₁ : Runtime m) p, (r₁.setPc 0 p).pc 0 = p := by simp [setPc]
  -- at the same object as before, inside of a turn
  have hsame : ∀ {t : TaskId} {p : Pc}, (r.pc 0).object = some t → p.object = some t →
      (∀ u x, p = .ret u (some x) → (r.heap u).verticalTask = some x) →
      endsTurn (r.pc 0) p = false →
      (∀ u, p.object = some u → Own nodes r.heap u) ∧
      (∀ u x, p = .ret u (some x) → (r.heap u).verticalTask = some x) ∧
      (endsTurn (r.pc 0) p = true → p.Paused nodes r.heap) := by
    intro t p hold hnew hret hends
    refine ⟨fun u hu => ?_, hret, fun hand => ?_⟩
    · cases hnew.symm.trans hu
      exact h.object t hold
    · rw [hends] at hand
      cases hand
  cases hstep with
  | wait pc =>
      rw [pc]
      exact ⟨by simp [Pc.object], by simp, fun _ => Or.inl rfl⟩
  | @pop t rest pc queue =>
      have hnew : ({ r.setPc 0 (.hold t) with queue := Function.update r.queue 0 rest } :
          Runtime m).pc 0 = .hold t := hset r _
      rw [hnew, pc]
      refine ⟨?_, by simp, by simp [endsTurn]⟩
      rintro u ⟨⟩
      exact h.queue t (queue ▸ List.mem_cons_self)
  | @start t pc _ =>
      have hnew : ((r.setPc 0 (.body t)).record (.start t)).pc 0 = .body t := hset r _
      rw [hnew]
      exact hsame (by rw [pc]; rfl) rfl (by simp) (by rw [pc]; rfl)
  | @finish t pc =>
      have hnew : ((r.setPc 0 (.restore t)).record (.finish t)).pc 0 = .restore t := hset r _
      rw [hnew]
      exact hsame (by rw [pc]; rfl) rfl (by simp) (by rw [pc]; rfl)
  | skip pc _ =>
      rw [hset]
      exact hsame (by rw [pc]; rfl) rfl (by simp) (by rw [pc]; rfl)
  | restore pc =>
      rw [hset]
      exact hsame (by rw [pc]; rfl) rfl (by simp) (by rw [pc]; rfl)
  | release pc _ _ =>
      rw [hset]
      exact hsame (by rw [pc]; rfl) rfl (by simp) (by rw [pc]; rfl)
  | walk pc _ _ =>
      rw [hset]
      exact hsame (by rw [pc]; rfl) rfl (by simp) (by rw [pc]; rfl)
  | arrive pc _ =>
      rw [hset]
      exact hsame (by rw [pc]; rfl) rfl (by simp) (by rw [pc]; rfl)
  | push pc _ =>
      rw [hset]
      exact hsame (by rw [pc]; rfl) rfl (by simp) (by rw [pc]; rfl)
  | releaseVertical pc next _ =>
      rw [hset]
      refine hsame (by rw [pc]; rfl) rfl ?_ (by rw [pc]; rfl)
      rintro u x ⟨⟩
      exact next
  | walkVertical pc _ _ =>
      rw [hset]
      exact hsame (by rw [pc]; rfl) rfl (by simp) (by rw [pc]; rfl)
  | back pc _ =>
      rw [hset]
      exact hsame (by rw [pc]; rfl) rfl (by simp) (by rw [pc]; rfl)
  | leave pc =>
      rw [hset]
      exact ⟨by simp [Pc.object], by simp, fun _ => Or.inl rfl⟩
  | @leaveFor t x pc =>
      have hown := h.object t (by rw [pc]; rfl)
      have hnext := h.handed t x pc
      rw [hset]
      refine ⟨?_, by simp, fun _ => Or.inr ⟨x, rfl, t, hown, hnext⟩⟩
      rintro u ⟨⟩
      exact .vertical hown hnext

/-- Another heap of the same shape and another position outside of the tests. -/
theorem withMain (h : MainHand nodes r) {g : TaskDagGraph} {mpc : MainPc}
    (hshape : r.heap.SameShape g.heap)
    (hpaused : ∀ e, mpc = .test e ∨ mpc = .left e ∨ mpc = .returned e →
      (r.pc 0).Paused nodes r.heap) :
    MainHand nodes { r with graph := g, main := mpc } where
  queue := fun t ht => hshape.own (h.queue t ht)
  object := fun t ht => hshape.own (h.object t ht)
  handed := fun t x ht => (hshape.verticalTask t).trans (h.handed t x ht)
  paused := fun e he => hshape.paused (hpaused e he)

theorem worker (h : MainHand nodes r) (hmem : ∀ i t, (r.pc i).hand = some t → t ∈ nodes)
    (hin : (r.pc i).Inside r.heap) (hi : i ≠ 0) (hstep : ThreadStep r i r') :
    MainHand nodes r' := by
  have hturn := hstep.toTurn hin
  have hshape := hturn.shape
  have hpc : r'.pc 0 = r.pc 0 := hturn.others (Ne.symm hi)
  constructor
  case queue =>
    intro t ht
    rcases hstep.ownQueue ht with ht | haff
    · exact hshape.own (h.queue t ht)
    · exact hshape.own (.queued (hmem _ _ haff.1) haff.2)
  case object =>
    rw [hpc]
    exact fun t ht => hshape.own (h.object t ht)
  case handed =>
    rw [hpc]
    exact fun t x ht => (hshape.verticalTask t).trans (h.handed t x ht)
  case paused =>
    rw [hpc, hturn.main]
    exact fun e he => hshape.paused (h.paused e he)

/-- A step inside of a turn. -/
theorem run (h : MainHand nodes r) (hmem : ∀ i t, (r.pc i).hand = some t → t ∈ nodes)
    {e : TaskId} (hm : r.main = .run e) (hin : (r.pc 0).Inside r.heap)
    (hstep : ThreadStep r 0 r') : MainHand nodes r' := by
  have hturn := hstep.toTurn hin
  have hshape := hturn.shape
  obtain ⟨hobject, hhanded, -⟩ := h.threadStep hstep
  constructor
  case queue =>
    intro t ht
    rcases hstep.ownQueue ht with ht | haff
    · exact hshape.own (h.queue t ht)
    · exact hshape.own (.queued (hmem _ _ haff.1) haff.2)
  case object => exact fun t ht => hshape.own (hobject t ht)
  case handed => exact fun t x ht => (hshape.verticalTask t).trans (hhanded t x ht)
  case paused =>
    rw [hturn.main.trans hm]
    simp

theorem root (h : MainHand nodes r) {e t : TaskId} {roots : List TaskId}
    (hmem : t ∈ nodes) (hspawn : r.spawnToId 0 t = some r') :
    MainHand nodes { r' with main := .spawn e roots } := by
  obtain ⟨hheap, hpc, -⟩ := spawnToId_frame hspawn
  constructor
  case queue =>
    intro u hu
    change Own nodes r'.heap u
    rw [hheap]
    rcases spawnToId_ownQueue hspawn hu with hu | haff
    · exact h.queue u hu
    · exact .queued (haff.1 ▸ hmem) haff.2
  case object =>
    intro u hu
    change Own nodes r'.heap u
    rw [hheap]
    exact h.object u (hpc ▸ hu)
  case handed =>
    intro u x hu
    change (r'.heap u).verticalTask = some x
    rw [hheap]
    exact h.handed u x (hpc ▸ hu)
  case paused => simp

theorem enter (h : MainHand nodes r) (e : TaskId) :
    MainHand nodes { r.setPc 0 .next with main := .test e } := by
  have hpc : (r.setPc 0 .next).pc 0 = .next := by simp [setPc]
  constructor
  case queue => exact h.queue
  case object =>
    change ∀ t, ((r.setPc 0 .next).pc 0).object = some t → _
    rw [hpc]
    simp [Pc.object]
  case handed =>
    change ∀ t x, (r.setPc 0 .next).pc 0 = .ret t (some x) → _
    rw [hpc]
    simp
  case paused => exact fun _ _ => Or.inl hpc

theorem step (h : MainHand nodes r) (hmem : ∀ i t, (r.pc i).hand = some t → t ∈ nodes)
    (hroots : ∀ e t roots, r.main = .spawn e (t :: roots) → t ∈ nodes)
    (hin : ∀ i, (r.pc i).Inside r.heap) {hit : Bool} (hstep : r.step i hit = some r') :
    MainHand nodes r' := by
  obtain ⟨-, hmain⟩ | ⟨hi, hthread⟩ := step_cases hstep
  · cases hmain with
    | root main spawned => exact h.root (hroots _ _ _ main) spawned
    | @enter e main => exact h.enter e
    | test main =>
        exact h.withMain (Heap.SameShape.refl r.heap) fun _ _ => h.paused _ (Or.inl main)
    | run main turn _ => exact h.run hmem main (hin 0) turn
    | @turnEnd e r₁ main turn ends =>
        have hpaused := (turn.toTurn (hin 0)).shape.paused ((h.threadStep turn).2.2 ends)
        exact (h.run hmem main (hin 0) turn).withMain (Heap.SameShape.refl r₁.heap)
          fun _ _ => hpaused
    | @leave e main =>
        exact @withMain m nodes r h { r.graph with
          heap := if (r.heap e).reused then r.heap else r.heap.delete e } _
          (r.heap.sameShape_delete e) fun _ _ => h.paused e (Or.inr (Or.inl main))
    | @back e main => exact h.withMain (r.heap.sameShape_restore e) (by simp)
  · exact h.worker hmem (hin i) hi hthread

end MainHand

end Runtime

end AceMesh
