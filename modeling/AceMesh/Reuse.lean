import AceMesh.Launch

/-!
# Graphs that are stored

`dag_start`, the choice at the head of `spawn_and_wait`, and `store_info`, by which the
first run of a numbered graph prepares its tasks for later ones: every task that is reached
from the roots keeps a copy of its counter and is marked as reused.

`store_info` is a recursion along the edges that stops at tasks that have been stored; the
fuel bounds its depth. Edges lead to newer tasks, so the number of objects is enough.
-/

open AceMesh.TaskDagGraph

namespace AceMesh

/-! ## Storing -/

/-- The branch of `store_info` for an end task. -/
def Heap.storeEnd (h : Heap) (vt : TaskId) : Heap :=
  if (h vt).stored then h
  else ((h.storeRefCount vt).setReusedFlag vt true).setStored vt true

/-- `aceMesh_task::store_info`. -/
def Heap.storeInfo : Nat → Heap → TaskId → Option Heap
  | 0, _, _ => none
  | fuel + 1, h, this =>
    if (h this).stored then some h
    else
      let h := (h.storeRefCount this).setReusedFlag this true
      let vertical : Option Heap := match (h this).verticalTask with
        | some vt => if (h vt).isAceMesh then storeInfo fuel h vt else some (h.storeEnd vt)
        | none => some h
      vertical.bind fun h =>
        ((h this).successorTasks.foldlM (fun (h : Heap) t =>
          if (h t).isAceMesh then storeInfo fuel h t else some h) h).map fun h =>
            h.setStored this true

namespace TaskDagGraph

/-- `_store_dag_info`. -/
def storeDagInfo (g : TaskDagGraph) : Option TaskDagGraph :=
  (g.needSpawnTasks.foldlM (Heap.storeInfo (g.fresh + 1)) g.heap).map fun h => { g with heap := h }

/-- `_save_to_buffer`. -/
def saveToBuffer (g : TaskDagGraph) : TaskDagGraph :=
  match g.endTask with
  | some e =>
    { g with
      reuse := { g.reuse with
        dagInstanceMap :=
          Function.update g.reuse.dagInstanceMap g.reuse.currDagNo (some ⟨e, g.needSpawnTasks⟩) } }
  | none => g

/-- `_resume_from_buffer`. A number without an instance gets a `NULL` end task. -/
def resumeFromBuffer (g : TaskDagGraph) : TaskDagGraph :=
  match g.reuse.dagInstanceMap g.reuse.currDagNo with
  | some inst => { g with endTask := some inst.endTask, needSpawnTasks := inst.needSpawnTasks }
  | none => { g with endTask := none, needSpawnTasks := [] }

/-! ## The decisions -/

/-- The comparison of the vectors in `dag_start`. -/
def sameVectors (vecI intVec : List Int) (vecF floatVec : List Double) : Bool :=
  if vecI.length ≠ intVec.length ∨ vecF.length ≠ floatVec.length then false
  else if (vecI.zip intVec).any fun p => p.1 != p.2 then false
  else if (vecF.zip floatVec).any fun p => p.1 != p.2 then false
  else true

/-- `dag_start`. -/
def dagStart (g : TaskDagGraph) (dagNo : Int) (intVec : List Int) (floatVec : List Double) :
    TaskDagGraph × Bool :=
  let u := { g.reuse with
    currDagNo := dagNo
    dagReuseFlag := Function.update g.reuse.dagReuseFlag dagNo (some false) }
  match u.dagReuseCnt dagNo with
  | some cnt =>
    if sameVectors (u.dagIvecMap dagNo) intVec (u.dagFvecMap dagNo) floatVec then
      ({ g with
        reuse := { u with
          dagReuseCnt := Function.update u.dagReuseCnt dagNo (some (cnt + 1))
          dagReuseFlag := Function.update u.dagReuseFlag dagNo (some true) } }, true)
    else ({ g with reuse := u }, false)
  | none =>
    ({ g with
      reuse := { u with
        dagReuseCnt := Function.update u.dagReuseCnt dagNo (some (-1))
        dagIvecMap := Function.update u.dagIvecMap dagNo (u.dagIvecMap dagNo ++ intVec)
        dagFvecMap := Function.update u.dagFvecMap dagNo (u.dagFvecMap dagNo ++ floatVec) } },
      false)

/-- `reuse` in `spawn_and_wait`. -/
def reuses (g : TaskDagGraph) : Bool :=
  g.reuse.dagReuseFlag g.reuse.currDagNo = some true

/-- `init` in `spawn_and_wait`. -/
def inits (g : TaskDagGraph) : Bool :=
  g.reuse.dagReuseFlag g.reuse.currDagNo ≠ none ∧
    g.reuse.dagReuseCnt g.reuse.currDagNo = some (-1)

/-- `spawn_and_wait` up to the call of `spawn`. -/
def prepare (g : TaskDagGraph) : Option TaskDagGraph :=
  if g.reuses then some g.resumeFromBuffer
  else
    let g := g.endConstructDag
    if g.inits then
      let g := { g with
        reuse := { g.reuse with
          dagReuseCnt := Function.update g.reuse.dagReuseCnt g.reuse.currDagNo (some 0) } }
      g.storeDagInfo.map saveToBuffer
    else some g

theorem prepare_of_reuses {g : TaskDagGraph} (h : g.reuses = true) :
    g.prepare = some g.resumeFromBuffer := if_pos h

theorem prepare_of_inits {g : TaskDagGraph} (h : ¬ g.reuses = true) (hi : g.inits = true) :
    g.prepare = (storeDagInfo { g.endConstructDag with
      reuse := { g.reuse with
        dagReuseCnt := Function.update g.reuse.dagReuseCnt g.reuse.currDagNo (some 0) } }).map
      saveToBuffer := (if_neg h).trans (if_pos hi)

theorem prepare_of_not_inits {g : TaskDagGraph} (h : ¬ g.reuses = true)
    (hi : ¬ g.inits = true) : g.prepare = some g.endConstructDag :=
  (if_neg h).trans (if_neg hi)

/-- What `prepare` makes of a graph. -/
inductive Prepared (g : TaskDagGraph) (g' : TaskDagGraph) : Prop
  | resumed (reuses : g.reuses = true) (eq : g' = g.resumeFromBuffer)
  | stored (heap : Heap) (reuses : ¬g.reuses = true) (inits : g.inits = true)
      (run : g.endConstructDag.needSpawnTasks.foldlM
        (Heap.storeInfo (g.endConstructDag.fresh + 1)) g.endConstructDag.heap =
          some heap)
      (eq : g' = saveToBuffer { g.endConstructDag with
        heap := heap
        reuse := { g.reuse with
          dagReuseCnt := Function.update g.reuse.dagReuseCnt g.reuse.currDagNo (some 0) } })
  | built (reuses : ¬g.reuses = true) (inits : ¬g.inits = true) (eq : g' = g.endConstructDag)

theorem prepared_of_prepare {g g' : TaskDagGraph} (h : g.prepare = some g') :
    Prepared g g' := by
  by_cases hreuse : g.reuses = true
  · rw [prepare_of_reuses hreuse] at h
    exact .resumed hreuse (Option.some.inj h).symm
  · by_cases hinit : g.inits = true
    · rw [prepare_of_inits hreuse hinit] at h
      obtain ⟨g₁, hg₁, rfl⟩ := Option.map_eq_some_iff.mp h
      obtain ⟨heap, hrun, rfl⟩ := Option.map_eq_some_iff.mp hg₁
      exact .stored heap hreuse hinit hrun rfl
    · rw [prepare_of_not_inits hreuse hinit] at h
      exact .built hreuse hinit (Option.some.inj h).symm

end TaskDagGraph

/-! ## What `store_info` does -/

/-- Two heaps that differ in the marks of stored tasks only. -/
def Heap.SameButMarks (h h' : Heap) : Prop :=
  ∀ t, h' t = { h t with
    backupRef := (h' t).backupRef, reused := (h' t).reused, stored := (h' t).stored }

theorem Heap.SameButMarks.trans {h h' h'' : Heap} (hs : h.SameButMarks h')
    (hs' : h'.SameButMarks h'') : h.SameButMarks h'' := by
  intro t
  rw [hs' t, hs t]

namespace Heap.SameButMarks

variable {h h' : Heap}

theorem outs (hs : h.SameButMarks h') (t : TaskId) : (h' t).outs = (h t).outs := by
  rw [hs t]
  rfl

theorem isAceMesh (hs : h.SameButMarks h') (t : TaskId) :
    (h' t).isAceMesh = (h t).isAceMesh := by rw [hs t]

theorem refCount (hs : h.SameButMarks h') (t : TaskId) :
    (h' t).refCount = (h t).refCount := by rw [hs t]

theorem affinityId (hs : h.SameButMarks h') (t : TaskId) :
    (h' t).affinityId = (h t).affinityId := by rw [hs t]

theorem deleted (hs : h.SameButMarks h') (t : TaskId) :
    (h' t).deleted = (h t).deleted := by rw [hs t]

end Heap.SameButMarks

/-- The part of a closed graph that `store_info` walks: edges lead to newer tasks, and the
end task `e` stands in vertical slots only. -/
structure Walkable (lo e : TaskId) (h : Heap) : Prop where
  kind : ∀ t, lo ≤ t → t ≤ e → ((h t).isAceMesh = true ↔ t < e)
  succ : ∀ t, lo ≤ t → t < e → ∀ x ∈ (h t).successorTasks, t < x ∧ x < e
  vertical : ∀ t, lo ≤ t → t < e → ∀ x, (h t).verticalTask = some x → t < x ∧ x ≤ e

/-- A stored task has its counter copied, and the tasks after it are stored. -/
structure Marked (lo e : TaskId) (h : Heap) : Prop where
  reused : ∀ t, lo ≤ t → t ≤ e → (h t).stored = true → (h t).reused = true
  backup : ∀ t, lo ≤ t → t ≤ e → (h t).stored = true → (h t).backupRef = (h t).refCount
  closed : ∀ t, lo ≤ t → t < e → (h t).stored = true → ∀ x ∈ (h t).outs, (h x).stored = true

/-- A walk marks tasks from `t` on that are not stored, and nothing else. -/
structure Marks (t e : TaskId) (h h' : Heap) : Prop where
  same : h.SameButMarks h'
  frame : ∀ u, u < t ∨ e < u → h' u = h u
  keep : ∀ u, (h u).stored = true → h' u = h u

namespace Marks

variable {t t' e : TaskId} {h h' h'' : Heap}

theorem refl (t e : TaskId) (h : Heap) : Marks t e h h :=
  ⟨fun _ => rfl, fun _ _ => rfl, fun _ _ => rfl⟩

theorem stored (hm : Marks t e h h') {u : TaskId} (hu : (h u).stored = true) :
    (h' u).stored = true := by
  rw [hm.keep u hu]
  exact hu

theorem trans (hm : Marks t e h h') (hm' : Marks t e h' h'') : Marks t e h h'' where
  same := hm.same.trans hm'.same
  frame := fun u hu => (hm'.frame u hu).trans (hm.frame u hu)
  keep := fun u hu => (hm'.keep u (hm.stored hu)).trans (hm.keep u hu)

theorem of_le (hm : Marks t' e h h') (hle : t ≤ t') : Marks t e h h' where
  same := hm.same
  frame := fun u hu => hm.frame u (hu.imp (fun hlt => Nat.lt_of_lt_of_le hlt hle) id)
  keep := hm.keep

theorem walkable {lo : TaskId} (hm : Marks t e h h') (hw : Walkable lo e h) :
    Walkable lo e h' where
  kind := fun u hlo hhi => by rw [hm.same u]; exact hw.kind u hlo hhi
  succ := fun u hlo hhi => by rw [hm.same u]; exact hw.succ u hlo hhi
  vertical := fun u hlo hhi => by rw [hm.same u]; exact hw.vertical u hlo hhi

/-- Marks on one task from `t` on that is not stored. -/
theorem modify {u : TaskId} {f : Task → Task} (hu : t ≤ u ∧ u ≤ e) (hnot : (h u).stored = false)
    (hf : f (h u) = { h u with
      backupRef := (f (h u)).backupRef, reused := (f (h u)).reused,
      stored := (f (h u)).stored }) : Marks t e h (h.modify u f) := by
  have hother : ∀ w, w ≠ u → h.modify u f w = h w := fun w hw => h.modify_of_ne hw f
  constructor
  · intro w
    by_cases hw : w = u
    · rw [hw, Heap.modify_self]
      exact hf
    · rw [hother w hw]
  · intro w hw
    exact hother w (by lia)
  · intro w hw
    refine hother w fun he => ?_
    rw [he, hnot] at hw
    cases hw

end Marks

theorem Heap.modify_modify (h : Heap) (t : TaskId) (f f' : Task → Task) :
    (h.modify t f).modify t f' = h.modify t (f' ∘ f) := by
  funext u
  by_cases hu : u = t
  · rw [hu, Heap.modify_self, Heap.modify_self, Heap.modify_self]
    rfl
  · rw [Heap.modify_of_ne _ hu, Heap.modify_of_ne _ hu, Heap.modify_of_ne _ hu]

/-- The copy of the counter, with the mark of a reused task. -/
theorem Heap.copy_eq (h : Heap) (t : TaskId) :
    (h.storeRefCount t).setReusedFlag t true =
      h.modify t fun o => { o with backupRef := o.refCount, reused := true } :=
  h.modify_modify t _ _

theorem Heap.storeEnd_eq (h : Heap) (t : TaskId) :
    h.storeEnd t = if (h t).stored then h
      else h.modify t fun o => { o with backupRef := o.refCount, reused := true, stored := true } := by
  unfold Heap.storeEnd
  rw [Heap.copy_eq]
  split
  · rfl
  · exact (h.modify_modify t _ _).trans rfl

/-- A copy of the counter of a task that is not stored. -/
theorem Marked.copy {lo e t : TaskId} {h : Heap} (hm : Marked lo e h)
    (hnot : (h t).stored = false) :
    Marked lo e (h.modify t fun o => { o with backupRef := o.refCount, reused := true }) := by
  have hstored : ∀ u, ((h.modify t fun o => { o with backupRef := o.refCount, reused := true })
      u).stored = (h u).stored := by
    intro u
    rw [Heap.modify_apply]
    split <;> rfl
  have hother : ∀ u, (h u).stored = true →
      (h.modify t fun o => { o with backupRef := o.refCount, reused := true }) u = h u := by
    intro u hu
    refine h.modify_of_ne (fun he => ?_) _
    rw [he, hnot] at hu
    cases hu
  constructor
  · intro u hlo hhi hu
    rw [hstored] at hu
    rw [hother u hu]
    exact hm.reused u hlo hhi hu
  · intro u hlo hhi hu
    rw [hstored] at hu
    rw [hother u hu]
    exact hm.backup u hlo hhi hu
  · intro u hlo hhi hu x hx
    rw [hstored] at hu
    rw [hother u hu] at hx
    rw [hstored]
    exact hm.closed u hlo hhi hu x hx

/-- The last mark: the tasks after `t` have been stored before. -/
theorem Marked.close {lo e t : TaskId} {h : Heap} (hm : Marked lo e h)
    (hreused : (h t).reused = true) (hbackup : (h t).backupRef = (h t).refCount)
    (hclosed : ∀ x ∈ (h t).outs, (h x).stored = true) : Marked lo e (h.setStored t true) := by
  have happly : ∀ u, h.setStored t true u =
      if u = t then { h u with stored := true } else h u :=
    fun u => Heap.modify_apply h t u fun o => { o with stored := true }
  have hgrow : ∀ x, (h x).stored = true → (h.setStored t true x).stored = true := by
    intro x hx
    rw [happly]
    split
    · rfl
    · exact hx
  constructor
  · intro u hlo hhi hu
    rw [happly] at hu ⊢
    by_cases hut : u = t
    · rw [if_pos hut, hut]
      exact hreused
    · rw [if_neg hut] at hu ⊢
      exact hm.reused u hlo hhi hu
  · intro u hlo hhi hu
    rw [happly] at hu ⊢
    by_cases hut : u = t
    · rw [if_pos hut, hut]
      exact hbackup
    · rw [if_neg hut] at hu ⊢
      exact hm.backup u hlo hhi hu
  · intro u hlo hhi hu x hx
    rw [happly] at hu hx
    by_cases hut : u = t
    · rw [if_pos hut, hut] at hx
      exact hgrow x (hclosed x hx)
    · rw [if_neg hut] at hu hx
      exact hgrow x (hm.closed u hlo hhi hu x hx)

theorem Marked.storeEnd {lo e : TaskId} {h : Heap} (hm : Marked lo e h) :
    Marked lo e (h.storeEnd e) ∧ Marks e e h (h.storeEnd e) ∧
      (h.storeEnd e e).stored = true := by
  rw [Heap.storeEnd_eq]
  by_cases hs : (h e).stored = true
  · rw [if_pos hs]
    exact ⟨hm, Marks.refl e e h, hs⟩
  · rw [if_neg hs]
    have hnot : (h e).stored = false := by simpa using hs
    refine ⟨?_, Marks.modify ⟨Nat.le_refl e, Nat.le_refl e⟩ hnot rfl, by rw [Heap.modify_self]⟩
    have happly : ∀ u, (h.modify e fun o =>
        { o with backupRef := o.refCount, reused := true, stored := true }) u =
        if u = e then { h u with backupRef := (h u).refCount, reused := true, stored := true }
        else h u := fun u => Heap.modify_apply h e u _
    constructor
    · intro u hlo hhi hu
      rw [happly] at hu ⊢
      by_cases hue : u = e
      · rw [if_pos hue]
      · rw [if_neg hue] at hu ⊢
        exact hm.reused u hlo hhi hu
    · intro u hlo hhi hu
      rw [happly] at hu ⊢
      by_cases hue : u = e
      · rw [if_pos hue]
      · rw [if_neg hue] at hu ⊢
        exact hm.backup u hlo hhi hu
    · intro u hlo hhi hu x hx
      rw [happly, if_neg (Nat.ne_of_lt hhi)] at hu hx
      rw [happly]
      split
      · rfl
      · exact hm.closed u hlo hhi hu x hx

/-- A list of tasks, walked one after another. -/
theorem foldlM_storeInfo {lo e t : TaskId} (visit : Heap → TaskId → Option Heap)
    (hvisit : ∀ h x, Walkable lo e h → Marked lo e h → t ≤ x → x < e → ∃ h', visit h x = some h' ∧
      Marked lo e h' ∧ Marks x e h h' ∧ (h' x).stored = true)
    {l : List TaskId} (hl : ∀ x ∈ l, t ≤ x ∧ x < e) {h : Heap} (hw : Walkable lo e h)
    (hm : Marked lo e h) : ∃ h', l.foldlM visit h = some h' ∧ Marked lo e h' ∧ Marks t e h h' ∧
      ∀ x ∈ l, (h' x).stored = true := by
  induction l generalizing h with
  | nil => exact ⟨h, rfl, hm, Marks.refl t e h, by simp⟩
  | cons x l ih =>
      obtain ⟨htx, hxe⟩ := hl x List.mem_cons_self
      obtain ⟨h₁, hv, hm₁, hmarks₁, hx⟩ := hvisit h x hw hm htx hxe
      obtain ⟨h₂, hfold, hm₂, hmarks₂, hrest⟩ :=
        ih (fun y hy => hl y (List.mem_cons_of_mem x hy)) (hmarks₁.walkable hw) hm₁
      refine ⟨h₂, ?_, hm₂, (hmarks₁.of_le htx).trans hmarks₂, ?_⟩
      · rw [List.foldlM_cons, hv]
        exact hfold
      · intro y hy
        obtain rfl | hy := List.mem_cons.mp hy
        · exact hmarks₂.stored hx
        · exact hrest y hy

/-- A task is walked, and the end task is only marked. -/
theorem storeInfo_or_storeEnd {lo e t : TaskId} (visit : Heap → TaskId → Option Heap)
    (hvisit : ∀ h x, Walkable lo e h → Marked lo e h → t ≤ x → x < e → ∃ h', visit h x = some h' ∧
      Marked lo e h' ∧ Marks x e h h' ∧ (h' x).stored = true)
    (hlo : lo ≤ t) {h : Heap} (hw : Walkable lo e h) (hm : Marked lo e h) {x : TaskId}
    (htx : t ≤ x) (hxe : x ≤ e) :
    ∃ h', (if (h x).isAceMesh then visit h x else some (h.storeEnd x)) = some h' ∧
      Marked lo e h' ∧ Marks x e h h' ∧ (h' x).stored = true := by
  by_cases hkind : (h x).isAceMesh = true
  · rw [if_pos hkind]
    exact hvisit h x hw hm htx ((hw.kind x (by lia) hxe).mp hkind)
  · have heq : x = e := by
      by_contra hne
      exact hkind ((hw.kind x (by lia) hxe).mpr (by lia))
    subst heq
    rw [if_neg hkind]
    exact ⟨h.storeEnd x, rfl, hm.storeEnd⟩

/-- With fuel for the tasks between `t` and the end task the walk from `t` comes to an end,
and `t` is stored then. -/
theorem storeInfo_spec {lo e : TaskId} (fuel : Nat) {h : Heap} {t : TaskId} (hlo : lo ≤ t)
    (hte : t < e) (hfuel : e - t < fuel) (hw : Walkable lo e h) (hm : Marked lo e h) :
    ∃ h', Heap.storeInfo fuel h t = some h' ∧ Marked lo e h' ∧ Marks t e h h' ∧
      (h' t).stored = true := by
  induction fuel generalizing h t with
  | zero => lia
  | succ fuel ih =>
      unfold Heap.storeInfo
      by_cases hs : (h t).stored = true
      · rw [if_pos hs]
        exact ⟨h, rfl, hm, Marks.refl t e h, hs⟩
      · rw [if_neg hs]
        have hnot : (h t).stored = false := by simpa using hs
        rw [Heap.copy_eq]
        have hm₁ := hm.copy hnot
        have hmarks₁ : Marks t e h
            (h.modify t fun o => { o with backupRef := o.refCount, reused := true }) :=
          Marks.modify ⟨Nat.le_refl t, Nat.le_of_lt hte⟩ hnot rfl
        have hw₁ := hmarks₁.walkable hw
        have ht₁ : (h.modify t fun o => { o with backupRef := o.refCount, reused := true }) t =
            { h t with backupRef := (h t).refCount, reused := true } := Heap.modify_self ..
        generalize (h.modify t fun o => { o with backupRef := o.refCount, reused := true }) = h₁
          at hm₁ hmarks₁ hw₁ ht₁ ⊢
        have hvisit (h : Heap) (x : TaskId) (hw : Walkable lo e h) (hm : Marked lo e h)
            (htx : t + 1 ≤ x) (hxe : x < e) : ∃ h', Heap.storeInfo fuel h x = some h' ∧
              Marked lo e h' ∧ Marks x e h h' ∧ (h' x).stored = true :=
          ih (by lia) hxe (by lia) hw hm
        -- the vertical task
        have hvertical : ∃ h₂, (match (h₁ t).verticalTask with
            | some vt => if (h₁ vt).isAceMesh then Heap.storeInfo fuel h₁ vt
              else some (h₁.storeEnd vt)
            | none => some h₁) = some h₂ ∧ Marked lo e h₂ ∧ Marks (t + 1) e h₁ h₂ ∧
            ∀ x, (h₁ t).verticalTask = some x → (h₂ x).stored = true := by
          cases hv : (h₁ t).verticalTask with
          | none => exact ⟨h₁, rfl, hm₁, Marks.refl _ e h₁, by simp⟩
          | some vt =>
              obtain ⟨htv, hve⟩ := hw₁.vertical t hlo hte vt hv
              obtain ⟨h₂, hrun, hm₂, hmarks₂, hvt⟩ :=
                storeInfo_or_storeEnd _ hvisit (by lia) hw₁ hm₁ htv hve
              refine ⟨h₂, hrun, hm₂, hmarks₂.of_le htv, ?_⟩
              intro x hx
              cases hx
              exact hvt
        obtain ⟨h₂, hrun₂, hm₂, hmarks₂, hvstored⟩ := hvertical
        have ht₂ : h₂ t = h₁ t := hmarks₂.frame t (Or.inl (Nat.lt_succ_self t))
        have hw₂ := hmarks₂.walkable hw₁
        -- the successor list
        obtain ⟨h₃, hrun₃, hm₃, hmarks₃, hsstored⟩ := foldlM_storeInfo (t := t + 1)
          (fun h t => if (h t).isAceMesh then Heap.storeInfo fuel h t else some h)
          (fun h x hw hm htx hxe => by
            rw [if_pos ((hw.kind x (by lia) (by lia)).mpr hxe)]
            exact hvisit h x hw hm htx hxe)
          (l := (h₂ t).successorTasks) (fun x hx => hw₂.succ t hlo hte x hx) hw₂ hm₂
        have ht₃ : h₃ t = h₁ t := (hmarks₃.frame t (Or.inl (Nat.lt_succ_self t))).trans ht₂
        have hmarks : Marks t e h h₃ :=
          hmarks₁.trans ((hmarks₂.trans hmarks₃).of_le (Nat.le_succ t))
        have hnot₃ : (h₃ t).stored = false := by rw [ht₃, ht₁]; exact hnot
        refine ⟨h₃.setStored t true, ?_, ?_, hmarks.trans ?_, ?_⟩
        · dsimp only
          rw [hrun₂]
          dsimp only [Option.bind]
          rw [hrun₃]
          rfl
        · refine hm₃.close (by rw [ht₃, ht₁]) (by rw [ht₃, ht₁]) ?_
          intro x hx
          rw [ht₃] at hx
          obtain hx | hx := Task.mem_outs.mp hx
          · exact hsstored x (by rw [ht₂]; exact hx)
          · exact hmarks₃.stored (hvstored x hx)
        · exact Marks.modify ⟨Nat.le_refl t, Nat.le_of_lt hte⟩ hnot₃ rfl
        · rw [Heap.setStored, Heap.modify_self]

/-! ## The first run of a numbered graph -/

section Closed

variable {lo : TaskId} {g : TaskDagGraph} (hb : Book lo g)
include hb

theorem Book.walkable : Walkable lo g.fresh g.endConstructDag.heap where
  kind := fun t hlo hhi => by
    rw [hb.endConstructDag_heap]
    by_cases hlt : t < g.fresh
    · have hkind := (hb.kind t hlo hlt).1
      rw [if_neg (show t ≠ g.fresh by lia)]
      split
      · exact iff_of_true hkind hlt
      · exact iff_of_true hkind hlt
    · have heq : t = g.fresh := by lia
      have hnot : t ∉ g.endTasks := fun hm => hlt ((hb.edges.mem_ends t).mp hm).1.2
      rw [if_neg hnot, if_pos heq]
      exact iff_of_false (by simp [Task.newEmpty]) hlt
  succ := fun t hlo hhi x hx => by
    rw [hb.endConstructDag_heap, if_neg (show t ≠ g.fresh by lia)] at hx
    have hx : x ∈ (g.heap t).successorTasks := by
      split at hx
      · exact hx
      · exact hx
    exact hb.edges.forward t hlo hhi x (Task.mem_outs.mpr (Or.inl hx))
  vertical := fun t hlo hhi x hx => by
    rw [hb.endConstructDag_heap, if_neg (show t ≠ g.fresh by lia)] at hx
    split at hx
    · cases hx
      exact ⟨hhi, Nat.le_refl _⟩
    · have := hb.edges.forward t hlo hhi x (Task.mem_outs.mpr (Or.inr hx))
      exact ⟨this.1, Nat.le_of_lt this.2⟩

theorem Book.endConstructDag_attrs {t : TaskId} (hlo : lo ≤ t) (hhi : t ≤ g.fresh) :
    (g.endConstructDag.heap t).stored = false ∧
      (g.endConstructDag.heap t).deleted = false := by
  rw [hb.endConstructDag_heap]
  by_cases hlt : t < g.fresh
  · have hkind := (hb.kind t hlo hlt).2
    rw [if_neg (show t ≠ g.fresh by lia)]
    split
    · exact hkind
    · exact hkind
  · have heq : t = g.fresh := by lia
    have hnot : t ∉ g.endTasks := fun hm => hlt ((hb.edges.mem_ends t).mp hm).1.2
    rw [if_neg hnot, if_pos heq]
    exact ⟨rfl, rfl⟩

theorem Book.endConstructDag_below {t : TaskId} (hlo : t < lo) :
    g.endConstructDag.heap t = g.heap t := by
  have hle := hb.lo_le
  have hnot : t ∉ g.endTasks := fun hm => by
    have := ((hb.edges.mem_ends t).mp hm).1.1
    lia
  rw [hb.endConstructDag_heap, if_neg hnot, if_neg (show t ≠ g.fresh by lia)]

/-- From the roots every task is reached, and from the last one the end task. -/
theorem Book.stored_all {h : Heap} (hmarks : g.endConstructDag.heap.SameButMarks h)
    (hm : Marked lo g.fresh h) (hroots : ∀ t ∈ g.needSpawnTasks, (h t).stored = true)
    (hlt : lo < g.fresh) (t : TaskId) (hlo : lo ≤ t) (hhi : t ≤ g.fresh) :
    (h t).stored = true := by
  have houts : ∀ u, lo ≤ u → u < g.fresh → (h u).outs =
      if (g.heap u).outs = [] then [g.fresh] else (g.heap u).outs := by
    intro u hulo huhi
    rw [← hb.endConstructDag_outs u hulo huhi, hmarks u]
    rfl
  have htasks : ∀ t, lo ≤ t → t < g.fresh → (h t).stored = true := by
    intro t
    induction t using Nat.strong_induction_on with
    | _ t ih =>
        intro hlo hhi
        by_cases hroot : t ∈ g.needSpawnTasks
        · exact hroots t hroot
        · have hpred : ∃ u, lo ≤ u ∧ u < g.fresh ∧ t ∈ (g.heap u).outs := by
            by_contra hno
            refine hroot ((hb.mem_roots t).mpr ⟨⟨hlo, hhi⟩, ?_⟩)
            intro u hulo huhi hmem
            exact hno ⟨u, hulo, huhi, hmem⟩
          obtain ⟨u, hulo, huhi, hmem⟩ := hpred
          have hut := (hb.edges.forward u hulo huhi t hmem).1
          refine hm.closed u hulo huhi (ih u hut hulo huhi) t ?_
          rw [houts u hulo huhi, if_neg (List.ne_nil_of_mem hmem)]
          exact hmem
  by_cases hend : t < g.fresh
  · exact htasks t hlo hend
  · have heq : t = g.fresh := by lia
    -- the last task has no edge but the one to the end task
    have hlast : lo ≤ g.fresh - 1 ∧ g.fresh - 1 < g.fresh := by lia
    refine hm.closed (g.fresh - 1) hlast.1 hlast.2 (htasks _ hlast.1 hlast.2) t ?_
    rw [houts _ hlast.1 hlast.2, heq]
    split
    · exact List.mem_singleton_self _
    · rename_i hne
      obtain ⟨x, hx⟩ := List.exists_mem_of_ne_nil _ hne
      have := hb.edges.forward _ hlast.1 hlast.2 x hx
      lia

/-- `_store_dag_info` comes to an end, and if there is a task at all then every object of the
graph keeps its counter. -/
theorem Book.storeDagInfo : ∃ h : Heap,
    g.needSpawnTasks.foldlM (Heap.storeInfo (g.fresh + 2)) g.endConstructDag.heap = some h ∧
    Marks lo g.fresh g.endConstructDag.heap h ∧
    (lo < g.fresh → ∀ t, lo ≤ t → t ≤ g.fresh →
      (h t).reused = true ∧ (h t).backupRef = (h t).refCount) := by
  have hw := hb.walkable
  have hnot : ∀ t, lo ≤ t → t ≤ g.fresh → ¬ (g.endConstructDag.heap t).stored = true := by
    intro t hlo hhi
    rw [(hb.endConstructDag_attrs hlo hhi).1]
    exact Bool.false_ne_true
  have hm : Marked lo g.fresh g.endConstructDag.heap :=
    ⟨fun t hlo hhi hs => absurd hs (hnot t hlo hhi),
      fun t hlo hhi hs => absurd hs (hnot t hlo hhi),
      fun t hlo hhi hs => absurd hs (hnot t hlo (Nat.le_of_lt hhi))⟩
  obtain ⟨h, hrun, hm', hmarks, hroots⟩ := foldlM_storeInfo (t := lo)
    (Heap.storeInfo (g.fresh + 2))
    (fun h x hw hm hlo hhi => storeInfo_spec (g.fresh + 2) hlo hhi (by lia) hw hm)
    (l := g.needSpawnTasks) (fun x hx => ((hb.mem_roots x).mp hx).1) hw hm
  refine ⟨h, hrun, hmarks, fun hlt t hlo hhi => ?_⟩
  have hstored := hb.stored_all hmarks.same hm' hroots hlt t hlo hhi
  exact ⟨hm'.reused t hlo hhi hstored, hm'.backup t hlo hhi hstored⟩

end Closed

/-! ## A stored graph -/

/-- A stored graph over the tasks from `lo` to its end task `e`, with its roots. -/
structure Kept (n : Nat) (lo e : TaskId) (roots : List TaskId) (h : Heap) : Prop where
  runnable : Runnable n (Finset.Ico lo e) e h
  reused : ∀ t, lo ≤ t → t ≤ e → (h t).reused = true
  alive : ∀ t, lo ≤ t → t ≤ e → (h t).deleted = false
  backup : ∀ t, lo ≤ t → t ≤ e → (h t).backupRef = inDegree (Finset.Ico lo e) h t
  roots_nodup : roots.Nodup
  roots : ∀ t, t ∈ roots ↔ t ∈ Finset.Ico lo e ∧ inDegree (Finset.Ico lo e) h t = 0

/-- No run of the graph is under way: its counters are the stored ones. -/
def Rested (lo e : TaskId) (h : Heap) : Prop :=
  ∀ t, lo ≤ t → t ≤ e → (h t).refCount = (h t).backupRef

theorem inDegree_sameShape {nodes : Finset TaskId} {h h' : Heap} (hs : h.SameShape h')
    (t : TaskId) : inDegree nodes h' t = inDegree nodes h t :=
  Finset.sum_congr rfl fun u _ => by rw [hs.outs]

namespace Kept

variable {n : Nat} {lo e : TaskId} {roots : List TaskId} {h h' : Heap}

theorem sameShape (hk : Kept n lo e roots h) (hs : h.SameShape h')
    (halive : ∀ t, (h t).reused = true → (h' t).deleted = (h t).deleted) :
    Kept n lo e roots h' where
  runnable := hk.runnable.sameShape hs
  reused := fun t hlo hhi => (hs.reused t).trans (hk.reused t hlo hhi)
  alive := fun t hlo hhi => (halive t (hk.reused t hlo hhi)).trans (hk.alive t hlo hhi)
  backup := fun t hlo hhi => by rw [hs.backupRef, hk.backup t hlo hhi, inDegree_sameShape hs]
  roots_nodup := hk.roots_nodup
  roots := fun t => by rw [hk.roots, inDegree_sameShape hs]

/-- The objects of the graph have not changed. -/
theorem congr (hk : Kept n lo e roots h) (heq : ∀ t, lo ≤ t → t ≤ e → h' t = h t) :
    Kept n lo e roots h' := by
  have hin : ∀ t ∈ Finset.Ico lo e, h' t = h t := fun t ht =>
    heq t (Finset.mem_Ico.mp ht).1 (Nat.le_of_lt (Finset.mem_Ico.mp ht).2)
  have hdegree : ∀ t, inDegree (Finset.Ico lo e) h' t = inDegree (Finset.Ico lo e) h t :=
    fun t => Finset.sum_congr rfl fun u hu => by rw [hin u hu]
  constructor
  · refine ⟨?_, fun t ht => by rw [hin t ht]; exact hk.runnable.kind t ht,
      fun t ht => by rw [hin t ht]; exact hk.runnable.affinity t ht⟩
    exact hk.runnable.dag.congr fun u hu => by rw [hin u hu]
  · exact fun t hlo hhi => by rw [heq t hlo hhi]; exact hk.reused t hlo hhi
  · exact fun t hlo hhi => by rw [heq t hlo hhi]; exact hk.alive t hlo hhi
  · exact fun t hlo hhi => by rw [heq t hlo hhi, hdegree]; exact hk.backup t hlo hhi
  · exact hk.roots_nodup
  · exact fun t => by rw [hdegree]; exact hk.roots t

end Kept

/-- A stored graph can be run again. -/
theorem Kept.ready {m : Nat} {lo e : TaskId} {roots : List TaskId} {r : Runtime m}
    (hk : Kept (m + 1) lo e roots r.heap) (hrest : Rested lo e r.heap) (hle : lo ≤ e)
    (hend : r.graph.endTask = some e) (hroots : r.graph.needSpawnTasks = roots)
    (hidle : r.Idle) (hmain : r.main = .prog) : Ready (Finset.Ico lo e) e r where
  runnable := hk.runnable
  endTask := hend
  counts := fun t ht => by
    have ht := Finset.mem_Ico.mp ht
    rw [hrest t ht.1 (Nat.le_of_lt ht.2), hk.backup t ht.1 (Nat.le_of_lt ht.2)]
  endCount := by rw [hrest e hle (Nat.le_refl e), hk.backup e hle (Nat.le_refl e)]
  roots_nodup := by rw [hroots]; exact hk.roots_nodup
  roots := fun t => by rw [hroots]; exact hk.roots t
  idle := hidle
  main := hmain

/-- A graph that is about to run for the first time, after `store_info`. -/
theorem Ready.kept {m : Nat} {lo e : TaskId} {r : Runtime m}
    (hr : Ready (Finset.Ico lo e) e r)
    (hmarks : ∀ t, lo ≤ t → t ≤ e → (r.heap t).reused = true ∧
      (r.heap t).backupRef = (r.heap t).refCount)
    (halive : ∀ t, lo ≤ t → t ≤ e → (r.heap t).deleted = false) :
    Kept (m + 1) lo e r.graph.needSpawnTasks r.heap ∧ Rested lo e r.heap := by
  refine ⟨⟨hr.runnable, fun t hlo hhi => (hmarks t hlo hhi).1, halive, fun t hlo hhi => ?_,
    hr.roots_nodup, hr.roots⟩, fun t hlo hhi => ((hmarks t hlo hhi).2).symm⟩
  rw [(hmarks t hlo hhi).2]
  by_cases hlt : t < e
  · exact hr.counts t (Finset.mem_Ico.mpr ⟨hlo, hlt⟩)
  · rw [show t = e by lia]
    exact hr.endCount

end AceMesh
