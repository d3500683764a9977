import AceMesh.Lib.Fold
import AceMesh.Lib.PostOrder
import AceMesh.Reuse

/-!
# Storing and freeing a whole graph

`store_info` marks the objects of a graph, `get_free_list` collects them again by the same
walk and clears the marks on its way, and `free_tasks` deletes what has been collected for
each stored graph. Both walks are walks in post-order, so that both visit every object of an
acyclic graph once. The end task is a leaf of the walk: it is met in vertical slots only and
has no successors.

`wait_free_tasks` is a list without duplicates, the order in which an `unordered_set` is
iterated is any.
-/

open Relation

namespace AceMesh

/-! ## The two walks -/

/-- `store_info`, with the objects that it marks in the order in which it gets to them: for a
task this is when its successors are walked. -/
def Heap.storeInfoLog : Nat → Heap × List TaskId → TaskId → Option (Heap × List TaskId)
  | 0, _, _ => none
  | fuel + 1, s, this =>
    if (s.1 this).stored then some s
    else
      let s := ((s.1.storeRefCount this).setReusedFlag this true, s.2 ++ [this])
      let vertical : Option (Heap × List TaskId) := match (s.1 this).verticalTask with
        | some vt =>
          if (s.1 vt).isAceMesh then storeInfoLog fuel s vt
          else some (s.1.storeEnd vt, if (s.1 vt).stored then s.2 else s.2 ++ [vt])
        | none => some s
      vertical.bind fun s =>
        ((s.1 this).successorTasks.foldlM (fun (s : Heap × List TaskId) t =>
          if (s.1 t).isAceMesh then storeInfoLog fuel s t else some s) s).map fun s =>
            (s.1.setStored this true, s.2)

/-- `insert` of `wait_free_tasks`. -/
def insertTask (waitFreeTasks : List TaskId) (t : TaskId) : List TaskId :=
  if t ∈ waitFreeTasks then waitFreeTasks else waitFreeTasks ++ [t]

/-- `aceMesh_task::get_free_list`. -/
def Heap.getFreeList : Nat → Heap × List TaskId → TaskId → Option (Heap × List TaskId)
  | 0, _, _ => none
  | fuel + 1, s, this =>
    if (s.1 this).stored = false then some s
    else
      let s := (s.1, insertTask s.2 this)
      let vertical : Option (Heap × List TaskId) := match (s.1 this).verticalTask with
        | some vt =>
          if (s.1 vt).isAceMesh then getFreeList fuel s vt
          else if (s.1 vt).stored then some (s.1.setStored vt false, insertTask s.2 vt)
          else some s
        | none => some s
      vertical.bind fun s =>
        ((s.1 this).successorTasks.foldlM (fun (s : Heap × List TaskId) t =>
          let s := (s.1, insertTask s.2 t)
          if (s.1 t).isAceMesh then getFreeList fuel s t else some s) s).map fun s =>
            (s.1.setStored this false, s.2)

namespace TaskDagGraph

/-- `_store_dag_info`, with the objects that are marked. -/
def storeDagInfoLog (g : TaskDagGraph) : Option (Heap × List TaskId) :=
  g.needSpawnTasks.foldlM (Heap.storeInfoLog (g.fresh + 1)) (g.heap, [])

/-- One graph in the loop of `free_tasks`, with the objects that have been deleted. `iterate`
is the order of the iteration. -/
def freeInstance (iterate : List TaskId → List TaskId) (s : TaskDagGraph × List TaskId)
    (inst : DagInstance) : Option (TaskDagGraph × List TaskId) :=
  (inst.needSpawnTasks.foldlM (Heap.getFreeList (s.1.fresh + 1)) (s.1.heap, [])).map fun r =>
    (iterate r.2).foldl
      (fun s t => ({ s.1 with heap := s.1.heap.delete t }, s.2 ++ [t]))
      ({ s.1 with heap := r.1, needSpawnTasks := inst.needSpawnTasks }, s.2)

/-- `free_tasks`, with the entries of `dag_instance_map` in the order of the map. -/
def freeTasks (g : TaskDagGraph) (iterate : List TaskId → List TaskId)
    (dagInstanceMap : List (Int × DagInstance)) : Option (TaskDagGraph × List TaskId) :=
  dagInstanceMap.foldlM (fun s p => freeInstance iterate s p.2) (g, [])

end TaskDagGraph

theorem storeInfoLog_fst (fuel : Nat) (s : Heap × List TaskId) (t : TaskId) :
    (Heap.storeInfoLog fuel s t).map (·.1) = Heap.storeInfo fuel s.1 t := by
  induction fuel generalizing s t with
  | zero => rfl
  | succ fuel ih =>
      have hfold : ∀ (l : List TaskId) (s : Heap × List TaskId),
          (l.foldlM (fun (s : Heap × List TaskId) t =>
            if (s.1 t).isAceMesh then Heap.storeInfoLog fuel s t else some s) s).map (·.1) =
          l.foldlM (fun (h : Heap) t =>
            if (h t).isAceMesh then Heap.storeInfo fuel h t else some h) s.1 := by
        intro l
        induction l with
        | nil => exact fun s => rfl
        | cons x l ihl =>
            intro s
            rw [List.foldlM_cons, List.foldlM_cons]
            by_cases hkind : (s.1 x).isAceMesh = true
            · rw [if_pos hkind, if_pos hkind, ← ih s x]
              cases Heap.storeInfoLog fuel s x with
              | none => rfl
              | some r => exact ihl r
            · rw [if_neg hkind, if_neg hkind]
              exact ihl s
      unfold Heap.storeInfoLog Heap.storeInfo
      by_cases hs : (s.1 t).stored = true
      · rw [if_pos hs, if_pos hs]
        rfl
      · rw [if_neg hs, if_neg hs]
        have hrest : ∀ s : Heap × List TaskId,
            (((s.1 t).successorTasks.foldlM (fun (s : Heap × List TaskId) t =>
              if (s.1 t).isAceMesh then Heap.storeInfoLog fuel s t else some s) s).map fun s =>
                (s.1.setStored t true, s.2)).map (·.1) =
            ((s.1 t).successorTasks.foldlM (fun (h : Heap) t =>
              if (h t).isAceMesh then Heap.storeInfo fuel h t else some h) s.1).map fun h =>
                h.setStored t true := by
          intro s
          rw [← hfold, Option.map_map, Option.map_map]
          rfl
        dsimp only
        generalize (s.1.storeRefCount t).setReusedFlag t true = h
        cases (h t).verticalTask with
        | none => exact hrest (h, s.2 ++ [t])
        | some vt =>
            dsimp only
            by_cases hkind : (h vt).isAceMesh = true
            · rw [if_pos hkind, if_pos hkind, ← ih (h, s.2 ++ [t]) vt]
              cases Heap.storeInfoLog fuel (h, s.2 ++ [t]) vt with
              | none => rfl
              | some r => exact hrest r
            · rw [if_neg hkind, if_neg hkind]
              exact hrest _

theorem storeDagInfoLog_fst (g : TaskDagGraph) :
    g.storeDagInfoLog.map (·.1) = g.storeDagInfo.map (·.heap) := by
  have hfold : ∀ (l : List TaskId) (s : Heap × List TaskId),
      (l.foldlM (Heap.storeInfoLog (g.fresh + 1)) s).map (·.1) =
        l.foldlM (Heap.storeInfo (g.fresh + 1)) s.1 := by
    intro l
    induction l with
    | nil => exact fun s => rfl
    | cons x l ih =>
        intro s
        rw [List.foldlM_cons, List.foldlM_cons, ← storeInfoLog_fst]
        cases Heap.storeInfoLog (g.fresh + 1) s x with
        | none => rfl
        | some r => exact ih r
  unfold TaskDagGraph.storeDagInfoLog TaskDagGraph.storeDagInfo
  rw [hfold, Option.map_map]
  exact (Option.map_id' (x := _)).symm

/-! ## The graph that is walked -/

/-- A closed graph: edges lead to newer tasks, and the end task `e` leads nowhere. -/
structure Webbed (lo e : TaskId) (h : Heap) : Prop where
  walkable : Walkable lo e h
  leaf : (h e).outs = []

/-- The edges in the order in which the walks take them. -/
def Task.walked (o : Task) : List TaskId := o.verticalTask.toList ++ o.successorTasks

theorem Task.mem_walked {o : Task} {x : TaskId} : x ∈ o.walked ↔ x ∈ o.outs := by
  unfold Task.walked Task.outs
  rw [List.mem_append, List.mem_append]
  exact or_comm

theorem Webbed.walked_leaf {lo e : TaskId} {h : Heap} (hw : Webbed lo e h) :
    (h e).walked = [] :=
  List.eq_nil_iff_forall_not_mem.mpr fun x hx => by
    rw [Task.mem_walked, hw.leaf] at hx
    cases hx

theorem Webbed.falls {lo e : TaskId} {h : Heap} (hw : Webbed lo e h) {t x : TaskId}
    (hlo : lo ≤ t) (hhi : t ≤ e) (hx : x ∈ (h t).walked) : t < x ∧ x ≤ e := by
  by_cases hlt : t < e
  · rcases List.mem_append.mp hx with hx | hx
    · exact hw.walkable.vertical t hlo hlt x (Option.mem_toList.mp hx)
    · have := hw.walkable.succ t hlo hlt x hx
      lia
  · have heq : t = e := by lia
    rw [heq, hw.walked_leaf] at hx
    cases hx

/-- The graph that is walked, ranked by the distance to the end task. -/
def Webbed.graph {lo e : TaskId} {h : Heap} (hw : Webbed lo e h) : RankedGraph TaskId where
  nodes t := lo ≤ t ∧ t ≤ e
  kids t := (h t).walked
  rank t := e - t
  falls t ht x hx := by
    have := hw.falls ht.1 ht.2 hx
    lia

/-- Every object is reached from the roots. -/
theorem Webbed.reached {lo e : TaskId} {h : Heap} (hw : Webbed lo e h) {roots : List TaskId}
    (hpred : ∀ t, lo ≤ t → t ≤ e → t ∉ roots → ∃ u, lo ≤ u ∧ u < e ∧ t ∈ (h u).outs)
    {t : TaskId} (hlo : lo ≤ t) (hhi : t ≤ e) :
    ∃ x ∈ roots, ReflTransGen (fun u v => v ∈ (h u).walked) x t := by
  induction t using Nat.strong_induction_on with
  | _ t ih =>
      by_cases hroot : t ∈ roots
      · exact ⟨t, hroot, .refl⟩
      · obtain ⟨u, hulo, huhi, hmem⟩ := hpred t hlo hhi hroot
        have hedge := Task.mem_walked.mpr hmem
        have hlt := hw.falls hulo (Nat.le_of_lt huhi) hedge
        obtain ⟨x, hx, hpath⟩ := ih u hlt.1 hulo (Nat.le_of_lt huhi)
        exact ⟨x, hx, hpath.tail hedge⟩

/-! ## Storing -/

theorem Webbed.same {lo e : TaskId} {h h' : Heap} (hw : Webbed lo e h)
    (hs : h.SameButMarks h') : Webbed lo e h' where
  walkable :=
    { kind := fun t hlo hhi => by rw [hs t]; exact hw.walkable.kind t hlo hhi
      succ := fun t hlo hhi => by rw [hs t]; exact hw.walkable.succ t hlo hhi
      vertical := fun t hlo hhi => by rw [hs t]; exact hw.walkable.vertical t hlo hhi }
  leaf := (hs.outs e).trans hw.leaf

theorem Heap.SameButMarks.modify (h : Heap) (t : TaskId) {f : Task → Task}
    (hf : f (h t) = { h t with
      backupRef := (f (h t)).backupRef, reused := (f (h t)).reused,
      stored := (f (h t)).stored }) : h.SameButMarks (h.modify t f) := by
  intro u
  by_cases hu : u = t
  · rw [hu, Heap.modify_self]
    exact hf
  · rw [Heap.modify_of_ne h hu]

theorem Heap.sameButMarks_copy (h : Heap) (t : TaskId) :
    h.SameButMarks ((h.storeRefCount t).setReusedFlag t true) := by
  rw [Heap.copy_eq]
  exact .modify h t rfl

theorem Heap.sameButMarks_setStored (h : Heap) (t : TaskId) (val : Bool) :
    h.SameButMarks (h.setStored t val) :=
  .modify h t (f := fun o => { o with stored := val }) rfl

theorem Heap.sameButMarks_storeEnd (h : Heap) (t : TaskId) : h.SameButMarks (h.storeEnd t) := by
  unfold Heap.storeEnd
  split
  · exact fun _ => rfl
  · exact (h.sameButMarks_copy t).trans (Heap.sameButMarks_setStored _ t true)

/-- `store_info` as a walk. -/
def storeWalk : PostOrder Heap TaskId where
  seen h t := (h t).stored
  children h t := (h t).walked
  enter h t := (h.storeRefCount t).setReusedFlag t true
  leave h t := h.setStored t true

section Store

variable {lo e : TaskId}

theorem storeWalk_leaf {fuel : Nat} {s r : Heap × List TaskId} (hw : Webbed lo e s.1)
    (hwalk : storeWalk.walk fuel s e = some r) :
    r = (s.1.storeEnd e, if (s.1 e).stored then s.2 else s.2 ++ [e]) := by
  cases fuel with
  | zero => cases hwalk
  | succ fuel =>
      unfold PostOrder.walk at hwalk
      unfold Heap.storeEnd
      by_cases hs : (s.1 e).stored = true
      · rw [if_pos hs, if_pos hs]
        rw [if_pos (show storeWalk.seen s.1 e = true from hs)] at hwalk
        exact (Option.some.inj hwalk).symm
      · rw [if_neg hs, if_neg hs]
        rw [if_neg (show ¬ storeWalk.seen s.1 e = true from hs)] at hwalk
        have hchildren : storeWalk.children (storeWalk.enter s.1 e) e = [] :=
          (hw.same (s.1.sameButMarks_copy e)).walked_leaf
        rw [hchildren] at hwalk
        exact (Option.some.inj hwalk).symm

/-- A list of tasks, visited one after another. -/
theorem visit_of_walk {fuel : Nat} {visit : Heap × List TaskId → TaskId → Option (Heap × List TaskId)}
    (hone : ∀ s r t, Webbed lo e s.1 → lo ≤ t → t < e → storeWalk.walk fuel s t = some r →
      visit s t = some r ∧ s.1.SameButMarks r.1)
    {l : List TaskId} (hl : ∀ x ∈ l, lo ≤ x ∧ x < e) {s r : Heap × List TaskId}
    (hw : Webbed lo e s.1) (hwalk : l.foldlM (storeWalk.walk fuel) s = some r) :
    l.foldlM visit s = some r ∧ s.1.SameButMarks r.1 := by
  induction l generalizing s with
  | nil =>
      obtain rfl := Option.some.inj hwalk
      exact ⟨rfl, fun _ => rfl⟩
  | cons x l ih =>
      rw [List.foldlM_cons] at hwalk ⊢
      obtain ⟨s', hx, hwalk⟩ := Option.bind_eq_some_iff.mp hwalk
      obtain ⟨hxlo, hxe⟩ := hl x List.mem_cons_self
      obtain ⟨hrun, hsame⟩ := hone s s' x hw hxlo hxe hx
      obtain ⟨hall, hsame'⟩ := ih (fun y hy => hl y (List.mem_cons_of_mem x hy))
        (hw.same hsame) hwalk
      rw [hrun]
      exact ⟨hall, hsame.trans hsame'⟩

/-- Where the walk goes, `store_info` goes. -/
theorem storeInfoLog_of_walk (fuel : Nat) {s r : Heap × List TaskId} {t : TaskId}
    (hw : Webbed lo e s.1) (hlo : lo ≤ t) (hte : t < e)
    (hwalk : storeWalk.walk fuel s t = some r) :
    Heap.storeInfoLog fuel s t = some r ∧ s.1.SameButMarks r.1 := by
  induction fuel generalizing s r t with
  | zero => cases hwalk
  | succ fuel ih =>
      unfold PostOrder.walk at hwalk
      unfold Heap.storeInfoLog
      by_cases hs : (s.1 t).stored = true
      · rw [if_pos (show storeWalk.seen s.1 t = true from hs)] at hwalk
        rw [if_pos hs, hwalk]
        obtain rfl := Option.some.inj hwalk
        exact ⟨rfl, fun _ => rfl⟩
      · rw [if_neg (show ¬ storeWalk.seen s.1 t = true from hs)] at hwalk
        rw [if_neg hs]
        obtain ⟨r₀, hfold, rfl⟩ := Option.map_eq_some_iff.mp hwalk
        have hsame₁ := s.1.sameButMarks_copy t
        change ((((s.1.storeRefCount t).setReusedFlag t true) t).walked).foldlM
          (storeWalk.walk fuel) ((s.1.storeRefCount t).setReusedFlag t true, s.2 ++ [t]) =
            some r₀ at hfold
        dsimp only
        generalize (s.1.storeRefCount t).setReusedFlag t true = h₁ at hfold hsame₁ ⊢
        have hw₁ := hw.same hsame₁
        unfold Task.walked at hfold
        rw [List.foldlM_append] at hfold
        obtain ⟨s₂, hvertical, hsucc⟩ := Option.bind_eq_some_iff.mp hfold
        -- the vertical task
        have hone : (match (h₁ t).verticalTask with
            | some vt => if (h₁ vt).isAceMesh then Heap.storeInfoLog fuel (h₁, s.2 ++ [t]) vt
              else some (h₁.storeEnd vt, if (h₁ vt).stored then s.2 ++ [t] else s.2 ++ [t] ++ [vt])
            | none => some (h₁, s.2 ++ [t])) = some s₂ ∧ h₁.SameButMarks s₂.1 := by
          cases hv : (h₁ t).verticalTask with
          | none =>
              rw [hv] at hvertical
              obtain rfl := Option.some.inj hvertical
              exact ⟨rfl, fun _ => rfl⟩
          | some vt =>
              rw [hv] at hvertical
              have hvt : storeWalk.walk fuel (h₁, s.2 ++ [t]) vt = some s₂ := by
                rw [← hvertical]
                exact (bind_pure _).symm
              have hrange := hw₁.walkable.vertical t hlo hte vt hv
              by_cases hkind : (h₁ vt).isAceMesh = true
              · have hlt := (hw₁.walkable.kind vt (by lia) hrange.2).mp hkind
                obtain ⟨hrun, hsame⟩ := ih hw₁ (by lia) hlt hvt
                exact ⟨(if_pos hkind).trans hrun, hsame⟩
              · have heq : vt = e := by
                  by_contra hne
                  exact hkind ((hw₁.walkable.kind vt (by lia) hrange.2).mpr (by lia))
                subst heq
                rw [storeWalk_leaf hw₁ hvt]
                exact ⟨if_neg hkind, h₁.sameButMarks_storeEnd vt⟩
        obtain ⟨hrun₂, hsame₂⟩ := hone
        -- the successors
        have hw₂ := hw₁.same hsame₂
        have hone : ∀ s r x, Webbed lo e s.1 → lo ≤ x → x < e →
            storeWalk.walk fuel s x = some r →
            (if (s.1 x).isAceMesh then Heap.storeInfoLog fuel s x else some s) = some r ∧
              s.1.SameButMarks r.1 := by
          intro s r x hws hxlo hxe hx
          rw [if_pos ((hws.walkable.kind x hxlo (Nat.le_of_lt hxe)).mpr hxe)]
          exact ih hws hxlo hxe hx
        have hsuccs : (s₂.1 t).successorTasks = (h₁ t).successorTasks := by rw [hsame₂ t]
        obtain ⟨hrun₃, hsame₃⟩ := visit_of_walk hone (fun x hx => by
          have := hw₁.walkable.succ t hlo hte x hx
          lia) hw₂ hsucc
        rw [hrun₂, Option.bind_some, hsuccs, hrun₃]
        exact ⟨rfl, ((hsame₁.trans hsame₂).trans hsame₃).trans
          (r₀.1.sameButMarks_setStored t true)⟩

/-- The walk keeps what `store_info` has written. -/
def Copied (h₀ h : Heap) (l : List TaskId) : Prop :=
  h₀.SameButMarks h ∧ (∀ t, t ∉ l → h t = h₀ t) ∧
    ∀ t ∈ l, (h t).reused = true ∧ (h t).backupRef = (h t).refCount

theorem Heap.stored_setStored (h : Heap) (t : TaskId) (b : Bool) (u : TaskId) :
    (h.setStored t b u).stored = b ↔ u = t ∨ (h u).stored = b := by
  rw [Heap.setStored, Heap.modify_apply]
  split
  · rename_i hu
    exact iff_of_true rfl (Or.inl hu)
  · rename_i hu
    exact (or_iff_right hu).symm

theorem storeWalk_lawful {h₀ : Heap} (hw : Webbed lo e h₀) :
    storeWalk.Lawful hw.graph (Copied h₀) where
  children := fun h l t hcopied _ => by
    change (h t).walked = (h₀ t).walked
    rw [hcopied.1 t]
    rfl
  seen_enter := fun h t u => by
    change (((h.storeRefCount t).setReusedFlag t true) u).stored = (h u).stored
    rw [Heap.copy_eq, Heap.modify_apply]
    split <;> rfl
  seen_leave := fun h t u => by
    exact h.stored_setStored t true u
  enter := by
    rintro h l t ⟨hsame, hframe, hall⟩ _ _ hnot
    change Copied h₀ ((h.storeRefCount t).setReusedFlag t true) (l ++ [t])
    refine ⟨hsame.trans (h.sameButMarks_copy t), ?_, ?_⟩
    · intro u hu
      rw [List.mem_append, List.mem_singleton, not_or] at hu
      rw [Heap.copy_eq, Heap.modify_of_ne h hu.2]
      exact hframe u hu.1
    · intro u hu
      rw [Heap.copy_eq]
      by_cases hut : u = t
      · rw [hut, Heap.modify_self]
        exact ⟨rfl, rfl⟩
      · rw [Heap.modify_of_ne h hut]
        exact hall u ((List.mem_append.mp hu).resolve_right fun hm =>
          hut (List.mem_singleton.mp hm))
  leave := by
    rintro h l t ⟨hsame, hframe, hall⟩ _ hmem
    change Copied h₀ (h.setStored t true) l
    refine ⟨hsame.trans (h.sameButMarks_setStored t true), ?_, ?_⟩
    · intro u hu
      have hut : u ≠ t := fun heq => hu (heq ▸ hmem)
      rw [Heap.setStored, Heap.modify_of_ne h hut]
      exact hframe u hu
    · intro u hu
      rw [Heap.setStored, Heap.modify_apply]
      split
      · exact hall u hu
      · exact hall u hu

/-- `store_info` on the roots of a closed graph marks every object once, and no other. -/
theorem storeInfoLog_roots {h₀ : Heap} (hw : Webbed lo e h₀) {roots : List TaskId}
    (hroots : ∀ t ∈ roots, lo ≤ t ∧ t < e)
    (hpred : ∀ t, lo ≤ t → t ≤ e → t ∉ roots → ∃ u, lo ≤ u ∧ u < e ∧ t ∈ (h₀ u).outs)
    (hnone : ∀ t, lo ≤ t → t ≤ e → (h₀ t).stored = false) {fuel : Nat} (hfuel : e < fuel) :
    ∃ r : Heap × List TaskId, roots.foldlM (Heap.storeInfoLog fuel) (h₀, []) = some r ∧
      r.2.Nodup ∧ (∀ t, t ∈ r.2 ↔ lo ≤ t ∧ t ≤ e) ∧ h₀.SameButMarks r.1 ∧
      (∀ t, t ∉ r.2 → r.1 t = h₀ t) ∧
      ∀ t ∈ r.2, (r.1 t).stored = true ∧ (r.1 t).reused = true ∧
        (r.1 t).backupRef = (r.1 t).refCount := by
  have hnodes : ∀ t ∈ roots, hw.graph.nodes t :=
    fun t ht => ⟨(hroots t ht).1, Nat.le_of_lt (hroots t ht).2⟩
  obtain ⟨r, hfold, ⟨hsame, hframe, hall⟩, hnodup, hmem, hseen⟩ :=
    (storeWalk_lawful hw).cover (s := h₀) (fun t _ => show e - t < fuel by lia) hnodes
      (fun t ht => hw.reached hpred ht.1 ht.2) ⟨fun _ => rfl, fun _ _ => rfl, by simp⟩
      (fun t ht => hnone t ht.1 ht.2)
  have hrun := (visit_of_walk (fun s r t hws hlo hte hwalk =>
    storeInfoLog_of_walk fuel hws hlo hte hwalk) hroots hw hfold).1
  exact ⟨r, hrun, hnodup, hmem, hsame, hframe, fun t ht => ⟨hseen t ((hmem t).mp ht), hall t ht⟩⟩

theorem Book.webbed {g : TaskDagGraph} (hb : Book lo g) :
    Webbed lo g.fresh g.endConstructDag.heap where
  walkable := hb.walkable
  leaf := by
    rw [hb.endConstructDag_new]
    rfl

/-- In a closed graph with a task, an object that is no root has an edge in. -/
theorem Book.closed_pred {g : TaskDagGraph} (hb : Book lo g) (hlt : lo < g.fresh)
    {t : TaskId} (hlo : lo ≤ t) (hhi : t ≤ g.fresh) (ht : t ∉ g.needSpawnTasks) :
    ∃ u, lo ≤ u ∧ u < g.fresh ∧ t ∈ (g.endConstructDag.heap u).outs := by
  by_cases hend : t = g.fresh
  · -- the last task leads to the end task only
    refine ⟨g.fresh - 1, by lia, by lia, ?_⟩
    rw [hb.endConstructDag_outs (g.fresh - 1) (by lia) (by lia), hend]
    split
    · exact List.mem_singleton_self _
    · rename_i hne
      obtain ⟨x, hx⟩ := List.exists_mem_of_ne_nil _ hne
      have := hb.edges.forward (g.fresh - 1) (by lia) (by lia) x hx
      lia
  · have hpred : ∃ u, lo ≤ u ∧ u < g.fresh ∧ t ∈ (g.heap u).outs := by
      by_contra hno
      refine ht ((hb.mem_roots t).mpr ⟨⟨hlo, by lia⟩, fun u hulo huhi hmem => ?_⟩)
      exact hno ⟨u, hulo, huhi, hmem⟩
    obtain ⟨u, hulo, huhi, hmem⟩ := hpred
    refine ⟨u, hulo, huhi, ?_⟩
    rw [hb.endConstructDag_outs u hulo huhi, if_neg (List.ne_nil_of_mem hmem)]
    exact hmem

/-- `_store_dag_info` on a closed graph marks every object once if there is a task, and
nothing otherwise. -/
theorem Book.storeDagInfoLog {g : TaskDagGraph} (hb : Book lo g) :
    ∃ r : Heap × List TaskId, g.needSpawnTasks.foldlM (Heap.storeInfoLog (g.fresh + 2))
        (g.endConstructDag.heap, []) = some r ∧
      r.2.Nodup ∧ (∀ t, t ∈ r.2 ↔ lo < g.fresh ∧ lo ≤ t ∧ t ≤ g.fresh) ∧
      g.endConstructDag.heap.SameButMarks r.1 ∧
      (∀ t, t ∉ r.2 → r.1 t = g.endConstructDag.heap t) ∧
      ∀ t ∈ r.2, (r.1 t).stored = true ∧ (r.1 t).reused = true ∧
        (r.1 t).backupRef = (r.1 t).refCount := by
  have hle := hb.lo_le
  by_cases hlt : lo < g.fresh
  · obtain ⟨r, hrun, hnodup, hmem, hrest⟩ := storeInfoLog_roots (hb.webbed)
      (fun t ht => ((hb.mem_roots t).mp ht).1)
      (fun t hlo hhi ht => hb.closed_pred hlt hlo hhi ht)
      (fun t hlo hhi => (hb.endConstructDag_attrs hlo hhi).1)
      (show g.fresh < g.fresh + 2 by lia)
    exact ⟨r, hrun, hnodup, fun t => (hmem t).trans (and_iff_right hlt).symm, hrest⟩
  · have hnil : g.needSpawnTasks = [] := by
      rw [List.eq_nil_iff_forall_not_mem]
      intro t ht
      have := ((hb.mem_roots t).mp ht).1
      lia
    rw [hnil]
    refine ⟨_, rfl, List.nodup_nil, fun t => ?_, fun _ => rfl, fun _ _ => rfl, by simp⟩
    exact iff_of_false (List.not_mem_nil) fun hboth => hlt hboth.1

end Store

/-! ## Freeing -/

/-- `get_free_list` as a walk. -/
def freeWalk : PostOrder Heap TaskId where
  seen h t := !(h t).stored
  children h t := (h t).walked
  enter h _ := h
  leave h t := h.setStored t false

theorem freeWalk_seen {h : Heap} {t : TaskId} :
    freeWalk.seen h t = true ↔ (h t).stored = false := by
  change (!(h t).stored) = true ↔ _
  rw [Bool.not_eq_true']

/-- The list is the set of the entered objects. -/
def SetOf (l entered : List TaskId) : Prop := l.Nodup ∧ ∀ t, t ∈ l ↔ t ∈ entered

theorem SetOf.insertTask {l entered : List TaskId} (h : SetOf l entered) (t : TaskId) :
    SetOf (insertTask l t) (entered ++ [t]) := by
  unfold AceMesh.insertTask
  split
  · rename_i hmem
    refine ⟨h.1, fun u => ?_⟩
    rw [List.mem_append, List.mem_singleton, h.2]
    refine ⟨Or.inl, ?_⟩
    rintro (hu | rfl)
    · exact hu
    · exact (h.2 u).mp hmem
  · rename_i hmem
    refine ⟨h.1.append (List.nodup_singleton t) ?_, fun u => ?_⟩
    · intro u hu hut
      rw [List.mem_singleton.mp hut] at hu
      exact hmem hu
    · rw [List.mem_append, List.mem_append, h.2]

theorem insertTask_of_mem {l : List TaskId} {t : TaskId} (ht : t ∈ l) : insertTask l t = l :=
  if_pos ht

theorem mem_insertTask (l : List TaskId) (t : TaskId) : t ∈ insertTask l t := by
  unfold insertTask
  split
  · assumption
  · exact List.mem_append_right l (List.mem_singleton_self t)

section Free

variable {lo e : TaskId}

/-- Before its successors are walked, an unmarked object is in the list. -/
theorem getFreeList_insert (fuel : Nat) (h : Heap) (l : List TaskId) {t : TaskId}
    (hs : (h t).stored = true) :
    Heap.getFreeList fuel (h, insertTask l t) t = Heap.getFreeList fuel (h, l) t := by
  cases fuel with
  | zero => rfl
  | succ fuel =>
      have hne : ¬ (h t).stored = false := by simp [hs]
      unfold Heap.getFreeList
      rw [if_neg hne, if_neg hne]
      dsimp only
      rw [insertTask_of_mem (mem_insertTask l t)]

theorem freeWalk_leaf {fuel : Nat} {s r : Heap × List TaskId} (hw : Webbed lo e s.1)
    (hwalk : freeWalk.walk fuel s e = some r) :
    r = if (s.1 e).stored then (s.1.setStored e false, s.2 ++ [e]) else s := by
  cases fuel with
  | zero => cases hwalk
  | succ fuel =>
      unfold PostOrder.walk at hwalk
      by_cases hs : (s.1 e).stored = false
      · rw [if_pos (freeWalk_seen.mpr hs)] at hwalk
        rw [if_neg (by simp [hs])]
        exact (Option.some.inj hwalk).symm
      · rw [if_neg (fun hseen => hs (freeWalk_seen.mp hseen))] at hwalk
        have hchildren : freeWalk.children (freeWalk.enter s.1 e) e = [] := hw.walked_leaf
        rw [hchildren] at hwalk
        rw [if_pos (by simpa using hs)]
        exact (Option.some.inj hwalk).symm

/-- What holds of the list, once the walk has come to `s`. -/
def Listed (lo e : TaskId) (s : Heap × List TaskId) : Prop :=
  ∀ t, lo ≤ t → t ≤ e → (s.1 t).stored = false → t ∈ s.2

/-- Marks are cleared on objects in the list only. -/
structure Cleared (lo e : TaskId) (s r : Heap × List TaskId) : Prop where
  same : s.1.SameButMarks r.1
  grows : ∀ t ∈ s.2, t ∈ r.2
  listed : Listed lo e r

theorem Cleared.trans {s s' s'' : Heap × List TaskId} (h : Cleared lo e s s')
    (h' : Cleared lo e s' s'') : Cleared lo e s s'' :=
  ⟨h.same.trans h'.same, fun t ht => h'.grows t (h.grows t ht), h'.listed⟩

theorem Cleared.unmark {s : Heap × List TaskId} (hs : Listed lo e s) {t : TaskId}
    {l : List TaskId} (hl : ∀ u ∈ s.2, u ∈ l) (ht : t ∈ l) :
    Cleared lo e s (s.1.setStored t false, l) := by
  refine ⟨s.1.sameButMarks_setStored t false, hl, fun u hlo hhi hu => ?_⟩
  by_cases hut : u = t
  · exact hut ▸ ht
  · change (s.1.setStored t false u).stored = false at hu
    rw [Heap.setStored, Heap.modify_of_ne s.1 hut] at hu
    exact hl u (hs u hlo hhi hu)

/-- The visit of `t` does what the walk does. -/
def Visits (lo e : TaskId) (fuel : Nat)
    (visit : Heap × List TaskId → TaskId → Option (Heap × List TaskId)) : Prop :=
  ∀ {s r : Heap × List TaskId} {t : TaskId} {l : List TaskId}, Webbed lo e s.1 → lo ≤ t → t < e →
    Listed lo e s → SetOf l s.2 → freeWalk.walk fuel s t = some r →
    ∃ l', visit (s.1, l) t = some (r.1, l') ∧ SetOf l' r.2 ∧ Cleared lo e s r

theorem Visits.all {fuel : Nat}
    {visit : Heap × List TaskId → TaskId → Option (Heap × List TaskId)}
    (hvisit : Visits lo e fuel visit) {xs : List TaskId} (hxs : ∀ x ∈ xs, lo ≤ x ∧ x < e)
    {s r : Heap × List TaskId} {l : List TaskId} (hw : Webbed lo e s.1) (hs : Listed lo e s)
    (hl : SetOf l s.2) (hwalk : xs.foldlM (freeWalk.walk fuel) s = some r) :
    ∃ l', xs.foldlM visit (s.1, l) = some (r.1, l') ∧ SetOf l' r.2 ∧ Cleared lo e s r := by
  induction xs generalizing s l with
  | nil =>
      obtain rfl := Option.some.inj hwalk
      exact ⟨l, rfl, hl, fun _ => rfl, fun _ ht => ht, hs⟩
  | cons x xs ih =>
      rw [List.foldlM_cons] at hwalk
      obtain ⟨s', hx, hwalk⟩ := Option.bind_eq_some_iff.mp hwalk
      obtain ⟨hxlo, hxe⟩ := hxs x List.mem_cons_self
      obtain ⟨l', hrun, hl', hcleared⟩ := hvisit hw hxlo hxe hs hl hx
      obtain ⟨l'', hall, hl'', hcleared'⟩ := ih (fun y hy => hxs y (List.mem_cons_of_mem x hy))
        (hw.same hcleared.same) hcleared.listed hl' hwalk
      rw [List.foldlM_cons, hrun]
      exact ⟨l'', hall, hl'', hcleared.trans hcleared'⟩

theorem Cleared.refl {s : Heap × List TaskId} (hs : Listed lo e s) : Cleared lo e s s :=
  ⟨fun _ => rfl, fun _ ht => ht, hs⟩

/-- The vertical task is visited, unless it is the end task, which is only put on the list. -/
theorem Visits.vertical {fuel : Nat} (hvisit : Visits lo e fuel (Heap.getFreeList fuel))
    {s r : Heap × List TaskId} {vt : TaskId} {l : List TaskId} (hw : Webbed lo e s.1)
    (hlo : lo ≤ vt) (hve : vt ≤ e) (hs : Listed lo e s) (hl : SetOf l s.2)
    (hwalk : freeWalk.walk fuel s vt = some r) :
    ∃ l', (if (s.1 vt).isAceMesh then Heap.getFreeList fuel (s.1, l) vt
      else if (s.1 vt).stored then some (s.1.setStored vt false, insertTask l vt)
      else some (s.1, l)) = some (r.1, l') ∧ SetOf l' r.2 ∧ Cleared lo e s r := by
  by_cases hkind : (s.1 vt).isAceMesh = true
  · rw [if_pos hkind]
    exact hvisit hw hlo ((hw.walkable.kind vt hlo hve).mp hkind) hs hl hwalk
  · have heq : vt = e := by
      by_contra hne
      exact hkind ((hw.walkable.kind vt hlo hve).mpr (by lia))
    subst heq
    have hleaf := freeWalk_leaf hw hwalk
    rw [if_neg hkind]
    by_cases hend : (s.1 vt).stored = true
    · rw [if_pos hend] at hleaf ⊢
      rw [hleaf]
      exact ⟨_, rfl, hl.insertTask vt, .unmark hs (fun u hu => List.mem_append_left _ hu) (by simp)⟩
    · rw [if_neg hend] at hleaf ⊢
      rw [hleaf]
      exact ⟨_, rfl, hl, .refl hs⟩

/-- The successors are put on the list before they are walked. -/
theorem Visits.successor {fuel : Nat} (hvisit : Visits lo e fuel (Heap.getFreeList fuel)) :
    Visits lo e fuel fun (s : Heap × List TaskId) x =>
      if (s.1 x).isAceMesh then Heap.getFreeList fuel (s.1, insertTask s.2 x) x
      else some (s.1, insertTask s.2 x) := by
  intro s r x l hw hlo hxe hs hl hwalk
  have hrun := hvisit hw hlo hxe hs hl hwalk
  simp only [if_pos ((hw.walkable.kind x hlo (Nat.le_of_lt hxe)).mpr hxe)]
  by_cases hstored : (s.1 x).stored = true
  · rw [getFreeList_insert fuel s.1 l hstored]
    exact hrun
  · have hmem := hs x hlo (Nat.le_of_lt hxe) (by simpa using hstored)
    rw [insertTask_of_mem ((hl.2 x).mpr hmem)]
    exact hrun

/-- Where the walk goes, `get_free_list` goes. -/
theorem getFreeList_visits (fuel : Nat) : Visits lo e fuel (Heap.getFreeList fuel) := by
  induction fuel with
  | zero =>
      intro s r t l _ _ _ _ _ hwalk
      cases hwalk
  | succ fuel ih =>
      intro s r t l hw hlo hte hs₀ hl hwalk
      unfold PostOrder.walk at hwalk
      unfold Heap.getFreeList
      by_cases hs : (s.1 t).stored = false
      · rw [if_pos (freeWalk_seen.mpr hs)] at hwalk
        rw [if_pos hs]
        obtain rfl := Option.some.inj hwalk
        exact ⟨l, rfl, hl, fun _ => rfl, fun _ hu => hu, hs₀⟩
      · rw [if_neg (fun hseen => hs (freeWalk_seen.mp hseen))] at hwalk
        rw [if_neg hs]
        obtain ⟨r₀, hfold, rfl⟩ := Option.map_eq_some_iff.mp hwalk
        change (s.1 t).walked.foldlM (freeWalk.walk fuel) (s.1, s.2 ++ [t]) = some r₀ at hfold
        dsimp only
        have hl₁ := hl.insertTask t
        have hw₁ : Webbed lo e (s.1, s.2 ++ [t]).1 := hw
        have hs₁ : Listed lo e (s.1, s.2 ++ [t]) :=
          fun u hulo huhi hu => List.mem_append_left _ (hs₀ u hulo huhi hu)
        unfold Task.walked at hfold
        rw [List.foldlM_append] at hfold
        obtain ⟨s₂, hvertical, hsucc⟩ := Option.bind_eq_some_iff.mp hfold
        -- the vertical task
        have hone : ∃ l₂, (match (s.1 t).verticalTask with
            | some vt =>
              if (s.1 vt).isAceMesh then Heap.getFreeList fuel (s.1, insertTask l t) vt
              else if (s.1 vt).stored then
                some (s.1.setStored vt false, insertTask (insertTask l t) vt)
              else some (s.1, insertTask l t)
            | none => some (s.1, insertTask l t)) = some (s₂.1, l₂) ∧ SetOf l₂ s₂.2 ∧
            Cleared lo e (s.1, s.2 ++ [t]) s₂ := by
          cases hv : (s.1 t).verticalTask with
          | none =>
              rw [hv] at hvertical
              obtain rfl := Option.some.inj hvertical
              exact ⟨_, rfl, hl₁, fun _ => rfl, fun _ hu => hu, hs₁⟩
          | some vt =>
              rw [hv] at hvertical
              have hvt : freeWalk.walk fuel (s.1, s.2 ++ [t]) vt = some s₂ := by
                rw [← hvertical]
                exact (bind_pure _).symm
              obtain ⟨htv, hve⟩ := hw.walkable.vertical t hlo hte vt hv
              exact Visits.vertical ih hw₁ (by lia) hve hs₁ hl₁ hvt
        obtain ⟨l₂, hrun₂, hl₂, hcleared₂⟩ := hone
        have hsuccs : (s₂.1 t).successorTasks = (s.1 t).successorTasks := by
          rw [hcleared₂.same t]
        have hrange : ∀ x ∈ (s.1 t).successorTasks, lo ≤ x ∧ x < e := by
          intro x hx
          have hsuccRange := hw.walkable.succ t hlo hte x hx
          lia
        have hsuccessor : Visits lo e fuel fun (s : Heap × List TaskId) x =>
            if (s.1 x).isAceMesh then Heap.getFreeList fuel (s.1, insertTask s.2 x) x
            else some (s.1, insertTask s.2 x) := Visits.successor ih
        obtain ⟨l₃, hrun₃, hl₃, hcleared₃⟩ :=
          hsuccessor.all hrange (hw.same hcleared₂.same) hcleared₂.listed hl₂ hsucc
        have hcleared := hcleared₂.trans hcleared₃
        rw [hrun₂, Option.bind_some, hsuccs, hrun₃]
        refine ⟨l₃, rfl, hl₃, hcleared.same.trans (r₀.1.sameButMarks_setStored t false),
          fun u hu => hcleared.grows u (List.mem_append_left _ hu), ?_⟩
        exact (Cleared.unmark hcleared.listed (fun _ hu => hu)
          (hcleared.grows t (by simp))).listed

theorem freeWalk_lawful {h₀ : Heap} (hw : Webbed lo e h₀) :
    freeWalk.Lawful hw.graph fun h _ =>
      h₀.SameButMarks h ∧ ∀ t, t < lo ∨ e < t → h t = h₀ t where
  children := fun h l t hkept _ => by
    change (h t).walked = (h₀ t).walked
    rw [hkept.1 t]
    rfl
  seen_enter := fun h t u => rfl
  seen_leave := fun h t u => by
    rw [freeWalk_seen, freeWalk_seen]
    exact h.stored_setStored t false u
  enter := fun h l t hkept _ _ _ => hkept
  leave := by
    rintro h l t ⟨hsame, hframe⟩ ht _
    refine ⟨hsame.trans (h.sameButMarks_setStored t false), fun u hu => ?_⟩
    have hut : u ≠ t := by
      rintro rfl
      have hlo : lo ≤ u := ht.1
      have hhi : u ≤ e := ht.2
      lia
    change h.setStored t false u = h₀ u
    rw [Heap.setStored, Heap.modify_of_ne h hut]
    exact hframe u hu

/-- A graph whose objects are all stored. -/
structure Stocked (lo e : TaskId) (roots : List TaskId) (h : Heap) : Prop where
  web : Webbed lo e h
  roots_range : ∀ t ∈ roots, lo ≤ t ∧ t < e
  pred : ∀ t, lo ≤ t → t ≤ e → t ∉ roots → ∃ u, lo ≤ u ∧ u < e ∧ t ∈ (h u).outs
  stored : ∀ t, lo ≤ t → t ≤ e → (h t).stored = true

/-- `get_free_list` on the roots of a stored graph collects every object, and no other. -/
theorem Stocked.getFreeList {roots : List TaskId} {h : Heap} (hs : Stocked lo e roots h)
    {fuel : Nat} (hfuel : e < fuel) :
    ∃ h' l, roots.foldlM (Heap.getFreeList fuel) (h, []) = some (h', l) ∧ l.Nodup ∧
      (∀ t, t ∈ l ↔ lo ≤ t ∧ t ≤ e) ∧ ∀ t, t < lo ∨ e < t → h' t = h t := by
  obtain ⟨r, hfold, ⟨-, hframe⟩, -, hmem, -⟩ := (freeWalk_lawful hs.web).cover (s := h)
    (fun t _ => show e - t < fuel by lia)
    (fun t ht => ⟨(hs.roots_range t ht).1, Nat.le_of_lt (hs.roots_range t ht).2⟩)
    (fun t ht => hs.web.reached hs.pred ht.1 ht.2) ⟨fun _ => rfl, fun _ _ => rfl⟩
    (fun t ht => by
      change (!(h t).stored) = false
      rw [hs.stored t ht.1 ht.2]
      rfl)
  have hlisted : Listed lo e (h, []) := by
    intro t hlo hhi ht
    rw [hs.stored t hlo hhi] at ht
    cases ht
  have hempty : SetOf [] ((h, []) : Heap × List TaskId).2 := ⟨List.nodup_nil, fun _ => Iff.rfl⟩
  obtain ⟨l, hrun, hl, -⟩ :=
    Visits.all (getFreeList_visits fuel) hs.roots_range (s := (h, [])) hs.web hlisted hempty hfold
  exact ⟨r.1, l, hrun, hl.1, fun t => (hl.2 t).trans (hmem t), hframe⟩

end Free

/-! ## Deleting -/

theorem deleteAll_eq (l : List TaskId) (s : TaskDagGraph × List TaskId) :
    l.foldl (fun s t => ({ s.1 with heap := s.1.heap.delete t }, s.2 ++ [t])) s =
      ({ s.1 with heap := l.foldl Heap.delete s.1.heap }, s.2 ++ l) := by
  induction l generalizing s with
  | nil => simp
  | cons t l ih =>
      rw [List.foldl_cons, ih]
      simp

theorem deleteAll_frame {l : List TaskId} (h : Heap) {t : TaskId} (ht : t ∉ l) :
    l.foldl Heap.delete h t = h t := by
  induction l generalizing h with
  | nil => rfl
  | cons u l ih =>
      rw [List.mem_cons, not_or] at ht
      rw [List.foldl_cons, ih (h.delete u) ht.2]
      exact h.modify_of_ne ht.1 _

/-- The objects of the graph have not changed. -/
theorem Stocked.congr {lo e : TaskId} {roots : List TaskId} {h h' : Heap}
    (hs : Stocked lo e roots h) (hlt : lo ≤ e) (heq : ∀ t, lo ≤ t → t ≤ e → h' t = h t) :
    Stocked lo e roots h' where
  web :=
    { walkable :=
        { kind := fun t hlo hhi => by
            rw [heq t hlo hhi]; exact hs.web.walkable.kind t hlo hhi
          succ := fun t hlo hhi => by
            rw [heq t hlo (Nat.le_of_lt hhi)]; exact hs.web.walkable.succ t hlo hhi
          vertical := fun t hlo hhi => by
            rw [heq t hlo (Nat.le_of_lt hhi)]; exact hs.web.walkable.vertical t hlo hhi }
      leaf := by
        rw [heq e hlt (Nat.le_refl e)]
        exact hs.web.leaf }
  roots_range := hs.roots_range
  pred := fun t hlo hhi ht => by
    obtain ⟨u, hulo, huhi, hmem⟩ := hs.pred t hlo hhi ht
    exact ⟨u, hulo, huhi, by rwa [heq u hulo (Nat.le_of_lt huhi)]⟩
  stored := fun t hlo hhi => by
    rw [heq t hlo hhi]
    exact hs.stored t hlo hhi

/-- A stored graph is deleted, and nothing else. -/
theorem Stocked.freeInstance {lo : TaskId} {g : TaskDagGraph} {inst : DagInstance}
    (hs : Stocked lo inst.endTask inst.needSpawnTasks g.heap) (hlt : inst.endTask < g.fresh)
    {iterate : List TaskId → List TaskId} (hiterate : ∀ l, (iterate l).Perm l)
    (freed : List TaskId) :
    ∃ g' l, TaskDagGraph.freeInstance iterate (g, freed) inst = some (g', freed ++ l) ∧ l.Nodup ∧
      (∀ t, t ∈ l ↔ lo ≤ t ∧ t ≤ inst.endTask) ∧ g'.fresh = g.fresh ∧
      ∀ t, t < lo ∨ inst.endTask < t → g'.heap t = g.heap t := by
  obtain ⟨h, l, hrun, hnodup, hmem, hframe⟩ :=
    hs.getFreeList (show inst.endTask < g.fresh + 1 by lia)
  refine ⟨{ g with
    heap := (iterate l).foldl Heap.delete h, needSpawnTasks := inst.needSpawnTasks }, iterate l,
    ?_, (hiterate l).nodup_iff.mpr hnodup, fun t => (hiterate l).mem_iff.trans (hmem t), rfl,
    fun t ht => ?_⟩
  · unfold TaskDagGraph.freeInstance
    rw [hrun, Option.map_some, deleteAll_eq]
  · have hnot : t ∉ iterate l := fun hin => by
      have := (hmem t).mp ((hiterate l).mem_iff.mp hin)
      lia
    exact (deleteAll_frame h hnot).trans (hframe t ht)

/-- A stored graph without tasks is left alone. -/
theorem freeInstance_empty {g : TaskDagGraph} {inst : DagInstance}
    (hroots : inst.needSpawnTasks = []) {iterate : List TaskId → List TaskId}
    (hiterate : ∀ l, (iterate l).Perm l) (freed : List TaskId) :
    TaskDagGraph.freeInstance iterate (g, freed) inst =
      some ({ g with needSpawnTasks := [] }, freed) := by
  have hnil : iterate [] = [] := (hiterate []).eq_nil
  unfold TaskDagGraph.freeInstance
  rw [hroots]
  change (some _).map _ = _
  rw [Option.map_some, hnil]
  rfl

/-- The stored graphs: the one under number `no` reaches from `lo no` to its end task. -/
structure Stock (lo : Int → TaskId) (l : List (Int × DagInstance)) (fresh : TaskId) (h : Heap) :
    Prop where
  nodup : (l.map (·.1)).Nodup
  range : ∀ p ∈ l, lo p.1 ≤ p.2.endTask ∧ p.2.endTask < fresh
  stocked : ∀ p ∈ l, lo p.1 < p.2.endTask → Stocked (lo p.1) p.2.endTask p.2.needSpawnTasks h
  empty : ∀ p ∈ l, lo p.1 = p.2.endTask → p.2.needSpawnTasks = []
  apart : ∀ p ∈ l, ∀ q ∈ l, p.1 ≠ q.1 → p.2.endTask < lo q.1 ∨ q.2.endTask < lo p.1

/-- `free_tasks` comes to an end and deletes every object of every stored graph that has a
task, each once, and no other. -/
theorem Stock.freeTasks {lo : Int → TaskId} {l : List (Int × DagInstance)} {g : TaskDagGraph}
    (hs : Stock lo l g.fresh g.heap) {iterate : List TaskId → List TaskId}
    (hiterate : ∀ l, (iterate l).Perm l) :
    ∃ g' freed, g.freeTasks iterate l = some (g', freed) ∧ freed.Nodup ∧
      ∀ t, t ∈ freed ↔ ∃ p ∈ l, lo p.1 < p.2.endTask ∧ lo p.1 ≤ t ∧ t ≤ p.2.endTask := by
  -- after the graphs `xs`
  let J (xs : List (Int × DagInstance)) (s : TaskDagGraph × List TaskId) : Prop :=
    s.1.fresh = g.fresh ∧ s.2.Nodup ∧
    (∀ t, t ∈ s.2 ↔ ∃ p ∈ xs, lo p.1 < p.2.endTask ∧ lo p.1 ≤ t ∧ t ≤ p.2.endTask) ∧
    ∀ t, (∀ p ∈ xs, t < lo p.1 ∨ p.2.endTask < t) → s.1.heap t = g.heap t
  have hstep : ∀ xs p, xs ++ [p] <+: l → ∀ s, J xs s →
      ∃ s', TaskDagGraph.freeInstance iterate s p.2 = some s' ∧ J (xs ++ [p]) s' := by
    rintro xs p hfirst ⟨g₁, freed⟩ ⟨hfresh, hnodup, hmem, hframe⟩
    have hp := Fold.mem_of_initial hfirst
    have hapart : ∀ q ∈ xs, p.2.endTask < lo q.1 ∨ q.2.endTask < lo p.1 := by
      intro q hq
      refine hs.apart p hp q (hfirst.subset (List.mem_append_left _ hq)) fun heq => ?_
      have hsub : ((xs ++ [p]).map (·.1)).Nodup := (hfirst.sublist.map _).nodup hs.nodup
      rw [List.map_append, List.nodup_append'] at hsub
      exact hsub.2.2 (List.mem_map.mpr ⟨q, hq, rfl⟩) (by simp [heq])
    have hadd : ∀ t, (∃ q ∈ xs ++ [p], lo q.1 < q.2.endTask ∧ lo q.1 ≤ t ∧ t ≤ q.2.endTask) ↔
        (∃ q ∈ xs, lo q.1 < q.2.endTask ∧ lo q.1 ≤ t ∧ t ≤ q.2.endTask) ∨
          lo p.1 < p.2.endTask ∧ lo p.1 ≤ t ∧ t ≤ p.2.endTask := by
      intro t
      simp only [List.mem_append, List.mem_singleton, or_and_right, exists_or, exists_eq_left]
    obtain ⟨hle, hhi⟩ := hs.range p hp
    by_cases hempty : lo p.1 = p.2.endTask
    · refine ⟨_, freeInstance_empty (hs.empty p hp hempty) hiterate freed, hfresh, hnodup,
        fun t => ?_, fun t ht => hframe t fun q hq => ht q (List.mem_append_left _ hq)⟩
      rw [hadd, hmem]
      refine (or_iff_left fun hboth => ?_).symm
      exact absurd hboth.1 (by lia)
    · have hlt : lo p.1 < p.2.endTask := by lia
      have hsame : ∀ t, lo p.1 ≤ t → t ≤ p.2.endTask → g₁.heap t = g.heap t := by
        intro t htlo hthi
        refine hframe t fun q hq => ?_
        have := hapart q hq
        lia
      have hstocked := (hs.stocked p hp hlt).congr hle hsame
      obtain ⟨g₂, new, hrun, hnew, hmemnew, hfresh', hframe'⟩ :=
        hstocked.freeInstance (hfresh.symm ▸ hhi) hiterate freed
      refine ⟨_, hrun, hfresh'.trans hfresh, ?_, fun t => ?_, fun t ht => ?_⟩
      · refine hnodup.append hnew fun t ht htnew => ?_
        obtain ⟨q, hq, -, hqlo, hqhi⟩ := (hmem t).mp ht
        have := (hmemnew t).mp htnew
        have := hapart q hq
        lia
      · rw [List.mem_append, hadd, hmem, hmemnew, and_iff_right hlt]
      · rw [hframe' t (ht p (by simp))]
        exact hframe t fun q hq => ht q (List.mem_append_left _ hq)
  have hstart : J [] (g, []) := ⟨rfl, List.nodup_nil, by simp, fun _ _ => rfl⟩
  obtain ⟨s, hall, -, hnodup, hmem, -⟩ :=
    Fold.succeeds (f := fun s (p : Int × DagInstance) => TaskDagGraph.freeInstance iterate s p.2)
      hstep hstart
  exact ⟨s.1, s.2, hall, hnodup, hmem⟩

end AceMesh
