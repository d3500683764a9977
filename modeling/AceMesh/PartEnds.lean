import AceMesh.Launch
import AceMesh.Lib.Buckets
import AceMesh.Separation

/-!
# One end task for each part

`end_construct_dag_separation` goes through `end_tasks` and hangs each of them on the end
task of its part, which it makes when the part comes up for the first time. The order of an
`unordered_set` is any. How a task names its part differs between the two builds that run a
graph by parts; here it is a function.
-/

namespace AceMesh

open TaskDagGraph Relation

variable {m : Nat}

namespace TaskDagGraph

/-- One turn of the loop in `end_construct_dag_separation`, for the end task `t` of part
`id`. -/
def hangEnd (id : Int) (t : TaskId)
    (s : TaskDagGraph × (Int → Option TaskId)) : TaskDagGraph × (Int → Option TaskId) :=
  match s.2 id with
  | none =>
    let tmp := s.1.fresh
    let g := s.1.alloc Task.newEmpty
    ({ g with heap := g.heap.addEndSuccessor t tmp }, Function.update s.2 id (some tmp))
  | some tmp => ({ s.1 with heap := s.1.heap.addEndSuccessor t tmp }, s.2)

end TaskDagGraph

/-! ## What the loop leaves behind -/

/-- After the end tasks `ts` of `g` have been hung on the end tasks of their parts. -/
structure Hung (g : TaskDagGraph) (part : TaskId → Int) (ts : List TaskId)
    (s : TaskDagGraph × (Int → Option TaskId)) : Prop where
  frame : s.1 = { g with heap := s.1.heap, fresh := s.1.fresh }
  fresh : g.fresh ≤ s.1.fresh
  old : ∀ u, u < g.fresh →
    s.1.heap u = if u ∈ ts then { g.heap u with verticalTask := s.2 (part u) } else g.heap u
  new : ∀ q e, s.2 q = some e →
    s.1.heap e = { Task.newEmpty with refCount := ts.countP (part · = q) }
  range : ∀ q e, s.2 q = some e → g.fresh ≤ e ∧ e < s.1.fresh
  inj : ∀ q q' e, s.2 q = some e → s.2 q' = some e → q = q'
  used : ∀ q, s.2 q = none ↔ ∀ t ∈ ts, part t ≠ q

theorem Hung.start (g : TaskDagGraph) (part : TaskId → Int) :
    Hung g part [] (g, fun _ => none) where
  frame := rfl
  fresh := le_refl _
  old := by simp
  new := by simp
  range := by simp
  inj := by simp
  used := by simp

/-- What one turn for `t` does to the state `s` that the tasks `ts` have led to, whether or not
the end task `tmp` of the part has been there before. -/
structure HangsOn (g : TaskDagGraph) (part : TaskId → Int)
    (ts : List TaskId) (t tmp : TaskId) (s s' : TaskDagGraph × (Int → Option TaskId)) :
    Prop where
  frame : s'.1 = { s.1 with heap := s'.1.heap, fresh := s'.1.fresh }
  fresh : s.1.fresh ≤ s'.1.fresh
  ends : s'.2 = Function.update s.2 (part t) (some tmp)
  heap : ∀ u, s'.1.heap u = if u = t then { s.1.heap t with verticalTask := some tmp }
    else if u = tmp then
      { Task.newEmpty with refCount := ts.countP (part · = part t) + 1 }
    else s.1.heap u
  range : g.fresh ≤ tmp ∧ tmp < s'.1.fresh
  same : s.2 (part t) ≠ none → s.2 (part t) = some tmp
  apart : ∀ q e, q ≠ part t → s.2 q = some e → e ≠ tmp

section Hang

variable {g : TaskDagGraph} {part : TaskId → Int} {ts : List TaskId}
  {s : TaskDagGraph × (Int → Option TaskId)} (h : Hung g part ts s)
include h

theorem Hung.affinityId {u : TaskId} (hu : u < g.fresh) :
    (s.1.heap u).affinityId = (g.heap u).affinityId := by
  rw [h.old u hu]
  split
  · rfl
  · rfl

/-- The part of `t` comes up for the first time. -/
theorem Hung.hangsOn_new {t : TaskId} (ht : t < g.fresh) (hnone : s.2 (part t) = none) :
    HangsOn g part ts t s.1.fresh s (hangEnd (part t) t s) := by
  have hfresh := h.fresh
  have hne : t ≠ s.1.fresh := by lia
  have heq : hangEnd (part t) t s =
      ({ s.1.alloc Task.newEmpty with
        heap := (s.1.alloc Task.newEmpty).heap.addEndSuccessor t s.1.fresh },
      Function.update s.2 (part t) (some s.1.fresh)) := by
    unfold hangEnd
    rw [hnone]
  have hcount : ts.countP (part · = part t) = 0 :=
    List.countP_eq_zero.mpr fun u hu => by simpa using (h.used _).mp hnone u hu
  rw [heq]
  refine ⟨rfl, Nat.le_succ _, rfl, fun u => ?_, ⟨hfresh, Nat.lt_succ_self _⟩,
    fun hsome => absurd hnone hsome, fun q e _ he => ?_⟩
  · change (Heap.addEndSuccessor (s.1.heap.modify s.1.fresh fun _ => Task.newEmpty) t
      s.1.fresh) u = _
    rw [addEndSuccessor_apply _ hne, Heap.modify_of_ne _ hne, Heap.modify_self, hcount]
    by_cases hu : u = s.1.fresh
    · rw [if_neg fun hut => hne (hut.symm.trans hu), if_pos hu,
        if_neg fun hut => hne (hut.symm.trans hu), if_pos hu]
      rfl
    · rw [Heap.modify_of_ne _ hu, if_neg hu, if_neg hu]
  · have hrange := h.range q e he
    lia

/-- The part of `t` has an end task already. -/
theorem Hung.hangsOn_old {t tmp : TaskId} (ht : t < g.fresh) (hsome : s.2 (part t) = some tmp) :
    HangsOn g part ts t tmp s (hangEnd (part t) t s) := by
  have hrange := h.range _ _ hsome
  have hne : t ≠ tmp := by lia
  have heq : hangEnd (part t) t s =
      ({ s.1 with heap := s.1.heap.addEndSuccessor t tmp }, s.2) := by
    unfold hangEnd
    rw [hsome]
  rw [heq]
  refine ⟨rfl, le_rfl, ?_, fun u => ?_, hrange, fun _ => hsome, fun q e hq he => ?_⟩
  · rw [← hsome, Function.update_eq_self]
  · change (s.1.heap.addEndSuccessor t tmp) u = _
    rw [addEndSuccessor_apply _ hne, h.new _ _ hsome]
  · rintro rfl
    exact hq (h.inj q _ e he hsome)

theorem Hung.hangsOn {t : TaskId} (ht : t < g.fresh) :
    ∃ tmp, HangsOn g part ts t tmp s (hangEnd (part t) t s) := by
  cases hfind : s.2 (part t) with
  | none => exact ⟨_, h.hangsOn_new ht hfind⟩
  | some tmp => exact ⟨tmp, h.hangsOn_old ht hfind⟩

theorem Hung.hang {t : TaskId} (ht : t < g.fresh) (hnew : t ∉ ts) :
    Hung g part (ts ++ [t]) (hangEnd (part t) t s) := by
  obtain ⟨tmp, w⟩ := h.hangsOn ht
  generalize hangEnd (part t) t s = s' at w
  have hself : s'.2 (part t) = some tmp := by rw [w.ends, Function.update_self]
  have hkey : ∀ q, q ≠ part t → s'.2 q = s.2 q := by
    intro q hq
    rw [w.ends, Function.update_of_ne hq]
  have hne : t ≠ tmp := by
    have hrange := w.range
    lia
  constructor
  case frame =>
    have hframe := w.frame
    rwa [h.frame] at hframe
  case fresh => exact h.fresh.trans w.fresh
  case old =>
    intro u hu
    have hune : u ≠ tmp := by
      have hrange := w.range
      lia
    rw [w.heap, if_neg hune]
    by_cases hut : u = t
    · subst hut
      rw [if_pos rfl, if_pos (by simp), hself, h.old u hu, if_neg hnew]
    · rw [if_neg hut, h.old u hu]
      by_cases hmem : u ∈ ts
      · have hsame : s'.2 (part u) = s.2 (part u) := by
          by_cases hpart : part u = part t
          · rw [hpart, hself]
            exact (w.same fun hnone => (h.used _).mp hnone u hmem hpart).symm
          · exact hkey _ hpart
        rw [if_pos hmem, if_pos (List.mem_append_left _ hmem), hsame]
      · rw [if_neg hmem, if_neg (by simp [hmem, hut])]
  case new =>
    intro q e he
    rw [w.heap, List.countP_append]
    by_cases hq : q = part t
    · subst hq
      rw [hself] at he
      cases he
      rw [if_neg (Ne.symm hne), if_pos rfl]
      simp
    · rw [hkey q hq] at he
      have hrange := h.range q e he
      rw [if_neg (by lia), if_neg (w.apart q e hq he), h.new q e he]
      simp [Ne.symm hq]
  case range =>
    intro q e he
    by_cases hq : q = part t
    · subst hq
      rw [hself] at he
      cases he
      exact w.range
    · rw [hkey q hq] at he
      exact ⟨(h.range q e he).1, (h.range q e he).2.trans_le w.fresh⟩
  case inj =>
    intro q q' e he he'
    by_cases hq : q = part t
    · by_cases hq' : q' = part t
      · exact hq.trans hq'.symm
      · rw [hq, hself] at he
        rw [hkey q' hq'] at he'
        cases he
        exact absurd rfl (w.apart q' _ hq' he')
    · rw [hkey q hq] at he
      by_cases hq' : q' = part t
      · rw [hq', hself] at he'
        cases he'
        exact absurd rfl (w.apart q _ hq he)
      · rw [hkey q' hq'] at he'
        exact h.inj q q' e he he'
  case used =>
    intro q
    simp only [List.mem_append, List.mem_singleton]
    by_cases hq : q = part t
    · subst hq
      rw [hself]
      exact iff_of_false nofun fun hall => hall t (Or.inr rfl) rfl
    · rw [hkey q hq, h.used]
      refine ⟨?_, fun hall u hu => hall u (Or.inl hu)⟩
      rintro hall u (hu | rfl)
      · exact hall u hu
      · exact Ne.symm hq

theorem Hung.hangAll {rest : List TaskId} (hnd : (ts ++ rest).Nodup)
    (hlt : ∀ t ∈ rest, t < g.fresh) :
    Hung g part (ts ++ rest) (rest.foldl (fun s t => hangEnd (part t) t s) s) := by
  induction rest generalizing ts s with
  | nil =>
      rw [List.append_nil]
      exact h
  | cons t rest ih =>
      have hnew : t ∉ ts := fun hmem =>
        List.disjoint_of_nodup_append hnd hmem List.mem_cons_self
      have hone := h.hang (hlt t List.mem_cons_self) hnew
      rw [List.append_cons] at hnd ⊢
      exact ih hone hnd fun u hu => hlt u (List.mem_cons_of_mem t hu)

end Hang

/-! ## A graph that is ready to run by parts -/

/-- Edges lead to newer tasks. -/
theorem Book.acyclic {lo : TaskId} {g : TaskDagGraph} (hb : Book lo g) (u : TaskId) :
    ¬ TransGen (Release.Edge (Finset.Ico lo g.fresh) fun t => (g.heap t).outs) u u := by
  have hlt : ∀ u v, TransGen (Release.Edge (Finset.Ico lo g.fresh)
      fun t => (g.heap t).outs) u v → u < v := by
    intro u v huv
    have hone : ∀ x y, Release.Edge (Finset.Ico lo g.fresh) (fun t => (g.heap t).outs) x y →
        x < y := by
      rintro x y ⟨hx, -, hmem⟩
      obtain ⟨hxlo, hxhi⟩ := Finset.mem_Ico.mp hx
      exact (hb.edges.forward x hxlo hxhi y hmem).1
    induction huv with
    | single he => exact hone _ _ he
    | tail _ he ih => exact Nat.lt_trans ih (hone _ _ he)
  exact fun hu => Nat.lt_irrefl u (hlt u u hu)

/-- A task without an edge to another task leads nowhere. -/
theorem Book.mem_endTasks {lo : TaskId} {g : TaskDagGraph} (hb : Book lo g) {u : TaskId}
    (hu : u ∈ Finset.Ico lo g.fresh)
    (hlast : ∀ x ∈ Finset.Ico lo g.fresh, x ∉ (g.heap u).outs) : u ∈ g.endTasks := by
  obtain ⟨hlo, hhi⟩ := Finset.mem_Ico.mp hu
  rw [hb.edges.mem_ends u]
  refine ⟨⟨hlo, hhi⟩, List.eq_nil_iff_forall_not_mem.mpr fun x hx => ?_⟩
  have hfwd := hb.edges.forward u hlo hhi x hx
  exact hlast x (Finset.mem_Ico.mpr ⟨by lia, hfwd.2⟩) hx

section Closed

variable {lo : TaskId} {g : TaskDagGraph} (hb : Book lo g)
  {part : TaskId → Int} {order : List TaskId} (horder : order.Perm g.endTasks)
  {s : TaskDagGraph × (Int → Option TaskId)} (hs : Hung g part order s)
include hb horder hs

theorem Hung.outs {u : TaskId} (hu : u ∈ Finset.Ico lo g.fresh) :
    (s.1.heap u).outs =
      if (g.heap u).outs = [] then (s.2 (part u)).toList else (g.heap u).outs := by
  obtain ⟨hlo, hhi⟩ := Finset.mem_Ico.mp hu
  have hiff : u ∈ order ↔ (g.heap u).outs = [] := by
    rw [horder.mem_iff, hb.edges.mem_ends]
    exact and_iff_right ⟨hlo, hhi⟩
  rw [hs.old u hhi]
  by_cases hnil : (g.heap u).outs = []
  · rw [if_pos (hiff.mpr hnil), if_pos hnil]
    simp [Task.outs, (Task.outs_eq_nil.mp hnil).1]
  · rw [if_neg fun hmem => hnil (hiff.mp hmem), if_neg hnil]

/-- A task that leads nowhere has got the end task of its part. -/
theorem Hung.outs_last {u : TaskId} (hu : u ∈ Finset.Ico lo g.fresh)
    (hnil : (g.heap u).outs = []) :
    ∃ e, s.2 (part u) = some e ∧ (s.1.heap u).outs = [e] := by
  have hmem : u ∈ order :=
    horder.mem_iff.mpr ((hb.edges.mem_ends u).mpr ⟨Finset.mem_Ico.mp hu, hnil⟩)
  obtain ⟨e, he⟩ := Option.ne_none_iff_exists'.mp fun hnone =>
    (hs.used (part u)).mp hnone u hmem rfl
  refine ⟨e, he, ?_⟩
  rw [hs.outs hb horder hu, if_pos hnil, he]
  rfl

/-- Exactly the end tasks of its part count on an end task. -/
theorem Hung.partEnd {t : TaskId} (ht : t ∈ g.endTasks) :
    ∃ e, s.2 (part t) = some e ∧ (s.1.heap e).refCount = order.countP (part · = part t) ∧
      ∀ u ∈ Finset.Ico lo g.fresh,
        e ∈ (s.1.heap u).outs ↔ u ∈ g.endTasks ∧ part u = part t := by
  obtain ⟨e, he⟩ := Option.ne_none_iff_exists'.mp fun hnone =>
    (hs.used (part t)).mp hnone t (horder.mem_iff.mpr ht) rfl
  refine ⟨e, he, by rw [hs.new _ e he], fun u hu => ?_⟩
  rw [hb.edges.mem_ends u, and_iff_right (Finset.mem_Ico.mp hu)]
  by_cases hnil : (g.heap u).outs = []
  · obtain ⟨e', he', houts⟩ := hs.outs_last hb horder hu hnil
    rw [houts, List.mem_singleton, and_iff_right hnil]
    constructor
    · rintro rfl
      exact hs.inj _ _ e he' he
    · intro hpart
      rw [hpart, he] at he'
      exact Option.some.inj he'
  · rw [hs.outs hb horder hu, if_neg hnil]
    refine ⟨fun hmem => ?_, fun hboth => absurd hboth.1 hnil⟩
    obtain ⟨hlo, hhi⟩ := Finset.mem_Ico.mp hu
    have hfwd := hb.edges.forward u hlo hhi e hmem
    have hrange := hs.range _ e he
    lia

/-- Between the tasks nothing has changed. -/
theorem Hung.mem_outs {u x : TaskId} (hu : u ∈ Finset.Ico lo g.fresh) (hx : x < g.fresh) :
    x ∈ (s.1.heap u).outs ↔ x ∈ (g.heap u).outs := by
  by_cases hnil : (g.heap u).outs = []
  · obtain ⟨e, he, houts⟩ := hs.outs_last hb horder hu hnil
    have hrange := hs.range _ e he
    rw [houts, hnil, List.mem_singleton]
    simp only [List.not_mem_nil, iff_false]
    lia
  · rw [hs.outs hb horder hu, if_neg hnil]

theorem Hung.last_iff (u : TaskId) :
    Release.Last (Finset.Ico lo g.fresh) (fun t => (s.1.heap t).outs) u ↔
      u ∈ Finset.Ico lo g.fresh ∧ (g.heap u).outs = [] := by
  refine and_congr_right fun hu => ?_
  constructor
  · intro hlast
    refine ((hb.edges.mem_ends u).mp (hb.mem_endTasks hu fun x hx hmem => ?_)).2
    exact hlast x hx ((hs.mem_outs hb horder hu (Finset.mem_Ico.mp hx).2).mpr hmem)
  · intro hnil x hx hmem
    rw [hs.mem_outs hb horder hu (Finset.mem_Ico.mp hx).2, hnil] at hmem
    cases hmem

theorem Hung.first_iff (t : TaskId) :
    Release.First (Finset.Ico lo g.fresh) (fun t => (s.1.heap t).outs) t ↔
      t ∈ g.needSpawnTasks := by
  rw [hb.mem_roots, Release.First, Finset.mem_Ico]
  refine and_congr_right fun ht => ?_
  constructor
  · intro hno u hlo hhi hmem
    have hu : u ∈ Finset.Ico lo g.fresh := Finset.mem_Ico.mpr ⟨hlo, hhi⟩
    exact hno u hu ((hs.mem_outs hb horder hu ht.2).mpr hmem)
  · intro hno u hu hmem
    obtain ⟨hlo, hhi⟩ := Finset.mem_Ico.mp hu
    exact hno u hlo hhi ((hs.mem_outs hb horder hu ht.2).mp hmem)

theorem Hung.edge_iff (u v : TaskId) :
    Release.Edge (Finset.Ico lo g.fresh) (fun t => (s.1.heap t).outs) u v ↔
      Release.Edge (Finset.Ico lo g.fresh) (fun t => (g.heap t).outs) u v :=
  and_congr_right fun hu => and_congr_right fun hv =>
    hs.mem_outs hb horder hu (Finset.mem_Ico.mp hv).2

theorem Hung.acyclic (u : TaskId) :
    ¬ TransGen (Release.Edge (Finset.Ico lo g.fresh) fun t => (s.1.heap t).outs) u u := by
  intro hu
  exact hb.acyclic u (TransGen.mono (fun x y hxy => (hs.edge_iff hb horder x y).mp hxy) _ _ hu)

theorem Hung.parted {n : Nat} (haff : ∀ t ∈ Finset.Ico lo g.fresh,
      0 ≤ (s.1.heap t).affinityId ∧ (s.1.heap t).affinityId < n) :
    Parted n (Finset.Ico lo g.fresh) part s.2 s.1.heap where
  acyclic := hs.acyclic hb horder
  inner := fun u hu hlast x hx => by
    have hnil : (g.heap u).outs ≠ [] := fun hnil =>
      hlast ((hs.last_iff hb horder u).mpr ⟨hu, hnil⟩)
    rw [hs.outs hb horder hu, if_neg hnil] at hx
    obtain ⟨hlo, hhi⟩ := Finset.mem_Ico.mp hu
    have hfwd := hb.edges.forward u hlo hhi x hx
    exact Finset.mem_Ico.mpr ⟨by lia, hfwd.2⟩
  last := fun u hlast => by
    obtain ⟨hu, hnil⟩ := (hs.last_iff hb horder u).mp hlast
    exact hs.outs_last hb horder hu hnil
  ends_notMem := fun q e he hmem => by
    have hr := hs.range q e he
    have := (Finset.mem_Ico.mp hmem).2
    lia
  ends_inj := hs.inj
  ends_used := fun q e he => by
    have hne : s.2 q ≠ none := by simp [he]
    rw [ne_eq, hs.used] at hne
    push Not at hne
    obtain ⟨u, hu, hpart⟩ := hne
    obtain ⟨hrange, hnil⟩ := (hb.edges.mem_ends u).mp (horder.mem_iff.mp hu)
    exact ⟨u, (hs.last_iff hb horder u).mpr ⟨Finset.mem_Ico.mpr hrange, hnil⟩, hpart⟩
  affinity := haff

/-- What the main thread may hold in the closed graph, it may hold in the recorded one: an end
task has no vertical task. -/
theorem Hung.carried {x : TaskId} (hx : x ∈ Finset.Ico lo g.fresh)
    (hcarried : Carried (Finset.Ico lo g.fresh) s.1.heap x) :
    Carried (Finset.Ico lo g.fresh) g.heap x := by
  have hkept : ∀ t y, t ∈ Finset.Ico lo g.fresh → y ∈ Finset.Ico lo g.fresh →
      (s.1.heap t).verticalTask = some y → (g.heap t).verticalTask = some y := by
    intro t y ht hy hnext
    have hhi := (Finset.mem_Ico.mp ht).2
    rw [hs.old t hhi] at hnext
    split at hnext
    · have hr := hs.range _ y hnext
      have := (Finset.mem_Ico.mp hy).2
      lia
    · exact hnext
  have hown : ∀ t, Own (Finset.Ico lo g.fresh) s.1.heap t →
      (t ∈ Finset.Ico lo g.fresh ∧ Own (Finset.Ico lo g.fresh) g.heap t) ∨
        (s.1.heap t).verticalTask = none := by
    intro t ht
    induction ht with
    | @queued t hmem haff =>
        refine Or.inl ⟨hmem, .queued hmem ?_⟩
        rw [hs.old t (Finset.mem_Ico.mp hmem).2] at haff
        split at haff <;> exact haff
    | @vertical t y _ hnext ih =>
        rcases ih with ⟨hmem, hown⟩ | hnone
        · by_cases hy : y ∈ Finset.Ico lo g.fresh
          · exact Or.inl ⟨hy, .vertical hown (hkept t y hmem hy hnext)⟩
          · -- the end task of the part
            have hout : y ∈ (s.1.heap t).outs := Task.mem_outs.mpr (Or.inr hnext)
            have hnil : (g.heap t).outs = [] := by
              by_contra hne
              rw [hs.outs hb horder hmem, if_neg hne] at hout
              obtain ⟨hlo, hhi⟩ := Finset.mem_Ico.mp hmem
              have hfwd := hb.edges.forward t hlo hhi y hout
              exact hy (Finset.mem_Ico.mpr ⟨by lia, hfwd.2⟩)
            obtain ⟨e, he, houts⟩ := hs.outs_last hb horder hmem hnil
            rw [houts] at hout
            rw [List.mem_singleton.mp hout, hs.new _ e he]
            exact Or.inr rfl
        · rw [hnone] at hnext
          cases hnext
  obtain ⟨t, ht, hnext⟩ := hcarried
  rcases hown t ht with ⟨hmem, hown⟩ | hnone
  · exact ⟨t, hown, hkept t x hmem hx hnext⟩
  · rw [hnone] at hnext
    cases hnext

/-- Parts that are in turn in the recorded graph are so in the closed one. -/
theorem Hung.inTurn (hturn : Release.InTurn (Finset.Ico lo g.fresh) (fun t => (g.heap t).outs)
      part (Carried (Finset.Ico lo g.fresh) g.heap)) :
    Release.InTurn (Finset.Ico lo g.fresh) (fun t => (s.1.heap t).outs) part
      (Carried (Finset.Ico lo g.fresh) s.1.heap) :=
  (hturn.congr (hs.edge_iff hb horder)).mono fun _ hx hcarried => hs.carried hb horder hx hcarried

theorem Hung.inDegree_task {t : TaskId} (ht : t ∈ Finset.Ico lo g.fresh) :
    (s.1.heap t).refCount = inDegree (Finset.Ico lo g.fresh) s.1.heap t := by
  obtain ⟨hlo, hhi⟩ := Finset.mem_Ico.mp ht
  have hcount : (s.1.heap t).refCount = (g.heap t).refCount := by
    rw [hs.old t hhi]
    split <;> rfl
  rw [hcount, hb.edges.count t hlo hhi, predecessors, inDegree, Finset.card_filter]
  refine congrArg Nat.cast (Finset.sum_congr rfl fun u hu => ?_)
  obtain ⟨hulo, huhi⟩ := Finset.mem_Ico.mp hu
  by_cases hmem : t ∈ (g.heap u).outs
  · have hnil : (g.heap u).outs ≠ [] := List.ne_nil_of_mem hmem
    rw [if_pos hmem, hs.outs hb horder hu, if_neg hnil,
      List.count_eq_one_of_mem (hb.edges.nodup u hulo huhi) hmem]
  · rw [if_neg hmem]
    refine (List.count_eq_zero.mpr fun hin => hmem ?_).symm
    exact (hs.mem_outs hb horder hu hhi).mp hin

theorem Hung.inDegree_end {q : Int} {e : TaskId} (he : s.2 q = some e) :
    (s.1.heap e).refCount = inDegree (Finset.Ico lo g.fresh) s.1.heap e := by
  have hrange := hs.range q e he
  rw [hs.new q e he]
  change ((order.countP (part · = q) : Nat) : Int) = _
  rw [inDegree, horder.countP_eq, List.countP_eq_length_filter,
    ← List.toFinset_card_of_nodup (hb.edges.ends_nodup.filter _), ← Finset.sum_filter_ne_zero]
  refine congrArg Nat.cast ?_
  have hone : ∀ u ∈ Finset.Ico lo g.fresh, (s.1.heap u).outs.count e =
      if (g.heap u).outs = [] ∧ part u = q then 1 else 0 := by
    intro u hu
    obtain ⟨hlo, hhi⟩ := Finset.mem_Ico.mp hu
    by_cases hnil : (g.heap u).outs = []
    · obtain ⟨e', he', houts⟩ := hs.outs_last hb horder hu hnil
      rw [houts, List.count_singleton]
      by_cases hq : part u = q
      · rw [hq, he] at he'
        cases he'
        simp [hnil, hq]
      · have hne : e' ≠ e := fun heq => hq (hs.inj _ q e (heq ▸ he') he)
        simp [hq, hne]
    · rw [if_neg fun hand => hnil hand.1, hs.outs hb horder hu, if_neg hnil]
      refine List.count_eq_zero.mpr fun hmem => ?_
      have := (hb.edges.forward u hlo hhi e hmem).2
      lia
  rw [Finset.sum_filter_ne_zero, Finset.sum_congr rfl hone, ← Finset.card_filter]
  refine congrArg Finset.card ?_
  ext u
  simp only [List.mem_toFinset, List.mem_filter, hb.edges.mem_ends, decide_eq_true_eq,
    Finset.mem_filter, Finset.mem_Ico]
  tauto

theorem Hung.ready {r : Runtime m} {sepData : List (Int × List TaskId)}
    (haff : ∀ t ∈ Finset.Ico lo g.fresh,
      0 ≤ (s.1.heap t).affinityId ∧ (s.1.heap t).affinityId < (m + 1 : Nat))
    (hdata : Buckets part g.needSpawnTasks sepData)
    (hgraph : r.graph = g) (hidle : r.Idle)
    (hold : ∀ i t, (r.pc i).object = some t → t < lo) (hmain : r.main = .prog)
    (hpc : r.pc 0 = .next) :
    PartsReady (Finset.Ico lo g.fresh) part
      ⟨{ r with graph := s.1, log := [] }, sepData, s.2⟩ where
  parted := hs.parted hb horder haff
  kind := fun t ht => by
    obtain ⟨hlo, hhi⟩ := Finset.mem_Ico.mp ht
    change (s.1.heap t).isAceMesh = true
    rw [hs.old t hhi]
    split
    · exact (hb.kind t hlo hhi).1
    · exact (hb.kind t hlo hhi).1
  counts := fun t ht => hs.inDegree_task hb horder ht
  endCounts := fun q e he => hs.inDegree_end hb horder he
  sorted := hdata.sorted
  listed := fun q l hmem => by
    obtain ⟨hne, rfl⟩ := hdata.listed q l hmem
    refine ⟨hne, hb.roots_nodup.filter _, fun t => ?_⟩
    rw [List.mem_filter, decide_eq_true_eq]
    exact and_congr_left' (hs.first_iff hb horder t).symm
  covered := fun t ht => hdata.covered t ((hs.first_iff hb horder t).mp ht)
  idle := hidle.congr rfl rfl fun i t ht => by
    have hlt := hold i t ht
    have hle := hb.lo_le
    have hnot : t ∉ order := fun hmem => by
      have := ((hb.edges.mem_ends t).mp (horder.mem_iff.mp hmem)).1
      lia
    change s.1.heap t = r.heap t
    rw [hs.old t (by lia), if_neg hnot]
    exact congrArg (fun g : TaskDagGraph => g.heap t) hgraph.symm
  main := hmain
  pc := hpc
  log := rfl

end Closed

end AceMesh
