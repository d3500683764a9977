import AceMesh.Closing
import AceMesh.Lib.Release

/-!
# The dependence graph is exact

`addr_task` keeps, for every true address, the last writer and the readers since. A reader
gets an edge from the last writer; a writer gets edges from the readers, and from the old
writer only when there are none. `EntryOk` relates such an entry to the whole history of
accesses: every older writer leads to the last one, every older access is a listed reader
or leads to the last writer, and the last writer leads to every listed reader.

An entry changes at `end_split_task` only, while edges are made during the loop. So the
edges of a loop see the accesses of the finished loops, and what makes the entry right
again at the end of the loop is that no two of its tasks conflict.
-/

namespace AceMesh

open TaskDagGraph Relation

/-! ## One table entry -/

/-- What an entry says about the accesses `E` of its address, under the reachability
`reach` of the graph. -/
structure EntryOk (reach : TaskId → TaskId → Prop) (E : TaskId → InOut → Prop)
    (entry : Option RwTask) : Prop where
  none : entry = none → ∀ t type, ¬ E t type
  reader : ∀ e, entry = some e → ∀ r ∈ e.rTasks, E r.t .IN
  writer : ∀ e, entry = some e → ∀ w, e.wTask = some w → ∃ type, E w.t type ∧ type.writes = true
  covers_writer : ∀ e, entry = some e → ∀ t type, E t type → type.writes = true →
    ∃ w, e.wTask = some w ∧ reach t w.t
  covers : ∀ e, entry = some e → ∀ t type, E t type →
    (∃ r ∈ e.rTasks, r.t = t) ∨ ∃ w, e.wTask = some w ∧ reach t w.t
  writer_first : ∀ e, entry = some e → ∀ w, e.wTask = some w → ∀ r ∈ e.rTasks, reach w.t r.t

theorem InOut.eq_in {type : InOut} (hnone : type ≠ .INOUT_NONE) (hw : type.writes = false) :
    type = .IN := by
  cases type with
  | INOUT_NONE => exact absurd rfl hnone
  | IN => rfl
  | OUT => simp [InOut.writes] at hw
  | INOUT => simp [InOut.writes] at hw

theorem EntryOk.empty (reach : TaskId → TaskId → Prop) {E : TaskId → InOut → Prop}
    (hE : ∀ t type, ¬ E t type) : EntryOk reach E Option.none :=
  ⟨fun _ => hE, by simp, by simp, by simp, by simp, by simp⟩

theorem EntryOk.mono {reach reach' : TaskId → TaskId → Prop} {E : TaskId → InOut → Prop}
    {entry : Option RwTask} (h : EntryOk reach E entry)
    (hr : ∀ t u, reach t u → reach' t u) : EntryOk reach' E entry where
  none := h.none
  reader := h.reader
  writer := h.writer
  covers_writer := fun e he t type ht hw =>
    (h.covers_writer e he t type ht hw).imp fun _ hx => hx.imp_right (hr _ _)
  covers := fun e he t type ht =>
    (h.covers e he t type ht).imp_right fun ⟨w, hw, hx⟩ => ⟨w, hw, hr _ _ hx⟩
  writer_first := fun e he w hw r hx => hr _ _ (h.writer_first e he w hw r hx)

theorem EntryOk.congr {reach : TaskId → TaskId → Prop} {E E' : TaskId → InOut → Prop}
    {entry : Option RwTask} (h : EntryOk reach E entry)
    (hE : ∀ t type, E t type ↔ E' t type) : EntryOk reach E' entry := by
  have : E = E' := by ext t type; exact hE t type
  exact this ▸ h

/-- Entering an access that every conflicting older access leads to. -/
theorem EntryOk.enterAccess {reach : TaskId → TaskId → Prop} {E : TaskId → InOut → Prop}
    {entry : Option RwTask} (h : EntryOk reach E entry) {t : TaskId} {type : InOut}
    (s : Bool) (hnone : type ≠ .INOUT_NONE) (hrefl : reach t t)
    (hconf : ∀ u ty, E u ty → (type.writes = true ∨ ty.writes = true) → reach u t) :
    EntryOk reach (fun u ty => E u ty ∨ (u = t ∧ ty = type))
      (some (TaskDagGraph.enterAccess entry type t s)) := by
  by_cases hw : type.writes = true
  · -- a write replaces the entry, and everything before it leads to it
    have hentry : TaskDagGraph.enterAccess entry type t s = ⟨[], some ⟨t, s⟩, by simp⟩ := by
      cases entry <;> simp [TaskDagGraph.enterAccess, hw]
    have hall : ∀ u ty, E u ty ∨ (u = t ∧ ty = type) → reach u t := by
      rintro u ty (hu | ⟨rfl, -⟩)
      · exact hconf u ty hu (Or.inl hw)
      · exact hrefl
    rw [hentry]
    constructor
    · simp
    · rintro e ⟨⟩ r hr
      simp at hr
    · rintro e ⟨⟩ w ⟨⟩
      exact ⟨type, Or.inr ⟨rfl, rfl⟩, hw⟩
    · rintro e ⟨⟩ u ty hu -
      exact ⟨_, rfl, hall u ty hu⟩
    · rintro e ⟨⟩ u ty hu
      exact Or.inr ⟨_, rfl, hall u ty hu⟩
    · rintro e ⟨⟩ w - r hr
      simp at hr
  · have hin : type = .IN := InOut.eq_in hnone (by simpa using hw)
    subst hin
    cases entry with
    | none =>
        have hE := h.none rfl
        constructor
        · simp
        · rintro e ⟨⟩ r hr
          rw [List.mem_singleton.mp hr]
          exact Or.inr ⟨rfl, rfl⟩
        · rintro e ⟨⟩ w ⟨⟩
        · rintro e ⟨⟩ u ty (hu | ⟨-, rfl⟩) hty
          · exact absurd hu (hE u ty)
          · exact absurd hty hw
        · rintro e ⟨⟩ u ty (hu | ⟨rfl, -⟩)
          · exact absurd hu (hE u ty)
          · exact Or.inl ⟨_, List.mem_singleton_self _, rfl⟩
        · rintro e ⟨⟩ w ⟨⟩
    | some old =>
        have hentry : TaskDagGraph.enterAccess (some old) .IN t s =
            ⟨old.rTasks ++ [⟨t, s⟩], old.wTask, by simp⟩ := rfl
        rw [hentry]
        constructor
        · simp
        · rintro e ⟨⟩ r hr
          rcases List.mem_append.mp hr with hr | hr
          · exact Or.inl (h.reader old rfl r hr)
          · rw [List.mem_singleton.mp hr]
            exact Or.inr ⟨rfl, rfl⟩
        · rintro e ⟨⟩ w hwt
          obtain ⟨ty, hty, hwr⟩ := h.writer old rfl w hwt
          exact ⟨ty, Or.inl hty, hwr⟩
        · rintro e ⟨⟩ u ty (hu | ⟨-, rfl⟩) hty
          · exact h.covers_writer old rfl u ty hu hty
          · exact absurd hty hw
        · rintro e ⟨⟩ u ty (hu | ⟨rfl, -⟩)
          · rcases h.covers old rfl u ty hu with ⟨r, hr, hru⟩ | hcov
            · exact Or.inl ⟨r, List.mem_append_left _ hr, hru⟩
            · exact Or.inr hcov
          · exact Or.inl ⟨_, List.mem_append_right _ (List.mem_singleton_self _), rfl⟩
        · rintro e ⟨⟩ w hwt r hr
          rcases List.mem_append.mp hr with hr | hr
          · exact h.writer_first old rfl w hwt r hr
          · rw [List.mem_singleton.mp hr]
            obtain ⟨ty, hty, hwr⟩ := h.writer old rfl w hwt
            exact hconf w.t ty hty (Or.inr hwr)

/-- The edges an access attempts start at tasks it conflicts with. -/
theorem EntryOk.edgeSources_conflict {reach : TaskId → TaskId → Prop}
    {E : TaskId → InOut → Prop} {e : RwTask} (h : EntryOk reach E (some e)) {type : InOut}
    {r : TaskSignificance} (hr : r ∈ e.edgeSources type) :
    type ≠ .INOUT_NONE ∧ ∃ ty, E r.t ty ∧ (ty.writes = true ∨ type.writes = true) := by
  unfold RwTask.edgeSources at hr
  split at hr
  · simp at hr
  · rename_i hnone
    refine ⟨hnone, ?_⟩
    split at hr
    · obtain ⟨ty, hty, hw⟩ := h.writer e rfl r (Option.mem_toList.mp hr)
      exact ⟨ty, hty, Or.inl hw⟩
    · rename_i hor
      refine ⟨.IN, h.reader e rfl r hr, Or.inr ?_⟩
      by_contra hw
      exact hor (Or.inr (InOut.eq_in hnone (by simpa using hw)))

/-- A task that conflicts with an older access comes after it once its edges are made. -/
theorem EntryOk.reach_of_conflict {reach : TaskId → TaskId → Prop}
    (htrans : ∀ t u v, reach t u → reach u v → reach t v)
    {E : TaskId → InOut → Prop} {e : RwTask} (h : EntryOk reach E (some e)) {type : InOut}
    (hnone : type ≠ .INOUT_NONE) {u : TaskId} {ty : InOut} (hu : E u ty)
    (hconf : ty.writes = true ∨ type.writes = true) :
    ∃ r ∈ e.edgeSources type, r.t = u ∨ reach u r.t := by
  -- when the last writer is reached, either it is a source itself or the readers after it are
  have hviaWriter : ∀ w, e.wTask = some w → reach u w.t →
      ∃ r ∈ e.edgeSources type, r.t = u ∨ reach u r.t := by
    intro w hw hreach
    unfold RwTask.edgeSources
    rw [if_neg hnone]
    split
    · exact ⟨w, Option.mem_toList.mpr hw, Or.inr hreach⟩
    · rename_i hor
      obtain ⟨r, hr⟩ := List.exists_mem_of_ne_nil _ (fun hnil => hor (Or.inl hnil))
      exact ⟨r, hr, Or.inr (htrans _ _ _ hreach (h.writer_first e rfl w hw r hr))⟩
  rcases h.covers e rfl u ty hu with ⟨r, hr, hru⟩ | ⟨w, hw, hreach⟩
  · by_cases hin : type = .IN
    · -- both would be reads
      have hty : ty.writes = true := hconf.resolve_right (by simp [hin, InOut.writes])
      obtain ⟨w, hw, hreach⟩ := h.covers_writer e rfl u ty hu hty
      exact hviaWriter w hw hreach
    · refine ⟨r, ?_, Or.inl hru⟩
      have hne : e.rTasks ≠ [] := List.ne_nil_of_mem hr
      unfold RwTask.edgeSources
      rw [if_neg hnone, if_neg (not_or.mpr ⟨hne, hin⟩)]
      exact hr
  · exact hviaWriter w hw hreach

/-! ## Loops and conflicts -/

/-- A loop of the program: `begin_split_task`, with a thread number or without, the
registrations, `end_split_task`. -/
structure Loop where
  named : Option Nat
  tasks : List TaskSpec

def Loop.beginCall (l : Loop) : BuildCall :=
  match l.named with
  | none => .beginSplitTask
  | some n => .beginSplitTaskNamed n

def Loop.calls (l : Loop) : List BuildCall :=
  l.beginCall :: (l.tasks.map .registerTask ++ [.endSplitTask])

/-- The tasks in registration order, each with the number of its loop. -/
def registered (loops : List Loop) : List (Nat × TaskSpec) :=
  loops.zipIdx.flatMap fun p => p.1.tasks.map fun spec => (p.2, spec)

/-- Task `t` of loop `k` accesses the true address `a`. `NULL` is no address, and
`INOUT_NONE` is no access. -/
def Accesses (lo : TaskId) (ps : List (Nat × TaskSpec)) (t : TaskId) (k : Nat) (a : Addr)
    (type : InOut) : Prop :=
  lo ≤ t ∧ a ≠ 0 ∧ type ≠ .INOUT_NONE ∧
    ∃ spec, ps[t - lo]? = some (k, spec) ∧ ∃ x ∈ spec.accesses, x.addr = a ∧ x.type = type

/-- Task `t` of loop `k` and task `u` of loop `l` access a common address, one of them as a
writer. -/
def Conflict (lo : TaskId) (ps : List (Nat × TaskSpec)) (t : TaskId) (k : Nat) (u : TaskId)
    (l : Nat) : Prop :=
  ∃ a type type', Accesses lo ps t k a type ∧ Accesses lo ps u l a type' ∧
    (type.writes = true ∨ type'.writes = true)

/-- A conflict between an earlier and a later loop. -/
def CrossConflict (lo : TaskId) (ps : List (Nat × TaskSpec)) (t u : TaskId) : Prop :=
  ∃ k l, k < l ∧ Conflict lo ps t k u l

/-- No two tasks of one loop conflict. -/
def ConflictFree (lo : TaskId) (ps : List (Nat × TaskSpec)) : Prop :=
  ∀ k t u, t ≠ u → ¬ Conflict lo ps t k u k

/-- Two accesses of one address, one of them a write. -/
def Access.Clash (x y : Access) : Prop :=
  x.addr = y.addr ∧ x.addr ≠ 0 ∧ x.type ≠ .INOUT_NONE ∧ y.type ≠ .INOUT_NONE ∧
    (x.type.writes = true ∨ y.type.writes = true)

instance (x y : Access) : Decidable (x.Clash y) := inferInstanceAs (Decidable (_ ∧ _))

theorem conflictFree_iff {lo : TaskId} {ps : List (Nat × TaskSpec)} :
    ConflictFree lo ps ↔ ∀ p ∈ ps.zipIdx, ∀ q ∈ ps.zipIdx, p.2 ≠ q.2 → p.1.1 = q.1.1 →
      ∀ x ∈ p.1.2.accesses, ∀ y ∈ q.1.2.accesses, ¬ x.Clash y := by
  constructor
  · rintro h ⟨⟨k, spec⟩, i⟩ hp ⟨⟨l, spec'⟩, j⟩ hq hij (rfl : k = l) x hx y hy
    rintro ⟨hxy, h0, hxn, hyn, hw⟩
    have hp := List.mem_zipIdx_iff_getElem?.mp hp
    have hq := List.mem_zipIdx_iff_getElem?.mp hq
    have hne : lo + i ≠ lo + j := fun he => hij (Nat.add_left_cancel he)
    refine h k (lo + i) (lo + j) hne ⟨x.addr, x.type, y.type, ⟨Nat.le_add_right .., h0, hxn,
      spec, ?_, x, hx, rfl, rfl⟩, ⟨Nat.le_add_right .., h0, hyn, spec', ?_, y, hy, hxy.symm, rfl⟩,
      hw⟩
    · rw [Nat.add_sub_cancel_left]; exact hp
    · rw [Nat.add_sub_cancel_left]; exact hq
  · rintro h k t u hne ⟨a, type, type', ⟨hlo, h0, hn, spec, hspec, x, hx, rfl, rfl⟩,
      ⟨hlo', -, hn', spec', hspec', y, hy, hya, rfl⟩, hw⟩
    refine h ⟨(k, spec), t - lo⟩ (List.mem_zipIdx_iff_getElem?.mpr hspec) ⟨(k, spec'), u - lo⟩
      (List.mem_zipIdx_iff_getElem?.mpr hspec') ?_ rfl x hx y hy ⟨hya.symm, h0, hn, hn', hw⟩
    exact fun he => hne (by lia)

instance (lo : TaskId) (ps : List (Nat × TaskSpec)) : Decidable (ConflictFree lo ps) :=
  decidable_of_iff' _ conflictFree_iff

/-- An edge between two tasks of the graph. -/
abbrev GraphEdge (lo : TaskId) (g : TaskDagGraph) : TaskId → TaskId → Prop :=
  Release.Edge (Finset.Ico lo g.fresh) fun u => (g.heap u).outs

theorem accesses_append {lo : TaskId} {ps : List (Nat × TaskSpec)} {k : Nat} {spec : TaskSpec}
    {t : TaskId} {j : Nat} {a : Addr} {type : InOut} :
    Accesses lo (ps ++ [(k, spec)]) t j a type ↔ Accesses lo ps t j a type ∨
      (t = lo + ps.length ∧ j = k ∧ a ≠ 0 ∧ type ≠ .INOUT_NONE ∧
        ∃ x ∈ spec.accesses, x.addr = a ∧ x.type = type) := by
  unfold Accesses
  constructor
  · rintro ⟨hlo, ha, hty, sp, hsp, hx⟩
    by_cases hlt : t - lo < ps.length
    · rw [List.getElem?_append_left hlt] at hsp
      exact Or.inl ⟨hlo, ha, hty, sp, hsp, hx⟩
    · rw [List.getElem?_append_right (by lia)] at hsp
      obtain ⟨hz, heq⟩ := List.getElem?_eq_some_iff.mp hsp
      have hz : t - lo - ps.length = 0 := by simpa using hz
      simp only [hz, List.getElem_cons_zero] at heq
      cases heq
      exact Or.inr ⟨by lia, rfl, ha, hty, hx⟩
  · rintro (⟨hlo, ha, hty, sp, hsp, hx⟩ | ⟨rfl, rfl, ha, hty, hx⟩)
    · exact ⟨hlo, ha, hty, sp, by rw [List.getElem?_append_left
        (List.getElem?_eq_some_iff.mp hsp).1]; exact hsp, hx⟩
    · exact ⟨by lia, ha, hty, spec, by simp, hx⟩

theorem Accesses.range {lo : TaskId} {ps : List (Nat × TaskSpec)} {t : TaskId} {k : Nat}
    {a : Addr} {type : InOut} (h : Accesses lo ps t k a type) : lo ≤ t ∧ t < lo + ps.length := by
  obtain ⟨hlo, -, -, spec, hspec, -⟩ := h
  have := (List.getElem?_eq_some_iff.mp hspec).1
  exact ⟨hlo, by lia⟩

theorem CrossConflict.append {lo : TaskId} {ps : List (Nat × TaskSpec)} {t u : TaskId}
    (h : CrossConflict lo ps t u) (p : Nat × TaskSpec) : CrossConflict lo (ps ++ [p]) t u := by
  obtain ⟨k, l, hkl, a, type, type', ht, hu, hw⟩ := h
  exact ⟨k, l, hkl, a, type, type', accesses_append.mpr (Or.inl ht),
    accesses_append.mpr (Or.inl hu), hw⟩

/-! ## The invariant -/

/-- The accesses of an address in the loops before `k`. -/
def AccessedBefore (lo : TaskId) (ps : List (Nat × TaskSpec)) (k : Nat) (a : Addr)
    (t : TaskId) (type : InOut) : Prop :=
  ∃ j < k, Accesses lo ps t j a type

/-- While loop `k` is registered: the edges are conflicts with earlier loops, all such
conflicts are ordered by edges, and the table stands for the loops before `k`. -/
structure Dependence (lo : TaskId) (ps : List (Nat × TaskSpec)) (k : Nat)
    (g : TaskDagGraph) : Prop where
  book : Book lo g
  fresh : g.fresh = lo + ps.length
  loop_le : ∀ p ∈ ps, p.1 ≤ k
  sound : ∀ u t, GraphEdge lo g u t → CrossConflict lo ps u t
  complete : ∀ u t, CrossConflict lo ps u t → TransGen (GraphEdge lo g) u t
  table : ∀ a, EntryOk (ReflTransGen (GraphEdge lo g)) (AccessedBefore lo ps k a) (g.addrTask a)

/-- The recorded tuples are the accesses of loop `k`. -/
def RecordedTuples (lo : TaskId) (ps : List (Nat × TaskSpec)) (k : Nat)
    (tuples : List VirtualTuple) : Prop :=
  ∀ v, v ∈ tuples ↔ ∃ t, lo ≤ t ∧ ∃ spec, ps[t - lo]? = some (k, spec) ∧
    ∃ x ∈ spec.accesses, v = x.tuple t

theorem Dependence.blank {g : TaskDagGraph} (hg : Blank g) : Dependence g.fresh [] 0 g where
  book := hg.book
  fresh := by simp
  loop_le := by simp
  sound := fun u t h => by simpa using h.1
  complete := fun u t ⟨k, l, _, a, type, type', ht, _⟩ => by
    have := ht.range
    simp at this
    lia
  table := fun a => by
    rw [hg.addrTask]
    refine EntryOk.empty _ ?_
    rintro t type ⟨j, hj, -⟩
    lia

theorem Dependence.begin {lo : TaskId} {ps : List (Nat × TaskSpec)} {k : Nat}
    {g : TaskDagGraph} (h : Dependence lo ps k g) (hlt : ∀ p ∈ ps, p.1 < k) (l : Loop) :
    Dependence lo ps k (g.build l.beginCall) ∧
      RecordedTuples lo ps k (g.build l.beginCall).oneVirtualTaskTuples := by
  have hrec : RecordedTuples lo ps k [] := by
    intro v
    simp only [List.not_mem_nil, false_iff]
    rintro ⟨t, -, spec, hspec, -⟩
    exact absurd (hlt _ (List.mem_of_getElem? hspec)) (Nat.lt_irrefl k)
  unfold Loop.beginCall
  cases l.named with
  | none => exact ⟨{ h with book := h.book.beginSplitTask }, hrec⟩
  | some n => exact ⟨{ h with book := h.book.beginSplitTaskNamed n }, hrec⟩

theorem RecordedTuples.append {lo : TaskId} {ps : List (Nat × TaskSpec)} {k : Nat}
    {tuples : List VirtualTuple} (h : RecordedTuples lo ps k tuples) (spec : TaskSpec) :
    RecordedTuples lo (ps ++ [(k, spec)]) k
      (tuples ++ spec.accesses.map (Access.tuple (lo + ps.length))) := by
  intro v
  rw [List.mem_append, h v, List.mem_map]
  constructor
  · rintro (⟨t, hlo, sp, hsp, x, hx, rfl⟩ | ⟨x, hx, rfl⟩)
    · refine ⟨t, hlo, sp, ?_, x, hx, rfl⟩
      rw [List.getElem?_append_left (List.getElem?_eq_some_iff.mp hsp).1]
      exact hsp
    · exact ⟨lo + ps.length, by lia, spec, by simp, x, hx, rfl⟩
  · rintro ⟨t, hlo, sp, hsp, x, hx, rfl⟩
    by_cases hlt : t - lo < ps.length
    · rw [List.getElem?_append_left hlt] at hsp
      exact Or.inl ⟨t, hlo, sp, hsp, x, hx, rfl⟩
    · have hlen := (List.getElem?_eq_some_iff.mp hsp).1
      rw [List.length_append, List.length_singleton] at hlen
      have ht : t = lo + ps.length := by lia
      subst ht
      simp only [Nat.add_sub_cancel_left, List.getElem?_concat_length, Option.some.injEq,
        Prod.mk.injEq, true_and] at hsp
      exact Or.inr ⟨x, hsp ▸ hx, rfl⟩

/-! ## Registering a task -/

/-- The edges after a registration. -/
theorem graphEdge_taskGenerator {lo : TaskId} {g : TaskDagGraph} (hb : Book lo g)
    (spec : TaskSpec) {u t : TaskId} :
    GraphEdge lo (g.taskGenerator spec) u t ↔ GraphEdge lo g u t ∨
      (t = g.fresh ∧ ∃ p ∈ attempts g.addrTask spec.accesses, p.1.t = u) := by
  have hlo := hb.lo_le
  simp only [GraphEdge, Release.Edge, taskGenerator_fresh, Finset.mem_Ico]
  constructor
  · rintro ⟨hu, -, hmem⟩
    have hne : u ≠ g.fresh := fun hf => by
      subst hf
      simp [outs_taskGenerator_new hb spec] at hmem
    rcases (mem_outs_taskGenerator g spec hne).mp hmem with hold | hnew
    · have := hb.edges.forward u hu.1 (by lia) t hold
      exact Or.inl ⟨⟨hu.1, by lia⟩, ⟨by lia, this.2⟩, hold⟩
    · exact Or.inr hnew
  · rintro (⟨hu, ht, hmem⟩ | ⟨rfl, p, hp, rfl⟩)
    · exact ⟨⟨hu.1, by lia⟩, ⟨ht.1, by lia⟩,
        (mem_outs_taskGenerator g spec (by lia)).mpr (Or.inl hmem)⟩
    · have := hb.attempts_lt hp
      exact ⟨⟨this.1, by lia⟩, ⟨hlo, by lia⟩,
        (mem_outs_taskGenerator g spec (by lia)).mpr (Or.inr ⟨rfl, p, hp, rfl⟩)⟩

theorem Dependence.register {lo : TaskId} {ps : List (Nat × TaskSpec)} {k : Nat}
    {g : TaskDagGraph} (h : Dependence lo ps k g) (spec : TaskSpec) :
    Dependence lo (ps ++ [(k, spec)]) k (g.taskGenerator spec) := by
  have hedge : ∀ u t, GraphEdge lo g u t → GraphEdge lo (g.taskGenerator spec) u t :=
    fun u t he => (graphEdge_taskGenerator h.book spec).mpr (Or.inl he)
  have hbefore : ∀ a t type, AccessedBefore lo (ps ++ [(k, spec)]) k a t type ↔
      AccessedBefore lo ps k a t type := by
    intro a t type
    refine exists_congr fun j => and_congr_right fun hj => ?_
    rw [accesses_append]
    exact or_iff_left fun hnew => by lia
  constructor
  case book => exact h.book.taskGenerator spec
  case fresh =>
    rw [taskGenerator_fresh, h.fresh, List.length_append, List.length_singleton, Nat.add_assoc]
  case loop_le =>
    intro p hp
    rcases List.mem_append.mp hp with hp | hp
    · exact h.loop_le p hp
    · rw [List.mem_singleton.mp hp]
  case sound =>
    -- a new edge comes from an entry, and the entry from an earlier loop
    intro u t hut
    rcases (graphEdge_taskGenerator h.book spec).mp hut with hold | ⟨rfl, p, hp, rfl⟩
    · exact (h.sound u t hold).append _
    · obtain ⟨x, hx, e, he, hr, -⟩ := mem_attempts.mp hp
      have hok := h.table x.addr
      rw [he] at hok
      obtain ⟨hnone, ty, ⟨j, hj, hacc⟩, hw⟩ := hok.edgeSources_conflict hr
      exact ⟨j, k, hj, x.addr, ty, x.type, accesses_append.mpr (Or.inl hacc),
        accesses_append.mpr (Or.inr ⟨h.fresh, rfl, hacc.2.1, hnone, x, hx, rfl, rfl⟩), hw⟩
  case complete =>
    rintro u t ⟨i, j, hij, a, type, type', hu, ht, hw⟩
    have hi : Accesses lo ps u i a type := by
      refine (accesses_append.mp hu).resolve_right ?_
      rintro ⟨-, rfl, -⟩
      -- the last loop has no later one
      have hle : j ≤ i := by
        obtain ⟨-, -, -, sp, hsp, -⟩ := ht
        rcases List.mem_append.mp (List.mem_of_getElem? hsp) with hm | hm
        · exact h.loop_le _ hm
        · exact (Prod.mk.inj (List.mem_singleton.mp hm)).1.le
      lia
    rcases accesses_append.mp ht with hold | ⟨rfl, rfl, ha, hty, x, hx, rfl, rfl⟩
    · exact TransGen.mono hedge _ _ (h.complete u t ⟨i, j, hij, a, type, type', hi, hold, hw⟩)
    · have hbef : AccessedBefore lo ps j x.addr u type := ⟨i, hij, hi⟩
      have hok := h.table x.addr
      cases he : g.addrTask x.addr with
      | none =>
          rw [he] at hok
          exact absurd hbef (hok.none rfl u type)
      | some e =>
          rw [he] at hok
          obtain ⟨r, hr, hru⟩ := hok.reach_of_conflict (fun _ _ _ => ReflTransGen.trans) hty hbef hw
          have hlast : GraphEdge lo (g.taskGenerator spec) r.t (lo + ps.length) :=
            (graphEdge_taskGenerator h.book spec).mpr (Or.inr ⟨h.fresh.symm, (r, x.isNeighbor),
              mem_attempts.mpr ⟨x, hx, e, he, hr, rfl⟩, rfl⟩)
          rcases hru with rfl | hreach
          · exact TransGen.single hlast
          · exact TransGen.tail' (ReflTransGen.mono hedge _ _ hreach) hlast
  case table =>
    intro a
    rw [taskGenerator_addrTask]
    refine EntryOk.congr ?_ fun t type => (hbefore a t type).symm
    exact (h.table a).mono fun t u hr => ReflTransGen.mono hedge _ _ hr

/-! ## The end of a loop -/

/-- The tuple is entered into the table. -/
def VirtualTuple.isAccess (v : VirtualTuple) (a : Addr) (t : TaskId) (type : InOut) : Prop :=
  v.t = some t ∧ v.addr = a ∧ v.type = type ∧ a ≠ 0 ∧ type ≠ .INOUT_NONE

/-- The entries stay right while the tuples of a loop are entered one by one, if every
conflicting older access, and every one of the same loop, leads to the newer task. -/
theorem entryOk_enterTuples {reach : TaskId → TaskId → Prop} (hrefl : ∀ t, reach t t)
    {E : Addr → TaskId → InOut → Prop} {g : TaskDagGraph} (l : List VirtualTuple)
    (hok : ∀ a, EntryOk reach (E a) (g.addrTask a))
    (hconf : ∀ v ∈ l, ∀ a t type, v.isAccess a t type → ∀ u ty,
      (E a u ty ∨ ∃ w ∈ l, w.isAccess a u ty) →
      (type.writes = true ∨ ty.writes = true) → reach u t) (a : Addr) :
    EntryOk reach (fun t type => E a t type ∨ ∃ v ∈ l, v.isAccess a t type)
      ((l.foldl enterTuple g).addrTask a) := by
  induction l generalizing g E with
  | nil => exact (hok a).congr fun t type => by simp
  | cons v l ih =>
      have hone : ∀ b, EntryOk reach (fun t type => E b t type ∨ v.isAccess b t type)
          ((g.enterTuple v).addrTask b) := by
        intro b
        cases hvt : v.t with
        | none =>
            have : g.enterTuple v = g := by simp [enterTuple, hvt]
            rw [this]
            exact (hok b).congr fun t type => by simp [VirtualTuple.isAccess, hvt]
        | some t =>
            by_cases hskip : v.type = .INOUT_NONE ∨ v.addr = 0
            · have : g.enterTuple v = g := by simp [enterTuple, hvt, hskip]
              rw [this]
              refine (hok b).congr fun u ty => (or_iff_left ?_).symm
              rintro ⟨-, rfl, rfl, h0, hn⟩
              exact hskip.elim hn h0
            · obtain ⟨hn, h0⟩ := not_or.mp hskip
              simp only [enterTuple, hvt, if_neg hskip]
              by_cases hb : b = v.addr
              · subst hb
                rw [Function.update_self]
                have hv : v.isAccess v.addr t v.type := ⟨hvt, rfl, rfl, h0, hn⟩
                refine ((hok v.addr).enterAccess v.significance hn (hrefl t) ?_).congr ?_
                · intro u ty hu hw
                  exact hconf v List.mem_cons_self v.addr t v.type hv u ty (Or.inl hu) hw
                · intro u ty
                  simp only [VirtualTuple.isAccess, hvt, Option.some.injEq, true_and]
                  constructor
                  · rintro (hu | ⟨rfl, rfl⟩)
                    · exact Or.inl hu
                    · exact Or.inr ⟨rfl, rfl, h0, hn⟩
                  · rintro (hu | ⟨rfl, rfl, -⟩)
                    · exact Or.inl hu
                    · exact Or.inr ⟨rfl, rfl⟩
              · rw [Function.update_of_ne hb]
                refine (hok b).congr fun u ty => (or_iff_left ?_).symm
                rintro ⟨-, rfl, -⟩
                exact hb rfl
      refine (ih hone ?_).congr fun t type => ?_
      · intro w hw b t type hacc u ty hu hwr
        refine hconf w (List.mem_cons_of_mem _ hw) b t type hacc u ty ?_ hwr
        rcases hu with (hu | hu) | ⟨x, hx, hu⟩
        · exact Or.inl hu
        · exact Or.inr ⟨v, List.mem_cons_self, hu⟩
        · exact Or.inr ⟨x, List.mem_cons_of_mem _ hx, hu⟩
      · rw [List.exists_mem_cons_iff, or_assoc]

/-- The accesses that the tuples enter into the table. -/
def Entered (l : List VirtualTuple) (a : Addr) (t : TaskId) (type : InOut) : Prop :=
  ∃ v ∈ l, v.isAccess a t type

theorem RecordedTuples.entered {lo : TaskId} {ps : List (Nat × TaskSpec)} {k : Nat}
    {l : List VirtualTuple} (hrec : RecordedTuples lo ps k l) (a : Addr) (t : TaskId)
    (type : InOut) : Entered l a t type ↔ Accesses lo ps t k a type := by
  constructor
  · rintro ⟨v, hv, hvt, rfl, rfl, h0, hn⟩
    obtain ⟨u, hlo, spec, hspec, x, hx, rfl⟩ := (hrec v).mp hv
    have hut : u = t := by simpa [Access.tuple] using hvt
    subst hut
    exact ⟨hlo, h0, hn, spec, hspec, x, hx, rfl, rfl⟩
  · rintro ⟨hlo, h0, hn, spec, hspec, x, hx, rfl, rfl⟩
    exact ⟨x.tuple t, (hrec _).mpr ⟨t, hlo, spec, hspec, x, hx, rfl⟩, rfl, rfl, rfl, h0, hn⟩

/-- The accesses `E'` stand for the accesses `E`: they are reads only where `E` has a read,
and on both sides a task that writes is one that writes on the other. -/
structure Summary (E' E : Addr → TaskId → InOut → Prop) : Prop where
  read : ∀ a t, E' a t .IN → E a t .IN
  source : ∀ a t type, E' a t type → ∃ ty, E a t ty ∧ (type.writes = true → ty.writes = true)
  covers : ∀ a t type, E a t type → ∃ ty, E' a t ty ∧ (type.writes = true → ty.writes = true)

theorem Summary.refl (E : Addr → TaskId → InOut → Prop) : Summary E E where
  read := fun _ _ h => h
  source := fun _ _ type h => ⟨type, h, id⟩
  covers := fun _ _ type h => ⟨type, h, id⟩

theorem Summary.trans {E₁ E₂ E₃ : Addr → TaskId → InOut → Prop} (h : Summary E₁ E₂)
    (h' : Summary E₂ E₃) : Summary E₁ E₃ where
  read := fun a t ht => h'.read a t (h.read a t ht)
  source := fun a t type ht => by
    obtain ⟨ty, hty, hw⟩ := h.source a t type ht
    obtain ⟨ty', hty', hw'⟩ := h'.source a t ty hty
    exact ⟨ty', hty', fun hwr => hw' (hw hwr)⟩
  covers := fun a t type ht => by
    obtain ⟨ty, hty, hw⟩ := h'.covers a t type ht
    obtain ⟨ty', hty', hw'⟩ := h.covers a t ty hty
    exact ⟨ty', hty', fun hwr => hw' (hw hwr)⟩

/-- The same accesses beside both sides. -/
theorem Summary.or {E' E : Addr → TaskId → InOut → Prop} (h : Summary E' E)
    (F : Addr → TaskId → InOut → Prop) :
    Summary (fun a t type => F a t type ∨ E' a t type) fun a t type => F a t type ∨ E a t type where
  read := fun a t ht => ht.imp_right (h.read a t)
  source := fun a t type ht => by
    rcases ht with ht | ht
    · exact ⟨type, Or.inl ht, id⟩
    · obtain ⟨ty, hty, hw⟩ := h.source a t type ht
      exact ⟨ty, Or.inr hty, hw⟩
  covers := fun a t type ht => by
    rcases ht with ht | ht
    · exact ⟨type, Or.inl ht, id⟩
    · obtain ⟨ty, hty, hw⟩ := h.covers a t type ht
      exact ⟨ty, Or.inr hty, hw⟩

/-- An entry that is right for the accesses that stand for others is right for these. -/
theorem Summary.entryOk {reach : TaskId → TaskId → Prop} {E' E : Addr → TaskId → InOut → Prop}
    (hsum : Summary E' E) {a : Addr} {entry : Option RwTask} (h : EntryOk reach (E' a) entry) :
    EntryOk reach (E a) entry where
  none := fun he t type ht => by
    obtain ⟨ty, hty, -⟩ := hsum.covers a t type ht
    exact h.none he t ty hty
  reader := fun e he r hr => hsum.read a r.t (h.reader e he r hr)
  writer := fun e he w hw => by
    obtain ⟨type, htype, hwr⟩ := h.writer e he w hw
    obtain ⟨ty, hty, himp⟩ := hsum.source a w.t type htype
    exact ⟨ty, hty, himp hwr⟩
  covers_writer := fun e he t type ht hw => by
    obtain ⟨ty, hty, hwr⟩ := hsum.covers a t type ht
    exact h.covers_writer e he t ty hty (hwr hw)
  covers := fun e he t type ht => by
    obtain ⟨ty, hty, -⟩ := hsum.covers a t type ht
    exact h.covers e he t ty hty
  writer_first := h.writer_first

/-- A loop may enter any tuples that stand for the recorded ones. -/
theorem Dependence.endSplitWith {lo : TaskId} {ps : List (Nat × TaskSpec)} {k : Nat}
    {g : TaskDagGraph} (h : Dependence lo ps k g)
    (hrec : RecordedTuples lo ps k g.oneVirtualTaskTuples) (hfree : ConflictFree lo ps)
    {l : List VirtualTuple} (hbook : Book lo { g with oneVirtualTaskTuples := l })
    (hsum : Summary (Entered l) (Entered g.oneVirtualTaskTuples)) :
    Dependence lo ps (k + 1) ({ g with oneVirtualTaskTuples := l } : TaskDagGraph).endSplitTask := by
  have hsame := endSplitTask_eq { g with oneVirtualTaskTuples := l }
  have hheap := congrArg TaskDagGraph.heap hsame
  have hfresh := congrArg TaskDagGraph.fresh hsame
  have hedge : GraphEdge lo ({ g with oneVirtualTaskTuples := l } : TaskDagGraph).endSplitTask =
      GraphEdge lo g := by
    unfold GraphEdge
    rw [hheap, hfresh]
  refine ⟨hbook.endSplitTask, hfresh.trans h.fresh,
    fun p hp => (h.loop_le p hp).trans (Nat.le_succ k), ?_, ?_, ?_⟩
  · rw [hedge]; exact h.sound
  · rw [hedge]; exact h.complete
  · intro a
    rw [hedge]
    have hentered : EntryOk (ReflTransGen (GraphEdge lo g))
        (fun t type => AccessedBefore lo ps k a t type ∨ Entered l a t type)
        ((l.foldl enterTuple { g with oneVirtualTaskTuples := l }).addrTask a) := by
      refine @entryOk_enterTuples _ (fun _ => ReflTransGen.refl) _
        { g with oneVirtualTaskTuples := l } l h.table ?_ a
      intro v hv b t type hvt u ty hu hw
      obtain ⟨type₀, htype₀, hw₀⟩ := hsum.source b t type ⟨v, hv, hvt⟩
      have ht := (hrec.entered b t type₀).mp htype₀
      rcases hu with ⟨j, hj, hu⟩ | hu
      · exact (h.complete u t ⟨j, k, hj, b, ty, type₀, hu, ht,
          hw.symm.imp_right hw₀⟩).to_reflTransGen
      · -- two accesses of this loop: they are one task's
        obtain ⟨ty₀, hty₀, hw₁⟩ := hsum.source b u ty hu
        have hu := (hrec.entered b u ty₀).mp hty₀
        by_cases hut : u = t
        · rw [hut]
        · exact absurd ⟨b, ty₀, type₀, hu, ht, hw.symm.imp hw₁ hw₀⟩ (hfree k u t hut)
    refine ((hsum.or (AccessedBefore lo ps k)).entryOk hentered).congr ?_
    intro t type
    rw [hrec.entered]
    constructor
    · rintro (⟨j, hj, ht⟩ | ht)
      · exact ⟨j, by lia, ht⟩
      · exact ⟨k, Nat.lt_succ_self k, ht⟩
    · rintro ⟨j, hj, ht⟩
      by_cases hjk : j = k
      · exact Or.inr (hjk ▸ ht)
      · exact Or.inl ⟨j, by lia, ht⟩

theorem Dependence.endSplit {lo : TaskId} {ps : List (Nat × TaskSpec)} {k : Nat}
    {g : TaskDagGraph} (h : Dependence lo ps k g)
    (hrec : RecordedTuples lo ps k g.oneVirtualTaskTuples) (hfree : ConflictFree lo ps) :
    Dependence lo ps (k + 1) g.endSplitTask :=
  h.endSplitWith hrec hfree h.book (Summary.refl _)

/-! ## Every sequence of loops -/

theorem ConflictFree.of_append {lo : TaskId} {ps qs : List (Nat × TaskSpec)}
    (h : ConflictFree lo (ps ++ qs)) : ConflictFree lo ps := by
  have hmono : ∀ t k a type, Accesses lo ps t k a type → Accesses lo (ps ++ qs) t k a type := by
    rintro t k a type ⟨hlo, h0, hn, spec, hspec, hx⟩
    exact ⟨hlo, h0, hn, spec, by
      rw [List.getElem?_append_left (List.getElem?_eq_some_iff.mp hspec).1]; exact hspec, hx⟩
  rintro k t u hne ⟨a, type, type', ht, hu, hw⟩
  exact h k t u hne ⟨a, type, type', hmono _ _ _ _ ht, hmono _ _ _ _ hu, hw⟩

theorem registered_concat (loops : List Loop) (l : Loop) :
    registered (loops ++ [l]) =
      registered loops ++ l.tasks.map fun spec => (loops.length, spec) := by
  simp [registered, List.zipIdx_append]

theorem registered_lt (loops : List Loop) : ∀ p ∈ registered loops, p.1 < loops.length := by
  intro p hp
  simp only [registered, List.mem_flatMap, List.mem_map] at hp
  obtain ⟨⟨l, k⟩, hk, spec, -, rfl⟩ := hp
  exact (List.mem_zipIdx hk).2.1.trans_eq (Nat.zero_add _)

/-- Tasks are numbered loop by loop. -/
theorem registered_sorted (loops : List Loop) :
    (registered loops).Pairwise fun p q => p.1 ≤ q.1 := by
  induction loops using List.reverseRecOn with
  | nil => exact List.Pairwise.nil
  | append_singleton loops l ih =>
      rw [registered_concat, List.pairwise_append]
      refine ⟨ih, ?_, ?_⟩
      · rw [List.pairwise_map]
        exact List.pairwise_of_forall fun _ _ => Nat.le_refl _
      · intro p hp q hq
        obtain ⟨spec, -, rfl⟩ := List.mem_map.mp hq
        exact (registered_lt loops p hp).le

/-- The calls of a whole program of loops. -/
def loopCalls (loops : List Loop) : List BuildCall := loops.flatMap Loop.calls

theorem Dependence.registerAll {lo : TaskId} {ps : List (Nat × TaskSpec)} {k : Nat}
    {g : TaskDagGraph} (h : Dependence lo ps k g)
    (hrec : RecordedTuples lo ps k g.oneVirtualTaskTuples) (specs : List TaskSpec) :
    Dependence lo (ps ++ specs.map fun spec => (k, spec)) k (specs.foldl taskGenerator g) ∧
      RecordedTuples lo (ps ++ specs.map fun spec => (k, spec)) k
        (specs.foldl taskGenerator g).oneVirtualTaskTuples := by
  induction specs generalizing ps g with
  | nil => simpa using ⟨h, hrec⟩
  | cons spec specs ih =>
      have hone := hrec.append spec
      rw [← h.fresh, ← taskGenerator_tuples] at hone
      have := ih (h.register spec) hone
      rwa [List.append_assoc] at this

theorem Dependence.loops {g₀ : TaskDagGraph} (hg₀ : Blank g₀) (loops : List Loop)
    (hfree : ConflictFree g₀.fresh (registered loops)) :
    Dependence g₀.fresh (registered loops) loops.length (g₀.buildAll (loopCalls loops)) := by
  induction loops using List.reverseRecOn with
  | nil => exact Dependence.blank hg₀
  | append_singleton loops l ih =>
      rw [registered_concat] at hfree ⊢
      have hloops := ih hfree.of_append
      have hcalls : g₀.buildAll (loopCalls (loops ++ [l])) =
          ((l.tasks.foldl taskGenerator
            ((g₀.buildAll (loopCalls loops)).build l.beginCall))).endSplitTask := by
        simp only [loopCalls, List.flatMap_append, List.flatMap_cons, List.flatMap_nil,
          List.append_nil, Loop.calls, buildAll, List.foldl_append, List.foldl_cons,
          List.foldl_nil, List.foldl_map]
        rfl
      rw [hcalls, List.length_append, List.length_singleton]
      obtain ⟨hbegin, hrec⟩ := hloops.begin (registered_lt loops) l
      obtain ⟨hreg, hrec⟩ := hbegin.registerAll hrec l.tasks
      exact hreg.endSplit hrec hfree

/-- The edges of a program whose loops are free of conflicts are conflicts between loops,
and order all of them. -/
theorem dependence_exact {g₀ : TaskDagGraph} (hg₀ : Blank g₀) (loops : List Loop)
    (hfree : ConflictFree g₀.fresh (registered loops)) :
    let g := g₀.buildAll (loopCalls loops)
    let conflict := CrossConflict g₀.fresh (registered loops)
    (∀ t u, g₀.fresh ≤ t → t < g.fresh → u ∈ (g.heap t).outs → conflict t u) ∧
    (∀ t u, conflict t u → TransGen (GraphEdge g₀.fresh g) t u) ∧
    TransGen (GraphEdge g₀.fresh g) = TransGen conflict ∧
    ∀ t, ¬ TransGen (GraphEdge g₀.fresh g) t t := by
  have h := Dependence.loops hg₀ loops hfree
  refine ⟨?_, h.complete, ?_, ?_⟩
  · intro t u hlo hhi hmem
    have hu := h.book.edges.forward t hlo hhi u hmem
    exact h.sound t u ⟨Finset.mem_Ico.mpr ⟨hlo, hhi⟩, Finset.mem_Ico.mpr ⟨by lia, hu.2⟩, hmem⟩
  · ext t u
    constructor
    · exact TransGen.mono h.sound t u
    · exact TransGen.closed h.complete t u
  · intro t ht
    have hlt : ∀ u v, TransGen (GraphEdge g₀.fresh (g₀.buildAll (loopCalls loops))) u v →
        u < v := by
      intro u v huv
      have hone : ∀ x y, GraphEdge g₀.fresh (g₀.buildAll (loopCalls loops)) x y → x < y := by
        rintro x y ⟨hx, -, hmem⟩
        obtain ⟨hxlo, hxhi⟩ := Finset.mem_Ico.mp hx
        exact (h.book.edges.forward x hxlo hxhi y hmem).1
      induction huv with
      | single he => exact hone _ _ he
      | tail _ he ih => exact ih.trans (hone _ _ he)
    exact lt_irrefl t (hlt t t ht)

/-- Two readers of a shaded address, then a task that writes it and lists it twice. -/
theorem dependence_exact_init :
    let reader : TaskSpec := ⟨⟨true, 5⟩, fun _ _ => [], [⟨7, .SHADE, .IN, NEIGHBOR_NONE, .INOUT_NONE⟩]⟩
    let writer : TaskSpec := ⟨⟨true, 5⟩, fun _ a => [a],
      [⟨8, .NORMAL, .OUT, NEIGHBOR_NONE, .INOUT_NONE⟩, ⟨8, .NORMAL, .IN, 1, .INOUT⟩]⟩
    let loops : List Loop := [⟨none, [reader, reader]⟩, ⟨some 3, [writer]⟩]
    let g := (TaskDagGraph.init 4).buildAll (loopCalls loops)
    let conflict := CrossConflict 0 (registered loops)
    ConflictFree 0 (registered loops) ∧ (g.heap 1).outs = [2] ∧
      ((∀ t u, 0 ≤ t → t < g.fresh → u ∈ (g.heap t).outs → conflict t u) ∧
      (∀ t u, conflict t u → TransGen (GraphEdge 0 g) t u) ∧
      TransGen (GraphEdge 0 g) = TransGen conflict ∧
      ∀ t, ¬ TransGen (GraphEdge 0 g) t t) :=
  ⟨by decide, by decide, dependence_exact (blank_init 4) _ (by decide)⟩

end AceMesh
