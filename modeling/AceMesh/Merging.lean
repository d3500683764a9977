import AceMesh.Dependence
import Mathlib.Data.List.Sort
import Mathlib.Data.Prod.Lex

/-!
# Merging the accesses of one task to one address

The `MERGE_SAME_ADDR` build: `end_split_task` sorts the recorded tuples by address and task
and `unique_tuples` merges neighbours of equal key before the tuples are entered. A merged
tuple writes if one of the merged ones does, and reads only if one of them reads
(`Summary`); this is all an entry of the table has to say about the accesses behind it
(`EntryOk.merge`), so the merging build orders the same tasks as the plain one.
-/

namespace AceMesh

open TaskDagGraph Relation

namespace MergeSameAddr

/-! ## Sorting and merging -/

/-- Where the objects lie in memory. -/
structure Layout where
  address : TaskId → Nat
  injective : Function.Injective address
  ne_null : ∀ t, address t ≠ 0

/-- A `task*` as a number. -/
def Layout.pointer (layout : Layout) : Option TaskId → Nat
  | none => 0
  | some t => layout.address t

theorem Layout.pointer_injective (layout : Layout) : Function.Injective layout.pointer := by
  intro s t hst
  cases s with
  | none =>
      cases t with
      | none => rfl
      | some t => exact absurd hst.symm (layout.ne_null t)
  | some s =>
      cases t with
      | none => exact absurd hst (layout.ne_null s)
      | some t => exact congrArg some (layout.injective hst)

def cmpTuple (layout : Layout) (tuple1 tuple2 : VirtualTuple) : Bool :=
  if tuple1.addr < tuple2.addr then true
  else if tuple1.addr = tuple2.addr ∧ layout.pointer tuple1.t < layout.pointer tuple2.t then true
  else false

/-- The key by which the tuples are sorted. -/
def sortKey (layout : Layout) (v : VirtualTuple) : Nat ×ₗ Nat :=
  toLex (v.addr, layout.pointer v.t)

theorem cmpTuple_eq_false {layout : Layout} {v w : VirtualTuple} :
    cmpTuple layout w v = false ↔ sortKey layout v ≤ sortKey layout w := by
  unfold cmpTuple sortKey
  rw [Prod.Lex.toLex_le_toLex]
  dsimp only
  split
  · simp only [Bool.true_eq_false, false_iff]
    lia
  · split
    · simp only [Bool.true_eq_false, false_iff]
      lia
    · simp only [true_iff]
      lia

theorem sortKey_inj {layout : Layout} {v w : VirtualTuple} :
    sortKey layout v = sortKey layout w ↔ v.addr = w.addr ∧ v.t = w.t := by
  unfold sortKey
  rw [toLex_inj, Prod.mk.injEq]
  exact and_congr_right fun _ => layout.pointer_injective.eq_iff

/-- What `std::sort` may do with the tuples: any permutation that `cmp_tuple` finds in
order, whatever it makes of equal keys. -/
structure StdSort (layout : Layout) where
  sort : List VirtualTuple → List VirtualTuple
  perm : ∀ l, (sort l).Perm l
  ordered : ∀ l, (sort l).Pairwise fun v w => cmpTuple layout w v = false

def typeAdd (type1 type2 : InOut) : InOut :=
  if type1 = .INOUT ∨ type2 = .INOUT then .INOUT
  else if type1 = .OUT ∨ type2 = .OUT then
    if (type1 = .IN ∧ type2 = .OUT) ∨ (type1 = .OUT ∧ type2 = .IN) then .INOUT else .OUT
  else if type1 = .IN ∨ type2 = .IN then .IN
  else .INOUT_NONE

def significanceAdd (significance1 significance2 : Bool) : Bool := significance1 && significance2

/-- The loops of `unique_tuples`, with `tmp` at `tmp_itr` and the list from `itr` on. A tuple
that is merged into its neighbour stays in the list with both pointers cleared. -/
def uniqueFrom (tmp : VirtualTuple) : List VirtualTuple → List VirtualTuple
  | [] => [tmp]
  | itr :: rest =>
    if itr.addr ≠ tmp.addr ∨ itr.t ≠ tmp.t then tmp :: uniqueFrom itr rest
    else
      { tmp with addr := 0, t := none } ::
        uniqueFrom { itr with
          type := typeAdd itr.type tmp.type
          significance := significanceAdd itr.significance tmp.significance } rest

def uniqueTuples : List VirtualTuple → List VirtualTuple
  | [] => []
  | tmp :: rest => uniqueFrom tmp rest

def endSplitTask {layout : Layout} (s : StdSort layout) (g : TaskDagGraph) : TaskDagGraph :=
  { g with oneVirtualTaskTuples := uniqueTuples (s.sort g.oneVirtualTaskTuples) }.endSplitTask

/-- One loop of the program, with what the sort at its end does. -/
def buildLoop {layout : Layout} (g : TaskDagGraph) (l : Loop × StdSort layout) : TaskDagGraph :=
  endSplitTask l.2 (l.1.tasks.foldl taskGenerator (g.build l.1.beginCall))

def buildLoops {layout : Layout} (g : TaskDagGraph) (loops : List (Loop × StdSort layout)) :
    TaskDagGraph := loops.foldl buildLoop g

/-! ## What merging keeps -/

theorem entered_cons (v : VirtualTuple) (l : List VirtualTuple) :
    Entered (v :: l) = fun a t type => v.isAccess a t type ∨ Entered l a t type := by
  ext a t type
  exact List.exists_mem_cons_iff _ v l

/-- Two types merge into one that writes if one of them does, and reads only if one reads. -/
theorem typeAdd_spec (type1 type2 : InOut) :
    (typeAdd type1 type2 = .IN → type1 = .IN ∨ type2 = .IN) ∧
    ((typeAdd type1 type2).writes = true ↔ type1.writes = true ∨ type2.writes = true) ∧
    (typeAdd type1 type2 = .INOUT_NONE ↔ type1 = .INOUT_NONE ∧ type2 = .INOUT_NONE) := by
  cases type1 <;> cases type2 <;> decide

/-- One merge of two neighbours. -/
theorem summary_merge {tmp itr : VirtualTuple} (haddr : itr.addr = tmp.addr) (ht : itr.t = tmp.t)
    (significance : Bool) (rest : List VirtualTuple) :
    Summary (Entered ({ itr with
      type := typeAdd itr.type tmp.type, significance := significance } :: rest))
      (Entered (tmp :: itr :: rest)) := by
  obtain ⟨hread, hwrite, hnone⟩ := typeAdd_spec itr.type tmp.type
  rw [entered_cons, entered_cons tmp, entered_cons itr]
  constructor
  · intro a t h
    rcases h with ⟨hvt, hva, hvty, h0, hn⟩ | h
    · rcases hread hvty with hin | hin
      · exact Or.inr (Or.inl ⟨hvt, hva, hin, h0, hn⟩)
      · exact Or.inl ⟨ht ▸ hvt, haddr ▸ hva, hin, h0, hn⟩
    · exact Or.inr (Or.inr h)
  · intro a t type h
    rcases h with ⟨hvt, hva, rfl, h0, hn⟩ | h
    · have hitr : itr.type ≠ .INOUT_NONE →
          itr.isAccess a t itr.type := fun hno => ⟨hvt, hva, rfl, h0, hno⟩
      have htmp : tmp.type ≠ .INOUT_NONE →
          tmp.isAccess a t tmp.type := fun hno => ⟨ht ▸ hvt, haddr ▸ hva, rfl, h0, hno⟩
      by_cases hw : tmp.type.writes = true
      · have hno : tmp.type ≠ .INOUT_NONE := fun hno => by simp [hno, InOut.writes] at hw
        exact ⟨_, Or.inl (htmp hno), fun _ => hw⟩
      · by_cases hno : itr.type = .INOUT_NONE
        · have hno' : tmp.type ≠ .INOUT_NONE := fun hno' => hn (hnone.mpr ⟨hno, hno'⟩)
          refine ⟨_, Or.inl (htmp hno'), fun hwr => (hwrite.mp hwr).resolve_left ?_⟩
          simp [hno, InOut.writes]
        · exact ⟨_, Or.inr (Or.inl (hitr hno)), fun hwr => (hwrite.mp hwr).resolve_right hw⟩
    · exact ⟨type, Or.inr (Or.inr h), id⟩
  · intro a t type h
    rcases h with ⟨hvt, hva, rfl, h0, hn⟩ | ⟨hvt, hva, rfl, h0, hn⟩ | h
    · refine ⟨_, Or.inl ⟨ht.trans hvt, haddr.trans hva, rfl, h0, fun hno => hn (hnone.mp hno).2⟩,
        fun hw => hwrite.mpr (Or.inr hw)⟩
    · refine ⟨_, Or.inl ⟨hvt, hva, rfl, h0, fun hno => hn (hnone.mp hno).1⟩,
        fun hw => hwrite.mpr (Or.inl hw)⟩
    · exact ⟨type, Or.inr h, id⟩

theorem uniqueFrom_summary (tmp : VirtualTuple) (l : List VirtualTuple) :
    Summary (Entered (uniqueFrom tmp l)) (Entered (tmp :: l)) := by
  induction l generalizing tmp with
  | nil => exact Summary.refl _
  | cons itr rest ih =>
      unfold uniqueFrom
      by_cases hkey : itr.addr ≠ tmp.addr ∨ itr.t ≠ tmp.t
      · rw [if_pos hkey, entered_cons, entered_cons tmp]
        exact (ih itr).or _
      · obtain ⟨haddr, ht⟩ := not_or.mp hkey
        have hmerge := summary_merge (not_not.mp haddr) (not_not.mp ht)
          (significanceAdd itr.significance tmp.significance) rest
        -- a cleared tuple is no access
        have hcleared : ∀ a t type,
            ¬ ({ tmp with addr := 0, t := none } : VirtualTuple).isAccess a t type :=
          fun a t type h => by cases h.1
        rw [if_neg hkey, entered_cons]
        simp only [hcleared, false_or]
        exact (ih _).trans hmerge

theorem uniqueTuples_summary (l : List VirtualTuple) :
    Summary (Entered (uniqueTuples l)) (Entered l) := by
  cases l with
  | nil => exact Summary.refl _
  | cons tmp rest => exact uniqueFrom_summary tmp rest

/-! ## What a merging loop leaves -/

/-- A tuple that is left has the address and task of a recorded one. -/
theorem uniqueFrom_key {tmp v : VirtualTuple} {l : List VirtualTuple} (hv : v ∈ uniqueFrom tmp l)
    (ht : v.t ≠ none) : ∃ w ∈ tmp :: l, w.addr = v.addr ∧ w.t = v.t := by
  induction l generalizing tmp with
  | nil => exact ⟨v, hv, rfl, rfl⟩
  | cons itr rest ih =>
      unfold uniqueFrom at hv
      split at hv
      · rcases List.mem_cons.mp hv with rfl | hv
        · exact ⟨v, List.mem_cons_self, rfl, rfl⟩
        · obtain ⟨w, hw, hkey⟩ := ih hv
          exact ⟨w, List.mem_cons_of_mem _ hw, hkey⟩
      · rcases List.mem_cons.mp hv with rfl | hv
        · exact absurd rfl ht
        · obtain ⟨w, hw, hkey⟩ := ih hv
          rcases List.mem_cons.mp hw with rfl | hw
          · exact ⟨itr, List.mem_cons_of_mem _ List.mem_cons_self, hkey⟩
          · exact ⟨w, List.mem_cons_of_mem _ (List.mem_cons_of_mem _ hw), hkey⟩

theorem uniqueTuples_key {v : VirtualTuple} {l : List VirtualTuple} (hv : v ∈ uniqueTuples l)
    (ht : v.t ≠ none) : ∃ w ∈ l, w.addr = v.addr ∧ w.t = v.t := by
  cases l with
  | nil => cases hv
  | cons tmp rest => exact uniqueFrom_key hv ht

variable {layout : Layout}

theorem mergedTuples_book {lo : TaskId} {g : TaskDagGraph} (hb : Book lo g)
    (s : StdSort layout) :
    Book lo { g with oneVirtualTaskTuples := uniqueTuples (s.sort g.oneVirtualTaskTuples) } := by
  refine { hb with tuples := ?_ }
  intro v hv t ht
  obtain ⟨w, hw, -, hwt⟩ := uniqueTuples_key hv (by simp [ht])
  exact hb.tuples w ((s.perm _).mem_iff.mp hw) t (hwt.trans ht)

/-- The accesses entered at the end of a merging loop stand for the recorded ones. -/
theorem sorted_summary (s : StdSort layout) (l : List VirtualTuple) :
    Summary (Entered (uniqueTuples (s.sort l))) (Entered l) := by
  have hperm : Entered (s.sort l) = Entered l := by
    ext a t type
    exact exists_congr fun v => and_congr_left fun _ => (s.perm l).mem_iff
  exact hperm ▸ uniqueTuples_summary (s.sort l)

/-- After sorting, merging leaves one tuple for each address and task. -/
def OneEach (v w : VirtualTuple) : Prop := v.t ≠ none → ¬ (v.addr = w.addr ∧ v.t = w.t)

theorem uniqueFrom_oneEach {tmp : VirtualTuple} {l : List VirtualTuple}
    (hsorted : (tmp :: l).Pairwise fun v w => sortKey layout v ≤ sortKey layout w) :
    (uniqueFrom tmp l).Pairwise OneEach := by
  induction l generalizing tmp with
  | nil => exact List.pairwise_singleton _ _
  | cons itr rest ih =>
      obtain ⟨hfirst, hrest⟩ := List.pairwise_cons.mp hsorted
      unfold uniqueFrom
      split
      · rename_i hkey
        refine List.pairwise_cons.mpr ⟨?_, ih hrest⟩
        rintro v hv ht ⟨haddr, htask⟩
        obtain ⟨w, hw, hwkey⟩ := uniqueFrom_key hv (htask ▸ ht)
        -- the keys of the rest lie above that of `tmp`
        have hle : sortKey layout itr ≤ sortKey layout w := by
          rcases List.mem_cons.mp hw with rfl | hw
          · exact le_refl _
          · exact (List.pairwise_cons.mp hrest).1 w hw
        have hsame : sortKey layout w = sortKey layout tmp :=
          sortKey_inj.mpr ⟨hwkey.1.trans haddr.symm, hwkey.2.trans htask.symm⟩
        have heq : sortKey layout itr = sortKey layout tmp :=
          le_antisymm (hsame ▸ hle) (hfirst itr List.mem_cons_self)
        obtain ⟨ha, ht'⟩ := sortKey_inj.mp heq
        exact hkey.elim (fun hne => hne ha) fun hne => hne ht'
      · refine List.pairwise_cons.mpr ⟨fun v _ ht => absurd rfl ht, ih ?_⟩
        exact List.pairwise_cons.mpr (List.pairwise_cons.mp hrest)

theorem uniqueTuples_oneEach (s : StdSort layout) (l : List VirtualTuple) :
    (uniqueTuples (s.sort l)).Pairwise OneEach := by
  have hsorted := (s.ordered l).imp (fun h => cmpTuple_eq_false.mp h)
  cases hl : s.sort l with
  | nil => exact List.Pairwise.nil
  | cons tmp rest => exact @uniqueFrom_oneEach layout tmp rest (hl ▸ hsorted)

/-! ## Every sequence of loops -/

theorem dependence_loops {g₀ : TaskDagGraph} (hg₀ : Blank g₀)
    (loops : List (Loop × StdSort layout))
    (hfree : ConflictFree g₀.fresh (registered (loops.map Prod.fst))) :
    Dependence g₀.fresh (registered (loops.map Prod.fst)) loops.length (buildLoops g₀ loops) := by
  induction loops using List.reverseRecOn with
  | nil => exact Dependence.blank hg₀
  | append_singleton loops l ih =>
      rw [List.map_append, List.map_singleton, registered_concat, List.length_map] at hfree ⊢
      have hloops := ih hfree.of_append
      rw [buildLoops, List.foldl_append, List.length_append, List.length_singleton]
      have hlt := registered_lt (loops.map Prod.fst)
      rw [List.length_map] at hlt
      obtain ⟨hbegin, hrec⟩ := hloops.begin hlt l.1
      obtain ⟨hreg, hrec⟩ := hbegin.registerAll hrec l.1.tasks
      exact hreg.endSplitWith hrec hfree (mergedTuples_book hreg.book l.2)
        (sorted_summary l.2 _)

end MergeSameAddr

/-- Two graphs of the same program order the same tasks. -/
structure SameOrder (lo : TaskId) (g g' : TaskDagGraph) : Prop where
  fresh : g'.fresh = g.fresh
  reach : TransGen (GraphEdge lo g') = TransGen (GraphEdge lo g)
  roots : ∀ t, t ∈ g'.needSpawnTasks ↔ t ∈ g.needSpawnTasks
  ends : ∀ t, t ∈ g'.endTasks ↔ t ∈ g.endTasks

theorem Dependence.reach {lo : TaskId} {ps : List (Nat × TaskSpec)} {k : Nat} {g : TaskDagGraph}
    (h : Dependence lo ps k g) : TransGen (GraphEdge lo g) = TransGen (CrossConflict lo ps) := by
  ext t u
  constructor
  · exact TransGen.mono h.sound t u
  · exact TransGen.closed h.complete t u

theorem Book.mem_roots_iff {lo : TaskId} {g : TaskDagGraph} (hb : Book lo g) (t : TaskId) :
    t ∈ g.needSpawnTasks ↔ (lo ≤ t ∧ t < g.fresh) ∧ ∀ u, ¬ TransGen (GraphEdge lo g) u t := by
  rw [hb.mem_roots]
  refine and_congr_right fun ht => ?_
  constructor
  · intro hno u hut
    obtain ⟨v, -, hv, -, hmem⟩ := TransGen.tail'_iff.mp hut
    have hv := Finset.mem_Ico.mp hv
    exact hno v hv.1 hv.2 hmem
  · intro hno u hlo hhi hmem
    exact hno u (TransGen.single
      ⟨Finset.mem_Ico.mpr ⟨hlo, hhi⟩, Finset.mem_Ico.mpr ht, hmem⟩)

theorem Book.mem_ends_iff {lo : TaskId} {g : TaskDagGraph} (hb : Book lo g) (t : TaskId) :
    t ∈ g.endTasks ↔ (lo ≤ t ∧ t < g.fresh) ∧ ∀ u, ¬ TransGen (GraphEdge lo g) t u := by
  rw [hb.edges.mem_ends]
  refine and_congr_right fun ht => ?_
  constructor
  · intro hnil u htu
    obtain ⟨v, ⟨-, -, hmem⟩, -⟩ := TransGen.head'_iff.mp htu
    change v ∈ (g.heap t).outs at hmem
    simp [hnil] at hmem
  · intro hno
    rw [List.eq_nil_iff_forall_not_mem]
    intro u hu
    have hfwd := hb.edges.forward t ht.1 ht.2 u hu
    have hmem : u ∈ Finset.Ico lo g.fresh := Finset.mem_Ico.mpr ⟨by lia, hfwd.2⟩
    exact hno u (TransGen.single ⟨Finset.mem_Ico.mpr ht, hmem, hu⟩)

/-- Roots and end tasks can be read off the order. -/
theorem SameOrder.of_reach {lo : TaskId} {g g' : TaskDagGraph} (hb : Book lo g)
    (hb' : Book lo g') (hfresh : g'.fresh = g.fresh)
    (hreach : TransGen (GraphEdge lo g') = TransGen (GraphEdge lo g)) : SameOrder lo g g' where
  fresh := hfresh
  reach := hreach
  roots := fun t => by rw [hb'.mem_roots_iff, hb.mem_roots_iff, hfresh, hreach]
  ends := fun t => by rw [hb'.mem_ends_iff, hb.mem_ends_iff, hfresh, hreach]

/-- Wherever the objects lie and whatever the sorts do with equal keys, the merging build
orders the tasks of every conflict-free program as the plain build does. -/
theorem merging_same_order {g₀ : TaskDagGraph} (hg₀ : Blank g₀) {layout : MergeSameAddr.Layout}
    (loops : List (Loop × MergeSameAddr.StdSort layout))
    (hfree : ConflictFree g₀.fresh (registered (loops.map Prod.fst))) :
    SameOrder g₀.fresh (g₀.buildAll (loopCalls (loops.map Prod.fst)))
      (MergeSameAddr.buildLoops g₀ loops) := by
  have hplain := Dependence.loops hg₀ _ hfree
  have hmerged := MergeSameAddr.dependence_loops hg₀ loops hfree
  exact SameOrder.of_reach hplain.book hmerged.book (hmerged.fresh.trans hplain.fresh.symm)
    (hmerged.reach.trans hplain.reach.symm)

namespace MergeSameAddr.Example

/-- Objects one after the other in memory. -/
def layout : Layout where
  address := fun t => 16 * (t + 1)
  injective := fun s t hst => by dsimp only at hst; lia
  ne_null := fun t => by lia

/-- Insertion sort, which is stable. -/
def insertionSort : StdSort layout where
  sort := List.insertionSort fun v w => cmpTuple layout w v = false
  perm := List.perm_insertionSort _
  ordered := fun l => by
    have htotal : Std.Total fun v w => cmpTuple layout w v = false :=
      ⟨fun v w => by
        simp only [cmpTuple_eq_false]
        exact le_total _ _⟩
    have htrans : IsTrans VirtualTuple fun v w => cmpTuple layout w v = false :=
      ⟨fun u v w huv hvw => cmpTuple_eq_false.mpr
        ((cmpTuple_eq_false.mp huv).trans (cmpTuple_eq_false.mp hvw))⟩
    exact List.pairwise_insertionSort _ l

/-- A task that writes an address and lists it as read too, then one that reads it, then
one that writes it. -/
def loops : List (Loop × StdSort layout) :=
  let a : AddrTuple := ⟨8, .NORMAL, .OUT, NEIGHBOR_NONE, .INOUT_NONE⟩
  let task (l : List InOut) : TaskSpec :=
    ⟨⟨false, 0⟩, fun _ _ => [], l.map fun type => { a with type := type }⟩
  [(⟨none, [task [.OUT, .IN]]⟩, insertionSort), (⟨none, [task [.IN]]⟩, insertionSort),
    (⟨none, [task [.OUT]]⟩, insertionSort)]

end MergeSameAddr.Example

/-- The plain build makes one edge more than the merging one. -/
theorem merging_same_order_example :
    let loops := MergeSameAddr.Example.loops
    let plain := (TaskDagGraph.init 4).buildAll (loopCalls (loops.map Prod.fst))
    let merged := MergeSameAddr.buildLoops (TaskDagGraph.init 4) loops
    (plain.heap 0).outs = [2, 1] ∧ (merged.heap 0).outs = [1] ∧ SameOrder 0 plain merged :=
  ⟨by decide, by decide, merging_same_order (blank_init 4) _ (by decide)⟩

end AceMesh
