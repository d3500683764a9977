import AceMesh.DebugGraph
import AceMesh.GetLoopInfo

/-!
# `loop_dependence.info` is read as it was written

What a program with the `DEBUG_GRAPH` build writes to the file, `get_loop_info.py` takes apart
again: for every graph that was built, in this order, it finds the loops with their names, the
tasks with their successors and the loops that depend on each other
(`loop_dependence_round_trip`); a graph that was not printed leaves an empty one.

The two numbers of a task name it within its graph (`Numbered`): the loops are counted until a
graph is printed, the tasks within their loop.
-/

open AceMesh.TaskDagGraph PyText

namespace AceMesh.GraphCheck

open GetLoopInfo

/-! ## What a check writes -/

/-- The same tasks in the output. -/
def SameIds (debug debug' : TaskId → DebugFields) : Prop :=
  ∀ t, (debug' t).isJoint = (debug t).isJoint ∧ (debug' t).loopId = (debug t).loopId ∧
    (debug' t).taskId = (debug t).taskId

theorem SameIds.refl (debug : TaskId → DebugFields) : SameIds debug debug :=
  fun _ => ⟨rfl, rfl, rfl⟩

theorem SameIds.trans {debug₁ debug₂ debug₃ : TaskId → DebugFields} (h : SameIds debug₁ debug₂)
    (h' : SameIds debug₂ debug₃) : SameIds debug₁ debug₃ := fun t =>
  ⟨(h' t).1.trans (h t).1, (h' t).2.1.trans (h t).2.1, (h' t).2.2.trans (h t).2.2⟩

theorem SameIds.lineText {debug debug' : TaskId → DebugFields} (h : SameIds debug debug')
    (heap : Heap) (t : TaskId) : lineText heap debug' t = GraphCheck.lineText heap debug t := by
  have hid : ∀ s s' : String, idText debug' s s' = idText debug s s' := by
    intro s s'
    ext1 u
    unfold idText
    rw [(h u).2.1, (h u).2.2]
  have hjoint : ∀ u, (debug' u).isJoint = (debug u).isJoint := fun u => (h u).1
  unfold GraphCheck.lineText
  simp only [hid, hjoint]

section Checks

variable {heap : Heap} {s s' : Check} {t : TaskId}

theorem sameIds_setRefCountForCheck (s : Check) (t : TaskId) (value : Int) :
    SameIds s.debug (s.setRefCountForCheck t value).debug := by
  intro u
  by_cases hu : u = t
  · subst hu
    simp [Check.setRefCountForCheck]
  · rw [setRefCountForCheck_of_ne hu]
    exact ⟨rfl, rfl, rfl⟩

/-- What the search leaves alone while it walks edges. -/
structure Walks (s s' : Check) : Prop where
  ids : SameIds s.debug s'.debug
  out : s'.out = s.out
  visited : s'.visited = s.visited

theorem Walks.trans {s'' : Check} (h : Walks s s') (h' : Walks s' s'') : Walks s s'' :=
  ⟨h.ids.trans h'.ids, h'.out.trans h.out, h'.visited.trans h.visited⟩

theorem walks_dec (s : Check) (t : TaskId) : Walks s (s.dec t) := by
  have hids := sameIds_setRefCountForCheck s t ((s.debug t).refCountForCheck - 1)
  unfold Check.dec
  dsimp only
  split
  · exact ⟨hids, rfl, rfl⟩
  · exact ⟨hids, rfl, rfl⟩

theorem walks_touch (h : touch heap s t = .ok s') : Walks s s' := by
  unfold touch at h
  split at h
  · obtain rfl := Except.ok.inj h
    have hset : Walks s (s.setRefCountForCheck t (heap t).refCount) :=
      ⟨sameIds_setRefCountForCheck s t _, rfl, rfl⟩
    exact hset.trans (walks_dec _ t)
  · split at h
    · obtain rfl := Except.ok.inj h
      exact walks_dec s t
    · cases h

theorem walks_touchAll {l : List TaskId} (h : l.foldlM (touch heap) s = .ok s') : Walks s s' := by
  induction l generalizing s with
  | nil =>
      obtain rfl := Except.ok.inj h
      exact ⟨SameIds.refl _, rfl, rfl⟩
  | cons t l ih =>
      rw [List.foldlM_cons] at h
      cases htouch : touch heap s t with
      | error e =>
          rw [htouch] at h
          cases h
      | ok s₁ =>
          rw [htouch] at h
          exact (walks_touch htouch).trans (ih h)

/-- The lines of some tasks, if the graph is printed. -/
def linesText (heap : Heap) (debug : TaskId → DebugFields) (printInfo : Bool)
    (ts : List TaskId) : String :=
  if printInfo then String.join (ts.map (lineText heap debug)) else ""

theorem linesText_cons (debug : TaskId → DebugFields) (printInfo : Bool) (ts : List TaskId) :
    linesText heap debug printInfo (t :: ts) =
      (if printInfo then lineText heap debug t else "") ++ linesText heap debug printInfo ts := by
  unfold linesText
  split
  · rw [List.map_cons, String.join_cons]
  · rfl

theorem SameIds.linesText {debug debug' : TaskId → DebugFields} (h : SameIds debug debug')
    (printInfo : Bool) (ts : List TaskId) :
    linesText heap debug' printInfo ts = GraphCheck.linesText heap debug printInfo ts := by
  have hmap : ts.map (GraphCheck.lineText heap debug') = ts.map (GraphCheck.lineText heap debug) :=
    List.map_congr_left fun t _ => h.lineText heap t
  unfold GraphCheck.linesText
  rw [hmap]

/-- One turn writes the line of its task. -/
theorem visit_out {printInfo : Bool} (h : visit heap printInfo t s = .ok s') :
    SameIds s.debug s'.debug ∧ s'.visited = s.visited ++ [t] ∧
      s'.out = s.out ++ if printInfo then lineText heap s.debug t else "" := by
  unfold visit at h
  cases hall : (checkOuts (heap t)).foldlM (touch heap) s with
  | error e =>
      rw [hall] at h
      cases h
  | ok s₁ =>
      rw [hall] at h
      obtain rfl := Except.ok.inj h
      have hwalks := walks_touchAll hall
      refine ⟨hwalks.ids.trans (sameIds_setRefCountForCheck s₁ t (-1)), ?_, ?_⟩
      · exact congrArg (· ++ [t]) hwalks.visited
      · show (if printInfo then s₁.out ++ lineText heap s₁.debug t else s₁.out) = _
        rw [hwalks.out, hwalks.ids.lineText]
        split
        · rfl
        · exact (String.append_empty).symm

theorem loop_out {printInfo : Bool} {n : Nat} {r : Bool}
    (h : loop heap printInfo n s = .ok (r, s')) :
    ∃ ts, s'.visited = s.visited ++ ts ∧
      s'.out = s.out ++ linesText heap s.debug printInfo ts ++ "#\n" := by
  induction n generalizing s with
  | zero =>
      obtain ⟨-, rfl⟩ := Prod.mk.inj (Except.ok.inj h)
      refine ⟨[], (List.append_nil _).symm, ?_⟩
      have hnone : linesText heap s.debug printInfo [] = "" := by
        unfold linesText
        split <;> rfl
      rw [hnone, String.append_empty]
  | succ n ih =>
      unfold loop at h
      split at h
      · cases h
      · next tmp q hq =>
          cases hvisit : visit heap printInfo tmp s with
          | error e =>
              rw [hvisit] at h
              cases h
          | ok s₁ =>
              rw [hvisit] at h
              obtain ⟨hids, hvisited, hout⟩ := visit_out hvisit
              obtain ⟨ts, hvisited', hout'⟩ := ih h
              refine ⟨tmp :: ts, ?_, ?_⟩
              · rw [hvisited', hvisited, List.append_assoc, List.singleton_append]
              · rw [hout', hout, hids.linesText, linesText_cons]
                simp only [String.append_assoc]

/-- A check writes the lines of the tasks that it visits. -/
theorem checkGraphBfs_out {debug : TaskId → DebugFields} {startTasks : List TaskId}
    {taskNums : Nat} {printInfo r : Bool}
    (h : checkGraphBfs heap debug startTasks taskNums printInfo = .ok (r, s)) :
    s.out = linesText heap debug printInfo s.visited ++ "#\n" := by
  have hpush : ∀ (l : List TaskId) (s : Check), SameIds s.debug (l.foldl (Check.push heap) s).debug ∧
      (l.foldl (Check.push heap) s).out = s.out := by
    intro l
    induction l with
    | nil => exact fun s => ⟨SameIds.refl _, rfl⟩
    | cons t l ih =>
        intro s
        obtain ⟨hids, hout⟩ := ih (s.push heap t)
        exact ⟨(sameIds_setRefCountForCheck s t _).trans hids, hout⟩
  unfold checkGraphBfs at h
  split at h
  · obtain ⟨-, rfl⟩ := Prod.mk.inj (Except.ok.inj h)
    have hnone : linesText heap debug printInfo [] = "" := by
      unfold linesText
      split <;> rfl
    rw [hnone]
    rfl
  · obtain ⟨hids, hout⟩ := hpush startTasks ⟨debug, [], "", []⟩
    have hvisited := (@push_fold heap ⟨debug, [], "", []⟩ startTasks).2.1
    obtain ⟨ts, hvisited', hout'⟩ := loop_out h
    rw [hvisited, List.nil_append] at hvisited'
    rw [hout', hout, hids.linesText, hvisited', String.empty_append]

end Checks

/-! ## The parts of the file -/

/-- The line of a task. -/
structure Entry where
  loopId : Nat
  taskId : Nat
  successors : Successors

/-- What is written for a graph: the table of loops and the tasks. -/
structure Section where
  loopInfos : List String
  entries : List Entry

namespace Section

def nodeLines (loopInfos : List String) : List (List Char) :=
  (loopInfos.zipIdx 1).map fun p => num p.2 ++ ':' :: p.1.toList

def fileLines (s : Section) : List (List Char) :=
  nodeLines s.loopInfos ++ s.entries.map (fun e => edgeLine e.loopId e.taskId e.successors) ++
    [['#']]

def table (loopInfos : List String) : Graph :=
  (loopInfos.zipIdx 1).foldl (fun g p => g.insertNode (p.2 : Nat) (nameOf p.1.toList)) Graph.empty

/-- The graph that is read. -/
def graph (s : Section) : Graph :=
  s.entries.foldl (fun g e => g.insertEdge e.loopId e.taskId (readIds e.successors))
    (table s.loopInfos)

/-- A loop of the table. -/
def InTable (loopInfos : List String) (i : Int) : Prop :=
  ∃ n name, loopInfos[n]? = some name ∧ i = ((n + 1 : Nat) : Int)

/-- The numbers of the entries are different, and of loops in the table. -/
structure WellFormed (s : Section) : Prop where
  inTable : ∀ e ∈ s.entries, InTable s.loopInfos e.loopId
  distinct : (s.entries.map fun e => (e.loopId, e.taskId)).Nodup
  names : ∀ name ∈ s.loopInfos, '\n' ∉ name.toList

end Section

section Reading

open Section

theorem table_concat (loopInfos : List String) (name : String) :
    table (loopInfos ++ [name]) =
      (table loopInfos).insertNode ((loopInfos.length + 1 : Nat) : Int) (nameOf name.toList) := by
  unfold table
  rw [List.zipIdx_append, List.foldl_append, Nat.add_comm 1]
  rfl

theorem getElem?_concat_eq_some {loopInfos : List String} {name name' : String} {n : Nat} :
    (loopInfos ++ [name])[n]? = some name' ↔
      loopInfos[n]? = some name' ∨ n = loopInfos.length ∧ name' = name := by
  obtain hlt | rfl | hlt := Nat.lt_trichotomy n loopInfos.length
  · rw [List.getElem?_append_left hlt]
    simp [Nat.ne_of_lt hlt]
  · simp [eq_comm]
  · rw [List.getElem?_eq_none (by simpa using Nat.succ_le_of_lt hlt),
      List.getElem?_eq_none (Nat.le_of_lt hlt)]
    simp [Nat.ne_of_gt hlt]

/-- The table of loops. -/
theorem table_spec (loopInfos : List String) :
    (∀ i x, (table loopInfos).loopNodeDict i = some x ↔
      ∃ n name, loopInfos[n]? = some name ∧ i = ((n + 1 : Nat) : Int) ∧ x = nameOf name.toList) ∧
    (∀ i e, (table loopInfos).edgeDict i = some e ↔ InTable loopInfos i ∧ e = fun _ => none) ∧
    ∀ i l, (table loopInfos).loopDep i = some l ↔ InTable loopInfos i ∧ l = [] := by
  induction loopInfos using List.reverseRecOn with
  | nil => simp [table, Graph.empty, InTable]
  | append_singleton loopInfos name ih =>
      obtain ⟨hnode, hedge, hdep⟩ := ih
      rw [table_concat]
      unfold Graph.insertNode
      have hin : ∀ i : Int, InTable (loopInfos ++ [name]) i ↔
          i = ((loopInfos.length + 1 : Nat) : Int) ∨ InTable loopInfos i := by
        intro i
        unfold InTable
        simp only [getElem?_concat_eq_some]
        constructor
        · rintro ⟨n, name', h | ⟨rfl, -⟩, rfl⟩
          · exact Or.inr ⟨n, name', h, rfl⟩
          · exact Or.inl rfl
        · rintro (rfl | ⟨n, name', h, rfl⟩)
          · exact ⟨loopInfos.length, name, Or.inr ⟨rfl, rfl⟩, rfl⟩
          · exact ⟨n, name', Or.inl h, rfl⟩
      have hnot : ¬InTable loopInfos ((loopInfos.length + 1 : Nat) : Int) := by
        rintro ⟨n, name', h, hn⟩
        have hlt := (List.getElem?_eq_some_iff.mp h).1
        omega
      refine ⟨fun i x => ?_, fun i e => ?_, fun i l => ?_⟩
      · dsimp only
        by_cases hi : i = ((loopInfos.length + 1 : Nat) : Int)
        · subst hi
          rw [Function.update_self]
          constructor
          · intro h
            exact ⟨loopInfos.length, name, getElem?_concat_eq_some.mpr (Or.inr ⟨rfl, rfl⟩), rfl,
              (Option.some_inj.mp h).symm⟩
          · rintro ⟨n, name', h, hn, rfl⟩
            rcases getElem?_concat_eq_some.mp h with h | ⟨-, rfl⟩
            · exact absurd ⟨n, name', h, hn⟩ hnot
            · rfl
        · rw [Function.update_of_ne hi, hnode]
          constructor
          · rintro ⟨n, name', h, hn, hx⟩
            exact ⟨n, name', getElem?_concat_eq_some.mpr (Or.inl h), hn, hx⟩
          · rintro ⟨n, name', h, rfl, hx⟩
            rcases getElem?_concat_eq_some.mp h with h | ⟨rfl, -⟩
            · exact ⟨n, name', h, rfl, hx⟩
            · exact absurd rfl hi
      · dsimp only
        by_cases hi : i = ((loopInfos.length + 1 : Nat) : Int)
        · rw [hi, Function.update_self, hin]
          simp [eq_comm]
        · rw [Function.update_of_ne hi, hedge, hin, or_iff_right hi]
      · dsimp only
        by_cases hi : i = ((loopInfos.length + 1 : Nat) : Int)
        · rw [hi, Function.update_self, hin]
          simp [eq_comm]
        · rw [Function.update_of_ne hi, hdep, hin, or_iff_right hi]

/-- What the graph knows after some lines of tasks. -/
structure Known (loopInfos : List String) (entries : List Entry) (g : Graph) : Prop where
  nodes : g.loopNodeDict = (table loopInfos).loopNodeDict
  edge_some : ∀ i, (g.edgeDict i).isSome ↔ InTable loopInfos i
  dep_some : ∀ i, (g.loopDep i).isSome ↔ InTable loopInfos i
  edges : ∀ i k l, ((g.edgeDict i).bind fun e => e k) = some l ↔
    ∃ e ∈ entries, (e.loopId : Int) = i ∧ (e.taskId : Int) = k ∧ l = readIds e.successors
  deps : ∀ i l, g.loopDep i = some l → ∀ j, j ∈ l ↔
    ∃ e ∈ entries, (e.loopId : Int) = i ∧ j ∈ (readIds e.successors).map Prod.fst

theorem known_table (loopInfos : List String) : Known loopInfos [] (table loopInfos) := by
  obtain ⟨-, hedge, hdep⟩ := table_spec loopInfos
  constructor
  case nodes => rfl
  case edge_some =>
    intro i
    rw [Option.isSome_iff_exists]
    simp [hedge]
  case dep_some =>
    intro i
    rw [Option.isSome_iff_exists]
    simp [hdep]
  case edges =>
    intro i k l
    rw [Option.bind_eq_some_iff]
    simp [hedge]
  case deps =>
    intro i l hl j
    rw [((hdep i l).mp hl).2]
    simp

theorem Known.insertEdge {loopInfos : List String} {entries : List Entry} {g : Graph}
    (h : Known loopInfos entries g) {e : Entry} (htable : InTable loopInfos e.loopId)
    (hnew : (e.loopId, e.taskId) ∉ entries.map fun e => (e.loopId, e.taskId)) :
    Known loopInfos (entries ++ [e])
      (g.insertEdge e.loopId e.taskId (readIds e.successors)) := by
  obtain ⟨d, hd⟩ := Option.isSome_iff_exists.mp ((h.edge_some _).mpr htable)
  obtain ⟨dep, hdep⟩ := Option.isSome_iff_exists.mp ((h.dep_some _).mpr htable)
  have hother : ∀ e' ∈ entries, (e'.loopId : Int) = e.loopId → (e'.taskId : Int) ≠ e.taskId := by
    intro e' he' hloop htask
    apply hnew
    rw [← Int.natCast_inj.mp hloop, ← Int.natCast_inj.mp htask]
    exact List.mem_map_of_mem he'
  unfold Graph.insertEdge
  rw [hd, hdep]
  constructor
  case nodes => exact h.nodes
  case edge_some =>
    intro i
    by_cases hi : i = e.loopId
    · subst hi
      simpa using htable
    · dsimp only
      rw [Function.update_of_ne hi]
      exact h.edge_some i
  case dep_some =>
    intro i
    by_cases hi : i = e.loopId
    · subst hi
      simpa using htable
    · dsimp only
      rw [Function.update_of_ne hi]
      exact h.dep_some i
  case edges =>
    intro i k l
    have hedges := h.edges i k l
    dsimp only
    simp only [List.mem_append, List.mem_singleton, or_and_right, exists_or, exists_eq_left]
    by_cases hi : i = e.loopId
    · subst hi
      rw [Function.update_self]
      rw [hd] at hedges
      show Function.update d _ _ k = some l ↔ _
      by_cases hk : k = e.taskId
      · subst hk
        rw [Function.update_self, Option.some_inj]
        constructor
        · intro heq
          exact Or.inr ⟨rfl, rfl, heq.symm⟩
        · rintro (⟨e', he', hloop, htask, -⟩ | ⟨-, -, heq⟩)
          · exact absurd htask (hother e' he' hloop)
          · exact heq.symm
      · rw [Function.update_of_ne hk]
        have hedges : d k = some l ↔ _ := hedges
        rw [hedges]
        constructor
        · exact Or.inl
        · rintro (h | ⟨-, htask, -⟩)
          · exact h
          · exact absurd htask.symm hk
    · rw [Function.update_of_ne hi, hedges]
      constructor
      · exact Or.inl
      · rintro (h | ⟨hloop, -⟩)
        · exact h
        · exact absurd hloop.symm hi
  case deps =>
    intro i l hl j
    simp only [List.mem_append, List.mem_singleton, or_and_right, exists_or, exists_eq_left]
    have hl : Function.update g.loopDep e.loopId
      (some (dep ++ (readIds e.successors).map Prod.fst)) i = some l := hl
    by_cases hi : i = e.loopId
    · subst hi
      rw [Function.update_self, Option.some_inj] at hl
      rw [← hl, List.mem_append, h.deps _ dep hdep]
      simp
    · rw [Function.update_of_ne hi] at hl
      rw [h.deps i l hl]
      constructor
      · exact Or.inl
      · rintro (h | ⟨hloop, -⟩)
        · exact h
        · exact absurd hloop.symm hi

theorem WellFormed.known {s : Section} (h : s.WellFormed) :
    Known s.loopInfos s.entries s.graph := by
  obtain ⟨loopInfos, entries⟩ := s
  unfold Section.graph
  have hin := h.inTable
  have hdistinct := h.distinct
  dsimp only at hin hdistinct ⊢
  clear h
  induction entries using List.reverseRecOn with
  | nil => exact known_table loopInfos
  | append_singleton entries e ih =>
      rw [List.map_append] at hdistinct
      obtain ⟨hdistinct', -, hdisjoint⟩ := List.nodup_append'.mp hdistinct
      rw [List.foldl_append]
      apply Known.insertEdge (ih (fun e' he' => hin e' (List.mem_append_left _ he')) hdistinct')
      · exact hin e (List.mem_append_right _ List.mem_cons_self)
      · exact fun hbad => hdisjoint hbad List.mem_cons_self

/-! ### The lines of a section -/

theorem readLines_cons {line : List Char} {rest : List (List Char)} {choices : List String}
    {g g' : Graph} {shown : List Graph} (hline : strip line ≠ ['#'])
    (h : g.readLine (strip line) = some g') :
    readLines (line :: rest) choices g shown = readLines rest choices g' shown := by
  conv_lhs => unfold readLines
  rw [if_neg hline, h]
  rfl

theorem readLines_nodes (loopInfos : List String) (k : Nat) (rest : List (List Char))
    (choices : List String) (g : Graph) (shown : List Graph) :
    readLines ((loopInfos.zipIdx k).map (fun p => num p.2 ++ ':' :: p.1.toList) ++ rest) choices g
        shown =
      readLines rest choices ((loopInfos.zipIdx k).foldl
        (fun g p => g.insertNode (p.2 : Nat) (nameOf p.1.toList)) g) shown := by
  induction loopInfos generalizing k g with
  | nil => rfl
  | cons name loopInfos ih =>
      have hline : strip (num k ++ ':' :: name.toList) ≠ ['#'] := by
        rw [strip_num_append (by decide)]
        intro heq
        have hmem : ':' ∈ ['#'] := by
          rw [← heq]
          simp
        exact absurd hmem (by decide)
      rw [List.zipIdx_cons, List.map_cons, List.cons_append,
        readLines_cons hline (readLine_node g k name.toList), ih]
      rfl

theorem insertEdge_isSome (g : Graph) (loopId taskId : Int) (us : List (Int × Int)) (i : Int) :
    (((g.insertEdge loopId taskId us).edgeDict i).isSome = (g.edgeDict i).isSome) ∧
      ((g.insertEdge loopId taskId us).loopDep i).isSome = (g.loopDep i).isSome := by
  unfold Graph.insertEdge
  dsimp only
  by_cases hi : i = loopId
  · subst hi
    simp
  · rw [Function.update_of_ne hi, Function.update_of_ne hi]
    exact ⟨rfl, rfl⟩

theorem readLines_entries (entries : List Entry) (rest : List (List Char)) (choices : List String)
    (g : Graph) (shown : List Graph)
    (h : ∀ e ∈ entries, (g.edgeDict e.loopId).isSome ∧ (g.loopDep e.loopId).isSome) :
    readLines (entries.map (fun e => edgeLine e.loopId e.taskId e.successors) ++ rest) choices g
        shown =
      readLines rest choices
        (entries.foldl (fun g e => g.insertEdge e.loopId e.taskId (readIds e.successors)) g)
        shown := by
  induction entries generalizing g with
  | nil => rfl
  | cons e entries ih =>
      obtain ⟨hedge, hdep⟩ := h e List.mem_cons_self
      have hline : strip (edgeLine e.loopId e.taskId e.successors) ≠ ['#'] := by
        rw [strip_edgeLine]
        intro heq
        have hmem : ',' ∈ ['#'] := by
          rw [← heq]
          unfold edgeLine
          simp only [List.mem_append, List.mem_cons, true_or, or_true]
        exact absurd hmem (by decide)
      rw [List.map_cons, List.cons_append,
        readLines_cons hline (readLine_edge g _ _ e.successors hedge hdep)]
      apply ih
      intro e' he'
      obtain ⟨hedge', hdep'⟩ := insertEdge_isSome g e.loopId e.taskId (readIds e.successors)
        e'.loopId
      rw [hedge', hdep']
      exact h e' (List.mem_cons_of_mem e he')

/-- A section is read, and shown at its end. -/
theorem readLines_section {s : Section} (h : s.WellFormed) (rest : List (List Char))
    (choice : String) (choices : List String) (shown : List Graph) :
    readLines (s.fileLines ++ rest) (choice :: choices) Graph.empty shown =
      if choice = "y" then readLines rest choices Graph.empty (shown ++ [s.graph])
      else some (shown ++ [s.graph], s.graph) := by
  obtain ⟨-, hedge, hdep⟩ := table_spec s.loopInfos
  have hentries : ∀ e ∈ s.entries, ((table s.loopInfos).edgeDict e.loopId).isSome ∧
      ((table s.loopInfos).loopDep e.loopId).isSome := by
    intro e he
    have hin := h.inTable e he
    rw [(hedge _ _).mpr ⟨hin, rfl⟩, (hdep _ _).mpr ⟨hin, rfl⟩]
    exact ⟨rfl, rfl⟩
  unfold fileLines nodeLines
  rw [List.append_assoc, List.append_assoc, readLines_nodes]
  show readLines _ _ (table s.loopInfos) _ = _
  rw [readLines_entries _ _ _ _ _ hentries]
  show readLines (['#'] :: rest) (choice :: choices) s.graph shown = _
  have hhash : strip ['#'] = ['#'] := by decide
  conv_lhs => unfold readLines
  rw [if_pos hhash]

/-- A file of sections is read as far as the user goes on. -/
theorem readLines_sections (ss : List Section) (h : ∀ s ∈ ss, s.WellFormed)
    (choices : List String) (hchoices : ss.length ≤ choices.length) (shown : List Graph) :
    ∃ g, readLines (ss.flatMap fileLines) choices Graph.empty shown =
      some (shown ++ (ss.map Section.graph).take
        ((choices.takeWhile fun choice => choice = "y").length + 1), g) := by
  induction ss generalizing choices shown with
  | nil => exact ⟨Graph.empty, by simp [readLines]⟩
  | cons s ss ih =>
      obtain ⟨choice, choices, rfl⟩ := List.exists_cons_of_length_pos
        (Nat.lt_of_lt_of_le (Nat.succ_pos ss.length) hchoices)
      have hle : ss.length ≤ choices.length := Nat.le_of_succ_le_succ hchoices
      rw [List.flatMap_cons, readLines_section (h s List.mem_cons_self)]
      by_cases hy : choice = "y"
      · obtain ⟨g, hg⟩ := ih (fun s' hs' => h s' (List.mem_cons_of_mem s hs')) choices hle
          (shown ++ [s.graph])
        refine ⟨g, ?_⟩
        rw [if_pos hy, hg, List.takeWhile_cons_of_pos (by simpa using hy)]
        simp
      · refine ⟨s.graph, ?_⟩
        rw [if_neg hy, List.takeWhile_cons_of_neg (by simpa using hy)]
        rfl

/-- No line of a section has a newline within it. -/
theorem WellFormed.newline {s : Section} (h : s.WellFormed) : ∀ l ∈ s.fileLines, '\n' ∉ l := by
  intro l hl
  unfold fileLines nodeLines at hl
  simp only [List.mem_append, List.mem_map, List.mem_singleton] at hl
  rcases hl with (⟨p, hp, rfl⟩ | ⟨e, -, rfl⟩) | rfl
  · have hname := h.names p.1 (List.fst_mem_of_mem_zipIdx hp)
    simp only [List.mem_append, List.mem_cons, not_or]
    exact ⟨not_mem_toDigits (by decide) _, by decide, hname⟩
  · exact not_mem_edgeLine (by decide) (by decide) _ _ _
  · decide

end Reading

/-! ## The numbers of the tasks -/

/-- The tasks of the graph under construction have different numbers, and their loops are in the
table. -/
structure Numbered (lo : TaskId) (d : DebugGraph) : Prop where
  count : d.graphCheck.loopId = d.graphCheck.loopInfos.length
  names : ∀ name ∈ d.graphCheck.loopInfos, '\n' ∉ name.toList
  joint : ∀ t, lo ≤ t → t < d.graph.fresh → (d.debug t).isJoint = false
  ids : ∀ t, lo ≤ t → t < d.graph.fresh → ∃ i k : Nat, (d.debug t).loopId = i ∧
    (d.debug t).taskId = k ∧ 1 ≤ i ∧
    (i < d.graphCheck.loopId ∨ i = d.graphCheck.loopId ∧ k < d.graphCheck.taskId)
  distinct : ∀ t u, lo ≤ t → t < d.graph.fresh → lo ≤ u → u < d.graph.fresh →
    (d.debug t).loopId = (d.debug u).loopId → (d.debug t).taskId = (d.debug u).taskId → t = u

section Numbers

variable {lo : TaskId} {d : DebugGraph} {layout : MergeSameAddr.Layout}

theorem Numbered.beginSplitTask (h : Numbered lo d) {loopInfo : Option String}
    (hname : '\n' ∉ (loopInfo.getD "loop_no_name").toList) (n : Nat) :
    Numbered lo (d.beginSplitTask loopInfo n) where
  count := by
    show d.graphCheck.loopId + 1 = (d.graphCheck.loopInfos ++ [_]).length
    rw [h.count, List.length_append]
    rfl
  names := by
    intro name hmem
    rcases List.mem_append.mp hmem with hmem | hmem
    · exact h.names name hmem
    · rw [List.mem_singleton.mp hmem]
      exact hname
  joint := h.joint
  ids := by
    intro t hlo hhi
    obtain ⟨i, k, hi, hk, hpos, hle⟩ := h.ids t hlo hhi
    refine ⟨i, k, hi, hk, hpos, Or.inl ?_⟩
    show i < d.graphCheck.loopId + 1
    omega
  distinct := h.distinct

theorem Numbered.registerTask (h : Numbered lo d) (hloop : 1 ≤ d.graphCheck.loopId)
    (spec : TaskSpec) : Numbered lo (d.registerTask spec) := by
  have hfresh : (d.registerTask spec).graph.fresh = d.graph.fresh + 1 := by
    exact taskGenerator_fresh d.graph spec
  have hself : (d.registerTask spec).debug d.graph.fresh =
      ⟨false, -1, d.graphCheck.loopId, d.graphCheck.taskId⟩ := Function.update_self ..
  have hother : ∀ t, t < d.graph.fresh → (d.registerTask spec).debug t = d.debug t :=
    fun t ht => Function.update_of_ne (Nat.ne_of_lt ht) ..
  -- no task has the numbers of the new one
  have hnew : ∀ t, lo ≤ t → t < d.graph.fresh →
      ¬((d.debug t).loopId = d.graphCheck.loopId ∧ (d.debug t).taskId = d.graphCheck.taskId) := by
    rintro t hlo hhi ⟨hloop, htask⟩
    obtain ⟨i, k, hi, hk, -, hle⟩ := h.ids t hlo hhi
    omega
  constructor
  case count => exact h.count
  case names => exact h.names
  case joint =>
    intro t hlo hhi
    rw [hfresh] at hhi
    obtain hlt | rfl := Nat.lt_succ_iff_lt_or_eq.mp hhi
    · rw [hother t hlt]
      exact h.joint t hlo hlt
    · rw [hself]
  case ids =>
    intro t hlo hhi
    rw [hfresh] at hhi
    obtain hlt | rfl := Nat.lt_succ_iff_lt_or_eq.mp hhi
    · rw [hother t hlt]
      obtain ⟨i, k, hi, hk, hpos, hle⟩ := h.ids t hlo hlt
      refine ⟨i, k, hi, hk, hpos, ?_⟩
      show i < d.graphCheck.loopId ∨ i = d.graphCheck.loopId ∧ k < d.graphCheck.taskId + 1
      omega
    · rw [hself]
      exact ⟨d.graphCheck.loopId, d.graphCheck.taskId, rfl, rfl, hloop,
        Or.inr ⟨rfl, Nat.lt_succ_self _⟩⟩
  case distinct =>
    intro t u htlo hthi hulo huhi
    rw [hfresh] at hthi huhi
    obtain ht | rfl := Nat.lt_succ_iff_lt_or_eq.mp hthi
    · obtain hu | rfl := Nat.lt_succ_iff_lt_or_eq.mp huhi
      · rw [hother t ht, hother u hu]
        exact h.distinct t u htlo ht hulo hu
      · rw [hother t ht, hself]
        exact fun hl hk => absurd ⟨hl, hk⟩ (hnew t htlo ht)
    · obtain hu | rfl := Nat.lt_succ_iff_lt_or_eq.mp huhi
      · rw [hother u hu, hself]
        exact fun hl hk => absurd ⟨hl.symm, hk.symm⟩ (hnew u hulo hu)
      · exact fun _ _ => rfl

/-- A loop of tasks. -/
theorem Numbered.loop (h : Numbered lo d) (hsound : Sound lo d) {l : DebugGraph.Loop layout}
    (hname : '\n' ∉ (l.loopInfo.getD "loop_no_name").toList) : Numbered lo (d.loop l) := by
  have hall : ∀ (specs : List TaskSpec) (d : DebugGraph), Building lo d → Numbered lo d →
      1 ≤ d.graphCheck.loopId → Building lo (specs.foldl DebugGraph.registerTask d) ∧
        Numbered lo (specs.foldl DebugGraph.registerTask d) := by
    intro specs
    induction specs with
    | nil => exact fun d hb hn _ => ⟨hb, hn⟩
    | cons spec specs ih =>
        exact fun d hb hn hloop => ih _ (hb.registerTask spec) (hn.registerTask hloop spec) hloop
  obtain ⟨hbuilding, hnumbered⟩ := hall l.tasks _ (hsound.beginSplitTask l.loopInfo l.scheNumThreads)
    (h.beginSplitTask hname l.scheNumThreads) (Nat.succ_pos d.graphCheck.loopId)
  have hfresh : (d.loop l).graph.fresh =
      (l.tasks.foldl DebugGraph.registerTask (d.beginSplitTask l.loopInfo l.scheNumThreads)).graph.fresh :=
    (endSplitTask_book hbuilding.book l.sort _).2.2
  constructor
  case count => exact hnumbered.count
  case names => exact hnumbered.names
  case joint =>
    intro t hlo hhi
    exact hnumbered.joint t hlo (hfresh ▸ hhi)
  case ids =>
    intro t hlo hhi
    exact hnumbered.ids t hlo (hfresh ▸ hhi)
  case distinct =>
    intro t u htlo hthi hulo huhi
    exact hnumbered.distinct t u htlo (hfresh ▸ hthi) hulo (hfresh ▸ huhi)

theorem Numbered.loops (h : Numbered lo d) (hsound : Sound lo d) {ls : List (DebugGraph.Loop layout)}
    (hnames : ∀ l ∈ ls, '\n' ∉ (l.loopInfo.getD "loop_no_name").toList) :
    Numbered lo (ls.foldl DebugGraph.loop d) := by
  induction ls generalizing d with
  | nil => exact h
  | cons l ls ih =>
      exact ih (h.loop hsound (hnames l List.mem_cons_self)) (hsound.loop l)
        fun l' hl' => hnames l' (List.mem_cons_of_mem l hl')

theorem Numbered.setPrintGraph (h : Numbered lo d) (printGraph : Bool) :
    Numbered lo (d.setPrintGraph printGraph) := by
  unfold DebugGraph.setPrintGraph
  split
  · exact ⟨h.count, h.names, h.joint, h.ids, h.distinct⟩
  · exact h

/-- A new graph has no tasks. -/
theorem Numbered.reset (hcount : d.graphCheck.loopId = d.graphCheck.loopInfos.length)
    (hnames : ∀ name ∈ d.graphCheck.loopInfos, '\n' ∉ name.toList) (heap : Heap) :
    Numbered d.graph.fresh (d.resetTaskGraph heap) where
  count := hcount
  names := hnames
  joint := fun _ hlo hhi => absurd hlo (Nat.not_le_of_lt hhi)
  ids := fun _ hlo hhi => absurd hlo (Nat.not_le_of_lt hhi)
  distinct := fun _ _ hlo hhi => absurd hlo (Nat.not_le_of_lt hhi)

end Numbers

/-! ## The graphs of a run -/

namespace DebugGraph

variable {layout : MergeSameAddr.Layout}

/-- The graph that a round closes, if it builds one. -/
def closed (d : DebugGraph) (r : Round layout) : Option DebugGraph :=
  match r.ending with
  | .built printGraph junk _ => some (((r.loops.foldl loop d).setPrintGraph printGraph).close junk)
  | .stored _ _ => none

def closings (d : DebugGraph) : List (Round layout) → List DebugGraph
  | [] => []
  | r :: rounds =>
    match d.round r with
    | .ok d' => (d.closed r).toList ++ d'.closings rounds
    | .error _ => []

/-- The tasks of a closed graph, whose newest object is the `end_task`. -/
def tasks (c : DebugGraph) : Finset TaskId :=
  Finset.Ico (c.graph.fresh - 1 - c.taskNums) (c.graph.fresh - 1)

/-- The successors of a task but for the `end_task`. -/
def successors (c : DebugGraph) (t : TaskId) : List TaskId :=
  (checkOuts (c.graph.heap t)).filter fun u => c.graph.endTask ≠ some u

def ids (c : DebugGraph) (t : TaskId) : Int × Int := ((c.debug t).loopId, (c.debug t).taskId)

end DebugGraph

/-- What the reader has is the closed graph `c`. -/
structure Describes (g : Graph) (c : DebugGraph) : Prop where
  loops : ∀ i name, g.loopNodeDict i = some name ↔ ∃ n loopName,
    c.graphCheck.loopInfos[n]? = some loopName ∧ i = ((n + 1 : Nat) : Int) ∧
      name = nameOf loopName.toList
  distinct : ∀ t ∈ c.tasks, ∀ u ∈ c.tasks, c.ids t = c.ids u → t = u
  tasks : ∀ i k us, ((g.edgeDict i).bind fun e => e k) = some us ↔
    ∃ t ∈ c.tasks, c.ids t = (i, k) ∧ us = (c.successors t).map c.ids
  relationships : ∀ i, (g.relationships i).isSome ↔ (g.loopNodeDict i).isSome
  related : ∀ i js, g.relationships i = some js → js.Pairwise (· < ·) ∧ ∀ j, j ∈ js ↔
    ∃ t ∈ c.tasks, ∃ u ∈ c.successors t, (c.ids t).1 = i ∧ (c.ids u).1 = j

/-- A graph is described if it was printed. -/
def Described (g : Graph) (c : DebugGraph) : Prop :=
  if c.gPrintGraph then Describes g c else g = Graph.empty

section Closed

variable {lo : TaskId} {d : DebugGraph} {layout : MergeSameAddr.Layout}

def natIds (debug : TaskId → DebugFields) (t : TaskId) : Nat × Nat :=
  ((debug t).loopId.toNat, (debug t).taskId.toNat)

def entryOf (heap : Heap) (debug : TaskId → DebugFields) (t : TaskId) : Entry where
  loopId := (natIds debug t).1
  taskId := (natIds debug t).2
  successors :=
    ((heap t).verticalTask.toList.filter fun u => !(debug u).isJoint).map
        (fun u => (true, natIds debug u)) ++
      ((heap t).successorTasks.filter fun u => !(debug u).isJoint).map
        (fun u => (false, natIds debug u))

/-- The numbers of a task are no negative ones. -/
def Natural (debug : TaskId → DebugFields) (t : TaskId) : Prop :=
  0 ≤ (debug t).loopId ∧ 0 ≤ (debug t).taskId

theorem idText_toList {debug : TaskId → DebugFields} {t : TaskId} (h : Natural debug t)
    (loopText taskText : String) : (idText debug loopText taskText t).toList =
      loopText.toList ++ num (natIds debug t).1 ++ taskText.toList ++ num (natIds debug t).2 := by
  have hloop := toList_toString_natCast (debug t).loopId.toNat
  have htask := toList_toString_natCast (debug t).taskId.toNat
  rw [Int.toNat_of_nonneg h.1] at hloop
  rw [Int.toNat_of_nonneg h.2] at htask
  unfold idText natIds
  rw [String.toList_append, String.toList_append, String.toList_append, hloop, htask]

theorem join_idText {debug : TaskId → DebugFields} (vertical : Bool) {loopText taskText : String}
    (hloop : loopText.toList = ',' :: loopLabel vertical ++ [','])
    (htask : taskText.toList = ',' :: taskLabel vertical ++ [',', ' ']) (l : List TaskId)
    (hl : ∀ u ∈ l, Natural debug u) :
    (String.join (l.map (idText debug loopText taskText))).toList =
      (l.map fun u => (vertical, natIds debug u)).flatMap successorText := by
  rw [String.toList_join, List.flatMap_map, List.flatMap_map]
  apply List.flatMap_congr
  intro u hu
  rw [idText_toList (hl u hu), hloop, htask]
  unfold successorText
  simp only [List.append_assoc, List.cons_append, List.nil_append]

/-- The line of a task. -/
theorem lineText_toList {heap : Heap} {debug : TaskId → DebugFields} {t : TaskId}
    (hjoint : (debug t).isJoint = false) (ht : Natural debug t)
    (hsucc : ∀ u ∈ checkOuts (heap t), (debug u).isJoint = false → Natural debug u) :
    (lineText heap debug t).toList =
      edgeLine (entryOf heap debug t).loopId (entryOf heap debug t).taskId
        (entryOf heap debug t).successors ++ ['\n'] := by
  have hkeep : lineText heap debug t =
      idText debug "parent loop id," ", parent task id," t ++
        String.join (((heap t).verticalTask.toList.filter fun v => !(debug v).isJoint).map
          (idText debug ", v_child loop id," ", v_child task id, ")) ++
        String.join (((heap t).successorTasks.filter fun it => !(debug it).isJoint).map
          (idText debug ", child loop id," ", child task id, ")) ++ "\n" := by
    unfold lineText
    dsimp only
    split
    · next hnone =>
        rw [if_neg (by simp [hjoint]), hnone.1, hnone.2, List.map_nil, List.map_nil,
          String.join_nil, String.append_empty, String.append_empty]
    · rfl
  have hvertical : ∀ u ∈ (heap t).verticalTask.toList.filter fun v => !(debug v).isJoint,
      Natural debug u := by
    intro u hu
    obtain ⟨hu, hjoint⟩ := List.mem_filter.mp hu
    exact hsucc u (List.mem_append_left _ hu) (by simpa using hjoint)
  have hothers : ∀ u ∈ (heap t).successorTasks.filter fun v => !(debug v).isJoint,
      Natural debug u := by
    intro u hu
    obtain ⟨hu, hjoint⟩ := List.mem_filter.mp hu
    exact hsucc u (List.mem_append_right _ hu) (by simpa using hjoint)
  have hparent : "parent loop id,".toList = "parent loop id".toList ++ [','] := by decide
  have hparent' : ", parent task id,".toList = ',' :: " parent task id".toList ++ [','] := by decide
  have hend : "\n".toList = ['\n'] := by decide
  rw [hkeep, String.toList_append, String.toList_append, String.toList_append, idText_toList ht,
    join_idText true (by decide) (by decide) _ hvertical,
    join_idText false (by decide) (by decide) _ hothers, hparent, hparent', hend]
  unfold entryOf edgeLine
  simp only [List.flatMap_append, List.append_assoc, List.cons_append, List.nil_append]

/-- The table of loops. -/
theorem printIdLoopInfoTable_toList (loopInfos : List String) :
    (DebugGraph.printIdLoopInfoTable loopInfos).toList =
      (Section.nodeLines loopInfos).flatMap (· ++ ['\n']) := by
  unfold DebugGraph.printIdLoopInfoTable Section.nodeLines
  rw [String.toList_join, List.flatMap_map, List.flatMap_map]
  apply List.flatMap_congr
  intro p _
  have hnum : (toString p.2).toList = num p.2 := Nat.toList_repr
  have hcolon : ":".toList = [':'] := by decide
  have hend : "\n".toList = ['\n'] := by decide
  rw [String.toList_append, String.toList_append, String.toList_append, hnum, hcolon, hend]
  simp only [List.append_assoc, List.cons_append, List.nil_append]

/-! ### The section of a closed graph -/

/-- A printed graph, visited in the order of `visited`. -/
def sectionOf (c : DebugGraph) (visited : List TaskId) : Section where
  loopInfos := c.graphCheck.loopInfos
  entries := (visited.filter fun t => c.graph.endTask ≠ some t).map
    (entryOf c.graph.heap c.debug)

/-- What is known about a closed graph, with `e` at its end. -/
structure Closing (c : DebugGraph) (e : TaskId) : Prop where
  endTask : c.graph.endTask = some e
  fresh : c.graph.fresh = e + 1
  outs_end : checkOuts (c.graph.heap e) = []
  joint_end : (c.debug e).isJoint = true
  joint : ∀ t ∈ c.tasks, (c.debug t).isJoint = false
  closed : ∀ t ∈ c.tasks, ∀ u ∈ checkOuts (c.graph.heap t), u ∈ c.tasks ∨ u = e
  ids : ∀ t ∈ c.tasks, ∃ i k : Nat, c.ids t = ((i : Int), (k : Int)) ∧ 1 ≤ i ∧
    i ≤ c.graphCheck.loopInfos.length
  distinct : ∀ t ∈ c.tasks, ∀ u ∈ c.tasks, c.ids t = c.ids u → t = u
  names : ∀ name ∈ c.graphCheck.loopInfos, '\n' ∉ name.toList

theorem Closing.mem_tasks {c : DebugGraph} {e t : TaskId} (h : Closing c e) :
    t ∈ c.tasks ↔ e - c.taskNums ≤ t ∧ t < e := by
  unfold DebugGraph.tasks
  rw [h.fresh, Finset.mem_Ico, Nat.add_sub_cancel]

theorem closing (hsound : Sound lo d) (h : Numbered lo d) (junk : Junk) :
    Closing (d.close junk) d.graph.fresh := by
  have hnums := hsound.nums
  have hle : lo ≤ d.graph.fresh := hsound.book.lo_le
  have hmem : ∀ {t}, t ∈ (d.close junk).tasks ↔ lo ≤ t ∧ t < d.graph.fresh := by
    intro t
    show t ∈ Finset.Ico (d.graph.fresh + 1 - 1 - d.taskNums) (d.graph.fresh + 1 - 1) ↔ _
    rw [Finset.mem_Ico]
    lia
  have hdebug : ∀ t, t < d.graph.fresh → (d.close junk).debug t = d.debug t :=
    fun t ht => Function.update_of_ne (Nat.ne_of_lt ht) ..
  have hids : ∀ t, t < d.graph.fresh → (d.close junk).ids t =
      ((d.debug t).loopId, (d.debug t).taskId) := by
    intro t ht
    unfold DebugGraph.ids
    rw [hdebug t ht]
  -- the tuples play no part
  let d' : DebugGraph := { d with graph := { d.graph with oneVirtualTaskTuples := [] } }
  have houts : ∀ t, checkOuts ((d.close junk).graph.heap t) =
      checkOuts ((d'.close junk).graph.heap t) := fun _ => rfl
  have hbook : Book lo d'.graph := hsound.book
  constructor
  case endTask => rfl
  case fresh => rfl
  case outs_end =>
    have hnone := close_outs_end (d := d') hbook junk
    rw [houts]
    exact List.perm_nil.mp ((checkOuts_perm _).trans (.of_eq hnone))
  case joint_end =>
    show (Function.update d.debug d.graph.fresh _ d.graph.fresh).isJoint = true
    rw [Function.update_self]
  case joint =>
    intro t ht
    obtain ⟨hlo, hhi⟩ := hmem.mp ht
    rw [hdebug t hhi]
    exact h.joint t hlo hhi
  case closed =>
    intro t ht u hu
    obtain ⟨hlo, hhi⟩ := hmem.mp ht
    rw [houts] at hu
    have hforward := close_forward (d := d') hbook junk hlo hhi ((checkOuts_perm _).mem_iff.mp hu)
    rw [hmem]
    have hle : u ≤ d.graph.fresh := hforward.2
    lia
  case ids =>
    intro t ht
    obtain ⟨hlo, hhi⟩ := hmem.mp ht
    obtain ⟨i, k, hi, hk, hpos, hlt⟩ := h.ids t hlo hhi
    refine ⟨i, k, ?_, hpos, ?_⟩
    · rw [hids t hhi, hi, hk]
    · show i ≤ d.graphCheck.loopInfos.length
      rw [← h.count]
      omega
  case distinct =>
    intro t ht u hu heq
    obtain ⟨htlo, hthi⟩ := hmem.mp ht
    obtain ⟨hulo, huhi⟩ := hmem.mp hu
    rw [hids t hthi, hids u huhi] at heq
    obtain ⟨hl, hk⟩ := Prod.mk.inj heq
    exact h.distinct t u htlo hthi hulo huhi hl hk
  case names => exact h.names

theorem Closing.natural {c : DebugGraph} {e t : TaskId} (h : Closing c e) (ht : t ∈ c.tasks) :
    Natural c.debug t ∧ c.ids t = (((natIds c.debug t).1 : Int), ((natIds c.debug t).2 : Int)) := by
  obtain ⟨i, k, hids, -, -⟩ := h.ids t ht
  obtain ⟨hi, hk⟩ := Prod.mk.inj hids
  unfold Natural natIds DebugGraph.ids
  dsimp only
  rw [hi, hk]
  exact ⟨⟨Int.natCast_nonneg i, Int.natCast_nonneg k⟩, rfl⟩

/-- The successors that a line names are the tasks among the successors. -/
theorem Closing.readIds_entryOf {c : DebugGraph} {e t : TaskId} (h : Closing c e)
    (ht : t ∈ c.tasks) :
    readIds (entryOf c.graph.heap c.debug t).successors = (c.successors t).map c.ids := by
  have hkeep : ∀ l : List TaskId, (∀ u ∈ l, u ∈ checkOuts (c.graph.heap t)) →
      (l.filter fun u => !(c.debug u).isJoint) = l.filter fun u => c.graph.endTask ≠ some u := by
    intro l hl
    apply List.filter_congr
    intro u hu
    rw [h.endTask]
    rcases h.closed t ht u (hl u hu) with hmem | rfl
    · have hne : u ≠ e := Nat.ne_of_lt (h.mem_tasks.mp hmem).2
      simp [h.joint u hmem, Ne.symm hne]
    · simp [h.joint_end]
  have hids : ∀ l : List TaskId, (∀ u ∈ l, u ∈ checkOuts (c.graph.heap t)) →
      ∀ vertical : Bool, readIds ((l.filter fun u => c.graph.endTask ≠ some u).map
        fun u => (vertical, natIds c.debug u)) =
      (l.filter fun u => c.graph.endTask ≠ some u).map c.ids := by
    intro l hl vertical
    unfold readIds
    rw [List.map_map]
    apply List.map_congr_left
    intro u hu
    obtain ⟨hu, hend⟩ := List.mem_filter.mp hu
    rcases h.closed t ht u (hl u hu) with hmem | rfl
    · exact (h.natural hmem).2.symm
    · simp [h.endTask] at hend
  have hvertical : ∀ u ∈ (c.graph.heap t).verticalTask.toList, u ∈ checkOuts (c.graph.heap t) :=
    fun u hu => List.mem_append_left _ hu
  have hsucc : ∀ u ∈ (c.graph.heap t).successorTasks, u ∈ checkOuts (c.graph.heap t) :=
    fun u hu => List.mem_append_right _ hu
  unfold entryOf DebugGraph.successors checkOuts
  rw [hkeep _ hvertical, hkeep _ hsucc, List.filter_append, List.map_append]
  unfold readIds at hids ⊢
  rw [List.map_append, hids _ hvertical, hids _ hsucc]

/-- The tasks are visited once. -/
structure Visits (c : DebugGraph) (e : TaskId) (visited : List TaskId) : Prop where
  nodup : visited.Nodup
  mem : ∀ t, t ∈ c.tasks ↔ t ∈ visited ∧ t ≠ e

theorem Closing.mem_entries {c : DebugGraph} {e : TaskId} (h : Closing c e)
    {visited : List TaskId} (hv : Visits c e visited) (t : TaskId) :
    (t ∈ visited.filter fun t => c.graph.endTask ≠ some t) ↔ t ∈ c.tasks := by
  rw [hv.mem, List.mem_filter, h.endTask, decide_eq_true_eq, ne_eq, Option.some_inj]
  exact and_congr_right fun _ => ne_comm

theorem Closing.wellFormed {c : DebugGraph} {e : TaskId} (h : Closing c e)
    {visited : List TaskId} (hv : Visits c e visited) : (sectionOf c visited).WellFormed := by
  have hmem := h.mem_entries hv
  constructor
  case inTable =>
    intro entry hentry
    obtain ⟨t, ht, rfl⟩ := List.mem_map.mp hentry
    have ht := (hmem t).mp ht
    obtain ⟨i, k, hids, hpos, hle⟩ := h.ids t ht
    have hloop : ((natIds c.debug t).1 : Int) = i :=
      congrArg Prod.fst ((h.natural ht).2.symm.trans hids)
    have hlt : i - 1 < c.graphCheck.loopInfos.length := by omega
    refine ⟨i - 1, c.graphCheck.loopInfos[i - 1], List.getElem?_eq_getElem hlt, ?_⟩
    show ((natIds c.debug t).1 : Int) = _
    rw [hloop, Nat.sub_add_cancel hpos]
  case distinct =>
    show (((visited.filter _).map (entryOf c.graph.heap c.debug)).map _).Nodup
    rw [List.map_map]
    apply List.Nodup.map_on
    · intro t ht u hu heq
      have ht := (hmem t).mp ht
      have hu := (hmem u).mp hu
      have heq : natIds c.debug t = natIds c.debug u := heq
      apply h.distinct t ht u hu
      rw [(h.natural ht).2, (h.natural hu).2, heq]
    · exact hv.nodup.filter _
  case names => exact h.names

/-- The text of a section. -/
theorem Closing.text {c : DebugGraph} {e : TaskId} (h : Closing c e) {visited : List TaskId}
    (hv : Visits c e visited) :
    (DebugGraph.printIdLoopInfoTable c.graphCheck.loopInfos ++
      (linesText c.graph.heap c.debug true visited ++ "#\n")).toList =
      (sectionOf c visited).fileLines.flatMap (· ++ ['\n']) := by
  have hend : "#\n".toList = ['#', '\n'] := by decide
  have hline : ∀ t ∈ c.tasks, (lineText c.graph.heap c.debug t).toList =
      edgeLine (entryOf c.graph.heap c.debug t).loopId (entryOf c.graph.heap c.debug t).taskId
        (entryOf c.graph.heap c.debug t).successors ++ ['\n'] := by
    intro t ht
    apply lineText_toList (h.joint t ht) (h.natural ht).1
    intro u hu hjoint
    rcases h.closed t ht u hu with hmem | rfl
    · exact (h.natural hmem).1
    · rw [h.joint_end] at hjoint
      cases hjoint
  have hnone : (lineText c.graph.heap c.debug e).toList = [] := by
    have hparts := List.append_eq_nil_iff.mp h.outs_end
    unfold lineText
    rw [hparts.1, hparts.2, List.filter_nil, if_pos ⟨rfl, rfl⟩, if_pos h.joint_end]
    rfl
  -- the `end_task` has no line
  have hall : ∀ l : List TaskId, (∀ t ∈ l, t ∈ c.tasks ∨ t = e) →
      (l.flatMap fun t => (lineText c.graph.heap c.debug t).toList) =
        (((l.filter fun t => c.graph.endTask ≠ some t).map (entryOf c.graph.heap c.debug)).map
          fun entry => edgeLine entry.loopId entry.taskId entry.successors).flatMap
            (· ++ ['\n']) := by
    intro l hl
    induction l with
    | nil => rfl
    | cons t l ih =>
        have ih := ih fun u hu => hl u (List.mem_cons_of_mem t hu)
        rw [List.flatMap_cons, ih]
        rcases hl t List.mem_cons_self with ht | rfl
        · have hne : c.graph.endTask ≠ some t := by
            rw [h.endTask]
            exact fun heq => Nat.ne_of_lt (h.mem_tasks.mp ht).2 (Option.some_inj.mp heq).symm
          rw [List.filter_cons_of_pos (by simpa using hne), List.map_cons, List.map_cons,
            List.flatMap_cons, hline t ht]
        · rw [List.filter_cons_of_neg (by simp [h.endTask]), hnone, List.nil_append]
  have hvisited : ∀ t ∈ visited, t ∈ c.tasks ∨ t = e := by
    intro t ht
    by_cases hte : t = e
    · exact Or.inr hte
    · exact Or.inl ((hv.mem t).mpr ⟨ht, hte⟩)
  unfold Section.fileLines linesText
  rw [if_pos rfl, String.toList_append, String.toList_append, printIdLoopInfoTable_toList,
    String.toList_join, List.flatMap_map, hall visited hvisited, hend, List.flatMap_append,
    List.flatMap_append]
  simp only [List.append_assoc]
  rfl

/-- What is read from a section is the graph. -/
theorem Closing.describes {c : DebugGraph} {e : TaskId} (h : Closing c e) {visited : List TaskId}
    (hv : Visits c e visited) : Describes (sectionOf c visited).graph c := by
  have hknown := WellFormed.known (h.wellFormed hv)
  have hmem := h.mem_entries hv
  have hentry : ∀ (p : Entry → Prop), (∃ entry ∈ (sectionOf c visited).entries, p entry) ↔
      ∃ t ∈ c.tasks, p (entryOf c.graph.heap c.debug t) := by
    intro p
    unfold sectionOf
    simp only [List.mem_map]
    constructor
    · rintro ⟨-, ⟨t, ht, rfl⟩, hp⟩
      exact ⟨t, (hmem t).mp ht, hp⟩
    · rintro ⟨t, ht, hp⟩
      exact ⟨_, ⟨t, (hmem t).mpr ht, rfl⟩, hp⟩
  have hids : ∀ t ∈ c.tasks, c.ids t = (((entryOf c.graph.heap c.debug t).loopId : Int),
      ((entryOf c.graph.heap c.debug t).taskId : Int)) := fun t ht => (h.natural ht).2
  obtain ⟨hnode, -, -⟩ := table_spec (sectionOf c visited).loopInfos
  constructor
  case loops =>
    intro i name
    rw [hknown.nodes]
    exact hnode i name
  case distinct => exact h.distinct
  case tasks =>
    intro i k us
    rw [hknown.edges, hentry]
    apply exists_congr
    intro t
    apply and_congr_right
    intro ht
    rw [hids t ht, h.readIds_entryOf ht, Prod.mk_inj, and_assoc]
  case relationships =>
    intro i
    have hsome : ((sectionOf c visited).graph.relationships i).isSome =
        ((sectionOf c visited).graph.loopDep i).isSome := Option.isSome_map ..
    rw [hsome, hknown.dep_some, hknown.nodes, Option.isSome_iff_exists]
    simp only [hnode]
    constructor
    · rintro ⟨n, name, hn, hi⟩
      exact ⟨_, n, name, hn, hi, rfl⟩
    · rintro ⟨-, n, name, hn, hi, -⟩
      exact ⟨n, name, hn, hi⟩
  case related =>
    intro i js hjs
    obtain ⟨l, hl, rfl⟩ := Option.map_eq_some_iff.mp hjs
    refine ⟨(Finset.sortedLT_sort _).pairwise, fun j => ?_⟩
    rw [Finset.mem_sort, List.mem_toFinset, hknown.deps i l hl, hentry]
    apply exists_congr
    intro t
    apply and_congr_right
    intro ht
    rw [hids t ht, h.readIds_entryOf ht, List.map_map, List.mem_map]
    constructor
    · rintro ⟨hi, u, hu, hj⟩
      exact ⟨u, hu, hi, hj⟩
    · rintro ⟨u, hu, hi, hj⟩
      exact ⟨hi, u, hu, hj⟩

/-! ### Every run -/

theorem Sound.visits (h : Sound lo d) (junk : Junk) (printInfo : Bool) :
    ∃ s, checkGraphBfs (d.close junk).graph.heap (d.close junk).debug d.graph.needSpawnTasks
        d.taskNums printInfo = .ok (true, s) ∧ Visits (d.close junk) d.graph.fresh s.visited := by
  have hnums := h.nums
  have hle : lo ≤ d.graph.fresh := h.book.lo_le
  have hmem : ∀ t, t ∈ (d.close junk).tasks ↔ lo ≤ t ∧ t < d.graph.fresh := by
    intro t
    show t ∈ Finset.Ico (d.graph.fresh + 1 - 1 - d.taskNums) (d.graph.fresh + 1 - 1) ↔ _
    rw [Finset.mem_Ico]
    lia
  by_cases hzero : d.taskNums = 0
  · unfold checkGraphBfs
    rw [if_pos hzero]
    refine ⟨_, rfl, List.nodup_nil, fun t => ?_⟩
    rw [hmem]
    constructor
    · rintro ⟨hlo, hhi⟩
      lia
    · rintro ⟨hbad, -⟩
      cases hbad
  · obtain ⟨s, hs, hvisited⟩ := h.check junk printInfo
    obtain ⟨hnodup, hall, -, -⟩ := hvisited hzero
    refine ⟨s, hs, hnodup, fun t => ?_⟩
    rw [hmem, hall, Finset.mem_Ico]
    lia

/-- What a round adds to the file: a section for the graph that it closes. -/
theorem Numbered.round (hn : Numbered lo d) (h : Sound lo d) {r : DebugGraph.Round layout}
    (hnames : ∀ l ∈ r.loops, '\n' ∉ (l.loopInfo.getD "loop_no_name").toList) :
    ∃ d', ∃ ss : List Section, d.round r = .ok d' ∧ Sound d'.graph.fresh d' ∧ Numbered d'.graph.fresh d' ∧
      (∀ s ∈ ss, Section.WellFormed s) ∧
      List.Forall₂ Described (ss.map Section.graph) (d.closed r).toList ∧
      d'.out.toList = d.out.toList ++ (ss.flatMap Section.fileLines).flatMap (· ++ ['\n']) := by
  obtain ⟨loops, ending⟩ := r
  have hout : ∀ (loops : List (DebugGraph.Loop layout)) (d : DebugGraph),
      (loops.foldl DebugGraph.loop d).out = d.out := by
    have htasks : ∀ (specs : List TaskSpec) (d : DebugGraph),
        (specs.foldl DebugGraph.registerTask d).out = d.out := by
      intro specs
      induction specs with
      | nil => exact fun _ => rfl
      | cons spec specs ih => exact fun d => ih (d.registerTask spec)
    intro loops
    induction loops with
    | nil => exact fun _ => rfl
    | cons l loops ih =>
        exact fun d => (ih (d.loop l)).trans
          (htasks l.tasks (d.beginSplitTask l.loopInfo l.scheNumThreads))
  have hsound := h.loops loops
  have hnumbered := hn.loops h hnames
  unfold DebugGraph.round DebugGraph.closed
  dsimp only
  rw [← hout loops d]
  generalize loops.foldl DebugGraph.loop d = d₁ at *
  cases ending with
  | stored printGraph heap =>
      have hset := hnumbered.setPrintGraph printGraph
      refine ⟨_, [], rfl, sound_resetTaskGraph _ heap, .reset hset.count hset.names heap,
        fun _ hs => absurd hs List.not_mem_nil, .nil, ?_⟩
      have hsame : (d₁.setPrintGraph printGraph).out = d₁.out := by
        unfold DebugGraph.setPrintGraph
        split <;> rfl
      show (d₁.setPrintGraph printGraph).out.toList = _
      rw [hsame]
      exact (List.append_nil _).symm
  | built printGraph junk heap =>
      have hsame : (d₁.setPrintGraph printGraph).out = d₁.out := by
        unfold DebugGraph.setPrintGraph
        split <;> rfl
      have hset := hnumbered.setPrintGraph printGraph
      have hsoundSet := hsound.setPrintGraph printGraph
      rw [← hsame]
      dsimp only [DebugGraph.spawnAndWait]
      generalize d₁.setPrintGraph printGraph = d₂ at *
      have hclosing := closing hsoundSet hset junk
      obtain ⟨s, hs, hend⟩ := hsoundSet.endConstructDag junk
      obtain ⟨s', hs', hvisits⟩ := hsoundSet.visits junk d₂.gPrintGraph
      obtain rfl : s' = s := (Prod.mk.inj (Except.ok.inj (hs'.symm.trans hs))).2
      have htext := checkGraphBfs_out hs
      refine ⟨_, [if d₂.gPrintGraph then sectionOf (d₂.close junk) s'.visited else ⟨[], []⟩],
        congrArg (Except.map _) hend, sound_resetTaskGraph _ heap, ?_⟩
      have hprinted : (d₂.close junk).gPrintGraph = d₂.gPrintGraph := rfl
      unfold Described
      simp only [List.forall_mem_singleton, List.map_cons, List.map_nil, Option.toList_some,
        List.forall₂_cons, List.forall₂_nil_left_iff, and_true, List.flatMap_singleton, hprinted]
      cases hprint : d₂.gPrintGraph with
      | true =>
          rw [hprint] at htext
          refine ⟨.reset rfl (fun _ hname => absurd hname List.not_mem_nil) heap,
            hclosing.wellFormed hvisits, hclosing.describes hvisits, ?_⟩
          show (d₂.out ++ DebugGraph.printIdLoopInfoTable d₂.graphCheck.loopInfos ++
            s'.out).toList = _
          rw [htext, String.append_assoc, String.toList_append]
          exact congrArg _ (hclosing.text hvisits)
      | false =>
          rw [hprint] at htext
          refine ⟨.reset (by exact hset.count) (by exact hset.names) heap,
            ⟨?_, List.nodup_nil, ?_⟩, rfl, ?_⟩
          · exact fun _ he => absurd he List.not_mem_nil
          · exact fun _ hname => absurd hname List.not_mem_nil
          · show (d₂.out ++ s'.out).toList = _
            have hnone : linesText (d₂.close junk).graph.heap (d₂.close junk).debug false s'.visited =
              "" := rfl
            have hend : "#\n".toList = ['#', '\n'] := by decide
            rw [htext, hnone, String.empty_append, String.toList_append, hend]
            rfl

theorem Numbered.run (hn : Numbered lo d) (h : Sound lo d)
    {rounds : List (DebugGraph.Round layout)}
    (hnames : ∀ r ∈ rounds, ∀ l ∈ r.loops, '\n' ∉ (l.loopInfo.getD "loop_no_name").toList) :
    ∃ d', ∃ ss : List Section, d.run rounds = .ok d' ∧ (∀ s ∈ ss, Section.WellFormed s) ∧
      List.Forall₂ Described (ss.map Section.graph) (d.closings rounds) ∧
      d'.out.toList = d.out.toList ++ (ss.flatMap Section.fileLines).flatMap (· ++ ['\n']) := by
  induction rounds generalizing lo d with
  | nil =>
      exact ⟨d, [], rfl, fun _ hs => absurd hs List.not_mem_nil, .nil, (List.append_nil _).symm⟩
  | cons r rounds ih =>
      obtain ⟨d₁, ss₁, hround, hsound, hnumbered, hwell₁, hdescribed₁, hout₁⟩ :=
        hn.round h (hnames r List.mem_cons_self)
      obtain ⟨d', ss, hrun, hwell, hdescribed, hout⟩ := ih hnumbered hsound
        fun r' hr' => hnames r' (List.mem_cons_of_mem r hr')
      refine ⟨d', ss₁ ++ ss, ?_, ?_, ?_, ?_⟩
      · unfold DebugGraph.run at hrun ⊢
        rw [List.foldlM_cons]
        show (DebugGraph.round d r).bind _ = _
        rw [hround]
        exact hrun
      · intro s hs
        rcases List.mem_append.mp hs with hs | hs
        · exact hwell₁ s hs
        · exact hwell s hs
      · unfold DebugGraph.closings
        rw [hround, List.map_append]
        exact List.rel_append hdescribed₁ hdescribed
      · rw [hout, hout₁, List.flatMap_append, List.flatMap_append, List.append_assoc]

/-- Whatever a program builds and runs, with names that stay on a line: the reader finds in the
file every graph that was closed, as far as its user goes on with `y`. -/
theorem loop_dependence_round_trip (threadNum : Nat) (debug : TaskId → DebugFields)
    (rounds : List (DebugGraph.Round layout))
    (hnames : ∀ r ∈ rounds, ∀ l ∈ r.loops, '\n' ∉ (l.loopInfo.getD "loop_no_name").toList) :
    ∃ d graphs, (DebugGraph.start threadNum debug).run rounds = .ok d ∧
      List.Forall₂ Described graphs ((DebugGraph.start threadNum debug).closings rounds) ∧
      ∀ choices : List String, graphs.length ≤ choices.length → ∃ g,
        GetLoopInfo.main d.out choices =
          some (graphs.take ((choices.takeWhile fun choice => choice = "y").length + 1), g) := by
  have hstart : Numbered 0 (DebugGraph.start threadNum debug) :=
    ⟨rfl, fun _ hname => absurd hname List.not_mem_nil, fun t _ hhi => absurd hhi (Nat.not_lt_zero t),
      fun t _ hhi => absurd hhi (Nat.not_lt_zero t), fun t _ _ hhi => absurd hhi (Nat.not_lt_zero t)⟩
  obtain ⟨d, ss, hrun, hwell, hdescribed, hout⟩ :=
    hstart.run (sound_start threadNum debug) hnames
  refine ⟨d, ss.map Section.graph, hrun, hdescribed, fun choices hchoices => ?_⟩
  rw [List.length_map] at hchoices
  obtain ⟨g, hg⟩ := readLines_sections ss hwell choices hchoices []
  refine ⟨g, ?_⟩
  have hnewline : ∀ l ∈ ss.flatMap Section.fileLines, '\n' ∉ l := by
    intro l hl
    obtain ⟨s, hs, hl⟩ := List.mem_flatMap.mp hl
    exact WellFormed.newline (hwell s hs) l hl
  have hfile : d.out.toList = (ss.flatMap Section.fileLines).flatMap (· ++ ['\n']) := hout
  unfold GetLoopInfo.main
  rw [hfile, lines_flatMap _ hnewline, hg]
  rfl

end Closed

namespace Example

open MergeSameAddr.Example

def task (type : InOut) : TaskSpec :=
  ⟨⟨false, 0⟩, fun _ _ => [], [⟨8, .NORMAL, type, NEIGHBOR_NONE, .INOUT_NONE⟩]⟩

/-- A task that writes, and two unnamed ones that read: printed first, and not the second time. -/
def rounds : List (DebugGraph.Round layout) :=
  let loops : List (DebugGraph.Loop layout) :=
    [⟨some "write : all ", 2, [task .OUT], insertionSort⟩,
      ⟨none, 2, [task .IN, task .IN], insertionSort⟩]
  let heap : Heap := fun _ => Task.newAceMesh ⟨false, 0⟩
  [⟨loops, .built true ⟨false, 0⟩ heap⟩, ⟨loops, .built false ⟨false, 0⟩ heap⟩]

def start : DebugGraph := DebugGraph.start 2 fun _ => ⟨false, 0, 0, 0⟩

end Example

/-- Two graphs are written, and the user has both shown. -/
theorem loop_dependence_round_trip_twice : ∃ d graphs,
    Example.start.run Example.rounds = .ok d ∧
      List.Forall₂ Described graphs (Example.start.closings Example.rounds) ∧
      graphs.length = 2 ∧ ∃ g, GetLoopInfo.main d.out ["y", "n"] = some (graphs, g) := by
  obtain ⟨d, graphs, hrun, hdescribed, hread⟩ := loop_dependence_round_trip 2
    (fun _ => ⟨false, 0, 0, 0⟩) Example.rounds (by decide)
  have hlength : (Example.start.closings Example.rounds).length = 2 := by decide +kernel
  have htwo : graphs.length = 2 := hdescribed.length_eq.trans hlength
  obtain ⟨g, hg⟩ := hread ["y", "n"] (le_of_eq htwo)
  refine ⟨d, graphs, hrun, hdescribed, htwo, g, ?_⟩
  rw [hg]
  exact congrArg (fun l => some (l, g)) (List.take_of_length_le (le_of_eq htwo))

end AceMesh.GraphCheck
