import Mathlib.Algebra.Order.Floor.Div
import Mathlib.Data.Int.CardIntervalMod

/-!
# Affinities from array tiles

`acemesh_affinity_from_arraytile` gives a task an affinity from the segment of an array that it
works on: the segments are divided among the nodes of the machine, and the tasks of a node go to
its threads in turn. `NODENUM` and `CORENUM`, the nodes and the cores of each, are fixed when the
library is built; `numThreads` is up to the caller.

The number of nodes is rounded down, and the tasks of each node go round only so many threads as
the last node would have. So the affinities are balanced if the threads fill all their nodes, and
else only until a task comes round (`affinities_balanced_iff`).
-/

namespace AceMesh

/-- `task_count`, and for each task since the last `acemesh_end_split_task` the node and the
affinity that it has been given. -/
structure TileAffinities (nodeNum : Nat) where
  taskCount : Fin nodeNum → Nat
  assigned : List (Fin nodeNum × Nat)

namespace TileAffinities

variable {nodeNum coreNum : Nat}

/-- `acemesh_end_split_task`. -/
def endSplitTask (_ : TileAffinities nodeNum) : TileAffinities nodeNum where
  taskCount := fun _ => 0
  assigned := []

/-- `acemesh_affinity_from_arraytile`. It has no result where it divides by zero, indexes out of
`task_count` or counts beyond `int`. `highest_seg_num / nodenum` is a division of `double`s: by
zero it gives an infinity or a NaN, which does not convert to `int`. -/
def affinityFromArraytile (coreNum : Nat) (s : TileAffinities nodeNum)
    (highestSegId highestSegNum numThreads : Nat) : Option (TileAffinities nodeNum) :=
  -- `ceil` of an integer quotient
  let nodenum := numThreads / coreNum
  if nodenum = 0 then none
  else
    let tempid := highestSegNum ⌈/⌉ nodenum
    if tempid = 0 then none
    else if h : highestSegId / tempid < nodeNum then
      let nodeid : Fin nodeNum := ⟨highestSegId / tempid, h⟩
      let tempid := numThreads % coreNum
      let affi :=
        if tempid = 0 then s.taskCount nodeid % coreNum + coreNum * nodeid
        else s.taskCount nodeid % (numThreads % coreNum) + coreNum * nodeid
      if s.taskCount nodeid + 1 < 2 ^ 31 then
        some
          { taskCount := Function.update s.taskCount nodeid (s.taskCount nodeid + 1)
            assigned := s.assigned ++ [(nodeid, affi)] }
      else none
    else none

/-- The calls of one phase. -/
def run (coreNum : Nat) (s : TileAffinities nodeNum) (highestSegNum numThreads : Nat)
    (calls : List Nat) : Option (TileAffinities nodeNum) :=
  calls.foldlM (fun s i => s.affinityFromArraytile coreNum i highestSegNum numThreads) s

/-- A phase begins. -/
structure Fresh (s : TileAffinities nodeNum) : Prop where
  taskCount : ∀ i, s.taskCount i = 0
  assigned : s.assigned = []

theorem fresh_endSplitTask (s : TileAffinities nodeNum) : s.endSplitTask.Fresh :=
  ⟨fun _ => rfl, rfl⟩

/-- `w` is a thread of the node. -/
def Worker (coreNum numThreads : Nat) (node : Fin nodeNum) (w : Nat) : Prop :=
  coreNum * node ≤ w ∧ w < coreNum * (node + 1) ∧ w < numThreads

/-- The affinities name threads, and those of a node get its tasks evenly. -/
structure Balanced (coreNum numThreads : Nat) (s : TileAffinities nodeNum) : Prop where
  inRange : ∀ a ∈ s.assigned, a.2 < numThreads
  even : ∀ node w w', Worker coreNum numThreads node w → Worker coreNum numThreads node w' →
    s.assigned.count (node, w) ≤ s.assigned.count (node, w') + 1

/-! ## Going round -/

/-- How often `c` tasks that go round `m` threads come to thread `j`. -/
def rounds (m c j : Nat) : Nat := Nat.count (· ≡ j [MOD m]) c

theorem rounds_eq {m c j : Nat} (hj : j < m) :
    rounds m c j = c / m + if j < c % m then 1 else 0 := by
  unfold rounds
  rw [Nat.count_modEq_card c (Nat.zero_lt_of_lt hj) j, Nat.mod_eq_of_lt hj]

theorem rounds_succ {m c j : Nat} (hj : j < m) :
    rounds m (c + 1) j = rounds m c j + if c % m = j then 1 else 0 := by
  have hturn : c ≡ j [MOD m] ↔ c % m = j := by
    unfold Nat.ModEq
    rw [Nat.mod_eq_of_lt hj]
  unfold rounds
  rw [Nat.count_succ]
  exact congrArg (_ + ·) (if_congr hturn rfl rfl)

theorem rounds_le {m c j j' : Nat} (hj : j < m) (hj' : j' < m) :
    rounds m c j ≤ rounds m c j' + 1 := by
  rw [rounds_eq hj, rounds_eq hj']
  split <;> omega

theorem rounds_le_one {m c j : Nat} (hj : j < m) (hc : c ≤ m) : rounds m c j ≤ 1 := by
  rw [rounds_eq hj]
  rcases Nat.lt_or_eq_of_le hc with hlt | rfl
  · rw [Nat.div_eq_of_lt hlt]
    split <;> omega
  · rw [Nat.div_self (Nat.zero_lt_of_lt hj), Nat.mod_self]
    exact Nat.le_refl 1

theorem two_le_rounds {m c : Nat} (hm : 0 < m) (hc : m < c) : 2 ≤ rounds m c 0 := by
  rw [rounds_eq hm]
  have hdiv := Nat.div_add_mod c m
  have hpos : 0 < c / m := Nat.div_pos hc.le hm
  split
  · omega
  · rename_i hmod
    by_contra hlt
    have hone : c / m = 1 := by omega
    rw [hone] at hdiv
    omega

/-! ## A phase -/

/-- The calls whose segment lies in the `node`-th part of the array, when the segments are divided
among `numThreads / coreNum` nodes. -/
def share (coreNum highestSegNum numThreads : Nat) (calls : List Nat) (node : Nat) : Nat :=
  calls.countP fun i => i / (highestSegNum ⌈/⌉ (numThreads / coreNum)) = node

/-- How many threads the tasks of a node go round. -/
def width (coreNum numThreads : Nat) : Nat :=
  if numThreads % coreNum = 0 then coreNum else numThreads % coreNum

variable {s s' : TileAffinities nodeNum} {numThreads highestSegNum highestSegId : Nat}
  {calls : List Nat}

theorem width_pos (hcore : 0 < coreNum) : 0 < width coreNum numThreads := by
  unfold width
  split
  · exact hcore
  · exact Nat.pos_of_ne_zero ‹_›

theorem width_le (hcore : 0 < coreNum) : width coreNum numThreads ≤ coreNum := by
  unfold width
  split
  · exact Nat.le_refl coreNum
  · exact (Nat.mod_lt numThreads hcore).le

/-- The node of a segment is one of those that the threads fill. -/
theorem node_lt (hnodes : 0 < numThreads / coreNum) (hseg : highestSegId < highestSegNum) :
    0 < highestSegNum ⌈/⌉ (numThreads / coreNum) ∧
      highestSegId / (highestSegNum ⌈/⌉ (numThreads / coreNum)) < numThreads / coreNum := by
  have hle : highestSegNum ≤
      numThreads / coreNum * (highestSegNum ⌈/⌉ (numThreads / coreNum)) :=
    le_smul_ceilDiv hnodes
  have hpos : 0 < highestSegNum ⌈/⌉ (numThreads / coreNum) := by
    apply Nat.pos_of_ne_zero
    intro hzero
    rw [hzero, Nat.mul_zero] at hle
    omega
  refine ⟨hpos, ?_⟩
  rw [Nat.div_lt_iff_lt_mul hpos]
  exact Nat.lt_of_lt_of_le hseg hle

/-- What a call does, and when. -/
theorem affinityFromArraytile_eq_some_iff (hmax : numThreads ≤ nodeNum * coreNum)
    (hseg : highestSegId < highestSegNum) :
    s.affinityFromArraytile coreNum highestSegId highestSegNum numThreads = some s' ↔
      0 < numThreads / coreNum ∧
        ∃ node : Fin nodeNum, highestSegId / (highestSegNum ⌈/⌉ (numThreads / coreNum)) = node ∧
          s.taskCount node + 1 < 2 ^ 31 ∧
          s' =
            { taskCount := Function.update s.taskCount node (s.taskCount node + 1)
              assigned := s.assigned ++
                [(node, s.taskCount node % width coreNum numThreads + coreNum * node)] } := by
  unfold affinityFromArraytile
  by_cases hnodes : numThreads / coreNum = 0
  · simp only [if_pos hnodes]
    constructor
    · exact nofun
    · intro h
      omega
  · have hpos := Nat.pos_of_ne_zero hnodes
    obtain ⟨htemp, hnode⟩ := node_lt hpos hseg
    have hcore : numThreads / coreNum ≤ nodeNum := Nat.div_le_of_le_mul (by rwa [Nat.mul_comm])
    simp only [if_neg hnodes, if_neg (Nat.ne_of_gt htemp), dif_pos (hnode.trans_le hcore)]
    generalize hid : highestSegId / (highestSegNum ⌈/⌉ (numThreads / coreNum)) = nodeid at hnode
    have haffi (c : Nat) :
        (if numThreads % coreNum = 0 then c % coreNum + coreNum * nodeid
          else c % (numThreads % coreNum) + coreNum * nodeid) =
          c % width coreNum numThreads + coreNum * nodeid := by
      unfold width
      split <;> rfl
    simp only [haffi]
    constructor
    · intro h
      split at h
      · exact ⟨hpos, ⟨nodeid, hnode.trans_le hcore⟩, rfl, ‹_›, (Option.some.inj h).symm⟩
      · cases h
    · rintro ⟨-, node, rfl, hcount, rfl⟩
      exact if_pos hcount

/-- The state after these calls of a phase. -/
structure Tally (coreNum highestSegNum numThreads : Nat) (calls : List Nat)
    (s : TileAffinities nodeNum) : Prop where
  taskCount : ∀ node : Fin nodeNum, s.taskCount node = share coreNum highestSegNum numThreads calls node
  bound : ∀ node, s.taskCount node < 2 ^ 31
  assigned : ∀ a ∈ s.assigned, a.1 < numThreads / coreNum ∧
    ∃ j < width coreNum numThreads, a.2 = coreNum * a.1 + j
  count : ∀ node : Fin nodeNum, ∀ j < width coreNum numThreads,
    s.assigned.count (node, coreNum * node + j) =
      rounds (width coreNum numThreads) (s.taskCount node) j

theorem Fresh.tally (h : s.Fresh) : Tally coreNum highestSegNum numThreads [] s where
  taskCount := h.taskCount
  bound node := by
    rw [h.taskCount node]
    decide
  assigned a ha := by
    rw [h.assigned] at ha
    exact absurd ha List.not_mem_nil
  count node j hj := by
    rw [h.assigned, h.taskCount node]
    rfl

theorem share_append (node : Nat) :
    share coreNum highestSegNum numThreads (calls ++ [highestSegId]) node =
      share coreNum highestSegNum numThreads calls node +
        if highestSegId / (highestSegNum ⌈/⌉ (numThreads / coreNum)) = node then 1 else 0 := by
  unfold share
  rw [List.countP_append, List.countP_singleton]
  simp only [decide_eq_true_eq]

theorem Tally.step (h : Tally coreNum highestSegNum numThreads calls s)
    (hmax : numThreads ≤ nodeNum * coreNum) (hseg : highestSegId < highestSegNum)
    (hstep : s.affinityFromArraytile coreNum highestSegId highestSegNum numThreads = some s') :
    Tally coreNum highestSegNum numThreads (calls ++ [highestSegId]) s' := by
  obtain ⟨hnodes, node, hid, hcount, rfl⟩ :=
    (affinityFromArraytile_eq_some_iff hmax hseg).mp hstep
  have hcore : 0 < coreNum := Nat.pos_of_ne_zero fun hzero => by simp [hzero] at hnodes
  have hwidth : 0 < width coreNum numThreads := width_pos hcore
  have hnode := (node_lt hnodes hseg).2
  rw [hid] at hnode
  have hturn := Nat.mod_lt (s.taskCount node) hwidth
  have hsame : Function.update s.taskCount node (s.taskCount node + 1) node =
      s.taskCount node + 1 := Function.update_self ..
  have hother {node' : Fin nodeNum} (hne : node' ≠ node) :
      Function.update s.taskCount node (s.taskCount node + 1) node' = s.taskCount node' :=
    Function.update_of_ne hne ..
  constructor
  · intro node'
    change Function.update s.taskCount node (s.taskCount node + 1) node' = _
    rw [share_append, hid]
    by_cases hnn : node' = node
    · rw [hnn, hsame, if_pos rfl, h.taskCount node]
    · rw [hother hnn, if_neg fun heq => hnn (Fin.ext heq.symm), h.taskCount node', Nat.add_zero]
  · intro node'
    change Function.update s.taskCount node (s.taskCount node + 1) node' < _
    by_cases hnn : node' = node
    · rw [hnn, hsame]
      exact hcount
    · rw [hother hnn]
      exact h.bound node'
  · intro a ha
    rcases List.mem_append.mp ha with ha | ha
    · exact h.assigned a ha
    · rw [List.mem_singleton.mp ha]
      exact ⟨hnode, _, hturn, Nat.add_comm ..⟩
  · intro node' j hj
    change List.count _ (s.assigned ++ _) =
      rounds _ (Function.update s.taskCount node (s.taskCount node + 1) node') j
    rw [List.count_append, h.count node' j hj, List.count_singleton]
    by_cases hnn : node' = node
    · rw [hnn, hsame, rounds_succ hj]
      congr 1
      refine if_congr ?_ rfl rfl
      rw [beq_iff_eq, Prod.mk.injEq, Nat.add_comm (coreNum * node), Nat.add_right_cancel_iff]
      exact and_iff_right rfl
    · rw [hother hnn, if_neg, Nat.add_zero]
      rw [beq_iff_eq, Prod.mk.injEq]
      exact fun heq => hnn heq.1.symm

theorem run_concat (i : Nat) : s.run coreNum highestSegNum numThreads (calls ++ [i]) =
    (s.run coreNum highestSegNum numThreads calls).bind fun s =>
      s.affinityFromArraytile coreNum i highestSegNum numThreads := by
  unfold run
  simp [List.foldlM_append]

theorem tally_run (hs : s.Fresh) (hmax : numThreads ≤ nodeNum * coreNum)
    (hcalls : ∀ i ∈ calls, i < highestSegNum)
    (hrun : s.run coreNum highestSegNum numThreads calls = some s') :
    Tally coreNum highestSegNum numThreads calls s' := by
  induction calls using List.reverseRecOn generalizing s' with
  | nil =>
      cases hrun
      exact hs.tally
  | append_singleton calls i ih =>
      rw [run_concat] at hrun
      obtain ⟨s₁, hrun₁, hstep⟩ := Option.bind_eq_some_iff.mp hrun
      have htally := ih (fun i hi => hcalls i (List.mem_append.mpr (Or.inl hi))) hrun₁
      exact htally.step hmax (hcalls i (by simp)) hstep

/-- A phase runs to its end if the threads fill a node and no node gets too many tasks. -/
theorem exists_run (hs : s.Fresh) (hmax : numThreads ≤ nodeNum * coreNum)
    (hcalls : ∀ i ∈ calls, i < highestSegNum) (hnodes : 0 < numThreads / coreNum)
    (hcount : ∀ node : Fin nodeNum, share coreNum highestSegNum numThreads calls node < 2 ^ 31) :
    ∃ s', s.run coreNum highestSegNum numThreads calls = some s' := by
  induction calls using List.reverseRecOn with
  | nil => exact ⟨s, rfl⟩
  | append_singleton calls i ih =>
      have hprefix (i' : Nat) (hi' : i' ∈ calls) : i' < highestSegNum :=
        hcalls i' (List.mem_append.mpr (Or.inl hi'))
      have hi := hcalls i (by simp)
      obtain ⟨s₁, hrun₁⟩ := ih hprefix fun node => by
        have hle := hcount node
        rw [share_append] at hle
        exact (Nat.le_add_right _ _).trans_lt hle
      have htally := tally_run hs hmax hprefix hrun₁
      have hnode := (node_lt hnodes hi).2.trans_le
        (Nat.div_le_of_le_mul (by rwa [Nat.mul_comm]) : numThreads / coreNum ≤ nodeNum)
      have hbound : s₁.taskCount ⟨_, hnode⟩ + 1 < 2 ^ 31 := by
        have hlt := hcount ⟨_, hnode⟩
        rw [share_append, if_pos rfl] at hlt
        rw [htally.taskCount]
        exact hlt
      have hstep := (affinityFromArraytile_eq_some_iff hmax hi).mpr
        ⟨hnodes, ⟨_, hnode⟩, rfl, hbound, rfl⟩
      rw [run_concat, hrun₁]
      exact ⟨_, hstep⟩

/-- The threads beyond those that the tasks go round get none. -/
theorem Tally.count_of_width_le (h : Tally coreNum highestSegNum numThreads calls s)
    (node : Fin nodeNum) {j : Nat} (hj : width coreNum numThreads ≤ j) :
    s.assigned.count (node, coreNum * node + j) = 0 := by
  rw [List.count_eq_zero]
  intro hmem
  obtain ⟨-, j', hj', heq⟩ := h.assigned _ hmem
  have hsame : j = j' := Nat.add_left_cancel heq
  omega

theorem full_node_le {node : Nat} (hnode : node < numThreads / coreNum) :
    coreNum * (node + 1) ≤ numThreads :=
  (Nat.mul_le_mul_left coreNum hnode).trans (Nat.mul_div_le numThreads coreNum)

theorem Tally.balanced (h : Tally coreNum highestSegNum numThreads calls s) (hcore : 0 < coreNum)
    (hcount : ∀ node, coreNum ∣ numThreads ∨ s.taskCount node ≤ numThreads % coreNum) :
    s.Balanced coreNum numThreads := by
  have hwidth : width coreNum numThreads ≤ coreNum := width_le hcore
  constructor
  · intro a ha
    obtain ⟨hnode, j, hj, heq⟩ := h.assigned a ha
    have hle := full_node_le hnode
    rw [Nat.mul_add, Nat.mul_one] at hle
    omega
  · intro node w w' hw hw'
    obtain ⟨j, rfl⟩ := Nat.exists_eq_add_of_le hw.1
    obtain ⟨j', rfl⟩ := Nat.exists_eq_add_of_le hw'.1
    rcases hcount node with hdvd | hle
    · -- all threads of the node take part
      have hall : width coreNum numThreads = coreNum := if_pos (Nat.mod_eq_zero_of_dvd hdvd)
      have hj : j < width coreNum numThreads := by
        have hlt := hw.2.1
        rw [Nat.mul_add, Nat.mul_one] at hlt
        omega
      have hj' : j' < width coreNum numThreads := by
        have hlt := hw'.2.1
        rw [Nat.mul_add, Nat.mul_one] at hlt
        omega
      rw [h.count node j hj, h.count node j' hj']
      exact rounds_le hj hj'
    · -- no thread has got two tasks
      have hone : s.assigned.count (node, coreNum * node + j) ≤ 1 := by
        by_cases hj : j < width coreNum numThreads
        · rw [h.count node j hj]
          apply rounds_le_one hj
          apply hle.trans
          unfold width
          split <;> omega
        · rw [h.count_of_width_le node (Nat.le_of_not_lt hj)]
          exact Nat.zero_le 1
      exact hone.trans (Nat.le_add_left 1 _)

/-- If the last node is not filled, the tasks of a node have not come round. -/
theorem Tally.le_of_balanced (h : Tally coreNum highestSegNum numThreads calls s)
    (hcore : 0 < coreNum) (hbalanced : s.Balanced coreNum numThreads)
    (hdvd : ¬coreNum ∣ numThreads) (node : Fin nodeNum) :
    s.taskCount node ≤ numThreads % coreNum := by
  have hpart : 0 < numThreads % coreNum := Nat.pos_of_ne_zero fun hzero =>
    hdvd (Nat.dvd_of_mod_eq_zero hzero)
  have hwidth : width coreNum numThreads = numThreads % coreNum :=
    if_neg (Nat.ne_of_gt hpart)
  have hlt : numThreads % coreNum < coreNum := Nat.mod_lt numThreads hcore
  by_contra hgt
  have htwo : 2 ≤ s.assigned.count (node, coreNum * node + 0) := by
    rw [h.count node 0 (by omega), hwidth]
    exact two_le_rounds hpart (by omega)
  have hfull : (node : Nat) < numThreads / coreNum :=
    (h.assigned _ (List.count_pos_iff.mp (Nat.zero_lt_two.trans_le htwo))).1
  have hle := full_node_le hfull
  have hnode : coreNum * (node + 1) = coreNum * node + coreNum := Nat.mul_succ coreNum node
  have hnone := h.count_of_width_le node (Nat.le_of_eq hwidth)
  have heven := hbalanced.even node (coreNum * node + 0)
    (coreNum * node + numThreads % coreNum) ⟨by omega, by omega, by omega⟩
    ⟨by omega, by omega, by omega⟩
  omega

/-- The affinities are balanced just if the threads fill a node at least and, where they leave
some cores of the last node empty, no node's tasks come round. -/
theorem affinities_balanced_iff (hs : s.Fresh) (hn : 1 ≤ numThreads)
    (hmax : numThreads ≤ nodeNum * coreNum) (hcalls : ∀ i ∈ calls, i < highestSegNum) :
    (∃ s', s.run coreNum highestSegNum numThreads calls = some s' ∧
        s'.Balanced coreNum numThreads) ↔
      calls = [] ∨ coreNum ≤ numThreads ∧ ∀ node : Fin nodeNum,
        share coreNum highestSegNum numThreads calls node < 2 ^ 31 ∧
          (coreNum ∣ numThreads ∨
            share coreNum highestSegNum numThreads calls node ≤ numThreads % coreNum) := by
  have hcore : 0 < coreNum := by
    apply Nat.pos_of_ne_zero
    rintro rfl
    omega
  constructor
  · rintro ⟨s', hrun, hbalanced⟩
    have htally := tally_run hs hmax hcalls hrun
    rcases List.eq_nil_or_concat calls with hnil | ⟨calls, i, rfl⟩
    · exact Or.inl hnil
    · rw [List.concat_eq_append] at *
      right
      constructor
      · -- the last call has a node
        rw [run_concat] at hrun
        obtain ⟨s₁, -, hstep⟩ := Option.bind_eq_some_iff.mp hrun
        have hnodes := ((affinityFromArraytile_eq_some_iff hmax (hcalls i (by simp))).mp hstep).1
        exact (Nat.div_pos_iff.mp hnodes).2
      · intro node
        rw [← htally.taskCount node]
        refine ⟨htally.bound node, ?_⟩
        by_cases hdvd : coreNum ∣ numThreads
        · exact Or.inl hdvd
        · exact Or.inr (htally.le_of_balanced hcore hbalanced hdvd node)
  · rintro (rfl | ⟨hfill, hcount⟩)
    · refine ⟨s, rfl, (tally_run hs hmax hcalls rfl).balanced hcore fun node => Or.inr ?_⟩
      rw [hs.taskCount node]
      exact Nat.zero_le _
    · obtain ⟨s', hrun⟩ := exists_run hs hmax hcalls (Nat.div_pos hfill hcore)
        fun node => (hcount node).1
      have htally := tally_run hs hmax hcalls hrun
      refine ⟨s', hrun, htally.balanced hcore fun node => ?_⟩
      rw [htally.taskCount node]
      exact (hcount node).2

/-- Two nodes of 14 cores, filled: two tasks of the first half of the array. -/
theorem affinities_balanced_full : ∃ s' : TileAffinities 2,
    (⟨fun _ => 0, []⟩ : TileAffinities 2).run 14 4 28 [0, 1] = some s' ∧ s'.Balanced 14 28 := by
  refine (affinities_balanced_iff ⟨fun _ => rfl, rfl⟩ (by omega) (by omega) (by decide)).mpr
    (Or.inr ⟨by omega, fun node => ⟨?_, Or.inl (by decide)⟩⟩)
  exact List.countP_le_length.trans_lt (by decide)

/-- Four threads on two nodes of 14 cores: a division by zero. 20 threads: the seventh task of the
first node comes back to thread 0, while thread 6 has had none. -/
theorem affinities_not_balanced :
    (⟨fun _ => 0, []⟩ : TileAffinities 2).run 14 4 4 [0] = none ∧
      ∃ s' : TileAffinities 2,
        (⟨fun _ => 0, []⟩ : TileAffinities 2).run 14 4 20 (List.replicate 7 0) = some s' ∧
          ¬s'.Balanced 14 20 := by
  refine ⟨rfl, ?_⟩
  have hassigned : ((⟨fun _ => 0, []⟩ : TileAffinities 2).run 14 4 20
      (List.replicate 7 0)).map (·.assigned) =
        some (([0, 1, 2, 3, 4, 5, 0].map fun w => (⟨0, by decide⟩, w))) := by decide
  obtain ⟨s', hrun, hassigned⟩ := Option.map_eq_some_iff.mp hassigned
  refine ⟨s', hrun, fun hbalanced => ?_⟩
  have heven := hbalanced.even ⟨0, by decide⟩ 0 6 ⟨by decide, by decide, by decide⟩
    ⟨by decide, by decide, by decide⟩
  rw [hassigned] at heven
  exact absurd heven (by decide)

end TileAffinities

end AceMesh
