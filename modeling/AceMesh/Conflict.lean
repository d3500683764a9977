import AceMesh.Merging

/-!
# The conflict warning

The `DEBUG_GRAPH` build, with `MERGE_SAME_ADDR`: `end_split_task` keeps two flags for every
address that the loop has accessed so far, and warns when an access meets a flag that it
conflicts with. The flags lose no access (`updateWriteAddr_spec`) and after merging a task
accesses an address once, so the warning is printed for an address exactly if two tasks of
the loop conflict there (`warns_iff`).
-/

namespace AceMesh.Conflict

open TaskDagGraph MergeSameAddr

structure UpdateAddrFlag where
  wFlag : Bool
  rFlag : Bool

/-- The constructor. -/
def UpdateAddrFlag.new : UpdateAddrFlag := ⟨false, false⟩

/-- `WRITE` and `READ`. -/
inductive AccessType
  | WRITE
  | READ
  deriving DecidableEq

def UpdateAddrFlag.set (flag : UpdateAddrFlag) : AccessType → UpdateAddrFlag
  | .WRITE => { flag with wFlag := true }
  | .READ => { flag with rFlag := true }

def updateWriteAddr (addrUpdate : Addr → Option UpdateAddrFlag) (addr : Addr) (type : AccessType) :
    Nat × (Addr → Option UpdateAddrFlag) :=
  match addrUpdate addr with
  | none => (0, Function.update addrUpdate addr (some (UpdateAddrFlag.new.set type)))
  | some tmp =>
    if type = .WRITE ∧ tmp.wFlag = true then
      (2, Function.update addrUpdate addr (some { tmp with wFlag := true }))
    else if type = .WRITE ∧ tmp.rFlag = true then
      (1, Function.update addrUpdate addr (some { tmp with wFlag := true }))
    else if type = .READ ∧ tmp.wFlag = true then
      (1, Function.update addrUpdate addr (some { tmp with rFlag := true }))
    else (0, Function.update addrUpdate addr (some (tmp.set type)))

/-- What is printed: the loop, the address and which of the two sentences. -/
structure Warning where
  lastLoopInfo : String
  addr : Addr
  confilt : Nat
  deriving DecidableEq

/-- The graph with the local variables of `end_split_task` and its output. -/
structure Splitting where
  graph : TaskDagGraph
  addrUpdate : Addr → Option UpdateAddrFlag
  warnings : List Warning

/-- `search_itr->second.r_tasks.clear()`. An entry that is warned about has a writer
(`Flagged.writer`). -/
def clearReaders (e : RwTask) : RwTask :=
  if h : e.wTask ≠ none then ⟨[], e.wTask, Or.inr h⟩ else e

/-- The access that a tuple is flagged as. -/
def accessType (v : VirtualTuple) : AccessType := if v.type.writes then .WRITE else .READ

/-- One tuple. The iterator that the readers are cleared through was set before the tuple was
entered. -/
def enterChecked (lastLoopInfo : String) (s : Splitting) (itr : VirtualTuple) : Splitting :=
  if itr.type = .INOUT_NONE ∨ itr.addr = 0 ∨ itr.t = none then s
  else
    let g := s.graph.enterTuple itr
    let r := updateWriteAddr s.addrUpdate itr.addr (accessType itr)
    if r.1 = 0 then { s with graph := g, addrUpdate := r.2 }
    else
      { graph :=
          if s.graph.addrTask itr.addr = none then g
          else
            { g with
              addrTask := Function.update g.addrTask itr.addr
                ((g.addrTask itr.addr).map clearReaders) }
        addrUpdate := r.2
        warnings := s.warnings ++ [⟨lastLoopInfo, itr.addr, r.1⟩] }

/-- `end_split_task`. -/
def endSplitTask {layout : Layout} (sort : StdSort layout) (lastLoopInfo : String)
    (g : TaskDagGraph) : Splitting :=
  let tuples := uniqueTuples (sort.sort g.oneVirtualTaskTuples)
  tuples.foldl (enterChecked lastLoopInfo)
    { graph := { g with oneVirtualTaskTuples := tuples }
      addrUpdate := fun _ => none
      warnings := [] }

/-! ## The flags -/

/-- The tuple is entered, at address `a`. -/
def Live (a : Addr) (v : VirtualTuple) : Prop :=
  v.addr = a ∧ v.addr ≠ 0 ∧ v.t ≠ none ∧ v.type ≠ .INOUT_NONE

/-- Two tuples at one address of which one writes. -/
def Clash (a : Addr) (v w : VirtualTuple) : Prop :=
  Live a v ∧ Live a w ∧ (v.type.writes = true ∨ w.type.writes = true)

theorem Clash.symm {a : Addr} {v w : VirtualTuple} (h : Clash a v w) : Clash a w v :=
  ⟨h.2.1, h.1, h.2.2.symm⟩

def wFlagAt (addrUpdate : Addr → Option UpdateAddrFlag) (a : Addr) : Bool :=
  ((addrUpdate a).map UpdateAddrFlag.wFlag).getD false

def rFlagAt (addrUpdate : Addr → Option UpdateAddrFlag) (a : Addr) : Bool :=
  ((addrUpdate a).map UpdateAddrFlag.rFlag).getD false

/-- An access sets its flag, keeps all others and finds a conflict exactly if a flag that it
conflicts with is set. -/
theorem updateWriteAddr_spec (addrUpdate : Addr → Option UpdateAddrFlag) (addr a : Addr)
    (type : AccessType) :
    (wFlagAt (updateWriteAddr addrUpdate addr type).2 a = true ↔
      wFlagAt addrUpdate a = true ∨ a = addr ∧ type = .WRITE) ∧
    (rFlagAt (updateWriteAddr addrUpdate addr type).2 a = true ↔
      rFlagAt addrUpdate a = true ∨ a = addr ∧ type = .READ) ∧
    ((updateWriteAddr addrUpdate addr type).1 ≠ 0 ↔
      wFlagAt addrUpdate addr = true ∨ type = .WRITE ∧ rFlagAt addrUpdate addr = true) := by
  unfold updateWriteAddr wFlagAt rFlagAt
  by_cases ha : a = addr
  · subst ha
    cases hflag : addrUpdate a with
    | none => cases type <;> simp [UpdateAddrFlag.set, UpdateAddrFlag.new]
    | some flag =>
        obtain ⟨w, r⟩ := flag
        cases type <;> cases w <;> cases r <;> simp [UpdateAddrFlag.set]
  · cases hflag : addrUpdate addr with
    | none => cases type <;> simp [ha]
    | some flag =>
        obtain ⟨w, r⟩ := flag
        cases type <;> cases w <;> cases r <;> simp [ha]

/-! ## A loop -/

/-- The warnings name the address. -/
def Warned (a : Addr) (s : Splitting) : Prop := ∃ w ∈ s.warnings, w.addr = a

/-- The state after the tuples `l`. -/
structure Flagged (l : List VirtualTuple) (s : Splitting) : Prop where
  written (a : Addr) :
    wFlagAt s.addrUpdate a = true ↔ ∃ v ∈ l, Live a v ∧ v.type.writes = true
  read (a : Addr) :
    rFlagAt s.addrUpdate a = true ↔ ∃ v ∈ l, Live a v ∧ ¬v.type.writes = true
  warned (a : Addr) : Warned a s ↔ ¬l.Pairwise fun v w => ¬Clash a v w
  /-- Behind a write flag the table has a writer. -/
  writer (a : Addr) : wFlagAt s.addrUpdate a = true →
    ∃ e, s.graph.addrTask a = some e ∧ e.wTask ≠ none

theorem Flagged.start (g : TaskDagGraph) :
    Flagged [] { graph := g, addrUpdate := fun _ => none, warnings := [] } := by
  constructor <;> simp [wFlagAt, rFlagAt, Warned]

section

variable {s : Splitting} {v : VirtualTuple} {l : List VirtualTuple} {info : String}

theorem accessType_write : accessType v = .WRITE ↔ v.type.writes = true := by
  unfold accessType
  split <;> simp [*]

theorem accessType_read : accessType v = .READ ↔ ¬v.type.writes = true := by
  unfold accessType
  split <;> simp [*]

theorem enterChecked_skip (hlive : ¬Live v.addr v) : enterChecked info s v = s := by
  unfold enterChecked
  apply if_pos
  unfold Live at hlive
  tauto

theorem clearReaders_wTask (e : RwTask) : (clearReaders e).wTask = e.wTask := by
  unfold clearReaders
  split <;> rfl

theorem enterTuple_addrTask {t : TaskId} (g : TaskDagGraph) (hlive : Live v.addr v)
    (ht : v.t = some t) : (g.enterTuple v).addrTask =
      Function.update g.addrTask v.addr
        (some (enterAccess (g.addrTask v.addr) v.type t v.significance)) := by
  have hskip : ¬(v.type = .INOUT_NONE ∨ v.addr = 0) := by
    rw [not_or]
    exact ⟨hlive.2.2.2, hlive.2.1⟩
  unfold enterTuple
  rw [ht]
  dsimp only
  rw [if_neg hskip]

/-- What a live tuple does to the flags, the output and the table. -/
theorem enterChecked_live (hlive : Live v.addr v) :
    (enterChecked info s v).addrUpdate =
      (updateWriteAddr s.addrUpdate v.addr (accessType v)).2 ∧
    (∀ a, Warned a (enterChecked info s v) ↔ Warned a s ∨
      a = v.addr ∧ (updateWriteAddr s.addrUpdate v.addr (accessType v)).1 ≠ 0) ∧
    (∀ a, a ≠ v.addr → (enterChecked info s v).graph.addrTask a = s.graph.addrTask a) ∧
    ∃ e, (enterChecked info s v).graph.addrTask v.addr = some e ∧
      (v.type.writes = true → e.wTask ≠ none) ∧
      ∀ e', s.graph.addrTask v.addr = some e' → e'.wTask ≠ none → e.wTask ≠ none := by
  obtain ⟨t, ht⟩ := Option.ne_none_iff_exists'.mp hlive.2.2.1
  have hgo : ¬(v.type = .INOUT_NONE ∨ v.addr = 0 ∨ v.t = none) := by
    simp only [not_or]
    exact ⟨hlive.2.2.2, hlive.2.1, hlive.2.2.1⟩
  have hentered := enterTuple_addrTask s.graph hlive ht
  have hwriter (e' : RwTask) (hsome : s.graph.addrTask v.addr = some e')
      (hw : e'.wTask ≠ none) :
      (enterAccess (s.graph.addrTask v.addr) v.type t v.significance).wTask ≠ none := by
    rw [hsome]
    unfold enterAccess
    dsimp only
    split
    · simp
    · exact hw
  have hwrites (hw : v.type.writes = true) :
      (enterAccess (s.graph.addrTask v.addr) v.type t v.significance).wTask ≠ none := by
    unfold enterAccess
    split <;> simp [hw]
  unfold enterChecked
  rw [if_neg hgo]
  dsimp only
  by_cases hr : (updateWriteAddr s.addrUpdate v.addr (accessType v)).1 = 0
  · rw [if_pos hr]
    refine ⟨rfl, ?_, ?_, _, ?_, hwrites, hwriter⟩
    · intro a
      simp [Warned, hr]
    · intro a ha
      rw [hentered, Function.update_of_ne ha]
    · rw [hentered, Function.update_self]
  · rw [if_neg hr]
    refine ⟨rfl, ?_, ?_, ?_⟩
    · intro a
      simp only [Warned, List.mem_append, List.mem_singleton, or_and_right, exists_or,
        exists_eq_left]
      simp [hr, eq_comm]
    · intro a ha
      split
      · rw [hentered, Function.update_of_ne ha]
      · dsimp only
        rw [Function.update_of_ne ha, hentered, Function.update_of_ne ha]
    · split
      · refine ⟨_, ?_, hwrites, hwriter⟩
        rw [hentered, Function.update_self]
      · refine ⟨clearReaders (enterAccess (s.graph.addrTask v.addr) v.type t v.significance),
          ?_, ?_⟩
        · dsimp only
          rw [Function.update_self, hentered, Function.update_self]
          rfl
        · rw [clearReaders_wTask]
          exact ⟨hwrites, hwriter⟩

theorem live_iff (hlive : Live v.addr v) (a : Addr) : Live a v ↔ a = v.addr := by
  constructor
  · intro h
    exact h.1.symm
  · intro h
    rw [h]
    exact hlive

theorem exists_concat {p : VirtualTuple → Prop} :
    (∃ w ∈ l ++ [v], p w) ↔ (∃ w ∈ l, p w) ∨ p v := by
  simp [or_and_right, exists_or]

theorem pairwise_concat {p : VirtualTuple → VirtualTuple → Prop} :
    ¬(l ++ [v]).Pairwise (fun v w => ¬p v w) ↔
      ¬l.Pairwise (fun v w => ¬p v w) ∨ ∃ w ∈ l, p w v := by
  rw [List.pairwise_append]
  simp only [List.pairwise_singleton, List.mem_singleton, true_and, forall_eq, not_and_or,
    not_forall, not_not, exists_prop]

/-- A live tuple conflicts with the flags exactly if it conflicts with an earlier tuple. -/
theorem clash_flags (hlive : Live v.addr v) (a : Addr) :
    (a = v.addr ∧ ((∃ w ∈ l, Live v.addr w ∧ w.type.writes = true) ∨
      v.type.writes = true ∧ ∃ w ∈ l, Live v.addr w ∧ ¬w.type.writes = true)) ↔
      ∃ w ∈ l, Clash a w v := by
  constructor
  · intro h
    obtain ⟨rfl, ⟨w, hw, hat, hwrites⟩ | ⟨hwrites, w, hw, hat, _⟩⟩ := h
    · exact ⟨w, hw, hat, hlive, Or.inl hwrites⟩
    · exact ⟨w, hw, hat, hlive, Or.inr hwrites⟩
  · intro h
    obtain ⟨w, hw, hat, hv, hwrites⟩ := h
    obtain rfl := (live_iff hlive a).mp hv
    refine ⟨rfl, ?_⟩
    by_cases hww : w.type.writes = true
    · exact Or.inl ⟨w, hw, hat, hww⟩
    · exact Or.inr ⟨hwrites.resolve_left hww, w, hw, hat, hww⟩

/-- One tuple. -/
theorem Flagged.enter (h : Flagged l s) : Flagged (l ++ [v]) (enterChecked info s v) := by
  by_cases hlive : Live v.addr v
  · obtain ⟨hflags, hwarn, hother, e, hentry, hwrites, hwriter⟩ :=
      @enterChecked_live s v info hlive
    have hspec (a : Addr) := updateWriteAddr_spec s.addrUpdate v.addr a (accessType v)
    rw [accessType_write, accessType_read] at hspec
    constructor
    · intro a
      rw [hflags, (hspec a).1, h.written, exists_concat, live_iff hlive]
    · intro a
      rw [hflags, (hspec a).2.1, h.read, exists_concat, live_iff hlive]
    · intro a
      rw [hwarn, (hspec a).2.2, h.warned, pairwise_concat, h.written, h.read]
      exact or_congr_right (clash_flags hlive a)
    · intro a hflag
      rw [hflags, (hspec a).1] at hflag
      by_cases ha : a = v.addr
      · rw [ha]
        refine ⟨e, hentry, ?_⟩
        rcases hflag with hflag | hflag
        · obtain ⟨e', hsome, hw⟩ := h.writer a hflag
          exact hwriter e' (ha ▸ hsome) hw
        · exact hwrites hflag.2
      · rw [hother a ha]
        exact h.writer a (hflag.resolve_right fun hbad => ha hbad.1)
  · -- the tuple is passed by
    have hdead (a : Addr) : ¬Live a v := fun h => hlive (h.1 ▸ h)
    have hclash (a : Addr) (w : VirtualTuple) : ¬Clash a w v := fun h => hdead a h.2.1
    rw [enterChecked_skip hlive]
    constructor
    · intro a
      simp only [exists_concat, hdead, false_and, or_false, h.written]
    · intro a
      simp only [exists_concat, hdead, false_and, or_false, h.read]
    · intro a
      simp only [pairwise_concat, hclash, and_false, exists_false, or_false, h.warned]
    · exact h.writer

theorem Flagged.run (g : TaskDagGraph) (info : String) (l : List VirtualTuple) :
    Flagged l (l.foldl (enterChecked info)
      { graph := g, addrUpdate := fun _ => none, warnings := [] }) := by
  induction l using List.reverseRecOn with
  | nil => exact Flagged.start g
  | append_singleton l v ih =>
      rw [List.foldl_append]
      exact ih.enter

end

/-! ## The warnings of a loop -/

/-- Where merging has left one tuple for each address and task, the tuples that clash are of
two tasks. -/
theorem clash_iff {l : List VirtualTuple} (hone : l.Pairwise OneEach) (a : Addr) :
    ¬l.Pairwise (fun v w => ¬Clash a v w) ↔
      ∃ v ∈ l, ∃ w ∈ l, v.t ≠ w.t ∧ Clash a v w := by
  constructor
  · intro h
    by_contra hno
    apply h
    apply List.Pairwise.imp_of_mem _ hone
    intro v w hv hw honce hclash
    apply hno
    refine ⟨v, hv, w, hw, ?_, hclash⟩
    intro hsame
    exact honce hclash.1.2.2.1 ⟨hclash.1.1.trans hclash.2.1.1.symm, hsame⟩
  · intro h hno
    obtain ⟨v, hv, w, hw, hne, hclash⟩ := h
    have hsymm : Std.Symm fun v w => ¬Clash a v w := ⟨fun v w hvw hwv => hvw hwv.symm⟩
    have hvw : v ≠ w := fun heq => hne (congrArg VirtualTuple.t heq)
    exact hno.forall hv hw hvw hclash

theorem live_isAccess {a : Addr} {v : VirtualTuple} {t : TaskId} (hlive : Live a v)
    (ht : v.t = some t) : v.isAccess a t v.type :=
  ⟨ht, hlive.1, rfl, hlive.1 ▸ hlive.2.1, hlive.2.2.2⟩

/-- Two tasks conflict at an address among the tuples. -/
def TasksConflict (a : Addr) (l : List VirtualTuple) : Prop :=
  ∃ t u type type', t ≠ u ∧ Entered l a t type ∧ Entered l a u type' ∧
    (type.writes = true ∨ type'.writes = true)

theorem tasksConflict_iff {l : List VirtualTuple} {a : Addr} : TasksConflict a l ↔
    ∃ v ∈ l, ∃ w ∈ l, v.t ≠ w.t ∧ Clash a v w := by
  constructor
  · intro h
    obtain ⟨t, u, type, type', hne, ⟨v, hv, hvt, hva, rfl, h0, hvn⟩,
      ⟨w, hw, hwt, hwa, rfl, -, hwn⟩, hwrites⟩ := h
    refine ⟨v, hv, w, hw, ?_, ⟨hva, hva ▸ h0, ?_, hvn⟩, ⟨hwa, hwa ▸ h0, ?_, hwn⟩, hwrites⟩
    · rw [hvt, hwt]
      exact fun heq => hne (Option.some_inj.mp heq)
    · rw [hvt]
      exact Option.some_ne_none t
    · rw [hwt]
      exact Option.some_ne_none u
  · intro h
    obtain ⟨v, hv, w, hw, hne, hlv, hlw, hwrites⟩ := h
    obtain ⟨t, ht⟩ := Option.ne_none_iff_exists'.mp hlv.2.2.1
    obtain ⟨u, hu⟩ := Option.ne_none_iff_exists'.mp hlw.2.2.1
    refine ⟨t, u, v.type, w.type, ?_, ⟨v, hv, live_isAccess hlv ht⟩,
      ⟨w, hw, live_isAccess hlw hu⟩, hwrites⟩
    rw [ht, hu] at hne
    exact fun heq => hne (congrArg some heq)

/-- Merged tuples show the conflicts of the recorded ones. -/
theorem tasksConflict_summary {l l' : List VirtualTuple} (h : Summary (Entered l') (Entered l))
    (a : Addr) : TasksConflict a l' ↔ TasksConflict a l := by
  constructor
  · intro hc
    obtain ⟨t, u, type, type', hne, ht, hu, hwrites⟩ := hc
    obtain ⟨ty, hty, hw⟩ := h.source a t type ht
    obtain ⟨ty', hty', hw'⟩ := h.source a u type' hu
    exact ⟨t, u, ty, ty', hne, hty, hty', hwrites.imp hw hw'⟩
  · intro hc
    obtain ⟨t, u, type, type', hne, ht, hu, hwrites⟩ := hc
    obtain ⟨ty, hty, hw⟩ := h.covers a t type ht
    obtain ⟨ty', hty', hw'⟩ := h.covers a u type' hu
    exact ⟨t, u, ty, ty', hne, hty, hty', hwrites.imp hw hw'⟩

theorem writes_iff (type : InOut) : type.writes = true ↔ type = .OUT ∨ type = .INOUT := by
  cases type <;> decide

/-- The warning is printed for an address exactly if two tasks of the loop declared the address
and one of them writes it; one task alone causes none. -/
theorem warns_iff {layout : Layout} (sort : StdSort layout) (lastLoopInfo : String)
    (g : TaskDagGraph) (a : Addr) :
    ((∃ w ∈ (endSplitTask sort lastLoopInfo g).warnings, w.addr = a) ↔
      a ≠ 0 ∧ ∃ v ∈ g.oneVirtualTaskTuples, ∃ w ∈ g.oneVirtualTaskTuples, ∃ t u,
        v.addr = a ∧ w.addr = a ∧ v.t = some t ∧ w.t = some u ∧ t ≠ u ∧
        v.type ≠ .INOUT_NONE ∧ w.type ≠ .INOUT_NONE ∧
        ((v.type = .OUT ∨ v.type = .INOUT) ∨ w.type = .OUT ∨ w.type = .INOUT)) ∧
    ∀ t, (∀ v ∈ g.oneVirtualTaskTuples, v.addr = a → v.t = some t) →
      ∀ w ∈ (endSplitTask sort lastLoopInfo g).warnings, w.addr ≠ a := by
  have hmerged := sorted_summary sort g.oneVirtualTaskTuples
  have hwarned : Warned a (endSplitTask sort lastLoopInfo g) ↔
      TasksConflict a g.oneVirtualTaskTuples := by
    unfold endSplitTask
    rw [(Flagged.run _ lastLoopInfo _).warned a, clash_iff (uniqueTuples_oneEach sort _),
      ← tasksConflict_iff, tasksConflict_summary hmerged]
  constructor
  · refine hwarned.trans ?_
    constructor
    · intro h
      obtain ⟨t, u, type, type', hne, ⟨v, hv, hvt, hva, rfl, h0, hvn⟩,
        ⟨w, hw, hwt, hwa, rfl, -, hwn⟩, hwrites⟩ := h
      rw [writes_iff, writes_iff] at hwrites
      exact ⟨h0, v, hv, w, hw, t, u, hva, hwa, hvt, hwt, hne, hvn, hwn, hwrites⟩
    · intro h
      obtain ⟨h0, v, hv, w, hw, t, u, hva, hwa, hvt, hwt, hne, hvn, hwn, hwrites⟩ := h
      rw [← writes_iff, ← writes_iff] at hwrites
      exact ⟨t, u, v.type, w.type, hne, ⟨v, hv, hvt, hva, rfl, h0, hvn⟩,
        ⟨w, hw, hwt, hwa, rfl, h0, hwn⟩, hwrites⟩
  · intro t hall w hw hwa
    obtain ⟨u, u', type, type', hne, ⟨v, hv, hvt, hva, -⟩, ⟨v', hv', hvt', hva', -⟩, -⟩ :=
      hwarned.mp ⟨w, hw, hwa⟩
    have hu := (hvt.symm.trans (hall v hv hva))
    have hu' := (hvt'.symm.trans (hall v' hv' hva'))
    exact hne (Option.some_inj.mp (hu.trans hu'.symm))

end AceMesh.Conflict
