import AceMesh.Lib.Traces
import AceMesh.Tracer

/-!
# What the data race tracer finds

The latest reader and the latest writer of the data are as good as the whole history: an error
is reported exactly if two conflicting accesses happen against the order of registration, and a
trace without an error is equivalent to the serial one (`race_trace_exact`), so that the tasks
compute the same (`memory_serial`).
-/

open Traces

namespace AceMesh.DataRaceTrace

section History

variable {Task Data Thread : Type} [DecidableEq Task] [DecidableEq Data] [DecidableEq Thread]

/-! ## Histories -/

/-- An access by the task with this id. -/
structure Event (Data : Type) where
  taskId : TaskIdT
  dataPtr : Data
  access : Access
  deriving DecidableEq

/-- A task is registered under an id, or it accesses data. -/
inductive Entry (Data : Type)
  | registered (taskId : TaskIdT)
  | event (event : Event Data)
  deriving DecidableEq

/-- What a call adds to the history, and its effect when accesses are not checked. There is none
for a thread without a registered task and for data that is not registered. -/
def Call.next (s : Tracer Task Data Thread) :
    Call Task Data Thread → Option (List (Entry Data) × Tracer Task Data Thread)
  | access kind thread dataPtr aliasName => do
    let (taskId, state) ← (s.lookup kind.function thread dataPtr aliasName).toOption
    some ([.event ⟨taskId, dataPtr, kind⟩], s.setState dataPtr (kind.update state taskId))
  | addTask task => do
    let s' ← (s.addTask2Trace task).toOption
    some (if (s.taskPtr2Id task).isSome then [] else [.registered (toInt s.globalTaskId)], s')
  | call => do
    let s' ← (call.perform s).toOption
    some ([], s')

/-- The history of calls in which every access is by a registered task on registered data. -/
def history (s : Tracer Task Data Thread) :
    List (Call Task Data Thread) → Option (List (Entry Data))
  | [] => some []
  | call :: calls => do
    let (entries, s') ← call.next s
    let rest ← history s' calls
    some (entries ++ rest)

end History

variable {Task Data Thread : Type}

/-- The ids, in the order of registration. -/
def ids (entries : List (Entry Data)) : List TaskIdT :=
  entries.filterMap fun
    | .registered taskId => some taskId
    | .event _ => none

/-- The trace. -/
def events (entries : List (Entry Data)) : List (Event Data) :=
  entries.filterMap fun
    | .registered _ => none
    | .event event => some event

/-- The same data is accessed, and one access is a write. -/
def Event.Conflict (e e' : Event Data) : Prop :=
  e.dataPtr = e'.dataPtr ∧ (e.access.writes ∨ e'.access.writes)

/-- Events of one task depend on each other, and those that conflict. -/
def Event.Depends (e e' : Event Data) : Prop :=
  e.taskId = e'.taskId ∨ e.Conflict e'

theorem Event.Depends.symm {e e' : Event Data} (h : e.Depends e') : e'.Depends e := by
  rcases h with heq | ⟨heq, hwrites⟩
  · exact Or.inl heq.symm
  · exact Or.inr ⟨heq.symm, hwrites.symm⟩

/-! ## What the tracer knows -/

/-- The two ids that are kept for some data are those of the latest accesses since it was
registered; what happened before was done by tasks with smaller ids than those of today. -/
structure Tracks (s : Tracer Task Data Thread) (past : List (Entry Data)) : Prop where
  idInt : ∀ i ∈ ids past, 0 ≤ i ∧ toInt i = i
  firstId : ids past = [] → s.globalTaskId = 0
  registered : ∀ task i, s.taskPtr2Id task = some i → i ∈ ids past
  byRegistered : ∀ e ∈ events past, e.taskId ∈ ids past
  seen : ∀ e ∈ events past, (∀ task i, s.taskPtr2Id task = some i → e.taskId < i) ∨
    ∃ state, s.dataObjStateMap e.dataPtr = some state ∧ e.taskId ≤ state.latest e.access.writes
  accessed : ∀ dataPtr state, s.dataObjStateMap dataPtr = some state → ∀ writes,
    state.latest writes = 0 ∨ ∃ e ∈ events past,
      e.dataPtr = dataPtr ∧ e.access.writes = writes ∧ e.taskId = state.latest writes

theorem Tracks.start : Tracks (Tracer.start : Tracer Task Data Thread) [] where
  idInt := fun _ hi => absurd hi List.not_mem_nil
  firstId := fun _ => rfl
  registered := fun _ _ h => nomatch h
  byRegistered := fun _ he => absurd he List.not_mem_nil
  seen := fun _ he => absurd he List.not_mem_nil
  accessed := fun _ _ h => nomatch h

variable {s s' : Tracer Task Data Thread} {past entries : List (Entry Data)}

theorem ids_append (xs ys : List (Entry Data)) : ids (xs ++ ys) = ids xs ++ ids ys :=
  List.filterMap_append

theorem events_append (xs ys : List (Entry Data)) :
    events (xs ++ ys) = events xs ++ events ys :=
  List.filterMap_append

/-- Only the registration of tasks and of data matters. -/
theorem Tracks.congr (h : Tracks s past) (hids : s'.globalTaskId = s.globalTaskId)
    (htasks : s'.taskPtr2Id = s.taskPtr2Id) (hdata : s'.dataObjStateMap = s.dataObjStateMap) :
    Tracks s' past where
  idInt := h.idInt
  firstId := fun hnil => hids.trans (h.firstId hnil)
  registered := htasks ▸ h.registered
  byRegistered := h.byRegistered
  seen := htasks ▸ hdata ▸ h.seen
  accessed := hdata ▸ h.accessed

/-- The maps are cleared and the ids go on, so all that has happened is over. -/
theorem Tracks.spawnAndWait (h : Tracks s past) : Tracks s.spawnAndWaitWrap past where
  idInt := h.idInt
  firstId := h.firstId
  registered := fun _ _ hsome => nomatch hsome
  byRegistered := h.byRegistered
  seen := fun _ _ => Or.inl fun _ _ hsome => nomatch hsome
  accessed := fun _ _ hsome => nomatch hsome

theorem update_eq_some_iff {α β : Type} [DecidableEq α] {f : α → Option β} {a x : α} {b c : β} :
    Function.update f a (some b) x = some c ↔ x = a ∧ b = c ∨ x ≠ a ∧ f x = some c := by
  by_cases hx : x = a
  · rw [hx, Function.update_self, Option.some.injEq]
    simp
  · rw [Function.update_of_ne hx]
    simp [hx]

section AddTask

variable [DecidableEq Task]

theorem Tracks.addTask (h : Tracks s past) {task : Task} (hok : s.addTask2Trace task = .ok s')
    (hnew : s.taskPtr2Id task = none)
    (horder : (ids past ++ [toInt s.globalTaskId]).Pairwise (· < ·)) :
    Tracks s' (past ++ [.registered (toInt s.globalTaskId)]) := by
  obtain ⟨_, _, hlast⟩ := List.pairwise_append.mp horder
  have hbelow : ∀ i ∈ ids past, i < toInt s.globalTaskId := fun i hi =>
    hlast i hi _ (List.mem_singleton_self _)
  have hids : ids (past ++ [Entry.registered (toInt s.globalTaskId)]) =
      ids past ++ [toInt s.globalTaskId] := ids_append ..
  have hevents : events (past ++ [Entry.registered (toInt s.globalTaskId)]) = events past := by
    rw [events_append]
    exact List.append_nil _
  unfold Tracer.addTask2Trace at hok
  rw [hnew] at hok
  dsimp only at hok
  split at hok
  · cases hok
  injection hok with hok
  subst hok
  constructor
  case idInt =>
    intro i hi
    rw [hids] at hi
    rcases List.mem_append.mp hi with hi | hi
    · exact h.idInt i hi
    · rw [List.mem_singleton] at hi
      subst hi
      refine ⟨?_, toInt_toInt _⟩
      cases hpast : ids past with
      | nil =>
          rw [h.firstId hpast]
          exact Int.le_refl 0
      | cons j js =>
          have hj : j ∈ ids past := hpast ▸ List.mem_cons_self
          have hnonneg := (h.idInt j hj).1
          have hlt := hbelow j hj
          lia
  case firstId =>
    intro hnil
    rw [hids] at hnil
    exact absurd hnil (List.append_ne_nil_of_right_ne_nil _ (List.cons_ne_nil _ _))
  case registered =>
    intro t i hsome
    rw [hids]
    rcases update_eq_some_iff.mp hsome with ⟨-, rfl⟩ | ⟨-, hold⟩
    · exact List.mem_append_right _ (List.mem_singleton_self _)
    · exact List.mem_append_left _ (h.registered t i hold)
  case byRegistered =>
    intro e he
    rw [hevents] at he
    rw [hids]
    exact List.mem_append_left _ (h.byRegistered e he)
  case seen =>
    intro e he
    rw [hevents] at he
    rcases h.seen e he with hold | hseen
    · refine Or.inl fun t i hsome => ?_
      rcases update_eq_some_iff.mp hsome with ⟨-, rfl⟩ | ⟨-, hsome⟩
      · exact hbelow _ (h.byRegistered e he)
      · exact hold t i hsome
    · exact Or.inr hseen
  case accessed =>
    intro dataPtr state hsome writes
    rw [hevents]
    exact h.accessed dataPtr state hsome writes

end AddTask

theorem ids_snoc_event (past : List (Entry Data)) (e : Event Data) :
    ids (past ++ [.event e]) = ids past :=
  (ids_append ..).trans (List.append_nil _)

theorem events_snoc_event (past : List (Entry Data)) (e : Event Data) :
    events (past ++ [.event e]) = events past ++ [e] :=
  events_append ..

variable {dataPtr : Data} {state : DataObjState} {kind : Access}

theorem Tracks.latest_int (h : Tracks s past) (hstate : s.dataObjStateMap dataPtr = some state)
    (writes : Bool) : toInt (state.latest writes) = state.latest writes := by
  rcases h.accessed dataPtr state hstate writes with hzero | ⟨e, he, -, -, heq⟩
  · rw [hzero]
    rfl
  · rw [← heq]
    exact (h.idInt _ (h.byRegistered e he)).2

/-- The update of an access is a maximum. -/
theorem Tracks.latest_update (h : Tracks s past) {task : Task} {taskId : TaskIdT}
    (htask : s.taskPtr2Id task = some taskId)
    (hstate : s.dataObjStateMap dataPtr = some state) (writes : Bool) :
    (kind.update state taskId).latest writes =
      if kind.writes = writes then max taskId (state.latest writes) else state.latest writes := by
  have hid := h.registered task taskId htask
  rw [Access.latest_update, toInt_max (h.idInt taskId hid).2 (h.latest_int hstate writes)]

/-- The check sees every earlier access. -/
theorem Tracks.breaks_iff (h : Tracks s past) {task : Task} {taskId : TaskIdT}
    (htask : s.taskPtr2Id task = some taskId)
    (hstate : s.dataObjStateMap dataPtr = some state) :
    kind.Breaks state taskId ↔ kind.halo = false ∧
      ∃ e ∈ events past, e.Conflict ⟨taskId, dataPtr, kind⟩ ∧ taskId < e.taskId := by
  unfold Access.Breaks
  apply and_congr_right
  intro _
  constructor
  · rintro ⟨writes, hwrites, hlt⟩
    rcases h.accessed dataPtr state hstate writes with hzero | ⟨e, he, hdata, hkind, heq⟩
    · have hnonneg := (h.idInt taskId (h.registered task taskId htask)).1
      lia
    · refine ⟨e, he, ⟨hdata, ?_⟩, heq ▸ hlt⟩
      rw [hkind]
      exact hwrites
  · rintro ⟨e, he, ⟨hdata, hwrites⟩, hlt⟩
    rcases h.seen e he with hold | ⟨state', hsome, hle⟩
    · exact absurd (hold task taskId htask) (Int.not_lt.mpr (Int.le_of_lt hlt))
    · rw [show e.dataPtr = dataPtr from hdata, hstate] at hsome
      injection hsome with hsome
      subst hsome
      exact ⟨e.access.writes, hwrites, Int.lt_of_lt_of_le hlt hle⟩

variable [DecidableEq Data]

theorem Tracks.addData (h : Tracks s past) (name : String) (dataPtr : Data) :
    Tracks (s.addData2Trace name dataPtr) past := by
  unfold Tracer.addData2Trace
  split
  · exact h
  constructor
  case idInt => exact h.idInt
  case firstId => exact h.firstId
  case registered => exact h.registered
  case byRegistered => exact h.byRegistered
  case seen =>
    intro e he
    rcases h.seen e he with hold | ⟨state, hsome, hle⟩
    · exact Or.inl hold
    · refine Or.inr ⟨state, ?_, hle⟩
      dsimp only
      by_cases heq : e.dataPtr = dataPtr
      · rw [heq, Function.update_self, ← heq, hsome]
        rfl
      · rw [Function.update_of_ne heq]
        exact hsome
  case accessed =>
    intro d state hsome writes
    dsimp only at hsome
    by_cases heq : d = dataPtr
    · subst heq
      rw [Function.update_self] at hsome
      injection hsome with hsome
      cases hold : s.dataObjStateMap d with
      | none =>
          rw [hold] at hsome
          subst hsome
          cases writes <;> exact Or.inl rfl
      | some old =>
          rw [hold] at hsome
          subst hsome
          exact h.accessed d old hold writes
    · rw [Function.update_of_ne heq] at hsome
      exact h.accessed d state hsome writes

theorem Tracks.seen_event (h : Tracks s past) {task : Task} {taskId : TaskIdT}
    (htask : s.taskPtr2Id task = some taskId)
    (hstate : s.dataObjStateMap dataPtr = some state) {e : Event Data}
    (he : e ∈ events past ++ [⟨taskId, dataPtr, kind⟩]) :
    (∀ task i, s.taskPtr2Id task = some i → e.taskId < i) ∨
      ∃ state', Function.update s.dataObjStateMap dataPtr (some (kind.update state taskId))
        e.dataPtr = some state' ∧ e.taskId ≤ state'.latest e.access.writes := by
  rcases List.mem_append.mp he with he | he
  · rcases h.seen e he with hold | ⟨state', hsome, hle⟩
    · exact Or.inl hold
    · right
      by_cases heq : e.dataPtr = dataPtr
      · rw [heq, hstate] at hsome
        cases hsome
        refine ⟨_, update_eq_some_iff.mpr (Or.inl ⟨heq, rfl⟩), ?_⟩
        rw [h.latest_update htask hstate]
        split
        · exact Int.le_trans hle (le_max_right _ _)
        · exact hle
      · exact ⟨state', update_eq_some_iff.mpr (Or.inr ⟨heq, hsome⟩), hle⟩
  · rw [List.mem_singleton] at he
    subst he
    refine Or.inr ⟨_, Function.update_self .., ?_⟩
    dsimp only
    rw [h.latest_update htask hstate, if_pos rfl]
    exact le_max_left _ _

theorem Tracks.accessed_event (h : Tracks s past) {task : Task} {taskId : TaskIdT}
    (htask : s.taskPtr2Id task = some taskId)
    (hstate : s.dataObjStateMap dataPtr = some state) {d : Data} {state' : DataObjState}
    (hsome : Function.update s.dataObjStateMap dataPtr (some (kind.update state taskId)) d =
      some state') (writes : Bool) :
    state'.latest writes = 0 ∨ ∃ e ∈ events past ++ [⟨taskId, dataPtr, kind⟩],
      e.dataPtr = d ∧ e.access.writes = writes ∧ e.taskId = state'.latest writes := by
  have hearlier : ∀ state'', s.dataObjStateMap d = some state'' →
      state''.latest writes = 0 ∨ ∃ e ∈ events past ++ [⟨taskId, dataPtr, kind⟩],
        e.dataPtr = d ∧ e.access.writes = writes ∧ e.taskId = state''.latest writes := by
    intro state'' hsome''
    rcases h.accessed d state'' hsome'' writes with hzero | ⟨e, he, hrest⟩
    · exact Or.inl hzero
    · exact Or.inr ⟨e, List.mem_append_left _ he, hrest⟩
  rcases update_eq_some_iff.mp hsome with ⟨rfl, rfl⟩ | ⟨-, hold⟩
  · rw [h.latest_update htask hstate]
    by_cases hkind : kind.writes = writes
    · rw [if_pos hkind]
      rcases le_total taskId (state.latest writes) with hle | hle
      · rw [max_eq_right hle]
        exact hearlier state hstate
      · rw [max_eq_left hle]
        exact Or.inr ⟨_, List.mem_append_right _ (List.mem_singleton_self _), rfl, hkind, rfl⟩
    · rw [if_neg hkind]
      exact hearlier state hstate
  · exact hearlier state' hold

theorem Tracks.event (h : Tracks s past) {task : Task} {taskId : TaskIdT}
    (htask : s.taskPtr2Id task = some taskId)
    (hstate : s.dataObjStateMap dataPtr = some state) :
    Tracks (s.setState dataPtr (kind.update state taskId))
      (past ++ [.event ⟨taskId, dataPtr, kind⟩]) := by
  constructor
  case idInt =>
    rw [ids_snoc_event]
    exact h.idInt
  case firstId =>
    rw [ids_snoc_event]
    exact h.firstId
  case registered =>
    rw [ids_snoc_event]
    exact h.registered
  case byRegistered =>
    intro e he
    rw [events_snoc_event] at he
    rw [ids_snoc_event]
    rcases List.mem_append.mp he with he | he
    · exact h.byRegistered e he
    · rw [List.mem_singleton] at he
      subst he
      exact h.registered task taskId htask
  case seen =>
    intro e he
    rw [events_snoc_event] at he
    exact h.seen_event htask hstate he
  case accessed =>
    intro d state' hsome writes
    rw [events_snoc_event]
    exact h.accessed_event htask hstate hsome writes

/-! ## Calls -/

variable [DecidableEq Task] [DecidableEq Thread] {call : Call Task Data Thread}

theorem Call.next_access {thread : Thread} {aliasName : Option String}
    (h : (Call.access kind thread dataPtr aliasName).next s = some (entries, s')) :
    ∃ taskId state, s.lookup kind.function thread dataPtr aliasName = .ok (taskId, state) ∧
      entries = [.event ⟨taskId, dataPtr, kind⟩] ∧
      s' = s.setState dataPtr (kind.update state taskId) := by
  cases hlookup : s.lookup kind.function thread dataPtr aliasName with
  | error stop =>
      simp only [Call.next, hlookup, Except.toOption, bind, Option.bind] at h
      cases h
  | ok found =>
      obtain ⟨taskId, state⟩ := found
      simp only [Call.next, hlookup, Except.toOption, bind, Option.bind] at h
      cases h
      exact ⟨taskId, state, rfl, rfl, rfl⟩

theorem Call.next_addTask {task : Task}
    (h : (Call.addTask task : Call Task Data Thread).next s = some (entries, s')) :
    s.addTask2Trace task = .ok s' ∧ entries = if (s.taskPtr2Id task).isSome then []
      else [.registered (toInt s.globalTaskId)] := by
  cases hadd : s.addTask2Trace task with
  | error stop =>
      simp only [Call.next, hadd, Except.toOption, bind, Option.bind] at h
      cases h
  | ok added =>
      simp only [Call.next, hadd, Except.toOption, bind, Option.bind] at h
      cases h
      exact ⟨rfl, rfl⟩

theorem Tracks.next (h : Tracks s past) (hnext : call.next s = some (entries, s'))
    (horder : (ids (past ++ entries)).Pairwise (· < ·)) : Tracks s' (past ++ entries) := by
  cases call with
  | access kind thread dataPtr aliasName =>
      obtain ⟨taskId, state, hlookup, rfl, rfl⟩ := Call.next_access hnext
      obtain ⟨⟨task, htask⟩, hstate⟩ := Tracer.lookup_spec hlookup
      exact h.event htask hstate
  | addTask task =>
      obtain ⟨hok, rfl⟩ := Call.next_addTask hnext
      cases hid : s.taskPtr2Id task with
      | none =>
          rw [hid, ids_append] at horder
          exact h.addTask hok hid horder
      | some i =>
          unfold Tracer.addTask2Trace at hok
          rw [hid] at hok
          cases hok
          exact (List.append_nil past).symm ▸ h
  | addData name dataPtr =>
      cases hnext
      exact (List.append_nil past).symm ▸ h.addData name dataPtr
  | spawnAndWait =>
      cases hnext
      exact (List.append_nil past).symm ▸ h.spawnAndWait
  | beginSplitTask fileName line =>
      cases hnext
      exact (List.append_nil past).symm ▸ h.congr rfl rfl rfl
  | enterTaskExec thread task =>
      cases hnext
      exact (List.append_nil past).symm ▸ h.congr rfl rfl rfl
  | endSplitTask =>
      cases hnext
      apply (List.append_nil past).symm ▸ h.congr ?_ ?_ ?_
      all_goals
        unfold Tracer.endSplitTaskWrap
        split <;> rfl

/-- A conflicting access does not have a smaller id than the one before, unless it is not
checked. -/
def Event.InOrder (e e' : Event Data) : Prop :=
  e'.access.halo = false → e.Conflict e' → e.taskId ≤ e'.taskId

/-- A call reports an error exactly if it is an access that is out of order with an earlier one;
otherwise it does what it does to the history. -/
theorem Tracks.perform (h : Tracks s past) (hnext : call.next s = some (entries, s')) :
    ((∃ text, call.perform s = .error (.broken text)) ∧
      ∃ e ∈ events past, ∃ e' ∈ events entries, ¬e.InOrder e') ∨
    (call.perform s = .ok s' ∧ (events entries).Pairwise Event.InOrder ∧
      ∀ e ∈ events past, ∀ e' ∈ events entries, e.InOrder e') := by
  have hquiet : call.perform s = .ok s' → events entries = [] →
      call.perform s = .ok s' ∧ (events entries).Pairwise Event.InOrder ∧
        ∀ e ∈ events past, ∀ e' ∈ events entries, e.InOrder e' := by
    intro hok hnil
    rw [hnil]
    exact ⟨hok, List.Pairwise.nil, fun _ _ _ hmem => absurd hmem List.not_mem_nil⟩
  cases call with
  | access kind thread dataPtr aliasName =>
      obtain ⟨taskId, state, hlookup, rfl, rfl⟩ := Call.next_access hnext
      obtain ⟨⟨task, htask⟩, hstate⟩ := Tracer.lookup_spec hlookup
      have hbreaks : kind.Breaks state taskId ↔ _ := h.breaks_iff htask hstate
      rcases Access.trace_spec hlookup with ⟨hyes, herror⟩ | ⟨hno, hok⟩
      · obtain ⟨hhalo, e, he, hconflict, hlt⟩ := hbreaks.mp hyes
        refine Or.inl ⟨herror, e, he, ⟨taskId, dataPtr, kind⟩, List.mem_singleton_self _, ?_⟩
        intro hin
        exact absurd (hin hhalo hconflict) (Int.not_le.mpr hlt)
      · refine Or.inr ⟨hok, List.pairwise_singleton _ _, ?_⟩
        intro e he e' he' hhalo hconflict
        obtain rfl := List.mem_singleton.mp he'
        by_contra hgt
        exact hno (hbreaks.mpr ⟨hhalo, e, he, hconflict, Int.not_le.mp hgt⟩)
  | addTask task =>
      obtain ⟨hok, rfl⟩ := Call.next_addTask hnext
      refine Or.inr (hquiet hok ?_)
      split <;> rfl
  | addData name dataPtr | spawnAndWait | beginSplitTask fileName line
  | enterTaskExec thread task | endSplitTask =>
      cases hnext
      exact Or.inr (hquiet rfl rfl)

/-! ## Runs of calls -/

theorem Tracks.run {calls : List (Call Task Data Thread)} {rest : List (Entry Data)}
    (h : Tracks s past) (hhistory : history s calls = some rest)
    (horder : (ids (past ++ rest)).Pairwise (· < ·))
    (hpast : (events past).Pairwise Event.InOrder) :
    ((∃ text, run s calls = .error (.broken text)) ∧
      ¬(events (past ++ rest)).Pairwise Event.InOrder) ∨
    (∃ s', run s calls = .ok s' ∧ Tracks s' (past ++ rest) ∧
      (events (past ++ rest)).Pairwise Event.InOrder) := by
  induction calls generalizing s past rest with
  | nil =>
      cases hhistory
      rw [List.append_nil]
      exact Or.inr ⟨s, rfl, h, hpast⟩
  | cons call calls ih =>
      obtain ⟨⟨entries, s₁⟩, hnext, hbind⟩ := Option.bind_eq_some_iff.mp hhistory
      obtain ⟨rest', hrest, heq⟩ := Option.bind_eq_some_iff.mp hbind
      cases heq
      rw [← List.append_assoc] at horder ⊢
      have hnow : (ids (past ++ entries)).Pairwise (· < ·) := by
        rw [ids_append] at horder
        exact (List.pairwise_append.mp horder).1
      unfold DataRaceTrace.run
      rw [List.foldlM_cons]
      rcases h.perform hnext with ⟨⟨text, herror⟩, e, he, e', he', hout⟩ | ⟨hok, hnew, hall⟩
      · rw [herror]
        refine Or.inl ⟨⟨text, rfl⟩, ?_⟩
        intro hordered
        rw [events_append, events_append] at hordered
        obtain ⟨hfirst, -, -⟩ := List.pairwise_append.mp hordered
        obtain ⟨-, -, hcross⟩ := List.pairwise_append.mp hfirst
        exact hout (hcross e he e' he')
      · rw [hok]
        apply ih (h.next hnext hnow) hrest horder
        rw [events_append]
        exact List.pairwise_append.mpr ⟨hpast, hnew, hall⟩

/-- An error is reported exactly if an access that is checked conflicts with an earlier one of a
larger id. -/
theorem reported_iff {calls : List (Call Task Data Thread)}
    (hhistory : history Tracer.start calls = some entries)
    (horder : (ids entries).Pairwise (· < ·)) :
    (∃ text, run Tracer.start calls = .error (.broken text)) ↔
      ∃ e e', [e, e'].Sublist (events entries) ∧ e'.access.halo = false ∧ e.Conflict e' ∧
        e'.taskId < e.taskId := by
  have hout : (¬(events entries).Pairwise Event.InOrder) ↔
      ∃ e e', [e, e'].Sublist (events entries) ∧ e'.access.halo = false ∧ e.Conflict e' ∧
        e'.taskId < e.taskId := by
    rw [List.pairwise_iff_forall_sublist]
    unfold Event.InOrder
    push Not
    rfl
  rw [← hout]
  rcases Tracks.start.run hhistory horder List.Pairwise.nil with
    ⟨herror, hnot⟩ | ⟨s', hok, -, hpairs⟩
  · exact ⟨fun _ => hnot, fun _ => herror⟩
  · constructor
    · intro herror
      obtain ⟨text, herror⟩ := herror
      rw [hok] at herror
      cases herror
    · intro hnot
      exact absurd hpairs hnot

/-- Without an error, and without halo accesses, the trace is equivalent to the serial one. -/
theorem equiv_serial_of_ok {calls : List (Call Task Data Thread)}
    (hhistory : history Tracer.start calls = some entries)
    (horder : (ids entries).Pairwise (· < ·))
    (hhalo : ∀ e ∈ events entries, e.access.halo = false)
    (hok : ∃ s, run Tracer.start calls = .ok s) :
    Equiv Event.Depends (events entries)
      (serial Event.taskId (ids entries) (events entries)) := by
  rcases Tracks.start.run hhistory horder List.Pairwise.nil with
    ⟨herror, -⟩ | ⟨s', -, htracks, hpairs⟩
  · obtain ⟨text, herror⟩ := herror
    obtain ⟨s, hok⟩ := hok
    rw [hok] at herror
    cases herror
  · apply equiv_serial horder htracks.byRegistered
    apply List.Pairwise.imp_of_mem _ hpairs
    intro e e' _ he' hin hdep
    rcases hdep with heq | hconflict
    · exact Int.le_of_eq heq
    · exact hin (hhalo e' he') hconflict

/-- For accesses by registered tasks to registered data, without halo accesses, and ids in the
order of registration: an error is reported exactly if of two conflicting accesses the first has
the larger id, and without an error the trace is equivalent to the execution of the tasks in
the order of registration. -/
theorem race_trace_exact {calls : List (Call Task Data Thread)}
    (hhistory : history Tracer.start calls = some entries)
    (horder : (ids entries).Pairwise (· < ·))
    (hhalo : ∀ e ∈ events entries, e.access.halo = false) :
    ((∃ text, run Tracer.start calls = .error (.broken text)) ↔
      ∃ e e', [e, e'].Sublist (events entries) ∧ e.Conflict e' ∧ e'.taskId < e.taskId) ∧
    ((∃ s, run Tracer.start calls = .ok s) → Equiv Event.Depends (events entries)
      (serial Event.taskId (ids entries) (events entries))) := by
  refine ⟨?_, equiv_serial_of_ok hhistory horder hhalo⟩
  rw [reported_iff hhistory horder]
  constructor
  · rintro ⟨e, e', hsub, -, hconflict, hlt⟩
    exact ⟨e, e', hsub, hconflict, hlt⟩
  · rintro ⟨e, e', hsub, hconflict, hlt⟩
    have he' : e' ∈ events entries := hsub.subset (List.mem_cons_of_mem e List.mem_cons_self)
    exact ⟨e, e', hsub, hhalo e' he', hconflict, hlt⟩

namespace Example

/-- A writer and a reader are registered, in this order, and the reader is executed first. -/
def earlyReader : List (Call Nat Nat Nat) :=
  [.beginSplitTask "main.cpp" 12, .addData "a" 40, .addTask 100, .addTask 200, .endSplitTask,
    .enterTaskExec 0 200, .access .read 0 40 none, .enterTaskExec 0 100,
    .access .write 0 40 (some "a")]

def earlyReaderEntries : List (Entry Nat) :=
  [.registered 0, .registered 1, .event ⟨1, 40, .read⟩, .event ⟨0, 40, .write⟩]

end Example

/-- The early reader is reported. -/
theorem race_trace_exact_early_reader :
    ∃ text, run Tracer.start Example.earlyReader = .error (.broken text) := by
  have hhistory : history Tracer.start Example.earlyReader = some Example.earlyReaderEntries := by
    rfl
  have horder : (ids Example.earlyReaderEntries).Pairwise (· < ·) := by decide
  have hhalo : ∀ e ∈ events Example.earlyReaderEntries, e.access.halo = false := by decide
  apply (race_trace_exact hhistory horder hhalo).1.mpr
  exact ⟨⟨1, 40, .read⟩, ⟨0, 40, .write⟩, List.Sublist.refl _, ⟨rfl, Or.inr rfl⟩, by decide⟩

/-! ## The order of registration -/

/-- A call hands out at most one id, the number of the ids before it. -/
theorem Call.next_ids (hnext : call.next s = some (entries, s')) :
    (ids entries = [] ∧ s'.globalTaskId = s.globalTaskId) ∨
    (ids entries = [toInt s.globalTaskId] ∧ s'.globalTaskId = s.globalTaskId + 1) := by
  cases call with
  | access kind thread dataPtr aliasName =>
      obtain ⟨taskId, state, -, rfl, rfl⟩ := Call.next_access hnext
      exact Or.inl ⟨rfl, rfl⟩
  | addTask task =>
      obtain ⟨hok, rfl⟩ := Call.next_addTask hnext
      unfold Tracer.addTask2Trace at hok
      split at hok
      next hid =>
        cases hok
        rw [hid]
        exact Or.inl ⟨rfl, rfl⟩
      next hid =>
        split at hok
        · cases hok
        · cases hok
          rw [hid]
          exact Or.inr ⟨rfl, rfl⟩
  | addData name dataPtr =>
      cases hnext
      refine Or.inl ⟨rfl, ?_⟩
      unfold Tracer.addData2Trace
      split <;> rfl
  | endSplitTask =>
      cases hnext
      refine Or.inl ⟨rfl, ?_⟩
      unfold Tracer.endSplitTaskWrap
      split <;> rfl
  | spawnAndWait | beginSplitTask fileName line | enterTaskExec thread task =>
      cases hnext
      exact Or.inl ⟨rfl, rfl⟩

/-- The ids are the numbers of the tasks in the order of registration, as `int`s. -/
theorem history_ids {calls : List (Call Task Data Thread)}
    (hhistory : history s calls = some entries) :
    ∃ n, ids entries = (List.range n).map fun k : Nat => toInt (s.globalTaskId + k) := by
  induction calls generalizing s entries with
  | nil =>
      cases hhistory
      exact ⟨0, rfl⟩
  | cons call calls ih =>
      obtain ⟨⟨new, s₁⟩, hnext, hbind⟩ := Option.bind_eq_some_iff.mp hhistory
      obtain ⟨rest, hrest, heq⟩ := Option.bind_eq_some_iff.mp hbind
      cases heq
      obtain ⟨n, hn⟩ := ih hrest
      rw [ids_append, hn]
      rcases Call.next_ids hnext with ⟨hids, hnum⟩ | ⟨hids, hnum⟩
      · refine ⟨n, ?_⟩
        rw [hids, hnum]
        rfl
      · have hnext : (fun k : Nat => toInt (s₁.globalTaskId + k)) =
            (fun k : Nat => toInt (s.globalTaskId + k)) ∘ Nat.succ := by
          ext k
          rw [hnum, Function.comp_apply, Nat.succ_eq_add_one, Int.natCast_add,
            Int.natCast_one, Int.add_assoc, Int.add_comm 1]
        refine ⟨n + 1, ?_⟩
        rw [hids, hnext, List.range_succ_eq_map, List.map_cons, List.map_map,
          Int.natCast_zero, Int.add_zero]
        rfl

/-- The ids are in the order of registration as long as they are `int`s. -/
theorem ids_inOrder {calls : List (Call Task Data Thread)}
    (hhistory : history Tracer.start calls = some entries)
    (hcount : (ids entries).length ≤ 2 ^ 31) : (ids entries).Pairwise (· < ·) := by
  obtain ⟨n, hn⟩ := history_ids hhistory
  rw [hn, List.length_map, List.length_range] at hcount
  rw [hn, List.pairwise_map]
  have hint : ∀ k ∈ List.range n, toInt (0 + (k : Int)) = k := by
    intro k hk
    have hlt := List.mem_range.mp hk
    rw [Int.zero_add]
    exact (Int.bmod_eq_iff (by decide)).mpr ⟨by omega, by omega, by simp⟩
  apply List.Pairwise.imp_of_mem _ List.pairwise_lt_range
  intro k l hk hl hlt
  show toInt (0 + (k : Int)) < toInt (0 + (l : Int))
  rw [hint k hk, hint l hl]
  exact Int.ofNat_lt.mpr hlt

/-! ## What the tasks compute -/

section Memory

variable {V : Type} {program : TaskIdT → List V → V}

/-- The data, and what every task has read and written so far. -/
structure Memory (Data V : Type) where
  value : Data → V
  log : TaskIdT → List V

/-- What is read, or what the task computes from all that it has read and written. -/
def Event.outcome (program : TaskIdT → List V → V) (m : Memory Data V) (e : Event Data) : V :=
  if e.access.writes then program e.taskId (m.log e.taskId) else m.value e.dataPtr

def Event.execute (program : TaskIdT → List V → V) (m : Memory Data V) (e : Event Data) :
    Memory Data V where
  value := if e.access.writes then
    Function.update m.value e.dataPtr (e.outcome program m) else m.value
  log := Function.update m.log e.taskId (m.log e.taskId ++ [e.outcome program m])

variable {e e' : Event Data} {m : Memory Data V}

theorem Event.log_execute (h : ¬e.Depends e') :
    (e.execute program m).log e'.taskId = m.log e'.taskId := by
  apply Function.update_of_ne
  intro heq
  exact h (Or.inl heq.symm)

theorem Event.outcome_execute (h : ¬e.Depends e') :
    e'.outcome program (e.execute program m) = e'.outcome program m := by
  unfold Event.outcome
  rw [Event.log_execute h]
  by_cases hwrites' : e'.access.writes
  · rw [if_pos hwrites', if_pos hwrites']
  · rw [if_neg hwrites', if_neg hwrites']
    unfold Event.execute
    dsimp only
    split
    next hwrites =>
      apply Function.update_of_ne
      intro heq
      exact h (Or.inr ⟨heq.symm, Or.inl hwrites⟩)
    · rfl

/-- Accesses that do not depend on each other commute. -/
theorem Event.execute_comm (h : ¬e.Depends e') :
    e'.execute program (e.execute program m) = e.execute program (e'.execute program m) := by
  have h' : ¬e'.Depends e := fun hdep => h hdep.symm
  have hid : e'.taskId ≠ e.taskId := fun heq => h' (Or.inl heq)
  have hvalue : (e'.execute program (e.execute program m)).value =
      (e.execute program (e'.execute program m)).value := by
    show (if e'.access.writes then Function.update (e.execute program m).value e'.dataPtr
        (e'.outcome program (e.execute program m)) else (e.execute program m).value) =
      (if e.access.writes then Function.update (e'.execute program m).value e.dataPtr
        (e.outcome program (e'.execute program m)) else (e'.execute program m).value)
    rw [Event.outcome_execute h, Event.outcome_execute h']
    unfold Event.execute
    by_cases hwrites : e.access.writes
    · by_cases hwrites' : e'.access.writes
      · simp only [hwrites, hwrites', if_true]
        apply Function.update_comm
        intro heq
        exact h (Or.inr ⟨heq, Or.inl hwrites⟩)
      · simp only [hwrites, hwrites', if_true, if_false, Bool.false_eq_true]
    · simp only [hwrites, if_false, Bool.false_eq_true]
  have hlog : (e'.execute program (e.execute program m)).log =
      (e.execute program (e'.execute program m)).log := by
    show Function.update (e.execute program m).log e'.taskId
        ((e.execute program m).log e'.taskId ++ [e'.outcome program (e.execute program m)]) =
      Function.update (e'.execute program m).log e.taskId
        ((e'.execute program m).log e.taskId ++ [e.outcome program (e'.execute program m)])
    rw [Event.outcome_execute h, Event.outcome_execute h', Event.log_execute h,
      Event.log_execute h']
    exact Function.update_comm hid.symm _ _ _
  calc
    e'.execute program (e.execute program m)
        = ⟨(e'.execute program (e.execute program m)).value,
            (e'.execute program (e.execute program m)).log⟩ := rfl
    _ = ⟨(e.execute program (e'.execute program m)).value,
            (e.execute program (e'.execute program m)).log⟩ := by rw [hvalue, hlog]
    _ = e.execute program (e'.execute program m) := rfl

/-- A run without an error leaves the memory, and has every task read, as if the tasks were
executed one after another. -/
theorem memory_serial {calls : List (Call Task Data Thread)}
    (hhistory : history Tracer.start calls = some entries)
    (horder : (ids entries).Pairwise (· < ·))
    (hhalo : ∀ e ∈ events entries, e.access.halo = false)
    (hok : ∃ s, run Tracer.start calls = .ok s) (m : Memory Data V) :
    (events entries).foldl (Event.execute program) m =
      (serial Event.taskId (ids entries) (events entries)).foldl (Event.execute program) m := by
  apply (equiv_serial_of_ok hhistory horder hhalo hok).foldl_eq
  intro m e e' hindep
  exact Event.execute_comm hindep

end Memory

end AceMesh.DataRaceTrace
