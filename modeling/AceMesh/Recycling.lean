import AceMesh.Deletion
import AceMesh.MemPool

/-!
# Who holds the memory of a graph

`aceMesh_clang.cpp`: a task gets an argument block when it is registered, the program may
ask for objects while it builds a graph, and `acemesh_spawn_and_wait` frees all objects and
initialises the pool again, whatever graph it has run. A stored graph is run again with the
memory it was built with: its objects have been freed (`freed_objects`), and in the
`MEMORY_POOL` build its argument blocks are handed out to the next tasks.

`recycling_correct` says when memory lasts as long as the graph that uses it.
-/

open AceMesh.TaskDagGraph AceMesh.Runtime

namespace AceMesh

/-! ## The interface -/

structure CInterface (m : Nat) where
  session : Session m
  memory : Memory

namespace CInterface

variable {m : Nat}

abbrev runtime (s : CInterface m) : Runtime m := s.session.runtime

abbrev calls (s : CInterface m) : List Call := s.session.calls

def start (memoryPool : Bool) : CInterface m := ⟨Session.start, Memory.start memoryPool⟩

/-- A thread makes a step, the program registers a task with arguments, it asks for an
object, or makes another call. -/
inductive Act (m : Nat)
  | thread (i : Fin (m + 1)) (hit : Bool)
  | task (spec : TaskSpec) (argsSize : BitVec 32)
  | mallocObj
  | call (c : ProgramCall)

/-- The memory after a step of thread `i`. -/
def memoryAfter (memoryPool : Bool) (s : CInterface m) (i : Fin (m + 1)) : Option Memory :=
  (match s.runtime.deletes i with
    | some t => s.memory.destroy t
    | none => some s.memory).bind fun mem =>
      if s.runtime.returns i then mem.afterSpawnAndWait memoryPool else some mem

/-- The objects of a graph that is stored. -/
def remember (s : CInterface m) : Memory :=
  if s.session.kind = .stored then
    { s.memory with
      dagObjs := Function.update s.memory.dagObjs s.session.graph.reuse.currDagNo
        s.memory.enlongedLocalObjs }
  else s.memory

def call (s : CInterface m) : ProgramCall → Option (CInterface m)
  | .build (.registerTask _) => none
  | .build c => (s.session.call (.build c)).map fun session => { s with session := session }
  | .dagStart no iv fv =>
    (s.session.call (.dagStart no iv fv)).map fun session => { s with session := session }
  | .spawnAndWait => (s.session.call .spawnAndWait).map fun session =>
      ⟨session, s.remember⟩

def act (memoryPool : Bool) (s : CInterface m) : Act m → Option (CInterface m)
  | .thread i hit => (s.session.act (.thread i hit)).bind fun session =>
      (s.memoryAfter memoryPool i).map fun mem => ⟨session, mem⟩
  | .task spec argsSize => (s.session.call (.build (.registerTask spec))).map fun session =>
      ⟨session, s.memory.define memoryPool s.session.graph.fresh argsSize⟩
  | .mallocObj =>
    if s.runtime.main = .prog then some { s with memory := s.memory.acemeshMallocObj } else none
  | .call c => s.call c

/-- The states that a program can reach by acts that meet a condition. -/
inductive Reached (memoryPool : Bool) (ok : CInterface m → Act m → Prop) : CInterface m → Prop
  | start : Reached memoryPool ok (start memoryPool)
  | act {s s' : CInterface m} {a : Act m} :
      Reached memoryPool ok s → ok s a → s.act memoryPool a = some s' → Reached memoryPool ok s'

/-- The acts of one run, as far as they meet the condition. -/
def run (memoryPool : Bool) (ok : CInterface m → Act m → Prop) [∀ s a, Decidable (ok s a)]
    (s : CInterface m) : List (Act m) → Option (CInterface m)
  | [] => some s
  | a :: acts =>
    if ok s a then (s.act memoryPool a).bind fun s => s.run memoryPool ok acts else none

theorem isRun_run (memoryPool : Bool) (ok : CInterface m → Act m → Prop)
    [∀ s a, Decidable (ok s a)] :
    IsRun (fun s a => if ok s a then s.act memoryPool a else none) (run memoryPool ok) :=
  .checked (fun _ => rfl) fun _ _ _ => rfl

theorem Reached.run {memoryPool : Bool} {ok : CInterface m → Act m → Prop}
    [∀ s a, Decidable (ok s a)] {s s' : CInterface m} (h : Reached memoryPool ok s)
    (acts : List (Act m)) (hrun : s.run memoryPool ok acts = some s') :
    Reached memoryPool ok s' := by
  refine (isRun_run memoryPool ok).keeps ?_ hrun h
  intro a _ s s' hact hreached
  obtain ⟨hok, hact⟩ := Option.ite_none_right_eq_some.mp hact
  exact hreached.act hok hact

/-- The objects that the program asked for while it built the running graph. -/
def runningObjs (s : CInterface m) : List Nat :=
  match s.calls with
  | .spawnAndWait no .resumed :: _ => s.memory.dagObjs no
  | _ => s.memory.enlongedLocalObjs

/-- The memory of the running graph is still its own: the argument blocks of the tasks that
have not run in this round have neither been freed nor handed out again, nor do they reach
out of the pool, and the objects of the graph have not been freed. -/
structure Intact (memoryPool : Bool) (s : CInterface m) : Prop where
  args : ∀ tasks, runningTasks s.calls = some tasks → ∀ t ∈ tasks, s.runtime.finishes t = 0 →
    ∀ b, s.memory.ciArgs t = some b → b.start.chunk ∉ s.memory.freed ∧
      (memoryPool = true → b.Fits) ∧
      ∀ t' b', t < t' → s.memory.ciArgs t' = some b' → ¬ b.Overlaps b'
  objs : ∀ c ∈ s.runningObjs, c ∉ s.memory.freed

/-- A graph that is run again was built without objects. In the `MEMORY_POOL` build no task
with arguments is deleted, no graph with arguments has been built since a graph with
arguments that is run again, and arguments are not larger than a chunk of the pool. -/
def Lasting (memoryPool : Bool) (s : CInterface m) : Act m → Prop
  | .thread i _ =>
    memoryPool = true → ∀ t, s.runtime.deletes i = some t → s.memory.ciArgs t = none
  | .task _ argsSize => memoryPool = true → 0 ≤ argsSize.toInt ∧ argsSize.toInt ≤ UNITSIZE
  | .mallocObj => True
  | .call .spawnAndWait => s.session.kind = .resumed →
      s.memory.dagObjs s.session.graph.reuse.currDagNo = [] ∧
      (memoryPool = true → ∀ tasks ∈ storedTasks s.session.graph.reuse.currDagNo s.calls,
        ∀ t ∈ tasks, s.memory.ciArgs t ≠ none → ∀ t' < s.session.graph.fresh, t < t' →
          s.memory.ciArgs t' ≠ none → t' ∈ tasks)
  | .call _ => True

instance (memoryPool : Bool) (s : CInterface m) (a : Act m) :
    Decidable (s.Lasting memoryPool a) :=
  match a with
  | .thread i _ =>
    inferInstanceAs (Decidable (_ → ∀ t ∈ s.runtime.deletes i, s.memory.ciArgs t = none))
  | .task _ _ => inferInstanceAs (Decidable (_ → _ ∧ _))
  | .mallocObj => instDecidableTrue
  | .call .spawnAndWait => inferInstanceAs (Decidable (_ → _ ∧ (_ → _)))
  | .call (.build _) => instDecidableTrue
  | .call (.dagStart _ _ _) => instDecidableTrue

/-! ## Argument blocks -/

/-- The default build: an argument block has a chunk of its own, and it is freed with its
task. -/
structure OwnBlocks (s : CInterface m) : Prop where
  separate : s.memory.Separate fun c => ∃ t b, s.memory.ciArgs t = some b ∧ b.start.chunk = c
  own : ∀ t t' b b', s.memory.ciArgs t = some b → s.memory.ciArgs t' = some b' →
    b.start.chunk = b'.start.chunk → t = t'
  kept : ∀ t b, s.memory.ciArgs t = some b → (s.session.heap t).deleted = false →
    b.start.chunk ∉ s.memory.freed

/-- No two of the tasks have argument blocks that overlap. -/
def Apart (mem : Memory) (tasks : List TaskId) : Prop :=
  ∀ t ∈ tasks, ∀ t' ∈ tasks, t < t' → ∀ b b', mem.ciArgs t = some b →
    mem.ciArgs t' = some b' → ¬ b.Overlaps b'

/-- If one of the tasks has arguments, no other task with arguments was registered later. -/
def Newest (mem : Memory) (tasks : List TaskId) : Prop :=
  ∀ t ∈ tasks, mem.ciArgs t ≠ none → ∀ t', t < t' → mem.ciArgs t' ≠ none → t' ∈ tasks

/-- The `MEMORY_POOL` build: argument blocks are parts of the pool, and those of one graph
are apart. -/
structure PoolBlocks (s : CInterface m) : Prop where
  separate : s.memory.Separate (· ∈ s.memory.pool.blocks)
  kept : ∀ c ∈ s.memory.pool.blocks, c ∉ s.memory.freed
  inside : ∀ t b, s.memory.ciArgs t = some b → b.start.chunk ∈ s.memory.pool.blocks ∧ b.Fits
  pooled : s.memory.Pooled fun b => ∃ t ∈ tasksSince s.calls, s.memory.ciArgs t = some b
  apart : ∀ calls, calls <:+ s.calls → Apart s.memory (tasksSince calls)
  newest : s.runtime.main ≠ .prog → ∀ tasks, runningTasks s.calls = some tasks →
    Newest s.memory tasks

structure Inv (memoryPool : Bool) (s : CInterface m) : Prop where
  session : s.session.Inv
  tasks : ∀ t, Call.task t ∈ s.calls → t < s.session.graph.fresh
  args : ∀ t, s.memory.ciArgs t ≠ none → t < s.session.graph.fresh
  unspent : s.runtime.main ≠ .prog → ∀ tasks, runningTasks s.calls = some tasks →
    Unspent tasks s.runtime
  objs : s.runtime.main ≠ .prog → ∀ no calls, s.calls = .spawnAndWait no .resumed :: calls →
    s.memory.dagObjs no = []
  blocks : if memoryPool = true then s.PoolBlocks else s.OwnBlocks

theorem mem_of_mem_tasksSince {t : TaskId} {calls : List Call} (h : t ∈ tasksSince calls) :
    Call.task t ∈ calls := by
  induction calls with
  | nil => cases h
  | cons c calls ih =>
      cases c with
      | task u =>
          obtain rfl | h := List.mem_cons.mp h
          · exact List.mem_cons_self
          · exact List.mem_cons_of_mem _ (ih h)
      | dagStart _ _ _ _ => exact List.mem_cons_of_mem _ (ih h)
      | spawnAndWait _ _ => cases h

theorem suffix_cons {c : Call} {calls : List Call} {tasks : List TaskId}
    (h : ∃ calls', calls' <:+ calls ∧ tasks = tasksSince calls') :
    ∃ calls', calls' <:+ c :: calls ∧ tasks = tasksSince calls' := by
  obtain ⟨calls', hsuffix, htasks⟩ := h
  exact ⟨calls', hsuffix.trans (List.suffix_cons c calls), htasks⟩

/-- A stored graph was once under construction. -/
theorem suffix_of_storedTasks {no : Int} {calls : List Call} {tasks : List TaskId}
    (h : storedTasks no calls = some tasks) :
    ∃ calls', calls' <:+ calls ∧ tasks = tasksSince calls' := by
  induction calls with
  | nil => cases h
  | cons c calls ih =>
      cases c with
      | task u => exact suffix_cons (ih h)
      | dagStart _ _ _ _ => exact suffix_cons (ih h)
      | spawnAndWait no' kind =>
          cases kind with
          | built => exact suffix_cons (ih h)
          | resumed => exact suffix_cons (ih h)
          | stored =>
              replace h : (if no' = no then some (tasksSince calls) else storedTasks no calls) =
                some tasks := h
              split at h
              · exact ⟨calls, List.suffix_cons _ _, (Option.some.inj h).symm⟩
              · exact suffix_cons (ih h)

theorem suffix_of_runningTasks {calls : List Call} {tasks : List TaskId}
    (h : runningTasks calls = some tasks) :
    ∃ calls', calls' <:+ calls ∧ tasks = tasksSince calls' := by
  induction calls with
  | nil => cases h
  | cons c calls ih =>
      cases c with
      | task u => exact suffix_cons (ih h)
      | dagStart _ _ _ _ => exact suffix_cons (ih h)
      | spawnAndWait no kind =>
          cases kind with
          | built => exact ⟨calls, List.suffix_cons _ _, (Option.some.inj h).symm⟩
          | stored => exact ⟨calls, List.suffix_cons _ _, (Option.some.inj h).symm⟩
          | resumed => exact suffix_cons (suffix_of_storedTasks h)

/-- The memory of the graph that runs is intact. -/
theorem Inv.intact {memoryPool : Bool} {s : CInterface m} (h : Inv memoryPool s)
    (hmain : s.runtime.main ≠ .prog) : s.Intact memoryPool := by
  have hblocks := h.blocks
  constructor
  · intro tasks htasks t ht hfin b hb
    cases memoryPool with
    | true =>
        replace hblocks : s.PoolBlocks := hblocks
        obtain ⟨hchunk, hfits⟩ := hblocks.inside t b hb
        refine ⟨hblocks.kept _ hchunk, fun _ => hfits, fun t' b' hlt hb' => ?_⟩
        obtain ⟨calls, hsuffix, rfl⟩ := suffix_of_runningTasks htasks
        have hin := hblocks.newest hmain _ htasks t ht (by simp [hb]) t' hlt (by simp [hb'])
        exact hblocks.apart calls hsuffix t ht t' hin hlt b b' hb hb'
    | false =>
        replace hblocks : s.OwnBlocks := hblocks
        have halive := (h.unspent hmain tasks htasks).alive t ht hfin
        refine ⟨hblocks.kept t b hb halive, fun hpool => Bool.noConfusion hpool,
          fun t' b' hlt hb' hoverlaps => ?_⟩
        exact Nat.ne_of_lt hlt (hblocks.own t t' b b' hb hb' hoverlaps.1)
  · have hobjs : ∀ c ∈ s.memory.enlongedLocalObjs, c ∉ s.memory.freed := by
      cases memoryPool with
      | true => exact fun c hc => ((show s.PoolBlocks from hblocks).separate.objs c hc).2
      | false => exact fun c hc => ((show s.OwnBlocks from hblocks).separate.objs c hc).2
    unfold runningObjs
    split
    · rename_i no calls hcalls
      rw [h.objs hmain no calls hcalls]
      exact fun c hc => absurd hc List.not_mem_nil
    · exact hobjs

/-! ## What the acts preserve -/

variable {memoryPool : Bool} {s : CInterface m}

theorem inv_start : Inv memoryPool (start memoryPool : CInterface m) := by
  have hnone : ∀ t b, (Memory.start memoryPool).ciArgs t ≠ some b := by
    intro t b hb
    rw [Memory.ciArgs_start] at hb
    cases hb
  refine ⟨Or.inl ⟨_, _, Session.between_start⟩, fun t ht => absurd ht List.not_mem_nil,
    fun t ht => absurd (Memory.ciArgs_start memoryPool t) ht, fun hmain => absurd rfl hmain,
    fun hmain => absurd rfl hmain, ?_⟩
  cases memoryPool with
  | true =>
      show (start true : CInterface m).PoolBlocks
      refine ⟨Memory.separate_start true _ Memory.pooled_start.lt, fun c _ => List.not_mem_nil,
        fun t b hb => absurd hb (hnone t b), ?_, fun calls hcalls t ht => ?_,
        fun hmain => absurd rfl hmain⟩
      · exact { Memory.pooled_start with inside := fun b ⟨t, ht, _⟩ => absurd ht List.not_mem_nil }
      · rw [List.suffix_nil.mp hcalls] at ht
        cases ht
  | false =>
      show (start false : CInterface m).OwnBlocks
      exact ⟨Memory.separate_start false _ fun c ⟨t, b, hb, _⟩ => absurd hb (hnone t b),
        fun t t' b b' hb => absurd hb (hnone t b), fun t b hb => absurd hb (hnone t b)⟩

theorem Inv.mallocObj (h : Inv memoryPool s) (hmain : s.runtime.main = .prog) :
    Inv memoryPool { s with memory := s.memory.acemeshMallocObj } := by
  have hblocks := h.blocks
  refine ⟨h.session, h.tasks, h.args, fun hne => absurd hmain hne, fun hne => absurd hmain hne, ?_⟩
  cases memoryPool with
  | true =>
      replace hblocks : s.PoolBlocks := hblocks
      exact ⟨hblocks.separate.mallocObj, hblocks.kept, hblocks.inside,
        { hblocks.pooled with lt := fun c hc => Nat.lt_succ_of_lt (hblocks.pooled.lt c hc) },
        hblocks.apart, fun hne => absurd hmain hne⟩
  | false =>
      replace hblocks : s.OwnBlocks := hblocks
      exact ⟨hblocks.separate.mallocObj, hblocks.own, hblocks.kept⟩

/-- The calls that register nothing and run nothing. -/
theorem Inv.build (h : Inv memoryPool s) {session : Session m} (hinv : session.Inv)
    (hmain : session.runtime.main = .prog) (hheap : session.heap = s.session.heap)
    (hfresh : session.graph.fresh = s.session.graph.fresh)
    (hcalls : session.calls = s.calls ∨
      ∃ no iv fv ret, session.calls = .dagStart no iv fv ret :: s.calls) :
    Inv memoryPool { s with session := session } := by
  have hblocks := h.blocks
  have htasks : ∀ t, Call.task t ∈ session.calls → Call.task t ∈ s.calls := by
    intro t ht
    obtain hsame | ⟨no, iv, fv, ret, hcons⟩ := hcalls
    · rwa [hsame] at ht
    · rw [hcons] at ht
      obtain ht | ht := List.mem_cons.mp ht
      · cases ht
      · exact ht
  have hsince : tasksSince session.calls = tasksSince s.calls := by
    obtain hsame | ⟨no, iv, fv, ret, hcons⟩ := hcalls
    · rw [hsame]
    · rw [hcons]
      rfl
  refine ⟨hinv, fun t ht => ?_, fun t ht => ?_, fun hne => absurd hmain hne,
    fun hne => absurd hmain hne, ?_⟩
  · show t < session.graph.fresh
    rw [hfresh]
    exact h.tasks t (htasks t ht)
  · show t < session.graph.fresh
    rw [hfresh]
    exact h.args t ht
  · cases memoryPool with
    | true =>
        replace hblocks : s.PoolBlocks := hblocks
        refine ⟨hblocks.separate, hblocks.kept, hblocks.inside, ?_, fun calls hsuffix => ?_,
          fun hne => absurd hmain hne⟩
        · show Memory.Pooled s.memory fun b => ∃ t ∈ tasksSince session.calls, _
          rw [hsince]
          exact hblocks.pooled
        · replace hsuffix : calls <:+ session.calls := hsuffix
          obtain hsame | ⟨no, iv, fv, ret, hcons⟩ := hcalls
          · rw [hsame] at hsuffix
            exact hblocks.apart calls hsuffix
          · rw [hcons] at hsuffix
            obtain rfl | hsuffix := List.suffix_cons_iff.mp hsuffix
            · exact hblocks.apart s.calls (List.suffix_refl _)
            · exact hblocks.apart calls hsuffix
    | false =>
        replace hblocks : s.OwnBlocks := hblocks
        refine ⟨hblocks.separate, hblocks.own, fun t b hb halive => hblocks.kept t b hb ?_⟩
        rw [← hheap]
        exact halive

theorem call_registerTask {s session : Session m} {spec : TaskSpec}
    (hs : s.call (.build (.registerTask spec)) = some session) : s.runtime.main = .prog ∧
      session = { s.setGraph (s.graph.taskGenerator spec) with
        calls := .task s.graph.fresh :: s.calls } ∧
      ∀ t, t < s.graph.fresh → s.Inv → (session.heap t).deleted = false →
        (s.heap t).deleted = false := by
  unfold Session.call at hs
  by_cases hmain : s.runtime.main = .prog
  · rw [if_pos hmain] at hs
    refine ⟨hmain, ?_, fun t ht hinv halive => ?_⟩
    · replace hs : s.build (.registerTask spec) = some session := hs
      unfold Session.build at hs
      split at hs
      all_goals first | (rename_i heq _; cases heq) | skip
      · cases hs
        rfl
      · cases hs
    · obtain ⟨lo, base, hbetween⟩ := hinv.between hmain
      by_cases hlo : t < base
      · rw [← (Session.build_frame hbetween hs).1 t hlo]
        exact halive
      · exact (hbetween.looped.kind t (Nat.not_lt.mp hlo) ht).2.2
  · rw [if_neg hmain] at hs
    cases hs

theorem OwnBlocks.define (h : s.OwnBlocks) {session : Session m} {t : TaskId} {size : Nat}
    (hnone : s.memory.ciArgs t = none)
    (halive : ∀ u, s.memory.ciArgs u ≠ none → (session.heap u).deleted = false →
      (s.session.heap u).deleted = false) :
    OwnBlocks ⟨session, { s.memory.malloc.2 with
      ciArgs := Function.update s.memory.ciArgs t (some ⟨⟨s.memory.malloc.1, 0⟩, size⟩) }⟩ := by
  have hold : ∀ u b, Function.update s.memory.ciArgs t
      (some ⟨⟨s.memory.malloc.1, 0⟩, size⟩) u = some b →
      (u = t ∧ b.start.chunk = s.memory.fresh) ∨
        (u ≠ t ∧ s.memory.ciArgs u = some b ∧ b.start.chunk < s.memory.fresh) := by
    intro u b hb
    by_cases hu : u = t
    · subst hu
      rw [Function.update_self] at hb
      cases hb
      exact Or.inl ⟨rfl, rfl⟩
    · rw [Function.update_of_ne hu] at hb
      exact Or.inr ⟨hu, hb, (h.separate.owned _ ⟨u, b, hb, rfl⟩).1⟩
  constructor
  · refine h.separate.grow rfl rfl (Nat.le_succ _) fun c hc => ?_
    obtain ⟨u, b, hb, rfl⟩ := hc
    obtain ⟨-, hchunk⟩ | ⟨-, hb, -⟩ := hold u b hb
    · rw [hchunk]
      exact Or.inr ⟨Nat.le_refl _, Nat.lt_succ_self _⟩
    · exact Or.inl ⟨u, b, hb, rfl⟩
  · intro u u' b b' hb hb' hchunk
    obtain ⟨hu, hc⟩ | ⟨-, hb, hc⟩ := hold u b hb
    · obtain ⟨hu', -⟩ | ⟨-, -, hc'⟩ := hold u' b' hb'
      · rw [hu, hu']
      · omega
    · obtain ⟨-, hc'⟩ | ⟨-, hb', -⟩ := hold u' b' hb'
      · omega
      · exact h.own u u' b b' hb hb' hchunk
  · intro u b hb hu hfreed
    obtain ⟨-, hchunk⟩ | ⟨-, hb, -⟩ := hold u b hb
    · have := h.separate.freed _ hfreed
      omega
    · exact h.kept u b hb (halive u (by simp [hb]) hu) hfreed

/-- The task that is made last gets a block of its own. -/
theorem apart_task {mem mem' : Memory} {t : TaskId} {b : Block} {calls : List Call}
    (hlt : ∀ u, Call.task u ∈ calls → u < t)
    (hapart : ∀ calls', calls' <:+ calls → Apart mem (tasksSince calls'))
    (hnew : ∀ u ∈ tasksSince calls, ∀ b', mem.ciArgs u = some b' → ¬b'.Overlaps b)
    (hargs : mem'.ciArgs = Function.update mem.ciArgs t (some b)) :
    ∀ calls', calls' <:+ .task t :: calls → Apart mem' (tasksSince calls') := by
  have hsame : ∀ calls', calls' <:+ calls → ∀ u ∈ tasksSince calls',
      mem'.ciArgs u = mem.ciArgs u := by
    intro calls' hsuffix u hu
    rw [hargs]
    apply Function.update_of_ne
    exact Nat.ne_of_lt (hlt u (hsuffix.subset (mem_of_mem_tasksSince hu)))
  have hold : ∀ calls', calls' <:+ calls → Apart mem' (tasksSince calls') := by
    intro calls' hsuffix u hu u' hu' hlt' b b' hb hb'
    rw [hsame calls' hsuffix u hu] at hb
    rw [hsame calls' hsuffix u' hu'] at hb'
    exact hapart calls' hsuffix u hu u' hu' hlt' b b' hb hb'
  intro calls' hsuffix
  obtain rfl | hsuffix := List.suffix_cons_iff.mp hsuffix
  · intro u hu u' hu' hlt' b₁ b₂ hb₁ hb₂
    obtain hlast | hin := List.mem_cons.mp hu
    · have hle : u' ≤ t := by
        obtain hu' | hu' := List.mem_cons.mp hu'
        · exact Nat.le_of_eq hu'
        · exact Nat.le_of_lt (hlt u' (mem_of_mem_tasksSince hu'))
      exact absurd (hlast ▸ hlt') (Nat.not_lt.mpr hle)
    · obtain rfl | hin' := List.mem_cons.mp hu'
      · rw [hargs, Function.update_self] at hb₂
        cases hb₂
        rw [hsame calls (List.suffix_refl calls) u hin] at hb₁
        exact hnew u hin b₁ hb₁
      · exact hold calls (List.suffix_refl calls) u hin u' hin' hlt' b₁ b₂ hb₁ hb₂
  · exact hold calls' hsuffix

theorem PoolBlocks.define (h : s.PoolBlocks) {session : Session m} {t : TaskId} {size : Nat}
    (hsize : (size : Int) ≤ UNITSIZE) (hmain : session.runtime.main = .prog)
    (hcalls : session.calls = .task t :: s.calls) (hlt : ∀ u, Call.task u ∈ s.calls → u < t) :
    PoolBlocks ⟨session, { (s.memory.acemeshMyallocAligned16 size).2 with
      ciArgs := Function.update (s.memory.acemeshMyallocAligned16 size).2.ciArgs t
        (some ⟨(s.memory.acemeshMyallocAligned16 size).1, size⟩) }⟩ := by
  obtain ⟨hpooled, ⟨hapart, hfits⟩, honly⟩ := h.pooled.myallocAligned (by decide : (0 : Int) < 16) hsize
  unfold Memory.acemeshMyallocAligned16
  generalize s.memory.myallocAligned 16 size = r at hpooled hapart hfits honly ⊢
  rw [honly.args]
  have hblocks : ∀ c, c ∈ r.2.pool.blocks → c ∉ s.memory.freed := by
    intro c hc hfreed
    obtain hc | ⟨hle, -⟩ := (honly.blocks c).mp hc
    · exact h.kept c hc hfreed
    · exact Nat.not_lt.mpr hle (h.separate.freed c hfreed)
  have hself : Function.update s.memory.ciArgs t (some ⟨r.1, size⟩) t = some ⟨r.1, size⟩ :=
    Function.update_self ..
  have hother : ∀ u, u ≠ t →
      Function.update s.memory.ciArgs t (some ⟨r.1, size⟩) u = s.memory.ciArgs u :=
    fun u hu => Function.update_of_ne hu ..
  have hsince : ∀ u ∈ tasksSince s.calls, u ≠ t := fun u hu =>
    Nat.ne_of_lt (hlt u (mem_of_mem_tasksSince hu))
  constructor
  case separate =>
    exact h.separate.grow honly.freed honly.objs honly.fresh fun c hc => (honly.blocks c).mp hc
  case kept =>
    intro c hc hfreed
    replace hfreed : c ∈ r.2.freed := hfreed
    rw [honly.freed] at hfreed
    exact hblocks c hc hfreed
  case inside =>
    intro u b hb
    by_cases hu : u = t
    · subst hu
      rw [show Function.update s.memory.ciArgs u (some ⟨r.1, size⟩) u = some b from hb] at hself
      cases hself
      exact ⟨List.mem_append.mpr (Or.inl (hpooled.inside _ (Or.inr rfl)).1), hfits⟩
    · obtain ⟨hin, hold⟩ := h.inside u b ((hother u hu).symm.trans hb)
      exact ⟨(honly.blocks _).mpr (Or.inl hin), hold⟩
  case pooled =>
    refine { hpooled with inside := fun b hb => hpooled.inside b ?_ }
    obtain ⟨u, hu, hb⟩ := hb
    replace hu : u ∈ tasksSince session.calls := hu
    rw [hcalls] at hu
    obtain rfl | hu := List.mem_cons.mp hu
    · exact Or.inr (Option.some.inj (hb.symm.trans hself))
    · exact Or.inl ⟨u, hu, (hother u (hsince u hu)).symm.trans hb⟩
  case apart =>
    intro calls hsuffix
    replace hsuffix : calls <:+ session.calls := hsuffix
    rw [hcalls] at hsuffix
    refine apart_task hlt h.apart (fun u hu b hb => hapart b ⟨u, hu, ?_⟩) rfl calls hsuffix
    exact hb
  case newest => exact fun hne => absurd hmain hne

/-- A task without arguments. -/
theorem PoolBlocks.noArgs (h : s.PoolBlocks) {session : Session m} {t : TaskId}
    (hnone : s.memory.ciArgs t = none) (hmain : session.runtime.main = .prog)
    (hcalls : session.calls = .task t :: s.calls) : PoolBlocks { s with session := session } := by
  refine ⟨h.separate, h.kept, h.inside, ?_, fun calls hsuffix => ?_, fun hne => absurd hmain hne⟩
  · refine { h.pooled with inside := fun b hb => h.pooled.inside b ?_ }
    obtain ⟨u, hu, hb⟩ := hb
    replace hu : u ∈ tasksSince session.calls := hu
    rw [hcalls] at hu
    obtain rfl | hu := List.mem_cons.mp hu
    · exact absurd hb (by simp [hnone])
    · exact ⟨u, hu, hb⟩
  · replace hsuffix : calls <:+ session.calls := hsuffix
    rw [hcalls] at hsuffix
    obtain rfl | hsuffix := List.suffix_cons_iff.mp hsuffix
    · intro u hu u' hu' hlt b b' hb hb'
      obtain rfl | hu := List.mem_cons.mp hu
      · exact absurd hb (by simp [hnone])
      · obtain rfl | hu' := List.mem_cons.mp hu'
        · exact absurd hb' (by simp [hnone])
        · exact h.apart s.calls (List.suffix_refl _) u hu u' hu' hlt b b' hb hb'
    · exact h.apart calls hsuffix

theorem Inv.task (h : Inv memoryPool s) {spec : TaskSpec} {argsSize : BitVec 32}
    {session : Session m} (hs : s.session.call (.build (.registerTask spec)) = some session)
    (hsize : memoryPool = true → 0 ≤ argsSize.toInt ∧ argsSize.toInt ≤ UNITSIZE) :
    Inv memoryPool ⟨session, s.memory.define memoryPool s.session.graph.fresh argsSize⟩ := by
  have hinv := h.session.call hs
  have hblocks := h.blocks
  obtain ⟨hmain, hsession, hdeleted⟩ := call_registerTask hs
  have hmain' : session.runtime.main = .prog := by
    rw [hsession]
    exact hmain
  have hcalls : session.calls = .task s.session.graph.fresh :: s.calls := by rw [hsession]
  have hfresh : session.graph.fresh = s.session.graph.fresh + 1 := by
    rw [hsession]
    exact taskGenerator_fresh s.session.graph spec
  have hnone : s.memory.ciArgs s.session.graph.fresh = none :=
    Classical.byContradiction fun hne => Nat.lt_irrefl _ (h.args _ hne)
  have halive : ∀ u, s.memory.ciArgs u ≠ none → (session.heap u).deleted = false →
      (s.session.heap u).deleted = false := fun u hu => hdeleted u (h.args u hu) h.session
  refine ⟨hinv, fun t ht => ?_, fun t ht => ?_, fun hne => absurd hmain' hne,
    fun hne => absurd hmain' hne, ?_⟩
  · show t < session.graph.fresh
    rw [hfresh]
    rw [show (CInterface.calls ⟨session, _⟩) = session.calls from rfl, hcalls] at ht
    obtain ht | ht := List.mem_cons.mp ht
    · cases ht
      exact Nat.lt_succ_self _
    · exact Nat.lt_succ_of_lt (h.tasks t ht)
  · show t < session.graph.fresh
    rw [hfresh]
    by_cases heq : t = s.session.graph.fresh
    · rw [heq]
      exact Nat.lt_succ_self _
    · refine Nat.lt_succ_of_lt (h.args t fun hold => ht ?_)
      exact (Memory.define_of_ne memoryPool heq argsSize).trans hold
  · by_cases hpos : argsSize.toNat > 0
    · cases memoryPool with
      | true =>
          replace hblocks : s.PoolBlocks := hblocks
          have hint : argsSize.toInt = (argsSize.toNat : Int) := by
            have := (hsize rfl).1
            rw [BitVec.toInt_eq_toNat_cond] at this ⊢
            split
            · rfl
            · omega
          show PoolBlocks ⟨session, s.memory.define true s.session.graph.fresh argsSize⟩
          unfold Memory.define
          rw [if_pos hpos, if_pos rfl, hint]
          exact hblocks.define (hint ▸ (hsize rfl).2) hmain' hcalls h.tasks
      | false =>
          replace hblocks : s.OwnBlocks := hblocks
          show OwnBlocks ⟨session, s.memory.define false s.session.graph.fresh argsSize⟩
          unfold Memory.define
          rw [if_pos hpos, if_neg Bool.false_ne_true]
          exact hblocks.define hnone halive
    · rw [Memory.define_empty memoryPool hnone hpos]
      cases memoryPool with
      | true =>
          replace hblocks : s.PoolBlocks := hblocks
          exact hblocks.noArgs hnone hmain' hcalls
      | false =>
          replace hblocks : s.OwnBlocks := hblocks
          exact ⟨hblocks.separate, hblocks.own, fun t b hb hu =>
            hblocks.kept t b hb (halive t (Option.ne_none_iff_exists'.mpr ⟨b, hb⟩) hu)⟩

theorem remember_eq (s : CInterface m) :
    ∃ objs, s.remember = { s.memory with dagObjs := objs } := by
  unfold remember
  split
  · exact ⟨_, rfl⟩
  · exact ⟨s.memory.dagObjs, rfl⟩

theorem Inv.spawnAndWait (h : Inv memoryPool s) {session : Session m}
    (hs : s.session.call .spawnAndWait = some session)
    (hok : s.Lasting memoryPool (.call .spawnAndWait)) :
    Inv memoryPool ⟨session, s.remember⟩ := by
  have hinv := h.session.call hs
  have hblocks := h.blocks
  obtain ⟨lo, base, hbetween, hloop, hs⟩ : ∃ lo base, Session.Between lo base s.session ∧
      s.session.looping = false ∧ s.session.spawnAndWait = some session := by
    unfold Session.call at hs
    dsimp only at hs
    split at hs
    · rename_i hmain
      obtain ⟨lo, base, hbetween⟩ := h.session.between hmain
      split at hs
      · cases hs
      · rename_i hloop
        exact ⟨lo, base, hbetween, by simpa using hloop, hs⟩
    · cases hs
  obtain ⟨hcalls, -, -⟩ := Session.spawnAndWait_reuse hs
  have hfresh := Session.spawnAndWait_fresh hs
  have hnewest : memoryPool = true → ∀ tasks, runningTasks session.calls = some tasks →
      Newest s.memory tasks := by
    intro hpool tasks htasks t ht harg t' hlt harg'
    rw [hcalls] at htasks
    by_cases hkind : s.session.kind = .resumed
    · rw [hkind] at htasks
      exact (hok hkind).2 hpool tasks htasks t ht harg t' (h.args t' harg') hlt harg'
    · rw [Session.runningTasks_new hkind htasks, hbetween.since] at ht ⊢
      have hlo := (mem_interval.mp ht).1
      exact mem_interval.mpr ⟨Nat.le_of_lt (Nat.lt_of_le_of_lt hlo hlt), h.args t' harg'⟩
  have hobjs : s.session.kind = .resumed →
      s.remember.dagObjs s.session.graph.reuse.currDagNo = [] := by
    intro hkind
    unfold remember
    rw [if_neg (by rw [hkind]; exact RunKind.noConfusion)]
    exact (hok hkind).1
  obtain ⟨objs, hmem⟩ := s.remember_eq
  refine ⟨hinv, fun t ht => ?_, fun t ht => ?_, fun _ tasks htasks => ?_,
    fun _ no calls hrun => ?_, ?_⟩
  · rw [show (CInterface.calls ⟨session, _⟩) = session.calls from rfl, hcalls] at ht
    obtain ht | ht := List.mem_cons.mp ht
    · cases ht
    · exact Nat.lt_of_lt_of_le (h.tasks t ht) hfresh
  · rw [hmem] at ht
    exact Nat.lt_of_lt_of_le (h.args t ht) hfresh
  · exact hbetween.unspent hloop hs htasks
  · replace hrun : session.calls = .spawnAndWait no .resumed :: calls := hrun
    rw [hcalls] at hrun
    injection hrun with hhead _
    injection hhead with hno hkind
    rw [← hno]
    exact hobjs hkind
  · rw [hmem]
    cases memoryPool with
    | true =>
        replace hblocks : s.PoolBlocks := hblocks
        refine ⟨⟨hblocks.separate.freed, hblocks.separate.objs, hblocks.separate.owned⟩,
          hblocks.kept, hblocks.inside, ?_, fun calls hsuffix => ?_, fun _ => hnewest rfl⟩
        · refine { hblocks.pooled with inside := fun b hb => ?_ }
          obtain ⟨u, hu, -⟩ := hb
          rw [show (CInterface.calls ⟨session, _⟩) = session.calls from rfl, hcalls] at hu
          cases hu
        · replace hsuffix : calls <:+ session.calls := hsuffix
          rw [hcalls] at hsuffix
          obtain rfl | hsuffix := List.suffix_cons_iff.mp hsuffix
          · exact fun t ht => absurd ht List.not_mem_nil
          · exact hblocks.apart calls hsuffix
    | false =>
        replace hblocks : s.OwnBlocks := hblocks
        refine ⟨⟨hblocks.separate.freed, hblocks.separate.objs, hblocks.separate.owned⟩,
          hblocks.own, fun t b hb hu => hblocks.kept t b hb ?_⟩
        rw [← Bool.not_eq_true]
        intro hdeleted
        have := hbetween.spawnAndWait_deleted hs
          (h.args t (Option.ne_none_iff_exists'.mpr ⟨b, hb⟩)) hdeleted
        rw [hu] at this
        cases this

/-- Where the call of `spawn_and_wait` returns, no graph is under construction. -/
theorem tasksSince_of_returns (hinv : s.session.Inv) {i : Fin (m + 1)}
    (hreturns : s.runtime.returns i = true) : tasksSince s.calls = [] := by
  have hmain : s.runtime.main ≠ .prog := by
    intro hm
    unfold Runtime.returns at hreturns
    simp [hm] at hreturns
  obtain ⟨lo, a, e, hduring⟩ := hinv.during hmain
  obtain ⟨no, kind, calls, hcalls, -⟩ := hduring.current
  rw [show s.calls = _ from hcalls]
  rfl

/-- A task is deleted, and its argument block with it. -/
theorem OwnBlocks.destroy (h : s.OwnBlocks) {i : Fin (m + 1)} {hit : Bool} {r : Runtime m}
    (hstep : s.runtime.step i hit = some r) {mem : Memory}
    (hmem : (match s.runtime.deletes i with
      | some t => s.memory.destroy t
      | none => some s.memory) = some mem) :
    OwnBlocks ⟨{ s.session with runtime := r }, mem⟩ ∧ mem.ciArgs = s.memory.ciArgs ∧
      mem.dagObjs = s.memory.dagObjs := by
  have hdeleted := fun t => step_deleted hstep t
  have halive : ∀ t, (r.heap t).deleted = false →
      (s.session.heap t).deleted = false ∧ s.runtime.deletes i ≠ some t := by
    intro t ht
    have hiff := hdeleted t
    rw [ht] at hiff
    have hnot := mt hiff.mpr Bool.false_ne_true
    exact ⟨by simpa using fun hd => hnot (Or.inl hd), fun hd => hnot (Or.inr hd)⟩
  have hsame : OwnBlocks ⟨{ s.session with runtime := r }, s.memory⟩ :=
    ⟨h.separate, h.own, fun t b hb ht => h.kept t b hb (halive t ht).1⟩
  cases hdeletes : s.runtime.deletes i with
  | none =>
      rw [hdeletes] at hmem
      cases hmem
      exact ⟨hsame, rfl, rfl⟩
  | some t =>
      rw [hdeletes] at hmem
      replace hmem : s.memory.destroy t = some mem := hmem
      unfold Memory.destroy at hmem
      cases harg : s.memory.ciArgs t with
      | none =>
          rw [harg] at hmem
          cases hmem
          exact ⟨hsame, rfl, rfl⟩
      | some b =>
          rw [harg] at hmem
          have hseparate := h.separate.free ⟨t, b, harg, rfl⟩ hmem
          obtain rfl := Memory.free_eq hmem
          refine ⟨⟨hseparate, h.own, fun t' b' hb' ht' hfreed => ?_⟩, rfl, rfl⟩
          obtain ⟨halive', hne⟩ := halive t' ht'
          obtain hchunk | hfreed := List.mem_cons.mp hfreed
          · have heq := h.own t' t b' b hb' harg hchunk
            exact hne (by rw [hdeletes, heq])
          · exact h.kept t' b' hb' halive' hfreed

theorem OwnBlocks.afterSpawnAndWait (h : s.OwnBlocks) {mem : Memory}
    (hmem : s.memory.afterSpawnAndWait false = some mem) : OwnBlocks { s with memory := mem } ∧
      mem.ciArgs = s.memory.ciArgs ∧ mem.dagObjs = s.memory.dagObjs := by
  obtain ⟨mem₁, hfree, rfl⟩ := Option.map_eq_some_iff.mp hmem
  have hseparate := h.separate.freeAllObjs hfree
  have hkept := fun c => h.separate.kept hfree (c := c)
  have heq := Memory.acemeshFreeAllObjs_eq hfree
  have hargs : mem₁.ciArgs = s.memory.ciArgs := by rw [heq]
  refine ⟨⟨?_, ?_, fun t b hb ht => ?_⟩, hargs, by rw [heq]; rfl⟩
  · show mem₁.Separate fun c => ∃ t b, mem₁.ciArgs t = some b ∧ b.start.chunk = c
    rw [hargs]
    exact hseparate
  · show ∀ t t' b b', mem₁.ciArgs t = some b → mem₁.ciArgs t' = some b' → _
    rw [hargs]
    exact h.own
  · replace hb : s.memory.ciArgs t = some b := hargs ▸ hb
    exact hkept _ ⟨t, b, hb, rfl⟩ (h.kept t b hb ht)

theorem PoolBlocks.afterSpawnAndWait (h : s.PoolBlocks) {mem : Memory}
    (hmem : s.memory.afterSpawnAndWait true = some mem) (hsince : tasksSince s.calls = []) :
    PoolBlocks { s with memory := mem } ∧ mem.ciArgs = s.memory.ciArgs ∧
      mem.dagObjs = s.memory.dagObjs := by
  obtain ⟨mem₁, hfree, rfl⟩ := Option.map_eq_some_iff.mp hmem
  have hkept := fun c (hc : c ∈ s.memory.pool.blocks) => h.separate.kept hfree hc (h.kept c hc)
  have hseparate := h.separate.freeAllObjs hfree
  have heq := Memory.acemeshFreeAllObjs_eq hfree
  have hpooled : Memory.Pooled mem₁ fun b => ∃ t ∈ tasksSince s.calls, s.memory.ciArgs t = some b := by
    rw [heq]
    exact { h.pooled with }
  obtain ⟨hnew, honly⟩ := hpooled.reInitial
  have hargs : mem₁.reInitial.ciArgs = s.memory.ciArgs := by
    rw [honly.args, heq]
  have hpool : mem₁.pool = s.memory.pool := by rw [heq]
  have hfresh : mem₁.reInitial.fresh = mem₁.fresh := rfl
  have hblocks : ∀ c, c ∈ mem₁.reInitial.pool.blocks ↔ c ∈ s.memory.pool.blocks := by
    intro c
    rw [honly.blocks, hpool, hfresh]
    exact or_iff_left (by omega)
  refine ⟨⟨?_, fun c hc => ?_, fun t b hb => ?_, ?_, fun calls hsuffix => ?_, fun hne => ?_⟩,
    hargs, honly.dagObjs.trans (by rw [heq])⟩
  · exact hseparate.grow honly.freed honly.objs (Nat.le_refl _) fun c hc => Or.inl ((hblocks c).mp hc)
  · exact hkept c ((hblocks c).mp hc)
  · obtain ⟨hin, hfits⟩ := h.inside t b (hargs ▸ hb)
    exact ⟨(hblocks _).mpr hin, hfits⟩
  · refine { hnew with inside := fun b hb => ?_ }
    obtain ⟨u, hu, -⟩ := hb
    rw [show (CInterface.calls { s with memory := _ }) = s.calls from rfl, hsince] at hu
    cases hu
  · show Apart mem₁.reInitial (tasksSince calls)
    unfold Apart
    rw [hargs]
    exact h.apart calls hsuffix
  · intro tasks htasks
    show Newest mem₁.reInitial tasks
    unfold Newest
    rw [hargs]
    exact h.newest hne tasks htasks

theorem Inv.blocks_thread (h : Inv memoryPool s) {i : Fin (m + 1)} {hit : Bool} {r : Runtime m}
    (hstep : s.runtime.step i hit = some r) {mem : Memory}
    (hmem : s.memoryAfter memoryPool i = some mem)
    (hok : s.Lasting memoryPool (.thread i hit)) :
    (if memoryPool = true then PoolBlocks ⟨{ s.session with runtime := r }, mem⟩
      else OwnBlocks ⟨{ s.session with runtime := r }, mem⟩) ∧
      mem.ciArgs = s.memory.ciArgs ∧ mem.dagObjs = s.memory.dagObjs := by
  have hblocks := h.blocks
  have hprog := (step_move h.session.inside hstep).prog
  obtain ⟨mem₁, hdestroy, hafter⟩ := Option.bind_eq_some_iff.mp hmem
  cases memoryPool with
  | true =>
      replace hblocks : s.PoolBlocks := hblocks
      have hsame : mem₁ = s.memory := by
        cases hdeletes : s.runtime.deletes i with
        | none =>
            rw [hdeletes] at hdestroy
            exact (Option.some.inj hdestroy).symm
        | some t =>
            rw [hdeletes] at hdestroy
            replace hdestroy : s.memory.destroy t = some mem₁ := hdestroy
            unfold Memory.destroy at hdestroy
            rw [hok rfl t hdeletes] at hdestroy
            exact (Option.some.inj hdestroy).symm
      subst hsame
      have hnext : PoolBlocks ⟨{ s.session with runtime := r }, s.memory⟩ :=
        ⟨hblocks.separate, hblocks.kept, hblocks.inside, hblocks.pooled, hblocks.apart,
          fun hne => hblocks.newest (mt hprog hne)⟩
      by_cases hreturns : s.runtime.returns i = true
      · rw [if_pos hreturns] at hafter
        have hsince := tasksSince_of_returns h.session hreturns
        exact hnext.afterSpawnAndWait hafter hsince
      · rw [if_neg hreturns] at hafter
        cases hafter
        exact ⟨hnext, rfl, rfl⟩
  | false =>
      replace hblocks : s.OwnBlocks := hblocks
      obtain ⟨hnext, hargs, hobjs⟩ := hblocks.destroy hstep hdestroy
      by_cases hreturns : s.runtime.returns i = true
      · rw [if_pos hreturns] at hafter
        obtain ⟨hlast, hargs', hobjs'⟩ := hnext.afterSpawnAndWait hafter
        exact ⟨hlast, hargs'.trans hargs, hobjs'.trans hobjs⟩
      · rw [if_neg hreturns] at hafter
        cases hafter
        exact ⟨hnext, hargs, hobjs⟩

theorem Inv.thread (h : Inv memoryPool s) {i : Fin (m + 1)} {hit : Bool} {r : Runtime m}
    (hstep : s.runtime.step i hit = some r) {mem : Memory}
    (hmem : s.memoryAfter memoryPool i = some mem)
    (hok : s.Lasting memoryPool (.thread i hit)) :
    Inv memoryPool ⟨{ s.session with runtime := r }, mem⟩ := by
  have hmove := step_move h.session.inside hstep
  obtain ⟨hblocks, hargs, hobjs⟩ := h.blocks_thread hstep hmem hok
  have hprog : r.main ≠ .prog → s.runtime.main ≠ .prog := mt hmove.prog
  refine ⟨h.session.move hmove, fun t ht => ?_, fun t ht => ?_, fun hne tasks htasks => ?_,
    fun hne no calls hcalls => ?_, hblocks⟩
  · show t < r.graph.fresh
    rw [hmove.fresh]
    exact h.tasks t ht
  · show t < r.graph.fresh
    rw [hmove.fresh]
    exact h.args t (hargs ▸ ht)
  · exact h.session.unspent hstep (hprog hne) htasks (h.unspent (hprog hne) tasks htasks)
  · show mem.dagObjs no = []
    rw [hobjs]
    exact h.objs (hprog hne) no calls hcalls

theorem Inv.call (h : Inv memoryPool s) {c : ProgramCall} {s' : CInterface m}
    (hs : s.call c = some s') (hok : s.Lasting memoryPool (.call c)) : Inv memoryPool s' := by
  have hquiet : ∀ c : ProgramCall, ∀ session, s.session.call c = some session →
      (∀ spec, c ≠ .build (.registerTask spec)) → c ≠ .spawnAndWait →
      Inv memoryPool { s with session := session } := by
    intro c session hsession htask hspawn
    have hinv := h.session.call hsession
    unfold Session.call at hsession
    split at hsession
    · rename_i hmain
      cases c with
      | build c =>
          replace hsession : s.session.build c = some session := hsession
          unfold Session.build at hsession
          split at hsession
          · cases hsession
            exact h.build hinv hmain rfl rfl (Or.inl rfl)
          · split at hsession
            · cases hsession
              exact h.build hinv hmain rfl rfl (Or.inl rfl)
            · cases hsession
          · exact absurd rfl (htask _)
          · cases hsession
            refine h.build hinv hmain ?_ ?_ (Or.inl rfl)
            · show s.session.graph.endSplitTask.heap = _
              rw [endSplitTask_eq]
            · show s.session.graph.endSplitTask.fresh = _
              rw [endSplitTask_eq]
          · cases hsession
      | dagStart no iv fv =>
          dsimp only at hsession
          split at hsession
          · cases hsession
          · cases hsession
            obtain ⟨u, hu, -, -⟩ := Session.dagStart_eq s.session.graph no iv fv
            have hheap : (s.session.dagStart no iv fv).heap = s.session.heap := by
              show (s.session.graph.dagStart no iv fv).1.heap = _
              rw [hu]
            have hfresh : (s.session.dagStart no iv fv).graph.fresh = s.session.graph.fresh := by
              show (s.session.graph.dagStart no iv fv).1.fresh = _
              rw [hu]
            exact h.build hinv hmain hheap hfresh (Or.inr ⟨no, iv, fv, _, rfl⟩)
      | spawnAndWait => exact absurd rfl hspawn
    · cases hsession
  unfold CInterface.call at hs
  split at hs
  · cases hs
  · rename_i c hnot
    obtain ⟨session, hsession, rfl⟩ := Option.map_eq_some_iff.mp hs
    exact hquiet _ session hsession (fun spec heq => hnot spec (ProgramCall.build.inj heq))
      ProgramCall.noConfusion
  · obtain ⟨session, hsession, rfl⟩ := Option.map_eq_some_iff.mp hs
    exact hquiet _ session hsession (fun spec => ProgramCall.noConfusion)
      ProgramCall.noConfusion
  · obtain ⟨session, hsession, rfl⟩ := Option.map_eq_some_iff.mp hs
    exact h.spawnAndWait hsession hok

theorem Inv.act (h : Inv memoryPool s) {a : Act m} {s' : CInterface m}
    (hs : s.act memoryPool a = some s') (hok : s.Lasting memoryPool a) : Inv memoryPool s' := by
  cases a with
  | thread i hit =>
      obtain ⟨session, hsession, hrest⟩ := Option.bind_eq_some_iff.mp hs
      obtain ⟨mem, hmem, rfl⟩ := Option.map_eq_some_iff.mp hrest
      obtain ⟨r, hr, rfl⟩ := Option.map_eq_some_iff.mp hsession
      exact h.thread hr hmem hok
  | task spec argsSize =>
      obtain ⟨session, hsession, rfl⟩ := Option.map_eq_some_iff.mp hs
      exact h.task hsession hok
  | mallocObj =>
      replace hs : (if s.runtime.main = .prog then
        some { s with memory := s.memory.acemeshMallocObj } else none) = some s' := hs
      split at hs
      · rename_i hmain
        cases hs
        exact h.mallocObj hmain
      · cases hs
  | call c => exact h.call hs hok

theorem Reached.inv (h : Reached memoryPool (Lasting memoryPool) s) : Inv memoryPool s := by
  induction h with
  | start => exact inv_start
  | act _ hok hact ih => exact ih.act hact hok

/-- In a run whose acts are all lasting, the memory of the running graph is intact. -/
theorem recycling_correct (h : Reached memoryPool (Lasting memoryPool) s)
    (hmain : s.runtime.main ≠ .prog) : s.Intact memoryPool :=
  h.inv.intact hmain

namespace Example

/-- A graph with the number `1` is built, run, announced again and called again; its task has
arguments, and the program may ask for an object. -/
def twice (obj : Bool) : List (Act 1) :=
  [.call (.dagStart 1 [] []), .call (.build .beginSplitTask),
    .task AceMesh.Example.reader 8#32] ++
    (if obj then [.mallocObj] else []) ++
    [.call (.build .endSplitTask), .call .spawnAndWait] ++
    (List.replicate 13
      [.thread AceMesh.Example.main true, .thread AceMesh.Example.worker true]).flatten ++
    [.call (.dagStart 1 [] []), .call .spawnAndWait]

end Example

/-- The second run of a graph that was built without objects. -/
theorem recycling_correct_example : ∃ s : CInterface 1,
    Session.Example.current s.calls = some (1, .resumed) ∧ s.Intact true ∧
    s.memory.ciArgs 0 = some ⟨⟨0, 0⟩, 8⟩ := by
  have hrun : ((start true).run true (Lasting true) (Example.twice false)).bind (fun s =>
      if s.runtime.main ≠ .prog ∧ Session.Example.current s.calls = some (1, .resumed) then
        some (s.memory.ciArgs 0) else none) = some (some ⟨⟨0, 0⟩, 8⟩) := by
    decide
  obtain ⟨s, hs, hrun⟩ := Option.bind_eq_some_iff.mp hrun
  split at hrun
  · rename_i hif
    exact ⟨s, hif.2, recycling_correct (Reached.start.run _ hs) hif.1, Option.some.inj hrun⟩
  · cases hrun

/-- The object that was asked for while the graph was built has been freed when the graph
runs for the second time. -/
theorem freed_objects : ∃ s : CInterface 1, Reached false (fun _ _ => True) s ∧
    s.runtime.main ≠ .prog ∧ ¬ s.Intact false := by
  have hrun : ((start false).run false (fun _ _ => True) (Example.twice true)).bind (fun s =>
      if s.runtime.main ≠ .prog then some (s.runningObjs, s.memory.freed) else none) =
        some ([1], [1]) := by
    decide
  obtain ⟨s, hs, hrun⟩ := Option.bind_eq_some_iff.mp hrun
  split at hrun
  · rename_i hmain
    have hpair := Prod.mk.inj (Option.some.inj hrun)
    refine ⟨s, Reached.start.run _ hs, hmain, fun hintact => ?_⟩
    refine hintact.objs 1 ?_ ?_
    · rw [hpair.1]
      exact List.mem_cons_self
    · rw [hpair.2]
      exact List.mem_cons_self
  · cases hrun

end CInterface

end AceMesh
