import AceMesh.Task
import Mathlib.Data.List.Perm.Basic

/-!
# Memory for arguments

`MemPool.c` and the part of `aceMesh_clang.cpp` that takes and returns memory. A `malloc`
gives a new chunk; a pointer is a chunk and an offset, and chunks are aligned to `16`. The
pool hands out its chunks from the front, and `ReInitial` starts over at the oldest one
without looking at who still holds a part of it.

In the `MEMORY_POOL` build the argument block of a task comes from the pool, but the
destructor of the task passes it to `free` like a block of its own.
-/

namespace AceMesh

def UNITSIZE : Int := 1024 * 1024 * 20

structure Pointer where
  chunk : Nat
  offset : Int
  deriving DecidableEq

/-- Memory that has been handed out. -/
structure Block where
  start : Pointer
  size : Nat
  deriving DecidableEq

def Block.Overlaps (b b' : Block) : Prop :=
  b.start.chunk = b'.start.chunk ∧ b.start.offset < b'.start.offset + b'.size ∧
    b'.start.offset < b.start.offset + b.size

instance (b b' : Block) : Decidable (b.Overlaps b') :=
  inferInstanceAs (Decidable (_ ∧ _ ∧ _))

/-- The block lies in one chunk of the pool. -/
def Block.Fits (b : Block) : Prop :=
  0 ≤ b.start.offset ∧ b.start.offset + b.size ≤ UNITSIZE

/-- `struct MemPool`. A `struct block` is named by its data. -/
structure MemPool where
  endBlock : Pointer
  self1 : Pointer
  allocatedMemBlock : List Nat
  freeMemBlock : List Nat

/-- The first free block becomes the current one. -/
def MemPool.takeBlock (pool : MemPool) : MemPool :=
  match pool.freeMemBlock with
  | [] => pool
  | c :: rest =>
    { endBlock := ⟨c, UNITSIZE⟩
      self1 := ⟨c, 0⟩
      allocatedMemBlock := c :: pool.allocatedMemBlock
      freeMemBlock := rest }

/-- `self1` is moved up to a multiple of `a`. -/
def MemPool.align (pool : MemPool) (a : Int) : MemPool :=
  if pool.self1.offset % a > 0 then
    { pool with self1 := ⟨pool.self1.chunk, pool.self1.offset + (a - pool.self1.offset % a)⟩ }
  else pool

/-- The chunks of the pool. -/
def MemPool.blocks (pool : MemPool) : List Nat := pool.allocatedMemBlock ++ pool.freeMemBlock

/-- The memory of the interface: the chunks freed so far, the pool,
`enlonged_local_objs`, and `ci_args` of each task. `dagObjs` records the objects that were
there when a graph was stored; no step reads it. -/
structure Memory where
  fresh : Nat
  freed : List Nat
  pool : MemPool
  enlongedLocalObjs : List Nat
  ciArgs : TaskId → Option Block
  dagObjs : Int → List Nat

namespace Memory

def malloc (mem : Memory) : Nat × Memory := (mem.fresh, { mem with fresh := mem.fresh + 1 })

/-- `free`. A pointer that no `malloc` has given, or that has been freed, is a crash. -/
def free (mem : Memory) (p : Pointer) : Option Memory :=
  if p.offset = 0 ∧ p.chunk ∉ mem.freed then some { mem with freed := p.chunk :: mem.freed }
  else none

/-! ## The pool -/

/-- `InitPool`. -/
def initPool (mem : Memory) : Memory :=
  let r := mem.malloc
  { r.2 with
    pool := ({ r.2.pool with allocatedMemBlock := [], freeMemBlock := [r.1] }).takeBlock }

/-- What the functions of the pool do once `self1` has been aligned. -/
def take (mem : Memory) (datasize : Int) : Pointer × Memory :=
  let mem :=
    if mem.pool.endBlock.offset - mem.pool.self1.offset < datasize then
      let mem :=
        if mem.pool.freeMemBlock = [] then
          let r := mem.malloc
          { r.2 with pool := { r.2.pool with freeMemBlock := [r.1] } }
        else mem
      { mem with pool := mem.pool.takeBlock }
    else mem
  let self := mem.pool.self1
  (self, { mem with pool := { mem.pool with self1 := ⟨self.chunk, self.offset + datasize⟩ } })

/-- `acemesh_myalloc_aligned_4`, `_8` and `_16` are this, for their `a`: an offset is a multiple
of it if the address is, because chunks are aligned to `16`. -/
def myallocAligned (mem : Memory) (a datasize : Int) : Pointer × Memory :=
  ({ mem with pool := mem.pool.align a } : Memory).take datasize

def acemeshMyallocAligned16 (mem : Memory) (datasize : Int) : Pointer × Memory :=
  mem.myallocAligned 16 datasize

/-- `ReInitial`. -/
def reInitial (mem : Memory) : Memory :=
  { mem with
    pool := ({ mem.pool with
      allocatedMemBlock := []
      freeMemBlock := mem.pool.allocatedMemBlock.foldl (fun free c => c :: free)
        mem.pool.freeMemBlock }).takeBlock }

/-! ## The interface -/

/-- `ci_task::define`. The pool takes the size as an `int`. -/
def define (memoryPool : Bool) (mem : Memory) (t : TaskId) (argsSize : BitVec 32) : Memory :=
  if argsSize.toNat > 0 then
    if memoryPool then
      let r := mem.acemeshMyallocAligned16 argsSize.toInt
      { r.2 with ciArgs := Function.update r.2.ciArgs t (some ⟨r.1, argsSize.toNat⟩) }
    else
      let r := mem.malloc
      { r.2 with ciArgs := Function.update r.2.ciArgs t (some ⟨⟨r.1, 0⟩, argsSize.toNat⟩) }
  else { mem with ciArgs := Function.update mem.ciArgs t none }

/-- `~ci_task`. -/
def destroy (mem : Memory) (t : TaskId) : Option Memory :=
  match mem.ciArgs t with
  | some args => mem.free args.start
  | none => some mem

/-- `acemesh_malloc_obj`. -/
def acemeshMallocObj (mem : Memory) : Memory :=
  let r := mem.malloc
  { r.2 with enlongedLocalObjs := r.2.enlongedLocalObjs ++ [r.1] }

/-- `acemesh_free_all_objs`. -/
def acemeshFreeAllObjs (mem : Memory) : Option Memory :=
  (mem.enlongedLocalObjs.foldlM (fun (mem : Memory) addr => mem.free ⟨addr, 0⟩) mem).map
    fun mem => { mem with enlongedLocalObjs := [] }

/-- `acemesh_spawn_and_wait`, after `spawn_and_wait` has returned. -/
def afterSpawnAndWait (memoryPool : Bool) (mem : Memory) : Option Memory :=
  mem.acemeshFreeAllObjs.map fun mem => if memoryPool then mem.reInitial else mem

/-- The memory when the runtime has been initialised. -/
def start (memoryPool : Bool) : Memory :=
  let mem : Memory :=
    { fresh := 0
      freed := []
      pool := ⟨⟨0, 0⟩, ⟨0, 0⟩, [], []⟩
      enlongedLocalObjs := []
      ciArgs := fun _ => none
      dagObjs := fun _ => [] }
  if memoryPool then mem.initPool else mem

/-! ## What the pool hands out -/

/-- The chunks of the pool are its own, and of the blocks handed out since it was last
initialised none reaches behind `self1`. -/
structure Pooled (mem : Memory) (handed : Block → Prop) : Prop where
  nodup : mem.pool.blocks.Nodup
  lt : ∀ c ∈ mem.pool.blocks, c < mem.fresh
  current : mem.pool.self1.chunk ∈ mem.pool.allocatedMemBlock
  limits : 0 ≤ mem.pool.self1.offset ∧ mem.pool.endBlock.offset = UNITSIZE
  inside : ∀ b, handed b → b.start.chunk ∈ mem.pool.allocatedMemBlock ∧
    (b.start.chunk = mem.pool.self1.chunk → b.start.offset + b.size ≤ mem.pool.self1.offset)

variable {mem : Memory} {handed : Block → Prop}

theorem blocks_takeBlock (pool : MemPool) : pool.takeBlock.blocks.Perm pool.blocks := by
  unfold MemPool.takeBlock
  split
  · exact List.Perm.refl _
  · rename_i c rest hfree
    unfold MemPool.blocks
    rw [hfree]
    exact List.perm_middle.symm

theorem offset_takeBlock {pool : MemPool} (hfree : pool.freeMemBlock ≠ []) :
    pool.takeBlock.self1.offset = 0 ∧ pool.takeBlock.endBlock.offset = UNITSIZE := by
  obtain ⟨c, rest, hcons⟩ := List.exists_cons_of_ne_nil hfree
  unfold MemPool.takeBlock
  rw [hcons]
  exact ⟨rfl, rfl⟩

/-- `self1` may move up within its chunk. -/
theorem Pooled.forward (h : Pooled mem handed) {offset : Int}
    (hle : mem.pool.self1.offset ≤ offset) :
    Pooled { mem with pool := { mem.pool with self1 := ⟨mem.pool.self1.chunk, offset⟩ } }
      handed := by
  refine ⟨h.nodup, h.lt, h.current, ⟨Int.le_trans h.limits.1 hle, h.limits.2⟩, fun b hb => ?_⟩
  obtain ⟨hmem, hbehind⟩ := h.inside b hb
  exact ⟨hmem, fun hchunk => Int.le_trans (hbehind hchunk) hle⟩

theorem Pooled.align (h : Pooled mem handed) {a : Int} (ha : 0 < a) :
    Pooled { mem with pool := mem.pool.align a } handed := by
  unfold MemPool.align
  split
  · have hlt := Int.emod_lt_of_pos mem.pool.self1.offset ha
    exact h.forward (by omega)
  · exact h

/-- A block that is taken from the free list has no memory handed out in it. -/
theorem Pooled.takeBlock (h : Pooled mem handed) (hfree : mem.pool.freeMemBlock ≠ []) :
    Pooled { mem with pool := mem.pool.takeBlock } handed := by
  have hperm := blocks_takeBlock mem.pool
  obtain ⟨hfirst, hlast⟩ := offset_takeBlock hfree
  refine ⟨hperm.nodup_iff.mpr h.nodup, fun c hc => h.lt c (hperm.mem_iff.mp hc), ?_,
    ⟨Int.le_of_eq hfirst.symm, hlast⟩, ?_⟩
  · show mem.pool.takeBlock.self1.chunk ∈ mem.pool.takeBlock.allocatedMemBlock
    unfold MemPool.takeBlock
    split
    · exact h.current
    · exact List.mem_cons_self
  · intro b hb
    obtain ⟨hmem, -⟩ := h.inside b hb
    show b.start.chunk ∈ mem.pool.takeBlock.allocatedMemBlock ∧
      (b.start.chunk = mem.pool.takeBlock.self1.chunk → _ ≤ mem.pool.takeBlock.self1.offset)
    obtain ⟨c, rest, hcons⟩ := List.exists_cons_of_ne_nil hfree
    unfold MemPool.takeBlock
    rw [hcons]
    refine ⟨List.mem_cons_of_mem _ hmem, fun hchunk => ?_⟩
    have hdisjoint := List.disjoint_of_nodup_append h.nodup
    have hchunk : b.start.chunk = c := hchunk
    rw [hchunk] at hmem
    exact absurd (by rw [hcons]; exact List.mem_cons_self) (hdisjoint hmem)

/-- A new chunk for the free list. -/
theorem Pooled.allocBlock (h : Pooled mem handed) (hfree : mem.pool.freeMemBlock = []) :
    Pooled { mem with
      fresh := mem.fresh + 1
      pool := { mem.pool with freeMemBlock := [mem.fresh] } } handed := by
  have hblocks : mem.pool.blocks = mem.pool.allocatedMemBlock := by
    unfold MemPool.blocks
    rw [hfree, List.append_nil]
  have hold : ∀ c ∈ mem.pool.allocatedMemBlock, c < mem.fresh := fun c hc => h.lt c (hblocks ▸ hc)
  refine ⟨?_, fun c hc => ?_, h.current, h.limits, h.inside⟩
  · show (mem.pool.allocatedMemBlock ++ [mem.fresh]).Nodup
    apply List.nodup_append'.mpr
    refine ⟨hblocks ▸ h.nodup, List.nodup_singleton _, fun c hc hfresh => ?_⟩
    have := hold c hc
    have := List.mem_singleton.mp hfresh
    omega
  · show c < mem.fresh + 1
    replace hc : c ∈ mem.pool.allocatedMemBlock ++ [mem.fresh] := hc
    obtain hc | hc := List.mem_append.mp hc
    · have := hold c hc
      omega
    · have := List.mem_singleton.mp hc
      omega

/-- The next block starts at `self1`. -/
theorem Pooled.advance (h : Pooled mem handed) (size : Nat)
    (hsize : mem.pool.self1.offset + size ≤ mem.pool.endBlock.offset) :
    Pooled { mem with pool := { mem.pool with
      self1 := ⟨mem.pool.self1.chunk, mem.pool.self1.offset + size⟩ } }
      (fun b => handed b ∨ b = ⟨mem.pool.self1, size⟩) ∧
    (∀ b, handed b → ¬ b.Overlaps ⟨mem.pool.self1, size⟩) ∧ Block.Fits ⟨mem.pool.self1, size⟩ := by
  have hstart := h.limits.1
  refine ⟨?_, ?_, hstart, ?_⟩
  · refine ⟨h.nodup, h.lt, h.current, ⟨?_, h.limits.2⟩, fun b hb => ?_⟩
    · show 0 ≤ mem.pool.self1.offset + size
      omega
    obtain hb | rfl := hb
    · obtain ⟨hmem, hle⟩ := h.inside b hb
      refine ⟨hmem, fun hchunk => ?_⟩
      have := hle hchunk
      show b.start.offset + b.size ≤ mem.pool.self1.offset + size
      omega
    · exact ⟨h.current, fun _ => Int.le_refl _⟩
  · intro b hb hoverlaps
    obtain ⟨hchunk, -, hlt⟩ := hoverlaps
    have hle := (h.inside b hb).2 hchunk
    replace hlt : mem.pool.self1.offset < b.start.offset + b.size := hlt
    omega
  · rw [h.limits.2] at hsize
    exact hsize

/-- The other parts of the memory that an allocation leaves alone, and the chunks it may add
to the pool. -/
structure OnlyPool (mem mem' : Memory) : Prop where
  freed : mem'.freed = mem.freed
  objs : mem'.enlongedLocalObjs = mem.enlongedLocalObjs
  args : mem'.ciArgs = mem.ciArgs
  dagObjs : mem'.dagObjs = mem.dagObjs
  fresh : mem.fresh ≤ mem'.fresh
  blocks : ∀ c, c ∈ mem'.pool.blocks ↔ c ∈ mem.pool.blocks ∨ (mem.fresh ≤ c ∧ c < mem'.fresh)

theorem OnlyPool.of_pool {pool : MemPool} (h : ∀ c, c ∈ pool.blocks ↔ c ∈ mem.pool.blocks) :
    OnlyPool mem { mem with pool := pool } where
  freed := rfl
  objs := rfl
  args := rfl
  dagObjs := rfl
  fresh := Nat.le_refl _
  blocks := fun c => by
    show c ∈ pool.blocks ↔ c ∈ mem.pool.blocks ∨ (mem.fresh ≤ c ∧ c < mem.fresh)
    rw [h c]
    exact (or_iff_left (by omega)).symm

theorem OnlyPool.trans {mem' mem'' : Memory} (h : OnlyPool mem mem') (h' : OnlyPool mem' mem'') :
    OnlyPool mem mem'' where
  freed := h'.freed.trans h.freed
  objs := h'.objs.trans h.objs
  args := h'.args.trans h.args
  dagObjs := h'.dagObjs.trans h.dagObjs
  fresh := Nat.le_trans h.fresh h'.fresh
  blocks := fun c => by
    have := h.fresh
    have := h'.fresh
    rw [h'.blocks, h.blocks, or_assoc]
    apply or_congr_right
    omega

/-- A new block overlaps none that has been handed out since the pool was last initialised. -/
theorem Pooled.take (h : Pooled mem handed) {size : Nat} (hsize : (size : Int) ≤ UNITSIZE) :
    Pooled (mem.take size).2 (fun b => handed b ∨ b = ⟨(mem.take size).1, size⟩) ∧
    ((∀ b, handed b → ¬ b.Overlaps ⟨(mem.take size).1, size⟩) ∧
      Block.Fits ⟨(mem.take size).1, size⟩) ∧
    OnlyPool mem (mem.take size).2 := by
  unfold Memory.take
  dsimp only
  have hlast : ∀ mem₁ : Memory, Pooled mem₁ handed → OnlyPool mem mem₁ →
      mem₁.pool.self1.offset + size ≤ mem₁.pool.endBlock.offset →
      Pooled { mem₁ with pool := { mem₁.pool with
        self1 := ⟨mem₁.pool.self1.chunk, mem₁.pool.self1.offset + size⟩ } }
        (fun b => handed b ∨ b = ⟨mem₁.pool.self1, size⟩) ∧
      ((∀ b, handed b → ¬ b.Overlaps ⟨mem₁.pool.self1, size⟩) ∧
        Block.Fits ⟨mem₁.pool.self1, size⟩) ∧
      OnlyPool mem { mem₁ with pool := { mem₁.pool with
        self1 := ⟨mem₁.pool.self1.chunk, mem₁.pool.self1.offset + size⟩ } } := by
    intro mem₁ hpooled hmem₁ hroom
    obtain ⟨hnew, hapart⟩ := hpooled.advance size hroom
    exact ⟨hnew, hapart, hmem₁.trans (OnlyPool.of_pool fun _ => Iff.rfl)⟩
  have htake : ∀ mem₁ : Memory, Pooled mem₁ handed → OnlyPool mem mem₁ →
      mem₁.pool.freeMemBlock ≠ [] → Pooled { mem₁ with pool := mem₁.pool.takeBlock } handed ∧
        OnlyPool mem { mem₁ with pool := mem₁.pool.takeBlock } ∧
          mem₁.pool.takeBlock.self1.offset + size ≤ mem₁.pool.takeBlock.endBlock.offset := by
    intro mem₁ hpooled hmem₁ hfree
    refine ⟨hpooled.takeBlock hfree,
      hmem₁.trans (OnlyPool.of_pool fun c => (blocks_takeBlock mem₁.pool).mem_iff), ?_⟩
    obtain ⟨hfirst, hend⟩ := offset_takeBlock hfree
    rw [hfirst, hend]
    omega
  have honly : OnlyPool mem mem := OnlyPool.of_pool fun _ => Iff.rfl
  split
  · split
    · rename_i hfree
      -- a new chunk
      have hgrown : OnlyPool mem { mem with
          fresh := mem.fresh + 1
          pool := { mem.pool with freeMemBlock := [mem.fresh] } } := by
        refine ⟨rfl, rfl, rfl, rfl, Nat.le_succ _, fun c => ?_⟩
        unfold MemPool.blocks
        rw [hfree, List.append_nil, List.mem_append, List.mem_singleton]
        apply or_congr_right
        dsimp only
        omega
      obtain ⟨hpooled, hmem₁, hroom⟩ := htake _ (h.allocBlock hfree) hgrown (by simp)
      exact hlast _ hpooled hmem₁ hroom
    · rename_i hfree
      obtain ⟨hpooled, hmem₁, hroom⟩ := htake _ h honly hfree
      exact hlast _ hpooled hmem₁ hroom
  · rename_i hroom
    exact hlast _ h honly (by omega)

theorem Pooled.myallocAligned (h : Pooled mem handed) {a : Int} (ha : 0 < a) {size : Nat}
    (hsize : (size : Int) ≤ UNITSIZE) :
    Pooled (mem.myallocAligned a size).2
      (fun b => handed b ∨ b = ⟨(mem.myallocAligned a size).1, size⟩) ∧
    ((∀ b, handed b → ¬ b.Overlaps ⟨(mem.myallocAligned a size).1, size⟩) ∧
      Block.Fits ⟨(mem.myallocAligned a size).1, size⟩) ∧
    OnlyPool mem (mem.myallocAligned a size).2 := by
  have honly : OnlyPool mem { mem with pool := mem.pool.align a } := by
    apply OnlyPool.of_pool
    intro c
    unfold MemPool.align
    split <;> exact Iff.rfl
  obtain ⟨hpooled, hapart, hpool⟩ := (h.align ha).take hsize
  exact ⟨hpooled, hapart, honly.trans hpool⟩

theorem reverse_of_foldl (l free : List Nat) :
    l.foldl (fun free c => c :: free) free = l.reverse ++ free := by
  induction l generalizing free with
  | nil => rfl
  | cons c l ih =>
      rw [List.foldl_cons, ih, List.reverse_cons, List.append_assoc]
      rfl

/-- After `ReInitial` nothing counts as handed out. -/
theorem Pooled.reInitial (h : Pooled mem handed) :
    Pooled mem.reInitial (fun _ => False) ∧ OnlyPool mem mem.reInitial := by
  have hperm : (mem.pool.allocatedMemBlock.foldl (fun free c => c :: free)
      mem.pool.freeMemBlock).Perm mem.pool.blocks := by
    rw [reverse_of_foldl]
    exact (List.reverse_perm _).append_right _
  have hmem : ∀ c, c ∈ mem.reInitial.pool.blocks ↔ c ∈ mem.pool.blocks := by
    intro c
    unfold Memory.reInitial
    rw [(blocks_takeBlock _).mem_iff]
    exact hperm.mem_iff
  -- the pool is not empty
  have hne : mem.pool.allocatedMemBlock.foldl (fun free c => c :: free)
      mem.pool.freeMemBlock ≠ [] := by
    intro hnil
    rw [hnil] at hperm
    have hcurrent : mem.pool.self1.chunk ∈ mem.pool.blocks :=
      List.mem_append.mpr (Or.inl h.current)
    rw [List.nil_perm.mp hperm] at hcurrent
    cases hcurrent
  refine ⟨⟨?_, fun c hc => h.lt c ((hmem c).mp hc), ?_, ?_, fun b hb => hb.elim⟩, ?_⟩
  · unfold Memory.reInitial
    rw [(blocks_takeBlock _).nodup_iff]
    exact hperm.nodup_iff.mpr h.nodup
  · obtain ⟨c, rest, hcons⟩ := List.exists_cons_of_ne_nil hne
    unfold Memory.reInitial MemPool.takeBlock
    dsimp only
    rw [hcons]
    exact List.mem_cons_self
  · obtain ⟨hfirst, hend⟩ := @offset_takeBlock { mem.pool with
      allocatedMemBlock := []
      freeMemBlock := mem.pool.allocatedMemBlock.foldl (fun free c => c :: free)
        mem.pool.freeMemBlock } hne
    exact ⟨Int.le_of_eq hfirst.symm, hend⟩
  · exact OnlyPool.of_pool hmem

theorem pooled_start : Pooled (start true) (fun _ => False) := by
  refine ⟨List.nodup_singleton _, fun c hc => ?_, List.mem_singleton.mpr rfl,
    ⟨Int.le_refl 0, rfl⟩, fun b hb => hb.elim⟩
  obtain rfl := List.mem_singleton.mp hc
  exact Nat.one_pos

theorem myallocAligned_ciArgs (mem : Memory) (a size : Int) :
    (mem.myallocAligned a size).2.ciArgs = mem.ciArgs := by
  unfold Memory.myallocAligned take
  dsimp only
  split
  · split <;> rfl
  · rfl

theorem define_of_ne (memoryPool : Bool) {t u : TaskId} (hne : u ≠ t) (argsSize : BitVec 32) :
    (mem.define memoryPool t argsSize).ciArgs u = mem.ciArgs u := by
  unfold Memory.define
  split
  · split
    · refine (Function.update_of_ne hne ..).trans ?_
      exact congrFun (myallocAligned_ciArgs mem 16 argsSize.toInt) u
    · exact Function.update_of_ne hne ..
  · exact Function.update_of_ne hne ..

theorem define_empty (memoryPool : Bool) {t : TaskId} (hnone : mem.ciArgs t = none)
    {argsSize : BitVec 32} (hsize : ¬ argsSize.toNat > 0) :
    mem.define memoryPool t argsSize = mem := by
  unfold Memory.define
  rw [if_neg hsize, ← hnone, Function.update_eq_self]

/-! ## Objects and other chunks -/

/-- The objects have not been freed and are none of the chunks that are owned otherwise. -/
structure Separate (mem : Memory) (owned : Nat → Prop) : Prop where
  freed : ∀ c ∈ mem.freed, c < mem.fresh
  objs : ∀ c ∈ mem.enlongedLocalObjs, c < mem.fresh ∧ c ∉ mem.freed
  owned : ∀ c, owned c → c < mem.fresh ∧ c ∉ mem.enlongedLocalObjs

namespace Separate

variable {mem' : Memory} {owned owned' : Nat → Prop}

/-- New chunks are owned. -/
theorem grow (h : Separate mem owned) (hfreed : mem'.freed = mem.freed)
    (hobjs : mem'.enlongedLocalObjs = mem.enlongedLocalObjs) (hfresh : mem.fresh ≤ mem'.fresh)
    (howned : ∀ c, owned' c → owned c ∨ (mem.fresh ≤ c ∧ c < mem'.fresh)) :
    Separate mem' owned' := by
  constructor
  · intro c hc
    rw [hfreed] at hc
    exact Nat.lt_of_lt_of_le (h.freed c hc) hfresh
  · intro c hc
    rw [hobjs] at hc
    rw [hfreed]
    exact ⟨Nat.lt_of_lt_of_le (h.objs c hc).1 hfresh, (h.objs c hc).2⟩
  · intro c hc
    rw [hobjs]
    obtain hc | ⟨hle, hlt⟩ := howned c hc
    · exact ⟨Nat.lt_of_lt_of_le (h.owned c hc).1 hfresh, (h.owned c hc).2⟩
    · exact ⟨hlt, fun hmem => Nat.not_lt.mpr hle (h.objs c hmem).1⟩

theorem mallocObj (h : Separate mem owned) : Separate mem.acemeshMallocObj owned := by
  constructor
  · exact fun c hc => Nat.lt_succ_of_lt (h.freed c hc)
  · intro c hc
    obtain hc | hc := List.mem_append.mp hc
    · exact ⟨Nat.lt_succ_of_lt (h.objs c hc).1, (h.objs c hc).2⟩
    · obtain rfl := List.mem_singleton.mp hc
      exact ⟨Nat.lt_succ_self _, fun hfreed => Nat.lt_irrefl _ (h.freed _ hfreed)⟩
  · intro c hc
    refine ⟨Nat.lt_succ_of_lt (h.owned c hc).1, fun hmem => ?_⟩
    obtain hmem | hmem := List.mem_append.mp hmem
    · exact (h.owned c hc).2 hmem
    · exact Nat.ne_of_lt (h.owned c hc).1 (List.mem_singleton.mp hmem)

end Separate

theorem free_eq {mem' : Memory} {p : Pointer} (h : mem.free p = some mem') :
    mem' = { mem with freed := p.chunk :: mem.freed } := by
  unfold free at h
  split at h
  · exact (Option.some.inj h).symm
  · cases h

/-- A chunk that is owned is freed. -/
theorem Separate.free {mem' : Memory} {owned : Nat → Prop} (h : Separate mem owned) {p : Pointer}
    (hp : owned p.chunk) (hfree : mem.free p = some mem') : Separate mem' owned := by
  rw [free_eq hfree]
  constructor
  · intro c hc
    obtain rfl | hc := List.mem_cons.mp hc
    · exact (h.owned _ hp).1
    · exact h.freed c hc
  · intro c hc
    refine ⟨(h.objs c hc).1, fun hfreed => ?_⟩
    obtain rfl | hfreed := List.mem_cons.mp hfreed
    · exact (h.owned _ hp).2 hc
    · exact (h.objs c hc).2 hfreed
  · exact h.owned

theorem foldlM_free (addrs : List Nat) {mem' : Memory}
    (h : addrs.foldlM (fun (mem : Memory) addr => mem.free ⟨addr, 0⟩) mem = some mem') :
    mem' = { mem with freed := addrs.reverse ++ mem.freed } := by
  induction addrs generalizing mem with
  | nil =>
      cases h
      rfl
  | cons addr addrs ih =>
      rw [List.foldlM_cons] at h
      obtain ⟨mem₁, hmem₁, hrest⟩ := Option.bind_eq_some_iff.mp h
      rw [ih hrest, free_eq hmem₁, List.reverse_cons, List.append_assoc]
      rfl

theorem acemeshFreeAllObjs_eq {mem' : Memory} (h : mem.acemeshFreeAllObjs = some mem') :
    mem' = { mem with
      freed := mem.enlongedLocalObjs.reverse ++ mem.freed
      enlongedLocalObjs := [] } := by
  obtain ⟨mem₁, hmem₁, rfl⟩ := Option.map_eq_some_iff.mp h
  rw [foldlM_free _ hmem₁]

theorem Separate.freeAllObjs {mem' : Memory} {owned : Nat → Prop} (h : Separate mem owned)
    (hfree : mem.acemeshFreeAllObjs = some mem') : Separate mem' owned := by
  rw [acemeshFreeAllObjs_eq hfree]
  refine ⟨fun c hc => ?_, fun c hc => absurd hc List.not_mem_nil,
    fun c hc => ⟨(h.owned c hc).1, List.not_mem_nil⟩⟩
  obtain hc | hc := List.mem_append.mp hc
  · exact (h.objs c (List.mem_reverse.mp hc)).1
  · exact h.freed c hc

/-- A chunk that is owned is not among the objects that are freed. -/
theorem Separate.kept {mem' : Memory} {owned : Nat → Prop} (h : Separate mem owned)
    (hfree : mem.acemeshFreeAllObjs = some mem') {c : Nat} (hc : owned c) (hfreed : c ∉ mem.freed) :
    c ∉ mem'.freed := by
  rw [acemeshFreeAllObjs_eq hfree]
  intro hmem
  obtain hmem | hmem := List.mem_append.mp hmem
  · exact (h.owned c hc).2 (List.mem_reverse.mp hmem)
  · exact hfreed hmem

theorem ciArgs_start (memoryPool : Bool) (t : TaskId) : (start memoryPool).ciArgs t = none := by
  cases memoryPool <;> rfl

theorem separate_start (memoryPool : Bool) (owned : Nat → Prop)
    (howned : ∀ c, owned c → c < (start memoryPool).fresh) :
    Separate (start memoryPool) owned := by
  cases memoryPool with
  | true =>
      exact ⟨fun c hc => absurd hc List.not_mem_nil, fun c hc => absurd hc List.not_mem_nil,
        fun c hc => ⟨howned c hc, List.not_mem_nil⟩⟩
  | false =>
      exact ⟨fun c hc => absurd hc List.not_mem_nil, fun c hc => absurd hc List.not_mem_nil,
        fun c hc => ⟨howned c hc, List.not_mem_nil⟩⟩

end Memory

end AceMesh
