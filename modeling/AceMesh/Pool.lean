import AceMesh.MemPool

/-!
# Addresses from the pool

The functions of `MemPool.c` that hand out memory, with addresses: `base c` is where `malloc` has
put the chunk `c`. The functions differ in their alignment only. They align `self1` before they
look how much is left in the current block, and not again when they go on to the next one.

So whatever the calls, what they return does not overlap (`pool_regions`), but a new block must be
aligned to `32` itself if `acemesh_myalloc_aligned_32` is to return its start
(`pool_aligned_iff`).
-/

namespace AceMesh

/-- An address; none is so large that the conversion to `long long` changes it. -/
def Pointer.addr (base : Nat → Nat) (p : Pointer) : Int := base p.chunk + p.offset

/-- `self1` is moved up to an address that is a multiple of `a`. -/
def MemPool.alignAt (base : Nat → Nat) (pool : MemPool) (a : Int) : MemPool :=
  if pool.self1.addr base % a > 0 then
    { pool with
      self1 := ⟨pool.self1.chunk, pool.self1.offset + (a - pool.self1.addr base % a)⟩ }
  else pool

/-- Chunks that are aligned themselves. -/
theorem MemPool.alignAt_eq {base : Nat → Nat} {pool : MemPool} {a : Int}
    (h : a ∣ base pool.self1.chunk) : pool.alignAt base a = pool.align a := by
  have hmod : pool.self1.addr base % a = pool.self1.offset % a := by
    unfold Pointer.addr
    rw [Int.add_emod, Int.emod_eq_zero_of_dvd h, Int.zero_add, Int.emod_emod]
  unfold alignAt MemPool.align
  rw [hmod]

theorem MemPool.dvd_alignAt (base : Nat → Nat) (pool : MemPool) {a : Int} (ha : 0 < a) :
    a ∣ (pool.alignAt base a).self1.addr base := by
  unfold alignAt
  split
  · have hsplit := Int.emod_add_mul_ediv (pool.self1.addr base) a
    refine ⟨pool.self1.addr base / a + 1, ?_⟩
    rw [Int.mul_add, Int.mul_one]
    unfold Pointer.addr at hsplit ⊢
    dsimp only
    omega
  · rename_i hzero
    have hnonneg := Int.emod_nonneg (pool.self1.addr base) (Int.ne_of_gt ha)
    exact Int.dvd_of_emod_eq_zero (by omega)

/-- `EndBlock` and `self1` point into one chunk, so their difference is that of the offsets. -/
def MemPool.OneChunk (pool : MemPool) : Prop := pool.endBlock.chunk = pool.self1.chunk

theorem MemPool.OneChunk.alignAt {base : Nat → Nat} {pool : MemPool} (h : pool.OneChunk) (a : Int) :
    (pool.alignAt base a).OneChunk := by
  unfold MemPool.alignAt
  split <;> exact h

theorem MemPool.OneChunk.takeBlock {pool : MemPool} (h : pool.OneChunk) :
    pool.takeBlock.OneChunk := by
  unfold MemPool.takeBlock
  split
  · exact h
  · rfl

theorem Memory.oneChunk_take {mem : Memory} (h : mem.pool.OneChunk) (datasize : Int) :
    (mem.take datasize).2.pool.OneChunk := by
  unfold Memory.take
  dsimp only
  split
  · split
    · have hnew : MemPool.OneChunk { mem.pool with freeMemBlock := [mem.fresh] } := h
      exact hnew.takeBlock
    · exact h.takeBlock
  · exact h

/-- The functions that hand out memory. -/
inductive PoolFunction
  | aligned4
  | aligned8
  | aligned16
  | aligned32
  deriving DecidableEq

def PoolFunction.alignment : PoolFunction → Int
  | .aligned4 => 4
  | .aligned8 => 8
  | .aligned16 => 16
  | .aligned32 => 32

inductive PoolCall
  | myalloc (f : PoolFunction) (datasize : Nat)
  | reInitial

/-- The memory, the blocks handed out since the last `ReInitial`, and all that has been
returned; the last ones first. -/
structure Pool where
  memory : Memory
  handed : List Block
  returned : List (PoolFunction × Block)

namespace Pool

variable (base : Nat → Nat)

def myallocAlignedAt (a : Int) (mem : Memory) (datasize : Int) : Pointer × Memory :=
  ({ mem with pool := mem.pool.alignAt base a } : Memory).take datasize

def acemeshMyallocAligned4 : Memory → Int → Pointer × Memory := myallocAlignedAt base 4

def acemeshMyallocAligned8 : Memory → Int → Pointer × Memory := myallocAlignedAt base 8

def acemeshMyallocAligned16 : Memory → Int → Pointer × Memory := myallocAlignedAt base 16

def acemeshMyallocAligned32 : Memory → Int → Pointer × Memory := myallocAlignedAt base 32

def myalloc : PoolFunction → Memory → Int → Pointer × Memory
  | .aligned4 => acemeshMyallocAligned4 base
  | .aligned8 => acemeshMyallocAligned8 base
  | .aligned16 => acemeshMyallocAligned16 base
  | .aligned32 => acemeshMyallocAligned32 base

/-- After `InitPool`. -/
def start (mem : Memory) : Pool where
  memory := mem.initPool
  handed := []
  returned := []

def step (s : Pool) : PoolCall → Pool
  | .myalloc f datasize =>
    let r := myalloc base f s.memory datasize
    { memory := r.2
      handed := ⟨r.1, datasize⟩ :: s.handed
      returned := (f, ⟨r.1, datasize⟩) :: s.returned }
  | .reInitial => { s with memory := s.memory.reInitial, handed := [] }

def run (s : Pool) (calls : List PoolCall) : Pool := calls.foldl (step base) s

variable {base}

theorem step_myalloc (s : Pool) (f : PoolFunction) (datasize : Nat) :
    s.step base (.myalloc f datasize) =
      let r := myallocAlignedAt base f.alignment s.memory datasize
      { memory := r.2
        handed := ⟨r.1, datasize⟩ :: s.handed
        returned := (f, ⟨r.1, datasize⟩) :: s.returned } := by
  cases f <;> rfl

/-- Where chunks are aligned to `16`, this is the function without addresses. -/
theorem acemeshMyallocAligned16_eq (hbase : ∀ c, 16 ∣ base c) (mem : Memory) (datasize : Int) :
    acemeshMyallocAligned16 base mem datasize = mem.acemeshMyallocAligned16 datasize := by
  have halign : mem.pool.alignAt base 16 = mem.pool.align 16 :=
    MemPool.alignAt_eq (Int.natCast_dvd_natCast.mpr (hbase _))
  unfold acemeshMyallocAligned16 myallocAlignedAt
  rw [halign]
  rfl

/-! ## What is returned does not overlap -/

/-- `malloc` returns blocks that are apart. -/
def Apart (base : Nat → Nat) : Prop :=
  ∀ c c', c ≠ c' → base c + UNITSIZE ≤ base c' ∨ base c' + UNITSIZE ≤ base c

/-- The addresses of two blocks do not meet. -/
def Disjoint (base : Nat → Nat) (b b' : Block) : Prop :=
  b.start.addr base + b.size ≤ b'.start.addr base ∨ b'.start.addr base + b'.size ≤ b.start.addr base

theorem disjoint_of_not_overlaps (hbase : Apart base) {b b' : Block} (hb : b.Fits) (hb' : b'.Fits)
    (h : ¬b.Overlaps b') : Disjoint base b b' := by
  obtain ⟨hlow, hhigh⟩ := hb
  obtain ⟨hlow', hhigh'⟩ := hb'
  unfold Disjoint Pointer.addr
  by_cases hchunk : b.start.chunk = b'.start.chunk
  · have hoff : ¬(b.start.offset < b'.start.offset + b'.size ∧
        b'.start.offset < b.start.offset + b.size) := fun hboth => h ⟨hchunk, hboth⟩
    rw [hchunk]
    omega
  · have happart := hbase _ _ hchunk
    omega

/-- The blocks of the pool are those that it has got from `malloc` since the chunk `first`, and
what it has handed out lies in them, apart. -/
structure Inv (first : Nat) (s : Pool) : Prop where
  pooled : Memory.Pooled s.memory (· ∈ s.handed)
  oneChunk : s.memory.pool.OneChunk
  blocks : ∀ c, c ∈ s.memory.pool.blocks ↔ first ≤ c ∧ c < s.memory.fresh
  fits : ∀ b ∈ s.handed, b.Fits
  apart : s.handed.Pairwise fun b b' => ¬b'.Overlaps b
  returned : ∀ r ∈ s.returned, r.2.Fits ∧ first ≤ r.2.start.chunk ∧ r.2.start.chunk < s.memory.fresh

variable {first : Nat} {s : Pool}

theorem inv_start (mem : Memory) : Inv mem.fresh (start mem) := by
  have hblocks (c : Nat) : c ∈ [mem.fresh] ↔ mem.fresh ≤ c ∧ c < mem.fresh + 1 := by
    rw [List.mem_singleton]
    omega
  refine ⟨⟨List.nodup_singleton _, fun c hc => ((hblocks c).mp hc).2, List.mem_singleton.mpr rfl,
    ⟨Int.le_refl 0, rfl⟩, fun b hb => absurd hb List.not_mem_nil⟩, rfl, hblocks,
    fun b hb => absurd hb List.not_mem_nil, List.Pairwise.nil,
    fun r hr => absurd hr List.not_mem_nil⟩

variable (base) in
theorem pooled_alignAt {mem : Memory} {handed : Block → Prop} (h : Memory.Pooled mem handed)
    {a : Int} (ha : 0 < a) :
    Memory.Pooled { mem with pool := mem.pool.alignAt base a } handed ∧
      Memory.OnlyPool mem { mem with pool := mem.pool.alignAt base a } := by
  unfold MemPool.alignAt
  split
  · have hlt := Int.emod_lt_of_pos (mem.pool.self1.addr base) ha
    exact ⟨h.forward (by omega), .of_pool fun c => Iff.rfl⟩
  · exact ⟨h, .of_pool fun c => Iff.rfl⟩

theorem Inv.myalloc (h : Inv first s) (f : PoolFunction) {datasize : Nat}
    (hsize : (datasize : Int) ≤ UNITSIZE) : Inv first (s.step base (.myalloc f datasize)) := by
  have ha : 0 < f.alignment := by cases f <;> decide
  obtain ⟨haligned, halign⟩ := pooled_alignAt base h.pooled ha
  obtain ⟨hpooled, ⟨hapart, hfits⟩, htake⟩ := haligned.take hsize
  have honly := halign.trans htake
  have hone : (s.memory.pool.alignAt base f.alignment).OneChunk := h.oneChunk.alignAt f.alignment
  replace hone := Memory.oneChunk_take
    (show ({ s.memory with pool := s.memory.pool.alignAt base f.alignment } : Memory).pool.OneChunk
      from hone) (datasize : Int)
  rw [step_myalloc]
  dsimp only
  change Inv first ⟨(({ s.memory with pool := s.memory.pool.alignAt base f.alignment } :
    Memory).take datasize).2, _, _⟩
  unfold myallocAlignedAt
  generalize ({ s.memory with pool := s.memory.pool.alignAt base f.alignment } : Memory).take
    datasize = r at *
  have hblocks (c : Nat) : c ∈ r.2.pool.blocks ↔ first ≤ c ∧ c < r.2.fresh := by
    have hfresh := honly.fresh
    have hfirst : first ≤ s.memory.fresh := by
      have hcurrent := (h.blocks _).mp (List.mem_append.mpr (Or.inl h.pooled.current))
      omega
    rw [honly.blocks, h.blocks]
    omega
  refine ⟨?_, hone, hblocks, ?_, List.pairwise_cons.mpr ⟨fun b hb => hapart b hb, h.apart⟩, ?_⟩
  · refine ⟨hpooled.nodup, hpooled.lt, hpooled.current, hpooled.limits, fun b hb => ?_⟩
    apply hpooled.inside b
    rcases List.mem_cons.mp hb with rfl | hb
    · exact Or.inr rfl
    · exact Or.inl hb
  · intro b hb
    rcases List.mem_cons.mp hb with rfl | hb
    · exact hfits
    · exact h.fits b hb
  · intro b hb
    rcases List.mem_cons.mp hb with rfl | hb
    · refine ⟨hfits, (hblocks _).mp (List.mem_append.mpr (Or.inl ?_))⟩
      exact (hpooled.inside _ (Or.inr rfl)).1
    · obtain ⟨hfits', hge, hlt⟩ := h.returned b hb
      exact ⟨hfits', hge, Nat.lt_of_lt_of_le hlt honly.fresh⟩

theorem Inv.reInitial (h : Inv first s) : Inv first (s.step base .reInitial) := by
  obtain ⟨hpooled, honly⟩ := h.pooled.reInitial
  refine ⟨⟨hpooled.nodup, hpooled.lt, hpooled.current, hpooled.limits,
    fun b hb => absurd hb List.not_mem_nil⟩, MemPool.OneChunk.takeBlock h.oneChunk, fun c => ?_,
    fun b hb => absurd hb List.not_mem_nil, List.Pairwise.nil, h.returned⟩
  change c ∈ s.memory.reInitial.pool.blocks ↔ first ≤ c ∧ c < s.memory.fresh
  rw [honly.blocks, h.blocks]
  apply or_iff_left
  intro hc
  exact absurd hc.2 (Nat.not_lt.mpr hc.1)

theorem Inv.run (h : Inv first s) {calls : List PoolCall}
    (hsize : ∀ f (datasize : Nat), .myalloc f datasize ∈ calls → (datasize : Int) ≤ UNITSIZE) :
    Inv first (s.run base calls) := by
  induction calls generalizing s with
  | nil => exact h
  | cons call calls ih =>
      have hrest : ∀ f (datasize : Nat), .myalloc f datasize ∈ calls →
          (datasize : Int) ≤ UNITSIZE :=
        fun f datasize hm => hsize f datasize (List.mem_cons_of_mem call hm)
      cases call with
      | myalloc f datasize => exact ih (h.myalloc f (hsize f datasize List.mem_cons_self)) hrest
      | reInitial => exact ih h.reInitial hrest

/-- What the functions return lies in one block of the pool each, and does not overlap with
anything returned since the last `ReInitial`; and each block that the pool has got is in one of
its two lists, once. -/
theorem pool_regions (hbase : Apart base) (mem : Memory) {calls : List PoolCall}
    (hsize : ∀ f (datasize : Nat), .myalloc f datasize ∈ calls → (datasize : Int) ≤ UNITSIZE) :
    let s := (start mem).run base calls
    (∀ r ∈ s.returned, ∃ c, mem.fresh ≤ c ∧ c < s.memory.fresh ∧
      base c ≤ r.2.start.addr base ∧ r.2.start.addr base + r.2.size ≤ base c + UNITSIZE) ∧
    s.handed.Pairwise (Disjoint base) ∧
    ∀ c, mem.fresh ≤ c → c < s.memory.fresh →
      (s.memory.pool.allocatedMemBlock ++ s.memory.pool.freeMemBlock).count c = 1 := by
  intro s
  have hinv : Inv mem.fresh s := (inv_start mem).run hsize
  refine ⟨fun r hr => ?_, ?_, fun c hge hlt => ?_⟩
  · obtain ⟨⟨hlow, hhigh⟩, hge, hlt⟩ := hinv.returned r hr
    refine ⟨r.2.start.chunk, hge, hlt, ?_, ?_⟩
    · unfold Pointer.addr
      omega
    · unfold Pointer.addr
      omega
  · apply hinv.apart.imp_of_mem
    intro b b' hb hb' hapart
    exact (disjoint_of_not_overlaps hbase (hinv.fits b' hb') (hinv.fits b hb) hapart).symm
  · exact List.count_eq_one_of_mem hinv.pooled.nodup ((hinv.blocks c).mpr ⟨hge, hlt⟩)

/-- Chunks one after the other, with some memory between them. -/
def rowOfChunks (c : Nat) : Nat := 32 + c * (1024 * 1024 * 20 + 16)

theorem apart_rowOfChunks : Apart rowOfChunks := by
  intro c c' hne
  unfold rowOfChunks UNITSIZE
  omega

theorem pool_regions_row :
    ((start (Memory.start false)).run rowOfChunks
      [.myalloc .aligned8 3, .myalloc .aligned32 5, .reInitial, .myalloc .aligned4 1,
        .myalloc .aligned16 7]).handed.Pairwise (Disjoint rowOfChunks) := by
  refine (pool_regions apart_rowOfChunks (Memory.start false) ?_).2.1
  intro f datasize hm
  simp only [List.mem_cons, PoolCall.myalloc.injEq, List.not_mem_nil, reduceCtorEq, or_false,
    false_or] at hm
  obtain ⟨-, rfl⟩ | ⟨-, rfl⟩ | ⟨-, rfl⟩ | ⟨-, rfl⟩ := hm <;> decide

/-! ## Alignment -/

/-- The block that a call takes when the current one is exhausted. -/
def nextBlock (mem : Memory) : Nat := mem.pool.freeMemBlock.headD mem.fresh

theorem take_fst (mem : Memory) (datasize : Int) : (mem.take datasize).1 =
    if mem.pool.endBlock.offset - mem.pool.self1.offset < datasize then ⟨nextBlock mem, 0⟩
    else mem.pool.self1 := by
  unfold Memory.take nextBlock
  dsimp only
  split
  · cases hfree : mem.pool.freeMemBlock with
    | nil => rfl
    | cons c rest => simp [MemPool.takeBlock, hfree]
  · rfl

/-- Where a call of `acemesh_myalloc_aligned_32` does not find room in the current block, the next
one is aligned to `32`. -/
def Meets (base : Nat → Nat) (s : Pool) : PoolCall → Prop
  | .myalloc .aligned32 datasize =>
    (s.memory.pool.alignAt base 32).endBlock.offset - (s.memory.pool.alignAt base 32).self1.offset <
      (datasize : Int) → 32 ∣ base (nextBlock s.memory)
  | _ => True

def MeetsAll (base : Nat → Nat) (s : Pool) : List PoolCall → Prop
  | [] => True
  | call :: calls => s.Meets base call ∧ MeetsAll base (s.step base call) calls

/-- All addresses returned have the alignment of their functions. -/
def Aligned (base : Nat → Nat) (s : Pool) : Prop :=
  ∀ r ∈ s.returned, r.1.alignment ∣ r.2.start.addr base

theorem myallocAlignedAt_dvd_iff (s : Pool) {a : Int} (ha : 0 < a) (datasize : Int) :
    a ∣ (myallocAlignedAt base a s.memory datasize).1.addr base ↔
      ((s.memory.pool.alignAt base a).endBlock.offset -
        (s.memory.pool.alignAt base a).self1.offset < datasize →
          a ∣ base (nextBlock s.memory)) := by
  have hnext : nextBlock { s.memory with pool := s.memory.pool.alignAt base a } =
      nextBlock s.memory := by
    unfold nextBlock MemPool.alignAt
    dsimp only
    split <;> rfl
  unfold myallocAlignedAt
  rw [take_fst, hnext]
  split
  · rename_i hfull
    have haddr : (⟨nextBlock s.memory, 0⟩ : Pointer).addr base = base (nextBlock s.memory) :=
      Int.add_zero _
    rw [haddr]
    exact ⟨fun h _ => h, fun h => h hfull⟩
  · rename_i hroom
    exact ⟨fun _ hfull => absurd hfull hroom, fun _ => s.memory.pool.dvd_alignAt base ha⟩

theorem aligned_step_iff (hbase : ∀ c, 16 ∣ base c) (s : Pool) (call : PoolCall) :
    (s.step base call).Aligned base ↔ s.Aligned base ∧ s.Meets base call := by
  cases call with
  | reInitial => exact (and_iff_left trivial).symm
  | myalloc f datasize =>
      have ha : 0 < f.alignment := by cases f <;> decide
      have hiff : f.alignment ∣
          (myallocAlignedAt base f.alignment s.memory datasize).1.addr base ↔
            s.Meets base (.myalloc f datasize) := by
        rw [myallocAlignedAt_dvd_iff s ha]
        have hsixteen (h : f.alignment ∣ 16) : f.alignment ∣ base (nextBlock s.memory) :=
          Int.dvd_trans h (Int.natCast_dvd_natCast.mpr (hbase _))
        cases f with
        | aligned4 => exact iff_of_true (fun _ => hsixteen (by decide)) trivial
        | aligned8 => exact iff_of_true (fun _ => hsixteen (by decide)) trivial
        | aligned16 => exact iff_of_true (fun _ => hsixteen (by decide)) trivial
        | aligned32 => exact imp_congr_right fun _ => Int.natCast_dvd_natCast (m := 32)
      rw [step_myalloc, and_comm, ← hiff]
      exact List.forall_mem_cons

/-- All addresses returned in a run are aligned just if every call of
`acemesh_myalloc_aligned_32` that needs a new block gets one that is aligned to `32`. -/
theorem pool_aligned_iff (hbase : ∀ c, 16 ∣ base c) (mem : Memory) (calls : List PoolCall) :
    ((start mem).run base calls).Aligned base ↔ (start mem).MeetsAll base calls := by
  have hrun (s : Pool) : (s.run base calls).Aligned base ↔
      s.Aligned base ∧ s.MeetsAll base calls := by
    induction calls generalizing s with
    | nil => exact (and_iff_left trivial).symm
    | cons call calls ih =>
        refine (ih (s.step base call)).trans ?_
        rw [aligned_step_iff hbase, and_assoc]
        rfl
  rw [hrun]
  exact and_iff_right fun r hr => absurd hr List.not_mem_nil

theorem dvd_rowOfChunks (c : Nat) : 16 ∣ rowOfChunks c := by
  unfold rowOfChunks
  omega

theorem pool_aligned_iff_row : ((start (Memory.start false)).run rowOfChunks
    [.myalloc .aligned8 3, .myalloc .aligned16 5, .myalloc .aligned32 7]).Aligned rowOfChunks :=
  (pool_aligned_iff dvd_rowOfChunks _ _).mpr
    ⟨trivial, trivial, fun hfull => absurd hfull (by decide), trivial⟩

/-- The first call takes the whole block, and the second one gets a block that is not aligned to
`32`. -/
theorem pool_not_aligned : (∀ c, 16 ∣ rowOfChunks c) ∧
    ¬((start (Memory.start false)).run rowOfChunks
      [.myalloc .aligned32 (1024 * 1024 * 20), .myalloc .aligned32 1]).Aligned rowOfChunks := by
  refine ⟨dvd_rowOfChunks, fun haligned => ?_⟩
  have hsecond := haligned (.aligned32, ⟨⟨1, 0⟩, 1⟩) (by decide)
  exact absurd hsecond (by decide)

end Pool

end AceMesh
