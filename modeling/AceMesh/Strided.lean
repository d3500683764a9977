import AceMesh.Lib.CInt
import AceMesh.Lib.Memory
import Mathlib.Data.Finset.Card
import Mathlib.Data.List.Nodup

/-!
# Strided transfers

`athread_put` copies packed bytes into blocks that lie `stride` bytes apart, `athread_get` copies
them back (`put_get_iff`). The loop counts whole blocks until `len` is reached, so the last block
is copied whole even where `len` ends inside it (`transfer_exact_iff`).

The sums of `int`s have no result beyond the values of `int`; above all `size_count` may pass the
largest one before it reaches `len`. Lengths are not negative, so they are natural numbers, as
are addresses, which have no bound.
-/

namespace AceMesh.Strided

open Memory

variable {β : Type*}

/-- The memory and the variables of the loop. -/
structure Transfer (β : Type*) where
  mem : Nat → β
  psrc : Nat
  pdest : Nat
  sizeCount : Nat
  /-- The addresses that `memcpy` has read. -/
  read : List Nat
  /-- The addresses that `memcpy` has written. -/
  written : List Nat

/-- A turn of the loop, with the sums that it computes. -/
def Transfer.step (bsize srcStep destStep sizeCount : Nat) (s : Transfer β) : Transfer β where
  mem := memcpy s.mem s.pdest s.mem s.psrc bsize
  psrc := s.psrc + srcStep
  pdest := s.pdest + destStep
  sizeCount := sizeCount
  read := s.read ++ List.range' s.psrc bsize
  written := s.written ++ List.range' s.pdest bsize

/-- The body of the loop, where `srcGap` and `destGap` bytes lie between the blocks. -/
def Transfer.turn (bsize srcGap destGap : Nat) (s : Transfer β) : Option (Transfer β) :=
  (CInt.checkedNat (bsize + srcGap)).bind fun srcStep =>
    (CInt.checkedNat (bsize + destGap)).bind fun destStep =>
      (CInt.checkedNat (s.sizeCount + bsize)).map fun sizeCount =>
        s.step bsize srcStep destStep sizeCount

def Transfer.start (mem : Nat → β) (src dest : Nat) : Transfer β where
  mem := mem
  psrc := src
  pdest := dest
  sizeCount := 0
  read := []
  written := []

/-- A block size of `0` stands for one block. -/
def blockSize (len bsize : Nat) : Nat := if bsize = 0 then len else bsize

/-- The state after the loop and `*reply`. -/
def transfer (fuel : Nat) (mem : Nat → β) (src dest len : Nat) (reply : Int)
    (srcGap destGap bsize : Nat) : Option (Transfer β × Int) :=
  (Loop.whileLoop (fun s : Transfer β => decide (s.sizeCount < len))
    (Transfer.turn (blockSize len bsize) srcGap destGap) fuel (Transfer.start mem src dest)).bind
      fun s => (CInt.checked (reply + 1)).map fun reply => (s, reply)

/-- `slave_acemesh_athread_get`. -/
def slaveAcemeshAthreadGet (fuel : Nat) (mem : Nat → β) (src dest len : Nat) (reply : Int)
    (stride bsize : Nat) : Option (Transfer β × Int) :=
  transfer fuel mem src dest len reply stride 0 bsize

/-- `slave_acemesh_athread_put`. -/
def slaveAcemeshAthreadPut (fuel : Nat) (mem : Nat → β) (src dest len : Nat) (reply : Int)
    (stride bsize : Nat) : Option (Transfer β × Int) :=
  transfer fuel mem src dest len reply 0 stride bsize

/-! ## Blocks -/

/-- Byte `j` of block `i`. -/
def blockByte (base size gap i j : Nat) : Nat := base + i * (size + gap) + j

theorem block_lt {i k : Nat} (hik : i < k) (base size gap : Nat) {j : Nat} (hj : j < size + gap)
    (j' : Nat) : blockByte base size gap i j < blockByte base size gap k j' := by
  have hle : (i + 1) * (size + gap) ≤ k * (size + gap) := Nat.mul_le_mul_right _ hik
  rw [Nat.add_mul, Nat.one_mul] at hle
  unfold blockByte
  omega

/-- `a` is a byte of the first `k` blocks. -/
def InBlocks (base size gap k a : Nat) : Prop :=
  ∃ i j, i < k ∧ j < size ∧ a = blockByte base size gap i j

theorem InBlocks.succ_iff {base size gap k a : Nat} : InBlocks base size gap (k + 1) a ↔
    InBlocks base size gap k a ∨ ∃ j, j < size ∧ a = blockByte base size gap k j := by
  constructor
  · intro h
    obtain ⟨i, j, hi, hj, rfl⟩ := h
    rcases Nat.lt_succ_iff_lt_or_eq.mp hi with hi | rfl
    · exact Or.inl ⟨i, j, hi, hj, rfl⟩
    · exact Or.inr ⟨j, hj, rfl⟩
  · intro h
    rcases h with ⟨i, j, hi, hj, rfl⟩ | ⟨j, hj, rfl⟩
    · exact ⟨i, j, Nat.lt_succ_of_lt hi, hj, rfl⟩
    · exact ⟨k, j, Nat.lt_succ_self k, hj, rfl⟩

/-- No block reaches into a gap. -/
theorem not_inBlocks_gap {base size gap n k j : Nat} (hj : j < gap) :
    ¬InBlocks base size gap n (blockByte base size gap k (size + j)) := by
  intro h
  obtain ⟨i, j', _, hj', heq⟩ := h
  rcases Nat.lt_trichotomy i k with hlt | rfl | hgt
  · have hbelow := block_lt hlt base size gap (show j' < size + gap by omega) (size + j)
    omega
  · unfold blockByte at heq
    omega
  · have habove := block_lt hgt base size gap (show size + j < size + gap by omega) j'
    omega

/-- The blocks lie in their buffer. -/
theorem InBlocks.bounds {base size gap n a room : Nat} (h : InBlocks base size gap n a)
    (hroom : n * (size + gap) ≤ room + gap) : base ≤ a ∧ a < base + room := by
  obtain ⟨i, j, hi, hj, rfl⟩ := h
  have hle : (i + 1) * (size + gap) ≤ n * (size + gap) := Nat.mul_le_mul_right _ hi
  rw [Nat.add_mul, Nat.one_mul] at hle
  unfold blockByte
  omega

/-! ## The loop -/

/-- A turn whose sums are values of `int`. -/
def Transfer.advance (bsize srcGap destGap : Nat) (s : Transfer β) : Transfer β :=
  s.step bsize (bsize + srcGap) (bsize + destGap) (s.sizeCount + bsize)

theorem Transfer.turn_eq_some_iff {bsize srcGap destGap : Nat} {s s' : Transfer β} :
    s.turn bsize srcGap destGap = some s' ↔
      (bsize + srcGap < 2 ^ 31 ∧ bsize + destGap < 2 ^ 31 ∧ s.sizeCount + bsize < 2 ^ 31) ∧
        s.advance bsize srcGap destGap = s' := by
  constructor
  · intro h
    obtain ⟨srcStep, hsrc, h⟩ := Option.bind_eq_some_iff.mp h
    obtain ⟨destStep, hdest, h⟩ := Option.bind_eq_some_iff.mp h
    obtain ⟨sizeCount, hcount, rfl⟩ := Option.map_eq_some_iff.mp h
    obtain ⟨hsrc_lt, rfl⟩ := CInt.checkedNat_eq_some_iff.mp hsrc
    obtain ⟨hdest_lt, rfl⟩ := CInt.checkedNat_eq_some_iff.mp hdest
    obtain ⟨hcount_lt, rfl⟩ := CInt.checkedNat_eq_some_iff.mp hcount
    exact ⟨⟨hsrc_lt, hdest_lt, hcount_lt⟩, rfl⟩
  · rintro ⟨⟨hsrc, hdest, hcount⟩, rfl⟩
    unfold Transfer.turn
    rw [CInt.checkedNat_of_lt hsrc, CInt.checkedNat_of_lt hdest, CInt.checkedNat_of_lt hcount]
    rfl

/-- The state after `k` turns. -/
structure Copied (mem : Nat → β) (src dest size srcGap destGap k : Nat) (s : Transfer β) :
    Prop where
  psrc : s.psrc = blockByte src size srcGap k 0
  pdest : s.pdest = blockByte dest size destGap k 0
  sizeCount : s.sizeCount = k * size
  mem_read : ∀ a, a ∈ s.read ↔ InBlocks src size srcGap k a
  mem_written : ∀ a, a ∈ s.written ↔ InBlocks dest size destGap k a
  nodup : s.written.Nodup
  length : s.written.length = k * size
  kept : ∀ a, a ∉ s.written → s.mem a = mem a
  moved : (∀ a, a ∈ s.read → a ∉ s.written) → ∀ i j, i < k → j < size →
    s.mem (blockByte dest size destGap i j) = mem (blockByte src size srcGap i j)

section

variable {mem : Nat → β} {src dest size srcGap destGap k : Nat} {s : Transfer β}

theorem Copied.start : Copied mem src dest size srcGap destGap 0 (Transfer.start mem src dest) where
  psrc := by simp [Transfer.start, blockByte]
  pdest := by simp [Transfer.start, blockByte]
  sizeCount := by simp [Transfer.start]
  mem_read := by simp [Transfer.start, InBlocks]
  mem_written := by simp [Transfer.start, InBlocks]
  nodup := List.nodup_nil
  length := by simp [Transfer.start]
  kept := fun _ _ => rfl
  moved := by
    intro _ i _ hi
    exact absurd hi (Nat.not_lt_zero i)

theorem blockByte_next (base i : Nat) {gap : Nat} : blockByte base size gap i 0 + (size + gap) =
    blockByte base size gap (i + 1) 0 := by
  unfold blockByte
  rw [Nat.add_mul, Nat.one_mul]
  omega

theorem mem_blockRange {base gap a : Nat} :
    a ∈ List.range' (blockByte base size gap k 0) size ↔
      ∃ j, j < size ∧ a = blockByte base size gap k j := by
  rw [List.mem_range'_1]
  unfold blockByte
  constructor
  · intro h
    exact ⟨a - (base + k * (size + gap)), by omega, by omega⟩
  · intro h
    obtain ⟨j, hj, rfl⟩ := h
    omega

theorem Copied.advance (h : Copied mem src dest size srcGap destGap k s) :
    Copied mem src dest size srcGap destGap (k + 1) (s.advance size srcGap destGap) := by
  have hread (a : Nat) : a ∈ (s.advance size srcGap destGap).read ↔
      InBlocks src size srcGap (k + 1) a := by
    unfold Transfer.advance Transfer.step
    rw [List.mem_append, h.mem_read, h.psrc, mem_blockRange, InBlocks.succ_iff]
  have hwritten (a : Nat) : a ∈ (s.advance size srcGap destGap).written ↔
      InBlocks dest size destGap (k + 1) a := by
    unfold Transfer.advance Transfer.step
    rw [List.mem_append, h.mem_written, h.pdest, mem_blockRange, InBlocks.succ_iff]
  constructor
  case mem_read => exact hread
  case mem_written => exact hwritten
  case psrc =>
    unfold Transfer.advance Transfer.step
    rw [h.psrc, blockByte_next]
  case pdest =>
    unfold Transfer.advance Transfer.step
    rw [h.pdest, blockByte_next]
  case sizeCount =>
    unfold Transfer.advance Transfer.step
    rw [h.sizeCount, Nat.succ_mul]
  case nodup =>
    unfold Transfer.advance Transfer.step
    apply List.Nodup.append h.nodup List.nodup_range'
    intro a hold hnew
    obtain ⟨i, j, hi, hj, rfl⟩ := (h.mem_written a).mp hold
    rw [h.pdest, mem_blockRange] at hnew
    obtain ⟨j', _, heq⟩ := hnew
    have hbelow := block_lt hi dest size destGap (show j < size + destGap by omega) j'
    omega
  case length =>
    unfold Transfer.advance Transfer.step
    rw [List.length_append, h.length, List.length_range', Nat.succ_mul]
  case kept =>
    intro a ha
    rw [hwritten, InBlocks.succ_iff, not_or, ← h.mem_written] at ha
    rw [← h.kept a ha.1]
    apply memcpy_out
    by_contra hin
    apply ha.2
    rw [← mem_blockRange, List.mem_range'_1, ← h.pdest]
    omega
  case moved =>
    intro hapart i j hi hj
    have hread_kept (a : Nat) (ha : a ∈ (s.advance size srcGap destGap).read) : s.mem a = mem a := by
      apply h.kept
      intro hbad
      apply hapart a ha
      unfold Transfer.advance Transfer.step
      exact List.mem_append_left _ hbad
    rcases Nat.lt_succ_iff_lt_or_eq.mp hi with hlt | rfl
    · -- an earlier block lies below the one written now
      have hold : ∀ a, a ∈ s.read → a ∉ s.written := by
        intro a ha hbad
        apply hapart a
        · unfold Transfer.advance Transfer.step
          exact List.mem_append_left _ ha
        · unfold Transfer.advance Transfer.step
          exact List.mem_append_left _ hbad
      rw [← h.moved hold i j hlt hj]
      apply memcpy_out
      left
      rw [h.pdest]
      exact block_lt hlt dest size destGap (by omega) 0
    · -- the block written now comes from bytes that are still as they were
      rw [← hread_kept _ ((hread _).mpr ⟨i, j, hi, hj, rfl⟩)]
      unfold Transfer.advance Transfer.step
      dsimp only
      rw [h.pdest, h.psrc]
      exact memcpy_in hj

theorem copied_up (mem : Nat → β) (src dest size srcGap destGap k : Nat) :
    Copied mem src dest size srcGap destGap k
      (Loop.up k (fun _ => Transfer.advance size srcGap destGap) (Transfer.start mem src dest)) := by
  induction k with
  | zero => exact Copied.start
  | succ k ih => exact ih.advance

end

/-- The number of blocks. -/
def blockNum (len bsize : Nat) : Nat :=
  (len + blockSize len bsize - 1) / blockSize len bsize

theorem blockSize_pos {len bsize : Nat} (hlen : 0 < len) : 0 < blockSize len bsize := by
  unfold blockSize
  split <;> omega

theorem lt_blockNum {len bsize k : Nat} :
    k < blockNum len bsize ↔ k * blockSize len bsize < len := by
  unfold blockNum
  rcases Nat.eq_zero_or_pos (blockSize len bsize) with hzero | hpos
  · have hlen : ¬0 < len := fun hlen => (blockSize_pos hlen).ne' hzero
    rw [hzero, Nat.div_zero, Nat.mul_zero]
    omega
  · rw [← Nat.succ_le_iff, Nat.le_div_iff_mul_le hpos, Nat.succ_mul]
    omega

theorem le_blockNum_mul (len bsize : Nat) : len ≤ blockNum len bsize * blockSize len bsize := by
  have hstop := (@lt_blockNum len bsize (blockNum len bsize)).not.mp (Nat.lt_irrefl _)
  exact Nat.le_of_not_lt hstop

/-- The state at the end of the loop. -/
def transferred (mem : Nat → β) (src dest len srcGap destGap bsize : Nat) : Transfer β :=
  Loop.up (blockNum len bsize) (fun _ => Transfer.advance (blockSize len bsize) srcGap destGap)
    (Transfer.start mem src dest)

theorem transferred_copied (mem : Nat → β) (src dest len srcGap destGap bsize : Nat) :
    Copied mem src dest (blockSize len bsize) srcGap destGap (blockNum len bsize)
      (transferred mem src dest len srcGap destGap bsize) :=
  copied_up mem src dest _ srcGap destGap _

/-- No sum is beyond `int`. -/
def Bounded (len bsize srcGap destGap : Nat) : Prop :=
  len = 0 ∨ (blockSize len bsize + srcGap < 2 ^ 31 ∧ blockSize len bsize + destGap < 2 ^ 31 ∧
    blockNum len bsize * blockSize len bsize < 2 ^ 31)

/-- The loop ends after the last block. -/
theorem transfer_eq (mem : Nat → β) (src dest : Nat) {len srcGap destGap bsize : Nat}
    (hbounded : Bounded len bsize srcGap destGap) {reply : Int}
    (hreply : CInt.InRange (reply + 1)) {fuel : Nat} (hfuel : blockNum len bsize ≤ fuel) :
    transfer fuel mem src dest len reply srcGap destGap bsize =
      some (transferred mem src dest len srcGap destGap bsize, reply + 1) := by
  let state (k : Nat) := Loop.up k (fun _ => Transfer.advance (blockSize len bsize) srcGap destGap)
    (Transfer.start mem src dest)
  have hcount (k : Nat) : (state k).sizeCount = k * blockSize len bsize :=
    (copied_up mem src dest (blockSize len bsize) srcGap destGap k).sizeCount
  have hloop : Loop.whileLoop (fun s : Transfer β => decide (s.sizeCount < len))
      (Transfer.turn (blockSize len bsize) srcGap destGap) fuel (state 0) =
        some (state (blockNum len bsize)) := by
    apply Loop.while_eq
    · intro k hk
      have hlen : len ≠ 0 := by
        have hstart := lt_blockNum.mp hk
        omega
      obtain ⟨hsrc, hdest, hsum⟩ := hbounded.resolve_left hlen
      refine Transfer.turn_eq_some_iff.mpr ⟨⟨hsrc, hdest, ?_⟩, rfl⟩
      rw [hcount, ← Nat.succ_mul]
      exact Nat.lt_of_le_of_lt (Nat.mul_le_mul_right _ hk) hsum
    · intro k hk
      rw [hcount]
      exact decide_eq_true (lt_blockNum.mp hk)
    · rw [hcount]
      exact decide_eq_false (le_blockNum_mul len bsize).not_gt
    · exact Nat.zero_le _
    · exact hfuel
  unfold transfer
  rw [show Transfer.start mem src dest = state 0 from rfl, hloop, Option.bind_some,
    CInt.checked_of_inRange hreply]
  rfl

/-- A transfer with a result has computed all its sums. -/
theorem bounded_of_transfer {mem : Nat → β} {src dest len srcGap destGap bsize fuel : Nat}
    {reply : Int} {r : Transfer β × Int}
    (h : transfer fuel mem src dest len reply srcGap destGap bsize = some r) :
    Bounded len bsize srcGap destGap ∧ CInt.InRange (reply + 1) := by
  obtain ⟨s, hloop, hrest⟩ := Option.bind_eq_some_iff.mp h
  obtain ⟨reply', hreply, -⟩ := Option.map_eq_some_iff.mp hrest
  refine ⟨?_, (CInt.checked_eq_some_iff.mp hreply).1⟩
  -- in each state `size_count` is that of the blocks copied, which are not too many
  let Counted (k : Nat) (s : Transfer β) : Prop :=
    s.sizeCount = k * blockSize len bsize ∧ k ≤ blockNum len bsize ∧
      (0 < k → blockSize len bsize + srcGap < 2 ^ 31 ∧ blockSize len bsize + destGap < 2 ^ 31 ∧
        k * blockSize len bsize < 2 ^ 31)
  have hturn (k : Nat) (s s' : Transfer β) (hinv : Counted k s)
      (hcond : decide (s.sizeCount < len) = true)
      (h : s.turn (blockSize len bsize) srcGap destGap = some s') : Counted (k + 1) s' := by
    obtain ⟨⟨hsrc, hdest, hsum⟩, rfl⟩ := Transfer.turn_eq_some_iff.mp h
    have hnext : (s.advance (blockSize len bsize) srcGap destGap).sizeCount =
        (k + 1) * blockSize len bsize := by
      rw [Nat.succ_mul, ← hinv.1]
      rfl
    have hlt := of_decide_eq_true hcond
    rw [hinv.1, ← lt_blockNum] at hlt
    refine ⟨hnext, hlt, fun _ => ⟨hsrc, hdest, ?_⟩⟩
    rwa [← hnext]
  have hstart : Counted 0 (Transfer.start mem src dest) :=
    ⟨(Nat.zero_mul _).symm, Nat.zero_le _, fun hk => absurd hk (Nat.lt_irrefl 0)⟩
  obtain ⟨k, ⟨hcount, hk, hsums⟩, hend⟩ := Loop.while_rule (I := Counted) hturn hstart hloop
  rw [hcount, decide_eq_false_iff_not, ← lt_blockNum] at hend
  obtain rfl : k = blockNum len bsize := by omega
  rcases Nat.eq_zero_or_pos len with hlen | hlen
  · exact Or.inl hlen
  · apply Or.inr
    apply hsums
    rw [lt_blockNum, Nat.zero_mul]
    exact hlen

/-! ## Both ways -/

/-- The sums of either transfer are values of `int`: those of the blocks with their gaps, and
`size_count`, which ends at the blocks' total. -/
def InInt (len stride bsize : Nat) : Prop :=
  len = 0 ∨ (blockSize len bsize + stride < 2 ^ 31 ∧
    blockNum len bsize * blockSize len bsize < 2 ^ 31)

theorem bounded_put_iff {len stride bsize : Nat} :
    Bounded len bsize 0 stride ↔ InInt len stride bsize := by
  unfold Bounded InInt
  omega

theorem bounded_get_iff {len stride bsize : Nat} :
    Bounded len bsize stride 0 ↔ InInt len stride bsize := by
  unfold Bounded InInt
  omega

/-- Putting and getting back ends and restores the packed bytes, the gaps are left alone and
either call counts `*reply` up by one. -/
def PutGet (mem : Nat → β) (src dest src2 len stride bsize : Nat) (reply reply2 : Int) : Prop :=
  ∃ turns, ∀ fuel, turns ≤ fuel → ∃ put get,
    slaveAcemeshAthreadPut fuel mem src dest len reply stride bsize = some (put, reply + 1) ∧
    slaveAcemeshAthreadGet fuel put.mem dest src2 len reply2 stride bsize =
      some (get, reply2 + 1) ∧
    (∀ i, i < len → get.mem (src2 + i) = mem (src + i)) ∧
    ∀ k j, j < stride →
      put.mem (blockByte dest (blockSize len bsize) stride k (blockSize len bsize + j)) =
        mem (blockByte dest (blockSize len bsize) stride k (blockSize len bsize + j))

section

variable {mem : Nat → β} {src dest src2 len stride bsize : Nat} {reply reply2 : Int}

theorem PutGet.inInt (h : PutGet mem src dest src2 len stride bsize reply reply2) :
    InInt len stride bsize ∧ CInt.InRange (reply + 1) ∧ CInt.InRange (reply2 + 1) := by
  obtain ⟨turns, h⟩ := h
  obtain ⟨put, get, hput, hget, -⟩ := h turns (Nat.le_refl turns)
  obtain ⟨hbounded, hreply⟩ := bounded_of_transfer hput
  exact ⟨bounded_put_iff.mp hbounded, hreply, (bounded_of_transfer hget).2⟩

/-- The bytes that the two transfers move. -/
theorem putGet_of_inInt {packed strided : Nat}
    (hpacked : blockNum len bsize * blockSize len bsize ≤ packed)
    (hstrided : blockNum len bsize * (blockSize len bsize + stride) ≤ strided + stride)
    (hsrc : src + packed ≤ dest ∨ dest + strided ≤ src)
    (hsrc2 : src2 + packed ≤ dest ∨ dest + strided ≤ src2) (hint : InInt len stride bsize)
    (hreply : CInt.InRange (reply + 1)) (hreply2 : CInt.InRange (reply2 + 1)) :
    PutGet mem src dest src2 len stride bsize reply reply2 := by
  let put := transferred mem src dest len 0 stride bsize
  let get := transferred put.mem dest src2 len stride 0 bsize
  have hput : Copied mem src dest (blockSize len bsize) 0 stride (blockNum len bsize) put :=
    transferred_copied mem src dest len 0 stride bsize
  have hget : Copied put.mem dest src2 (blockSize len bsize) stride 0 (blockNum len bsize) get :=
    transferred_copied put.mem dest src2 len stride 0 bsize
  have hputApart (a : Nat) (hread : a ∈ put.read) : a ∉ put.written := by
    intro hwritten
    have hr := ((hput.mem_read a).mp hread).bounds hpacked
    have hw := ((hput.mem_written a).mp hwritten).bounds hstrided
    omega
  have hgetApart (a : Nat) (hread : a ∈ get.read) : a ∉ get.written := by
    intro hwritten
    have hr := ((hget.mem_read a).mp hread).bounds hstrided
    have hw := ((hget.mem_written a).mp hwritten).bounds hpacked
    omega
  refine ⟨blockNum len bsize, fun fuel hfuel => ⟨put, get, ?_, ?_, ?_, ?_⟩⟩
  · exact transfer_eq mem src dest (bounded_put_iff.mpr hint) hreply hfuel
  · exact transfer_eq put.mem dest src2 (bounded_get_iff.mpr hint) hreply2 hfuel
  · intro i hi
    have hpos : 0 < blockSize len bsize := blockSize_pos (Nat.zero_lt_of_lt hi)
    have hblock : i / blockSize len bsize < blockNum len bsize :=
      lt_blockNum.mpr (Nat.lt_of_le_of_lt (Nat.div_mul_le_self i _) hi)
    have hbyte : i % blockSize len bsize < blockSize len bsize := Nat.mod_lt i hpos
    have hat (base : Nat) : base + i = blockByte base (blockSize len bsize) 0
        (i / blockSize len bsize) (i % blockSize len bsize) := by
      unfold blockByte
      rw [Nat.add_zero, Nat.add_assoc, Nat.div_add_mod']
    calc get.mem (src2 + i)
        = put.mem (blockByte dest (blockSize len bsize) stride
            (i / blockSize len bsize) (i % blockSize len bsize)) := by
          rw [hat src2]
          exact hget.moved hgetApart _ _ hblock hbyte
      _ = mem (src + i) := by
          rw [hat src]
          exact hput.moved hputApart _ _ hblock hbyte
  · intro k j hj
    apply hput.kept
    rw [hput.mem_written]
    exact not_inBlocks_gap hj

end

/-- For buffers apart from each other that have room for whole blocks, putting and getting back
is the identity exactly where no sum is beyond `int`. -/
theorem put_get_iff (mem : Nat → β) (src dest src2 len stride bsize : Nat) (reply reply2 : Int)
    {packed strided : Nat}
    (hpacked : blockNum len bsize * blockSize len bsize ≤ packed)
    (hstrided : blockNum len bsize * (blockSize len bsize + stride) ≤ strided + stride)
    (hsrc : src + packed ≤ dest ∨ dest + strided ≤ src)
    (hsrc2 : src2 + packed ≤ dest ∨ dest + strided ≤ src2) :
    PutGet mem src dest src2 len stride bsize reply reply2 ↔
      InInt len stride bsize ∧ CInt.InRange (reply + 1) ∧ CInt.InRange (reply2 + 1) := by
  constructor
  · exact PutGet.inInt
  · rintro ⟨hint, hreply, hreply2⟩
    exact putGet_of_inInt hpacked hstrided hsrc hsrc2 hint hreply hreply2

theorem put_get_iff_partial_block : PutGet (id : Nat → Nat) 0 10 20 5 1 2 7 8 :=
  (@put_get_iff Nat id 0 10 20 5 1 2 7 8 6 8 (by decide) (by decide) (by decide) (by decide)).mpr
    ⟨Or.inr (by decide), by decide, by decide⟩

/-- With the largest `len` and blocks of two bytes without gaps `size_count` passes the largest
`int`. -/
theorem size_count_overflows :
    blockNum 2147483647 2 * blockSize 2147483647 2 ≤ 2 ^ 31 ∧
    blockNum 2147483647 2 * (blockSize 2147483647 2 + 0) ≤ 2 ^ 31 + 0 ∧
    ¬PutGet (id : Nat → Nat) 0 (2 ^ 31) (2 ^ 32) 2147483647 0 2 0 0 := by
  refine ⟨by decide, by decide, fun h => ?_⟩
  obtain ⟨-, hsum⟩ := h.inInt.1.resolve_left (by decide)
  exact absurd hsum (by decide)

/-! ## The bytes touched -/

/-- Getting writes and putting reads no packed byte from `len` on, and putting writes `len`
bytes. -/
def TouchesLen (mem : Nat → β) (src dest len stride bsize : Nat) (reply : Int) : Prop :=
  ∃ turns, ∀ fuel, turns ≤ fuel → ∃ get put,
    slaveAcemeshAthreadGet fuel mem src dest len reply stride bsize = some (get, reply + 1) ∧
    slaveAcemeshAthreadPut fuel mem src dest len reply stride bsize = some (put, reply + 1) ∧
    (∀ a, a ∈ get.written → a < dest + len) ∧
    (∀ a, a ∈ put.read → a < src + len) ∧
    put.written.toFinset.card = len

theorem blocks_fill_iff {len bsize : Nat} :
    blockNum len bsize * blockSize len bsize = len ↔ bsize = 0 ∨ bsize ∣ len := by
  have hfill {c : Nat} (hc : c * blockSize len bsize = len) :
      blockNum len bsize * blockSize len bsize = len := by
    apply Nat.le_antisymm _ (le_blockNum_mul len bsize)
    have hle : blockNum len bsize ≤ c := by
      by_contra hlt
      have hstart := lt_blockNum.mp (Nat.lt_of_not_le hlt)
      omega
    calc blockNum len bsize * blockSize len bsize
        ≤ c * blockSize len bsize := Nat.mul_le_mul_right _ hle
      _ = len := hc
  by_cases hzero : bsize = 0
  · have hone : 1 * blockSize len bsize = len := by
      rw [Nat.one_mul]
      exact if_pos hzero
    exact ⟨fun _ => Or.inl hzero, fun _ => hfill hone⟩
  · have hsize : blockSize len bsize = bsize := if_neg hzero
    constructor
    · intro heq
      rw [hsize] at heq
      exact Or.inr (Dvd.intro_left _ heq)
    · intro h
      obtain ⟨c, hc⟩ := h.resolve_left hzero
      apply @hfill c
      rw [hsize, hc, Nat.mul_comm]

theorem touchesLen_iff (mem : Nat → β) (src dest len stride bsize : Nat) (reply : Int) :
    TouchesLen mem src dest len stride bsize reply ↔
      InInt len stride bsize ∧ CInt.InRange (reply + 1) ∧
        blockNum len bsize * blockSize len bsize = len := by
  have hget := transferred_copied mem src dest len stride 0 bsize
  have hput := transferred_copied mem src dest len 0 stride bsize
  have hcard : (transferred mem src dest len 0 stride bsize).written.toFinset.card =
      blockNum len bsize * blockSize len bsize := by
    rw [List.toFinset_card_of_nodup hput.nodup]
    exact hput.length
  constructor
  · intro h
    obtain ⟨turns, h⟩ := h
    obtain ⟨get, put, -, hrun, -, -, hlen⟩ :=
      h (max turns (blockNum len bsize)) (Nat.le_max_left _ _)
    obtain ⟨hbounded, hreply⟩ := bounded_of_transfer hrun
    unfold slaveAcemeshAthreadPut at hrun
    rw [transfer_eq mem src dest hbounded hreply (Nat.le_max_right _ _)] at hrun
    obtain ⟨rfl, -⟩ := Prod.mk.inj (Option.some.inj hrun)
    exact ⟨bounded_put_iff.mp hbounded, hreply, hcard.symm.trans hlen⟩
  · rintro ⟨hint, hreply, heq⟩
    have hroom : blockNum len bsize * (blockSize len bsize + 0) ≤ len + 0 := heq.le
    refine ⟨blockNum len bsize, fun fuel hfuel => ⟨_, _,
      transfer_eq mem src dest (bounded_get_iff.mpr hint) hreply hfuel,
      transfer_eq mem src dest (bounded_put_iff.mpr hint) hreply hfuel, ?_, ?_,
      hcard.trans heq⟩⟩
    · intro a ha
      exact (((hget.mem_written a).mp ha).bounds hroom).2
    · intro a ha
      exact (((hput.mem_read a).mp ha).bounds hroom).2

/-- Transfers touch `len` packed bytes exactly where the blocks fill them and no sum is beyond
`int`. -/
theorem transfer_exact_iff (mem : Nat → β) (src dest len stride bsize : Nat) (reply : Int) :
    TouchesLen mem src dest len stride bsize reply ↔
      InInt len stride bsize ∧ CInt.InRange (reply + 1) ∧ (bsize = 0 ∨ bsize ∣ len) := by
  rw [touchesLen_iff, blocks_fill_iff]

/-- Three bytes in blocks of two. -/
theorem transfer_overruns : ¬TouchesLen (id : Nat → Nat) 0 10 3 1 2 0 := by
  rw [touchesLen_iff]
  rintro ⟨-, -, hfill⟩
  exact absurd hfill (by decide)

end AceMesh.Strided
