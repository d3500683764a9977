import AceMesh.Lib.CInt
import AceMesh.Lib.Loops
import Mathlib.Algebra.BigOperators.Group.List.Lemmas
import Mathlib.Algebra.Order.BigOperators.GroupWithZero.List
import Mathlib.Data.List.Forall2
import Mathlib.Data.List.TakeDrop

/-!
# Splitting a range

A task for a thread group has a base range, half-open in every dimension, and a splitter cuts it
into a chunk for each thread. The chunks are enumerated by counters that carry into each other,
the first dimension fastest. The size of a chunk is rounded up, so the last chunks of a dimension
are cut off at its end, and may be empty.

The bound of a chunk is an `int` before it is cut off, and the number of chunks is counted in an
`int`, so ranges that reach close to the end of `int` are not partitioned
(`split_partition_iff`).
-/

namespace AceMesh

/-- `range_d`: the low and the high end of each dimension. -/
structure RangeD where
  dimRange : List (Int × Int)
  deriving DecidableEq

namespace RangeD

def getDim (r : RangeD) : Nat := r.dimRange.length

/-- Two bounds for each dimension. -/
def pairs : List Int → List (Int × Int)
  | low :: high :: bounds => (low, high) :: pairs bounds
  | _ => []

/-- `set_range_bounds`. -/
def setRangeBounds (r : RangeD) (rangeBounds : List Int) : Option RangeD :=
  if rangeBounds.length % 2 = 0 ∧ rangeBounds.length = r.getDim * 2 then
    some { r with dimRange := pairs rangeBounds }
  else none

/-- The points of a range. -/
def Mem (r : RangeD) (x : List Int) : Prop :=
  List.Forall₂ (fun x b => b.1 ≤ x ∧ x < b.2) x r.dimRange

/-- A range, its low ends not above its high ends, in which no bound lies outside of `base`. -/
def Within (r base : RangeD) : Prop :=
  List.Forall₂ (fun b c => c.1 ≤ b.1 ∧ b.1 ≤ b.2 ∧ b.2 ≤ c.2) r.dimRange base.dimRange

/-- Low ends not above high ends, all of them `int`s. -/
def Ordered (r : RangeD) : Prop :=
  ∀ b ∈ r.dimRange, CInt.InRange b.1 ∧ CInt.InRange b.2 ∧ b.1 ≤ b.2

end RangeD

/-- `splitter`. The vectors of a splitter that has not been assigned to are empty. -/
structure Splitter where
  chunksOnDim : List Nat
  dimRangeIndex : List Nat
  dimChunkSize : List Nat
  dim : Nat

namespace Splitter

def maxDim : Nat := 5

/-- `set_dim_chunks`. -/
def setDimChunks (s : Splitter) (dimChunks : List Nat) : Option Splitter :=
  let dim := min dimChunks.length maxDim
  if ∀ c ∈ dimChunks.take dim, c ≠ 0 then
    some { s with dim := dim, chunksOnDim := dimChunks.take dim }
  else none

/-- `operator=`. -/
def assign (s other : Splitter) : Splitter where
  chunksOnDim := other.chunksOnDim
  dimRangeIndex := s.dimRangeIndex.takeD other.dim 0
  dimChunkSize := s.dimChunkSize.takeD other.dim 0
  dim := other.dim

/-- `get_total_chunks`, before its `int` is converted to `size_t`. -/
def getTotalChunks (s : Splitter) : Int :=
  s.chunksOnDim.foldl (fun (ret : Int) (chunks : Nat) => CInt.wrap (ret * chunks)) 1

def chunkSize (b : Int × Int) (chunks : Nat) : Option Nat :=
  (CInt.checked (b.2 - b.1)).map fun extent => CInt.sizeT (extent + chunks - 1) / chunks

/-- The bound of a chunk, cut off at the high end. -/
def bound (b : Int × Int) (index size : Nat) : Option Int :=
  (CInt.checked (b.1 + CInt.wrap (CInt.sizeT (index * size)))).map (min b.2)

/-- `splitted_range_bounds`. -/
def splittedRangeBounds : List (Int × Int) → List Nat → List Nat → Option (List Int)
  | [], _, _ => some []
  | b :: dims, index :: indices, size :: sizes => do
    let low ← bound b index size
    let high ← bound b (index + 1) size
    let bounds ← splittedRangeBounds dims indices sizes
    some (low :: high :: bounds)
  | _, _, _ => none

/-- The loop that carries. -/
def carry : List Nat → List Nat → List Nat
  | chunks :: rest, index :: next :: indices =>
    if index = chunks then 0 :: carry rest ((next + 1) :: indices) else index :: next :: indices
  | _, indices => indices

def advance (chunksOnDim : List Nat) : List Nat → List Nat
  | [] => []
  | index :: indices => carry chunksOnDim ((index + 1) :: indices)

/-- The body of the `do` loop. -/
def turn (baseRange : RangeD) (r : Splitter × List RangeD) : Option (Splitter × List RangeD) := do
  let bounds ← splittedRangeBounds baseRange.dimRange r.1.dimRangeIndex r.1.dimChunkSize
  let splittedRange ← baseRange.setRangeBounds bounds
  some ({ r.1 with dimRangeIndex := advance r.1.chunksOnDim r.1.dimRangeIndex },
    r.2 ++ [splittedRange])

/-- The condition of the `do` loop. -/
def more (r : Splitter × List RangeD) : Bool :=
  r.1.dimRangeIndex.getD (r.1.dim - 1) 0 < r.1.chunksOnDim.getD (r.1.dim - 1) 0

/-- `split`, for `fuel` turns of its loop at most. A negative number of chunks is converted to a
`size_t` that no vector has for its size. -/
def split (s : Splitter) (fuel : Nat) (baseRange : RangeD) (outVec : List RangeD) :
    Option (Splitter × List RangeD) :=
  if baseRange.getDim = s.dim ∧ s.dim ≤ s.dimChunkSize.length ∧
      s.dim ≤ s.dimRangeIndex.length then do
    let sizes ← (baseRange.dimRange.zip s.chunksOnDim).mapM fun p => chunkSize p.1 p.2
    let s := { s with
      dimChunkSize := sizes ++ s.dimChunkSize.drop s.dim
      dimRangeIndex := List.replicate s.dim 0 ++ s.dimRangeIndex.drop s.dim }
    let r ← Loop.doWhile more (turn baseRange) fuel (s, outVec)
    if (r.2.length : Int) = r.1.getTotalChunks then some r else none
  else none

/-! ## The counters -/

theorem advance_counters {chunksOnDim : List Nat} (hpos : ∀ c ∈ chunksOnDim, 0 < c) (p : Nat) :
    advance chunksOnDim (Loop.counters chunksOnDim p) = Loop.counters chunksOnDim (p + 1) := by
  induction chunksOnDim generalizing p with
  | nil => rfl
  | cons chunks rest ih =>
      cases rest with
      | nil => rfl
      | cons chunks' rest =>
          have hchunks := hpos chunks List.mem_cons_self
          have hlt := Nat.mod_lt p hchunks
          have hdiv := Nat.mod_add_div p chunks
          have hrest := ih (fun c hc => hpos c (List.mem_cons_of_mem chunks hc)) (p / chunks)
          change carry (chunks :: chunks' :: rest)
            ((p % chunks + 1) :: Loop.counters (chunks' :: rest) (p / chunks)) =
              (p + 1) % chunks :: Loop.counters (chunks' :: rest) ((p + 1) / chunks)
          obtain ⟨next, indices, hcons⟩ : ∃ next indices,
              Loop.counters (chunks' :: rest) (p / chunks) = next :: indices := by
            apply List.exists_cons_of_length_pos
            rw [Loop.length_counters]
            exact Nat.succ_pos _
          rw [hcons] at hrest ⊢
          unfold carry
          split
          · rename_i hfull
            have hnext : p + 1 = chunks * (p / chunks + 1) := by
              rw [Nat.mul_add, Nat.mul_one]
              omega
            rw [hnext, Nat.mul_mod_right, Nat.mul_div_cancel_left _ hchunks, ← hrest]
            rfl
          · rename_i hfull
            have hsucc : p % chunks + 1 < chunks := by omega
            have hnext : p + 1 = p % chunks + 1 + chunks * (p / chunks) := by omega
            rw [hnext, Nat.add_mul_mod_self_left, Nat.mod_eq_of_lt hsucc,
              Nat.add_mul_div_left _ _ hchunks, Nat.div_eq_of_lt hsucc, Nat.zero_add, hcons]

theorem more_counters {s : Splitter} (hpos : ∀ c ∈ s.chunksOnDim, 0 < c)
    (hdim : s.dim = s.chunksOnDim.length) (hne : s.chunksOnDim ≠ []) {p : Nat}
    (hindex : s.dimRangeIndex = Loop.counters s.chunksOnDim p) (outVec : List RangeD) :
    more (s, outVec) = true ↔ p < s.chunksOnDim.prod := by
  obtain ⟨chunks, rest, hcons⟩ := List.exists_cons_of_ne_nil hne
  have hlast : s.dim - 1 = rest.length := by
    rw [hdim, hcons]
    rfl
  unfold more
  rw [hlast, hindex, hcons, decide_eq_true_iff]
  rw [hcons] at hpos
  exact Loop.counters_last_lt_iff hpos

theorem getTotalChunks_eq (s : Splitter) :
    s.getTotalChunks = CInt.wrap (s.chunksOnDim.prod : Nat) := by
  have hfold (chunks : List Nat) (ret : Int) :
      chunks.foldl (fun (ret : Int) (c : Nat) => CInt.wrap (ret * c)) (CInt.wrap ret) =
        CInt.wrap (ret * (chunks.prod : Nat)) := by
    induction chunks generalizing ret with
    | nil => rw [List.prod_nil, Nat.cast_one, mul_one, List.foldl_nil]
    | cons c chunks ih =>
        rw [List.foldl_cons, CInt.wrap_mul_wrap, ih, List.prod_cons, Nat.cast_mul, mul_assoc]
  have hone : CInt.wrap 1 = 1 := CInt.wrap_of_inRange ⟨by omega, by omega⟩
  have h := hfold s.chunksOnDim 1
  rw [hone, one_mul] at h
  exact h

/-! ## The chunks of a dimension -/

/-- The size that a chunk should have. -/
def size (b : Int × Int) (chunks : Nat) : Nat := (b.2 - b.1 + chunks - 1).toNat / chunks

/-- The bound that a chunk should have. -/
def cut (b : Int × Int) (size index : Nat) : Int := min b.2 (b.1 + index * size)

/-- The chunks of this size end within the values of `int`. -/
def FitsDim (b : Int × Int) (chunks : Nat) : Prop :=
  (chunks * size b chunks : Int) < 2 ^ 31 ∧ b.1 + chunks * size b chunks < 2 ^ 31

section Dimension

variable {b : Int × Int} {chunks : Nat}

/-- The chunks cover the dimension, and would not if each was smaller. -/
theorem size_spec (hb : b.1 ≤ b.2) (hchunks : 0 < chunks) :
    b.2 - b.1 ≤ chunks * size b chunks ∧ (chunks * size b chunks : Int) < b.2 - b.1 + chunks := by
  have hdiv := Nat.mod_add_div (b.2 - b.1 + chunks - 1).toNat chunks
  have hlt := Nat.mod_lt (b.2 - b.1 + chunks - 1).toNat hchunks
  unfold size
  rw [← Nat.cast_mul]
  omega

theorem chunkSize_eq_some_iff (hb : b.1 ≤ b.2) (hchunks : 0 < chunks) (hmax : chunks < 2 ^ 31)
    {n : Nat} : chunkSize b chunks = some n ↔ b.2 - b.1 < 2 ^ 31 ∧ n = size b chunks := by
  unfold chunkSize
  rw [Option.map_eq_some_iff]
  constructor
  · rintro ⟨extent, hextent, rfl⟩
    obtain ⟨hrange, rfl⟩ := CInt.checked_eq_some_iff.mp hextent
    refine ⟨hrange.2, ?_⟩
    have hrange := hrange.2
    rw [CInt.sizeT_of_lt (by omega) (by omega)]
    rfl
  · rintro ⟨hextent, rfl⟩
    refine ⟨b.2 - b.1, CInt.checked_of_inRange ⟨by omega, hextent⟩, ?_⟩
    rw [CInt.sizeT_of_lt (by omega) (by omega)]
    rfl

theorem bound_eq (hb : CInt.InRange b.1 ∧ b.1 ≤ b.2) (hfits : FitsDim b chunks) {index : Nat}
    (hindex : index ≤ chunks) :
    bound b index (size b chunks) = some (cut b (size b chunks) index) := by
  obtain ⟨⟨hlow, -⟩, hle⟩ := hb
  obtain ⟨hsize, hend⟩ := hfits
  have hmul : (index : Int) * size b chunks ≤ chunks * size b chunks := by
    exact_mod_cast Nat.mul_le_mul_right (size b chunks) hindex
  have hnonneg : 0 ≤ (index : Int) * size b chunks := by positivity
  unfold bound cut
  rw [CInt.wrap_sizeT, CInt.wrap_of_inRange ⟨by omega, by omega⟩,
    CInt.checked_of_inRange ⟨by omega, by omega⟩, Option.map_some]

/-- If the end of the last chunk exists and is not below the low end, no bound has overflown. -/
theorem fitsDim_of_bound (hb : CInt.InRange b.1 ∧ b.1 ≤ b.2) (hchunks : 0 < chunks)
    (hmax : chunks < 2 ^ 31) (hextent : b.2 - b.1 < 2 ^ 31) {high : Int}
    (h : bound b chunks (size b chunks) = some high) (hhigh : b.1 ≤ high) : FitsDim b chunks := by
  obtain ⟨hcover, htight⟩ := size_spec hb.2 hchunks
  obtain ⟨x, hx, rfl⟩ := Option.map_eq_some_iff.mp h
  obtain ⟨hrange, rfl⟩ := CInt.checked_eq_some_iff.mp hx
  rw [CInt.wrap_sizeT] at hrange hhigh
  by_cases hsize : (chunks * size b chunks : Int) < 2 ^ 31
  · rw [CInt.wrap_of_inRange ⟨by omega, hsize⟩] at hrange
    exact ⟨hsize, hrange.2⟩
  · -- the product comes back negative, and the end lies below the low end
    rw [CInt.wrap_of_ge (by omega) (by omega)] at hhigh
    have hmin := min_le_right b.2 (b.1 + (chunks * size b chunks - 2 ^ 32 : Int))
    omega

/-- A point of the dimension lies in one chunk. -/
theorem mem_cut_iff {x : Int} (hx : b.1 ≤ x ∧ x < b.2) (hchunks : 0 < chunks) :
    ∃ index < chunks, ∀ k, (cut b (size b chunks) k ≤ x ∧ x < cut b (size b chunks) (k + 1)) ↔
      k = index := by
  obtain ⟨hcover, -⟩ := size_spec (show b.1 ≤ b.2 by omega) hchunks
  have hpos : 0 < size b chunks := by
    by_contra hzero
    rw [Nat.eq_zero_of_not_pos hzero, Nat.cast_zero, mul_zero] at hcover
    omega
  refine ⟨(x - b.1).toNat / size b chunks, ?_, fun k => ?_⟩
  · rw [Nat.div_lt_iff_lt_mul hpos]
    rw [← Nat.cast_mul] at hcover
    omega
  · have hcuts : (cut b (size b chunks) k ≤ x ∧ x < cut b (size b chunks) (k + 1)) ↔
        k * size b chunks ≤ (x - b.1).toNat ∧ (x - b.1).toNat < (k + 1) * size b chunks := by
      unfold cut
      rw [← Nat.cast_mul, ← Nat.cast_mul]
      omega
    rw [hcuts]
    constructor
    · intro h
      exact (Nat.div_eq_of_lt_le h.1 h.2).symm
    · rintro rfl
      exact ⟨Nat.div_mul_le_self _ _, Nat.lt_mul_of_div_lt (Nat.lt_succ_self _) hpos⟩

end Dimension

/-! ## The chunks of a range -/

/-- The bounds of a chunk, dimension by dimension. -/
def cell : List (Int × Int) → List Nat → List Nat → List (Int × Int)
  | b :: dims, chunks :: rest, index :: indices =>
    (cut b (size b chunks) index, cut b (size b chunks) (index + 1)) :: cell dims rest indices
  | _, _, _ => []

section Range

variable {dims : List (Int × Int)} {chunksOnDim : List Nat}

/-- Dimensions and numbers of chunks that can be split. -/
def Splittable (dims : List (Int × Int)) (chunksOnDim : List Nat) : Prop :=
  List.Forall₂ (fun b c => (CInt.InRange b.1 ∧ b.1 ≤ b.2) ∧ 0 < c ∧ c < 2 ^ 31) dims chunksOnDim

theorem Splittable.pos (h : Splittable dims chunksOnDim) : ∀ c ∈ chunksOnDim, 0 < c := by
  induction h with
  | nil => simp
  | cons hb _ ih => exact List.forall_mem_cons.mpr ⟨hb.2.1, ih⟩

theorem Splittable.extent_lt (h : Splittable dims chunksOnDim)
    (hfits : List.Forall₂ FitsDim dims chunksOnDim) : ∀ b ∈ dims, b.2 - b.1 < 2 ^ 31 := by
  induction h with
  | nil => simp
  | @cons b chunks dims rest hb _ ih =>
      obtain ⟨hfit, hfits⟩ := List.forall₂_cons.mp hfits
      refine List.forall_mem_cons.mpr ⟨?_, ih hfits⟩
      have hcover := (size_spec hb.1.2 hb.2.1).1
      have hlt := hfit.1
      omega

theorem mapM_chunkSize_iff (h : Splittable dims chunksOnDim) {sizes : List Nat} :
    (dims.zip chunksOnDim).mapM (fun p => chunkSize p.1 p.2) = some sizes ↔
      (∀ b ∈ dims, b.2 - b.1 < 2 ^ 31) ∧ sizes = List.zipWith size dims chunksOnDim := by
  induction h generalizing sizes with
  | nil => simp
  | @cons b chunks dims rest hb _ ih =>
      rw [List.zip_cons_cons, List.mapM_cons, List.zipWith_cons_cons, List.forall_mem_cons]
      constructor
      · intro hmap
        obtain ⟨n, hn, hmap⟩ := Option.bind_eq_some_iff.mp hmap
        obtain ⟨sizes', hsizes', hmap⟩ := Option.bind_eq_some_iff.mp hmap
        obtain rfl := Option.some.inj hmap
        obtain ⟨hext, rfl⟩ := (chunkSize_eq_some_iff hb.1.2 hb.2.1 hb.2.2).mp hn
        obtain ⟨hrest, rfl⟩ := ih.mp hsizes'
        exact ⟨⟨hext, hrest⟩, rfl⟩
      · rintro ⟨⟨hext, hrest⟩, rfl⟩
        have hn := (chunkSize_eq_some_iff hb.1.2 hb.2.1 hb.2.2).mpr ⟨hext, rfl⟩
        have hsizes := ih.mpr ⟨hrest, rfl⟩
        simp only [hn, hsizes, Option.bind_eq_bind, Option.bind_some, Option.pure_def]

theorem pairs_flatMap (l : List (Int × Int)) :
    RangeD.pairs (l.flatMap fun b => [b.1, b.2]) = l := by
  induction l with
  | nil => rfl
  | cons b l ih => exact congrArg (b :: ·) ih

theorem length_flatMap (l : List (Int × Int)) :
    (l.flatMap fun b => [b.1, b.2]).length = l.length * 2 := by
  induction l with
  | nil => rfl
  | cons b l ih =>
      rw [List.flatMap_cons, List.length_append, ih]
      change 2 + l.length * 2 = (l.length + 1) * 2
      omega

theorem splittedRangeBounds_eq (h : Splittable dims chunksOnDim)
    (hfits : List.Forall₂ FitsDim dims chunksOnDim) {indices : List Nat}
    (hin : Loop.InBox indices chunksOnDim) :
    splittedRangeBounds dims indices (List.zipWith size dims chunksOnDim) =
      some ((cell dims chunksOnDim indices).flatMap fun b => [b.1, b.2]) := by
  induction h generalizing indices with
  | nil =>
      cases hin
      rfl
  | @cons b chunks dims rest hb _ ih =>
      cases hin with
      | @cons index _ indices _ hindex hin =>
          cases hfits with
          | cons hfit hfits =>
              have hlow := bound_eq hb.1 hfit (Nat.le_of_lt hindex)
              have hhigh := bound_eq hb.1 hfit hindex
              rw [List.zipWith_cons_cons]
              unfold splittedRangeBounds
              simp only [hlow, hhigh, ih hfits hin, Option.bind_eq_bind, Option.bind_some]
              rfl

theorem length_cell (h : Splittable dims chunksOnDim) {indices : List Nat}
    (hin : Loop.InBox indices chunksOnDim) :
    (cell dims chunksOnDim indices).length = dims.length := by
  induction h generalizing indices with
  | nil =>
      cases hin
      rfl
  | cons _ _ ih =>
      cases hin with
      | cons _ hin => exact congrArg Nat.succ (ih hin)

theorem setRangeBounds_cell {base : RangeD} (h : Splittable base.dimRange chunksOnDim)
    {indices : List Nat} (hin : Loop.InBox indices chunksOnDim) :
    base.setRangeBounds ((cell base.dimRange chunksOnDim indices).flatMap fun b => [b.1, b.2]) =
      some ⟨cell base.dimRange chunksOnDim indices⟩ := by
  unfold RangeD.setRangeBounds RangeD.getDim
  rw [length_flatMap, length_cell h hin, pairs_flatMap, Nat.mul_mod_left]
  exact if_pos ⟨rfl, rfl⟩

/-- In the last chunk of each dimension one sees whether the chunks fit. -/
theorem fits_of_bounds (h : Splittable dims chunksOnDim)
    (hextent : ∀ b ∈ dims, b.2 - b.1 < 2 ^ 31) {bounds : List Int}
    (hbounds : splittedRangeBounds dims (chunksOnDim.map (· - 1))
      (List.zipWith size dims chunksOnDim) = some bounds)
    (hwithin : RangeD.Within ⟨RangeD.pairs bounds⟩ ⟨dims⟩) :
    List.Forall₂ FitsDim dims chunksOnDim := by
  induction h generalizing bounds with
  | nil => exact List.Forall₂.nil
  | @cons b chunks dims rest hb _ ih =>
      rw [List.forall_mem_cons] at hextent
      rw [List.map_cons, List.zipWith_cons_cons] at hbounds
      unfold splittedRangeBounds at hbounds
      obtain ⟨low, -, hbounds⟩ := Option.bind_eq_some_iff.mp hbounds
      obtain ⟨high, hhigh, hbounds⟩ := Option.bind_eq_some_iff.mp hbounds
      obtain ⟨bounds', hbounds', hbounds⟩ := Option.bind_eq_some_iff.mp hbounds
      obtain rfl := Option.some.inj hbounds
      obtain ⟨hhead, htail⟩ := List.forall₂_cons.mp hwithin
      rw [Nat.sub_add_cancel hb.2.1] at hhigh
      apply List.Forall₂.cons
      · exact fitsDim_of_bound hb.1 hb.2.1 hb.2.2 hextent.1 hhigh (hhead.1.trans hhead.2.1)
      · exact ih hextent.2 hbounds' htail

theorem cell_within (h : Splittable dims chunksOnDim) {indices : List Nat}
    (hin : Loop.InBox indices chunksOnDim) :
    RangeD.Within ⟨cell dims chunksOnDim indices⟩ ⟨dims⟩ := by
  induction h generalizing indices with
  | nil => exact List.Forall₂.nil
  | @cons b chunks dims rest hb _ ih =>
      cases hin with
      | @cons index _ indices _ _ hin =>
          apply List.Forall₂.cons _ (ih hin)
          have hnonneg : 0 ≤ (index : Int) * size b chunks := by positivity
          have hmono : (index : Int) * size b chunks ≤ (index + 1 : Nat) * size b chunks := by
            exact_mod_cast Nat.mul_le_mul_right (size b chunks) (Nat.le_succ index)
          have hb := hb.1.2
          unfold cut
          change b.1 ≤ min b.2 (b.1 + index * size b chunks) ∧ min b.2 (b.1 + index * size b chunks) ≤
            min b.2 (b.1 + (index + 1 : Nat) * size b chunks) ∧
            min b.2 (b.1 + (index + 1 : Nat) * size b chunks) ≤ b.2
          omega

/-- A point of the range lies in one chunk. -/
theorem mem_cell_iff (h : Splittable dims chunksOnDim) {x : List Int} (hx : RangeD.Mem ⟨dims⟩ x) :
    ∃ indices, Loop.InBox indices chunksOnDim ∧ ∀ indices', Loop.InBox indices' chunksOnDim →
      (RangeD.Mem ⟨cell dims chunksOnDim indices'⟩ x ↔ indices' = indices) := by
  induction h generalizing x with
  | nil =>
      cases hx
      refine ⟨[], List.Forall₂.nil, fun indices' hin => ?_⟩
      cases hin
      exact iff_of_true List.Forall₂.nil rfl
  | @cons b chunks dims rest hb _ ih =>
      cases hx with
      | @cons y _ x _ hy hx =>
          obtain ⟨index, hindex, hindex_iff⟩ := mem_cut_iff hy hb.2.1
          obtain ⟨indices, hindices, hindices_iff⟩ := ih hx
          refine ⟨index :: indices, List.Forall₂.cons hindex hindices, fun indices' hin => ?_⟩
          cases hin with
          | @cons k _ ks _ hk hin =>
              rw [List.cons.injEq, ← hindex_iff k, ← hindices_iff ks hin]
              exact List.forall₂_cons

end Range

/-! ## The loop -/

section Loop

variable {base : RangeD} {chunksOnDim sizes : List Nat}

/-- The splitter after `p` turns. -/
def afterTurns (chunksOnDim sizes : List Nat) (p : Nat) : Splitter where
  chunksOnDim := chunksOnDim
  dimRangeIndex := Loop.counters chunksOnDim p
  dimChunkSize := sizes
  dim := chunksOnDim.length

theorem split_assign {s other : Splitter} (hdim : base.getDim = other.dim)
    (hchunks : other.dim = other.chunksOnDim.length) (fuel : Nat) :
    (s.assign other).split fuel base [] =
      ((base.dimRange.zip other.chunksOnDim).mapM fun p => chunkSize p.1 p.2).bind fun sizes =>
        (Loop.doWhile more (turn base) fuel (afterTurns other.chunksOnDim sizes 0, [])).bind
          fun r => if (r.2.length : Int) = r.1.getTotalChunks then some r else none := by
  have hsizes : (s.dimChunkSize.takeD other.dim 0).length = other.dim := List.takeD_length _ _ _
  have hindex : (s.dimRangeIndex.takeD other.dim 0).length = other.dim := List.takeD_length _ _ _
  have hassert : base.getDim = (s.assign other).dim ∧
      (s.assign other).dim ≤ (s.assign other).dimChunkSize.length ∧
      (s.assign other).dim ≤ (s.assign other).dimRangeIndex.length :=
    ⟨hdim, hsizes.ge, hindex.ge⟩
  unfold split
  rw [if_pos hassert]
  unfold assign afterTurns
  rw [List.drop_eq_nil_of_le hsizes.le, List.drop_eq_nil_of_le hindex.le, Loop.counters_zero,
    hchunks]
  simp only [List.append_nil]
  rfl

theorem setRangeBounds_eq_some {r : RangeD} {bounds : List Int}
    (h : base.setRangeBounds bounds = some r) : r = ⟨RangeD.pairs bounds⟩ := by
  unfold RangeD.setRangeBounds at h
  split at h
  · exact (Option.some.inj h).symm
  · cases h

theorem turn_afterTurns (hpos : ∀ c ∈ chunksOnDim, 0 < c) (p : Nat) (outVec : List RangeD) :
    turn base (afterTurns chunksOnDim sizes p, outVec) =
      ((splittedRangeBounds base.dimRange (Loop.counters chunksOnDim p) sizes).bind
        base.setRangeBounds).map fun r =>
          (afterTurns chunksOnDim sizes (p + 1), outVec ++ [r]) := by
  unfold turn afterTurns
  simp only [advance_counters hpos, Option.bind_eq_bind, Option.map_eq_bind, Option.bind_assoc]
  rfl

/-- The chunks at the first `n` positions. -/
def cells (base : RangeD) (chunksOnDim : List Nat) (n : Nat) : List RangeD :=
  (List.range n).map fun p => ⟨cell base.dimRange chunksOnDim (Loop.digits chunksOnDim p)⟩

/-- A range that fits is split into its cells. -/
theorem doWhile_of_fits (h : Splittable base.dimRange chunksOnDim) (hne : chunksOnDim ≠ [])
    (hfits : List.Forall₂ FitsDim base.dimRange chunksOnDim) :
    let sizes := List.zipWith size base.dimRange chunksOnDim
    Loop.doWhile more (turn base) chunksOnDim.prod (afterTurns chunksOnDim sizes 0, []) =
      some (afterTurns chunksOnDim sizes chunksOnDim.prod,
        cells base chunksOnDim chunksOnDim.prod) := by
  intro sizes
  have hpos : ∀ c ∈ chunksOnDim, 0 < c := h.pos
  apply Loop.doWhile_eq (k := 0)
    (s := fun p => (afterTurns chunksOnDim sizes p, cells base chunksOnDim p))
  · intro p hp
    have hbounds := splittedRangeBounds_eq h hfits (Loop.digits_inBox hp)
    unfold cells
    rw [turn_afterTurns hpos, Loop.counters_eq hp, hbounds, Option.bind_some,
      setRangeBounds_cell h (Loop.digits_inBox hp), Option.map_some, List.range_succ,
      List.map_append]
    rfl
  · intro p _ hp
    exact (more_counters hpos rfl hne rfl _).mpr hp
  · apply Bool.eq_false_of_not_eq_true
    rw [more_counters hpos rfl hne rfl]
    exact Nat.lt_irrefl _
  · exact List.prod_pos hpos
  · exact Nat.le_refl _

/-- Whatever the loop gives, it has a range for each position. -/
theorem doWhile_turns (hpos : ∀ c ∈ chunksOnDim, 0 < c) (hne : chunksOnDim ≠ []) {fuel : Nat}
    {r : Splitter × List RangeD}
    (h : Loop.doWhile more (turn base) fuel (afterTurns chunksOnDim sizes 0, []) = some r) :
    r.1.chunksOnDim = chunksOnDim ∧ ∀ p < chunksOnDim.prod, ∃ bounds,
      splittedRangeBounds base.dimRange (Loop.digits chunksOnDim p) sizes = some bounds ∧
        ⟨RangeD.pairs bounds⟩ ∈ r.2 := by
  obtain ⟨n, -, ⟨hstate, -, hall⟩, hend⟩ := Loop.doWhile_rule (k := 0)
    (I := fun k r => r.1 = afterTurns chunksOnDim sizes k ∧ k ≤ chunksOnDim.prod ∧
      ∀ p < k, ∃ bounds,
        splittedRangeBounds base.dimRange (Loop.digits chunksOnDim p) sizes = some bounds ∧
          ⟨RangeD.pairs bounds⟩ ∈ r.2)
    (by
      rintro k ⟨s, outVec⟩ s' ⟨hstate, -, hall⟩ hstart hturn
      obtain rfl : s = afterTurns chunksOnDim sizes k := hstate
      have hk : k < chunksOnDim.prod := by
        rcases hstart with rfl | hmore
        · exact List.prod_pos hpos
        · exact (more_counters hpos rfl hne rfl outVec).mp hmore
      rw [turn_afterTurns hpos, Loop.counters_eq hk] at hturn
      obtain ⟨range, hrange, rfl⟩ := Option.map_eq_some_iff.mp hturn
      obtain ⟨bounds, hbounds, hset⟩ := Option.bind_eq_some_iff.mp hrange
      obtain rfl := setRangeBounds_eq_some hset
      refine ⟨rfl, hk, fun p hp => ?_⟩
      rcases Nat.lt_succ_iff_lt_or_eq.mp hp with hlt | rfl
      · obtain ⟨bounds', hbounds', hmem⟩ := hall p hlt
        exact ⟨bounds', hbounds', List.mem_append_left _ hmem⟩
      · exact ⟨bounds, hbounds, List.mem_append_right _ List.mem_cons_self⟩)
    ⟨rfl, Nat.zero_le _, fun p hp => absurd hp (Nat.not_lt_zero p)⟩ (Or.inl rfl) h
  obtain ⟨s, outVec⟩ := r
  obtain rfl : s = afterTurns chunksOnDim sizes n := hstate
  have hn : chunksOnDim.prod ≤ n := by
    by_contra hlt
    rw [(more_counters hpos rfl hne rfl outVec).mpr (Nat.lt_of_not_le hlt)] at hend
    cases hend
  exact ⟨rfl, fun p hp => hall p (Nat.lt_of_lt_of_le hp hn)⟩

end Loop

/-! ## What a split gives -/

/-- The ranges that a range is cut into. -/
structure Partition (base : RangeD) (count : Nat) (outVec : List RangeD) : Prop where
  count : outVec.length = count
  within : ∀ r ∈ outVec, r.Within base
  unique : ∀ x, base.Mem x → ∃! j : Nat, ∃ r : RangeD, outVec[j]? = some r ∧ r.Mem x

/-- The number of chunks is an `int`, and so are the ends of the chunks before they are cut
off. -/
structure Fits (s : Splitter) (base : RangeD) : Prop where
  total : s.chunksOnDim.prod < 2 ^ 31
  dims : List.Forall₂ FitsDim base.dimRange s.chunksOnDim

theorem cells_partition {base : RangeD} {chunksOnDim : List Nat}
    (h : Splittable base.dimRange chunksOnDim) :
    Partition base chunksOnDim.prod (cells base chunksOnDim chunksOnDim.prod) := by
  unfold cells
  constructor
  · rw [List.length_map, List.length_range]
  · intro r hr
    obtain ⟨p, hp, rfl⟩ := List.mem_map.mp hr
    exact cell_within h (Loop.digits_inBox (List.mem_range.mp hp))
  · intro x hx
    obtain ⟨indices, hin, hiff⟩ := mem_cell_iff h hx
    obtain ⟨p, hp, rfl⟩ := Loop.exists_digits hin
    have hget {j : Nat} (hj : j < chunksOnDim.prod) :
        ((List.range chunksOnDim.prod).map fun p =>
          (⟨cell base.dimRange chunksOnDim (Loop.digits chunksOnDim p)⟩ : RangeD))[j]? =
            some ⟨cell base.dimRange chunksOnDim (Loop.digits chunksOnDim j)⟩ := by
      rw [List.getElem?_map, List.getElem?_range hj, Option.map_some]
    refine ⟨p, ⟨_, hget hp, (hiff _ hin).mpr rfl⟩, ?_⟩
    rintro j ⟨r, hr, hmem⟩
    have hj : j < chunksOnDim.prod := by
      obtain ⟨hj, -⟩ := List.getElem?_eq_some_iff.mp hr
      rw [List.length_map, List.length_range] at hj
      exact hj
    rw [hget hj] at hr
    obtain rfl := Option.some.inj hr
    have hdigits := (hiff _ (Loop.digits_inBox hj)).mp hmem
    rw [← Loop.position_digits hj, hdigits, Loop.position_digits hp]

theorem config_spec {s other : Splitter} {dimChunks : List Nat}
    (h : s.setDimChunks dimChunks = some other) (hne : dimChunks ≠ []) :
    other.dim = other.chunksOnDim.length ∧ other.chunksOnDim ≠ [] ∧
      ∀ c ∈ other.chunksOnDim, 0 < c := by
  simp only [setDimChunks] at h
  split at h
  · rename_i hnonzero
    cases h
    refine ⟨?_, ?_, fun c hc => Nat.pos_of_ne_zero (hnonzero c hc)⟩
    · change min dimChunks.length maxDim = (dimChunks.take _).length
      rw [List.length_take]
      omega
    · change dimChunks.take _ ≠ []
      rw [Ne, List.take_eq_nil_iff, not_or]
      have hpos := List.length_pos_of_ne_nil hne
      refine ⟨?_, hne⟩
      unfold maxDim
      omega
  · cases h

theorem splittable {base : RangeD} (hbase : base.Ordered) {chunksOnDim : List Nat}
    (hdim : base.dimRange.length = chunksOnDim.length) (hpos : ∀ c ∈ chunksOnDim, 0 < c)
    (htotal : chunksOnDim.prod < 2 ^ 31) : Splittable base.dimRange chunksOnDim := by
  apply List.forall₂_iff_zip.mpr
  refine ⟨hdim, fun {b c} hmem => ?_⟩
  obtain ⟨hb, hc⟩ := List.of_mem_zip hmem
  have hdvd := Nat.le_of_dvd (List.prod_pos hpos) (List.dvd_prod hc)
  obtain ⟨hlow, -, hle⟩ := hbase b hb
  exact ⟨⟨hlow, hle⟩, hpos c hc, Nat.lt_of_le_of_lt hdvd htotal⟩

/-- Splitting a range partitions it exactly if the range fits. -/
theorem split_partition_iff {s s₀ other : Splitter} {dimChunks : List Nat}
    (hconfig : s₀.setDimChunks dimChunks = some other) (hne : dimChunks ≠ []) {base : RangeD}
    (hdim : base.getDim = other.dim) (hbase : base.Ordered) :
    (∃ fuel r, (s.assign other).split fuel base [] = some r ∧
      Partition base other.chunksOnDim.prod r.2) ↔ other.Fits base := by
  obtain ⟨hchunks, hne, hpos⟩ := config_spec hconfig hne
  constructor
  · rintro ⟨fuel, r, hsplit, hpart⟩
    rw [split_assign hdim hchunks] at hsplit
    obtain ⟨sizes, hsizes, hsplit⟩ := Option.bind_eq_some_iff.mp hsplit
    obtain ⟨r', hloop, hsplit⟩ := Option.bind_eq_some_iff.mp hsplit
    have hassert : (r'.2.length : Int) = r'.1.getTotalChunks ∧ r' = r := by
      split at hsplit
      · exact ⟨‹_›, Option.some.inj hsplit⟩
      · cases hsplit
    obtain ⟨hcount, rfl⟩ := hassert
    obtain ⟨hsame, hturns⟩ := doWhile_turns hpos hne hloop
    have htotal : other.chunksOnDim.prod < 2 ^ 31 := by
      have hlt := CInt.wrap_lt (other.chunksOnDim.prod : Nat)
      rw [getTotalChunks_eq, hsame, hpart.count] at hcount
      rw [← hcount] at hlt
      exact_mod_cast hlt
    have hsplittable := splittable hbase (hdim.trans hchunks) hpos htotal
    obtain ⟨hextent, rfl⟩ := (mapM_chunkSize_iff hsplittable).mp hsizes
    -- the last chunk of every dimension
    have hlast : Loop.InBox (other.chunksOnDim.map (· - 1)) other.chunksOnDim := by
      apply List.forall₂_map_left_iff.mpr
      exact List.forall₂_same.mpr fun c hc => Nat.sub_lt (hpos c hc) Nat.one_pos
    obtain ⟨p, hp, hdigits⟩ := Loop.exists_digits hlast
    obtain ⟨bounds, hbounds, hmem⟩ := hturns p hp
    rw [hdigits] at hbounds
    exact ⟨htotal, fits_of_bounds hsplittable hextent hbounds (hpart.within _ hmem)⟩
  · intro hfits
    have hsplittable := splittable hbase (hdim.trans hchunks) hpos hfits.total
    have hpart := cells_partition hsplittable
    have hsizes := (mapM_chunkSize_iff hsplittable).mpr
      ⟨hsplittable.extent_lt hfits.dims, rfl⟩
    have hloop := doWhile_of_fits hsplittable hne hfits.dims
    have hcount : ((cells base other.chunksOnDim other.chunksOnDim.prod).length : Int) =
        CInt.wrap (other.chunksOnDim.prod : Nat) := by
      have htotal := hfits.total
      rw [hpart.count]
      exact (CInt.wrap_of_inRange ⟨by omega, by exact_mod_cast htotal⟩).symm
    refine ⟨other.chunksOnDim.prod, (afterTurns other.chunksOnDim
      (List.zipWith size base.dimRange other.chunksOnDim) other.chunksOnDim.prod,
      cells base other.chunksOnDim other.chunksOnDim.prod), ?_, hpart⟩
    rw [split_assign hdim hchunks, hsizes, Option.bind_some, hloop, Option.bind_some]
    apply if_pos
    rw [getTotalChunks_eq]
    exact hcount

theorem split_partition_iff_plane :
    ∃ fuel r, (assign ⟨[], [], [], 0⟩ ⟨[2, 3], [], [], 2⟩).split fuel ⟨[(0, 5), (-2, 7)]⟩ [] =
      some r ∧ Partition ⟨[(0, 5), (-2, 7)]⟩ 6 r.2 := by
  have hfits : Fits ⟨[2, 3], [], [], 2⟩ ⟨[(0, 5), (-2, 7)]⟩ := by
    refine ⟨by decide, .cons ⟨?_, ?_⟩ (.cons ⟨?_, ?_⟩ .nil)⟩ <;> decide
  have hconfig : setDimChunks ⟨[], [], [], 0⟩ [2, 3] = some ⟨[2, 3], [], [], 2⟩ := rfl
  exact (split_partition_iff hconfig (List.cons_ne_nil 2 [3]) rfl
    (by unfold RangeD.Ordered; decide)).mpr hfits

/-- The second chunk of `[0, INT_MAX)` ends at `INT_MIN`. -/
theorem split_loses_points :
    ¬ ∃ fuel r, (assign ⟨[], [], [], 0⟩ ⟨[2], [], [], 1⟩).split fuel ⟨[(0, 2147483647)]⟩ [] =
      some r ∧ Partition ⟨[(0, 2147483647)]⟩ 2 r.2 := by
  rintro ⟨fuel, r, hsplit, hpart⟩
  have hwithin : RangeD.Within ⟨[(1073741824, -2147483648)]⟩ ⟨[(0, 2147483647)]⟩ := by
    apply hpart.within
    match fuel with
    | 0 => cases hsplit
    | 1 => cases hsplit
    | fuel + 2 =>
        cases hsplit
        exact List.mem_cons_of_mem _ List.mem_cons_self
  have hends := (List.forall₂_cons.mp hwithin).1
  omega

end Splitter

end AceMesh
