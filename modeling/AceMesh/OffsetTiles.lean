import AceMesh.LoopTiles

/-!
# Loop tiles with an offset

With an offset the tiles are cut at the offset and the multiples of the tile size from there.
The code divides the distance from the offset with C's truncating `/`. From the offset on this
rounds down, and the tiles cover the loop as those without an offset do
(`offset_tiles_partition`). Below the offset it rounds up.

`acemesh_get_tile_no_by_index_with_init_offset` takes the offset modulo the tile size, so its
rounding turns at another index than that of the other functions (`offset_tileNo_agrees_iff`).

Integers are taken without overflow. The end function steps over the tile before it clamps, so
near the largest `int` it overflows where the bounds of the loop do not.
-/

namespace AceMesh

/-- `acemesh_get_loop_tile_num_with_init_offset`. -/
def getLoopTileNumWithInitOffset (loopTileSize loopIndexLb loopIndexUb initOffset : Int) : Int :=
  if loopIndexLb > loopIndexUb then 0
  else
    let lno1 := (loopIndexUb - initOffset).tdiv loopTileSize
    let lno2 := (loopIndexLb - initOffset).tdiv loopTileSize
    lno1 - lno2 + 1

/-- `acemesh_get_loop_tile_start_index_by_tile_no_with_init_offset`. -/
def getLoopTileStartIndexByTileNoWithInitOffset
    (loopTileSize loopTileNo loopIndexLb initOffset : Int) : Int :=
  let ret := (loopTileNo + (loopIndexLb - initOffset).tdiv loopTileSize) * loopTileSize + initOffset
  if ret < loopIndexLb then loopIndexLb else ret

/-- `acemesh_get_loop_tile_end_index_by_tile_no_with_init_offset`. -/
def getLoopTileEndIndexByTileNoWithInitOffset
    (loopTileSize loopTileNo loopIndexLb loopIndexUb initOffset : Int) : Int :=
  let ret := (loopTileNo + (loopIndexLb - initOffset).tdiv loopTileSize + 1) * loopTileSize +
    initOffset - 1
  if ret > loopIndexUb then loopIndexUb else ret

/-- `acemesh_get_data_tile_start_index_by_index_with_init_offset`. -/
def getDataTileStartIndexByIndexWithInitOffset
    (dataTileSize computeIndex arrayDimLb initOffset : Int) : Int :=
  let ret := (computeIndex - initOffset).tdiv dataTileSize * dataTileSize + initOffset
  if ret < arrayDimLb then arrayDimLb else ret

/-- `acemesh_get_tile_no_by_index_with_init_offset`. -/
def getTileNoByIndexWithInitOffset (tileSize index lb initOffset : Int) : Int :=
  let lno1 := (index - initOffset.tmod tileSize).tdiv tileSize
  let lno2 := (lb - initOffset.tmod tileSize).tdiv tileSize
  lno1 - lno2

variable {size lb ub offset : Int}

theorem offsetStart_eq (k : Int) :
    getLoopTileStartIndexByTileNoWithInitOffset size k lb offset =
      max lb ((k + (lb - offset).tdiv size) * size + offset) := by
  unfold getLoopTileStartIndexByTileNoWithInitOffset
  dsimp only
  split <;> omega

theorem offsetEnd_eq (k : Int) :
    getLoopTileEndIndexByTileNoWithInitOffset size k lb ub offset =
      min ub ((k + (lb - offset).tdiv size + 1) * size + offset - 1) := by
  unfold getLoopTileEndIndexByTileNoWithInitOffset
  dsimp only
  split <;> omega

theorem offsetNum_eq (hle : lb ≤ ub) : getLoopTileNumWithInitOffset size lb ub offset =
    (ub - offset).tdiv size - (lb - offset).tdiv size + 1 := by
  unfold getLoopTileNumWithInitOffset
  exact if_neg (by omega)

theorem offsetData_eq (i a : Int) :
    getDataTileStartIndexByIndexWithInitOffset size i a offset =
      max a ((i - offset).tdiv size * size + offset) := by
  unfold getDataTileStartIndexByIndexWithInitOffset
  dsimp only
  split <;> omega

/-- The number of the tile that an index lies in. -/
theorem offsetTile_tdiv (hsize : 0 < size) (hoffset : offset ≤ lb) {k i : Int}
    (hi : getLoopTileStartIndexByTileNoWithInitOffset size k lb offset ≤ i)
    (hi' : i ≤ getLoopTileEndIndexByTileNoWithInitOffset size k lb ub offset) :
    (i - offset).tdiv size = k + (lb - offset).tdiv size := by
  rw [offsetStart_eq] at hi
  rw [offsetEnd_eq] at hi'
  rw [Int.tdiv_eq_ediv_of_nonneg (show 0 ≤ i - offset by omega), Int.ediv_eq_iff_of_pos hsize]
  have hstep : (k + (lb - offset).tdiv size + 1) * size =
      (k + (lb - offset).tdiv size) * size + size := by ring
  omega

/-- The data tiles start one after the other: from the second on they start above `lb`, where
nothing is clamped. -/
theorem dataStart_lt {q a j k : Int} (hsize : 0 < size) (hfirst : a < (q + 1) * size + offset)
    (hj : 0 ≤ j) (hjk : j < k) :
    max a ((j + q) * size + offset) < max a ((k + q) * size + offset) := by
  have hlater : (j + q + 1) * size ≤ (k + q) * size :=
    Int.mul_le_mul_of_nonneg_right (by omega) hsize.le
  have hsecond : (q + 1) * size ≤ (j + q + 1) * size :=
    Int.mul_le_mul_of_nonneg_right (by omega) hsize.le
  have hnext : (j + q + 1) * size = (j + q) * size + size := by ring
  omega

/-! ## From the offset on -/

section Above

variable (hsize : 0 < size) (hoffset : offset ≤ lb) (hle : lb ≤ ub)
include hsize hoffset hle

/-- The tiles are non-empty and follow each other from `lb` to `ub`. -/
theorem offsetTiles_consecutive :
    Interval.Consecutive (fun k => getLoopTileStartIndexByTileNoWithInitOffset size k lb offset)
      (fun k => getLoopTileEndIndexByTileNoWithInitOffset size k lb ub offset)
      (getLoopTileNumWithInitOffset size lb ub offset) lb ub := by
  obtain ⟨hlow, hlow'⟩ := index_bounds hsize (lb - offset)
  obtain ⟨hhigh, hhigh'⟩ := index_bounds hsize (ub - offset)
  have horder : (lb - offset) / size ≤ (ub - offset) / size :=
    Int.ediv_le_ediv hsize (by omega)
  have hmono : ∀ {p q : Int}, p ≤ q → p * size ≤ q * size :=
    fun hpq => Int.mul_le_mul_of_nonneg_right hpq hsize.le
  simp only [offsetStart_eq, offsetEnd_eq, offsetNum_eq hle,
    Int.tdiv_eq_ediv_of_nonneg (show 0 ≤ lb - offset by omega),
    Int.tdiv_eq_ediv_of_nonneg (show 0 ≤ ub - offset by omega)]
  generalize (lb - offset) / size = q at *
  generalize (ub - offset) / size = p at *
  constructor
  case pos => omega
  case nonempty =>
    intro k hk hkc
    have hbelow := hmono (show k + q ≤ p by omega)
    have habove := hmono (show q + 1 ≤ k + q + 1 by omega)
    have hstep : (k + q + 1) * size = (k + q) * size + size := by ring
    omega
  case head =>
    rw [zero_add]
    omega
  case next =>
    intro k hk hkc
    have hbelow := hmono (show k + q + 1 ≤ p by omega)
    have habove := hmono (show q + 1 ≤ k + q + 1 by omega)
    rw [show k + 1 + q = k + q + 1 by ring]
    omega
  case tail =>
    rw [show p - q + 1 - 1 + q + 1 = p + 1 by ring]
    omega

/-- The tiles from the offset on are non-empty, follow each other and cover `[lb, ub]` exactly;
two indices have the same start of a data tile if and only if they lie in the same tile. -/
theorem offset_tiles_partition :
    Interval.Consecutive (fun k => getLoopTileStartIndexByTileNoWithInitOffset size k lb offset)
        (fun k => getLoopTileEndIndexByTileNoWithInitOffset size k lb ub offset)
        (getLoopTileNumWithInitOffset size lb ub offset) lb ub ∧
    (∀ i, lb ≤ i ∧ i ≤ ub ↔ ∃ k, 0 ≤ k ∧ k < getLoopTileNumWithInitOffset size lb ub offset ∧
      getLoopTileStartIndexByTileNoWithInitOffset size k lb offset ≤ i ∧
        i ≤ getLoopTileEndIndexByTileNoWithInitOffset size k lb ub offset) ∧
    ∀ a, offset ≤ a → a ≤ lb → ∀ j k, 0 ≤ j →
      j < getLoopTileNumWithInitOffset size lb ub offset → 0 ≤ k →
      k < getLoopTileNumWithInitOffset size lb ub offset → ∀ i i',
      getLoopTileStartIndexByTileNoWithInitOffset size j lb offset ≤ i →
      i ≤ getLoopTileEndIndexByTileNoWithInitOffset size j lb ub offset →
      getLoopTileStartIndexByTileNoWithInitOffset size k lb offset ≤ i' →
      i' ≤ getLoopTileEndIndexByTileNoWithInitOffset size k lb ub offset →
      (getDataTileStartIndexByIndexWithInitOffset size i a offset =
        getDataTileStartIndexByIndexWithInitOffset size i' a offset ↔ j = k) := by
  have hcons := offsetTiles_consecutive hsize hoffset hle
  refine ⟨hcons, hcons.mem_iff, ?_⟩
  intro a hoa hal j k hj hjc hk hkc i i' hi hi₁ hi' hi'₁
  rw [offsetData_eq, offsetData_eq, offsetTile_tdiv hsize hoffset hi hi₁,
    offsetTile_tdiv hsize hoffset hi' hi'₁,
    Int.tdiv_eq_ediv_of_nonneg (show 0 ≤ lb - offset by omega)]
  have hfirst : a < ((lb - offset) / size + 1) * size + offset := by
    have := (index_bounds hsize (lb - offset)).2
    omega
  constructor
  · intro heq
    rcases lt_trichotomy j k with hlt | hsame | hgt
    · exact absurd heq (dataStart_lt hsize hfirst hj hlt).ne
    · exact hsame
    · exact absurd heq (dataStart_lt hsize hfirst hk hgt).ne'
  · rintro rfl
    rfl

end Above

/-- Indices -3 to 9 in tiles of 4 from -5 on: four tiles. -/
theorem offset_tiles_partition_example : getLoopTileNumWithInitOffset 4 (-3) 9 (-5) = 4 ∧
    Interval.Consecutive (fun k => getLoopTileStartIndexByTileNoWithInitOffset 4 k (-3) (-5))
      (fun k => getLoopTileEndIndexByTileNoWithInitOffset 4 k (-3) 9 (-5))
      (getLoopTileNumWithInitOffset 4 (-3) 9 (-5)) (-3) 9 :=
  ⟨by decide, (offset_tiles_partition (by decide) (by decide) (by decide)).1⟩

/-! ## The number of a tile -/

/-- C's division of `i - c` by the tile size rounds up. -/
def RoundsUp (size i c : Int) : Prop := i < c ∧ ¬ size ∣ i - c

instance (size i c : Int) : Decidable (RoundsUp size i c) :=
  inferInstanceAs (Decidable (_ ∧ _))

theorem tdiv_eq_ediv_add (hsize : 0 < size) (i c : Int) :
    (i - c).tdiv size = (i - c) / size + if RoundsUp size i c then 1 else 0 := by
  rw [Int.tdiv_eq_ediv, Int.sign_eq_one_of_pos hsize]
  by_cases hup : RoundsUp size i c
  · rw [if_pos hup, if_neg]
    rintro (hnonneg | hdvd)
    · have := hup.1
      omega
    · exact hup.2 hdvd
  · rw [if_neg hup, if_pos]
    by_contra hneither
    rw [not_or] at hneither
    exact hup ⟨by omega, hneither.2⟩

/-- The two distances differ by a multiple of the tile size. -/
theorem ediv_tmod (hsize : 0 < size) (i : Int) :
    (i - offset.tmod size) / size = (i - offset) / size + offset.tdiv size := by
  have hoffset := Int.tmod_add_mul_tdiv offset size
  rw [show i - offset.tmod size = i - offset + offset.tdiv size * size by
    rw [Int.mul_comm]; omega]
  exact Int.add_mul_ediv_right (i - offset) _ hsize.ne'

/-- What is rounded up on one side is rounded up on the other. -/
theorem rounding_balance (x y t : Int) {I L C : Prop} [Decidable I] [Decidable L] [Decidable C] :
    (x = x + t + (if I then 1 else 0) - (y + t + if L then 1 else 0) + (y + if C then 1 else 0)) ↔
      ¬ (I ∧ C) ∧ (L ↔ I ∨ C) := by
  by_cases hi : I
  · by_cases hl : L
    · by_cases hc : C
      · simp only [if_pos hi, if_pos hl, if_pos hc]
        exact iff_of_false (by omega) fun hand => hand.1 ⟨hi, hc⟩
      · simp only [if_pos hi, if_pos hl, if_neg hc]
        exact iff_of_true (by omega) ⟨fun hand => hc hand.2, iff_of_true hl (Or.inl hi)⟩
    · simp only [if_pos hi, if_neg hl]
      apply iff_of_false
      · split <;> omega
      · exact fun hand => hl (hand.2.mpr (Or.inl hi))
  · by_cases hl : L
    · by_cases hc : C
      · simp only [if_neg hi, if_pos hl, if_pos hc]
        exact iff_of_true (by omega) ⟨fun hand => hi hand.1, iff_of_true hl (Or.inr hc)⟩
      · simp only [if_neg hi, if_pos hl, if_neg hc]
        exact iff_of_false (by omega) fun hand => (hand.2.mp hl).elim hi hc
    · by_cases hc : C
      · simp only [if_neg hi, if_neg hl, if_pos hc]
        exact iff_of_false (by omega) fun hand => hl (hand.2.mpr (Or.inr hc))
      · simp only [if_neg hi, if_neg hl, if_neg hc]
        exact iff_of_true (by omega) ⟨fun hand => hi hand.1,
          iff_of_false hl fun hor => hor.elim hi hc⟩

/-- The tiles are cut where the distance from the offset is divided downwards; their numbers
start from the truncating division of `lb`. -/
theorem inOffsetTile_iff (hsize : 0 < size) {i : Int} (hlb : lb ≤ i) (hub : i ≤ ub) (k : Int) :
    (getLoopTileStartIndexByTileNoWithInitOffset size k lb offset ≤ i ∧
      i ≤ getLoopTileEndIndexByTileNoWithInitOffset size k lb ub offset) ↔
    (i - offset) / size = k + (lb - offset).tdiv size := by
  have hstep : (k + (lb - offset).tdiv size + 1) * size =
      (k + (lb - offset).tdiv size) * size + size := by ring
  rw [offsetStart_eq, offsetEnd_eq, Int.ediv_eq_iff_of_pos hsize]
  omega

/-- The number agrees with the count and the bounds of the tiles if and only if, of the three
divisions that the functions make of `lb` and the index, that of `lb` by the reduced offset
rounds up exactly if one of the two others does. -/
theorem offset_tileNo_agrees_iff (hsize : 0 < size) {i : Int} (hlb : lb ≤ i) (hub : i ≤ ub) :
    (0 ≤ getTileNoByIndexWithInitOffset size i lb offset ∧
      getTileNoByIndexWithInitOffset size i lb offset <
        getLoopTileNumWithInitOffset size lb ub offset ∧
      getLoopTileStartIndexByTileNoWithInitOffset size
        (getTileNoByIndexWithInitOffset size i lb offset) lb offset ≤ i ∧
      i ≤ getLoopTileEndIndexByTileNoWithInitOffset size
        (getTileNoByIndexWithInitOffset size i lb offset) lb ub offset) ↔
    ¬ (RoundsUp size i (offset.tmod size) ∧ RoundsUp size lb offset) ∧
      (RoundsUp size lb (offset.tmod size) ↔
        RoundsUp size i (offset.tmod size) ∨ RoundsUp size lb offset) := by
  unfold getTileNoByIndexWithInitOffset
  dsimp only
  rw [inOffsetTile_iff hsize hlb hub, offsetNum_eq (by omega)]
  have hnonneg : (lb - offset.tmod size).tdiv size ≤ (i - offset.tmod size).tdiv size :=
    Int.tdiv_le_tdiv hsize (by omega)
  have hbelow : (i - offset) / size ≤ (ub - offset).tdiv size := by
    apply Int.le_trans (Int.ediv_le_ediv hsize (show i - offset ≤ ub - offset by omega))
    rw [tdiv_eq_ediv_add hsize]
    split <;> omega
  have hall : (0 ≤ (i - offset.tmod size).tdiv size - (lb - offset.tmod size).tdiv size ∧
      (i - offset.tmod size).tdiv size - (lb - offset.tmod size).tdiv size <
        (ub - offset).tdiv size - (lb - offset).tdiv size + 1 ∧
      (i - offset) / size = (i - offset.tmod size).tdiv size - (lb - offset.tmod size).tdiv size +
        (lb - offset).tdiv size) ↔
      (i - offset) / size = (i - offset.tmod size).tdiv size - (lb - offset.tmod size).tdiv size +
        (lb - offset).tdiv size := by
    constructor
    · exact fun hand => hand.2.2
    · intro heq
      exact ⟨by omega, by omega, heq⟩
  rw [hall, tdiv_eq_ediv_add hsize, tdiv_eq_ediv_add hsize, tdiv_eq_ediv_add hsize,
    ediv_tmod hsize, ediv_tmod hsize]
  exact rounding_balance _ _ _

/-- From `0` on, offset and all, the number agrees. -/
theorem offset_tileNo_agrees_example : getTileNoByIndexWithInitOffset 4 9 3 2 = 1 ∧
    getLoopTileStartIndexByTileNoWithInitOffset 4 1 3 2 ≤ 9 ∧
    9 ≤ getLoopTileEndIndexByTileNoWithInitOffset 4 1 3 20 2 := by
  have hno : getTileNoByIndexWithInitOffset 4 9 3 2 = 1 := by decide
  obtain ⟨-, -, hstart, hend⟩ :=
    (@offset_tileNo_agrees_iff 4 3 20 2 (by decide) 9 (by decide) (by decide)).mpr (by decide)
  rw [hno] at hstart hend
  exact ⟨hno, hstart, hend⟩

/-- In a loop from -4 with the offset -5, index 0 gets the number of the tile [-4, -2]. -/
theorem offset_tileNo_disagrees : getTileNoByIndexWithInitOffset 4 0 (-4) (-5) = 0 ∧
    getLoopTileEndIndexByTileNoWithInitOffset 4 0 (-4) 10 (-5) = -2 := by decide

end AceMesh
