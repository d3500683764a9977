import AceMesh.Lib.Intervals
import Mathlib.Data.Int.DivMod
import Mathlib.Tactic.Ring

/-!
# Loop tiles

A loop over `[lb, ub]` is cut at the multiples of the tile size. The generated code asks for
the number of tiles, for the bounds of the `k`-th tile, and for the tile of an index; the
five functions are written separately, with C's truncating `/` and `%`. Integers are taken
without overflow.

The tiles of a descending loop are counted, but their bounds are clamped as in an ascending one
(`descending_tiles_partition_iff`).
-/

namespace AceMesh

/-- `acemesh_get_loop_tile_num`. A descending loop is counted with the sign of the tile
size changed, except when it has one iteration: that one takes the ascending branch and
keeps its negative size. -/
def getLoopTileNum (loopTileSize loopIndexLb loopIndexUb : Int) : Int :=
  if (loopIndexUb - loopIndexLb ≥ 0 ∧ loopTileSize > 0) ∨
      (loopIndexUb - loopIndexLb ≤ 0 ∧ loopTileSize < 0) then
    let (len, size) :=
      if loopIndexUb - loopIndexLb ≥ 0 then (loopIndexUb - loopIndexLb + 1, loopTileSize)
      else ((loopIndexUb - loopIndexLb - 1) * (-1), loopTileSize * (-1))
    -- pre loop
    let lbMod := loopIndexLb.tmod size
    let (num, len) :=
      if lbMod ≠ 0 then (1, if len < size - lbMod then 0 else len - (size - lbMod))
      else (0, len)
    -- post loop
    let ubMod := loopIndexUb.tmod size
    let (num, len) :=
      if ubMod ≠ size - 1 ∧ len > size then (num + 1, len - (ubMod + 1)) else (num, len)
    -- main loop
    if len > 0 then if len < size then num + 1 else num + len.tdiv size else num
  else 0

/-- `acemesh_get_loop_tile_start_index_by_tile_no`. -/
def getLoopTileStartIndexByTileNo (loopTileSize loopTileNo loopIndexLb : Int) : Int :=
  let ret := loopTileNo * loopTileSize + loopIndexLb - loopIndexLb.tmod loopTileSize
  if ret < loopIndexLb then loopIndexLb else ret

/-- `acemesh_get_tile_no_by_index`. -/
def getTileNoByIndex (tileSize computeIndex indexLb : Int) : Int :=
  (computeIndex - (indexLb - indexLb.tmod tileSize)).tdiv tileSize

/-- `acemesh_get_loop_tile_end_index_by_tile_no`. -/
def getLoopTileEndIndexByTileNo (loopTileSize loopTileNo loopIndexLb loopIndexUb : Int) : Int :=
  let ret := (loopTileNo + 1) * loopTileSize + loopIndexLb - loopIndexLb.tmod loopTileSize - 1
  if ret > loopIndexUb then loopIndexUb else ret

/-- `acemesh_get_data_tile_start_index_by_index`. -/
def getDataTileStartIndexByIndex (dataTileSize computeIndex arrayDimLb : Int) : Int :=
  let ret := computeIndex - computeIndex.tmod dataTileSize
  if ret < arrayDimLb then arrayDimLb else ret

section Ascending

variable {size lb ub : Int}

theorem sub_tmod_of_nonneg {i : Int} (hi : 0 ≤ i) : i - i.tmod size = i / size * size := by
  rw [Int.tmod_eq_emod_of_nonneg hi]
  have hdiv := Int.emod_add_mul_ediv i size
  rw [mul_comm] at hdiv
  omega

/-- The multiple of the tile size an index lies above, and the next one it lies below. -/
theorem index_bounds (hsize : 0 < size) (i : Int) :
    i / size * size ≤ i ∧ i < (i / size + 1) * size :=
  ⟨Int.ediv_mul_le i hsize.ne', Int.lt_ediv_add_one_mul_self i hsize⟩

theorem start_eq (hlb : 0 ≤ lb) (k : Int) :
    getLoopTileStartIndexByTileNo size k lb = max lb ((lb / size + k) * size) := by
  have hbase : k * size + lb - lb.tmod size = (lb / size + k) * size := by
    rw [add_mul, ← sub_tmod_of_nonneg hlb]
    ring
  simp only [getLoopTileStartIndexByTileNo, hbase]
  split <;> omega

theorem end_eq (hlb : 0 ≤ lb) (k : Int) :
    getLoopTileEndIndexByTileNo size k lb ub = min ub ((lb / size + k + 1) * size - 1) := by
  have hbase : (k + 1) * size + lb - lb.tmod size = (lb / size + k + 1) * size := by
    rw [show (lb / size + k + 1) * size = lb / size * size + (k + 1) * size by ring,
      ← sub_tmod_of_nonneg hlb]
    ring
  simp only [getLoopTileEndIndexByTileNo, hbase]
  split <;> omega

theorem tileNo_eq (hsize : 0 < size) (hlb : 0 ≤ lb) {i : Int} (hi : lb ≤ i) :
    getTileNoByIndex size i lb = i / size - lb / size := by
  have hbelow := (index_bounds hsize lb).1
  have hshift : i - lb / size * size = i + -(lb / size) * size := by ring
  unfold getTileNoByIndex
  rw [sub_tmod_of_nonneg hlb, Int.tdiv_eq_ediv_of_nonneg (by omega), hshift,
    Int.add_mul_ediv_right i _ hsize.ne']
  ring

theorem dataTileStart_eq {i : Int} (hi : 0 ≤ i) (a : Int) :
    getDataTileStartIndexByIndex size i a = max a (i / size * size) := by
  simp only [getDataTileStartIndexByIndex, sub_tmod_of_nonneg hi]
  split <;> omega

/-- Post loop and main loop: from a multiple of the tile size on, `e` whole tiles and the
`ubMod + 1` first iterations of another are counted as `e + 1` tiles. -/
theorem postLoop_mainLoop {e ubMod len : Int} (num : Int) (hsize : 0 < size) (he : 0 ≤ e)
    (hmod : 0 ≤ ubMod) (hmod' : ubMod < size) (hlen : len = e * size + ubMod + 1) :
    (let (num, len) :=
        if ubMod ≠ size - 1 ∧ len > size then (num + 1, len - (ubMod + 1)) else (num, len)
      if len > 0 then if len < size then num + 1 else num + len.tdiv size else num) =
      num + e + 1 := by
  have hexact : ∀ k : Int, (k * size).tdiv size = k := fun k => Int.mul_tdiv_cancel k hsize.ne'
  have hnonneg : 0 ≤ e * size := Int.mul_nonneg he hsize.le
  by_cases hzero : e = 0
  · -- a single tile, whole or not
    subst hzero
    rw [if_neg (by omega)]
    by_cases hwhole : len = size
    · have hone : len.tdiv size = 1 := by rw [hwhole]; exact Int.tdiv_self hsize.ne'
      simp only [hone]
      rw [if_pos (by omega), if_neg (by omega)]
      omega
    · simp only
      rw [if_pos (by omega), if_pos (by omega)]
      omega
  · have hfull : size ≤ e * size := by
      have hmono := Int.mul_le_mul_of_nonneg_right (show 1 ≤ e by omega) hsize.le
      omega
    by_cases hwhole : ubMod = size - 1
    · -- no epilogue: the last tile is whole
      have hlen' : len = (e + 1) * size := by rw [add_mul]; omega
      rw [if_neg (by omega)]
      simp only [hlen', hexact]
      rw [if_pos (by rw [add_mul]; omega), if_neg (by rw [add_mul]; omega)]
      omega
    · have hrest : len - (ubMod + 1) = e * size := by omega
      rw [if_pos ⟨hwhole, by omega⟩]
      simp only [hrest, hexact]
      rw [if_pos (by omega), if_neg (by omega)]
      omega

/-- The prologue, main loop and epilogue of the count add up to the tiles between the tile
of `lb` and the tile of `ub`. -/
theorem tileNum_eq (hsize : 0 < size) (hlb : 0 ≤ lb) (hub : lb ≤ ub) :
    getLoopTileNum size lb ub = ub / size - lb / size + 1 := by
  have hlbMod : lb - lb.tmod size = lb / size * size := sub_tmod_of_nonneg hlb
  have hubMod : ub - ub.tmod size = ub / size * size := sub_tmod_of_nonneg (hlb.trans hub)
  obtain ⟨hlow, hlow'⟩ := index_bounds hsize lb
  obtain ⟨hhigh, hhigh'⟩ := index_bounds hsize ub
  have horder : lb / size ≤ ub / size := Int.ediv_le_ediv hsize hub
  unfold getLoopTileNum
  rw [if_pos (Or.inl ⟨by omega, hsize⟩), if_pos (by omega)]
  dsimp only
  generalize lb.tmod size = lbMod at *
  generalize ub.tmod size = ubMod at *
  generalize lb / size = q at *
  generalize ub / size = p at *
  obtain ⟨d, rfl⟩ : ∃ d : Nat, p = q + d := ⟨(p - q).toNat, by omega⟩
  rw [add_mul] at hubMod hhigh hhigh' hlow'
  rw [add_mul] at hhigh'
  by_cases hpre : lbMod = 0
  · rw [if_neg (not_not_intro hpre)]
    have hcount := postLoop_mainLoop 0 hsize (Int.natCast_nonneg d) (show 0 ≤ ubMod by omega)
      (by omega) (show ub - lb + 1 = d * size + ubMod + 1 by omega)
    refine hcount.trans ?_
    omega
  · rw [if_pos hpre]
    cases d with
    | zero =>
      -- the loop ends in the tile it starts in
      simp only [Nat.cast_zero, zero_mul, add_zero] at *
      have hdone : (if ub - lb + 1 < size - lbMod then 0
          else ub - lb + 1 - (size - lbMod)) = 0 := by split <;> omega
      rw [hdone, if_neg (show ¬ (ubMod ≠ size - 1 ∧ 0 > size) by omega)]
      simp
    | succ d =>
      have hsucc : ((d + 1 : Nat) : Int) * size = d * size + size := by push_cast; ring
      have hnonneg : 0 ≤ (d : Int) * size := Int.mul_nonneg (Int.natCast_nonneg d) hsize.le
      rw [hsucc] at hubMod hhigh hhigh'
      rw [if_neg (show ¬ ub - lb + 1 < size - lbMod by omega)]
      have hcount := postLoop_mainLoop 1 hsize (Int.natCast_nonneg d) (show 0 ≤ ubMod by omega)
        (by omega) (show ub - lb + 1 - (size - lbMod) = d * size + ubMod + 1 by omega)
      refine hcount.trans ?_
      omega

/-- The tiles are non-empty and follow each other from `lb` to `ub`. -/
theorem tiles_consecutive (hsize : 0 < size) (hlb : 0 ≤ lb) (hub : lb ≤ ub) :
    Interval.Consecutive (fun k => getLoopTileStartIndexByTileNo size k lb)
      (fun k => getLoopTileEndIndexByTileNo size k lb ub) (getLoopTileNum size lb ub) lb ub := by
  obtain ⟨hlow, hlow'⟩ := index_bounds hsize lb
  obtain ⟨hhigh, hhigh'⟩ := index_bounds hsize ub
  have horder : lb / size ≤ ub / size := Int.ediv_le_ediv hsize hub
  have hmono : ∀ {p q : Int}, p ≤ q → p * size ≤ q * size :=
    fun hpq => Int.mul_le_mul_of_nonneg_right hpq hsize.le
  simp only [start_eq hlb, end_eq hlb, tileNum_eq hsize hlb hub]
  constructor
  case pos => omega
  case nonempty =>
    intro k hk hkc
    have hbelow := hmono (show lb / size + k ≤ ub / size by omega)
    have habove := hmono (show lb / size + 1 ≤ lb / size + k + 1 by omega)
    have hstep : (lb / size + k + 1) * size = (lb / size + k) * size + size := by ring
    omega
  case head =>
    rw [add_zero]
    omega
  case next =>
    intro k hk hkc
    have hbelow := hmono (show lb / size + k + 1 ≤ ub / size by omega)
    have habove := hmono (show lb / size + 1 ≤ lb / size + k + 1 by omega)
    rw [← add_assoc]
    omega
  case tail =>
    rw [show lb / size + (ub / size - lb / size + 1 - 1) + 1 = ub / size + 1 by ring]
    omega

/-- An index lies in the tile of its number. -/
theorem mem_tile_tileNo (hsize : 0 < size) (hlb : 0 ≤ lb) {i : Int} (hi : lb ≤ i)
    (hi' : i ≤ ub) :
    0 ≤ getTileNoByIndex size i lb ∧
    getTileNoByIndex size i lb < getLoopTileNum size lb ub ∧
    getLoopTileStartIndexByTileNo size (getTileNoByIndex size i lb) lb ≤ i ∧
    i ≤ getLoopTileEndIndexByTileNo size (getTileNoByIndex size i lb) lb ub := by
  have hlow : lb / size ≤ i / size := Int.ediv_le_ediv hsize hi
  have hhigh : i / size ≤ ub / size := Int.ediv_le_ediv hsize hi'
  obtain ⟨hbelow, habove⟩ := index_bounds hsize i
  rw [tileNo_eq hsize hlb hi, tileNum_eq hsize hlb (hi.trans hi'), start_eq hlb, end_eq hlb,
    show lb / size + (i / size - lb / size) = i / size by ring]
  omega

/-- The indices of one tile lie above the same multiple of the tile size. -/
theorem tileNo_injective (hsize : 0 < size) (hlb : 0 ≤ lb) {i j : Int} (hi : lb ≤ i)
    (hj : lb ≤ j)
    (heq : getTileNoByIndex size i lb = getTileNoByIndex size j lb) : i / size = j / size := by
  rw [tileNo_eq hsize hlb hi, tileNo_eq hsize hlb hj] at heq
  omega

/-- The tiles of an ascending loop are non-empty, follow each other and cover `[lb, ub]`
exactly; `acemesh_get_tile_no_by_index` is the one tile an index lies in; and the start of
the data tile is the same for all indices of a tile. -/
theorem loop_tiles_partition (hsize : 0 < size) (hlb : 0 ≤ lb) (hub : lb ≤ ub) :
    Interval.Consecutive (fun k => getLoopTileStartIndexByTileNo size k lb)
        (fun k => getLoopTileEndIndexByTileNo size k lb ub) (getLoopTileNum size lb ub) lb ub ∧
    (∀ i, lb ≤ i ∧ i ≤ ub ↔ ∃ k, 0 ≤ k ∧ k < getLoopTileNum size lb ub ∧
      getLoopTileStartIndexByTileNo size k lb ≤ i ∧
        i ≤ getLoopTileEndIndexByTileNo size k lb ub) ∧
    (∀ i, lb ≤ i → i ≤ ub → ∀ k, (0 ≤ k ∧ k < getLoopTileNum size lb ub ∧
      getLoopTileStartIndexByTileNo size k lb ≤ i ∧
        i ≤ getLoopTileEndIndexByTileNo size k lb ub) ↔ k = getTileNoByIndex size i lb) ∧
    (∀ a, 0 ≤ a → a ≤ lb → ∀ k, 0 ≤ k → k < getLoopTileNum size lb ub → ∀ i j,
      getLoopTileStartIndexByTileNo size k lb ≤ i → i ≤ getLoopTileEndIndexByTileNo size k lb ub →
      getLoopTileStartIndexByTileNo size k lb ≤ j → j ≤ getLoopTileEndIndexByTileNo size k lb ub →
      getDataTileStartIndexByIndex size i a = getDataTileStartIndexByIndex size j a) := by
  have hcons := tiles_consecutive hsize hlb hub
  have hunique : ∀ i, lb ≤ i → i ≤ ub → ∀ k, (0 ≤ k ∧ k < getLoopTileNum size lb ub ∧
      getLoopTileStartIndexByTileNo size k lb ≤ i ∧
        i ≤ getLoopTileEndIndexByTileNo size k lb ub) ↔ k = getTileNoByIndex size i lb := by
    intro i hi hi' k
    obtain ⟨hno, hnoc, hstart, hend⟩ := mem_tile_tileNo hsize hlb hi hi'
    constructor
    · intro hk
      obtain ⟨hk, hkc, hmem⟩ := hk
      exact hcons.unique hk hkc hno hnoc hmem ⟨hstart, hend⟩
    · intro hk
      rw [hk]
      exact ⟨hno, hnoc, hstart, hend⟩
  refine ⟨hcons, hcons.mem_iff, hunique, ?_⟩
  intro a _ _ k hk hkc i j hi hi' hj hj'
  have hiIn := (hcons.mem_iff i).mpr ⟨k, hk, hkc, hi, hi'⟩
  have hjIn := (hcons.mem_iff j).mpr ⟨k, hk, hkc, hj, hj'⟩
  have hiNo := (hunique i hiIn.1 hiIn.2 k).mp ⟨hk, hkc, hi, hi'⟩
  have hjNo := (hunique j hjIn.1 hjIn.2 k).mp ⟨hk, hkc, hj, hj'⟩
  have hsame := tileNo_injective hsize hlb hiIn.1 hjIn.1 (hiNo.symm.trans hjNo)
  rw [dataTileStart_eq (by omega), dataTileStart_eq (by omega), hsame]

end Ascending

/-- Indices 3 to 13 in tiles of 4: a short first tile, two whole ones and a short last one. -/
theorem loop_tiles_partition_example : getLoopTileNum 4 3 13 = 4 ∧
    Interval.Consecutive (fun k => getLoopTileStartIndexByTileNo 4 k 3)
      (fun k => getLoopTileEndIndexByTileNo 4 k 3 13) (getLoopTileNum 4 3 13) 3 13 :=
  ⟨by decide, (loop_tiles_partition (by decide) (by decide) (by decide)).1⟩

/-! ## Descending loops

The count has a case for descending loops. The bounds of the tiles are clamped as in an
ascending loop, so every tile starts at `lb` and ends at `ub` or below.
-/

section Descending

variable {size lb ub : Int}

theorem start_descending (hsize : size < 0) (hlb : 0 ≤ lb) {k : Int} (hk : 0 ≤ k) :
    getLoopTileStartIndexByTileNo size k lb = lb := by
  have hback : k * size ≤ 0 := Int.mul_nonpos_of_nonneg_of_nonpos hk hsize.le
  have hmod := Int.tmod_nonneg size hlb
  unfold getLoopTileStartIndexByTileNo
  dsimp only
  split <;> omega

theorem end_descending (k : Int) : getLoopTileEndIndexByTileNo size k lb ub =
    min ub ((k + 1) * size + lb - lb.tmod size - 1) := by
  unfold getLoopTileEndIndexByTileNo
  dsimp only
  split <;> omega

/-- Main loop: what is left is counted as a tile or more. -/
theorem mainLoop_pos {s len : Int} (num : Int) (hs : 0 < s) (hlen : 0 < len) :
    num + 1 ≤ if len > 0 then if len < s then num + 1 else num + len.tdiv s else num := by
  rw [if_pos hlen]
  split
  · exact Int.le_refl _
  · have hone : 1 ≤ len.tdiv s := by
      rw [Int.tdiv_eq_ediv_of_nonneg hlen.le]
      apply (Int.le_ediv_iff_mul_le hs).mpr
      omega
    omega

/-- With an epilogue it is one tile more. -/
theorem postLoop_pos {s ubMod len : Int} (num : Int) (hs : 0 < s) (hmod : ubMod < s)
    (hlen : 0 < len) :
    num + 1 ≤
      (let (num, len) :=
        if ubMod ≠ s - 1 ∧ len > s then (num + 1, len - (ubMod + 1)) else (num, len)
      if len > 0 then if len < s then num + 1 else num + len.tdiv s else num) := by
  by_cases hpost : ubMod ≠ s - 1 ∧ len > s
  · rw [if_pos hpost]
    have hmain := mainLoop_pos (num + 1) hs (show 0 < len - (ubMod + 1) by omega)
    dsimp only
    omega
  · rw [if_neg hpost]
    exact mainLoop_pos num hs hlen

/-- From a multiple of the tile size on, one tile and two iterations more are counted as one
tile only if there is no epilogue. -/
theorem postLoop_eq_one {s ubMod len : Int} (hs : 0 < s) (hmod : ubMod < s) (hlen : s + 2 ≤ len) :
    (let (num, len) := if ubMod ≠ s - 1 ∧ len > s then ((0 : Int) + 1, len - (ubMod + 1)) else (0, len)
      if len > 0 then if len < s then num + 1 else num + len.tdiv s else num) = 1 ↔
    ubMod = s - 1 ∧ len < 2 * s := by
  by_cases hpost : ubMod ≠ s - 1 ∧ len > s
  · rw [if_pos hpost]
    have hmain := mainLoop_pos (0 + 1) hs (show 0 < len - (ubMod + 1) by omega)
    apply iff_of_false
    · dsimp only
      omega
    · exact fun hand => hpost.1 hand.1
  · rw [if_neg hpost]
    have hwhole : ubMod = s - 1 := by
      by_contra hne
      exact hpost ⟨hne, by omega⟩
    dsimp only
    rw [if_pos (show len > 0 by omega), if_neg (show ¬ len < s by omega), Int.zero_add,
      Int.tdiv_eq_ediv_of_nonneg (by omega), Int.ediv_eq_iff_of_pos hs]
    omega

/-- The count of a descending loop with two iterations or more. -/
theorem tileNum_descending (hsize : size < 0) (hlt : ub < lb) : getLoopTileNum size lb ub =
    let (num, len) :=
      if lb.tmod size ≠ 0 then
        ((1 : Int), if lb - ub + 1 < -size - lb.tmod size then 0
          else lb - ub + 1 - (-size - lb.tmod size))
      else (0, lb - ub + 1)
    let (num, len) :=
      if ub.tmod size ≠ -size - 1 ∧ len > -size then (num + 1, len - (ub.tmod size + 1))
      else (num, len)
    if len > 0 then if len < -size then num + 1 else num + len.tdiv (-size) else num := by
  unfold getLoopTileNum
  rw [if_pos (Or.inr ⟨by omega, hsize⟩), if_neg (show ¬ ub - lb ≥ 0 by omega)]
  dsimp only
  rw [show (ub - lb - 1) * (-1) = lb - ub + 1 by ring, show size * (-1) = -size by ring,
    Int.tmod_neg, Int.tmod_neg]

/-- Two indices in these places of their tiles. -/
theorem gap_iff {s : Int} (hs : 0 < s) (hlb : lb % s = 0) (hlow : s + 2 ≤ lb - ub + 1) :
    ub % s = s - 1 ∧ lb - ub + 1 < 2 * s ↔ 3 ≤ s ∧ lb - ub = s + 1 := by
  have hlbdiv := Int.emod_add_mul_ediv lb s
  rw [hlb] at hlbdiv
  constructor
  · rintro ⟨hub, hhigh⟩
    have hubdiv := Int.emod_add_mul_ediv ub s
    rw [hub] at hubdiv
    have hgap : s * (lb / s - ub / s - 1) = lb - ub - 1 := by
      rw [Int.mul_sub, Int.mul_sub]
      omega
    have hpos : 0 < lb / s - ub / s - 1 :=
      Int.lt_of_mul_lt_mul_left (show s * 0 < s * _ by omega) hs.le
    have hlt : lb / s - ub / s - 1 < 1 + 1 :=
      Int.lt_of_mul_lt_mul_left (show s * _ < s * (1 + 1) by omega) hs.le
    have hone : lb / s - ub / s - 1 = 1 := by omega
    rw [hone] at hgap
    omega
  · rintro ⟨hthree, hgap⟩
    refine ⟨?_, by omega⟩
    rw [show ub = s - 1 + s * (lb / s - 2) by rw [Int.mul_sub]; omega, Int.add_mul_emod_self_left]
    exact Int.emod_eq_of_lt (by omega) (by omega)

/-- A single tile that does not reach below `ub`. -/
theorem tileNum_descending_eq_one (hsize : size < 0) (hub : 0 ≤ ub) (hlt : ub < lb)
    (hreach : ub ≤ size + lb - lb.tmod size - 1) :
    getLoopTileNum size lb ub = 1 ↔ size ≤ -3 ∧ lb.tmod size = 0 ∧ lb - ub = 1 - size := by
  have hs : 0 < -size := by omega
  have hmodlb : lb.tmod size = lb % (-size) := by
    rw [Int.tmod_eq_emod_of_nonneg (by omega), Int.emod_neg]
  have hmodub : ub.tmod size = ub % (-size) := by
    rw [Int.tmod_eq_emod_of_nonneg hub, Int.emod_neg]
  have hlblt := Int.emod_lt_of_pos lb hs
  have hlbnn := Int.emod_nonneg lb hs.ne'
  have hublt := Int.emod_lt_of_pos ub hs
  rw [tileNum_descending hsize hlt, hmodub, hmodlb]
  rw [hmodlb] at hreach
  by_cases hr : lb % (-size) = 0
  · rw [if_neg (not_not_intro hr)]
    dsimp only
    rw [postLoop_eq_one hs hublt (by omega), gap_iff hs hr (by omega)]
    omega
  · rw [if_pos hr, if_neg (show ¬ lb - ub + 1 < -size - lb % (-size) by omega)]
    dsimp only
    have hmore := postLoop_pos 1 hs hublt
      (show 0 < lb - ub + 1 - (-size - lb % (-size)) by omega)
    apply iff_of_false
    · dsimp only at hmore
      omega
    · exact fun hand => hr hand.2.1

/-- The indices of the `k`-th tile of a descending loop. -/
def InDescendingTile (size lb ub k i : Int) : Prop :=
  getLoopTileEndIndexByTileNo size k lb ub ≤ i ∧ i ≤ getLoopTileStartIndexByTileNo size k lb

/-- Every tile reaches from `lb` to `ub` at least. -/
theorem inDescendingTile_iff (hsize : size < 0) (hlb : 0 ≤ lb) {k : Int} (hk : 0 ≤ k) (i : Int) :
    InDescendingTile size lb ub k i ↔
      min ub ((k + 1) * size + lb - lb.tmod size - 1) ≤ i ∧ i ≤ lb := by
  unfold InDescendingTile
  rw [start_descending hsize hlb hk, end_descending]

/-- The tiles of a descending loop are disjoint and cover it if and only if there is one tile,
and by accident: the loop has two iterations more than the tile size, and starts at a multiple
of it. -/
theorem descending_tiles_partition_iff (hsize : size < 0) (hub : 0 ≤ ub) (hle : ub ≤ lb) :
    ((∀ j k, 0 ≤ j → j < getLoopTileNum size lb ub → 0 ≤ k → k < getLoopTileNum size lb ub →
        j ≠ k → ∀ i, ¬ (InDescendingTile size lb ub j i ∧ InDescendingTile size lb ub k i)) ∧
      ∀ i, (∃ k, 0 ≤ k ∧ k < getLoopTileNum size lb ub ∧ InDescendingTile size lb ub k i) ↔
        ub ≤ i ∧ i ≤ lb) ↔
    size ≤ -3 ∧ lb.tmod size = 0 ∧ lb - ub = 1 - size := by
  have hlb : 0 ≤ lb := by omega
  have htile : ∀ {k : Int}, 0 ≤ k → ∀ i, InDescendingTile size lb ub k i ↔
      min ub ((k + 1) * size + lb - lb.tmod size - 1) ≤ i ∧ i ≤ lb :=
    fun hk i => inDescendingTile_iff hsize hlb hk i
  constructor
  · rintro ⟨hdisjoint, hcover⟩
    obtain ⟨k, hk, hkc, -⟩ := (hcover ub).mpr ⟨Int.le_refl ub, hle⟩
    have hone : getLoopTileNum size lb ub = 1 := by
      by_contra hne
      apply hdisjoint 0 1 (by omega) (by omega) (by omega) (by omega) (by omega) lb
      rw [htile (by omega), htile (by omega)]
      omega
    have hend := (hcover (min ub ((0 + 1) * size + lb - lb.tmod size - 1))).mp
      ⟨0, by omega, by omega, (htile (by omega) _).mpr ⟨Int.le_refl _, by omega⟩⟩
    have hreach : ub ≤ size + lb - lb.tmod size - 1 := by omega
    have hlt : ub < lb := by
      have := Int.tmod_nonneg size hlb
      omega
    exact (tileNum_descending_eq_one hsize hub hlt hreach).mp hone
  · rintro ⟨hthree, hmod, hgap⟩
    have hreach : ub ≤ size + lb - lb.tmod size - 1 := by omega
    have hone := (tileNum_descending_eq_one hsize hub (by omega) hreach).mpr ⟨hthree, hmod, hgap⟩
    rw [hone]
    refine ⟨fun j k hj hj' hk hk' hne => absurd (show j = k by omega) hne, fun i => ?_⟩
    constructor
    · rintro ⟨k, hk, hk', hi⟩
      obtain rfl : k = 0 := by omega
      rw [htile hk] at hi
      omega
    · intro hi
      refine ⟨0, by omega, by omega, (htile (by omega) i).mpr ?_⟩
      omega

/-- Indices 8 to 3 in tiles of 4. -/
theorem descending_tiles_partition_example : getLoopTileNum (-4) 8 3 = 1 ∧
    ∀ i, (∃ k, 0 ≤ k ∧ k < getLoopTileNum (-4) 8 3 ∧ InDescendingTile (-4) 8 3 k i) ↔
      3 ≤ i ∧ i ≤ 8 :=
  ⟨by decide, ((descending_tiles_partition_iff (by decide) (by decide) (by decide)).mpr
    (by decide)).2⟩

/-- Indices 13 to 3 in tiles of 4: index 13 lies in all three tiles. -/
theorem descending_tiles_overlap : getLoopTileNum (-4) 13 3 = 3 ∧
    ∀ k, 0 ≤ k → k < 3 → InDescendingTile (-4) 13 3 k 13 := by
  refine ⟨by decide, fun k hk hk' => ?_⟩
  rw [inDescendingTile_iff (by decide) (by decide) hk]
  omega

end Descending

end AceMesh
