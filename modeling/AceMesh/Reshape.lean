import AceMesh.Lib.CInt
import AceMesh.Lib.Memory
import Mathlib.Algebra.BigOperators.Group.List.Lemmas
import Mathlib.Algebra.Order.BigOperators.GroupWithZero.List
import Mathlib.Data.List.GetD

/-!
# Reshaping a tile in place

A tile of a local buffer is packed: its element `x` lies at `tilePosition`, with strides that
mix the extents of the whole block and of the tile. `copyin` spreads the packed elements out to
row-major order in the block, `copyout` packs them again, both in the same buffer. No element is
lost, because the first counts down, the second counts up and packed elements lie below their
places in the block.

Strides and subscripts are sums and products of `int`s, which have no result beyond the values of
`int`. The greatest of them is the subscript of the block's last element: if it is a value of
`int`, so are the others, and only then (`reshape_correct_iff`). Nothing is negative, so
counters, extents and positions are natural numbers.
-/

namespace AceMesh.Reshape

open Memory Loop

variable {β : Type*}

/-- `size[i - 1] * … * size[0]`. -/
def product (size : List Nat) (i : Nat) : Option Nat :=
  Loop.down i (fun j s => s.bind fun s => CInt.checkedNat (s * size.getD j 0)) (some 1)

/-- `stride[i]`. -/
def stride (dimSize tileSize : List Nat) (strideNo i : Nat) : Option Nat :=
  Loop.down i (fun j s => s.bind fun s =>
    CInt.checkedNat (s * if i > strideNo then dimSize.getD j 0 else tileSize.getD j 0)) (some 1)

/-- The array `stride`. -/
def strides (dimSize tileSize : List Nat) (strideNo : Nat) : Option (List Nat) :=
  (List.range dimSize.length).mapM (stride dimSize tileSize strideNo)

/-- `… + x[1] * stride[1] + x[0] * stride[0]`, from left to right. -/
def offset (stride : Nat → Option Nat) : List Nat → Option Nat
  | [] => some 0
  | i :: x => (offset (fun n => stride (n + 1)) x).bind fun rest => (stride 0).bind fun s =>
      (CInt.checkedNat (i * s)).bind fun k => CInt.checkedNat (rest + k)

/-- The subscript of `pdata`. -/
def byteOffset (stride : Nat → Option Nat) (eTypeSize : Nat) (x : List Nat) : Option Nat :=
  (offset stride x).bind fun p => CInt.checkedNat (p * eTypeSize)

/-- `memcpy(&pdata[dest], &pdata[src], e_type_size)`. -/
def move (eTypeSize : Nat) (dest src : Option Nat) (pdata : Nat → β) : Option (Nat → β) :=
  dest.bind fun dest => src.map fun src => memcpy pdata dest pdata src eTypeSize

/-- The body of the functions from three dimensions on, the innermost loop's extent first. -/
def copyin (dimSize tileSize : List Nat) (eTypeSize strideNo : Nat) (pdata : Nat → β) :
    Option (Nat → β) :=
  (strides dimSize tileSize strideNo).bind fun stride =>
    nestDown dimSize (fun x pdata => pdata.bind
      (move eTypeSize (byteOffset (product dimSize) eTypeSize x)
        (byteOffset (fun i => stride[i]?) eTypeSize x))) (some pdata)

def copyout (dimSize tileSize : List Nat) (eTypeSize strideNo : Nat) (pdata : Nat → β) :
    Option (Nat → β) :=
  (strides dimSize tileSize strideNo).bind fun stride =>
    nestUp tileSize (fun x pdata => pdata.bind
      (move eTypeSize (byteOffset (fun i => stride[i]?) eTypeSize x)
        (byteOffset (product dimSize) eTypeSize x))) (some pdata)

/-- The strides of `i * row + j`. -/
def rowStride (row n : Nat) : Option Nat := [1, row][n]?

/-- Two dimensions have the tile's row as their stride, whatever `stride_no` is. -/
def slaveAcemeshReshapeCopyin2d (d1 t1 d2 _t2 eTypeSize _strideNo : Nat) (pdata : Nat → β) :
    Option (Nat → β) :=
  Loop.down d2 (fun i => Loop.down d1 fun j pdata => pdata.bind
    (move eTypeSize (byteOffset (rowStride d1) eTypeSize [j, i])
      (byteOffset (rowStride t1) eTypeSize [j, i]))) (some pdata)

def slaveAcemeshReshapeCopyout2d (d1 t1 _d2 t2 eTypeSize _strideNo : Nat) (pdata : Nat → β) :
    Option (Nat → β) :=
  Loop.up t2 (fun i => Loop.up t1 fun j pdata => pdata.bind
    (move eTypeSize (byteOffset (rowStride t1) eTypeSize [j, i])
      (byteOffset (rowStride d1) eTypeSize [j, i]))) (some pdata)

def slaveAcemeshReshapeCopyin3d (d1 t1 d2 t2 d3 t3 : Nat) :
    Nat → Nat → (Nat → β) → Option (Nat → β) :=
  copyin [d1, d2, d3] [t1, t2, t3]

def slaveAcemeshReshapeCopyout3d (d1 t1 d2 t2 d3 t3 : Nat) :
    Nat → Nat → (Nat → β) → Option (Nat → β) :=
  copyout [d1, d2, d3] [t1, t2, t3]

def slaveAcemeshReshapeCopyin4d (d1 t1 d2 t2 d3 t3 d4 t4 : Nat) :
    Nat → Nat → (Nat → β) → Option (Nat → β) :=
  copyin [d1, d2, d3, d4] [t1, t2, t3, t4]

def slaveAcemeshReshapeCopyout4d (d1 t1 d2 t2 d3 t3 d4 t4 : Nat) :
    Nat → Nat → (Nat → β) → Option (Nat → β) :=
  copyout [d1, d2, d3, d4] [t1, t2, t3, t4]

def slaveAcemeshReshapeCopyin5d (d1 t1 d2 t2 d3 t3 d4 t4 d5 t5 : Nat) :
    Nat → Nat → (Nat → β) → Option (Nat → β) :=
  copyin [d1, d2, d3, d4, d5] [t1, t2, t3, t4, t5]

def slaveAcemeshReshapeCopyout5d (d1 t1 d2 t2 d3 t3 d4 t4 d5 t5 : Nat) :
    Nat → Nat → (Nat → β) → Option (Nat → β) :=
  copyout [d1, d2, d3, d4, d5] [t1, t2, t3, t4, t5]

def slaveAcemeshReshapeCopyin6d (d1 t1 d2 t2 d3 t3 d4 t4 d5 t5 d6 t6 : Nat) :
    Nat → Nat → (Nat → β) → Option (Nat → β) :=
  copyin [d1, d2, d3, d4, d5, d6] [t1, t2, t3, t4, t5, t6]

def slaveAcemeshReshapeCopyout6d (d1 t1 d2 t2 d3 t3 d4 t4 d5 t5 d6 t6 : Nat) :
    Nat → Nat → (Nat → β) → Option (Nat → β) :=
  copyout [d1, d2, d3, d4, d5, d6] [t1, t2, t3, t4, t5, t6]

/-- The function for the number of dimensions of the lists. -/
def copyinNd (dimSize tileSize : List Nat) : Nat → Nat → (Nat → β) → Option (Nat → β) :=
  match dimSize, tileSize with
  | [d1, d2], [t1, t2] => slaveAcemeshReshapeCopyin2d d1 t1 d2 t2
  | [d1, d2, d3], [t1, t2, t3] => slaveAcemeshReshapeCopyin3d d1 t1 d2 t2 d3 t3
  | [d1, d2, d3, d4], [t1, t2, t3, t4] => slaveAcemeshReshapeCopyin4d d1 t1 d2 t2 d3 t3 d4 t4
  | [d1, d2, d3, d4, d5], [t1, t2, t3, t4, t5] =>
      slaveAcemeshReshapeCopyin5d d1 t1 d2 t2 d3 t3 d4 t4 d5 t5
  | [d1, d2, d3, d4, d5, d6], [t1, t2, t3, t4, t5, t6] =>
      slaveAcemeshReshapeCopyin6d d1 t1 d2 t2 d3 t3 d4 t4 d5 t5 d6 t6
  | _, _ => fun _ _ _ => none

def copyoutNd (dimSize tileSize : List Nat) : Nat → Nat → (Nat → β) → Option (Nat → β) :=
  match dimSize, tileSize with
  | [d1, d2], [t1, t2] => slaveAcemeshReshapeCopyout2d d1 t1 d2 t2
  | [d1, d2, d3], [t1, t2, t3] => slaveAcemeshReshapeCopyout3d d1 t1 d2 t2 d3 t3
  | [d1, d2, d3, d4], [t1, t2, t3, t4] => slaveAcemeshReshapeCopyout4d d1 t1 d2 t2 d3 t3 d4 t4
  | [d1, d2, d3, d4, d5], [t1, t2, t3, t4, t5] =>
      slaveAcemeshReshapeCopyout5d d1 t1 d2 t2 d3 t3 d4 t4 d5 t5
  | [d1, d2, d3, d4, d5, d6], [t1, t2, t3, t4, t5, t6] =>
      slaveAcemeshReshapeCopyout6d d1 t1 d2 t2 d3 t3 d4 t4 d5 t5 d6 t6
  | _, _ => fun _ _ _ => none

/-! ## Positions -/

/-- The row-major position of `x` in the block. -/
def dimPosition (dimSize x : List Nat) : Nat := position (boxStride dimSize) x

/-- From `stride_no` on the strides are the tile's, beyond it those of the block. -/
def tileStride (dimSize tileSize : List Nat) (strideNo i : Nat) : Nat :=
  if i > strideNo then boxStride dimSize i else boxStride tileSize i

/-- The position of the packed element `x`. -/
def tilePosition (dimSize tileSize : List Nat) (strideNo : Nat) (x : List Nat) : Nat :=
  position (tileStride dimSize tileSize strideNo) x

/-- The packed elements in row-major order. -/
def spread (dimSize tileSize : List Nat) (eTypeSize strideNo : Nat) (pdata : Nat → β) : Nat → β :=
  nestDown dimSize (fun x pdata =>
    memcpy pdata (dimPosition dimSize x * eTypeSize)
      pdata (tilePosition dimSize tileSize strideNo x * eTypeSize) eTypeSize) pdata

/-- The elements of the tile packed. -/
def pack (dimSize tileSize : List Nat) (eTypeSize strideNo : Nat) (pdata : Nat → β) : Nat → β :=
  nestUp tileSize (fun x pdata =>
    memcpy pdata (tilePosition dimSize tileSize strideNo x * eTypeSize)
      pdata (dimPosition dimSize x * eTypeSize) eTypeSize) pdata

section

variable {dimSize tileSize : List Nat}

/-- A tile in its block. -/
def Fits (tileSize dimSize : List Nat) : Prop :=
  List.Forall₂ (fun t d => 1 ≤ t ∧ t ≤ d) tileSize dimSize

theorem Fits.boxStride_le (hfits : Fits tileSize dimSize) (i : Nat) :
    boxStride tileSize i ≤ boxStride dimSize i := by
  unfold boxStride
  induction hfits generalizing i with
  | nil => exact Nat.le_refl _
  | cons htd _ ih =>
      cases i with
      | zero => exact Nat.le_refl _
      | succ i =>
          simp only [List.take_succ_cons, List.prod_cons]
          exact Nat.mul_le_mul htd.2 (ih i)

theorem Fits.inBox (hfits : Fits tileSize dimSize) {x : List Nat} (hx : InBox x tileSize) :
    InBox x dimSize := by
  induction hfits generalizing x with
  | nil => exact hx
  | cons htd _ ih =>
      cases hx with
      | cons hi hx => exact List.Forall₂.cons (Nat.lt_of_lt_of_le hi htd.2) (ih hx)

theorem Fits.tileStride_le (hfits : Fits tileSize dimSize) (strideNo i : Nat) :
    tileStride dimSize tileSize strideNo i ≤ boxStride dimSize i := by
  unfold tileStride
  split
  · exact Nat.le_refl _
  · exact hfits.boxStride_le i

/-- A packed element lies at or below its place in the block. -/
theorem Fits.tilePosition_le (hfits : Fits tileSize dimSize) (strideNo : Nat) (x : List Nat) :
    tilePosition dimSize tileSize strideNo x ≤ dimPosition dimSize x := by
  apply position_mono
  intro i _
  exact hfits.tileStride_le strideNo i

theorem boxStride_succ (ds : List Nat) {i : Nat} (hi : i < ds.length) :
    boxStride ds (i + 1) = boxStride ds i * ds[i] := List.prod_take_succ ds i hi

theorem Fits.getElem_le (hfits : Fits tileSize dimSize) {i : Nat} (ht : i < tileSize.length)
    (hd : i < dimSize.length) : tileSize[i] ≤ dimSize[i] :=
  (List.Forall₂.get hfits ht hd).2

/-- The tile's digits do not spill into the next stride. -/
theorem Fits.dim_covers (hfits : Fits tileSize dimSize) (i : Nat) (hi : i < tileSize.length) :
    boxStride dimSize i * tileSize[i] ≤ boxStride dimSize (i + 1) := by
  have hd : i < dimSize.length := hfits.length_eq ▸ hi
  rw [boxStride_succ dimSize hd]
  exact Nat.mul_le_mul_left _ (hfits.getElem_le hi hd)

theorem Fits.tile_covers (hfits : Fits tileSize dimSize) (strideNo i : Nat)
    (hi : i < tileSize.length) : tileStride dimSize tileSize strideNo i * tileSize[i] ≤
      tileStride dimSize tileSize strideNo (i + 1) := by
  by_cases hnext : i + 1 > strideNo
  · -- the next stride is the block's
    calc tileStride dimSize tileSize strideNo i * tileSize[i]
        ≤ boxStride dimSize i * tileSize[i] :=
          Nat.mul_le_mul_right _ (hfits.tileStride_le strideNo i)
      _ ≤ boxStride dimSize (i + 1) := hfits.dim_covers i hi
      _ = tileStride dimSize tileSize strideNo (i + 1) := (if_pos hnext).symm
  · -- both are the tile's
    unfold tileStride
    rw [if_neg hnext, if_neg (by omega), boxStride_succ tileSize hi]

/-! ## The moves -/

variable {eTypeSize strideNo : Nat}

theorem spread_block (hfits : Fits tileSize dimSize) (pdata : Nat → β) {x : List Nat}
    (hx : InBox x dimSize) :
    block (spread dimSize tileSize eTypeSize strideNo pdata) eTypeSize (dimPosition dimSize x) =
      block pdata eTypeSize (tilePosition dimSize tileSize strideNo x) := by
  obtain ⟨p, hp, rfl⟩ := exists_digits hx
  let src (p : Nat) := tilePosition dimSize tileSize strideNo (digits dimSize p)
  have hle (p : Nat) (hp : p < dimSize.prod) : src p ≤ p := by
    have hbelow := hfits.tilePosition_le strideNo (digits dimSize p)
    unfold dimPosition at hbelow
    rwa [position_digits hp] at hbelow
  have hloop : block (spread dimSize tileSize eTypeSize strideNo pdata) eTypeSize =
      Loop.down dimSize.prod (fun p c => Function.update c p (c (src p)))
        (block pdata eTypeSize) := by
    unfold spread
    rw [nestDown_eq, block_down pdata eTypeSize dimSize.prod
      (fun p => dimPosition dimSize (digits dimSize p)) src]
    apply down_congr
    intro p hp
    unfold dimPosition
    rw [position_digits hp]
  rw [hloop]
  unfold dimPosition
  rw [position_digits hp, down_moves hle, if_pos hp]

/-- Packing, for the positions of the tile and for the others. -/
theorem pack_block (hfits : Fits tileSize dimSize) (pdata : Nat → β) :
    (∀ x, InBox x tileSize →
      block (pack dimSize tileSize eTypeSize strideNo pdata) eTypeSize
          (tilePosition dimSize tileSize strideNo x) =
        block pdata eTypeSize (dimPosition dimSize x)) ∧
    ∀ a, (∀ x, InBox x tileSize → a ≠ tilePosition dimSize tileSize strideNo x) →
      block (pack dimSize tileSize eTypeSize strideNo pdata) eTypeSize a =
        block pdata eTypeSize a := by
  let dst (p : Nat) := tilePosition dimSize tileSize strideNo (digits tileSize p)
  let src (p : Nat) := dimPosition dimSize (digits tileSize p)
  have hdst (p q : Nat) (hpq : p < q) (hq : q < tileSize.prod) : dst p < dst q :=
    position_strictMono (hfits.tile_covers strideNo) hpq hq
  have hsrc (p q : Nat) (hpq : p < q) (hq : q < tileSize.prod) : src p < src q :=
    position_strictMono hfits.dim_covers hpq hq
  have hle (p : Nat) (_ : p < tileSize.prod) : dst p ≤ src p :=
    hfits.tilePosition_le strideNo (digits tileSize p)
  have hloop : block (pack dimSize tileSize eTypeSize strideNo pdata) eTypeSize =
      Loop.up tileSize.prod (fun p c => Function.update c (dst p) (c (src p)))
        (block pdata eTypeSize) := by
    unfold pack
    rw [nestUp_eq]
    exact block_up pdata eTypeSize tileSize.prod dst src
  obtain ⟨hmoved, hkept⟩ := up_moves hdst hsrc hle (block pdata eTypeSize)
  rw [hloop]
  constructor
  · intro x hx
    obtain ⟨p, hp, rfl⟩ := exists_digits hx
    exact hmoved p hp
  · intro a ha
    exact hkept a fun p hp => ha _ (digits_inBox hp)

end

/-! ## Sums and products of `int`s -/

theorem product_eq_some_iff {size : List Nat} (hsize : ∀ d ∈ size, 1 ≤ d) {i : Nat}
    (hi : i ≤ size.length) {k : Nat} :
    product size i = some k ↔ boxStride size i < 2 ^ 31 ∧ boxStride size i = k := by
  -- the factors still to come only make the product greater
  have hpos (i : Nat) : 1 ≤ boxStride size i :=
    List.prod_pos fun d hd => hsize d (List.mem_of_mem_take hd)
  have hloop (s : Nat) (hs : s < 2 ^ 31) :
      Loop.down i (fun j s => s.bind fun s => CInt.checkedNat (s * size.getD j 0)) (some s) =
        some k ↔ s * boxStride size i < 2 ^ 31 ∧ s * boxStride size i = k := by
    induction i generalizing s with
    | zero =>
        change some s = some k ↔ s * 1 < 2 ^ 31 ∧ s * 1 = k
        rw [Nat.mul_one, Option.some_inj]
        exact ⟨fun h => ⟨hs, h⟩, And.right⟩
    | succ i ih =>
        have hsucc : s * boxStride size (i + 1) = s * size.getD i 0 * boxStride size i := by
          rw [boxStride_succ size hi, List.getD_eq_getElem size 0 hi, Nat.mul_assoc,
            Nat.mul_comm size[i]]
        rw [hsucc]
        unfold Loop.down
        dsimp only
        rw [Option.bind_some]
        by_cases hlt : s * size.getD i 0 < 2 ^ 31
        · rw [CInt.checkedNat_of_lt hlt]
          exact ih (by omega) _ hlt
        · have hle := Nat.mul_le_mul_left (s * size.getD i 0) (hpos i)
          rw [CInt.checkedNat_of_ge (Nat.le_of_not_lt hlt), down_none]
          constructor
          · intro h
            cases h
          · intro h
            omega
  have hstart := hloop 1 (by decide)
  rwa [Nat.one_mul] at hstart

theorem stride_eq_product (dimSize tileSize : List Nat) (strideNo i : Nat) :
    stride dimSize tileSize strideNo i =
      product (if i > strideNo then dimSize else tileSize) i := by
  unfold stride product
  by_cases hi : i > strideNo
  · simp only [if_pos hi]
  · simp only [if_neg hi]

theorem offset_eq_some_iff {stride : Nat → Option Nat} {f : Nat → Nat} {x : List Nat}
    (h : ∀ n, n < x.length → stride n = some (f n)) {p : Nat} :
    offset stride x = some p ↔ position f x < 2 ^ 31 ∧ position f x = p := by
  induction x generalizing stride f p with
  | nil =>
      change some 0 = some p ↔ 0 < 2 ^ 31 ∧ 0 = p
      rw [Option.some_inj]
      exact ⟨fun h => ⟨by decide, h⟩, And.right⟩
  | cons i x ih =>
      have hrest (q : Nat) := ih (fun n hn => h (n + 1) (Nat.succ_lt_succ hn)) (p := q)
      unfold offset position
      simp only [Option.bind_eq_some_iff, hrest, h 0 (Nat.succ_pos _), Option.some_inj,
        CInt.checkedNat_eq_some_iff]
      constructor
      · rintro ⟨rest, ⟨-, rfl⟩, s, rfl, k, ⟨-, rfl⟩, hlt, rfl⟩
        exact ⟨by omega, by omega⟩
      · rintro ⟨hlt, rfl⟩
        exact ⟨_, ⟨by omega, rfl⟩, _, rfl, _, ⟨by omega, rfl⟩, by omega, by omega⟩

theorem byteOffset_eq_some_iff {stride : Nat → Option Nat} {f : Nat → Nat} {x : List Nat}
    (h : ∀ n, n < x.length → stride n = some (f n)) {eTypeSize b : Nat} :
    byteOffset stride eTypeSize x = some b ↔
      (position f x < 2 ^ 31 ∧ position f x * eTypeSize < 2 ^ 31) ∧
        position f x * eTypeSize = b := by
  unfold byteOffset
  simp only [Option.bind_eq_some_iff, offset_eq_some_iff h, CInt.checkedNat_eq_some_iff]
  constructor
  · rintro ⟨p, ⟨hp, rfl⟩, hlt, rfl⟩
    exact ⟨⟨hp, hlt⟩, rfl⟩
  · rintro ⟨⟨hp, hlt⟩, rfl⟩
    exact ⟨_, ⟨hp, rfl⟩, hlt, rfl⟩

/-- A subscript has used every stride. -/
theorem stride_of_byteOffset {stride : Nat → Option Nat} {eTypeSize b : Nat} {x : List Nat}
    (h : byteOffset stride eTypeSize x = some b) {n : Nat} (hn : n < x.length) :
    ∃ s, stride n = some s := by
  obtain ⟨p, hp, -⟩ := Option.bind_eq_some_iff.mp h
  clear h
  induction x generalizing stride n p with
  | nil => exact absurd hn (Nat.not_lt_zero n)
  | cons i x ih =>
      obtain ⟨rest, hrest, hp⟩ := Option.bind_eq_some_iff.mp hp
      obtain ⟨s, hs, -⟩ := Option.bind_eq_some_iff.mp hp
      rw [List.length_cons] at hn
      cases n with
      | zero => exact ⟨s, hs⟩
      | succ n => exact @ih (fun n => stride (n + 1)) n (by omega) rest hrest

theorem mapM_some {f : Nat → Option Nat} {g : Nat → Nat} {l : List Nat}
    (h : ∀ i ∈ l, f i = some (g i)) : l.mapM f = some (l.map g) := by
  induction l with
  | nil => rfl
  | cons i l ih =>
      rw [List.mapM_cons, h i List.mem_cons_self, ih fun j hj => h j (List.mem_cons_of_mem i hj)]
      rfl

/-! ## The loops -/

section

variable {ds : List Nat} {eTypeSize : Nat} {dest src : List Nat → Option Nat}
  {f g : List Nat → Nat}

theorem nestDown_move (hdest : ∀ x, InBox x ds → dest x = some (f x))
    (hsrc : ∀ x, InBox x ds → src x = some (g x)) (pdata : Nat → β) :
    nestDown ds (fun x pdata => pdata.bind (move eTypeSize (dest x) (src x))) (some pdata) =
      some (nestDown ds (fun x pdata => memcpy pdata (f x) pdata (g x) eTypeSize) pdata) := by
  rw [nestDown_eq, nestDown_eq]
  apply down_some
  intro p hp pdata
  unfold move
  rw [hdest _ (digits_inBox hp), hsrc _ (digits_inBox hp)]
  rfl

theorem nestUp_move (hdest : ∀ x, InBox x ds → dest x = some (f x))
    (hsrc : ∀ x, InBox x ds → src x = some (g x)) (pdata : Nat → β) :
    nestUp ds (fun x pdata => pdata.bind (move eTypeSize (dest x) (src x))) (some pdata) =
      some (nestUp ds (fun x pdata => memcpy pdata (f x) pdata (g x) eTypeSize) pdata) := by
  rw [nestUp_eq, nestUp_eq]
  apply up_some
  intro p hp pdata
  unfold move
  rw [hdest _ (digits_inBox hp), hsrc _ (digits_inBox hp)]
  rfl

/-- Counting down begins at the last element. -/
theorem dest_of_nestDown (hpos : 0 < ds.prod) {pdata r : Nat → β}
    (h : nestDown ds (fun x pdata => pdata.bind (move eTypeSize (dest x) (src x))) (some pdata) =
      some r) : ∃ b, dest (digits ds (ds.prod - 1)) = some b := by
  obtain ⟨m, hm⟩ := Nat.exists_eq_succ_of_ne_zero hpos.ne'
  rw [nestDown_eq, hm] at h
  obtain ⟨s, hs⟩ := of_down_some h
  obtain ⟨b, hb, -⟩ := Option.bind_eq_some_iff.mp hs
  rw [hm]
  exact ⟨b, hb⟩

end

/-- The subscripts of the block's last element are values of `int`. -/
def InInt (dimSize : List Nat) (eTypeSize : Nat) : Prop :=
  boxStride dimSize (dimSize.length - 1) < 2 ^ 31 ∧ dimSize.prod - 1 < 2 ^ 31 ∧
    (dimSize.prod - 1) * eTypeSize < 2 ^ 31

section

variable {dimSize tileSize : List Nat} {eTypeSize strideNo : Nat}

theorem Fits.one_le_tile (hfits : Fits tileSize dimSize) : ∀ t ∈ tileSize, 1 ≤ t := by
  intro t ht
  induction hfits with
  | nil => cases ht
  | cons htd _ ih =>
      rcases List.mem_cons.mp ht with rfl | ht
      · exact htd.1
      · exact ih ht

theorem Fits.one_le_dim (hfits : Fits tileSize dimSize) : ∀ d ∈ dimSize, 1 ≤ d := by
  intro d hd
  induction hfits with
  | nil => cases hd
  | cons htd _ ih =>
      rcases List.mem_cons.mp hd with rfl | hd
      · exact Nat.le_trans htd.1 htd.2
      · exact ih hd

theorem Fits.prod_pos (hfits : Fits tileSize dimSize) : 0 < dimSize.prod :=
  List.prod_pos hfits.one_le_dim

theorem dimPosition_le {x : List Nat} (hx : InBox x dimSize) :
    dimPosition dimSize x ≤ dimSize.prod - 1 := by
  obtain ⟨p, hp, rfl⟩ := exists_digits hx
  unfold dimPosition
  rw [position_digits hp]
  omega

theorem InInt.boxStride_lt (hint : InInt dimSize eTypeSize) (hpos : ∀ d ∈ dimSize, 1 ≤ d) {i : Nat}
    (hi : i < dimSize.length) : boxStride dimSize i < 2 ^ 31 := by
  apply Nat.lt_of_le_of_lt _ hint.1
  apply Nat.le_of_dvd
  · exact List.prod_pos fun d hd => hpos d (List.mem_of_mem_take hd)
  · exact List.Sublist.prod_dvd_prod (List.take_sublist_take_left (Nat.le_sub_one_of_lt hi))

/-- A subscript up to the last one. -/
theorem InInt.byteOffset_eq (hint : InInt dimSize eTypeSize) {stride : Nat → Option Nat}
    {f : Nat → Nat} {x : List Nat} (hstride : ∀ n, n < x.length → stride n = some (f n))
    (hle : position f x ≤ dimSize.prod - 1) :
    byteOffset stride eTypeSize x = some (position f x * eTypeSize) := by
  have hbytes := Nat.mul_le_mul_right eTypeSize hle
  obtain ⟨-, hlast, hlastByte⟩ := hint
  exact (byteOffset_eq_some_iff hstride).mpr ⟨⟨by omega, by omega⟩, rfl⟩

theorem Fits.product_eq (hfits : Fits tileSize dimSize) (hint : InInt dimSize eTypeSize) {i : Nat}
    (hi : i < dimSize.length) : product dimSize i = some (boxStride dimSize i) :=
  (product_eq_some_iff hfits.one_le_dim hi.le).mpr
    ⟨hint.boxStride_lt hfits.one_le_dim hi, rfl⟩

theorem getElem?_range_map {n i : Nat} (hi : i < n) (f : Nat → Nat) :
    ((List.range n).map f)[i]? = some (f i) := by
  rw [List.getElem?_map, List.getElem?_range hi]
  rfl

theorem Fits.stride_eq (hfits : Fits tileSize dimSize) (hint : InInt dimSize eTypeSize) {i : Nat}
    (hi : i < dimSize.length) :
    stride dimSize tileSize strideNo i = some (tileStride dimSize tileSize strideNo i) := by
  rw [stride_eq_product]
  unfold tileStride
  by_cases hno : i > strideNo
  · rw [if_pos hno, if_pos hno]
    exact hfits.product_eq hint hi
  · rw [if_neg hno, if_neg hno, product_eq_some_iff hfits.one_le_tile (hfits.length_eq ▸ hi.le)]
    have hbox := hint.boxStride_lt hfits.one_le_dim hi
    exact ⟨Nat.lt_of_le_of_lt (hfits.boxStride_le i) hbox, rfl⟩

theorem Fits.strides_eq (hfits : Fits tileSize dimSize) (hint : InInt dimSize eTypeSize) :
    strides dimSize tileSize strideNo =
      some ((List.range dimSize.length).map (tileStride dimSize tileSize strideNo)) := by
  apply mapM_some
  intro i hi
  exact hfits.stride_eq hint (List.mem_range.mp hi)

/-- The subscripts in the block. -/
theorem InInt.dimOffset_eq (hint : InInt dimSize eTypeSize) {stride : Nat → Option Nat}
    (hstride : ∀ i, i < dimSize.length → stride i = some (boxStride dimSize i)) {x : List Nat}
    (hx : InBox x dimSize) :
    byteOffset stride eTypeSize x = some (dimPosition dimSize x * eTypeSize) := by
  apply hint.byteOffset_eq _ (dimPosition_le hx)
  rw [hx.length_eq]
  exact hstride

/-- The subscripts of packed elements. -/
theorem InInt.tileOffset_eq (hint : InInt dimSize eTypeSize) (hfits : Fits tileSize dimSize)
    {stride : Nat → Option Nat}
    (hstride : ∀ i, i < dimSize.length →
      stride i = some (tileStride dimSize tileSize strideNo i)) {x : List Nat}
    (hx : InBox x dimSize) :
    byteOffset stride eTypeSize x =
      some (tilePosition dimSize tileSize strideNo x * eTypeSize) := by
  apply hint.byteOffset_eq
  · rw [hx.length_eq]
    exact hstride
  · exact Nat.le_trans (hfits.tilePosition_le strideNo x) (dimPosition_le hx)

/-- The subscript of the last element. -/
theorem prod_bounds {stride : Nat → Option Nat} (hpos : 0 < dimSize.prod)
    (hstride : ∀ i, i < dimSize.length → stride i = some (boxStride dimSize i)) {b : Nat}
    (h : byteOffset stride eTypeSize (digits dimSize (dimSize.prod - 1)) = some b) :
    dimSize.prod - 1 < 2 ^ 31 ∧ (dimSize.prod - 1) * eTypeSize < 2 ^ 31 := by
  have hlast : dimSize.prod - 1 < dimSize.prod := Nat.sub_one_lt hpos.ne'
  rw [← (digits_inBox hlast).length_eq] at hstride
  have hbounds := ((byteOffset_eq_some_iff hstride).mp h).1
  rwa [position_digits hlast] at hbounds

/-! ## The functions -/

theorem copyin_eq_some (hfits : Fits tileSize dimSize) (hint : InInt dimSize eTypeSize)
    (pdata : Nat → β) : copyin dimSize tileSize eTypeSize strideNo pdata =
      some (spread dimSize tileSize eTypeSize strideNo pdata) := by
  unfold copyin
  rw [hfits.strides_eq hint, Option.bind_some]
  apply nestDown_move
  · intro x hx
    exact hint.dimOffset_eq (fun i hi => hfits.product_eq hint hi) hx
  · intro x hx
    exact hint.tileOffset_eq hfits (fun i hi => getElem?_range_map hi _) hx

theorem copyout_eq_some (hfits : Fits tileSize dimSize) (hint : InInt dimSize eTypeSize)
    (pdata : Nat → β) : copyout dimSize tileSize eTypeSize strideNo pdata =
      some (pack dimSize tileSize eTypeSize strideNo pdata) := by
  unfold copyout
  rw [hfits.strides_eq hint, Option.bind_some]
  apply nestUp_move
  · intro x hx
    exact hint.tileOffset_eq hfits (fun i hi => getElem?_range_map hi _) (hfits.inBox hx)
  · intro x hx
    exact hint.dimOffset_eq (fun i hi => hfits.product_eq hint hi) (hfits.inBox hx)

/-- Without a result for the last element there is none at all. -/
theorem inInt_of_copyin (hfits : Fits tileSize dimSize) (hlen : 0 < dimSize.length)
    {pdata r : Nat → β} (h : copyin dimSize tileSize eTypeSize strideNo pdata = some r) :
    InInt dimSize eTypeSize := by
  obtain ⟨table, -, hloop⟩ := Option.bind_eq_some_iff.mp h
  obtain ⟨b, hb⟩ := dest_of_nestDown hfits.prod_pos hloop
  have hlast : dimSize.prod - 1 < dimSize.prod := Nat.sub_one_lt hfits.prod_pos.ne'
  have hproduct (i : Nat) (hi : i < dimSize.length) :
      boxStride dimSize i < 2 ^ 31 ∧ product dimSize i = some (boxStride dimSize i) := by
    rw [← (digits_inBox hlast).length_eq] at hi
    obtain ⟨s, hs⟩ := stride_of_byteOffset hb hi
    rw [(digits_inBox hlast).length_eq] at hi
    obtain ⟨hlt, rfl⟩ := (product_eq_some_iff hfits.one_le_dim hi.le).mp hs
    exact ⟨hlt, hs⟩
  exact ⟨(hproduct _ (Nat.sub_one_lt hlen.ne')).1,
    prod_bounds hfits.prod_pos (fun i hi => (hproduct i hi).2) hb⟩

end

section

variable {d1 t1 d2 t2 eTypeSize : Nat}

theorem rowStride_dim {i : Nat} (hi : i < 2) : rowStride d1 i = some (boxStride [d1, d2] i) := by
  match i, hi with
  | 0, _ => rfl
  | 1, _ => exact congrArg some (Nat.mul_one d1).symm

theorem rowStride_tile {i : Nat} (hi : i < 2) :
    rowStride t1 i = some (tileStride [d1, d2] [t1, t2] 1 i) := by
  unfold tileStride
  rw [if_neg (by omega)]
  exact rowStride_dim hi

theorem copyin2d_eq_some (hfits : Fits [t1, t2] [d1, d2]) (hint : InInt [d1, d2] eTypeSize)
    (pdata : Nat → β) : slaveAcemeshReshapeCopyin2d d1 t1 d2 t2 eTypeSize 1 pdata =
      some (spread [d1, d2] [t1, t2] eTypeSize 1 pdata) := by
  apply @nestDown_move β [d1, d2]
  · intro x hx
    exact hint.dimOffset_eq (fun i hi => rowStride_dim hi) hx
  · intro x hx
    exact hint.tileOffset_eq hfits (fun i hi => rowStride_tile hi) hx

theorem copyout2d_eq_some (hfits : Fits [t1, t2] [d1, d2]) (hint : InInt [d1, d2] eTypeSize)
    (pdata : Nat → β) : slaveAcemeshReshapeCopyout2d d1 t1 d2 t2 eTypeSize 1 pdata =
      some (pack [d1, d2] [t1, t2] eTypeSize 1 pdata) := by
  apply @nestUp_move β [t1, t2]
  · intro x hx
    exact hint.tileOffset_eq hfits (fun i hi => rowStride_tile hi) (hfits.inBox hx)
  · intro x hx
    exact hint.dimOffset_eq (fun i hi => rowStride_dim hi) (hfits.inBox hx)

theorem inInt_of_copyin2d (hfits : Fits [t1, t2] [d1, d2]) (hd1 : d1 < 2 ^ 31)
    {pdata r : Nat → β} (h : slaveAcemeshReshapeCopyin2d d1 t1 d2 t2 eTypeSize 1 pdata = some r) :
    InInt [d1, d2] eTypeSize := by
  obtain ⟨b, hb⟩ := @dest_of_nestDown β [d1, d2] _ _ _ hfits.prod_pos _ _ h
  refine ⟨?_, prod_bounds hfits.prod_pos (fun i hi => rowStride_dim hi) hb⟩
  change d1 * 1 < 2 ^ 31
  rwa [Nat.mul_one]

end

section

variable {dimSize tileSize : List Nat} {eTypeSize strideNo : Nat}

/-- From three to six dimensions every function is the general one. -/
theorem copyNd_eq (hlen : tileSize.length = dimSize.length) (hlow : 3 ≤ dimSize.length)
    (hhigh : dimSize.length ≤ 6) :
    @copyinNd β dimSize tileSize = copyin dimSize tileSize ∧
      @copyoutNd β dimSize tileSize = copyout dimSize tileSize := by
  match dimSize, tileSize, hlen, hlow, hhigh with
  | [_, _, _], [_, _, _], _, _, _ => exact ⟨rfl, rfl⟩
  | [_, _, _, _], [_, _, _, _], _, _, _ => exact ⟨rfl, rfl⟩
  | [_, _, _, _, _], [_, _, _, _, _], _, _, _ => exact ⟨rfl, rfl⟩
  | [_, _, _, _, _, _], [_, _, _, _, _, _], _, _, _ => exact ⟨rfl, rfl⟩

/-- The functions spread and pack. -/
theorem copyNd_eq_some (hfits : Fits tileSize dimSize) (hint : InInt dimSize eTypeSize)
    (hlow : 2 ≤ dimSize.length) (hhigh : dimSize.length ≤ 6) (hno : 1 ≤ strideNo)
    (hno' : strideNo ≤ dimSize.length - 1) (pdata : Nat → β) :
    copyinNd dimSize tileSize eTypeSize strideNo pdata =
        some (spread dimSize tileSize eTypeSize strideNo pdata) ∧
      copyoutNd dimSize tileSize eTypeSize strideNo pdata =
        some (pack dimSize tileSize eTypeSize strideNo pdata) := by
  rcases Nat.eq_or_lt_of_le hlow with htwo | hthree
  · obtain ⟨d1, d2, rfl⟩ := List.length_eq_two.mp htwo.symm
    obtain ⟨t1, t2, rfl⟩ := List.length_eq_two.mp hfits.length_eq
    obtain rfl : strideNo = 1 := Nat.le_antisymm hno' hno
    exact ⟨copyin2d_eq_some hfits hint pdata, copyout2d_eq_some hfits hint pdata⟩
  · obtain ⟨hin, hout⟩ := @copyNd_eq β _ _ hfits.length_eq hthree hhigh
    rw [hin, hout]
    exact ⟨copyin_eq_some hfits hint pdata, copyout_eq_some hfits hint pdata⟩

theorem inInt_of_copyinNd (hfits : Fits tileSize dimSize) (hlow : 2 ≤ dimSize.length)
    (hhigh : dimSize.length ≤ 6) (hdim : ∀ d ∈ dimSize, d < 2 ^ 31) (hno : 1 ≤ strideNo)
    (hno' : strideNo ≤ dimSize.length - 1) {pdata r : Nat → β}
    (h : copyinNd dimSize tileSize eTypeSize strideNo pdata = some r) :
    InInt dimSize eTypeSize := by
  rcases Nat.eq_or_lt_of_le hlow with htwo | hthree
  · obtain ⟨d1, d2, rfl⟩ := List.length_eq_two.mp htwo.symm
    obtain ⟨t1, t2, rfl⟩ := List.length_eq_two.mp hfits.length_eq
    obtain rfl : strideNo = 1 := Nat.le_antisymm hno' hno
    exact inInt_of_copyin2d hfits (hdim d1 List.mem_cons_self) h
  · rw [(@copyNd_eq β _ _ hfits.length_eq hthree hhigh).1] at h
    exact inInt_of_copyin hfits (by omega) h

end

/-- Copying in spreads the packed elements to row-major order, copying out packs them and leaves
the other elements alone; after both the packed elements are as before. -/
def Reshapes (dimSize tileSize : List Nat) (eTypeSize strideNo : Nat) (pdata : Nat → β) : Prop :=
  ∃ spread packed back,
    copyinNd dimSize tileSize eTypeSize strideNo pdata = some spread ∧
    copyoutNd dimSize tileSize eTypeSize strideNo pdata = some packed ∧
    copyoutNd dimSize tileSize eTypeSize strideNo spread = some back ∧
    (∀ x, InBox x dimSize → block spread eTypeSize (dimPosition dimSize x) =
      block pdata eTypeSize (tilePosition dimSize tileSize strideNo x)) ∧
    (∀ x, InBox x tileSize →
      block packed eTypeSize (tilePosition dimSize tileSize strideNo x) =
        block pdata eTypeSize (dimPosition dimSize x)) ∧
    (∀ a, (∀ x, InBox x tileSize → a ≠ tilePosition dimSize tileSize strideNo x) →
      block packed eTypeSize a = block pdata eTypeSize a) ∧
    ∀ x, InBox x tileSize →
      block back eTypeSize (tilePosition dimSize tileSize strideNo x) =
        block pdata eTypeSize (tilePosition dimSize tileSize strideNo x)

/-- Reshaping is correct exactly where the subscripts of the block's last element are values of
`int`. -/
theorem reshape_correct_iff (dimSize tileSize : List Nat) (eTypeSize strideNo : Nat)
    (hlow : 2 ≤ dimSize.length) (hhigh : dimSize.length ≤ 6)
    (hfits : List.Forall₂ (fun t d => 1 ≤ t ∧ t ≤ d) tileSize dimSize)
    (hdim : ∀ d ∈ dimSize, d < 2 ^ 31) (hno : 1 ≤ strideNo)
    (hno' : strideNo ≤ dimSize.length - 1) (pdata : Nat → β) :
    Reshapes dimSize tileSize eTypeSize strideNo pdata ↔ InInt dimSize eTypeSize := by
  constructor
  · rintro ⟨spread, packed, back, hspread, -⟩
    exact inInt_of_copyinNd hfits hlow hhigh hdim hno hno' hspread
  · intro hint
    have hfunctions := @copyNd_eq_some β _ _ _ _ hfits hint hlow hhigh hno hno'
    have hspread (x : List Nat) (hx : InBox x dimSize) :=
      @spread_block β _ _ eTypeSize strideNo hfits pdata x hx
    have hpacked (pdata : Nat → β) := @pack_block β _ _ eTypeSize strideNo hfits pdata
    refine ⟨_, _, _, (hfunctions pdata).1, (hfunctions pdata).2, (hfunctions _).2, hspread,
      (hpacked pdata).1, (hpacked pdata).2, ?_⟩
    intro x hx
    rw [(hpacked _).1 x hx]
    apply hspread
    exact Fits.inBox hfits hx

theorem reshape_correct_iff_tile : Reshapes [3, 2, 2] [2, 2, 1] 4 2 (id : Nat → Nat) :=
  (reshape_correct_iff [3, 2, 2] [2, 2, 1] 4 2 (by decide) (by decide) (by decide) (by decide)
    (by decide) (by decide) id).mpr (by unfold InInt; decide)

/-- A block of more than `2 ^ 31` bytes. -/
theorem offsets_overflow : ¬Reshapes [46341, 46341] [46341, 46341] 1 1 (id : Nat → Nat) := by
  rintro ⟨spread, packed, back, hspread, -⟩
  have hfits : Fits [46341, 46341] [46341, 46341] := by
    unfold Fits
    decide
  have hint := inInt_of_copyinNd hfits (by decide) (by decide) (by decide) (by decide) (by decide)
    hspread
  exact absurd hint.2.1 (by decide)

end AceMesh.Reshape
