import AceMesh.Lib.Loops
import Mathlib.Logic.Function.Basic

/-!
# Copying in memory

`memcpy` between buffers of bytes, and loops that move the blocks of one buffer. A loop that
counts down moves every block up without losing one, a loop that counts up moves them down
(`down_moves`, `up_moves`).
-/

namespace Memory

variable {β γ : Type*}

/-- `memcpy(&dest[d], &src[s], n)`. In one buffer the two ranges are the same or disjoint. -/
def memcpy (dest : Nat → β) (d : Nat) (src : Nat → β) (s n : Nat) : Nat → β :=
  fun a => if d ≤ a ∧ a < d + n then src (s + (a - d)) else dest a

theorem memcpy_in {dest src : Nat → β} {d s n i : Nat} (hi : i < n) :
    memcpy dest d src s n (d + i) = src (s + i) := by
  unfold memcpy
  rw [if_pos ⟨by omega, by omega⟩, Nat.add_sub_cancel_left]

theorem memcpy_out {dest src : Nat → β} {d s n a : Nat} (ha : a < d ∨ d + n ≤ a) :
    memcpy dest d src s n a = dest a := by
  unfold memcpy
  rw [if_neg (by omega)]

/-! ## Blocks -/

/-- The `p`-th block of `e` bytes. -/
def block (m : Nat → β) (e p : Nat) : List β := (List.range e).map fun b => m (p * e + b)

/-- Copying a block over a block. -/
theorem block_memcpy (m : Nat → β) (e p q : Nat) :
    block (memcpy m (p * e) m (q * e) e) e = Function.update (block m e) p (block m e q) := by
  funext p'
  rw [Function.update_apply]
  by_cases hp : p' = p
  · rw [if_pos hp, hp]
    refine List.map_congr_left fun b hb => ?_
    exact memcpy_in (List.mem_range.mp hb)
  · rw [if_neg hp]
    refine List.map_congr_left fun b hb => ?_
    have hb := List.mem_range.mp hb
    apply memcpy_out
    rcases Nat.lt_or_gt_of_ne hp with hlt | hgt
    · have hbelow := Nat.mul_le_mul_right e (show p' + 1 ≤ p from hlt)
      rw [Nat.add_mul, Nat.one_mul] at hbelow
      omega
    · have habove := Nat.mul_le_mul_right e (show p + 1 ≤ p' from hgt)
      rw [Nat.add_mul, Nat.one_mul] at habove
      omega

theorem block_down (m : Nat → β) (e n : Nat) (dst src : Nat → Nat) :
    block (Loop.down n (fun p m => memcpy m (dst p * e) m (src p * e) e) m) e =
      Loop.down n (fun p c => Function.update c (dst p) (c (src p))) (block m e) :=
  Loop.down_hom (f := fun m => block m e) (fun p m => block_memcpy m e (dst p) (src p)) n m

theorem block_up (m : Nat → β) (e n : Nat) (dst src : Nat → Nat) :
    block (Loop.up n (fun p m => memcpy m (dst p * e) m (src p * e) e) m) e =
      Loop.up n (fun p c => Function.update c (dst p) (c (src p))) (block m e) :=
  Loop.up_hom (f := fun m => block m e) (fun p m => block_memcpy m e (dst p) (src p)) n m

/-! ## Moving blocks -/

/-- Downwards in the order of the targets, each from at or below its target. -/
theorem down_moves {n : Nat} {src : Nat → Nat} (hle : ∀ p, p < n → src p ≤ p) (c : Nat → γ)
    (q : Nat) :
    Loop.down n (fun p c => Function.update c p (c (src p))) c q =
      if q < n then c (src q) else c q := by
  induction n generalizing c with
  | zero => rfl
  | succ n ih =>
      unfold Loop.down
      dsimp only
      rw [ih (fun p hp => hle p (Nat.lt_succ_of_lt hp))]
      by_cases hq : q < n
      · -- its source lies below what has been written
        have hsrc := hle q (Nat.lt_succ_of_lt hq)
        rw [if_pos hq, if_pos (Nat.lt_succ_of_lt hq), Function.update_of_ne (by omega)]
      · rw [if_neg hq]
        by_cases hlast : q = n
        · rw [if_pos (by omega), hlast, Function.update_self]
        · rw [if_neg (by omega), Function.update_of_ne hlast]

/-- Upwards, each to at or below its source. -/
theorem up_moves {n : Nat} {dst src : Nat → Nat} (hdst : ∀ p q, p < q → q < n → dst p < dst q)
    (hsrc : ∀ p q, p < q → q < n → src p < src q) (hle : ∀ p, p < n → dst p ≤ src p)
    (c : Nat → γ) :
    (∀ p, p < n →
      Loop.up n (fun p c => Function.update c (dst p) (c (src p))) c (dst p) = c (src p)) ∧
    ∀ a, (∀ p, p < n → a ≠ dst p) →
      Loop.up n (fun p c => Function.update c (dst p) (c (src p))) c a = c a := by
  induction n with
  | zero => exact ⟨fun p hp => absurd hp (Nat.not_lt_zero p), fun _ _ => rfl⟩
  | succ n ih =>
      obtain ⟨hmoved, hkept⟩ := ih (fun p q hpq hq => hdst p q hpq (Nat.lt_succ_of_lt hq))
        (fun p q hpq hq => hsrc p q hpq (Nat.lt_succ_of_lt hq))
        fun p hp => hle p (Nat.lt_succ_of_lt hp)
      unfold Loop.up
      dsimp only
      constructor
      · intro p hp
        by_cases hlast : p = n
        · -- its source lies above what has been written
          rw [hlast, Function.update_self]
          refine hkept _ fun p hp => ?_
          have h₁ := hle p (Nat.lt_succ_of_lt hp)
          have h₂ := hsrc p n hp (Nat.lt_succ_self n)
          omega
        · have hlt : p < n := by omega
          rw [Function.update_of_ne (hdst p n hlt (Nat.lt_succ_self n)).ne]
          exact hmoved p hlt
      · intro a ha
        rw [Function.update_of_ne (ha n (Nat.lt_succ_self n))]
        exact hkept a fun p hp => ha p (Nat.lt_succ_of_lt hp)

end Memory
