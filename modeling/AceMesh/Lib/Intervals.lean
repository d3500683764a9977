import Mathlib.Algebra.Order.Ring.Int

/-!
# Consecutive intervals

Intervals `[first k, last k]` of integers, `0 ≤ k < count`, laid end to end from `lb` to `ub`.
They cover `[lb, ub]` and nothing else, and no point of it lies in two of them.
-/

namespace Interval

/-- The intervals `[first k, last k]` are non-empty and follow each other from `lb` to `ub`. -/
structure Consecutive (first last : Int → Int) (count lb ub : Int) : Prop where
  pos : 0 < count
  nonempty : ∀ k, 0 ≤ k → k < count → first k ≤ last k
  head : first 0 = lb
  next : ∀ k, 0 ≤ k → k + 1 < count → first (k + 1) = last k + 1
  tail : last (count - 1) = ub

namespace Consecutive

variable {first last : Int → Int} {count lb ub : Int}

/-- An interval ends before every later one starts. -/
theorem last_lt_first (h : Consecutive first last count lb ub) {j : Int} (hj : 0 ≤ j) (d : Nat)
    (hd : j + d + 1 < count) : last j < first (j + d + 1) := by
  induction d with
  | zero =>
    have hnext := h.next j hj (by omega)
    simp only [Nat.cast_zero, add_zero]
    omega
  | succ d ih =>
    have hbefore := ih (by omega)
    have hstep := h.next (j + d + 1) (by omega) (by omega)
    have hfull := h.nonempty (j + d + 1) (by omega) (by omega)
    have hsucc : j + ((d + 1 : Nat) : Int) + 1 = j + d + 1 + 1 := by omega
    rw [hsucc]
    omega

theorem last_lt_first_of_lt (h : Consecutive first last count lb ub) {j k : Int} (hj : 0 ≤ j)
    (hjk : j < k) (hk : k < count) : last j < first k := by
  obtain ⟨d, rfl⟩ : ∃ d : Nat, k = j + d + 1 := ⟨(k - j - 1).toNat, by omega⟩
  exact h.last_lt_first hj d hk

/-- A point lies in one interval only. -/
theorem unique (h : Consecutive first last count lb ub) {i j k : Int} (hj : 0 ≤ j)
    (hjc : j < count) (hk : 0 ≤ k) (hkc : k < count) (hij : first j ≤ i ∧ i ≤ last j)
    (hik : first k ≤ i ∧ i ≤ last k) : j = k := by
  rcases lt_trichotomy j k with hlt | rfl | hgt
  · have hsep := h.last_lt_first_of_lt hj hlt hkc
    omega
  · rfl
  · have hsep := h.last_lt_first_of_lt hk hgt hjc
    omega

/-- The first intervals together reach from `lb` to the end of the last of them. -/
theorem exists_mem_of_le_last (h : Consecutive first last count lb ub) {i : Int} (hlb : lb ≤ i)
    (n : Nat) (hn : (n : Int) < count) (hi : i ≤ last n) :
    ∃ k, 0 ≤ k ∧ k < count ∧ first k ≤ i ∧ i ≤ last k := by
  induction n with
  | zero => exact ⟨0, le_refl 0, h.pos, by rw [h.head]; exact hlb, by simpa using hi⟩
  | succ n ih =>
    by_cases hle : i ≤ last n
    · exact ih (by omega) hle
    · have hnext := h.next n (by omega) (by omega)
      refine ⟨(n : Int) + 1, by omega, by omega, by omega, ?_⟩
      simpa using hi

/-- The intervals cover `[lb, ub]` exactly. -/
theorem mem_iff (h : Consecutive first last count lb ub) (i : Int) :
    lb ≤ i ∧ i ≤ ub ↔ ∃ k, 0 ≤ k ∧ k < count ∧ first k ≤ i ∧ i ≤ last k := by
  have hpos := h.pos
  constructor
  · intro hi
    have hcount : ((count - 1).toNat : Int) = count - 1 := by omega
    refine h.exists_mem_of_le_last hi.1 (count - 1).toNat (by omega) ?_
    rw [hcount, h.tail]
    exact hi.2
  · intro hi
    obtain ⟨k, hk, hkc, hfirst, hlast⟩ := hi
    have hlow : lb ≤ first k := by
      rcases hk.eq_or_lt with rfl | hlt
      · exact h.head.ge
      · have hsep := h.last_lt_first_of_lt (le_refl 0) hlt hkc
        have hfull := h.nonempty 0 (le_refl 0) hpos
        have hhead := h.head
        omega
    have hhigh : last k ≤ ub := by
      by_cases heq : k = count - 1
      · rw [heq, h.tail]
      · have hsep := h.last_lt_first_of_lt hk (show k < count - 1 by omega) (by omega)
        have hfull := h.nonempty (count - 1) (by omega) (by omega)
        have htail := h.tail
        omega
    omega

end Consecutive

end Interval
