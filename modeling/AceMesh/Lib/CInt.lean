import Mathlib.Data.Int.Basic
import Mathlib.Tactic.Linarith

/-!
# C integers

`int` has 32 bits and `size_t` has 64. An operation on `int`s that overflows has no defined
result, so it is an `Option`; a conversion, and all arithmetic of `size_t`, wraps. The last part
is about the numbers in a text.
-/

namespace CInt

/-- The values of `int`. -/
def InRange (x : Int) : Prop := -2 ^ 31 ≤ x ∧ x < 2 ^ 31

instance (x : Int) : Decidable (InRange x) := inferInstanceAs (Decidable (_ ∧ _))

/-- The result of an operation on `int`s. -/
def checked (x : Int) : Option Int := if InRange x then some x else none

/-- The result of an operation on `int`s that are not negative. -/
def checkedNat (x : Nat) : Option Nat := (checked x).map Int.toNat

/-- `(int) x`. -/
def wrap (x : Int) : Int := x.bmod (2 ^ 32)

/-- `(unsigned int) x`. -/
def unsigned (x : Int) : Nat := (x % 2 ^ 32).toNat

/-- `(size_t) x`, or the result of an operation on `size_t`. -/
def sizeT (x : Int) : Nat := (x % 2 ^ 64).toNat

theorem checked_of_inRange {x : Int} (h : InRange x) : checked x = some x := if_pos h

theorem checked_eq_some_iff {x y : Int} : checked x = some y ↔ InRange x ∧ x = y := by
  unfold checked
  split
  · rename_i h
    exact ⟨fun hxy => ⟨h, Option.some.inj hxy⟩, fun hxy => congrArg some hxy.2⟩
  · rename_i h
    constructor
    · intro hxy
      cases hxy
    · intro hxy
      exact absurd hxy.1 h

theorem checkedNat_eq_some_iff {x y : Nat} : checkedNat x = some y ↔ x < 2 ^ 31 ∧ x = y := by
  unfold checkedNat
  rw [Option.map_eq_some_iff]
  constructor
  · rintro ⟨z, hz, rfl⟩
    obtain ⟨hrange, rfl⟩ := checked_eq_some_iff.mp hz
    exact ⟨Int.ofNat_lt.mp hrange.2, rfl⟩
  · rintro ⟨hlt, rfl⟩
    refine ⟨x, checked_of_inRange ⟨by omega, by omega⟩, rfl⟩

theorem checkedNat_of_lt {x : Nat} (h : x < 2 ^ 31) : checkedNat x = some x :=
  checkedNat_eq_some_iff.mpr ⟨h, rfl⟩

theorem checkedNat_of_ge {x : Nat} (h : 2 ^ 31 ≤ x) : checkedNat x = none := by
  rw [Option.eq_none_iff_forall_ne_some]
  intro y hy
  exact absurd (checkedNat_eq_some_iff.mp hy).1 h.not_gt

theorem wrap_of_inRange {x : Int} (h : InRange x) : wrap x = x := by
  unfold InRange at h
  apply Int.bmod_eq_of_le
  · omega
  · omega

/-- Above the values of `int`, the next ones come from below. -/
theorem wrap_of_ge {x : Int} (hge : 2 ^ 31 ≤ x) (hlt : x < 2 ^ 32) : wrap x = x - 2 ^ 32 := by
  unfold wrap
  rw [Int.bmod_eq_emod, Int.emod_eq_of_lt (by omega) (by omega), if_pos (by omega)]
  rfl

theorem wrap_lt (x : Int) : wrap x < 2 ^ 31 := by
  have h : x.bmod (2 ^ 32) < (((2 ^ 32 : Nat) : Int) + 1) / 2 := Int.bmod_lt (by decide)
  exact h

theorem wrap_mul_wrap (x y : Int) : wrap (wrap x * y) = wrap (x * y) := Int.bmod_mul_bmod

/-- Conversions between the types keep a product up to a multiple of `2 ^ 32`. -/
theorem wrap_sizeT (x : Int) : wrap (sizeT x) = wrap x := by
  unfold wrap sizeT
  rw [Int.toNat_of_nonneg (Int.emod_nonneg x (by decide))]
  rw [Int.bmod_eq_emod, Int.bmod_eq_emod, Int.emod_emod_of_dvd x (by decide)]

theorem unsigned_of_lt {x : Int} (hx : 0 ≤ x) (hlt : x < 2 ^ 32) : unsigned x = x.toNat := by
  unfold unsigned
  rw [Int.emod_eq_of_lt hx hlt]

theorem sizeT_of_lt {x : Int} (hx : 0 ≤ x) (hlt : x < 2 ^ 64) : sizeT x = x.toNat := by
  unfold sizeT
  rw [Int.emod_eq_of_lt hx hlt]

/-! ## Texts -/

/-- `isspace`. -/
def isSpace (c : Char) : Bool :=
  c = ' ' || c = '\t' || c = '\n' || c = '\x0b' || c = '\x0c' || c = '\r'

/-- The number that a text begins with. -/
def decimal (s : List Char) : Nat :=
  (s.takeWhile Char.isDigit).foldl (fun n c => 10 * n + (c.toNat - '0'.toNat)) 0

/-- `atoi`, which is `(int) strtol`; `strtol` stays within the values of `long`. -/
def atoi (s : List Char) : Int :=
  match s.dropWhile isSpace with
  | '-' :: s => wrap (max (-2 ^ 63) (-decimal s))
  | '+' :: s => wrap (min (2 ^ 63 - 1) (decimal s))
  | s => wrap (min (2 ^ 63 - 1) (decimal s))

theorem not_isSpace_of_isDigit {c : Char} (h : c.isDigit = true) : isSpace c = false := by
  unfold isSpace
  simp only [Bool.or_eq_false_iff, decide_eq_false_iff_not]
  refine ⟨⟨⟨⟨⟨?_, ?_⟩, ?_⟩, ?_⟩, ?_⟩, ?_⟩ <;>
    · rintro rfl
      exact absurd h (by decide)

/-- The value of a text of digits does not depend on what follows. -/
theorem decimal_append {ds : List Char} (hds : ∀ d ∈ ds, d.isDigit = true) {c : Char}
    (hc : c.isDigit = false) (s : List Char) : decimal (ds ++ c :: s) = decimal ds := by
  have htake (t : List Char) : (ds ++ t).takeWhile Char.isDigit = ds ++ t.takeWhile Char.isDigit :=
    List.takeWhile_append_of_pos hds
  have hnil := htake []
  rw [List.append_nil] at hnil
  unfold decimal
  rw [htake, hnil, List.takeWhile_cons_of_neg (by rw [hc]; exact Bool.false_ne_true)]
  rfl

theorem atoi_digits {ds : List Char} (hds : ∀ d ∈ ds, d.isDigit = true) (hne : ds ≠ [])
    (hvalue : decimal ds < 2 ^ 31) {c : Char} (hc : c.isDigit = false) (s : List Char) :
    atoi (ds ++ c :: s) = decimal ds := by
  obtain ⟨d, ds', rfl⟩ := List.exists_cons_of_ne_nil hne
  have hd : d.isDigit = true := hds d List.mem_cons_self
  have hdrop : ((d :: ds') ++ c :: s).dropWhile isSpace = (d :: ds') ++ c :: s := by
    apply List.dropWhile_cons_of_neg
    rw [not_isSpace_of_isDigit hd]
    exact Bool.false_ne_true
  have hsmall : min (2 ^ 63 - 1) ((decimal ((d :: ds') ++ c :: s) : Nat) : Int) =
      decimal (d :: ds') := by
    rw [decimal_append hds hc]
    omega
  unfold atoi
  rw [hdrop]
  split
  · rename_i hminus
    cases hminus
    exact absurd hd (by decide)
  · rename_i hplus
    cases hplus
    exact absurd hd (by decide)
  · rw [hsmall]
    apply wrap_of_inRange
    exact ⟨by omega, by omega⟩

end CInt
