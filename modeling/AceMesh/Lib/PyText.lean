import Mathlib.Data.List.DropRight
import Mathlib.Algebra.Order.Group.Int

/-!
# Text as Python 2 reads it

The lines of a file, `str.strip`, `str.split` at a character (core's `List.splitOn`) and `int`
of a byte string, and what they make of numbers in decimal notation.
-/

namespace PyText

/-- What C's `isspace` accepts. -/
def isSpace (c : Char) : Bool :=
  c == ' ' || (9 ≤ c.toNat && c.toNat ≤ 13)

def strip (s : List Char) : List Char := (s.dropWhile isSpace).rdropWhile isSpace

def digits (s : List Char) : Option Nat :=
  if s ≠ [] ∧ s.all Char.isDigit then some (Nat.ofDigitChars 10 s 0) else none

/-- `int` of a string, `none` for a `ValueError`. -/
def int (s : List Char) : Option Int :=
  match strip s with
  | '-' :: ds => (digits ds).map fun n => -(n : Int)
  | '+' :: ds => (digits ds).map Int.ofNat
  | ds => (digits ds).map Int.ofNat

/-- What `readline` returns up to the end of the file, without the newlines. -/
def lines (s : List Char) : List (List Char) :=
  if (s.splitOn '\n').getLast? = some [] then (s.splitOn '\n').dropLast else s.splitOn '\n'

theorem isSpace_of_isDigit {c : Char} (h : c.isDigit = true) : isSpace c = false := by
  have hbounds : 48 ≤ c.toNat := by
    rw [Char.isDigit, Bool.and_eq_true, decide_eq_true_eq] at h
    exact UInt32.le_iff_toNat_le.mp h.1
  have hblank : c ≠ ' ' := by
    rintro rfl
    exact absurd hbounds (by decide)
  unfold isSpace
  rw [Bool.or_eq_false_iff]
  constructor
  · exact beq_false_of_ne hblank
  · simp only [Bool.and_eq_false_iff, decide_eq_false_iff_not]
    omega

/-! ## Blanks -/

/-- Nothing is stripped where neither the first nor the last character is a blank. -/
theorem strip_eq_self {s : List Char} (hhead : ∀ c ∈ s.head?, isSpace c = false)
    (hlast : ∀ c ∈ s.getLast?, isSpace c = false) : strip s = s := by
  have hdrop : s.dropWhile isSpace = s := by
    cases s with
    | nil => rfl
    | cons c s => exact List.dropWhile_cons_of_neg (by simp [hhead c rfl])
  unfold strip
  rw [hdrop, List.rdropWhile_eq_self_iff]
  intro hne
  simp [hlast _ (List.getLast?_eq_some_getLast hne)]

theorem strip_cons_blank {c : Char} (h : isSpace c = true) (s : List Char) :
    strip (c :: s) = strip s := by
  unfold strip
  rw [List.dropWhile_cons_of_pos h]

theorem rdropWhile_append_of_not_blank {c : Char} (h : isSpace c = false) (xs ys : List Char) :
    (xs ++ c :: ys).rdropWhile isSpace = xs ++ c :: ys.rdropWhile isSpace := by
  induction ys using List.reverseRecOn with
  | nil =>
      rw [List.rdropWhile_concat_neg _ _ _ (by simp [h]), List.rdropWhile_nil]
  | append_singleton ys d ih =>
      rw [← List.cons_append, ← List.append_assoc]
      cases hd : isSpace d with
      | true =>
          rw [List.rdropWhile_concat_pos _ _ _ hd, ih, List.rdropWhile_concat_pos _ _ _ hd]
      | false =>
          rw [List.rdropWhile_concat_neg _ _ _ (by simp [hd]),
            List.rdropWhile_concat_neg _ _ _ (by simp [hd])]
          simp

/-- Stripping twice is stripping once. -/
theorem strip_rdropWhile (s : List Char) : strip (s.rdropWhile isSpace) = strip s := by
  induction s with
  | nil => rfl
  | cons c s ih =>
      cases hc : isSpace c with
      | true =>
          rw [strip_cons_blank hc, ← ih]
          by_cases hall : ∀ d ∈ s, isSpace d = true
          · have hnil : s.rdropWhile isSpace = [] := List.rdropWhile_eq_nil_iff.mpr hall
            have hnil' : (c :: s).rdropWhile isSpace = [] := by
              rw [List.rdropWhile_eq_nil_iff]
              simpa [hc] using hall
            rw [hnil, hnil']
          · -- the last character that is no blank stays
            push Not at hall
            obtain ⟨d, hd, hblank⟩ := hall
            obtain ⟨xs, ys, rfl⟩ := List.append_of_mem hd
            have hblank : isSpace d = false := by simpa using hblank
            rw [← List.cons_append, rdropWhile_append_of_not_blank hblank,
              rdropWhile_append_of_not_blank hblank, List.cons_append, strip_cons_blank hc]
      | false =>
          have hsplit := rdropWhile_append_of_not_blank hc [] s
          rw [List.nil_append, List.nil_append] at hsplit
          unfold strip
          rw [hsplit, List.dropWhile_cons_of_neg (by simp [hc]),
            List.dropWhile_cons_of_neg (by simp [hc]), ← hsplit]
          exact List.rdropWhile_idempotent _ _

/-! ## Numbers -/

theorem toDigits_isDigit (n : Nat) : ∀ c ∈ Nat.toDigits 10 n, c.isDigit = true :=
  fun _ hc => Nat.isDigit_of_mem_toDigits (by decide) (by decide) hc

theorem not_mem_toDigits {c : Char} (h : c.isDigit = false) (n : Nat) :
    c ∉ Nat.toDigits 10 n := by
  intro hc
  rw [toDigits_isDigit n c hc] at h
  cases h

theorem strip_toDigits (n : Nat) : strip (Nat.toDigits 10 n) = Nat.toDigits 10 n :=
  strip_eq_self
    (fun c hc => isSpace_of_isDigit (toDigits_isDigit n c (List.mem_of_mem_head? hc)))
    (fun c hc => isSpace_of_isDigit (toDigits_isDigit n c (List.mem_of_mem_getLast? hc)))

theorem digits_toDigits (n : Nat) : digits (Nat.toDigits 10 n) = some n := by
  unfold digits
  rw [if_pos ⟨Nat.toDigits_ne_nil, List.all_eq_true.mpr (toDigits_isDigit n)⟩,
    Nat.ofDigitChars_ten_toDigits]

/-- What has been written as a number is read as this number. -/
theorem int_toDigits (n : Nat) : int (Nat.toDigits 10 n) = some (n : Int) := by
  unfold int
  rw [strip_toDigits]
  have hdigits := digits_toDigits n
  have hall := toDigits_isDigit n
  split
  · next ds heq =>
      rw [heq] at hall
      exact absurd (hall '-' List.mem_cons_self) (by decide)
  · next ds heq =>
      rw [heq] at hall
      exact absurd (hall '+' List.mem_cons_self) (by decide)
  · rw [hdigits]
    rfl

theorem int_cons_blank {c : Char} (h : isSpace c = true) (s : List Char) :
    int (c :: s) = int s := by
  unfold int
  rw [strip_cons_blank h]

/-! ## Lines -/

/-- A file of lines that all end in a newline. -/
theorem lines_flatMap (ls : List (List Char)) (h : ∀ l ∈ ls, '\n' ∉ l) :
    lines (ls.flatMap (· ++ ['\n'])) = ls := by
  have hsplit : (ls.flatMap (· ++ ['\n'])).splitOn '\n' = ls ++ [[]] := by
    induction ls with
    | nil => rfl
    | cons l ls ih =>
        rw [List.flatMap_cons, List.append_assoc, List.singleton_append,
          List.splitOn_append_cons_self_of_not_mem (h l List.mem_cons_self),
          ih fun l' hl' => h l' (List.mem_cons_of_mem l hl'), List.cons_append]
  unfold lines
  rw [hsplit, if_pos (by simp), List.dropLast_concat]

end PyText
