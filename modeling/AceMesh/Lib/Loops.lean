import Mathlib.Algebra.BigOperators.Group.List.Basic
import Mathlib.Tactic.Ring

/-!
# Loops

`for` loops that count up or down, `while` loops, nests, and the numbers with mixed digits that a
nest counts through: a nest of loops is a single loop over the digits (`nestDown_eq`,
`nestUp_eq`). A sum of digits times strides grows with the number if each stride covers the
digits below it (`position_strictMono`).
-/

namespace Loop

variable {σ τ : Type*}

/-- `for (i = n - 1; i >= 0; i--)`. -/
def down : Nat → (Nat → σ → σ) → σ → σ
  | 0, _, s => s
  | n + 1, body, s => down n body (body n s)

/-- `for (i = 0; i < n; i++)`. -/
def up : Nat → (Nat → σ → σ) → σ → σ
  | 0, _, s => s
  | n + 1, body, s => body n (up n body s)

theorem down_congr {n : Nat} {body body' : Nat → σ → σ}
    (h : ∀ i, i < n → body i = body' i) (s : σ) : down n body s = down n body' s := by
  induction n generalizing s with
  | zero => rfl
  | succ n ih =>
      unfold down
      rw [h n (Nat.lt_succ_self n)]
      exact ih (fun i hi => h i (Nat.lt_succ_of_lt hi)) _

theorem up_congr {n : Nat} {body body' : Nat → σ → σ}
    (h : ∀ i, i < n → body i = body' i) (s : σ) : up n body s = up n body' s := by
  induction n with
  | zero => rfl
  | succ n ih =>
      unfold up
      rw [h n (Nat.lt_succ_self n), ih fun i hi => h i (Nat.lt_succ_of_lt hi)]

theorem down_add (n k : Nat) (body : Nat → σ → σ) (s : σ) :
    down (n + k) body s = down n body (down k (fun i => body (n + i)) s) := by
  induction k generalizing s with
  | zero => rfl
  | succ k ih => exact ih (body (n + k) s)

theorem up_add (n k : Nat) (body : Nat → σ → σ) (s : σ) :
    up (n + k) body s = up k (fun i => body (n + i)) (up n body s) := by
  induction k with
  | zero => rfl
  | succ k ih => exact congrArg (body (n + k)) ih

/-- Two loops are one. -/
theorem down_mul (n d : Nat) (body : Nat → σ → σ) (s : σ) :
    down (n * d) body s = down n (fun q => down d fun i => body (q * d + i)) s := by
  induction n generalizing s with
  | zero =>
      rw [Nat.zero_mul]
      rfl
  | succ n ih =>
      rw [Nat.succ_mul, down_add]
      exact ih _

theorem up_mul (n d : Nat) (body : Nat → σ → σ) (s : σ) :
    up (n * d) body s = up n (fun q => up d fun i => body (q * d + i)) s := by
  induction n with
  | zero =>
      rw [Nat.zero_mul]
      rfl
  | succ n ih =>
      rw [Nat.succ_mul, up_add, ih]
      rfl

/-- A loop seen through a map of the states. -/
theorem down_hom {f : σ → τ} {body : Nat → σ → σ} {body' : Nat → τ → τ}
    (h : ∀ i s, f (body i s) = body' i (f s)) (n : Nat) (s : σ) :
    f (down n body s) = down n body' (f s) := by
  induction n generalizing s with
  | zero => rfl
  | succ n ih =>
      unfold down
      rw [ih, h]

theorem up_hom {f : σ → τ} {body : Nat → σ → σ} {body' : Nat → τ → τ}
    (h : ∀ i s, f (body i s) = body' i (f s)) (n : Nat) (s : σ) :
    f (up n body s) = up n body' (f s) := by
  induction n with
  | zero => rfl
  | succ n ih =>
      unfold up
      rw [h, ih]

/-! ## Bodies that may fail -/

/-- A loop whose body has a result in every turn. -/
theorem down_some {n : Nat} {f : Nat → σ → Option σ} {g : Nat → σ → σ}
    (h : ∀ i, i < n → ∀ s, f i s = some (g i s)) (s : σ) :
    down n (fun i s => s.bind (f i)) (some s) = some (down n g s) := by
  induction n generalizing s with
  | zero => rfl
  | succ n ih =>
      unfold down
      dsimp only
      rw [Option.bind_some, h n (Nat.lt_succ_self n)]
      exact ih (fun i hi => h i (Nat.lt_succ_of_lt hi)) (g n s)

theorem up_some {n : Nat} {f : Nat → σ → Option σ} {g : Nat → σ → σ}
    (h : ∀ i, i < n → ∀ s, f i s = some (g i s)) (s : σ) :
    up n (fun i s => s.bind (f i)) (some s) = some (up n g s) := by
  induction n with
  | zero => rfl
  | succ n ih =>
      unfold up
      rw [ih fun i hi => h i (Nat.lt_succ_of_lt hi)]
      exact h n (Nat.lt_succ_self n) (up n g s)

theorem down_none (n : Nat) (f : Nat → σ → Option σ) :
    down n (fun i s => s.bind (f i)) none = none := by
  induction n with
  | zero => rfl
  | succ n ih => exact ih

/-- A loop with a result has one in its first turn, the one for `n`. -/
theorem of_down_some {n : Nat} {f : Nat → σ → Option σ} {s t : σ}
    (h : down (n + 1) (fun i s => s.bind (f i)) (some s) = some t) : ∃ s', f n s = some s' := by
  apply Option.ne_none_iff_exists'.mp
  intro hnone
  unfold down at h
  dsimp only at h
  rw [Option.bind_some, hnone, down_none] at h
  cases h

/-- `while (cond) body`, for `fuel` turns at most. A body without a result ends the loop without
one. -/
def whileLoop (cond : σ → Bool) (body : σ → Option σ) : Nat → σ → Option σ
  | 0, s => if cond s then none else some s
  | fuel + 1, s => if cond s then (body s).bind fun s => whileLoop cond body fuel s else some s

/-- A loop that goes through `s 0`, `s 1`, … and first fails its condition at `s n`. -/
theorem while_eq {cond : σ → Bool} {body : σ → Option σ} {s : Nat → σ} {n k fuel : Nat}
    (hbody : ∀ k, k < n → body (s k) = some (s (k + 1)))
    (hturn : ∀ k, k < n → cond (s k) = true) (hend : cond (s n) = false) (hk : k ≤ n)
    (hfuel : n ≤ fuel + k) : whileLoop cond body fuel (s k) = some (s n) := by
  have hstop : ¬cond (s n) = true := by
    rw [hend]
    exact Bool.false_ne_true
  induction fuel generalizing k with
  | zero =>
      obtain rfl : k = n := by omega
      exact if_neg hstop
  | succ fuel ih =>
      unfold whileLoop
      rcases Nat.lt_or_eq_of_le hk with hlt | rfl
      · rw [if_pos (hturn k hlt), hbody k hlt, Option.bind_some]
        exact ih hlt (by omega)
      · exact if_neg hstop

/-- What each turn preserves holds when the loop ends. -/
theorem while_rule {cond : σ → Bool} {body : σ → Option σ} {I : Nat → σ → Prop}
    (hturn : ∀ k s s', I k s → cond s = true → body s = some s' → I (k + 1) s')
    {k fuel : Nat} {s s' : σ} (hinv : I k s) (h : whileLoop cond body fuel s = some s') :
    ∃ n, I n s' ∧ cond s' = false := by
  induction fuel generalizing k s with
  | zero =>
      obtain ⟨hcond, hs⟩ := Option.ite_none_left_eq_some.mp h
      cases hs
      exact ⟨k, hinv, Bool.eq_false_of_not_eq_true hcond⟩
  | succ fuel ih =>
      unfold whileLoop at h
      by_cases hcond : cond s = true
      · rw [if_pos hcond] at h
        obtain ⟨s₁, hs₁, hrest⟩ := Option.bind_eq_some_iff.mp h
        exact ih (hturn k s s₁ hinv hcond hs₁) hrest
      · rw [if_neg hcond] at h
        cases h
        exact ⟨k, hinv, Bool.eq_false_of_not_eq_true hcond⟩

/-- `do body while (cond)`, for `fuel` turns at most. A body without a result ends the loop
without one. -/
def doWhile (cond : σ → Bool) (body : σ → Option σ) : Nat → σ → Option σ
  | 0, _ => none
  | fuel + 1, s => (body s).bind fun s => if cond s then doWhile cond body fuel s else some s

/-- A loop that goes through `s 0`, `s 1`, … and first fails its condition at `s n`. -/
theorem doWhile_eq {cond : σ → Bool} {body : σ → Option σ} {s : Nat → σ} {n k fuel : Nat}
    (hbody : ∀ k, k < n → body (s k) = some (s (k + 1)))
    (hturn : ∀ k, 0 < k → k < n → cond (s k) = true) (hend : cond (s n) = false) (hk : k < n)
    (hfuel : n ≤ fuel + k) : doWhile cond body fuel (s k) = some (s n) := by
  induction fuel generalizing k with
  | zero => omega
  | succ fuel ih =>
      unfold doWhile
      rw [hbody k hk, Option.bind_some]
      by_cases hlast : k + 1 = n
      · rw [hlast, if_neg (by rw [hend]; exact Bool.false_ne_true)]
      · rw [if_pos (hturn (k + 1) (Nat.succ_pos k) (by omega))]
        exact ih (by omega) (by omega)

/-- What each turn preserves and counts holds when the loop ends. -/
theorem doWhile_rule {cond : σ → Bool} {body : σ → Option σ} {I : Nat → σ → Prop}
    (hturn : ∀ k s s', I k s → (k = 0 ∨ cond s = true) → body s = some s' → I (k + 1) s')
    {k fuel : Nat} {s s' : σ} (hinv : I k s) (hstart : k = 0 ∨ cond s = true)
    (h : doWhile cond body fuel s = some s') : ∃ n, k < n ∧ I n s' ∧ cond s' = false := by
  induction fuel generalizing k s with
  | zero => cases h
  | succ fuel ih =>
      obtain ⟨s₁, hs₁, hrest⟩ := Option.bind_eq_some_iff.mp h
      have hinv₁ := hturn k s s₁ hinv hstart hs₁
      by_cases hcond : cond s₁ = true
      · rw [if_pos hcond] at hrest
        obtain ⟨n, hkn, hn⟩ := ih hinv₁ (Or.inr hcond) hrest
        exact ⟨n, by omega, hn⟩
      · rw [if_neg hcond] at hrest
        cases hrest
        exact ⟨k + 1, Nat.lt_succ_self k, hinv₁, Bool.eq_false_of_not_eq_true hcond⟩

/-! ## Nests -/

/-- Loops that count down, the innermost one first; `body` takes the counters in this order. -/
def nestDown : List Nat → (List Nat → σ → σ) → σ → σ
  | [], body => body []
  | d :: ds, body => nestDown ds fun x => down d fun i => body (i :: x)

/-- Loops that count up. -/
def nestUp : List Nat → (List Nat → σ → σ) → σ → σ
  | [], body => body []
  | d :: ds, body => nestUp ds fun x => up d fun i => body (i :: x)

/-- The digits of a number, the lowest first. -/
def digits : List Nat → Nat → List Nat
  | [], _ => []
  | d :: ds, p => p % d :: digits ds (p / d)

theorem digits_mul_add {d i : Nat} (hi : i < d) (ds : List Nat) (q : Nat) :
    digits (d :: ds) (q * d + i) = i :: digits ds q := by
  change (q * d + i) % d :: digits ds ((q * d + i) / d) = _
  rw [Nat.mul_comm q d, Nat.mul_add_mod, Nat.mod_eq_of_lt hi, Nat.mul_add_div (by omega),
    Nat.div_eq_of_lt hi, Nat.add_zero]

theorem nestDown_eq (ds : List Nat) (body : List Nat → σ → σ) (s : σ) :
    nestDown ds body s = down ds.prod (fun p => body (digits ds p)) s := by
  induction ds generalizing body s with
  | nil => rfl
  | cons d ds ih =>
      unfold nestDown
      rw [ih, List.prod_cons, Nat.mul_comm, down_mul]
      refine down_congr (fun q _ => funext fun s => down_congr (fun i hi => ?_) s) s
      rw [digits_mul_add hi]

theorem nestUp_eq (ds : List Nat) (body : List Nat → σ → σ) (s : σ) :
    nestUp ds body s = up ds.prod (fun p => body (digits ds p)) s := by
  induction ds generalizing body s with
  | nil => rfl
  | cons d ds ih =>
      unfold nestUp
      rw [ih, List.prod_cons, Nat.mul_comm, up_mul]
      refine up_congr (fun q _ => funext fun s => up_congr (fun i hi => ?_) s) s
      rw [digits_mul_add hi]

/-- The digits of a number whose last digit is not bounded: what counters show that carry
into each other. -/
def counters : List Nat → Nat → List Nat
  | [], _ => []
  | [_], p => [p]
  | d :: d' :: ds, p => p % d :: counters (d' :: ds) (p / d)

theorem counters_eq {ds : List Nat} {p : Nat} (hp : p < ds.prod) :
    counters ds p = digits ds p := by
  induction ds generalizing p with
  | nil => rfl
  | cons d ds ih =>
      rw [List.prod_cons] at hp
      cases ds with
      | nil =>
          rw [List.prod_nil, Nat.mul_one] at hp
          change [p] = [p % d]
          rw [Nat.mod_eq_of_lt hp]
      | cons d' ds => exact congrArg (p % d :: ·) (ih (Nat.div_lt_of_lt_mul hp))

theorem length_counters (ds : List Nat) (p : Nat) : (counters ds p).length = ds.length := by
  induction ds generalizing p with
  | nil => rfl
  | cons d ds ih =>
      cases ds with
      | nil => rfl
      | cons d' ds => exact congrArg Nat.succ (ih (p / d))

/-- The last counter has not reached its limit as long as the number is a position. -/
theorem counters_last_lt_iff {d : Nat} {ds : List Nat} (hpos : ∀ d' ∈ d :: ds, 0 < d') {p : Nat} :
    (counters (d :: ds) p).getD ds.length 0 < (d :: ds).getD ds.length 0 ↔
      p < (d :: ds).prod := by
  induction ds generalizing d p with
  | nil => simp [counters]
  | cons d' ds ih =>
      rw [List.prod_cons, Nat.mul_comm, ← Nat.div_lt_iff_lt_mul (hpos d List.mem_cons_self)]
      exact ih fun e he => hpos e (List.mem_cons_of_mem d he)

theorem counters_zero (ds : List Nat) : counters ds 0 = List.replicate ds.length 0 := by
  induction ds with
  | nil => rfl
  | cons d ds ih =>
      cases ds with
      | nil => rfl
      | cons d' ds =>
          unfold counters
          rw [Nat.zero_mod, Nat.zero_div, ih]
          rfl

/-! ## Positions -/

/-- The counters of a nest. -/
def InBox (x ds : List Nat) : Prop := List.Forall₂ (· < ·) x ds

/-- `x[0] * stride[0] + x[1] * stride[1] + …`. -/
def position (stride : Nat → Nat) : List Nat → Nat
  | [] => 0
  | i :: x => i * stride 0 + position (fun n => stride (n + 1)) x

/-- The strides of the box `ds` in which the first counter runs fastest. -/
def boxStride (ds : List Nat) (i : Nat) : Nat := (ds.take i).prod

theorem position_smul (c : Nat) (stride : Nat → Nat) (x : List Nat) :
    position (fun n => c * stride n) x = c * position stride x := by
  induction x generalizing stride with
  | nil => rfl
  | cons i x ih =>
      unfold position
      rw [ih, Nat.mul_add, Nat.mul_left_comm]

theorem position_boxStride (d : Nat) (ds : List Nat) (i : Nat) (x : List Nat) :
    position (boxStride (d :: ds)) (i :: x) = i + d * position (boxStride ds) x := by
  rw [← position_smul]
  change i * 1 + position (fun n => ((d :: ds).take (n + 1)).prod) x = _
  rw [Nat.mul_one]
  rfl

/-- A number is the position of its digits. -/
theorem position_digits {ds : List Nat} {p : Nat} (hp : p < ds.prod) :
    position (boxStride ds) (digits ds p) = p := by
  induction ds generalizing p with
  | nil =>
      rw [List.prod_nil] at hp
      obtain rfl : p = 0 := by omega
      rfl
  | cons d ds ih =>
      rw [List.prod_cons] at hp
      unfold digits
      rw [position_boxStride, ih (Nat.div_lt_of_lt_mul hp), Nat.mod_add_div]

theorem digits_inBox {ds : List Nat} {p : Nat} (hp : p < ds.prod) : InBox (digits ds p) ds := by
  induction ds generalizing p with
  | nil => exact List.Forall₂.nil
  | cons d ds ih =>
      rw [List.prod_cons] at hp
      have hd : 0 < d := Nat.pos_of_mul_pos_right (Nat.lt_of_le_of_lt (Nat.zero_le p) hp)
      exact List.Forall₂.cons (Nat.mod_lt p hd) (ih (Nat.div_lt_of_lt_mul hp))

/-- The counters of a nest are the digits of a number. -/
theorem exists_digits {x ds : List Nat} (hx : InBox x ds) :
    ∃ p, p < ds.prod ∧ digits ds p = x := by
  induction hx with
  | nil => exact ⟨0, by simp, rfl⟩
  | @cons i d x ds hi _ ih =>
      obtain ⟨q, hq, hdigits⟩ := ih
      refine ⟨q * d + i, ?_, ?_⟩
      · rw [List.prod_cons]
        have hle : (q + 1) * d ≤ ds.prod * d := Nat.mul_le_mul_right d hq
        rw [Nat.add_mul, Nat.one_mul] at hle
        rw [Nat.mul_comm d]
        omega
      · rw [digits_mul_add hi, hdigits]

theorem position_mono {stride stride' : Nat → Nat} {x : List Nat}
    (h : ∀ i, i < x.length → stride i ≤ stride' i) : position stride x ≤ position stride' x := by
  induction x generalizing stride stride' with
  | nil => exact Nat.le_refl 0
  | cons i x ih =>
      unfold position
      apply Nat.add_le_add
      · exact Nat.mul_le_mul_left i (h 0 (by simp))
      · exact ih fun n hn => h (n + 1) (by simpa using hn)

/-- Where every stride covers the digits below it, positions grow with the number, by the first
stride at least. -/
theorem position_strictMono {ds : List Nat} {stride : Nat → Nat}
    (h : ∀ i (hi : i < ds.length), stride i * ds[i] ≤ stride (i + 1)) {p q : Nat} (hpq : p < q)
    (hq : q < ds.prod) :
    position stride (digits ds p) + stride 0 ≤ position stride (digits ds q) := by
  induction ds generalizing stride p q with
  | nil =>
      rw [List.prod_nil] at hq
      omega
  | cons d ds ih =>
      rw [List.prod_cons] at hq
      have hd : 0 < d := Nat.pos_of_mul_pos_right (Nat.lt_of_le_of_lt (Nat.zero_le q) hq)
      have hp' := Nat.mod_add_div p d
      have hq' := Nat.mod_add_div q d
      unfold digits position
      rcases Nat.lt_or_ge (p / d) (q / d) with hlt | hge
      · -- a higher digit grows
        have htail := ih (fun i hi => h (i + 1) (by simpa using hi)) hlt (Nat.div_lt_of_lt_mul hq)
        have hcover : stride 0 * d ≤ stride (0 + 1) := h 0 (by simp)
        have hdigit : (p % d + 1) * stride 0 ≤ d * stride 0 :=
          Nat.mul_le_mul_right _ (Nat.mod_lt p hd)
        rw [Nat.add_mul, Nat.one_mul, Nat.mul_comm d] at hdigit
        omega
      · -- only the first digit grows
        have hsame : p / d = q / d := Nat.le_antisymm (Nat.div_le_div_right hpq.le) hge
        have hdigit : (p % d + 1) * stride 0 ≤ q % d * stride 0 := by
          apply Nat.mul_le_mul_right
          rw [hsame] at hp'
          omega
        rw [Nat.add_mul, Nat.one_mul] at hdigit
        rw [hsame]
        omega

end Loop
