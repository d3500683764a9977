import Mathlib.Order.Monotone.Basic
import Mathlib.Data.Nat.Find
import Mathlib.Tactic.Push

/-!
# Runs without end

A schedule names an act for every moment, and an act that cannot be made is passed over. A run
whose steps make progress or idle reaches its goal if it does not idle forever (`reaches`).
-/

namespace Fair

variable {σ α : Type*}

/-- The state after the first acts of a schedule. -/
def after (step : σ → α → Option σ) (s : σ) (schedule : ℕ → α) : ℕ → σ
  | 0 => s
  | n + 1 => (step (after step s schedule n) (schedule n)).getD (after step s schedule n)

section

variable {step : σ → α → Option σ} {s : σ} {schedule : ℕ → α}

theorem after_succ {n : ℕ} {s' : σ}
    (h : step (after step s schedule n) (schedule n) = some s') :
    after step s schedule (n + 1) = s' := by
  show (step _ _).getD _ = s'
  rw [h]
  rfl

end

/-- Something that happens again and again. -/
def InfinitelyOften (P : ℕ → Prop) : Prop := ∀ n, ∃ k, n ≤ k ∧ P k

/-- The first time that something happens from a moment on. -/
theorem InfinitelyOften.first {P : ℕ → Prop} (h : InfinitelyOften P) (n : ℕ) :
    ∃ k, n ≤ k ∧ P k ∧ ∀ l, n ≤ l → l < k → ¬P l := by
  classical
  refine ⟨Nat.find (h n), (Nat.find_spec (h n)).1, (Nat.find_spec (h n)).2, ?_⟩
  intro l hle hlt hbad
  exact Nat.find_min (h n) hlt ⟨hle, hbad⟩

/-- Every step leads to the goal, makes progress or idles. -/
theorem eventually {goal idle : ℕ → Prop} {weight : ℕ → ℕ}
    (hstep : ∀ n, goal n ∨ weight (n + 1) < weight n ∨ (weight (n + 1) = weight n ∧ idle n))
    (hbusy : ∀ n, ∃ k, n ≤ k ∧ (goal k ∨ ¬idle k)) : ∃ n, goal n := by
  by_contra hno
  push Not at hno
  have hle : ∀ n, weight (n + 1) ≤ weight n := by
    intro n
    rcases hstep n with hgoal | hlt | ⟨heq, -⟩
    · exact absurd hgoal (hno n)
    · exact Nat.le_of_lt hlt
    · exact Nat.le_of_eq heq
  have hanti : Antitone weight := antitone_nat_of_succ_le hle
  have hnever : ∀ w n, weight n = w → False := by
    intro w
    induction w using Nat.strongRecOn with
    | ind w ih =>
        intro n hn
        obtain ⟨k, hnk, hk⟩ := hbusy n
        have hless : weight (k + 1) < weight k := by
          rcases hstep k with hgoal | hlt | ⟨-, hidle⟩
          · exact absurd hgoal (hno k)
          · exact hlt
          · exact absurd hidle (hk.resolve_left (hno k))
        exact ih (weight (k + 1)) (hn ▸ hless.trans_le (hanti hnk)) (k + 1) rfl
  exact hnever (weight 0) 0 rfl

/-- What `P` says of a state leads to the goal `G`: each act is possible and leads to the goal or
keeps `P`, where it takes from the weight `w` or rests, and the run does not rest for ever. -/
theorem reaches {step : σ → α → Option σ} {s : σ} {schedule : ℕ → α} {P G : σ → Prop}
    {R : σ → α → σ → Prop} {w : σ → ℕ} (hs : P s)
    (hstep : ∀ s a, P s → ∃ s', step s a = some s' ∧
      (G s' ∨ P s' ∧ (w s' < w s ∨ (w s' = w s ∧ R s a s'))))
    (hbusy : (∀ n, P (after step s schedule n)) → ∀ n, ¬∀ k, n ≤ k →
      R (after step s schedule k) (schedule k) (after step s schedule (k + 1))) :
    ∃ n, G (after step s schedule (n + 1)) ∧ (∀ k, k ≤ n → P (after step s schedule k)) ∧
      ∀ k, k ≤ n → step (after step s schedule k) (schedule k) =
        some (after step s schedule (k + 1)) := by
  have hnext : ∀ n, P (after step s schedule n) →
      step (after step s schedule n) (schedule n) = some (after step s schedule (n + 1)) ∧
        (G (after step s schedule (n + 1)) ∨ P (after step s schedule (n + 1)) ∧
          (w (after step s schedule (n + 1)) < w (after step s schedule n) ∨
            (w (after step s schedule (n + 1)) = w (after step s schedule n) ∧
              R (after step s schedule n) (schedule n) (after step s schedule (n + 1))))) := by
    intro n hn
    obtain ⟨s', hs', hrest⟩ := hstep _ (schedule n) hn
    obtain rfl : after step s schedule (n + 1) = s' := after_succ hs'
    exact ⟨hs', hrest⟩
  have hgoal : ∃ n, G (after step s schedule (n + 1)) := by
    by_contra hno
    push Not at hno
    have hkeeps : ∀ n, P (after step s schedule n) := by
      intro n
      induction n with
      | zero => exact hs
      | succ n ih => exact ((hnext n ih).2.resolve_left (hno n)).1
    obtain ⟨-, hfalse⟩ := @eventually (fun _ => False)
      (fun n => R (after step s schedule n) (schedule n) (after step s schedule (n + 1)))
      (fun n => w (after step s schedule n))
      (fun n => Or.inr ((hnext n (hkeeps n)).2.resolve_left (hno n)).2) fun n => by
        by_contra hidle
        push Not at hidle
        exact hbusy hkeeps n fun k hk => (hidle k hk).2
    exact hfalse
  -- the first time that the goal is reached
  classical
  have hkeeps : ∀ k, k ≤ Nat.find hgoal → P (after step s schedule k) := by
    intro k hk
    induction k with
    | zero => exact hs
    | succ k ih =>
        have hlast := (hnext k (ih (Nat.le_of_succ_le hk))).2
        exact (hlast.resolve_left (Nat.find_min hgoal hk)).1
  exact ⟨Nat.find hgoal, Nat.find_spec hgoal, hkeeps, fun k hk => (hnext k (hkeeps k hk)).1⟩

end Fair
