import AceMesh.Lib.Runs
import Mathlib.Logic.Function.Basic

/-!
# Atomic objects

An object with operations `κ` and results `ρ` that `n` threads use. A thread calls an operation;
at one moment after that the operation takes effect as a whole and its result is settled. A data
structure that refines an atomic object is linearizable: whatever its threads do to it at the
same time, their results are those of calls that took effect one after another.
-/

variable {σ κ ρ : Type*} {n : Nat}

/-- Where a thread stands with an atomic object. -/
inductive Called (κ ρ : Type*)
  | ready
  | called (c : κ)
  | done (r : ρ)

structure Atomic (σ κ ρ : Type*) (n : Nat) where
  object : σ
  status : Fin n → Called κ ρ

inductive AtomicAct (κ : Type*) (n : Nat)
  | call (i : Fin n) (c : κ)
  | effect (i : Fin n)

namespace Atomic

def start (object : σ) : Atomic σ κ ρ n where
  object := object
  status := fun _ => .ready

def act (apply : σ → κ → σ × ρ) (s : Atomic σ κ ρ n) :
    AtomicAct κ n → Option (Atomic σ κ ρ n)
  | .call i c =>
    match s.status i with
    | .called _ => none
    | _ => some { s with status := Function.update s.status i (.called c) }
  | .effect i =>
    match s.status i with
    | .called c => some
        { object := (apply s.object c).1
          status := Function.update s.status i (.done (apply s.object c).2) }
    | _ => none

def run (apply : σ → κ → σ × ρ) (s : Atomic σ κ ρ n) :
    List (AtomicAct κ n) → Option (Atomic σ κ ρ n)
  | [] => some s
  | a :: acts => (s.act apply a).bind fun s => s.run apply acts

theorem isRun_run (apply : σ → κ → σ × ρ) :
    IsRun (act apply) (run apply : Atomic σ κ ρ n → _ → _) :=
  ⟨fun _ => rfl, fun _ _ _ => rfl⟩

variable {apply : σ → κ → σ × ρ} {s : Atomic σ κ ρ n} {i : Fin n} {c : κ}

theorem act_call (h : ∀ c, s.status i ≠ .called c) :
    s.act apply (.call i c) = some { s with status := Function.update s.status i (.called c) } := by
  cases hi : s.status i with
  | called c' => exact absurd hi (h c')
  | ready => simp only [act, hi]
  | done r => simp only [act, hi]

theorem act_effect (h : s.status i = .called c) :
    s.act apply (.effect i) = some
      { object := (apply s.object c).1
        status := Function.update s.status i (.done (apply s.object c).2) } := by
  simp only [act, h]

end Atomic
