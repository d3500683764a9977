import Mathlib.Logic.Relation

/-!
# Runs

A run takes the acts of a list one after another, and fails with the first of them that fails.
What every act keeps, the run keeps; and a run is a path of the steps that its acts are.
-/

/-- `run` takes the acts of a list one after another. -/
structure IsRun {σ α : Type*} (act : σ → α → Option σ) (run : σ → List α → Option σ) : Prop where
  nil : ∀ s, run s [] = some s
  cons : ∀ s a acts, run s (a :: acts) = (act s a).bind fun s => run s acts

namespace IsRun

variable {σ α : Type*} {act : σ → α → Option σ} {run : σ → List α → Option σ}
  {s s' : σ} {acts : List α}

/-- Where a run fails with the first act that does not pass a check, the check is part of the
acts. -/
theorem checked {ok : σ → α → Prop} [∀ s a, Decidable (ok s a)] (hnil : ∀ s, run s [] = some s)
    (hcons : ∀ s a acts, run s (a :: acts) =
      if ok s a then (act s a).bind fun s => run s acts else none) :
    IsRun (fun s a => if ok s a then act s a else none) run where
  nil := hnil
  cons := by
    intro s a acts
    rw [hcons]
    split
    · rfl
    · rfl

theorem keeps (h : IsRun act run) {P : σ → Prop}
    (hact : ∀ a ∈ acts, ∀ s s', act s a = some s' → P s → P s') (hrun : run s acts = some s')
    (hs : P s) : P s' := by
  induction acts generalizing s with
  | nil =>
      rw [h.nil] at hrun
      cases hrun
      exact hs
  | cons a acts ih =>
      rw [h.cons] at hrun
      obtain ⟨s₁, hone, hrest⟩ := Option.bind_eq_some_iff.mp hrun
      apply ih _ hrest (hact a List.mem_cons_self s s₁ hone hs)
      exact fun b hb => hact b (List.mem_cons_of_mem a hb)

theorem path (h : IsRun act run) {R : σ → σ → Prop}
    (hact : ∀ s a s', act s a = some s' → R s s') (hrun : run s acts = some s') :
    Relation.ReflTransGen R s s' := by
  refine h.keeps ?_ hrun .refl
  exact fun a _ s₁ s₂ hone hpath => hpath.tail (hact s₁ a s₂ hone)

end IsRun
