import AceMesh.Lib.Runs

/-!
# Refinement

A system refines another one along a function of its states if, under an invariant, each of its
acts is an act of the other system or does not show there. Then each of its runs shows a run of
the other system.
-/

variable {σ α τ β : Type*}

structure Refines (act : σ → α → Option σ) (act' : τ → β → Option τ) (shown : σ → τ)
    (inv : σ → Prop) : Prop where
  keeps : ∀ {s a s'}, inv s → act s a = some s' → inv s'
  shows : ∀ {s a s'}, inv s → act s a = some s' →
    shown s' = shown s ∨ ∃ b, act' (shown s) b = some (shown s')

namespace Refines

variable {act : σ → α → Option σ} {act' : τ → β → Option τ} {shown : σ → τ} {inv : σ → Prop}
  {run : σ → List α → Option σ} {run' : τ → List β → Option τ} {s s' : σ} {acts : List α}

theorem lift (h : Refines act act' shown inv) (hrun : IsRun act run) (hrun' : IsRun act' run')
    (hs : inv s) (hacts : run s acts = some s') :
    inv s' ∧ ∃ acts', run' (shown s) acts' = some (shown s') := by
  induction acts generalizing s with
  | nil =>
      rw [hrun.nil] at hacts
      cases hacts
      exact ⟨hs, [], hrun'.nil _⟩
  | cons a acts ih =>
      rw [hrun.cons] at hacts
      obtain ⟨s₁, hone, hrest⟩ := Option.bind_eq_some_iff.mp hacts
      obtain ⟨hinv, acts', hacts'⟩ := ih (h.keeps hs hone) hrest
      refine ⟨hinv, ?_⟩
      rcases h.shows hs hone with hsame | ⟨b, hb⟩
      · rw [← hsame]
        exact ⟨acts', hacts'⟩
      · refine ⟨b :: acts', ?_⟩
        rw [hrun'.cons, hb]
        exact hacts'

end Refines
