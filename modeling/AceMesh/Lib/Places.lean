import AceMesh.Lib.Suspend

/-!
# Where the jobs are

The jobs of `Suspend` that are neither waiting nor over are somewhere: in a queue, in the hand
of a thread. `Shown` says that each of them is in exactly one of the places of a system, and
`Shown.change` and `Shown.transfer` are what a step does to one place or to two.
-/

namespace Suspend

variable {α θ π : Type*} {c : π → List (α × Stage θ)} {stage stage' : α → Stage θ}

/-- Every job that is placed is in exactly one of the places `c`, with its stage, and no other
job is in any. -/
def Shown (c : π → List (α × Stage θ)) (stage : α → Stage θ) : Prop :=
  ∀ u, ∃ p₀, ∀ p σ, (u, σ) ∈ c p ↔ (stage u).placed = true ∧ σ = stage u ∧ p = p₀

namespace Shown

section

variable (h : Shown c stage)
include h

theorem stage_eq {u : α} {σ : Stage θ} {p : π} (hu : (u, σ) ∈ c p) : stage u = σ := by
  obtain ⟨p₀, h₀⟩ := h u
  exact ((h₀ p σ).mp hu).2.1.symm

theorem placed {u : α} {σ : Stage θ} {p : π} (hu : (u, σ) ∈ c p) : σ.placed = true := by
  obtain ⟨p₀, h₀⟩ := h u
  obtain ⟨hplaced, rfl, -⟩ := (h₀ p σ).mp hu
  exact hplaced

theorem unique {u : α} {σ σ' : Stage θ} {p p' : π} (hu : (u, σ) ∈ c p) (hu' : (u, σ') ∈ c p') :
    p = p' := by
  obtain ⟨p₀, h₀⟩ := h u
  exact ((h₀ p σ).mp hu).2.2.trans ((h₀ p' σ').mp hu').2.2.symm

theorem exists_place {u : α} (hu : (stage u).placed = true) : ∃ p, (u, stage u) ∈ c p := by
  obtain ⟨p₀, h₀⟩ := h u
  exact ⟨p₀, (h₀ p₀ _).mpr ⟨hu, rfl, rfl⟩⟩

theorem existsUnique_place {u : α} (hu : (stage u).placed = true) : ∃! p, ∃ σ, (u, σ) ∈ c p := by
  obtain ⟨p, hp⟩ := h.exists_place hu
  exact ⟨p, ⟨_, hp⟩, fun p' ⟨σ, hσ⟩ => h.unique hσ hp⟩

end

/-- A job is shown once it is in one place, and in no other. -/
theorem of_place {c' : π → List (α × Stage θ)} {u : α} {σ₀ : Stage θ} (p₀ : π)
    (hplaced : σ₀.placed = true) (hmem : (u, σ₀) ∈ c' p₀)
    (honly : ∀ p σ, (u, σ) ∈ c' p → σ = σ₀ ∧ p = p₀) :
    ∃ p₀, ∀ p σ, (u, σ) ∈ c' p ↔ σ₀.placed = true ∧ σ = σ₀ ∧ p = p₀ := by
  refine ⟨p₀, fun p σ => ⟨fun h => ⟨hplaced, honly p σ h⟩, ?_⟩⟩
  rintro ⟨-, rfl, rfl⟩
  exact hmem

variable [DecidableEq π]

/-- One place changes: what was there may have another stage or be gone, and what has not
been anywhere may have come. -/
theorem change (h : Shown c stage) {p₁ : π} {l : List (α × Stage θ)}
    (hnew : ∀ u σ, (u, σ) ∈ l → σ.placed = true ∧ stage' u = σ ∧
      ((∃ σ', (u, σ') ∈ c p₁) ∨ (stage u).placed = false))
    (hgone : ∀ u σ, (u, σ) ∈ c p₁ → (∀ σ', (u, σ') ∉ l) → (stage' u).placed = false)
    (hsame : ∀ u, (∀ σ, (u, σ) ∉ c p₁) → (∀ σ, (u, σ) ∉ l) → stage' u = stage u) :
    Shown (Function.update c p₁ l) stage' := by
  intro u
  have hother : ∀ p, p ≠ p₁ → Function.update c p₁ l p = c p := fun p hp =>
    Function.update_of_ne hp ..
  have hhere : Function.update c p₁ l p₁ = l := Function.update_self ..
  by_cases hin : ∃ σ, (u, σ) ∈ l
  · obtain ⟨σ, hσ⟩ := hin
    obtain ⟨hplaced, rfl, hbefore⟩ := hnew u σ hσ
    refine of_place p₁ hplaced (by rw [hhere]; exact hσ) fun p σ' hp => ?_
    by_cases hpp : p = p₁
    · subst hpp
      rw [hhere] at hp
      exact ⟨(hnew u σ' hp).2.1.symm, rfl⟩
    · rw [hother p hpp] at hp
      obtain ⟨σ'', hσ''⟩ | hno := hbefore
      · exact absurd (h.unique hp hσ'') hpp
      · rw [← h.stage_eq hp] at hp
        exact absurd (h.placed hp) (by rw [hno]; simp)
  · push Not at hin
    by_cases hwas : ∃ σ, (u, σ) ∈ c p₁
    · obtain ⟨σ, hσ⟩ := hwas
      have hgone := hgone u σ hσ hin
      refine ⟨p₁, fun p σ' => ⟨fun hp => ?_, fun hp => absurd hp.1 (by rw [hgone]; simp)⟩⟩
      by_cases hpp : p = p₁
      · subst hpp
        rw [hhere] at hp
        exact absurd hp (hin σ')
      · rw [hother p hpp] at hp
        exact absurd (h.unique hp hσ) hpp
    · push Not at hwas
      obtain ⟨p₀, h₀⟩ := h u
      refine ⟨p₀, fun p σ => ?_⟩
      rw [hsame u hwas hin, ← h₀ p σ]
      by_cases hpp : p = p₁
      · subst hpp
        rw [hhere]
        exact iff_of_false (hin σ) (hwas σ)
      · rw [hother p hpp]

/-- A job goes from one place to another. -/
theorem transfer [DecidableEq α] (h : Shown c stage) {p₁ p₂ : π} {l₁ l₂ : List (α × Stage θ)} {t : α}
    {σ : Stage θ} (ρ : Stage θ) (hne : p₂ ≠ p₁) (hmem : (t, σ) ∈ c p₁) (hplaced : ρ.placed = true)
    (hleft : ∀ u τ, (u, τ) ∈ l₁ ↔ (u, τ) ∈ c p₁ ∧ u ≠ t)
    (hcome : ∀ u τ, (u, τ) ∈ l₂ ↔ (u, τ) ∈ c p₂ ∨ (u = t ∧ τ = ρ))
    (hself : stage' t = ρ) (hsame : ∀ u, u ≠ t → stage' u = stage u) :
    Shown (Function.update (Function.update c p₁ l₁) p₂ l₂) stage' := by
  have hthere : ∀ p τ, (t, τ) ∈ c p → p = p₁ := fun p τ hp => h.unique hp hmem
  have hc : ∀ u p τ, (u, τ) ∈ Function.update (Function.update c p₁ l₁) p₂ l₂ p ↔
      if u = t then p = p₂ ∧ τ = ρ else (u, τ) ∈ c p := by
    intro u p τ
    by_cases hp₂ : p = p₂
    · subst hp₂
      rw [Function.update_self, hcome]
      by_cases hu : u = t
      · subst hu
        have hno : (u, τ) ∉ c p := fun hp => hne (hthere p τ hp)
        simp [hno]
      · simp [hu]
    · rw [Function.update_of_ne hp₂]
      by_cases hp₁ : p = p₁
      · subst hp₁
        rw [Function.update_self, hleft]
        by_cases hu : u = t
        · simp [hu, hp₂]
        · simp [hu]
      · rw [Function.update_of_ne hp₁]
        by_cases hu : u = t
        · subst hu
          have hno : (u, τ) ∉ c p := fun hp => hp₁ (hthere p τ hp)
          simp [hno, hp₂]
        · simp [hu]
  intro u
  by_cases hu : u = t
  · subst hu
    refine ⟨p₂, fun p τ => ?_⟩
    rw [hc, if_pos rfl, hself]
    exact ⟨fun hand => ⟨hplaced, hand.2, hand.1⟩, fun hand => ⟨hand.2.2, hand.2.1⟩⟩
  · obtain ⟨p₀, h₀⟩ := h u
    refine ⟨p₀, fun p τ => ?_⟩
    rw [hc, if_neg hu, hsame u hu]
    exact h₀ p τ

end Shown

end Suspend
