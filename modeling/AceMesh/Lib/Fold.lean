import Mathlib.Data.List.Basic

/-!
# Folding a step that can fail

A fallible step that succeeds as long as an invariant holds, and keeps it, can be folded
through a list. The invariant may speak of the elements that have been visited, and the step
may rely on where in the list it stands.
-/

namespace Fold

variable {σ τ α : Type*} {f : τ → α → Option τ}

theorem succeeds {J : List α → τ → Prop} {l : List α}
    (hstep : ∀ xs a, xs ++ [a] <+: l → ∀ s, J xs s → ∃ s', f s a = some s' ∧ J (xs ++ [a]) s')
    {s : τ} (hs : J [] s) : ∃ s', l.foldlM f s = some s' ∧ J l s' := by
  have hall : ∀ (rest xs : List α) (s : τ), xs ++ rest = l → J xs s →
      ∃ s', rest.foldlM f s = some s' ∧ J l s' := by
    intro rest
    induction rest with
    | nil =>
        intro xs s heq hs
        rw [List.append_nil] at heq
        exact ⟨s, rfl, heq ▸ hs⟩
    | cons a rest ih =>
        intro xs s heq hs
        rw [List.append_cons] at heq
        obtain ⟨s₁, hone, hs₁⟩ := hstep xs a ⟨rest, heq⟩ s hs
        rw [List.foldlM_cons, hone]
        exact ih (xs ++ [a]) s₁ heq hs₁
  exact hall l [] s rfl hs

theorem mem_of_initial {xs l : List α} {a : α} (h : xs ++ [a] <+: l) : a ∈ l :=
  h.subset (List.mem_append_right xs (List.mem_singleton_self a))

/-- The fallible step computes, in a part of its state, what another step computes. -/
theorem follows {g : σ → α → σ} {p : τ → σ} {J : τ → Prop} {l : List α}
    (hstep : ∀ a ∈ l, ∀ s, J s → ∃ s', f s a = some s' ∧ p s' = g (p s) a ∧ J s') {s : τ}
    (hs : J s) : ∃ s', l.foldlM f s = some s' ∧ p s' = l.foldl g (p s) ∧ J s' := by
  refine succeeds (J := fun xs s' => p s' = xs.foldl g (p s) ∧ J s') ?_ ⟨rfl, hs⟩
  rintro xs a ha s' ⟨hp, hs'⟩
  obtain ⟨s'', hone, hnext, hs''⟩ := hstep a (mem_of_initial ha) s' hs'
  refine ⟨s'', hone, ?_, hs''⟩
  rw [hnext, hp, List.foldl_append]
  rfl

end Fold
