import Mathlib.Data.Set.Insert
import Mathlib.Logic.Relation

/-!
# Colouring the components of a growing graph

A graph grows by nodes and edges, and a colour is kept for every node. `Colored` says that
two nodes have one colour if and only if they are connected, edge directions ignored. A new
node comes with a new colour (`isolated`) or with one edge and the colour at its other end
(`attach`); an edge between two old nodes lets their colours become one (`join`).
-/

open Relation

variable {α κ : Type*}

structure Colored (dom : Set α) (edge : α → α → Prop) (color : α → κ) : Prop where
  within : ∀ u v, edge u v → u ∈ dom ∧ v ∈ dom
  sound : ∀ u v, edge u v → color u = color v
  complete : ∀ u ∈ dom, ∀ v ∈ dom, color u = color v → EqvGen edge u v

namespace Colored

variable {dom : Set α} {edge edge' : α → α → Prop} {color color' : α → κ}

theorem eq_of_eqvGen (h : Colored dom edge color) {u v : α} (huv : EqvGen edge u v) :
    color u = color v := by
  induction huv with
  | rel u v he => exact h.sound u v he
  | refl u => rfl
  | symm u v _ ih => exact ih.symm
  | trans u v w _ _ ih₁ ih₂ => exact ih₁.trans ih₂

theorem iff_eqvGen (h : Colored dom edge color) {u v : α} (hu : u ∈ dom) (hv : v ∈ dom) :
    color u = color v ↔ EqvGen edge u v :=
  ⟨h.complete u hu v hv, h.eq_of_eqvGen⟩

theorem empty (color : α → κ) (hnone : ∀ u v, ¬ edge u v) : Colored ∅ edge color where
  within := fun u v he => absurd he (hnone u v)
  sound := fun u v he => absurd he (hnone u v)
  complete := fun u hu => absurd hu (Set.notMem_empty u)

/-- Other edges and colours that are the same on the domain. -/
theorem congr (h : Colored dom edge color) (hedge : ∀ u v, edge' u v ↔ edge u v)
    (hcolor : ∀ u ∈ dom, color' u = color u) : Colored dom edge' color' := by
  have heq : edge' = edge := by
    ext u v
    exact hedge u v
  subst heq
  refine ⟨h.within, fun u v he => ?_, fun u hu v hv huv => ?_⟩
  · obtain ⟨hu, hv⟩ := h.within u v he
    rw [hcolor u hu, hcolor v hv]
    exact h.sound u v he
  · rw [hcolor u hu, hcolor v hv] at huv
    exact h.complete u hu v hv huv

/-- A new node without edges, in a new colour. -/
theorem isolated (h : Colored dom edge color) {t : α} (ht : ∀ u ∈ dom, color u ≠ color t) :
    Colored (insert t dom) edge color := by
  refine ⟨fun u v he => ?_, h.sound, ?_⟩
  · obtain ⟨hu, hv⟩ := h.within u v he
    exact ⟨Set.mem_insert_of_mem t hu, Set.mem_insert_of_mem t hv⟩
  · rintro u (rfl | hu) v (rfl | hv) huv
    · exact EqvGen.refl _
    · exact absurd huv.symm (ht v hv)
    · exact absurd huv (ht u hu)
    · exact h.complete u hu v hv huv

/-- A new node with an edge from an old one, in the colour of the old one. -/
theorem attach (h : Colored dom edge color) {s t : α} (hs : s ∈ dom) (hcolor : color t = color s)
    (hedge : ∀ u v, edge' u v ↔ edge u v ∨ (u = s ∧ v = t)) :
    Colored (insert t dom) edge' color := by
  have hmono : ∀ {u v}, EqvGen edge u v → EqvGen edge' u v := fun huv =>
    huv.mono fun x y he => (hedge x y).mpr (Or.inl he)
  have hst : EqvGen edge' s t := EqvGen.rel s t ((hedge s t).mpr (Or.inr ⟨rfl, rfl⟩))
  refine ⟨fun u v he => ?_, fun u v he => ?_, ?_⟩
  · rcases (hedge u v).mp he with he | ⟨rfl, rfl⟩
    · obtain ⟨hu, hv⟩ := h.within u v he
      exact ⟨Set.mem_insert_of_mem t hu, Set.mem_insert_of_mem t hv⟩
    · exact ⟨Set.mem_insert_of_mem v hs, Set.mem_insert v dom⟩
  · rcases (hedge u v).mp he with he | ⟨rfl, rfl⟩
    · exact h.sound u v he
    · exact hcolor.symm
  · rintro u (rfl | hu) v (rfl | hv) huv
    · exact EqvGen.refl _
    · exact (hst.symm).trans _ _ _ (hmono (h.complete s hs v hv (hcolor.symm.trans huv)))
    · exact (hmono (h.complete u hu s hs (huv.trans hcolor))).trans _ _ _ hst
    · exact hmono (h.complete u hu v hv huv)

/-- An edge between two nodes, whose colours become one of the two. -/
theorem join (h : Colored dom edge color) {s t : α} (hs : s ∈ dom) (ht : t ∈ dom) {c : κ}
    (hc : c = color s ∨ c = color t) (hold : ∀ z, color z ≠ color s → color z ≠ color t →
      color' z = color z) (hnew : ∀ z, color z = color s ∨ color z = color t → color' z = c)
    (hedge : ∀ u v, edge' u v ↔ edge u v ∨ (u = s ∧ v = t)) :
    Colored dom edge' color' := by
  have hmono : ∀ {u v}, EqvGen edge u v → EqvGen edge' u v := fun huv =>
    huv.mono fun x y he => (hedge x y).mpr (Or.inl he)
  have hst : EqvGen edge' s t := EqvGen.rel s t ((hedge s t).mpr (Or.inr ⟨rfl, rfl⟩))
  have hclass : ∀ z ∈ dom, color z = color s ∨ color z = color t → EqvGen edge' z s := by
    rintro z hz (hzs | hzt)
    · exact hmono (h.complete z hz s hs hzs)
    · exact (hmono (h.complete z hz t ht hzt)).trans _ _ _ hst.symm
  have hcolor : ∀ z, (color z = color s ∨ color z = color t) ∧ color' z = c ∨
      (color z ≠ color s ∧ color z ≠ color t ∧ color z ≠ c) ∧ color' z = color z := by
    intro z
    by_cases hz : color z = color s ∨ color z = color t
    · exact Or.inl ⟨hz, hnew z hz⟩
    · push Not at hz
      refine Or.inr ⟨⟨hz.1, hz.2, ?_⟩, hold z hz.1 hz.2⟩
      rcases hc with rfl | rfl
      · exact hz.1
      · exact hz.2
  refine ⟨fun u v he => ?_, fun u v he => ?_, fun u hu v hv huv => ?_⟩
  · rcases (hedge u v).mp he with he | ⟨rfl, rfl⟩
    · exact h.within u v he
    · exact ⟨hs, ht⟩
  · rcases (hedge u v).mp he with he | ⟨rfl, rfl⟩
    · have hsame := h.sound u v he
      by_cases hu : color u = color s ∨ color u = color t
      · rw [hnew u hu, hnew v (hsame ▸ hu)]
      · push Not at hu
        rw [hold u hu.1 hu.2, hold v (hsame ▸ hu.1) (hsame ▸ hu.2), hsame]
    · rw [hnew u (Or.inl rfl), hnew v (Or.inr rfl)]
  · rcases hcolor u with ⟨hcu, heu⟩ | ⟨⟨-, -, hcu⟩, heu⟩
    · rcases hcolor v with ⟨hcv, -⟩ | ⟨⟨-, -, hcv⟩, hev⟩
      · exact (hclass u hu hcu).trans _ _ _ (hclass v hv hcv).symm
      · exact absurd ((hev.symm.trans huv.symm).trans heu) hcv
    · rcases hcolor v with ⟨-, hev⟩ | ⟨-, hev⟩
      · exact absurd ((heu.symm.trans huv).trans hev) hcu
      · exact hmono (h.complete u hu v hv ((heu.symm.trans huv).trans hev))

end Colored
