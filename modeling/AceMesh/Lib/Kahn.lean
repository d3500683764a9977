import AceMesh.Lib.Release

/-!
# Listing a graph in order

Kahn's algorithm on a finite graph with counted edges: a node is ready once as many edges into
it are walked as there are (`into_eq_iff`). A list of all nodes in which each stands after its
predecessors shows that the graph is acyclic (`Topological.acyclic`), and in an acyclic graph
some unlisted node is ready (`exists_unlisted`).
-/

namespace Kahn

open Finset Relation Release

variable {α : Type*} [DecidableEq α] {nodes s : Finset α} {outs : α → List α}

/-! ## Counted edges -/

/-- The edges into `x` from the nodes of `s`. -/
def into (s : Finset α) (outs : α → List α) (x : α) : Nat := ∑ u ∈ s, (outs u).count x

theorem into_mono (h : s ⊆ nodes) (x : α) : into s outs x ≤ into nodes outs x :=
  Finset.sum_le_sum_of_subset h

theorem into_insert {u : α} (hu : u ∉ s) (x : α) :
    into (insert u s) outs x = into s outs x + (outs u).count x := by
  unfold into
  rw [Finset.sum_insert hu, Nat.add_comm]

/-- All edges into a node come from `s` exactly if all its predecessors are there. -/
theorem into_eq_iff (h : s ⊆ nodes) (x : α) :
    into s outs x = into nodes outs x ↔ ∀ u ∈ nodes, x ∈ outs u → u ∈ s := by
  have hsplit : into nodes outs x = (∑ u ∈ nodes \ s, (outs u).count x) + into s outs x :=
    (Finset.sum_sdiff h).symm
  have hrest : into s outs x = into nodes outs x ↔ ∑ u ∈ nodes \ s, (outs u).count x = 0 := by
    omega
  rw [hrest, Finset.sum_eq_zero_iff]
  constructor
  · intro hzero u hu hmem
    by_contra hout
    have hcount := hzero u (Finset.mem_sdiff.mpr ⟨hu, hout⟩)
    exact List.count_eq_zero.mp hcount hmem
  · intro hall u hu
    obtain ⟨hu, hout⟩ := Finset.mem_sdiff.mp hu
    apply List.count_eq_zero.mpr
    intro hmem
    exact hout (hall u hu hmem)

/-! ## Lists -/

/-- Every node stands after its predecessors. -/
def Topological (nodes : Finset α) (outs : α → List α) (l : List α) : Prop :=
  ∀ l₁ x l₂, l = l₁ ++ x :: l₂ → ∀ u, Edge nodes outs u x → u ∈ l₁

omit [DecidableEq α] in
theorem Topological.nil : Topological nodes outs [] := by
  intro l₁ x l₂ h
  simp at h

omit [DecidableEq α] in
theorem Topological.concat {l : List α} (h : Topological nodes outs l) {x : α}
    (hx : ∀ u, Edge nodes outs u x → u ∈ l) : Topological nodes outs (l ++ [x]) := by
  intro l₁ y l₂ heq u hu
  rcases List.eq_nil_or_concat l₂ with rfl | ⟨l₃, z, rfl⟩
  · obtain ⟨rfl, hy⟩ := List.append_inj' heq rfl
    obtain rfl : x = y := List.singleton_inj.mp hy
    exact hx u hu
  · have heq' : l ++ [x] = (l₁ ++ y :: l₃) ++ [z] := by simpa using heq
    obtain ⟨rfl, -⟩ := List.append_inj' heq' rfl
    exact h l₁ y l₃ rfl u hu

omit [DecidableEq α] in
/-- What reaches a node stands before it. -/
theorem Topological.before {l l₁ l₂ : List α} (h : Topological nodes outs l) {u x : α}
    (hl : l = l₁ ++ x :: l₂) (hux : TransGen (Edge nodes outs) u x) : u ∈ l₁ := by
  induction hux generalizing l₁ l₂ with
  | single hedge => exact h l₁ _ l₂ hl u hedge
  | @tail y x _ hedge ih =>
      obtain ⟨l₃, l₄, rfl⟩ := List.append_of_mem (h l₁ x l₂ hl y hedge)
      have hu := @ih l₃ (l₄ ++ x :: l₂) (by simp [hl])
      exact List.mem_append_left _ hu

omit [DecidableEq α] in
theorem Topological.acyclic {l : List α} (h : Topological nodes outs l)
    (hall : ∀ u ∈ nodes, u ∈ l) (u : α) : ¬TransGen (Edge nodes outs) u u := by
  intro hcycle
  obtain ⟨v, hedge, _⟩ := TransGen.head'_iff.mp hcycle
  obtain ⟨l₁, l₂, hl, hnot⟩ := List.eq_append_cons_of_mem (hall u hedge.1)
  exact hnot (h.before hl hcycle)

omit [DecidableEq α] in
/-- Of the nodes that are not yet listed one has all its predecessors listed. -/
theorem exists_unlisted (hacyclic : ∀ u, ¬TransGen (Edge nodes outs) u u) {l : List α} {u : α}
    (hu : u ∈ nodes) (hout : u ∉ l) :
    ∃ v ∈ nodes, v ∉ l ∧ ∀ w ∈ nodes, v ∈ outs w → w ∈ l := by
  refine (wellFoundedOn_edges hacyclic).induction (P := fun u => u ∉ l →
    ∃ v ∈ nodes, v ∉ l ∧ ∀ w ∈ nodes, v ∈ outs w → w ∈ l) hu ?_ hout
  intro u hu ih hout
  by_cases hready : ∀ w ∈ nodes, u ∈ outs w → w ∈ l
  · exact ⟨u, hu, hout, hready⟩
  · push Not at hready
    obtain ⟨w, hw, hmem, hout'⟩ := hready
    exact ih w hw (TransGen.single ⟨hw, hu, hmem⟩) hout'

end Kahn
