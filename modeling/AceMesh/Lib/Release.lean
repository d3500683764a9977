import Mathlib.Algebra.BigOperators.Group.Finset.Piecewise
import Mathlib.Algebra.Order.BigOperators.Group.Finset
import Mathlib.Logic.Relation
import Mathlib.Order.WellFoundedSet

/-!
# Releasing a finite graph by counting

A node of a finite acyclic graph walks its list of outgoing edges one after the other;
`done u` says how many it has walked. A node is released when no edge into it is left to
walk (`pending`). This file has the two facts a counting scheduler rests on:

* `exists_ready_over`: over a node with edges left, some node with edges left is released,
  so the walk never gets stuck;
* `complete_of_pending_out`: once no edge out of the graph is left, no edge at all is left.

`Dag` is the case of one common sink, which then detects the end of the whole walk.
-/

namespace Release

open Finset Relation

variable {α : Type*} [DecidableEq α]

/-- The edges into `x` that are still to be walked. -/
def pending (nodes : Finset α) (outs : α → List α) (done : α → Nat) (x : α) : Nat :=
  ∑ u ∈ nodes, ((outs u).drop (done u)).count x

/-- An edge between two nodes. -/
def Edge (nodes : Finset α) (outs : α → List α) (u v : α) : Prop :=
  u ∈ nodes ∧ v ∈ nodes ∧ v ∈ outs u

/-- A finite acyclic graph in which every node without a successor node has an edge to a
common sink outside the graph. -/
structure Dag (nodes : Finset α) (outs : α → List α) (sink : α) : Prop where
  acyclic : ∀ u, ¬ TransGen (Edge nodes outs) u u
  outs_mem : ∀ u ∈ nodes, ∀ x ∈ outs u, x ∈ nodes ∨ x = sink
  sink_of_last : ∀ u ∈ nodes, (∀ x ∈ nodes, x ∉ outs u) → sink ∈ outs u
  sink_notMem : sink ∉ nodes

/-! ## Counting -/

theorem pending_eq_zero_iff {nodes : Finset α} {outs : α → List α} {done : α → Nat} {x : α} :
    pending nodes outs done x = 0 ↔ ∀ u ∈ nodes, x ∉ (outs u).drop (done u) := by
  simp only [pending, Finset.sum_eq_zero_iff, List.count_eq_zero]

theorem pending_zero (nodes : Finset α) (outs : α → List α) (x : α) :
    pending nodes outs (fun _ => 0) x = ∑ u ∈ nodes, (outs u).count x := by
  simp [pending]

theorem pending_congr {nodes : Finset α} {outs outs' : α → List α} {done done' : α → Nat}
    (ho : ∀ u ∈ nodes, outs u = outs' u) (hd : ∀ u ∈ nodes, done u = done' u) (x : α) :
    pending nodes outs done x = pending nodes outs' done' x := by
  unfold pending
  refine Finset.sum_congr rfl fun u hu => ?_
  rw [ho u hu, hd u hu]

/-- Walking one edge takes it out of the count of its target, and of no other. -/
theorem pending_walk {nodes : Finset α} {outs : α → List α} {done : α → Nat} {u x : α}
    (hu : u ∈ nodes) (hx : (outs u)[done u]? = some x) (y : α) :
    pending nodes outs done y =
      pending nodes outs (Function.update done u (done u + 1)) y + if y = x then 1 else 0 := by
  obtain ⟨hlt, hget⟩ := List.getElem?_eq_some_iff.mp hx
  have hhead : ((outs u).drop (done u)).count y =
      ((outs u).drop (done u + 1)).count y + if y = x then 1 else 0 := by
    rw [List.drop_eq_getElem_cons hlt, List.count_cons, hget]
    by_cases hxy : x = y
    · simp [hxy]
    · simp [hxy, Ne.symm hxy]
  have hrest : ∑ v ∈ nodes \ {u}, ((outs v).drop (done v)).count y =
      ∑ v ∈ nodes \ {u},
        ((outs v).drop (Function.update done u (done u + 1) v)).count y := by
    refine Finset.sum_congr rfl fun v hv => ?_
    have hne : v ≠ u := by simpa using (Finset.mem_sdiff.mp hv).2
    rw [Function.update_of_ne hne]
  unfold pending
  rw [← Finset.sum_sdiff (Finset.singleton_subset_iff.mpr hu),
    ← Finset.sum_sdiff (Finset.singleton_subset_iff.mpr hu), hrest]
  simp only [Finset.sum_singleton, Function.update_self]
  omega

theorem pending_pos_of_next {nodes : Finset α} {outs : α → List α} {done : α → Nat} {u x : α}
    (hu : u ∈ nodes) (hx : (outs u)[done u]? = some x) : 0 < pending nodes outs done x := by
  rw [pending_walk hu hx x]
  simp

/-- Walking on only takes edges out of the count. -/
theorem pending_anti {nodes : Finset α} {outs : α → List α}
    {done done' : α → Nat} (hle : ∀ u, done u ≤ done' u) (x : α) :
    pending nodes outs done' x ≤ pending nodes outs done x :=
  Finset.sum_le_sum fun u _ =>
    (List.drop_sublist_drop_left (outs u) (hle u)).count_le x

/-! ## Finite acyclic graphs -/

section Acyclic

variable {nodes : Finset α} {outs : α → List α} (hacyclic : ∀ u, ¬ TransGen (Edge nodes outs) u u)
include hacyclic

omit [DecidableEq α] in
theorem wellFoundedOn_edges : (nodes : Set α).WellFoundedOn (TransGen (Edge nodes outs)) := by
  have : IsStrictOrder α (TransGen (Edge nodes outs)) :=
    { irrefl := hacyclic, trans := fun _ _ _ => TransGen.trans }
  exact nodes.finite_toSet.wellFoundedOn

omit [DecidableEq α] in
theorem wellFoundedOn_edges_swap :
    (nodes : Set α).WellFoundedOn (fun u v => TransGen (Edge nodes outs) v u) := by
  have : IsStrictOrder α (fun u v => TransGen (Edge nodes outs) v u) :=
    { irrefl := hacyclic, trans := fun _ _ _ huv hvw => TransGen.trans hvw huv }
  exact nodes.finite_toSet.wellFoundedOn

omit [DecidableEq α] in
/-- Every node is under one without a predecessor. -/
theorem exists_first {u : α} (hu : u ∈ nodes) :
    ∃ v ∈ nodes, (∀ w ∈ nodes, v ∉ outs w) ∧ ReflTransGen (Edge nodes outs) v u := by
  refine (wellFoundedOn_edges hacyclic).induction (P := fun u => ∃ v ∈ nodes,
    (∀ w ∈ nodes, v ∉ outs w) ∧ ReflTransGen (Edge nodes outs) v u) hu ?_
  intro u hu ih
  by_cases hfirst : ∀ w ∈ nodes, u ∉ outs w
  · exact ⟨u, hu, hfirst, ReflTransGen.refl⟩
  · push Not at hfirst
    obtain ⟨w, hw, hmem⟩ := hfirst
    obtain ⟨v, hv, hno, hreach⟩ := ih w hw (TransGen.single ⟨hw, hu, hmem⟩)
    exact ⟨v, hv, hno, hreach.tail ⟨hw, hu, hmem⟩⟩

omit [DecidableEq α] in
/-- Every node is over one without a successor. -/
theorem exists_last {u : α} (hu : u ∈ nodes) :
    ∃ v ∈ nodes, (∀ x ∈ nodes, x ∉ outs v) ∧ ReflTransGen (Edge nodes outs) u v := by
  refine (wellFoundedOn_edges_swap hacyclic).induction (P := fun u => ∃ v ∈ nodes,
    (∀ x ∈ nodes, x ∉ outs v) ∧ ReflTransGen (Edge nodes outs) u v) hu ?_
  intro u hu ih
  by_cases hlast : ∀ x ∈ nodes, x ∉ outs u
  · exact ⟨u, hu, hlast, ReflTransGen.refl⟩
  · push Not at hlast
    obtain ⟨x, hx, hmem⟩ := hlast
    obtain ⟨v, hv, hno, hreach⟩ := ih x hx (TransGen.single ⟨hu, hx, hmem⟩)
    exact ⟨v, hv, hno, hreach.head ⟨hu, hx, hmem⟩⟩

/-- Over a node with edges left to walk there is a released one. -/
theorem exists_ready_over {done : α → Nat} {u : α} (hu : u ∈ nodes)
    (hleft : done u < (outs u).length) :
    ∃ v ∈ nodes, ReflTransGen (Edge nodes outs) v u ∧ done v < (outs v).length ∧
      pending nodes outs done v = 0 := by
  -- descend along edges between nodes that still have edges left
  refine (wellFoundedOn_edges hacyclic).induction (P := fun u => done u < (outs u).length →
    ∃ v ∈ nodes, ReflTransGen (Edge nodes outs) v u ∧ done v < (outs v).length ∧
      pending nodes outs done v = 0) hu ?_ hleft
  intro u hu ih hleft
  by_cases hready : pending nodes outs done u = 0
  · exact ⟨u, hu, ReflTransGen.refl, hleft, hready⟩
  · rw [pending_eq_zero_iff] at hready
    push Not at hready
    obtain ⟨v, hv, hmem⟩ := hready
    have hlt : done v < (outs v).length := by
      by_contra hge
      rw [List.drop_eq_nil_of_le (by omega)] at hmem
      simp at hmem
    have hedge : Edge nodes outs v u := ⟨hv, hu, List.mem_of_mem_drop hmem⟩
    obtain ⟨w, hw, hreach, hrest⟩ := ih v hv (TransGen.single hedge) hlt
    exact ⟨w, hw, hreach.tail hedge, hrest⟩

/-- If nodes with edges into them left have not begun to walk their own, and no edge out of
the graph is left, then every node has walked all its edges. -/
theorem complete_of_pending_out {done : α → Nat} (hfull : ∀ u ∈ nodes, outs u ≠ [])
    (hwait : ∀ u ∈ nodes, pending nodes outs done u ≠ 0 → done u = 0)
    (hout : ∀ u ∈ nodes, ∀ x ∈ outs u, x ∈ nodes ∨ pending nodes outs done x = 0) {u : α}
    (hu : u ∈ nodes) : (outs u).length ≤ done u := by
  refine (wellFoundedOn_edges_swap hacyclic).induction
    (P := fun u => (outs u).length ≤ done u) hu ?_
  intro u hu ih
  by_contra hlt
  obtain ⟨x, hx⟩ : ∃ x, (outs u)[done u]? = some x :=
    ⟨(outs u).get ⟨done u, by omega⟩, List.getElem?_eq_getElem (by omega)⟩
  have hpos := pending_pos_of_next hu hx
  rcases hout u hu x (List.mem_of_getElem? hx) with hxn | hzero
  · -- the target is a node that has not begun, yet all its edges would be walked
    have hdone := hwait x hxn (by omega)
    have hall := ih x hxn (TransGen.single ⟨hu, hxn, List.mem_of_getElem? hx⟩)
    have hne := List.length_pos_iff.mpr (hfull x hxn)
    omega
  · omega

end Acyclic

namespace Dag

variable {nodes : Finset α} {outs : α → List α} {sink : α}

omit [DecidableEq α] in
theorem outs_ne_nil (h : Dag nodes outs sink) {u : α} (hu : u ∈ nodes) : outs u ≠ [] := by
  intro hnil
  have hsink := h.sink_of_last u hu (by simp [hnil])
  simp [hnil] at hsink

omit [DecidableEq α] in
/-- Only the edges out of the nodes matter. -/
theorem congr (h : Dag nodes outs sink) {outs' : α → List α}
    (heq : ∀ u ∈ nodes, outs' u = outs u) : Dag nodes outs' sink where
  acyclic := fun u hu => h.acyclic u <| TransGen.mono (fun v w hvw =>
    ⟨hvw.1, hvw.2.1, heq v hvw.1 ▸ hvw.2.2⟩) _ _ hu
  outs_mem := fun u hu x hx => h.outs_mem u hu x (heq u hu ▸ hx)
  sink_of_last := fun u hu hlast => by
    rw [heq u hu] at hlast ⊢
    exact h.sink_of_last u hu hlast
  sink_notMem := h.sink_notMem

/-- While some node has edges left to walk, one that has is released. -/
theorem exists_ready (h : Dag nodes outs sink) {done : α → Nat} {u : α} (hu : u ∈ nodes)
    (hleft : done u < (outs u).length) :
    ∃ v ∈ nodes, done v < (outs v).length ∧ pending nodes outs done v = 0 := by
  obtain ⟨v, hv, -, hrest⟩ := exists_ready_over h.acyclic hu hleft
  exact ⟨v, hv, hrest⟩

/-- If nodes with edges into them left have not begun to walk their own, then a sink
without edges left means that every node has walked all its edges. -/
theorem complete_of_pending_sink (h : Dag nodes outs sink) {done : α → Nat}
    (hwait : ∀ u ∈ nodes, pending nodes outs done u ≠ 0 → done u = 0)
    (hsink : pending nodes outs done sink = 0) {u : α} (hu : u ∈ nodes) :
    (outs u).length ≤ done u :=
  complete_of_pending_out h.acyclic (fun _ hv => h.outs_ne_nil hv) hwait
    (fun v hv x hx => (h.outs_mem v hv x hx).imp_right fun hxs => by rw [hxs]; exact hsink) hu

end Dag

end Release
