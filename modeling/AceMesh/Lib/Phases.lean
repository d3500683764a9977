import AceMesh.Lib.Release

/-!
# Running a graph part by part

The first nodes of a graph are handed out part by part, in the order of the parts, and each
part is awaited at the last nodes of the same part. `InTurn` is what a labelling by parts
needs for that: no part waits for a node that a later part leads to (`before`), every part
has a path of its own (`across`), and so has every node that the waiting thread may hold
while it looks whether the part is done (`held`).
-/

namespace Release

open Finset Relation

variable {α β : Type*}

/-- A node without a predecessor. -/
def First (nodes : Finset α) (outs : α → List α) (t : α) : Prop :=
  t ∈ nodes ∧ ∀ u ∈ nodes, t ∉ outs u

/-- A node without a successor. -/
def Last (nodes : Finset α) (outs : α → List α) (t : α) : Prop :=
  t ∈ nodes ∧ ∀ x ∈ nodes, x ∉ outs t

/-- `x` lies on a path from a first to a last node of part `q`. -/
def Across (nodes : Finset α) (outs : α → List α) (part : α → β) (q : β) (x : α) : Prop :=
  ∃ u v, First nodes outs u ∧ Last nodes outs v ∧ part u = q ∧ part v = q ∧
    ReflTransGen (Edge nodes outs) u x ∧ ReflTransGen (Edge nodes outs) x v

structure InTurn [LE β] (nodes : Finset α) (outs : α → List α) (part : α → β)
    (held : α → Prop) : Prop where
  before : ∀ u v, First nodes outs u → Last nodes outs v →
    ReflTransGen (Edge nodes outs) u v → part u ≤ part v
  across : ∀ t, First nodes outs t ∨ Last nodes outs t →
    ∃ x, Across nodes outs part (part t) x
  held : ∀ x ∈ nodes, held x → ∃ q, Across nodes outs part q x

theorem InTurn.mono [LE β] {nodes : Finset α} {outs : α → List α} {part : α → β}
    {held held' : α → Prop} (h : InTurn nodes outs part held)
    (hheld : ∀ x ∈ nodes, held' x → held x) : InTurn nodes outs part held' where
  before := h.before
  across := h.across
  held := fun x hx hheld' => h.held x hx (hheld x hx hheld')

/-- The labelling is judged by the edges between the nodes. -/
theorem InTurn.congr [LE β] {nodes : Finset α} {outs outs' : α → List α} {part : α → β}
    {held : α → Prop} (h : InTurn nodes outs part held)
    (hedge : ∀ u v, Edge nodes outs' u v ↔ Edge nodes outs u v) :
    InTurn nodes outs' part held := by
  have hedges : Edge nodes outs' = Edge nodes outs := by
    ext u v
    exact hedge u v
  have hfirst : ∀ t, First nodes outs' t ↔ First nodes outs t := fun t =>
    and_congr_right fun ht => forall₂_congr fun u hu => not_congr
      ⟨fun hm => ((hedge u t).mp ⟨hu, ht, hm⟩).2.2, fun hm => ((hedge u t).mpr ⟨hu, ht, hm⟩).2.2⟩
  have hlast : ∀ t, Last nodes outs' t ↔ Last nodes outs t := fun t =>
    and_congr_right fun ht => forall₂_congr fun x hx => not_congr
      ⟨fun hm => ((hedge t x).mp ⟨ht, hx, hm⟩).2.2, fun hm => ((hedge t x).mpr ⟨ht, hx, hm⟩).2.2⟩
  have hacross : ∀ q x, Across nodes outs' part q x ↔ Across nodes outs part q x := by
    intro q x
    unfold Across
    simp only [hfirst, hlast, hedges]
  constructor
  · intro u v hu hv huv
    rw [hedges] at huv
    exact h.before u v ((hfirst u).mp hu) ((hlast v).mp hv) huv
  · intro t ht
    obtain ⟨x, hx⟩ := h.across t (ht.imp (hfirst t).mp (hlast t).mp)
    exact ⟨x, (hacross _ x).mpr hx⟩
  · intro x hx hheld
    obtain ⟨q, hq⟩ := h.held x hx hheld
    exact ⟨q, (hacross q x).mpr hq⟩

/-- A part with a first node has a last node. -/
theorem InTurn.exists_last [LE β] {nodes : Finset α} {outs : α → List α} {part : α → β}
    {held : α → Prop} (h : InTurn nodes outs part held) {t : α} (ht : First nodes outs t) :
    ∃ v, Last nodes outs v ∧ part v = part t := by
  obtain ⟨x, u, v, -, hv, -, hpart, -⟩ := h.across t (Or.inl ht)
  exact ⟨v, hv, hpart⟩

/-- A part with a last node has a first node. -/
theorem InTurn.exists_first [LE β] {nodes : Finset α} {outs : α → List α} {part : α → β}
    {held : α → Prop} (h : InTurn nodes outs part held) {t : α} (ht : Last nodes outs t) :
    ∃ u, First nodes outs u ∧ part u = part t := by
  obtain ⟨x, u, v, hu, -, hpart, -⟩ := h.across t (Or.inr ht)
  exact ⟨u, hu, hpart⟩

/-- Parts that no edge crosses are in turn. -/
theorem inTurn_of_closed [PartialOrder β] {nodes : Finset α} {outs : α → List α}
    {part : α → β} (hacyclic : ∀ u, ¬ TransGen (Edge nodes outs) u u)
    (hclosed : ∀ u v, Edge nodes outs u v → part u = part v) (held : α → Prop) :
    InTurn nodes outs part held := by
  have hpath : ∀ {u v}, ReflTransGen (Edge nodes outs) u v → part u = part v := by
    intro u v huv
    induction huv with
    | refl => rfl
    | tail _ hedge ih => exact ih.trans (hclosed _ _ hedge)
  have hcross : ∀ x ∈ nodes, Across nodes outs part (part x) x := by
    intro x hx
    obtain ⟨u, hu, hfirst, hux⟩ := exists_first hacyclic hx
    obtain ⟨v, hv, hlast, hxv⟩ := exists_last hacyclic hx
    exact ⟨u, v, ⟨hu, hfirst⟩, ⟨hv, hlast⟩, hpath hux, (hpath hxv).symm, hux, hxv⟩
  constructor
  · exact fun u v _ _ huv => (hpath huv).le
  · rintro t (ht | ht)
    · exact ⟨t, hcross t ht.1⟩
    · exact ⟨t, hcross t ht.1⟩
  · exact fun x hx _ => ⟨part x, hcross x hx⟩

/-- Two nodes with an edge to `x` left count twice. -/
theorem two_le_pending [DecidableEq α] {nodes : Finset α} {outs : α → List α} {done : α → Nat}
    {u v x : α} (hu : u ∈ nodes) (hv : v ∈ nodes) (huv : u ≠ v)
    (hxu : x ∈ (outs u).drop (done u)) (hxv : x ∈ (outs v).drop (done v)) :
    2 ≤ pending nodes outs done x := by
  have hsum : ((outs u).drop (done u)).count x + ((outs v).drop (done v)).count x ≤
      pending nodes outs done x :=
    Finset.add_le_sum (f := fun w => ((outs w).drop (done w)).count x)
      (fun _ _ => Nat.zero_le _) hu hv huv
  have hone := List.count_pos_iff.mpr hxu
  have htwo := List.count_pos_iff.mpr hxv
  omega

end Release
