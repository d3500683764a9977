import Mathlib.Data.List.Nodup
import Mathlib.Logic.Relation
import Mathlib.Order.Lattice

/-!
# Walks that mark a node after its successors

A recursive walk over a graph that lives in a state: it stops at nodes that are marked, enters
a node that is not, walks what the node leads to and marks the node when it leaves. A node is
not marked while the walk is below it, so that each one is entered once rests on the graph
being acyclic: a rank falls along the edges. The list beside the state keeps the nodes in the
order in which they were entered.
-/

open Relation

variable {σ α : Type*}

/-- An acyclic graph. -/
structure RankedGraph (α : Type*) where
  nodes : α → Prop
  kids : α → List α
  rank : α → Nat
  falls : ∀ x, nodes x → ∀ y ∈ kids x, nodes y ∧ rank y < rank x

/-- What a walk reads of the state and writes to it. -/
structure PostOrder (σ α : Type*) where
  seen : σ → α → Bool
  children : σ → α → List α
  enter : σ → α → σ
  leave : σ → α → σ

namespace PostOrder

/-- The fuel bounds the depth of the recursion. -/
def walk (w : PostOrder σ α) : Nat → σ × List α → α → Option (σ × List α)
  | 0, _, _ => none
  | fuel + 1, s, x =>
    if w.seen s.1 x then some s
    else
      ((w.children (w.enter s.1 x) x).foldlM (w.walk fuel) (w.enter s.1 x, s.2 ++ [x])).map
        fun r => (w.leave r.1 x, r.2)

/-- The walk goes through the graph and keeps `J`. -/
structure Lawful (w : PostOrder σ α) (g : RankedGraph α) (J : σ → List α → Prop) : Prop where
  children : ∀ s l x, J s l → g.nodes x → w.children s x = g.kids x
  seen_enter : ∀ s x y, w.seen (w.enter s x) y = w.seen s y
  seen_leave : ∀ s x y, w.seen (w.leave s x) y = true ↔ y = x ∨ w.seen s y = true
  enter : ∀ s l x, J s l → g.nodes x → w.seen s x = false → x ∉ l → J (w.enter s x) (l ++ [x])
  leave : ∀ s l x, J s l → g.nodes x → x ∈ l → J (w.leave s x) l

/-- What a walk has done: `new` are the nodes that it has entered and left. -/
structure Walked (w : PostOrder σ α) (g : RankedGraph α) (r : Nat) (s s' : σ × List α)
    (new : List α) : Prop where
  log : s'.2 = s.2 ++ new
  nodup : new.Nodup
  unseen : ∀ y ∈ new, (g.nodes y ∧ g.rank y < r) ∧ w.seen s.1 y = false
  seen : ∀ y, w.seen s'.1 y = true ↔ w.seen s.1 y = true ∨ y ∈ new
  kids : ∀ y ∈ new, ∀ z ∈ g.kids y, w.seen s'.1 z = true

namespace Walked

variable {w : PostOrder σ α} {g : RankedGraph α} {r r' : Nat} {s s' s'' : σ × List α}
  {new new' : List α}

theorem refl (w : PostOrder σ α) (g : RankedGraph α) (r : Nat) (s : σ × List α) :
    Walked w g r s s [] where
  log := (List.append_nil s.2).symm
  nodup := List.nodup_nil
  unseen := by simp
  seen := by simp
  kids := by simp

theorem of_le (h : Walked w g r s s' new) (hle : r ≤ r') : Walked w g r' s s' new :=
  { h with unseen := fun y hy =>
      ⟨⟨(h.unseen y hy).1.1, Nat.lt_of_lt_of_le (h.unseen y hy).1.2 hle⟩, (h.unseen y hy).2⟩ }

theorem trans (h : Walked w g r s s' new) (h' : Walked w g r s' s'' new') :
    Walked w g r s s'' (new ++ new') where
  log := by rw [h'.log, h.log, List.append_assoc]
  nodup := by
    refine List.nodup_append'.mpr ⟨h.nodup, h'.nodup, fun y hy hy' => ?_⟩
    have hseen := (h.seen y).mpr (Or.inr hy)
    rw [(h'.unseen y hy').2] at hseen
    cases hseen
  unseen := fun y hy => by
    rcases List.mem_append.mp hy with hy | hy
    · exact h.unseen y hy
    · obtain ⟨hnode, hfalse⟩ := h'.unseen y hy
      refine ⟨hnode, ?_⟩
      by_contra hne
      rw [Bool.not_eq_false] at hne
      rw [(h.seen y).mpr (Or.inl hne)] at hfalse
      cases hfalse
  seen := fun y => by rw [h'.seen, h.seen, List.mem_append, or_assoc]
  kids := fun y hy z hz => by
    rcases List.mem_append.mp hy with hy | hy
    · exact (h'.seen z).mpr (Or.inl (h.kids y hy z hz))
    · exact h'.kids y hy z hz

end Walked

/-- Nodes that have been entered and not left are above those that are walked next. -/
def Above (w : PostOrder σ α) (g : RankedGraph α) (r : Nat) (s : σ × List α) : Prop :=
  ∀ y ∈ s.2, w.seen s.1 y = true ∨ r ≤ g.rank y

variable {w : PostOrder σ α} {g : RankedGraph α} {J : σ → List α → Prop} {r : Nat}
  {s : σ × List α}

theorem Above.walked {s' : σ × List α} {new : List α} (h : Above w g r s)
    (hs : Walked w g r s s' new) : Above w g r s' := by
  intro y hy
  rw [hs.log, List.mem_append] at hy
  rcases hy with hy | hy
  · exact (h y hy).imp_left fun hseen => (hs.seen y).mpr (Or.inl hseen)
  · exact Or.inl ((hs.seen y).mpr (Or.inr hy))

/-- A list of nodes, walked one after another. -/
theorem walkAll {fuel : Nat}
    (hone : ∀ s x, g.nodes x → g.rank x < r → J s.1 s.2 → Above w g r s →
      ∃ s' new, w.walk fuel s x = some s' ∧ J s'.1 s'.2 ∧ Walked w g r s s' new ∧
        w.seen s'.1 x = true)
    {l : List α} (hl : ∀ x ∈ l, g.nodes x ∧ g.rank x < r) (hJ : J s.1 s.2)
    (habove : Above w g r s) :
    ∃ s' new, l.foldlM (w.walk fuel) s = some s' ∧ J s'.1 s'.2 ∧ Walked w g r s s' new ∧
      ∀ x ∈ l, w.seen s'.1 x = true := by
  induction l generalizing s with
  | nil => exact ⟨s, [], rfl, hJ, .refl w g r s, by simp⟩
  | cons x l ih =>
      obtain ⟨hnode, hrank⟩ := hl x List.mem_cons_self
      obtain ⟨s₁, new₁, hwalk, hJ₁, hs₁, hx⟩ := hone s x hnode hrank hJ habove
      obtain ⟨s₂, new₂, hfold, hJ₂, hs₂, hrest⟩ := ih
        (fun y hy => hl y (List.mem_cons_of_mem x hy)) hJ₁ (habove.walked hs₁)
      refine ⟨s₂, new₁ ++ new₂, ?_, hJ₂, hs₁.trans hs₂, ?_⟩
      · rw [List.foldlM_cons, hwalk]
        exact hfold
      · intro y hy
        rcases List.mem_cons.mp hy with rfl | hy
        · exact (hs₂.seen y).mpr (Or.inl hx)
        · exact hrest y hy

/-- With more fuel than its rank a node is walked to the end, and marked then. -/
theorem Lawful.walk (hw : w.Lawful g J) (fuel : Nat) {x : α} (hx : g.nodes x)
    (hfuel : g.rank x < fuel) (hrank : g.rank x < r) (hJ : J s.1 s.2)
    (habove : Above w g r s) :
    ∃ s' new, w.walk fuel s x = some s' ∧ J s'.1 s'.2 ∧ Walked w g r s s' new ∧
      w.seen s'.1 x = true := by
  induction fuel generalizing x s r with
  | zero => exact absurd hfuel (Nat.not_lt_zero _)
  | succ fuel ih =>
      unfold PostOrder.walk
      by_cases hseen : w.seen s.1 x = true
      · rw [if_pos hseen]
        exact ⟨s, [], rfl, hJ, .refl w g r s, hseen⟩
      · rw [if_neg hseen]
        have hfalse : w.seen s.1 x = false := by simpa using hseen
        have hnot : x ∉ s.2 := by
          intro hmem
          rcases habove x hmem with htrue | hle
          · exact hseen htrue
          · exact Nat.not_lt_of_le hle hrank
        have hJ₁ := hw.enter s.1 s.2 x hJ hx hfalse hnot
        -- below `x`
        have habove₁ : Above w g (g.rank x) (w.enter s.1 x, s.2 ++ [x]) := by
          intro y hy
          rcases List.mem_append.mp hy with hy | hy
          · rw [hw.seen_enter]
            exact (habove y hy).imp_right fun hle => Nat.le_trans (Nat.le_of_lt hrank) hle
          · exact Or.inr (List.mem_singleton.mp hy ▸ le_refl _)
        obtain ⟨s₂, new, hfold, hJ₂, hs₂, hkids⟩ := walkAll
          (fun s y hy hlt hJ habove => ih hy (by omega) hlt hJ habove)
          (fun y hy => g.falls x hx y hy) hJ₁ habove₁
        have hxnew : x ∉ new := fun hmem => Nat.lt_irrefl _ (hs₂.unseen x hmem).1.2
        have hlog : s₂.2 = s.2 ++ x :: new := by
          rw [hs₂.log]
          simp
        rw [hw.children _ _ x hJ₁ hx, hfold]
        refine ⟨_, x :: new, rfl, ?_, ⟨hlog, List.nodup_cons.mpr ⟨hxnew, hs₂.nodup⟩, ?_, ?_, ?_⟩,
          (hw.seen_leave _ _ _).mpr (Or.inl rfl)⟩
        · exact hw.leave _ _ x hJ₂ hx (by rw [hlog]; simp)
        · intro y hy
          rcases List.mem_cons.mp hy with rfl | hy
          · exact ⟨⟨hx, hrank⟩, hfalse⟩
          · obtain ⟨⟨hnode, hlt⟩, hno⟩ := hs₂.unseen y hy
            rw [hw.seen_enter] at hno
            exact ⟨⟨hnode, Nat.lt_trans hlt hrank⟩, hno⟩
        · intro y
          rw [hw.seen_leave, hs₂.seen, hw.seen_enter, List.mem_cons]
          tauto
        · intro y hy z hz
          refine (hw.seen_leave _ _ _).mpr (Or.inr ?_)
          rcases List.mem_cons.mp hy with rfl | hy
          · exact hkids z hz
          · exact hs₂.kids y hy z hz

/-- A walk from roots that reach every node, in a state without marks, enters every node once
and marks it. -/
theorem Lawful.cover (hw : w.Lawful g J) {fuel : Nat} (hfuel : ∀ x, g.nodes x → g.rank x < fuel)
    {roots : List α} (hroots : ∀ x ∈ roots, g.nodes x)
    (hreach : ∀ y, g.nodes y → ∃ x ∈ roots, ReflTransGen (fun u v => v ∈ g.kids u) x y) {s : σ}
    (hJ : J s []) (hnone : ∀ y, g.nodes y → w.seen s y = false) :
    ∃ s', roots.foldlM (w.walk fuel) (s, []) = some s' ∧ J s'.1 s'.2 ∧ s'.2.Nodup ∧
      (∀ y, y ∈ s'.2 ↔ g.nodes y) ∧ ∀ y, g.nodes y → w.seen s'.1 y = true := by
  obtain ⟨s', new, hfold, hJ', hs', hseen⟩ := walkAll (r := fuel) (s := (s, []))
    (fun s x hx hlt hJ habove => hw.walk fuel hx hlt hlt hJ habove)
    (fun x hx => ⟨hroots x hx, hfuel x (hroots x hx)⟩) hJ (fun y hy => by cases hy)
  have hlog : s'.2 = new := hs'.log
  have hclosed : ∀ y, w.seen s'.1 y = true → g.nodes y → y ∈ new := by
    intro y hy hnode
    rcases (hs'.seen y).mp hy with hold | hnew
    · rw [hnone y hnode] at hold
      cases hold
    · exact hnew
  have hall : ∀ y, g.nodes y → w.seen s'.1 y = true := by
    intro y hy
    obtain ⟨x, hx, hpath⟩ := hreach y hy
    have hboth : g.nodes y ∧ w.seen s'.1 y = true := by
      clear hy
      induction hpath with
      | refl => exact ⟨hroots x hx, hseen x hx⟩
      | tail _ hedge ih =>
          exact ⟨(g.falls _ ih.1 _ hedge).1, hs'.kids _ (hclosed _ ih.2 ih.1) _ hedge⟩
    exact hboth.2
  refine ⟨s', hfold, hJ', hlog ▸ hs'.nodup, fun y => ?_, hall⟩
  rw [hlog]
  exact ⟨fun hy => (hs'.unseen y hy).1.1, fun hy => hclosed y (hall y hy) hy⟩

end PostOrder
