import AceMesh.Lib.Components
import Mathlib.Data.Finset.Card
import Mathlib.Logic.Function.Basic
import Mathlib.Order.Lattice

/-!
# Ranked forests

The arrays of a union-find structure: `father` leads from an index to the representative of
its class, `rank` grows on the way. `rep` names the representatives. A forest stays one when
an index is led straight to its representative (`compress`), when the representative of one
class is led to that of another (`link`), and when a new index is added (`grow`).
-/

namespace UnionFind

structure Forest (n bound : Nat) (father rank rep : Nat → Nat) : Prop where
  father_lt : ∀ x < n, father x < n
  rank_lt : ∀ x < n, father x ≠ x → rank x < rank (father x)
  rank_le : ∀ x < n, rank x ≤ bound
  rep_father : ∀ x < n, rep (father x) = rep x
  rep_root : ∀ x < n, father x = x → rep x = x

/-- The representatives. -/
def roots (n : Nat) (father : Nat → Nat) : Finset Nat := {x ∈ Finset.range n | father x = x}

theorem mem_roots {n : Nat} {father : Nat → Nat} {x : Nat} :
    x ∈ roots n father ↔ x < n ∧ father x = x := by
  simp [roots]

namespace Forest

variable {n bound : Nat} {father rank rep : Nat → Nat}

/-- What holds of a representative, and of an index if it holds of its father, holds of every
index. -/
theorem climb (h : Forest n bound father rank rep) {P : Nat → Prop}
    (hroot : ∀ x < n, father x = x → P x)
    (hstep : ∀ x < n, father x ≠ x → P (father x) → P x) {x : Nat} (hx : x < n) : P x := by
  induction hd : bound - rank x using Nat.strong_induction_on generalizing x with
  | _ d ih =>
      by_cases hf : father x = x
      · exact hroot x hx hf
      · have hlt := h.rank_lt x hx hf
        have hle := h.rank_le _ (h.father_lt x hx)
        exact hstep x hx hf (ih _ (by omega) (h.father_lt x hx) rfl)

theorem rep_spec (h : Forest n bound father rank rep) {x : Nat} (hx : x < n) :
    rep x < n ∧ father (rep x) = rep x ∧ rank x ≤ rank (rep x) := by
  refine h.climb (P := fun x => rep x < n ∧ father (rep x) = rep x ∧ rank x ≤ rank (rep x))
    ?_ ?_ hx
  · intro x hx hf
    rw [h.rep_root x hx hf]
    exact ⟨hx, hf, le_refl _⟩
  · rintro x hx hf ⟨hlt, hroot, hle⟩
    rw [h.rep_father x hx] at hlt hroot hle
    exact ⟨hlt, hroot, (h.rank_lt x hx hf).le.trans hle⟩

theorem rep_lt (h : Forest n bound father rank rep) {x : Nat} (hx : x < n) : rep x < n :=
  (h.rep_spec hx).1

theorem father_rep (h : Forest n bound father rank rep) {x : Nat} (hx : x < n) :
    father (rep x) = rep x :=
  (h.rep_spec hx).2.1

theorem rep_rep (h : Forest n bound father rank rep) {x : Nat} (hx : x < n) :
    rep (rep x) = rep x :=
  h.rep_root _ (h.rep_lt hx) (h.father_rep hx)

/-- A representative is its own father, and no other index is. -/
theorem root_iff (h : Forest n bound father rank rep) {x : Nat} (hx : x < n) :
    father x = x ↔ rep x = x := by
  refine ⟨h.rep_root x hx, fun hrep => ?_⟩
  rw [← hrep]
  exact h.father_rep hx

/-- The way up: the rank grows from link to link until the representative. -/
theorem path_rep (h : Forest n bound father rank rep) {x : Nat} (hx : x < n) :
    Relation.ReflTransGen (fun u v => father u = v ∧ rank u < rank v) x (rep x) := by
  refine h.climb (P := fun x =>
    Relation.ReflTransGen (fun u v => father u = v ∧ rank u < rank v) x (rep x)) ?_ ?_ hx
  · intro x hx hf
    rw [h.rep_root x hx hf]
  · intro x hx hf ih
    rw [h.rep_father x hx] at ih
    exact ih.head ⟨rfl, h.rank_lt x hx hf⟩

/-- The links of the forest hold together what has one representative. -/
theorem colored (h : Forest n bound father rank rep) :
    Colored (Set.Iio n) (fun u v => u < n ∧ father u = v) rep where
  within := by
    rintro u v ⟨hu, rfl⟩
    exact ⟨hu, h.father_lt u hu⟩
  sound := by
    rintro u v ⟨hu, rfl⟩
    exact (h.rep_father u hu).symm
  complete := by
    have hup : ∀ {x}, x < n →
        Relation.EqvGen (fun u v => u < n ∧ father u = v) x (rep x) := by
      intro x hx
      refine h.climb (P := fun x =>
        Relation.EqvGen (fun u v => u < n ∧ father u = v) x (rep x)) ?_ ?_ hx
      · intro x hx hf
        rw [h.rep_root x hx hf]
        exact Relation.EqvGen.refl x
      · intro x hx hf ih
        rw [h.rep_father x hx] at ih
        exact Relation.EqvGen.trans _ _ _ (Relation.EqvGen.rel _ _ ⟨hx, rfl⟩) ih
    intro u hu v hv huv
    have hback := hup hv
    rw [← huv] at hback
    exact Relation.EqvGen.trans _ _ _ (hup hu) (Relation.EqvGen.symm _ _ hback)

theorem compress (h : Forest n bound father rank rep) {x : Nat} (hx : x < n) :
    Forest n bound (Function.update father x (rep x)) rank rep where
  father_lt := fun z hz => by
    by_cases hzx : z = x
    · rw [hzx, Function.update_self]
      exact h.rep_lt hx
    · rw [Function.update_of_ne hzx]
      exact h.father_lt z hz
  rank_lt := fun z hz hne => by
    by_cases hzx : z = x
    · subst hzx
      rw [Function.update_self] at hne ⊢
      have hf : father z ≠ z := fun hf => hne (h.rep_root z hz hf)
      have hle := (h.rep_spec (h.father_lt z hz)).2.2
      rw [h.rep_father z hz] at hle
      exact (h.rank_lt z hz hf).trans_le hle
    · rw [Function.update_of_ne hzx] at hne ⊢
      exact h.rank_lt z hz hne
  rank_le := h.rank_le
  rep_father := fun z hz => by
    by_cases hzx : z = x
    · rw [hzx, Function.update_self]
      exact h.rep_rep hx
    · rw [Function.update_of_ne hzx]
      exact h.rep_father z hz
  rep_root := fun z hz hf => by
    by_cases hzx : z = x
    · rw [hzx, Function.update_self] at hf
      rw [hzx]
      exact hf
    · rw [Function.update_of_ne hzx] at hf
      exact h.rep_root z hz hf

theorem roots_compress (h : Forest n bound father rank rep) {x : Nat} (hx : x < n) :
    roots n (Function.update father x (rep x)) = roots n father := by
  ext z
  simp only [mem_roots]
  refine and_congr_right fun hz => ?_
  rw [(h.compress hx).root_iff hz, h.root_iff hz]

/-- The representative `x` is led to the representative `y`, of a rank that is now higher. -/
theorem link (h : Forest n bound father rank rep) {x y : Nat} (hx : x < n) (hy : y < n)
    (hfx : father x = x) (hfy : father y = y) (hxy : x ≠ y) {rank' : Nat → Nat} {bound' : Nat}
    (hsame : ∀ z, z ≠ y → rank' z = rank z) (hle : rank y ≤ rank' y) (hlt : rank x < rank' y)
    (hbound : bound ≤ bound') (hy' : rank' y ≤ bound') :
    Forest n bound' (Function.update father x y) rank'
      (fun z => if rep z = x then y else rep z) where
  father_lt := fun z hz => by
    by_cases hzx : z = x
    · rw [hzx, Function.update_self]
      exact hy
    · rw [Function.update_of_ne hzx]
      exact h.father_lt z hz
  rank_lt := fun z hz hne => by
    by_cases hzx : z = x
    · subst hzx
      rw [Function.update_self, hsame z hxy]
      exact hlt
    · rw [Function.update_of_ne hzx] at hne ⊢
      have hzy : z ≠ y := fun heq => hne (by rw [heq]; exact hfy)
      have hold := h.rank_lt z hz hne
      rw [hsame z hzy]
      by_cases hfz : father z = y
      · rw [hfz] at hold ⊢
        omega
      · rw [hsame _ hfz]
        exact hold
  rank_le := fun z hz => by
    by_cases hzy : z = y
    · rw [hzy]
      exact hy'
    · rw [hsame z hzy]
      exact (h.rank_le z hz).trans hbound
  rep_father := fun z hz => by
    by_cases hzx : z = x
    · subst hzx
      have hyz : rep y ≠ z := by rw [h.rep_root y hy hfy]; exact Ne.symm hxy
      simp only [Function.update_self, if_neg hyz]
      rw [if_pos (h.rep_root z hz hfx), h.rep_root y hy hfy]
    · simp only [Function.update_of_ne hzx, h.rep_father z hz]
  rep_root := fun z hz hf => by
    by_cases hzx : z = x
    · subst hzx
      rw [Function.update_self] at hf
      exact absurd hf.symm hxy
    · rw [Function.update_of_ne hzx] at hf
      have hrep := h.rep_root z hz hf
      simp only [hrep, if_neg hzx]

theorem roots_link {x y : Nat} (hx : x < n) (hfx : father x = x) (hxy : x ≠ y) :
    (roots n (Function.update father x y)).card + 1 = (roots n father).card := by
  have hmem : x ∈ roots n father := mem_roots.mpr ⟨hx, hfx⟩
  have herase : roots n (Function.update father x y) = (roots n father).erase x := by
    ext z
    simp only [mem_roots, Finset.mem_erase]
    by_cases hzx : z = x
    · subst hzx
      simp [Ne.symm hxy]
    · simp [hzx]
  rw [herase, Finset.card_erase_add_one hmem]

theorem grow (h : Forest n bound father rank rep) :
    Forest (n + 1) bound (Function.update father n n) (Function.update rank n 0)
      (Function.update rep n n) := by
  have hne : ∀ {z}, z < n → z ≠ n := fun hz => Nat.ne_of_lt hz
  constructor
  · intro z hz
    by_cases hzn : z = n
    · rw [hzn, Function.update_self]
      exact Nat.lt_succ_self n
    · rw [Function.update_of_ne hzn]
      exact Nat.lt_succ_of_lt (h.father_lt z (by omega))
  · intro z hz hf
    by_cases hzn : z = n
    · rw [hzn, Function.update_self] at hf
      exact absurd rfl hf
    · have hlt := h.father_lt z (by omega)
      rw [Function.update_of_ne hzn] at hf ⊢
      rw [Function.update_of_ne hzn, Function.update_of_ne (hne hlt)]
      exact h.rank_lt z (by omega) hf
  · intro z hz
    by_cases hzn : z = n
    · rw [hzn, Function.update_self]
      exact Nat.zero_le _
    · rw [Function.update_of_ne hzn]
      exact h.rank_le z (by omega)
  · intro z hz
    by_cases hzn : z = n
    · rw [hzn, Function.update_self, Function.update_self]
    · have hlt := h.father_lt z (by omega)
      rw [Function.update_of_ne hzn, Function.update_of_ne hzn, Function.update_of_ne (hne hlt)]
      exact h.rep_father z (by omega)
  · intro z hz hf
    by_cases hzn : z = n
    · rw [hzn, Function.update_self]
    · rw [Function.update_of_ne hzn] at hf ⊢
      exact h.rep_root z (by omega) hf

theorem roots_grow (n : Nat) (father : Nat → Nat) :
    (roots (n + 1) (Function.update father n n)).card = (roots n father).card + 1 := by
  have hinsert : roots (n + 1) (Function.update father n n) = insert n (roots n father) := by
    ext z
    simp only [mem_roots, Finset.mem_insert]
    by_cases hzn : z = n
    · subst hzn
      simp
    · rw [Function.update_of_ne hzn]
      constructor
      · rintro ⟨hz, hf⟩
        exact Or.inr ⟨by omega, hf⟩
      · rintro (hz | ⟨hz, hf⟩)
        · exact absurd hz hzn
        · exact ⟨by omega, hf⟩
  rw [hinsert, Finset.card_insert_of_notMem]
  simp [mem_roots]

end Forest

end UnionFind
