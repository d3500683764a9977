import AceMesh.Lib.Buckets
import AceMesh.Lib.Fold
import AceMesh.Lib.Forest

/-!
# Disjoint sets

`disjoin_set.cpp`: two arrays of `max_n` integers, of which `make_set` initialises one entry
after the other. `find_set` compresses the path that it has taken, `union_set` links by rank
and `get_sep_data` lists the indices by representative.

`none` is an index outside of the arrays. `find_set` is given as many calls as there are
sets, and `findSet_spec` shows that this is enough.
-/

namespace AceMesh

structure DisjoinSet where
  maxN : Nat
  father : Nat → Nat
  rank : Nat → Nat
  count : Nat
  mySize : Nat

namespace DisjoinSet

def clear (s : DisjoinSet) : DisjoinSet := { s with count := 0, mySize := 0 }

def makeSet (s : DisjoinSet) (x : Nat) : Option DisjoinSet :=
  if x < s.maxN then
    some { s with
      father := Function.update s.father x x
      rank := Function.update s.rank x 0
      count := s.count + 1
      mySize := s.mySize + 1 }
  else none

/-- The recursion of `find_set` on the array `father`. -/
def findFather (maxN : Nat) : Nat → (Nat → Nat) → Nat → Option ((Nat → Nat) × Nat)
  | 0, _, _ => none
  | fuel + 1, father, x =>
    if x < maxN then
      if x ≠ father x then
        (findFather maxN fuel father (father x)).map fun s => (Function.update s.1 x s.2, s.2)
      else some (father, father x)
    else none

def findSet (s : DisjoinSet) (x : Nat) : Option (DisjoinSet × Nat) :=
  (findFather s.maxN s.mySize s.father x).map fun r => ({ s with father := r.1 }, r.2)

def unionSet (s : DisjoinSet) (x y : Nat) : Option (DisjoinSet × Nat) := do
  let (s, x) ← s.findSet x
  let (s, y) ← s.findSet y
  if x = y then return (s, x)
  if s.rank x > s.rank y then
    return ({ s with father := Function.update s.father y x, count := s.count - 1 }, x)
  else
    let rank := if s.rank x = s.rank y then Function.update s.rank y (s.rank y + 1) else s.rank
    return ({ s with rank, father := Function.update s.father x y, count := s.count - 1 }, y)

/-- One index in the loop of `get_sep_data`. -/
def sepIndex (s : DisjoinSet × List (Int × List Nat)) (i : Nat) :
    Option (DisjoinSet × List (Int × List Nat)) :=
  (s.1.findSet i).map fun r => (r.1, Buckets.push (r.2 : Int) i s.2)

/-- `get_sep_data`; the number it returns is the field `count`. -/
def getSepData (s : DisjoinSet) : Option (DisjoinSet × List (Int × List Nat)) :=
  (List.range s.mySize).foldlM sepIndex (s, [])

/-! ## The classes -/

/-- The arrays hold a forest, `rep` names the representatives, and `count` counts them. -/
structure Classes (s : DisjoinSet) (rep : Nat → Nat) : Prop where
  forest : UnionFind.Forest s.mySize (s.mySize - s.count) s.father s.rank rep
  count : s.count = (UnionFind.roots s.mySize s.father).card
  fits : s.mySize ≤ s.maxN

theorem Classes.blank {s : DisjoinSet} (hcount : s.count = 0) (hsize : s.mySize = 0)
    (rep : Nat → Nat) : Classes s rep where
  forest := by
    rw [hsize]
    constructor <;> simp
  count := by
    rw [hcount, hsize]
    rfl
  fits := by
    rw [hsize]
    exact Nat.zero_le _

theorem Classes.count_le {s : DisjoinSet} {rep : Nat → Nat} (h : Classes s rep) :
    s.count ≤ s.mySize := by
  rw [h.count]
  have hsub : UnionFind.roots s.mySize s.father ⊆ Finset.range s.mySize :=
    Finset.filter_subset _ _
  exact (Finset.card_le_card hsub).trans_eq (Finset.card_range _)

theorem Classes.count_pos {s : DisjoinSet} {rep : Nat → Nat} (h : Classes s rep) {x : Nat}
    (hx : x < s.mySize) : 0 < s.count := by
  rw [h.count]
  exact Finset.card_pos.mpr
    ⟨rep x, UnionFind.mem_roots.mpr ⟨h.forest.rep_lt hx, h.forest.father_rep hx⟩⟩

theorem makeSet_spec {s : DisjoinSet} {rep : Nat → Nat} (h : Classes s rep)
    (hfits : s.mySize < s.maxN) : ∃ s', s.makeSet s.mySize = some s' ∧
      s'.mySize = s.mySize + 1 ∧ s'.maxN = s.maxN ∧
      Classes s' (Function.update rep s.mySize s.mySize) := by
  refine ⟨_, if_pos hfits, rfl, rfl, ?_, ?_, hfits⟩
  · have hgrow := h.forest.grow
    have hbound : s.mySize + 1 - (s.count + 1) = s.mySize - s.count := by omega
    change UnionFind.Forest (s.mySize + 1) (s.mySize + 1 - (s.count + 1)) _ _ _
    rw [hbound]
    exact hgrow
  · change s.count + 1 = _
    rw [h.count]
    exact (UnionFind.Forest.roots_grow _ _).symm

/-- The recursion ends at the representative: the rank grows on the way. -/
theorem findFather_spec {n bound maxN fuel : Nat} {father rank rep : Nat → Nat}
    (h : UnionFind.Forest n bound father rank rep) (hfits : n ≤ maxN) {x : Nat} (hx : x < n)
    (hfuel : bound - rank x < fuel) :
    ∃ father', findFather maxN fuel father x = some (father', rep x) ∧
      UnionFind.Forest n bound father' rank rep ∧
      UnionFind.roots n father' = UnionFind.roots n father := by
  induction fuel generalizing x with
  | zero => omega
  | succ fuel ih =>
      rw [findFather, if_pos (by omega)]
      by_cases hf : father x = x
      · rw [if_neg (by simp [hf]), h.rep_root x hx hf, hf]
        exact ⟨father, rfl, h, rfl⟩
      · have hlt := h.rank_lt x hx hf
        have hle := h.rank_le _ (h.father_lt x hx)
        obtain ⟨father', hfind, hforest, hroots⟩ := ih (h.father_lt x hx) (by omega)
        rw [h.rep_father x hx] at hfind
        rw [if_pos (Ne.symm hf), hfind]
        exact ⟨_, rfl, hforest.compress hx, (hforest.roots_compress hx).trans hroots⟩

theorem findSet_spec {s : DisjoinSet} {rep : Nat → Nat} (h : Classes s rep) {x : Nat}
    (hx : x < s.mySize) : ∃ s', s.findSet x = some (s', rep x) ∧ s'.mySize = s.mySize ∧
      s'.maxN = s.maxN ∧ Classes s' rep := by
  have hpos := h.count_pos hx
  have hle := h.count_le
  have hfuel : s.mySize - s.count - s.rank x < s.mySize := by omega
  obtain ⟨father', hfind, hforest, hroots⟩ := findFather_spec h.forest h.fits hx hfuel
  refine ⟨{ s with father := father' }, by rw [findSet, hfind]; rfl, rfl, rfl, ?_⟩
  refine ⟨hforest, ?_, h.fits⟩
  change s.count = (UnionFind.roots s.mySize father').card
  rw [hroots]
  exact h.count

/-- The representative `a` is led to the representative `b`. -/
theorem Classes.link {s : DisjoinSet} {rep : Nat → Nat} (h : Classes s rep) {a b : Nat}
    (ha : a < s.mySize) (hb : b < s.mySize) (hfa : s.father a = a) (hfb : s.father b = b)
    (hab : a ≠ b) {rank' : Nat → Nat} (hsame : ∀ z, z ≠ b → rank' z = s.rank z)
    (hle : s.rank b ≤ rank' b) (hlt : s.rank a < rank' b) (hnext : rank' b ≤ s.rank b + 1) :
    Classes { s with
      father := Function.update s.father a b, rank := rank', count := s.count - 1 }
      (fun z => if rep z = a then b else rep z) := by
  have hcount := h.count_le
  have hpos := h.count_pos ha
  have hrank := h.forest.rank_le b hb
  refine ⟨?_, ?_, h.fits⟩
  · have hbound : rank' b ≤ s.mySize - (s.count - 1) := by omega
    exact h.forest.link ha hb hfa hfb hab hsame hle hlt
      (show s.mySize - s.count ≤ s.mySize - (s.count - 1) by omega) hbound
  · have hcard := UnionFind.Forest.roots_link ha hfa hab
    have hold := h.count
    change s.count - 1 =
      (UnionFind.roots s.mySize (Function.update s.father a b)).card
    omega

/-- Two classes become one, under the representative of one of them. -/
def merge (rep : Nat → Nat) (x y r z : Nat) : Nat :=
  if rep z = rep x ∨ rep z = rep y then r else rep z

theorem merge_left (rep : Nat → Nat) (x y : Nat) :
    merge rep x y (rep x) = fun z => if rep z = rep y then rep x else rep z := by
  ext z
  unfold merge
  by_cases hzy : rep z = rep y
  · rw [if_pos (Or.inr hzy), if_pos hzy]
  · rw [if_neg hzy]
    split
    · rename_i hz
      exact (hz.resolve_right hzy).symm
    · rfl

theorem merge_right (rep : Nat → Nat) (x y : Nat) :
    merge rep x y (rep y) = fun z => if rep z = rep x then rep y else rep z := by
  rw [← merge_left rep y x]
  ext z
  simp only [merge, or_comm]

theorem merge_same {rep : Nat → Nat} {x y : Nat} (hsame : rep x = rep y) :
    merge rep x y (rep x) = rep := by
  rw [merge_left]
  ext z
  split
  · rename_i hz
    rw [hz, hsame]
  · rfl

theorem unionSet_spec {s : DisjoinSet} {rep : Nat → Nat} (h : Classes s rep) {x y : Nat}
    (hx : x < s.mySize) (hy : y < s.mySize) :
    ∃ s' r, s.unionSet x y = some (s', r) ∧ s'.mySize = s.mySize ∧ s'.maxN = s.maxN ∧
      r < s.mySize ∧ (r = rep x ∨ r = rep y) ∧ Classes s' (merge rep x y r) := by
  obtain ⟨s₁, hs₁, hsize₁, hmax₁, h₁⟩ := findSet_spec h hx
  obtain ⟨s₂, hs₂, hsize₂, hmax₂, h₂⟩ := findSet_spec h₁ (hsize₁.symm ▸ hy)
  have hsize : s₂.mySize = s.mySize := hsize₂.trans hsize₁
  have hx₂ : x < s₂.mySize := hsize.symm ▸ hx
  have hy₂ : y < s₂.mySize := hsize.symm ▸ hy
  have hrx := h₂.forest.rep_lt hx₂
  have hry := h₂.forest.rep_lt hy₂
  have hfx := h₂.forest.father_rep hx₂
  have hfy := h₂.forest.father_rep hy₂
  have hunion : s.unionSet x y = if rep x = rep y then some (s₂, rep x)
      else if s₂.rank (rep x) > s₂.rank (rep y) then
        some ({ s₂ with
          father := Function.update s₂.father (rep y) (rep x), count := s₂.count - 1 }, rep x)
      else
        some ({ s₂ with
          rank :=
            if s₂.rank (rep x) = s₂.rank (rep y) then
              Function.update s₂.rank (rep y) (s₂.rank (rep y) + 1)
            else s₂.rank
          father := Function.update s₂.father (rep x) (rep y), count := s₂.count - 1 },
          rep y) := by
    simp only [unionSet, hs₁, hs₂, Option.bind_eq_bind, Option.bind_some]
    rfl
  rw [hunion]
  by_cases hsame : rep x = rep y
  · rw [if_pos hsame]
    refine ⟨s₂, rep x, rfl, hsize, hmax₂.trans hmax₁, hsize ▸ hrx, Or.inl rfl, ?_⟩
    rw [merge_same hsame]
    exact h₂
  · rw [if_neg hsame]
    by_cases hrank : s₂.rank (rep x) > s₂.rank (rep y)
    · rw [if_pos hrank]
      refine ⟨_, rep x, rfl, hsize, hmax₂.trans hmax₁, hsize ▸ hrx, Or.inl rfl, ?_⟩
      rw [merge_left]
      exact h₂.link hry hrx hfy hfx (Ne.symm hsame) (fun _ _ => rfl) (le_refl _) hrank
        (Nat.le_succ _)
    · rw [if_neg hrank]
      refine ⟨_, rep y, rfl, hsize, hmax₂.trans hmax₁, hsize ▸ hry, Or.inr rfl, ?_⟩
      rw [merge_right]
      by_cases heq : s₂.rank (rep x) = s₂.rank (rep y)
      · rw [if_pos heq]
        have hself : Function.update s₂.rank (rep y) (s₂.rank (rep y) + 1) (rep y) =
            s₂.rank (rep y) + 1 := Function.update_self ..
        exact h₂.link hrx hry hfx hfy hsame (fun z hz => Function.update_of_ne hz ..)
          (by omega) (by omega) (by omega)
      · rw [if_neg heq]
        exact h₂.link hrx hry hfx hfy hsame (fun _ _ => rfl) (le_refl _) (by omega)
          (Nat.le_succ _)

/-- The indices below `my_size` are listed by representative. -/
theorem getSepData_spec {s : DisjoinSet} {rep : Nat → Nat} (h : Classes s rep) :
    ∃ s' data, s.getSepData = some (s', data) ∧ s'.mySize = s.mySize ∧ s'.maxN = s.maxN ∧
      Classes s' rep ∧ Buckets (fun i => (rep i : Int)) (List.range s.mySize) data := by
  let J (xs : List Nat) (r : DisjoinSet × List (Int × List Nat)) : Prop :=
    r.1.mySize = s.mySize ∧ r.1.maxN = s.maxN ∧ Classes r.1 rep ∧
      Buckets (fun i => (rep i : Int)) xs r.2
  have hstep : ∀ xs i, xs ++ [i] <+: List.range s.mySize → ∀ r, J xs r →
      ∃ r', sepIndex r i = some r' ∧ J (xs ++ [i]) r' := by
    rintro xs i hi r ⟨hsize, hmax, hr, hdata⟩
    have hlt := List.mem_range.mp (Fold.mem_of_initial hi)
    obtain ⟨s₁, hs₁, hsize₁, hmax₁, h₁⟩ := findSet_spec hr (hsize.symm ▸ hlt)
    refine ⟨(s₁, Buckets.push (rep i : Int) i r.2), ?_, hsize₁.trans hsize, hmax₁.trans hmax, h₁,
      hdata.pushed i⟩
    rw [sepIndex, hs₁, Option.map_some]
  have hstart : J [] (s, []) := ⟨rfl, rfl, h, Buckets.nil _⟩
  obtain ⟨r, hall, hkept⟩ := Fold.succeeds hstep hstart
  exact ⟨r.1, r.2, hall, hkept⟩

end DisjoinSet

end AceMesh
