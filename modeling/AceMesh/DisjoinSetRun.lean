import AceMesh.DisjoinSet
import Mathlib.Data.Set.Card

/-!
# The calls of a disjoint set

A user calls `make_set` with 0, 1, 2 and so on, and in between `find_set` and `union_set` with
indices that have been made. After any such calls the arrays hold the equivalence relation that
the calls of `union_set` generate, and everything that the structure returns is about it.
-/

namespace AceMesh

open Relation

namespace DisjoinSet

/-- The constructor; the arrays keep what the memory has held. -/
def init (maxN : Nat) (father rank : Nat → Nat) : DisjoinSet :=
  { maxN, father, rank, count := 0, mySize := 0 }

def getCount (s : DisjoinSet) : Nat := s.count

inductive Call
  | makeSet (x : Nat)
  | findSet (x : Nat)
  | unionSet (x y : Nat)
  deriving DecidableEq

def call (s : DisjoinSet) : Call → Option DisjoinSet
  | .makeSet x => s.makeSet x
  | .findSet x => (s.findSet x).map (·.1)
  | .unionSet x y => (s.unionSet x y).map (·.1)

def callAll (s : DisjoinSet) (calls : List Call) : Option DisjoinSet := calls.foldlM call s

/-- How many sets there are after a call, where there have been `n`. -/
def Call.made (n : Nat) : Call → Nat
  | .makeSet _ => n + 1
  | .findSet _ => n
  | .unionSet _ _ => n

/-- The call can be made where there are `n` sets. -/
def Call.Allowed (maxN n : Nat) : Call → Prop
  | .makeSet x => x = n ∧ n < maxN
  | .findSet x => x < n
  | .unionSet x y => x < n ∧ y < n

instance (maxN n : Nat) : DecidablePred (Call.Allowed maxN n)
  | .makeSet x => inferInstanceAs (Decidable (x = n ∧ n < maxN))
  | .findSet x => inferInstanceAs (Decidable (x < n))
  | .unionSet x y => inferInstanceAs (Decidable (x < n ∧ y < n))

/-- Every call can be made after those before it. -/
def Allowed (maxN : Nat) : Nat → List Call → Prop
  | _, [] => True
  | n, c :: calls => c.Allowed maxN n ∧ Allowed maxN (c.made n) calls

instance (maxN : Nat) : ∀ n calls, Decidable (Allowed maxN n calls)
  | _, [] => inferInstanceAs (Decidable True)
  | n, c :: calls =>
    have := instDecidableAllowed maxN (c.made n) calls
    inferInstanceAs (Decidable (c.Allowed maxN n ∧ Allowed maxN (c.made n) calls))

def madeBy (calls : List Call) : Nat := calls.foldl Call.made 0

/-- The unions that have been performed. -/
def United (calls : List Call) (x y : Nat) : Prop := .unionSet x y ∈ calls

/-- The classes of the indices below `n`. -/
def classesOf (n : Nat) (related : Nat → Nat → Prop) : Set (Set Nat) :=
  {c | ∃ x < n, c = {y | y < n ∧ related x y}}

/-- What `find_set` returns. -/
def Finds (s : DisjoinSet) (x r : Nat) : Prop := ∃ s', s.findSet x = some (s', r)

/-- The partition that the arrays stand for: the links hold the classes together. -/
def Linked (s : DisjoinSet) : Nat → Nat → Prop :=
  EqvGen fun a b => a < s.mySize ∧ s.father a = b

/-- The structure holds the equivalence relation that `edge` generates on the indices below
`n`. -/
structure Correct (n : Nat) (edge : Nat → Nat → Prop) (s : DisjoinSet) : Prop where
  size : s.mySize = n
  /-- `find_set` ends, and leaves the partition as it is. -/
  find : ∀ x < n, ∃ s' r, s.findSet x = some (s', r) ∧
    ∀ a < n, ∀ b < n, s'.Linked a b ↔ s.Linked a b
  /-- Two calls of `find_set` return the same if and only if the indices are related. -/
  find_eq : ∀ x < n, ∀ y < n, ∃ s₁ s₂ r q, s.findSet x = some (s₁, r) ∧
    s₁.findSet y = some (s₂, q) ∧ (r = q ↔ EqvGen edge x y)
  /-- `union_set` returns the representative of the class that it makes. -/
  union : ∀ x < n, ∀ y < n, ∃ s' r, s.unionSet x y = some (s', r) ∧ ∀ z < n, ∃ q,
    s'.Finds z q ∧ (q = r ↔ EqvGen (fun a b => edge a b ∨ (a = x ∧ b = y)) z x)
  rank_lt : ∀ x < n, s.father x < n ∧ (s.father x ≠ x → s.rank x < s.rank (s.father x))
  /-- The links of every index lead to a root. -/
  path : ∀ x < n, ∃ r, s.father r = r ∧
    ReflTransGen (fun a b => s.father a = b ∧ s.rank a < s.rank b) x r
  count : s.getCount = (classesOf n (EqvGen edge)).ncard
  /-- `get_sep_data` lists every class in order, under its representative, and returns the
  number of the keys. -/
  sepData : ∃ s' data, s.getSepData = some (s', data) ∧ s'.getCount = data.length ∧
    (data.map (·.1)).Pairwise (· < ·) ∧
    (∀ x < n, ∃ r l, s.Finds x r ∧ ((r : Int), l) ∈ data) ∧
    ∀ q l, (q, l) ∈ data → l.Pairwise (· < ·) ∧
      ∃ x < n, ∃ r, s.Finds x r ∧ (r : Int) = q ∧ ∀ z, z ∈ l ↔ z < n ∧ EqvGen edge x z

/-! ## The state after the calls -/

/-- The sets that have been made are coloured by their representatives. -/
structure Holds (edge : Nat → Nat → Prop) (s : DisjoinSet) (rep : Nat → Nat) : Prop where
  classes : Classes s rep
  colored : Colored (Set.Iio s.mySize) edge rep

section Holds

variable {edge : Nat → Nat → Prop} {s : DisjoinSet} {rep : Nat → Nat}

theorem Holds.start (maxN : Nat) (father rank : Nat → Nat) (hnone : ∀ x y, ¬ edge x y) :
    Holds edge (init maxN father rank) id := by
  refine ⟨.blank rfl rfl id, ?_⟩
  have hempty : Set.Iio (init maxN father rank).mySize = ∅ := by
    ext x
    simp [init]
  rw [hempty]
  exact Colored.empty id hnone

theorem Holds.makeSet (h : Holds edge s rep) (hfits : s.mySize < s.maxN) :
    ∃ s' rep', s.makeSet s.mySize = some s' ∧ s'.mySize = s.mySize + 1 ∧ s'.maxN = s.maxN ∧
      Holds edge s' rep' := by
  obtain ⟨s', hmake, hsize, hmax, hclasses⟩ := makeSet_spec h.classes hfits
  refine ⟨s', _, hmake, hsize, hmax, hclasses, ?_⟩
  have hdom : Set.Iio s'.mySize = insert s.mySize (Set.Iio s.mySize) := by
    ext x
    rw [hsize, Set.mem_insert_iff, Set.mem_Iio, Set.mem_Iio]
    omega
  rw [hdom]
  have hold : Colored (Set.Iio s.mySize) edge (Function.update rep s.mySize s.mySize) := by
    refine h.colored.congr (fun _ _ => Iff.rfl) fun u hu => ?_
    exact Function.update_of_ne (Nat.ne_of_lt hu) ..
  apply hold.isolated
  intro u hu
  rw [Function.update_of_ne (Nat.ne_of_lt hu), Function.update_self]
  exact Nat.ne_of_lt (h.classes.forest.rep_lt hu)

theorem Holds.findSet (h : Holds edge s rep) {x : Nat} (hx : x < s.mySize) :
    ∃ s', s.findSet x = some (s', rep x) ∧ s'.mySize = s.mySize ∧ s'.maxN = s.maxN ∧
      Holds edge s' rep := by
  obtain ⟨s', hfind, hsize, hmax, hclasses⟩ := findSet_spec h.classes hx
  exact ⟨s', hfind, hsize, hmax, hclasses, hsize.symm ▸ h.colored⟩

theorem Holds.unionSet (h : Holds edge s rep) {x y : Nat} (hx : x < s.mySize)
    (hy : y < s.mySize) :
    ∃ s' r, s.unionSet x y = some (s', r) ∧ s'.mySize = s.mySize ∧ s'.maxN = s.maxN ∧
      merge rep x y r x = r ∧
      Holds (fun a b => edge a b ∨ (a = x ∧ b = y)) s' (merge rep x y r) := by
  obtain ⟨s', r, hunion, hsize, hmax, -, hrep, hclasses⟩ := unionSet_spec h.classes hx hy
  refine ⟨s', r, hunion, hsize, hmax, if_pos (Or.inl rfl), hclasses, ?_⟩
  rw [hsize]
  apply h.colored.join hx hy hrep
  · exact fun z hzx hzy => if_neg (not_or.mpr ⟨hzx, hzy⟩)
  · exact fun z hz => if_pos hz
  · exact fun u v => Iff.rfl

theorem Holds.linked_iff (h : Holds edge s rep) {a b : Nat} (ha : a < s.mySize)
    (hb : b < s.mySize) : s.Linked a b ↔ rep a = rep b :=
  (h.classes.forest.colored.iff_eqvGen ha hb).symm

theorem Holds.finds (h : Holds edge s rep) {x : Nat} (hx : x < s.mySize) :
    s.Finds x (rep x) := by
  obtain ⟨s', hfind, -⟩ := h.findSet hx
  exact ⟨s', hfind⟩

/-- There are as many classes as representatives. -/
theorem Holds.count (h : Holds edge s rep) :
    s.getCount = (classesOf s.mySize (EqvGen edge)).ncard := by
  have hforest := h.classes.forest
  have himage : classesOf s.mySize (EqvGen edge) =
      (fun r => {y | y < s.mySize ∧ rep r = rep y}) ''
        (UnionFind.roots s.mySize s.father : Set Nat) := by
    ext c
    have hclass : ∀ {x}, x < s.mySize → {y | y < s.mySize ∧ EqvGen edge x y} =
        {y | y < s.mySize ∧ rep x = rep y} := by
      intro x hx
      ext y
      exact and_congr_right fun hy => (h.colored.iff_eqvGen hx hy).symm
    constructor
    · rintro ⟨x, hx, rfl⟩
      refine ⟨rep x, ?_, ?_⟩
      · exact UnionFind.mem_roots.mpr ⟨hforest.rep_lt hx, hforest.father_rep hx⟩
      · rw [hclass hx]
        simp only [hforest.rep_rep hx]
    · rintro ⟨r, hr, rfl⟩
      have hlt := (UnionFind.mem_roots.mp hr).1
      exact ⟨r, hlt, (hclass hlt).symm⟩
  have hinj : Set.InjOn (fun r => {y | y < s.mySize ∧ rep r = rep y})
      (UnionFind.roots s.mySize s.father : Set Nat) := by
    intro r hr q hq heq
    obtain ⟨hr, hfr⟩ := UnionFind.mem_roots.mp hr
    obtain ⟨hq, hfq⟩ := UnionFind.mem_roots.mp hq
    have hsame : {y | y < s.mySize ∧ rep r = rep y} = {y | y < s.mySize ∧ rep q = rep y} := heq
    have hmem : r ∈ {y | y < s.mySize ∧ rep q = rep y} := by
      rw [← hsame]
      exact ⟨hr, rfl⟩
    rw [← hforest.rep_root r hr hfr, ← hforest.rep_root q hq hfq]
    exact hmem.2.symm
  rw [himage, hinj.ncard_image, Set.ncard_coe_finset]
  exact h.classes.count

/-- The keys are the representatives. -/
theorem Classes.count_eq_length (h : Classes s rep) {data : List (Int × List Nat)}
    (hdata : Buckets (fun i => (rep i : Int)) (List.range s.mySize) data) :
    s.count = data.length := by
  have hkeys : ((List.range s.mySize).map fun i => (rep i : Int)).toFinset =
      (UnionFind.roots s.mySize s.father).image fun r : Nat => (r : Int) := by
    ext q
    rw [List.mem_toFinset, List.mem_map, Finset.mem_image]
    constructor
    · rintro ⟨x, hx, rfl⟩
      have hlt := List.mem_range.mp hx
      exact ⟨rep x, UnionFind.mem_roots.mpr
        ⟨h.forest.rep_lt hlt, h.forest.father_rep hlt⟩, rfl⟩
    · rintro ⟨r, hr, rfl⟩
      obtain ⟨hlt, hroot⟩ := UnionFind.mem_roots.mp hr
      refine ⟨r, List.mem_range.mpr hlt, ?_⟩
      rw [h.forest.rep_root r hlt hroot]
  have hinj : Function.Injective fun r : Nat => (r : Int) := fun _ _ => Int.natCast_inj.mp
  rw [hdata.length_eq, hkeys, Finset.card_image_of_injective _ hinj]
  exact h.count

theorem Holds.sepData (h : Holds edge s rep) :
    ∃ s' data, s.getSepData = some (s', data) ∧ s'.getCount = data.length ∧
      (data.map (·.1)).Pairwise (· < ·) ∧
      (∀ x < s.mySize, ∃ r l, s.Finds x r ∧ ((r : Int), l) ∈ data) ∧
      ∀ q l, (q, l) ∈ data → l.Pairwise (· < ·) ∧ ∃ x < s.mySize, ∃ r, s.Finds x r ∧
        (r : Int) = q ∧ ∀ z, z ∈ l ↔ z < s.mySize ∧ EqvGen edge x z := by
  obtain ⟨s', data, hget, hsize, -, hclasses, hdata⟩ := getSepData_spec h.classes
  refine ⟨s', data, hget, hclasses.count_eq_length (hsize.symm ▸ hdata), hdata.sorted,
    fun x hx => ?_, fun q l hmem => ?_⟩
  · obtain ⟨⟨q, l⟩, hmem, hq⟩ := List.mem_map.mp (hdata.covered x (List.mem_range.mpr hx))
    subst hq
    exact ⟨rep x, l, h.finds hx, hmem⟩
  · obtain ⟨-, hl⟩ := hdata.listed q l hmem
    obtain ⟨x, hx, hkey⟩ := (hdata.mem_keys q).mp (List.mem_map.mpr ⟨_, hmem, rfl⟩)
    have hlt := List.mem_range.mp hx
    refine ⟨?_, x, hlt, rep x, h.finds hlt, hkey, fun z => ?_⟩
    · rw [hl]
      exact List.pairwise_lt_range.filter _
    · rw [hl, List.mem_filter, List.mem_range]
      refine and_congr_right fun hz => ?_
      rw [← h.colored.iff_eqvGen hlt hz, decide_eq_true_iff, ← hkey, Int.natCast_inj]
      exact eq_comm

theorem Holds.correct (h : Holds edge s rep) : Correct s.mySize edge s where
  size := rfl
  find := by
    intro x hx
    obtain ⟨s', hfind, hsize, -, h'⟩ := h.findSet hx
    refine ⟨s', rep x, hfind, fun a ha b hb => ?_⟩
    rw [h.linked_iff ha hb, h'.linked_iff (hsize.symm ▸ ha) (hsize.symm ▸ hb)]
  find_eq := by
    intro x hx y hy
    obtain ⟨s₁, hfind, hsize, -, h₁⟩ := h.findSet hx
    obtain ⟨s₂, hfind', -⟩ := h₁.findSet (hsize.symm ▸ hy)
    exact ⟨s₁, s₂, rep x, rep y, hfind, hfind', h.colored.iff_eqvGen hx hy⟩
  union := by
    intro x hx y hy
    obtain ⟨s', r, hunion, hsize, -, hr, h'⟩ := h.unionSet hx hy
    rw [← hsize] at hx
    refine ⟨s', r, hunion, fun z hz => ⟨merge rep x y r z, h'.finds (hsize.symm ▸ hz), ?_⟩⟩
    have hiff := h'.colored.iff_eqvGen (u := z) (v := x) (hsize.symm ▸ hz) hx
    rw [hr] at hiff
    exact hiff
  rank_lt := fun x hx => ⟨h.classes.forest.father_lt x hx, h.classes.forest.rank_lt x hx⟩
  path := fun x hx => ⟨rep x, h.classes.forest.father_rep hx, h.classes.forest.path_rep hx⟩
  count := h.count
  sepData := h.sepData

end Holds

/-! ## Runs -/

theorem madeBy_concat (calls : List Call) (c : Call) :
    madeBy (calls ++ [c]) = c.made (madeBy calls) := by
  rw [madeBy, List.foldl_append]
  rfl

/-- One call. -/
theorem Holds.call {done : List Call} {s : DisjoinSet} {rep : Nat → Nat}
    (h : Holds (United done) s rep) {c : Call} (hc : c.Allowed s.maxN s.mySize) :
    ∃ s' rep', s.call c = some s' ∧ s'.mySize = c.made s.mySize ∧ s'.maxN = s.maxN ∧
      Holds (United (done ++ [c])) s' rep' := by
  have hsame : (∀ x y, c ≠ .unionSet x y) → United (done ++ [c]) = United done := by
    intro hne
    ext x y
    simp [United, (hne x y).symm]
  cases c with
  | makeSet x =>
      obtain ⟨rfl, hfits⟩ := hc
      obtain ⟨s', rep', hmake, hsize, hmax, h'⟩ := h.makeSet hfits
      rw [hsame fun x y hxy => by cases hxy]
      exact ⟨s', rep', hmake, hsize, hmax, h'⟩
  | findSet x =>
      obtain ⟨s', hfind, hsize, hmax, h'⟩ := h.findSet hc
      rw [hsame fun x y hxy => by cases hxy]
      exact ⟨s', rep, by rw [DisjoinSet.call, hfind]; rfl, hsize, hmax, h'⟩
  | unionSet x y =>
      obtain ⟨hx, hy⟩ := hc
      obtain ⟨s', r, hunion, hsize, hmax, -, h'⟩ := h.unionSet hx hy
      have hedge : United (done ++ [.unionSet x y]) =
          fun a b => United done a b ∨ (a = x ∧ b = y) := by
        ext a b
        simp [United]
      rw [hedge]
      exact ⟨s', _, by rw [DisjoinSet.call, hunion]; rfl, hsize, hmax, h'⟩

theorem Holds.callAll {done calls : List Call} {s : DisjoinSet} {rep : Nat → Nat}
    (h : Holds (United done) s rep) (hsize : s.mySize = madeBy done)
    (hcalls : Allowed s.maxN s.mySize calls) :
    ∃ s' rep', s.callAll calls = some s' ∧ s'.mySize = madeBy (done ++ calls) ∧
      Holds (United (done ++ calls)) s' rep' := by
  induction calls generalizing done s rep with
  | nil =>
      rw [List.append_nil]
      exact ⟨s, rep, rfl, hsize, h⟩
  | cons c calls ih =>
      obtain ⟨hc, hrest⟩ := hcalls
      obtain ⟨s₁, rep₁, hone, hsize₁, hmax, h₁⟩ := h.call hc
      rw [← hsize₁, ← hmax] at hrest
      have hmade : s₁.mySize = madeBy (done ++ [c]) := by rw [madeBy_concat, hsize₁, hsize]
      obtain ⟨s', rep', hall, hsize', h'⟩ := ih h₁ hmade hrest
      rw [List.append_assoc, List.singleton_append] at hsize' h'
      refine ⟨s', rep', ?_, hsize', h'⟩
      rw [DisjoinSet.callAll, List.foldlM_cons, hone]
      exact hall

/-- After any calls that can be made, whatever the arrays have held before, the structure
holds the equivalence relation that the calls of `union_set` generate. -/
theorem union_find_correct (maxN : Nat) (father rank : Nat → Nat) (calls : List Call)
    (hcalls : Allowed maxN 0 calls) :
    ∃ s, (init maxN father rank).callAll calls = some s ∧
      Correct (madeBy calls) (United calls) s := by
  have hstart : Holds (United []) (init maxN father rank) id :=
    .start maxN father rank fun x y hxy => List.not_mem_nil hxy
  obtain ⟨s, rep, hall, hsize, h⟩ := hstart.callAll rfl hcalls
  refine ⟨s, hall, ?_⟩
  have hcorrect := h.correct
  rw [hsize] at hcorrect
  exact hcorrect

/-- The first two of three indices are united before the third is made. -/
theorem union_find_correct_three : let calls : List Call :=
      [.makeSet 0, .makeSet 1, .unionSet 0 1, .makeSet 2, .findSet 0]
    ∃ s, (init 3 (fun _ => 7) fun _ => 9).callAll calls = some s ∧
      Correct 3 (United calls) s ∧ s.getCount = 2 ∧
      s.getSepData.map (·.2) = some [(1, [0, 1]), (2, [2])] := by
  intro calls
  obtain ⟨s, hall, hcorrect⟩ :=
    union_find_correct 3 (fun _ => 7) (fun _ => 9) calls (by decide)
  have hrun : ((init 3 (fun _ => 7) fun _ => 9).callAll calls).bind (fun s =>
      s.getSepData.map fun r => (s.getCount, r.2)) = some (2, [(1, [0, 1]), (2, [2])]) := by
    decide
  rw [hall, Option.bind_some] at hrun
  obtain ⟨r, hget, heq⟩ := Option.map_eq_some_iff.mp hrun
  obtain ⟨hcount, hdata⟩ := Prod.mk.inj heq
  exact ⟨s, hall, hcorrect, hcount, by rw [hget, ← hdata]; rfl⟩

end DisjoinSet

end AceMesh
