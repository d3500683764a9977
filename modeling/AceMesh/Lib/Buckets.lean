import Mathlib.Data.Finset.Card
import Mathlib.Data.List.Basic
import Mathlib.Order.Lattice

/-!
# Sorting elements into buckets

A map from keys to lists, kept as a list in the order of the keys. `push` appends an element
to the list of its key and makes the entry when there is none. After the elements of a list
have been pushed one after the other, the map lists them by key (`Buckets`).
-/

namespace Buckets

variable {κ α : Type*} [LinearOrder κ]

def push (k : κ) (a : α) : List (κ × List α) → List (κ × List α)
  | [] => [(k, [a])]
  | (q, l) :: m =>
    if k < q then (k, [a]) :: (q, l) :: m
    else if q = k then (q, l ++ [a]) :: m
    else (q, l) :: push k a m

theorem mem_keys_push (k : κ) (a : α) (m : List (κ × List α)) (q : κ) :
    q ∈ (push k a m).map (·.1) ↔ q = k ∨ q ∈ m.map (·.1) := by
  induction m with
  | nil => simp [push]
  | cons p m ih =>
      obtain ⟨q', l⟩ := p
      by_cases hlt : k < q'
      · simp [push, hlt]
      · by_cases heq : q' = k
        · subst heq
          simp only [push, if_neg hlt, if_true, List.map_cons, List.mem_cons, or_self_left]
        · simp only [push, if_neg hlt, if_neg heq, List.map_cons, List.mem_cons, ih]
          tauto

theorem sorted_push (k : κ) (a : α) {m : List (κ × List α)}
    (hm : (m.map (·.1)).Pairwise (· < ·)) : ((push k a m).map (·.1)).Pairwise (· < ·) := by
  induction m with
  | nil => simp [push]
  | cons p m ih =>
      obtain ⟨q, l⟩ := p
      obtain ⟨hq, hrest⟩ := List.pairwise_cons.mp hm
      by_cases hlt : k < q
      · rw [push, if_pos hlt]
        refine List.pairwise_cons.mpr ⟨fun x hx => ?_, hm⟩
        rcases List.mem_cons.mp hx with rfl | hx
        · exact hlt
        · exact lt_trans hlt (hq x hx)
      · by_cases heq : q = k
        · rw [push, if_neg hlt, if_pos heq]
          exact List.pairwise_cons.mpr ⟨hq, hrest⟩
        · rw [push, if_neg hlt, if_neg heq]
          refine List.pairwise_cons.mpr ⟨fun x hx => ?_, ih hrest⟩
          rcases (mem_keys_push k a m x).mp hx with rfl | hx
          · exact lt_of_le_of_ne (not_lt.mp hlt) heq
          · exact hq x hx

theorem mem_push {k : κ} {a : α} {m : List (κ × List α)}
    (hm : (m.map (·.1)).Pairwise (· < ·)) {q : κ} {l : List α} (hmem : (q, l) ∈ push k a m) :
    (q ≠ k ∧ (q, l) ∈ m) ∨
      (q = k ∧ ((∃ l₀, (k, l₀) ∈ m ∧ l = l₀ ++ [a]) ∨ (k ∉ m.map (·.1) ∧ l = [a]))) := by
  induction m with
  | nil =>
      simp only [push, List.mem_singleton, Prod.mk.injEq] at hmem
      exact Or.inr ⟨hmem.1, Or.inr ⟨by simp, hmem.2⟩⟩
  | cons p m ih =>
      obtain ⟨q', l'⟩ := p
      obtain ⟨hq, hrest⟩ := List.pairwise_cons.mp hm
      have hne : ∀ {x y}, (x, y) ∈ m → q' < x := fun hxy => hq _ (List.mem_map.mpr ⟨_, hxy, rfl⟩)
      by_cases hlt : k < q'
      · rw [push, if_pos hlt] at hmem
        rcases List.mem_cons.mp hmem with heq | hmem
        · cases heq
          refine Or.inr ⟨rfl, Or.inr ⟨fun hk => ?_, rfl⟩⟩
          rcases List.mem_cons.mp hk with hk | hk
          · exact absurd hk (ne_of_lt hlt)
          · exact lt_asymm hlt (hq k hk)
        · refine Or.inl ⟨?_, hmem⟩
          rcases List.mem_cons.mp hmem with heq | hmem
          · cases heq
            exact ne_of_gt hlt
          · exact ne_of_gt (lt_trans hlt (hne hmem))
      · by_cases heq : q' = k
        · subst heq
          rw [push, if_neg hlt, if_pos rfl] at hmem
          rcases List.mem_cons.mp hmem with heq | hmem
          · cases heq
            exact Or.inr ⟨rfl, Or.inl ⟨l', List.mem_cons_self, rfl⟩⟩
          · exact Or.inl ⟨ne_of_gt (hne hmem), List.mem_cons_of_mem _ hmem⟩
        · rw [push, if_neg hlt, if_neg heq] at hmem
          rcases List.mem_cons.mp hmem with hhead | hmem
          · cases hhead
            exact Or.inl ⟨heq, List.mem_cons_self⟩
          · rcases ih hrest hmem with ⟨hqk, hold⟩ | ⟨hqk, ⟨l₀, hold, hl⟩ | ⟨hnew, hl⟩⟩
            · exact Or.inl ⟨hqk, List.mem_cons_of_mem _ hold⟩
            · exact Or.inr ⟨hqk, Or.inl ⟨l₀, List.mem_cons_of_mem _ hold, hl⟩⟩
            · refine Or.inr ⟨hqk, Or.inr ⟨fun hk => ?_, hl⟩⟩
              rcases List.mem_cons.mp hk with hk | hk
              · exact heq hk.symm
              · exact hnew hk

end Buckets

/-- The map lists the elements of `xs` by key. -/
structure Buckets {κ α : Type*} [LinearOrder κ] (key : α → κ) (xs : List α)
    (m : List (κ × List α)) : Prop where
  sorted : (m.map (·.1)).Pairwise (· < ·)
  listed : ∀ q l, (q, l) ∈ m → l ≠ [] ∧ l = xs.filter (key · = q)
  covered : ∀ a ∈ xs, key a ∈ m.map (·.1)

namespace Buckets

variable {κ α : Type*} [LinearOrder κ] {key : α → κ} {xs : List α} {m : List (κ × List α)}

theorem nil (key : α → κ) : Buckets key [] [] := ⟨List.Pairwise.nil, by simp, by simp⟩

theorem pushed (h : Buckets key xs m) (a : α) : Buckets key (xs ++ [a]) (push (key a) a m) where
  sorted := sorted_push (key a) a h.sorted
  listed := fun q l hmem => by
    rw [List.filter_append]
    rcases mem_push h.sorted hmem with ⟨hqk, hold⟩ | ⟨rfl, ⟨l₀, hold, rfl⟩ | ⟨hnew, rfl⟩⟩
    · obtain ⟨hne, hl⟩ := h.listed q l hold
      refine ⟨hne, ?_⟩
      simp [← hl, Ne.symm hqk]
    · obtain ⟨-, hl⟩ := h.listed _ l₀ hold
      refine ⟨by simp, ?_⟩
      simp [← hl]
    · have hnil : xs.filter (key · = key a) = [] :=
        List.filter_eq_nil_iff.mpr fun x hx hkey => hnew (by
          rw [← of_decide_eq_true hkey]
          exact h.covered x hx)
      rw [hnil]
      simp
  covered := fun x hx => by
    rw [mem_keys_push]
    rcases List.mem_append.mp hx with hx | hx
    · exact Or.inr (h.covered x hx)
    · exact Or.inl (congrArg key (List.mem_singleton.mp hx))

/-- Another key on elements that are not listed. -/
theorem congr (h : Buckets key xs m) {key' : α → κ} (heq : ∀ a ∈ xs, key' a = key a) :
    Buckets key' xs m where
  sorted := h.sorted
  listed := fun q l hmem => by
    obtain ⟨hne, hl⟩ := h.listed q l hmem
    refine ⟨hne, hl.trans (List.filter_congr fun a ha => ?_)⟩
    rw [heq a ha]
  covered := fun a ha => heq a ha ▸ h.covered a ha

/-- The elements are named differently. -/
theorem map (h : Buckets key xs m) {β : Type*} (f : α → β) {key' : β → κ}
    (hkey : ∀ a ∈ xs, key' (f a) = key a) :
    Buckets key' (xs.map f) (m.map fun b => (b.1, b.2.map f)) where
  sorted := by
    rw [List.map_map]
    exact h.sorted
  listed := fun q l hmem => by
    obtain ⟨⟨q', l'⟩, hold, heq⟩ := List.mem_map.mp hmem
    cases heq
    obtain ⟨hne, hl⟩ := h.listed q' l' hold
    refine ⟨fun hnil => hne (List.map_eq_nil_iff.mp hnil), ?_⟩
    rw [List.filter_map, hl]
    refine congrArg (List.map f) (List.filter_congr fun a ha => ?_)
    rw [Function.comp_apply, hkey a ha]
  covered := fun b hb => by
    obtain ⟨a, ha, rfl⟩ := List.mem_map.mp hb
    rw [hkey a ha, List.map_map]
    exact h.covered a ha

theorem mem_keys (h : Buckets key xs m) (q : κ) :
    q ∈ m.map (·.1) ↔ ∃ a ∈ xs, key a = q := by
  constructor
  · intro hq
    obtain ⟨⟨q', l⟩, hmem, rfl⟩ := List.mem_map.mp hq
    obtain ⟨hne, hl⟩ := h.listed q' l hmem
    obtain ⟨a, ha⟩ := List.exists_mem_of_ne_nil l hne
    rw [hl, List.mem_filter] at ha
    exact ⟨a, ha.1, of_decide_eq_true ha.2⟩
  · rintro ⟨a, ha, rfl⟩
    exact h.covered a ha

theorem length_eq (h : Buckets key xs m) : m.length = (xs.map key).toFinset.card := by
  have hkeys : (m.map (·.1)).toFinset = (xs.map key).toFinset := by
    ext q
    rw [List.mem_toFinset, List.mem_toFinset, h.mem_keys, List.mem_map]
  have hnodup : (m.map (·.1)).Nodup := h.sorted.imp fun hlt => ne_of_lt hlt
  rw [← hkeys, List.toFinset_card_of_nodup hnodup, List.length_map]

end Buckets
