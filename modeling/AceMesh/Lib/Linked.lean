import Mathlib.Data.List.Nodup
import Mathlib.Logic.Function.Basic

/-!
# Linked lists

`Linked next top l`: following `next` from `top` one finds the nodes `l`, in this order, and
then the end. The nodes live in one memory that other lists share, so the lemmas say which
writes to `next` a list does not notice.
-/

variable {α : Type*}

/-- The nodes found from `top` along `next` are `l`. -/
def Linked (next : α → Option α) (top : Option α) : List α → Prop
  | [] => top = none
  | x :: l => top = some x ∧ Linked next (next x) l

namespace Linked

variable {next : α → Option α} {top : Option α} {l : List α}

theorem nil_iff : Linked next none l ↔ l = [] := by
  cases l with
  | nil => simp [Linked]
  | cons x l => simp [Linked]

theorem cons_of_some {x : α} (h : Linked next (some x) l) :
    ∃ rest, l = x :: rest ∧ Linked next (next x) rest := by
  cases l with
  | nil => cases h
  | cons y l =>
      obtain ⟨hxy, hrest⟩ := h
      cases hxy
      exact ⟨l, rfl, hrest⟩

/-- The memory determines the list. -/
theorem unique {l' : List α} (h : Linked next top l) (h' : Linked next top l') : l = l' := by
  induction l generalizing top l' with
  | nil =>
      rw [show top = none from h] at h'
      exact (nil_iff.mp h').symm
  | cons x l ih =>
      obtain ⟨rfl, hrest⟩ := h
      obtain ⟨rest, rfl, hrest'⟩ := h'.cons_of_some
      rw [ih hrest hrest']

/-- The list determines the top. -/
theorem top_unique {top' : Option α} (h : Linked next top l) (h' : Linked next top' l) :
    top = top' := by
  cases l with
  | nil => exact Eq.trans h (Eq.symm h')
  | cons x l => exact h.1.trans h'.1.symm

theorem next_last {x : α} (h : Linked next top (l ++ [x])) : next x = none := by
  induction l generalizing top with
  | nil => exact h.2
  | cons y l ih => exact ih h.2

theorem congr {next' : α → Option α} (hnext : ∀ x ∈ l, next' x = next x)
    (h : Linked next top l) : Linked next' top l := by
  induction l generalizing top with
  | nil => exact h
  | cons x l ih =>
      obtain ⟨hx, hl⟩ := List.forall_mem_cons.mp hnext
      refine ⟨h.1, ?_⟩
      rw [hx]
      exact ih hl h.2

variable [DecidableEq α]

/-- A write to a node outside of the list. -/
theorem update {x : α} (hx : x ∉ l) (v : Option α) (h : Linked next top l) :
    Linked (Function.update next x v) top l := by
  induction l generalizing top with
  | nil => exact h
  | cons y l ih =>
      obtain ⟨hxy, hxl⟩ := not_or.mp fun hm => hx (List.mem_cons.mpr hm)
      refine ⟨h.1, ?_⟩
      rw [Function.update_of_ne (Ne.symm hxy)]
      exact ih hxl h.2

/-- A new last node. -/
theorem snoc {x y : α} (hnodup : (l ++ [x]).Nodup) (hy : y ∉ l ++ [x]) (hend : next y = none)
    (h : Linked next top (l ++ [x])) :
    Linked (Function.update next x (some y)) top (l ++ [x] ++ [y]) := by
  induction l generalizing top with
  | nil =>
      have hxy : y ≠ x := fun heq => hy (List.mem_singleton.mpr heq)
      refine ⟨h.1, Function.update_self .., ?_⟩
      change Function.update next x (some y) y = none
      rw [Function.update_of_ne hxy]
      exact hend
  | cons z l ih =>
      obtain ⟨hz, hnodup⟩ := List.nodup_cons.mp hnodup
      have hzx : z ≠ x := fun heq => hz (List.mem_append.mpr (Or.inr (List.mem_singleton.mpr heq)))
      refine ⟨h.1, ?_⟩
      rw [Function.update_of_ne hzx]
      exact ih hnodup (fun hm => hy (List.mem_cons_of_mem z hm)) h.2

end Linked
