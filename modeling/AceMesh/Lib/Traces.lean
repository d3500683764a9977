import Mathlib.Data.List.Basic
import Mathlib.Logic.Relation
import Mathlib.Order.Basic

/-!
# Equivalent traces

Neighbours of a trace that do not depend on each other may be exchanged. If dependent events
stand in the order of their keys, then exchanges sort the trace by keys (`equiv_serial`), and
they do not change what the trace computes (`Equiv.foldl_eq`).
-/

namespace Traces

variable {α κ σ : Type*} {dep : α → α → Prop} {l l' : List α}

/-- Two neighbours that do not depend on each other are exchanged. -/
inductive Exchange (dep : α → α → Prop) : List α → List α → Prop
  | swap (l r : List α) {a b : α} (h : ¬dep a b) :
      Exchange dep (l ++ a :: b :: r) (l ++ b :: a :: r)

/-- Exchanges lead from one trace to the other. -/
def Equiv (dep : α → α → Prop) : List α → List α → Prop :=
  Relation.ReflTransGen (Exchange dep)

theorem Exchange.cons (h : Exchange dep l l') (a : α) : Exchange dep (a :: l) (a :: l') := by
  cases h with
  | swap l r hab => exact Exchange.swap (a :: l) r hab

theorem Equiv.cons (h : Equiv dep l l') (a : α) : Equiv dep (a :: l) (a :: l') := by
  induction h with
  | refl => exact Relation.ReflTransGen.refl
  | tail _ hlast ih => exact ih.tail (hlast.cons a)

theorem Equiv.trans {l'' : List α} (h : Equiv dep l l') (h' : Equiv dep l' l'') :
    Equiv dep l l'' :=
  Relation.ReflTransGen.trans h h'

/-- An event moves to the back of those that do not depend on it. -/
theorem equiv_move {a : α} (r : List α) (h : ∀ b ∈ l, ¬dep a b) :
    Equiv dep (a :: (l ++ r)) (l ++ a :: r) := by
  induction l with
  | nil => exact Relation.ReflTransGen.refl
  | cons b l ih =>
      have hfirst : Exchange dep (a :: b :: (l ++ r)) (b :: a :: (l ++ r)) :=
        Exchange.swap [] (l ++ r) (h b List.mem_cons_self)
      have hrest : Equiv dep (a :: (l ++ r)) (l ++ a :: r) :=
        ih fun c hc => h c (List.mem_cons_of_mem b hc)
      exact Relation.ReflTransGen.head hfirst (hrest.cons b)

/-! ## Serial traces -/

section Serial

variable [DecidableEq κ] {key : α → κ}

/-- The events of one key after those of another, each with its own in their order. -/
def serial (key : α → κ) (order : List κ) (l : List α) : List α :=
  order.flatMap fun k => l.filter fun a => key a = k

theorem serial_append (js ks : List κ) :
    serial key (js ++ ks) l = serial key js l ++ serial key ks l :=
  List.flatMap_append

theorem serial_cons_key (k : κ) (ks : List κ) :
    serial key (k :: ks) l = l.filter (fun a => key a = k) ++ serial key ks l :=
  List.flatMap_cons

theorem serial_nil (order : List κ) : serial key order ([] : List α) = [] := by
  unfold serial
  rw [List.flatMap_eq_nil_iff]
  intro k _
  exact List.filter_nil

theorem mem_serial {order : List κ} {a : α} (h : a ∈ serial key order l) :
    a ∈ l ∧ key a ∈ order := by
  obtain ⟨k, hk, ha⟩ := List.mem_flatMap.mp h
  obtain ⟨hmem, hkey⟩ := List.mem_filter.mp ha
  have heq : key a = k := of_decide_eq_true hkey
  exact ⟨hmem, heq ▸ hk⟩

/-- An event of another key does not show. -/
theorem serial_cons_of_notMem {order : List κ} {a : α} (h : key a ∉ order) :
    serial key order (a :: l) = serial key order l := by
  unfold serial
  apply List.flatMap_congr
  intro k hk
  apply List.filter_cons_of_neg
  intro heq
  exact h (of_decide_eq_true heq ▸ hk)

variable [Preorder κ]

/-- If dependent events stand in the order of their keys, the trace is equivalent to the serial
one. -/
theorem equiv_serial {order : List κ} (horder : order.Pairwise (· < ·))
    (hmem : ∀ a ∈ l, key a ∈ order) (h : l.Pairwise fun a b => dep a b → key a ≤ key b) :
    Equiv dep l (serial key order l) := by
  induction l with
  | nil =>
      rw [serial_nil]
      exact Relation.ReflTransGen.refl
  | cons a l ih =>
      obtain ⟨hfirst, hrest⟩ := List.pairwise_cons.mp h
      have hserial : Equiv dep (a :: l) (a :: serial key order l) :=
        (ih (fun b hb => hmem b (List.mem_cons_of_mem a hb)) hrest).cons a
      -- the event has to pass those of smaller keys
      obtain ⟨js, ks, rfl⟩ := List.append_of_mem (hmem a List.mem_cons_self)
      obtain ⟨_, hks, hbelow⟩ := List.pairwise_append.mp horder
      have hjs : ∀ j ∈ js, j < key a := fun j hj => hbelow j hj (key a) List.mem_cons_self
      have hnotjs : key a ∉ js := fun hin => lt_irrefl _ (hjs _ hin)
      have hnotks : key a ∉ ks := fun hin =>
        lt_irrefl _ ((List.pairwise_cons.mp hks).1 _ hin)
      have hpass : ∀ b ∈ serial key js l, ¬dep a b := by
        intro b hb hdep
        obtain ⟨hbl, hbj⟩ := mem_serial hb
        exact lt_irrefl _ (lt_of_lt_of_le (hjs _ hbj) (hfirst b hbl hdep))
      have hown : (a :: l).filter (fun b => key b = key a) =
          a :: l.filter fun b => key b = key a :=
        List.filter_cons_of_pos (decide_eq_true rfl)
      rw [serial_append, serial_cons_key] at hserial ⊢
      rw [serial_cons_of_notMem hnotjs, serial_cons_of_notMem hnotks, hown]
      exact hserial.trans (equiv_move _ hpass)

end Serial

/-! ## What a trace computes -/

theorem Exchange.foldl_eq {f : σ → α → σ}
    (hcomm : ∀ s a b, ¬dep a b → f (f s a) b = f (f s b) a) (h : Exchange dep l l') (s : σ) :
    l.foldl f s = l'.foldl f s := by
  cases h with
  | swap l r hab =>
      rw [List.foldl_append, List.foldl_append, List.foldl_cons, List.foldl_cons,
        List.foldl_cons, List.foldl_cons, hcomm _ _ _ hab]

/-- If independent events commute, equivalent traces compute the same. -/
theorem Equiv.foldl_eq {f : σ → α → σ} (hcomm : ∀ s a b, ¬dep a b → f (f s a) b = f (f s b) a)
    (h : Equiv dep l l') (s : σ) : l.foldl f s = l'.foldl f s := by
  induction h with
  | refl => rfl
  | tail _ hlast ih => exact ih.trans (hlast.foldl_eq hcomm s)

end Traces
