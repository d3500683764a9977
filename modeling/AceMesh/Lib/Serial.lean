import Mathlib.Logic.Function.Basic
import Mathlib.Order.Basic

/-!
# Interleaved programs that equal their serial execution

Numbered programs read and write one memory, each within the addresses it has declared.
They run interleaved, access by access, under one rule: a program starts only when every
conflicting program with a smaller number has finished. Then a program that runs sees, on
its declared addresses, exactly the memory it would see if the programs ran one after
another (`Inv.running`), and an address whose writers below `k` have finished and whose
other writers have not started holds what the serial execution leaves there before `k`
(`Inv.settled`).
-/

namespace Serial

variable {A V : Type}

/-! ## Programs -/

/-- A program as the sequence of its memory accesses; what it does after a read may depend
on the value read. -/
inductive Prog (A V : Type)
  | done
  | read (a : A) (k : V → Prog A V)
  | write (a : A) (v : V) (k : Prog A V)

namespace Prog

/-- Every read is in `R` and every write in `W`. -/
def Within (R W : A → Prop) : Prog A V → Prop
  | done => True
  | read a k => R a ∧ ∀ v, (k v).Within R W
  | write a _ k => W a ∧ k.Within R W

theorem Within.mono {R R' W W' : A → Prop} {p : Prog A V} (hp : p.Within R W)
    (hread : ∀ a, R a → R' a) (hwrite : ∀ a, W a → W' a) : p.Within R' W' := by
  induction p with
  | done => trivial
  | read a k ih => exact ⟨hread a hp.1, fun v => ih v (hp.2 v)⟩
  | write a v k ih => exact ⟨hwrite a hp.1, ih hp.2⟩

variable [DecidableEq A]

/-- The memory after the program has run alone. -/
def run : Prog A V → (A → V) → A → V
  | done, mem => mem
  | read a k, mem => (k (mem a)).run mem
  | write a v k, mem => k.run (Function.update mem a v)

theorem run_frame {R W : A → Prop} {p : Prog A V} (hp : p.Within R W) (mem : A → V) {a : A}
    (ha : ¬ W a) : p.run mem a = mem a := by
  induction p generalizing mem with
  | done => rfl
  | read b k ih => exact ih (mem b) (hp.2 (mem b)) mem
  | write b v k ih =>
      have hab : a ≠ b := fun hab => ha (hab ▸ hp.1)
      exact (ih hp.2 (Function.update mem b v)).trans (Function.update_of_ne hab v mem)

end Prog

/-! ## The serial execution -/

variable [DecidableEq A]

/-- The memory after the programs `lo, …, lo + n - 1` have run one after another. -/
def serial (prog : Nat → Prog A V) (lo : Nat) (mem : A → V) : Nat → A → V
  | 0 => mem
  | n + 1 => (prog (lo + n)).run (serial prog lo mem n)

theorem serial_congr {prog prog' : Nat → Prog A V} {lo : Nat} (mem : A → V) {n : Nat}
    (h : ∀ t, lo ≤ t → t < lo + n → prog t = prog' t) :
    serial prog lo mem n = serial prog' lo mem n := by
  induction n with
  | zero => rfl
  | succ n ih =>
      have hrest := ih fun t hlo hhi => h t hlo (by omega)
      rw [serial, serial, hrest, h (lo + n) (by omega) (by omega)]

/-- The memory after the listed programs have run one after another, the last of the list
first. -/
def runAll (prog : Nat → Prog A V) : List Nat → (A → V) → A → V
  | [], mem => mem
  | t :: ts, mem => (prog t).run (runAll prog ts mem)

theorem runAll_congr {prog prog' : Nat → Prog A V} {l : List Nat}
    (h : ∀ t ∈ l, prog t = prog' t) (mem : A → V) : runAll prog l mem = runAll prog' l mem := by
  induction l with
  | nil => rfl
  | cons t l ih =>
      have hrest := ih fun u hu => h u (List.mem_cons_of_mem t hu)
      rw [runAll, runAll, hrest, h t List.mem_cons_self]

theorem runAll_range' (prog : Nat → Prog A V) (lo : Nat) (mem : A → V) (n : Nat) :
    runAll prog (List.range' lo n).reverse mem = serial prog lo mem n := by
  induction n with
  | zero => rfl
  | succ n ih =>
      rw [List.range'_concat, List.reverse_append, serial, ← ih, Nat.one_mul]
      rfl

/-- The declared addresses of every program. -/
structure Declared (A V : Type) where
  prog : Nat → Prog A V
  reads : Nat → A → Prop
  writes : Nat → A → Prop
  within : ∀ t, (prog t).Within (reads t) (writes t)

variable (d : Declared A V)

def Declared.touches (t : Nat) (a : A) : Prop := d.reads t a ∨ d.writes t a

/-- One of the two writes an address the other one touches. -/
def Declared.Conflict (t u : Nat) : Prop :=
  ∃ a, (d.writes t a ∧ d.touches u a) ∨ (d.touches t a ∧ d.writes u a)

omit [DecidableEq A] in
theorem Declared.Conflict.symm {d : Declared A V} {t u : Nat} (h : d.Conflict t u) :
    d.Conflict u t := by
  obtain ⟨a, ⟨hw, ht⟩ | ⟨ht, hw⟩⟩ := h
  · exact ⟨a, Or.inr ⟨ht, hw⟩⟩
  · exact ⟨a, Or.inl ⟨hw, ht⟩⟩

/-- An address keeps its value over programs that do not write it. -/
theorem serial_eq_of_no_writer (lo : Nat) (mem : A → V) {a : A} {j k : Nat} (hjk : j ≤ k)
    (hno : ∀ t, lo + j ≤ t → t < lo + k → ¬ d.writes t a) :
    serial d.prog lo mem k a = serial d.prog lo mem j a := by
  induction k with
  | zero =>
      have : j = 0 := by omega
      rw [this]
  | succ k ih =>
      by_cases hj : j = k + 1
      · rw [hj]
      · have hlast : ¬ d.writes (lo + k) a := hno (lo + k) (by omega) (by omega)
        have hrest := ih (by omega) fun t hlo hhi => hno t hlo (by omega)
        exact ((d.prog (lo + k)).run_frame (d.within (lo + k)) _ hlast).trans hrest

/-! ## Interleaved execution -/

structure State (A V : Type) where
  mem : A → V
  /-- What is left of a program that runs. -/
  rest : Nat → Option (Prog A V)
  started : Nat → Prop
  finished : Nat → Prop

/-- One step of one of the programs `lo ≤ t < hi`. -/
inductive Step (lo hi : Nat) (s : State A V) : State A V → Prop
  | start (t : Nat) (range : lo ≤ t ∧ t < hi) (fresh : ¬ s.started t)
      (after : ∀ u, lo ≤ u → u < t → d.Conflict u t → s.finished u) :
      Step lo hi s
        { s with
          rest := Function.update s.rest t (some (d.prog t))
          started := fun u => s.started u ∨ u = t }
  | read (t : Nat) (a : A) (k : V → Prog A V) (running : s.rest t = some (.read a k)) :
      Step lo hi s { s with rest := Function.update s.rest t (some (k (s.mem a))) }
  | write (t : Nat) (a : A) (v : V) (k : Prog A V) (running : s.rest t = some (.write a v k)) :
      Step lo hi s
        { s with
          mem := Function.update s.mem a v
          rest := Function.update s.rest t (some k) }
  | finish (t : Nat) (running : s.rest t = some .done) :
      Step lo hi s
        { s with
          rest := Function.update s.rest t none
          finished := fun u => s.finished u ∨ u = t }

/-- Nothing has started. -/
def State.init (mem : A → V) : State A V := ⟨mem, fun _ => none, fun _ => False, fun _ => False⟩

/-- What holds in every reachable state. -/
structure Inv (lo hi : Nat) (mem₀ : A → V) (s : State A V) : Prop where
  range : ∀ t, s.started t → lo ≤ t ∧ t < hi
  finished : ∀ t, s.finished t → s.started t ∧ s.rest t = none
  rest : ∀ t p, s.rest t = some p → s.started t
  after : ∀ t, s.started t → ∀ u, lo ≤ u → u < t → d.Conflict u t → s.finished u
  running : ∀ t p, s.rest t = some p → ∃ mem, p.Within (d.reads t) (d.writes t) ∧
    p.run mem = (d.prog t).run (serial d.prog lo mem₀ (t - lo)) ∧
    ∀ a, d.touches t a → mem a = s.mem a
  settled : ∀ a k, lo + k ≤ hi →
    (∀ t, lo ≤ t → t < lo + k → d.writes t a → s.finished t) →
    (∀ t, lo + k ≤ t → t < hi → d.writes t a → ¬ s.started t) →
    s.mem a = serial d.prog lo mem₀ k a

theorem Inv.init (lo hi : Nat) (mem : A → V) : Inv d lo hi mem (State.init mem) where
  range := fun t h => h.elim
  finished := fun t h => h.elim
  rest := fun t p h => by cases h
  after := fun t h => h.elim
  running := fun t p h => by cases h
  settled := fun a k _ hfin _ => by
    refine (serial_eq_of_no_writer d lo mem (Nat.zero_le k) fun t hlo hhi hw => ?_).symm
    exact hfin t hlo hhi hw

variable {d} {lo hi : Nat} {mem₀ : A → V} {s s' : State A V}

omit [DecidableEq A] in
/-- What one program has left after another one's has been replaced. -/
theorem update_rest {rest : Nat → Option (Prog A V)} {t u : Nat} {q : Option (Prog A V)}
    {p : Prog A V} (h : Function.update rest t q u = some p) :
    (u = t ∧ q = some p) ∨ (u ≠ t ∧ rest u = some p) := by
  by_cases hut : u = t
  · subst hut
    rw [Function.update_self] at h
    exact Or.inl ⟨rfl, h⟩
  · rw [Function.update_of_ne hut] at h
    exact Or.inr ⟨hut, h⟩

/-- A finished program has nothing left, whatever happens to one that runs. -/
theorem Inv.finished_update (h : Inv d lo hi mem₀ s) {t u : Nat} {p : Prog A V}
    (hrun : s.rest t = some p) (q : Option (Prog A V)) (hu : s.finished u) :
    s.started u ∧ Function.update s.rest t q u = none := by
  have hfin := h.finished u hu
  have hne : u ≠ t := by
    rintro rfl
    rw [hrun] at hfin
    cases hfin.2
  exact ⟨hfin.1, (Function.update_of_ne hne _ _).trans hfin.2⟩

/-- A program that runs conflicts with no other one that runs. -/
theorem Inv.no_conflict (h : Inv d lo hi mem₀ s) {t u : Nat} {p q : Prog A V}
    (ht : s.rest t = some p) (hu : s.rest u = some q) (hne : t ≠ u) : ¬ d.Conflict t u := by
  intro hc
  have hts := h.rest t p ht
  have hus := h.rest u q hu
  rcases Nat.lt_or_gt_of_ne hne with hlt | hlt
  · have := (h.finished t (h.after u hus t (h.range t hts).1 hlt hc)).2
    rw [ht] at this
    cases this
  · have := (h.finished u (h.after t hts u (h.range u hus).1 hlt hc.symm)).2
    rw [hu] at this
    cases this

/-- A program starts on the memory the serial execution gives it. -/
theorem Inv.mem_at_start (h : Inv d lo hi mem₀ s) {t : Nat} (hlo : lo ≤ t) (hhi : t < hi)
    (hfresh : ¬ s.started t)
    (hafter : ∀ u, lo ≤ u → u < t → d.Conflict u t → s.finished u) {a : A}
    (ha : d.touches t a) : s.mem a = serial d.prog lo mem₀ (t - lo) a := by
  have ht : lo + (t - lo) = t := by omega
  refine h.settled a (t - lo) (by omega) ?_ ?_
  · intro u hulo huhi hw
    exact hafter u hulo (by omega) ⟨a, Or.inl ⟨hw, ha⟩⟩
  · intro u hulo huhi hw hus
    by_cases hut : u = t
    · exact hfresh (hut ▸ hus)
    · have hfin := h.after u hus t hlo (by omega) ⟨a, Or.inr ⟨ha, hw⟩⟩
      exact hfresh (h.finished t hfin).1

theorem Inv.start (h : Inv d lo hi mem₀ s) {t : Nat} (hrange : lo ≤ t ∧ t < hi)
    (hfresh : ¬ s.started t)
    (hafter : ∀ u, lo ≤ u → u < t → d.Conflict u t → s.finished u) :
    Inv d lo hi mem₀
      { s with
        rest := Function.update s.rest t (some (d.prog t))
        started := fun u => s.started u ∨ u = t } where
  range := by
    rintro u (hu | rfl)
    · exact h.range u hu
    · exact hrange
  finished := fun u hu => by
    have hu := h.finished u hu
    have hne : u ≠ t := fun hut => hfresh (hut ▸ hu.1)
    exact ⟨Or.inl hu.1, (Function.update_of_ne hne _ _).trans hu.2⟩
  rest := fun u p hp => by
    rcases update_rest hp with ⟨hut, -⟩ | ⟨-, hp⟩
    · exact Or.inr hut
    · exact Or.inl (h.rest u p hp)
  after := by
    rintro u (hu | rfl)
    · exact h.after u hu
    · exact hafter
  running := fun u p hp => by
    rcases update_rest hp with ⟨rfl, hq⟩ | ⟨-, hq⟩
    · obtain rfl := Option.some.inj hq
      exact ⟨serial d.prog lo mem₀ (u - lo), d.within u, rfl,
        fun a ha => (h.mem_at_start hrange.1 hrange.2 hfresh hafter ha).symm⟩
    · exact h.running u p hq
  settled := fun a k hk hfin hnot =>
    h.settled a k hk hfin fun u hlo hhi hw hu => hnot u hlo hhi hw (Or.inl hu)

theorem Inv.read (h : Inv d lo hi mem₀ s) {t : Nat} {a : A} {k : V → Prog A V}
    (hrun : s.rest t = some (.read a k)) :
    Inv d lo hi mem₀ { s with rest := Function.update s.rest t (some (k (s.mem a))) } where
  range := h.range
  finished := fun u hu => h.finished_update hrun _ hu
  rest := fun u p hp => by
    rcases update_rest hp with ⟨rfl, -⟩ | ⟨-, hp⟩
    · exact h.rest u _ hrun
    · exact h.rest u p hp
  after := h.after
  running := fun u p hp => by
    rcases update_rest hp with ⟨rfl, hq⟩ | ⟨-, hq⟩
    · obtain rfl := Option.some.inj hq
      obtain ⟨mem, hwithin, hserial, hagree⟩ := h.running u _ hrun
      -- the value read is the one the serial execution reads
      have hval : mem a = s.mem a := hagree a (Or.inl hwithin.1)
      refine ⟨mem, hwithin.2 _, ?_, hagree⟩
      rw [← hserial, ← hval]
      rfl
    · exact h.running u p hq
  settled := h.settled

theorem Inv.write (h : Inv d lo hi mem₀ s) {t : Nat} {a : A} {v : V} {k : Prog A V}
    (hrun : s.rest t = some (.write a v k)) :
    Inv d lo hi mem₀
      { s with
        mem := Function.update s.mem a v
        rest := Function.update s.rest t (some k) } where
  range := h.range
  finished := fun u hu => h.finished_update hrun _ hu
  rest := fun u p hp => by
    rcases update_rest hp with ⟨rfl, -⟩ | ⟨-, hp⟩
    · exact h.rest u _ hrun
    · exact h.rest u p hp
  after := h.after
  running := fun u p hp => by
    obtain ⟨mem, hwithin, hserial, hagree⟩ := h.running t _ hrun
    rcases update_rest hp with ⟨rfl, hq⟩ | ⟨hut, hq⟩
    · obtain rfl := Option.some.inj hq
      refine ⟨Function.update mem a v, hwithin.2, hserial, fun b hb => ?_⟩
      change Function.update mem a v b = Function.update s.mem a v b
      by_cases hba : b = a
      · rw [hba, Function.update_self, Function.update_self]
      · rw [Function.update_of_ne hba, Function.update_of_ne hba]
        exact hagree b hb
    · obtain ⟨mem', hwithin', hserial', hagree'⟩ := h.running u p hq
      refine ⟨mem', hwithin', hserial', fun b hb => ?_⟩
      -- the written address is not one of the other program's
      have hba : b ≠ a := by
        rintro rfl
        exact h.no_conflict hrun hq (Ne.symm hut) ⟨b, Or.inl ⟨hwithin.1, hb⟩⟩
      exact (hagree' b hb).trans (Function.update_of_ne hba v s.mem).symm
  settled := fun b k' hk hfin hnot => by
    obtain ⟨mem, hwithin, -⟩ := h.running t _ hrun
    have hstarted := h.rest t _ hrun
    have hrange := h.range t hstarted
    have hba : b ≠ a := by
      rintro rfl
      by_cases hlt : t < lo + k'
      · have := (h.finished t (hfin t hrange.1 hlt hwithin.1)).2
        rw [hrun] at this
        cases this
      · exact hnot t (by omega) hrange.2 hwithin.1 hstarted
    change Function.update s.mem a v b = _
    rw [Function.update_of_ne hba]
    exact h.settled b k' hk hfin hnot

theorem Inv.finish (h : Inv d lo hi mem₀ s) {t : Nat} (hrun : s.rest t = some .done) :
    Inv d lo hi mem₀
      { s with
        rest := Function.update s.rest t none
        finished := fun u => s.finished u ∨ u = t } where
  range := h.range
  finished := by
    rintro u (hu | rfl)
    · exact h.finished_update hrun _ hu
    · exact ⟨h.rest u _ hrun, Function.update_self u none s.rest⟩
  rest := fun u p hp => by
    rcases update_rest hp with ⟨-, hp⟩ | ⟨-, hp⟩
    · cases hp
    · exact h.rest u p hp
  after := fun u hu v hlo hlt hc => Or.inl (h.after u hu v hlo hlt hc)
  running := fun u p hp => by
    rcases update_rest hp with ⟨-, hp⟩ | ⟨-, hp⟩
    · cases hp
    · exact h.running u p hp
  settled := fun a k hk hfin hnot => by
    have hstarted := h.rest t _ hrun
    have hrange := h.range t hstarted
    by_cases hw : d.writes t a
    · -- the address holds what this program leaves there, and no later writer has run
      by_cases hlt : t < lo + k
      · obtain ⟨mem, -, hserial, hagree⟩ := h.running t _ hrun
        have hlater : ∀ u, lo + (t - lo + 1) ≤ u → u < lo + k → ¬ d.writes u a := by
          intro u hulo huhi hwu
          rcases hfin u (by omega) huhi hwu with hu | hu
          · have hc : d.Conflict t u := ⟨a, Or.inl ⟨hw, Or.inr hwu⟩⟩
            have := (h.finished t (h.after u (h.finished u hu).1 t hrange.1 (by omega) hc)).2
            rw [hrun] at this
            cases this
          · omega
        have ht : lo + (t - lo) = t := by omega
        calc
          s.mem a = mem a := (hagree a (Or.inr hw)).symm
          _ = (d.prog t).run (serial d.prog lo mem₀ (t - lo)) a := congrFun hserial a
          _ = serial d.prog lo mem₀ (t - lo + 1) a := by rw [serial, ht]
          _ = serial d.prog lo mem₀ k a :=
            (serial_eq_of_no_writer d lo mem₀ (by omega) hlater).symm
      · exact absurd hstarted (hnot t (by omega) hrange.2 hw)
    · refine h.settled a k hk (fun u hlo hhi hwu => ?_) hnot
      exact (hfin u hlo hhi hwu).resolve_right fun hut => hw (hut ▸ hwu)

theorem Inv.step (h : Inv d lo hi mem₀ s) (hs : Step d lo hi s s') : Inv d lo hi mem₀ s' := by
  cases hs with
  | start t hrange hfresh hafter => exact h.start hrange hfresh hafter
  | read t a k hrun => exact h.read hrun
  | write t a v k hrun => exact h.write hrun
  | finish t hrun => exact h.finish hrun

/-- When every program has finished, the memory is that of the serial execution. -/
theorem Inv.serial_of_finished (h : Inv d lo hi mem₀ s) (hle : lo ≤ hi)
    (hall : ∀ t, lo ≤ t → t < hi → s.finished t) :
    s.mem = serial d.prog lo mem₀ (hi - lo) := by
  funext a
  refine h.settled a (hi - lo) (by omega) (fun t hlo hhi _ => hall t hlo (by omega)) ?_
  intro t hlo hhi
  omega

end Serial
