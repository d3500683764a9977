import AceMesh.Lib.Release

/-!
# Jobs that may be suspended

The jobs of a finite graph are executed by threads. A job is ready when no edge into it is
left to walk (`Release.pending`). A run of a job ends suspended or not: after a suspended run
the job is ready once more, after the other the thread walks the edges out of the job, and
with each of them it may release a job. `Step` says all that can happen, in any order;
`Inv` says where this leads:

* what has happened to one job is a number of suspended runs and a beginning of the final
  run (`Inv.follows`);
* a job starts after the final runs of all jobs before it (`Inv.order`);
* when no edge into the sink is left, every job is through (`Inv.done_of_sink`).
-/

namespace Suspend

variable {α θ : Type*}

/-! ## Stages and events -/

/-- How far a job is. The last stages know the thread of the final run. -/
inductive Stage (θ : Type*)
  | waiting
  | ready
  | started (i : θ)
  | stopped (i : θ) (suspended : Bool)
  /-- The thread has walked `k` edges. -/
  | walking (i : θ) (k : Nat)
  | gone (i : θ) (deleted : Bool)
  deriving DecidableEq

/-- What can happen to a job. -/
inductive Act (α : Type*)
  | start
  | finish (suspended : Bool)
  | requeue
  | walk (succ : α)
  | delete
  deriving DecidableEq, Repr

structure Event (α θ : Type*) where
  thread : θ
  job : α
  act : Act α
  deriving DecidableEq

structure State (α θ : Type*) where
  stage : α → Stage θ
  log : List (Event α θ)

namespace Stage

/-- The thread at work is known. -/
def thread : Stage θ → Option θ
  | .waiting | .ready => none
  | .started i | .stopped i _ | .walking i _ | .gone i _ => some i

/-- The thread that has finished the final run. -/
def finisher : Stage θ → Option θ
  | .waiting | .ready | .started _ | .stopped _ true => none
  | .stopped i false | .walking i _ | .gone i _ => some i

/-- The number of walked edges, of `len`. -/
def done (len : Nat) : Stage θ → Nat
  | .waiting | .ready | .started _ | .stopped _ _ => 0
  | .walking _ k => k
  | .gone _ _ => len

/-- The job is somewhere: to be found and executed, or in the hand of a thread. -/
def placed : Stage θ → Bool
  | .waiting | .gone _ _ => false
  | _ => true

end Stage

section History

variable [DecidableEq α]

/-- What has happened to one job. -/
def history (log : List (Event α θ)) (t : α) : List (Act α) :=
  (log.filter fun ev => ev.job = t).map Event.act

theorem history_append (log : List (Event α θ)) (ev : Event α θ) (t : α) :
    history (log ++ [ev]) t = history log t ++ if ev.job = t then [ev.act] else [] := by
  unfold history
  rw [List.filter_append, List.map_append, List.filter_singleton]
  by_cases h : ev.job = t
  · simp [h]
  · simp [h]

/-- The history after a step of job `t` that may be recorded. -/
theorem history_act (log : List (Event α θ)) (i : θ) (t : α) (act : Option (Act α)) (u : α) :
    history (log ++ (act.map (Event.mk i t)).toList) u =
      history log u ++ if t = u then act.toList else [] := by
  cases act with
  | none => simp
  | some act => exact history_append log ⟨i, t, act⟩ u

theorem mem_history {log : List (Event α θ)} {t : α} {act : Act α} :
    act ∈ history log t ↔ ∃ i, (⟨i, t, act⟩ : Event α θ) ∈ log := by
  constructor
  · intro h
    obtain ⟨ev, hev, rfl⟩ := List.mem_map.mp h
    obtain ⟨hmem, hjob⟩ := List.mem_filter.mp hev
    have hjob : ev.job = t := by simpa using hjob
    subst hjob
    exact ⟨ev.thread, hmem⟩
  · rintro ⟨i, h⟩
    exact List.mem_map.mpr ⟨_, List.mem_filter.mpr ⟨h, by simp⟩, rfl⟩

end History

/-- Run, left suspended, put back. -/
def suspendedRun : List (Act α) := [.start, .finish true, .requeue]

def suspendedRuns (n : Nat) : List (Act α) := (List.replicate n suspendedRun).flatten

/-- Run to the end and walk every edge, each once and in order. -/
def finalRun (outs : List α) : List (Act α) :=
  .start :: .finish false :: outs.map .walk

/-- What has happened to a job since it was last ready. -/
def Stage.tail (outs : List α) : Stage θ → List (Act α)
  | .waiting | .ready => []
  | .started _ => [.start]
  | .stopped _ suspended => [.start, .finish suspended]
  | .walking _ k => finalRun (outs.take k)
  | .gone _ deleted => finalRun outs ++ if deleted then [.delete] else []

theorem suspendedRuns_succ (n : Nat) :
    (suspendedRuns (n + 1) : List (Act α)) = suspendedRuns n ++ suspendedRun := by
  unfold suspendedRuns
  rw [List.replicate_succ', List.flatten_append, List.flatten_singleton]

theorem finalRun_take_succ {outs : List α} {k : Nat} {x : α} (hx : outs[k]? = some x) :
    finalRun (outs.take (k + 1)) = finalRun (outs.take k) ++ [.walk x] := by
  unfold finalRun
  rw [List.take_add_one, hx, List.map_append]
  rfl

/-- At every stage some number of suspended runs and the final run are begun. -/
theorem Stage.tail_begins (outs : List α) (σ : Stage θ) (n : Nat) :
    ∃ n', suspendedRuns n ++ σ.tail outs <+: suspendedRuns n' ++ (finalRun outs ++ [.delete]) := by
  have hfinal : ∀ l : List (Act α), l <+: finalRun outs ++ [.delete] →
      ∃ n', suspendedRuns n ++ l <+: suspendedRuns n' ++ (finalRun outs ++ [.delete]) :=
    fun l hl => ⟨n, (List.prefix_append_right_inj _).mpr hl⟩
  cases σ with
  | waiting => exact hfinal [] List.nil_prefix
  | ready => exact hfinal [] List.nil_prefix
  | started i => exact hfinal [.start] ⟨.finish false :: outs.map .walk ++ [.delete], rfl⟩
  | stopped i suspended =>
      cases suspended with
      | false => exact hfinal [.start, .finish false] ⟨outs.map .walk ++ [.delete], rfl⟩
      | true =>
          refine ⟨n + 1, ?_⟩
          rw [suspendedRuns_succ, List.append_assoc]
          apply (List.prefix_append_right_inj _).mpr
          exact ⟨.requeue :: (finalRun outs ++ [.delete]), rfl⟩
  | walking i k =>
      apply hfinal
      refine ⟨(outs.drop k).map .walk ++ [.delete], ?_⟩
      have hsplit : (outs.take k).map Act.walk ++ (outs.drop k).map Act.walk = outs.map .walk := by
        rw [← List.map_append, List.take_append_drop]
      simp only [Stage.tail, finalRun, ← hsplit, List.cons_append, List.append_assoc]
  | gone i deleted =>
      cases deleted with
      | false => exact hfinal _ ⟨[.delete], by simp [Stage.tail]⟩
      | true => exact hfinal _ (List.prefix_refl _)

/-- The other end of a walked edge. -/
def Act.target : Act α → Option α
  | .walk x => some x
  | _ => none

theorem filterMap_target_walks (l : List α) : (l.map Act.walk).filterMap Act.target = l := by
  rw [List.filterMap_map]
  exact List.filterMap_some

theorem filterMap_target_suspendedRuns (n : Nat) :
    (suspendedRuns n : List (Act α)).filterMap Act.target = [] := by
  rw [List.filterMap_eq_nil_iff]
  intro act hact
  obtain ⟨l, hl, hmem⟩ := List.mem_flatten.mp hact
  rw [List.eq_of_mem_replicate hl] at hmem
  simp only [suspendedRun, List.mem_cons, List.not_mem_nil, or_false] at hmem
  obtain rfl | rfl | rfl := hmem <;> rfl

theorem Stage.filterMap_target_tail (outs : List α) (σ : Stage θ) :
    (σ.tail outs).filterMap Act.target = outs.take (σ.done outs.length) := by
  have hfinal : ∀ l : List α, (finalRun l).filterMap Act.target = l := filterMap_target_walks
  cases σ with
  | waiting => rfl
  | ready => rfl
  | started i => rfl
  | stopped i suspended => rfl
  | walking i k => exact hfinal _
  | gone i deleted =>
      show (finalRun outs ++ _).filterMap Act.target = outs.take outs.length
      rw [List.filterMap_append, hfinal, List.take_length]
      cases deleted <;> exact List.append_nil _

/-! ## Steps -/

/-- One job is taken one step further by thread `i`, with the act that is recorded. -/
inductive Advance (outs : List α) (i : θ) : Stage θ → Option (Act α) → Stage θ → Prop
  | start : Advance outs i .ready (some .start) (.started i)
  | finish (suspended : Bool) :
      Advance outs i (.started i) (some (.finish suspended)) (.stopped i suspended)
  | requeue : Advance outs i (.stopped i true) (some .requeue) .ready
  | resume : Advance outs i (.stopped i false) none (.walking i 0)
  | walk {k : Nat} {x : α} (hx : outs[k]? = some x) :
      Advance outs i (.walking i k) (some (.walk x)) (.walking i (k + 1))
  | leave : Advance outs i (.walking i outs.length) none (.gone i false)
  | delete : Advance outs i (.walking i outs.length) (some .delete) (.gone i true)

namespace Advance

variable {outs : List α} {i : θ} {σ σ' : Stage θ} {act : Option (Act α)}

theorem not_waiting (h : Advance outs i σ act σ') : σ ≠ .waiting ∧ σ' ≠ .waiting := by
  cases h <;> exact ⟨nofun, nofun⟩

theorem follows (h : Advance outs i σ act σ') {l : List (Act α)}
    (hl : ∃ n, l = suspendedRuns n ++ σ.tail outs) :
    ∃ n, l ++ act.toList = suspendedRuns n ++ σ'.tail outs := by
  obtain ⟨n, rfl⟩ := hl
  cases h with
  | start => exact ⟨n, by simp [Stage.tail]⟩
  | finish suspended => exact ⟨n, by simp [Stage.tail]⟩
  | requeue =>
      refine ⟨n + 1, ?_⟩
      rw [suspendedRuns_succ]
      simp [Stage.tail, suspendedRun]
  | resume => exact ⟨n, by simp [Stage.tail, finalRun]⟩
  | walk hx =>
      refine ⟨n, ?_⟩
      show _ = suspendedRuns n ++ finalRun _
      rw [finalRun_take_succ hx, ← List.append_assoc]
      rfl
  | leave => exact ⟨n, by simp [Stage.tail]⟩
  | delete => exact ⟨n, by simp [Stage.tail]⟩

/-- Only a walk changes the number of walked edges. -/
theorem done (h : Advance outs i σ act σ') :
    (∃ x, act = some (.walk x) ∧ outs[σ.done outs.length]? = some x ∧
      σ'.done outs.length = σ.done outs.length + 1) ∨
    ((∀ x, act ≠ some (.walk x)) ∧ σ'.done outs.length = σ.done outs.length) := by
  cases h with
  | walk hx => exact Or.inl ⟨_, rfl, hx, rfl⟩
  | start => exact Or.inr ⟨nofun, rfl⟩
  | finish _ => exact Or.inr ⟨nofun, rfl⟩
  | requeue => exact Or.inr ⟨nofun, rfl⟩
  | resume => exact Or.inr ⟨nofun, rfl⟩
  | leave => exact Or.inr ⟨nofun, rfl⟩
  | delete => exact Or.inr ⟨nofun, rfl⟩

theorem mem_of_walk (h : Advance outs i σ act σ') {x : α} (hact : act = some (.walk x)) :
    x ∈ outs := by
  obtain ⟨y, hy, hget, -⟩ | ⟨hno, -⟩ := h.done
  · rw [hact] at hy
    cases hy
    exact List.mem_of_getElem? hget
  · exact absurd hact (hno x)

/-- The final run gets its thread when it is recorded, and keeps it. -/
theorem finisher (h : Advance outs i σ act σ') (j : θ) :
    σ'.finisher = some j ↔ σ.finisher = some j ∨ (act = some (.finish false) ∧ i = j) := by
  cases h with
  | finish suspended => cases suspended <;> simp [Stage.finisher]
  | start => simp [Stage.finisher]
  | requeue => simp [Stage.finisher]
  | resume => simp [Stage.finisher]
  | walk _ => simp [Stage.finisher]
  | leave => simp [Stage.finisher]
  | delete => simp [Stage.finisher]

theorem thread (h : Advance outs i σ act σ') {j : θ} (hj : σ'.thread = some j) :
    σ.thread = some j ∨ j = i := by
  cases h <;> simp_all [Stage.thread, eq_comm]

end Advance

section Steps

variable [DecidableEq α]

namespace State

/-- How many edges out of `t` have been walked. -/
def done (outs : α → List α) (a : State α θ) (t : α) : Nat := (a.stage t).done (outs t).length

/-- The edges into `x` that are left to walk. -/
def pending (nodes : Finset α) (outs : α → List α) (a : State α θ) (x : α) : Nat :=
  Release.pending nodes outs (a.done outs) x

def advance (a : State α θ) (i : θ) (t : α) (act : Option (Act α)) (σ : Stage θ) : State α θ where
  stage := Function.update a.stage t σ
  log := a.log ++ (act.map (Event.mk i t)).toList

/-- A job into which no edge is left is ready. -/
def release (nodes : Finset α) (outs : α → List α) (a : State α θ) (x : α) : State α θ :=
  if x ∈ nodes ∧ a.pending nodes outs x = 0 then
    { a with stage := Function.update a.stage x .ready }
  else a

/-- What the act does to other jobs. -/
def after (nodes : Finset α) (outs : α → List α) (a : State α θ) :
    Option (Act α) → State α θ
  | some (.walk x) => a.release nodes outs x
  | _ => a

end State

inductive Step (nodes : Finset α) (outs : α → List α) : State α θ → State α θ → Prop
  | job {a : State α θ} {i : θ} {t : α} {act : Option (Act α)} {σ : Stage θ}
      (h : Advance (outs t) i (a.stage t) act σ) :
      Step nodes outs a ((a.advance i t act σ).after nodes outs act)
  /-- Something happens to an object that is not a job. -/
  | other {a : State α θ} {ev : Event α θ} (h : ev.job ∉ nodes) (hstart : ev.act ≠ .start) :
      Step nodes outs a { a with log := a.log ++ [ev] }

/-- A job starts after the final runs of the jobs before it. -/
def InOrder (nodes : Finset α) (outs : α → List α) (log : List (Event α θ)) : Prop :=
  ∀ l₁ ev l₂, log = l₁ ++ ev :: l₂ → ev.act = .start →
    ∀ u ∈ nodes, ev.job ∈ outs u → .finish false ∈ history l₁ u

structure Inv (nodes : Finset α) (outs : α → List α) (a : State α θ) : Prop where
  waiting_iff : ∀ t, a.stage t = .waiting ↔ ¬ (t ∈ nodes ∧ a.pending nodes outs t = 0)
  follows : ∀ t ∈ nodes, ∃ n, history a.log t = suspendedRuns n ++ (a.stage t).tail (outs t)
  finisher : ∀ t ∈ nodes, ∀ i, ⟨i, t, .finish false⟩ ∈ a.log ↔ (a.stage t).finisher = some i
  order : InOrder nodes outs a.log

/-! ## One step -/

variable {nodes : Finset α} {outs : α → List α} {a : State α θ}

namespace Inv

variable (h : Inv nodes outs a)
include h

theorem mem_of_stage {t : α} (ht : a.stage t ≠ .waiting) :
    t ∈ nodes ∧ a.pending nodes outs t = 0 := by
  by_contra hno
  exact ht ((h.waiting_iff t).mpr hno)

theorem done_of_pending {t : α} (ht : a.pending nodes outs t ≠ 0) : a.done outs t = 0 := by
  have hwaiting : a.stage t = .waiting := (h.waiting_iff t).mpr fun hand => ht hand.2
  unfold State.done
  rw [hwaiting]
  rfl

/-- Whoever comes before a ready job has had its final run. -/
theorem finished_before {t u : α} (ht : a.stage t ≠ .waiting) (hu : u ∈ nodes)
    (hmem : t ∈ outs u) : .finish false ∈ history a.log u := by
  have hpending := (h.mem_of_stage ht).2
  have hwalked := Release.pending_eq_zero_iff.mp hpending u hu
  have hdone : a.done outs u ≠ 0 := by
    intro hzero
    rw [hzero, List.drop_zero] at hwalked
    exact hwalked hmem
  have hfinisher : ∃ i, (a.stage u).finisher = some i := by
    unfold State.done at hdone
    cases hstage : a.stage u with
    | waiting => rw [hstage] at hdone; exact absurd rfl hdone
    | ready => rw [hstage] at hdone; exact absurd rfl hdone
    | started i => rw [hstage] at hdone; exact absurd rfl hdone
    | stopped i suspended => rw [hstage] at hdone; exact absurd rfl hdone
    | walking i k => exact ⟨i, rfl⟩
    | gone i deleted => exact ⟨i, rfl⟩
  obtain ⟨i, hi⟩ := hfinisher
  exact mem_history.mpr ⟨i, (h.finisher u hu i).mpr hi⟩

end Inv

theorem State.after_of_ne {a : State α θ} {act : Option (Act α)} (h : ∀ x, act ≠ some (.walk x)) :
    a.after nodes outs act = a := by
  match act with
  | some (.walk x) => exact absurd rfl (h x)
  | none => rfl
  | some .start => rfl
  | some (.finish _) => rfl
  | some .requeue => rfl
  | some .delete => rfl

@[simp] theorem State.after_log (a : State α θ) (act : Option (Act α)) :
    (a.after nodes outs act).log = a.log := by
  by_cases h : ∃ x, act = some (.walk x)
  · obtain ⟨x, rfl⟩ := h
    show (a.release nodes outs x).log = a.log
    unfold State.release
    split <;> rfl
  · push Not at h
    rw [State.after_of_ne h]

/-- What a job's step does to the stages and to the edges left to walk. -/
structure Effect (nodes : Finset α) (outs : α → List α) (a a' : State α θ) (t : α)
    (act : Option (Act α)) (σ : Stage θ) : Prop where
  self : a'.stage t = σ
  others : ∀ u, u ≠ t → a'.stage u = if u ∈ nodes ∧ act = some (.walk u) ∧
    a'.pending nodes outs u = 0 then .ready else a.stage u
  pending : ∀ u, a.pending nodes outs u =
    a'.pending nodes outs u + if act = some (.walk u) then 1 else 0

/-- Only `x` may become ready. -/
theorem State.release_stage (a : State α θ) (x u : α) : (a.release nodes outs x).stage u =
    if u = x ∧ x ∈ nodes ∧ a.pending nodes outs x = 0 then .ready else a.stage u := by
  unfold State.release
  split
  · rename_i hand
    by_cases hu : u = x
    · subst hu
      rw [if_pos ⟨rfl, hand⟩]
      exact Function.update_self ..
    · rw [if_neg (fun h => hu h.1)]
      exact Function.update_of_ne hu ..
  · rename_i hand
    rw [if_neg (fun h => hand h.2)]

/-- Becoming ready walks no edge. -/
theorem State.release_done {a : State α θ} {x : α} (hx : a.stage x = .waiting) :
    (a.release nodes outs x).done outs = a.done outs := by
  funext u
  unfold State.done
  rw [State.release_stage]
  split
  · rename_i hand
    rw [hand.1, hx]
    rfl
  · rfl

theorem State.release_pending {a : State α θ} {x : α} (hx : a.stage x = .waiting) (u : α) :
    (a.release nodes outs x).pending nodes outs u = a.pending nodes outs u := by
  unfold State.pending
  rw [State.release_done hx]

theorem State.advance_self (a : State α θ) (i : θ) (t : α) (act : Option (Act α)) (σ : Stage θ) :
    (a.advance i t act σ).stage t = σ := Function.update_self ..

theorem State.advance_of_ne (a : State α θ) (i : θ) {t u : α} (hu : u ≠ t)
    (act : Option (Act α)) (σ : Stage θ) : (a.advance i t act σ).stage u = a.stage u :=
  Function.update_of_ne hu ..

theorem State.advance_done (a : State α θ) (i : θ) (t : α) (act : Option (Act α)) (σ : Stage θ) :
    (a.advance i t act σ).done outs =
      Function.update (a.done outs) t (σ.done (outs t).length) := by
  funext u
  unfold State.done
  by_cases hu : u = t
  · subst hu
    rw [Function.update_self, State.advance_self]
  · rw [Function.update_of_ne hu, State.advance_of_ne a i hu]

theorem Inv.effect (h : Inv nodes outs a) {i : θ} {t : α} {act : Option (Act α)} {σ : Stage θ}
    (hadv : Advance (outs t) i (a.stage t) act σ) :
    Effect nodes outs a ((a.advance i t act σ).after nodes outs act) t act σ := by
  have htn := h.mem_of_stage hadv.not_waiting.1
  have hadvDone : (a.advance i t act σ).done outs =
      Function.update (a.done outs) t (σ.done (outs t).length) := a.advance_done ..
  obtain ⟨x, rfl, hx, hdone⟩ | ⟨hno, hdone⟩ := hadv.done
  · -- one edge is walked, perhaps the last one into `x`
    have hx : (outs t)[a.done outs t]? = some x := hx
    have hpos := Release.pending_pos_of_next htn.1 hx
    have hpending : ∀ u, a.pending nodes outs u =
        (a.advance i t (some (.walk x)) σ).pending nodes outs u + if u = x then 1 else 0 := by
      intro u
      unfold State.pending
      rw [hadvDone, hdone]
      exact Release.pending_walk htn.1 hx u
    have hxpos : a.pending nodes outs x ≠ 0 := Nat.pos_iff_ne_zero.mp hpos
    have hxt : x ≠ t := fun he => hxpos (he ▸ htn.2)
    have hxwaiting : (a.advance i t (some (.walk x)) σ).stage x = .waiting := by
      rw [State.advance_of_ne a i hxt]
      exact (h.waiting_iff x).mpr fun hand => hxpos hand.2
    show Effect nodes outs a ((a.advance i t _ σ).release nodes outs x) t _ σ
    refine ⟨?_, fun u hu => ?_, fun u => ?_⟩
    · rw [State.release_stage, if_neg (fun h => hxt h.1.symm), State.advance_self]
    · rw [State.release_stage, State.release_pending hxwaiting, State.advance_of_ne a i hu]
      by_cases hux : u = x
      · subst hux
        simp
      · rw [if_neg (fun h => hux h.1), if_neg (fun h => hux (by simpa using h.2.1.symm))]
    · rw [hpending, State.release_pending hxwaiting]
      by_cases hux : u = x
      · subst hux
        simp
      · rw [if_neg hux, if_neg (fun h => hux (by simpa using h.symm))]
  · rw [State.after_of_ne hno]
    have hsame : (a.advance i t act σ).done outs = a.done outs := by
      rw [hadvDone, hdone]
      exact Function.update_eq_self t (a.done outs)
    refine ⟨State.advance_self .., fun u hu => ?_, fun u => ?_⟩
    · rw [if_neg (fun h => hno u h.2.1), State.advance_of_ne a i hu]
    · rw [if_neg (hno u)]
      unfold State.pending
      rw [hsame]
      rfl

namespace Effect

variable {a' : State α θ} {t : α} {act : Option (Act α)} {σ : Stage θ}

/-- The target of a walked edge has waited. -/
theorem waits (he : Effect nodes outs a a' t act σ) (h : Inv nodes outs a) {u : α}
    (hact : act = some (.walk u)) : a.stage u = .waiting := by
  have hpending := he.pending u
  rw [if_pos hact] at hpending
  apply (h.waiting_iff u).mpr
  rintro ⟨-, hzero⟩
  omega

/-- The other jobs keep their tail: one that becomes ready has waited. -/
theorem tail (he : Effect nodes outs a a' t act σ) (h : Inv nodes outs a) {u : α} (hu : u ≠ t) :
    (a'.stage u).tail (outs u) = (a.stage u).tail (outs u) ∧
      (a'.stage u).finisher = (a.stage u).finisher := by
  rw [he.others u hu]
  split
  · rename_i hand
    rw [he.waits h hand.2.1]
    exact ⟨rfl, rfl⟩
  · exact ⟨rfl, rfl⟩

/-- Another job is where it was, unless it has become ready. -/
theorem stage_of_ne (he : Effect nodes outs a a' t act σ) {u : α} (hu : u ≠ t)
    (hready : a'.stage u ≠ .ready) : a'.stage u = a.stage u := by
  have hothers := he.others u hu
  split at hothers
  · exact absurd hothers hready
  · exact hothers

theorem waiting_iff (he : Effect nodes outs a a' t act σ) (h : Inv nodes outs a)
    (hbefore : a.stage t ≠ .waiting) (hσ : σ ≠ .waiting) (u : α) :
    a'.stage u = .waiting ↔ ¬ (u ∈ nodes ∧ a'.pending nodes outs u = 0) := by
  have hpending := he.pending u
  by_cases hu : u = t
  · subst hu
    obtain ⟨hmem, hzero⟩ := h.mem_of_stage hbefore
    rw [he.self]
    refine iff_of_false hσ (not_not.mpr ⟨hmem, ?_⟩)
    omega
  · rw [he.others u hu]
    by_cases hready : u ∈ nodes ∧ act = some (.walk u) ∧ a'.pending nodes outs u = 0
    · rw [if_pos hready]
      exact iff_of_false nofun (not_not.mpr ⟨hready.1, hready.2.2⟩)
    · rw [if_neg hready, h.waiting_iff u]
      refine not_congr (and_congr_right fun hmem => ?_)
      by_cases hact : act = some (.walk u)
      · rw [if_pos hact] at hpending
        have hne : a'.pending nodes outs u ≠ 0 := fun hz => hready ⟨hmem, hact, hz⟩
        omega
      · rw [if_neg hact] at hpending
        omega

end Effect

theorem InOrder.snoc {log : List (Event α θ)} (h : InOrder nodes outs log) {ev : Event α θ}
    (hev : ev.act = .start → ∀ u ∈ nodes, ev.job ∈ outs u → .finish false ∈ history log u) :
    InOrder nodes outs (log ++ [ev]) := by
  intro l₁ ev' l₂ heq hact u hu hmem
  obtain rfl | ⟨l, last, rfl⟩ := List.eq_nil_or_concat l₂
  · have hlast : log ++ [ev] = l₁ ++ [ev'] := heq
    obtain ⟨rfl, hone⟩ := List.append_inj' hlast rfl
    cases hone
    exact hev hact u hu hmem
  · have hsplit : log ++ [ev] = (l₁ ++ ev' :: l) ++ [last] := by
      rw [heq]
      simp
    obtain ⟨hlog, -⟩ := List.append_inj' hsplit rfl
    exact h l₁ ev' l hlog hact u hu hmem

/-- The invariant is kept by every step. -/
theorem Inv.step (h : Inv nodes outs a) {a' : State α θ} (hstep : Step nodes outs a a') :
    Inv nodes outs a' := by
  cases hstep with
  | @job i t act σ hadv =>
      obtain ⟨hbefore, hσ⟩ := hadv.not_waiting
      have he := h.effect hadv
      have hlog : ((a.advance i t act σ).after nodes outs act).log =
          a.log ++ (act.map (Event.mk i t)).toList := State.after_log ..
      generalize (a.advance i t act σ).after nodes outs act = a' at he hlog
      refine ⟨fun u => he.waiting_iff h hbefore hσ u, fun u hu => ?_, fun u hu j => ?_, ?_⟩
      · rw [hlog, history_act]
        by_cases hut : u = t
        · subst hut
          rw [if_pos rfl, he.self]
          exact hadv.follows (h.follows u hu)
        · rw [if_neg (Ne.symm hut), List.append_nil, (he.tail h hut).1]
          exact h.follows u hu
      · have hmem : ⟨j, u, .finish false⟩ ∈ a'.log ↔ ⟨j, u, .finish false⟩ ∈ a.log ∨
            (act = some (.finish false) ∧ i = j ∧ t = u) := by
          rw [hlog, List.mem_append]
          refine or_congr_right ?_
          cases act with
          | none => simp
          | some act =>
              simp only [Option.map_some, Option.toList_some, List.mem_singleton, Event.mk.injEq,
                Option.some.injEq]
              tauto
        rw [hmem, h.finisher u hu j]
        by_cases hut : u = t
        · subst hut
          rw [he.self, hadv.finisher j]
          simp
        · rw [(he.tail h hut).2]
          simp [Ne.symm hut]
      · rw [hlog]
        cases act with
        | none => simpa using h.order
        | some act =>
            refine h.order.snoc fun hact u hu hmem => ?_
            have hact : act = .start := hact
            subst hact
            exact h.finished_before hbefore hu hmem
  | @other ev hev hstart =>
      refine ⟨h.waiting_iff, fun t ht => ?_, fun t ht i => ?_, ?_⟩
      · have hne : ev.job ≠ t := fun he => hev (he ▸ ht)
        show ∃ n, history (a.log ++ [ev]) t = _
        rw [history_append, if_neg hne, List.append_nil]
        exact h.follows t ht
      · have hne : (⟨i, t, .finish false⟩ : Event α θ) ≠ ev := fun he => hev (he ▸ ht)
        show _ ∈ a.log ++ [ev] ↔ _
        rw [List.mem_append, List.mem_singleton, or_iff_left hne]
        exact h.finisher t ht i
      · exact h.order.snoc fun hact => absurd hact hstart

/-! ## Runs -/

theorem Inv.steps (h : Inv nodes outs a) {a' : State α θ}
    (hsteps : Relation.ReflTransGen (Step nodes outs) a a') : Inv nodes outs a' := by
  induction hsteps with
  | refl => exact h
  | tail _ hlast ih => exact ih.step hlast

/-- Before the first step the jobs without an edge into them are ready. -/
def State.initial (nodes : Finset α) (outs : α → List α) : State α θ where
  stage := fun t =>
    if t ∈ nodes ∧ Release.pending nodes outs (fun _ => 0) t = 0 then .ready else .waiting
  log := []

theorem State.initial_done : (State.initial nodes outs : State α θ).done outs = fun _ => 0 := by
  funext t
  unfold State.done State.initial
  dsimp only
  split <;> rfl

theorem State.initial_pending (t : α) :
    (State.initial nodes outs : State α θ).pending nodes outs t =
      ∑ u ∈ nodes, (outs u).count t := by
  unfold State.pending
  rw [State.initial_done, Release.pending_zero]

theorem State.initial_stage (t : α) : (State.initial nodes outs : State α θ).stage t =
    if t ∈ nodes ∧ ∑ u ∈ nodes, (outs u).count t = 0 then .ready else .waiting := by
  unfold State.initial
  dsimp only
  rw [Release.pending_zero]

theorem Inv.initial : Inv nodes outs (State.initial nodes outs : State α θ) := by
  refine ⟨fun t => ?_, fun t _ => ⟨0, ?_⟩, fun t _ i => ?_, ?_⟩
  · rw [State.initial_pending, State.initial_stage]
    split <;> simp_all
  · rw [State.initial_stage]
    split <;> rfl
  · rw [State.initial_stage]
    split <;> exact iff_of_false nofun nofun
  · intro l₁ ev l₂ heq
    simp [State.initial] at heq

/-- The edges out of a job that have been walked. -/
def walked (log : List (Event α θ)) (t : α) : List α :=
  (history log t).filterMap Act.target

namespace Inv

variable (h : Inv nodes outs a)
include h

theorem walked_eq {t : α} (ht : t ∈ nodes) : walked a.log t = (outs t).take (a.done outs t) := by
  obtain ⟨n, hn⟩ := h.follows t ht
  unfold walked State.done
  rw [hn, List.filterMap_append, filterMap_target_suspendedRuns, List.nil_append]
  exact Stage.filterMap_target_tail ..

/-- Suspended runs, and a beginning of the final one. -/
theorem history_begins {t : α} (ht : t ∈ nodes) :
    ∃ n, history a.log t <+: suspendedRuns n ++ (finalRun (outs t) ++ [.delete]) := by
  obtain ⟨n, hn⟩ := h.follows t ht
  rw [hn]
  exact (a.stage t).tail_begins (outs t) n

/-- When no edge into the sink is left, no edge at all is left. -/
theorem done_of_sink {sink : α} (hdag : Release.Dag nodes outs sink)
    (hsink : a.pending nodes outs sink = 0) {t : α} (ht : t ∈ nodes) :
    (outs t).length ≤ a.done outs t :=
  hdag.complete_of_pending_sink (fun _ _ hu => h.done_of_pending hu) hsink ht

end Inv

end Steps

end Suspend
