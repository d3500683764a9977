import AceMesh.Dependence
import AceMesh.Launch
import AceMesh.Lib.Serial

/-!
# Parallel execution equals serial execution

`Machine` adds to the runtime the memory that the bodies work on: while a thread is in the
body of a task, its steps are the reads and writes of that body. The bodies of a graph
conflict only along chains of edges, a body starts only when the bodies before it on such
chains have finished, so the machine simulates the interleaved programs of `Serial`, whose
final memory is the serial one.
-/

open AceMesh.TaskDagGraph AceMesh.Runtime Relation

namespace AceMesh

variable {m : Nat} {V : Type}

/-! ## The runtime with a memory -/

structure Machine (m : Nat) (V : Type) where
  runtime : Runtime m
  mem : Addr → V
  /-- What is left of the body a thread runs. -/
  cont : Fin (m + 1) → Serial.Prog Addr V

namespace Machine

/-- One step of thread `i`: one access of the body it runs, or one step of the runtime. A
body is entered at its beginning and left at its end. -/
def step (bodies : TaskId → Serial.Prog Addr V) (s : Machine m V) (i : Fin (m + 1)) (hit : Bool) :
    Option (Machine m V) :=
  match s.runtime.pc i, s.cont i with
  | .body _, .read a k => some { s with cont := Function.update s.cont i (k (s.mem a)) }
  | .body _, .write a v k =>
    some { s with mem := Function.update s.mem a v, cont := Function.update s.cont i k }
  | .hold t, _ =>
    (s.runtime.step i hit).map fun r =>
      { s with
        runtime := r
        cont := if r.pc i = .body t then Function.update s.cont i (bodies t) else s.cont }
  | _, _ => (s.runtime.step i hit).map fun r => { s with runtime := r }

def Steps (bodies : TaskId → Serial.Prog Addr V) : Machine m V → Machine m V → Prop :=
  ReflTransGen fun s s' => ∃ i hit, s.step bodies i hit = some s'

def runSchedule (bodies : TaskId → Serial.Prog Addr V) (s : Machine m V) :
    List (Fin (m + 1) × Bool) → Option (Machine m V)
  | [] => some s
  | (i, hit) :: rest => (s.step bodies i hit).bind fun s => s.runSchedule bodies rest

theorem isRun_runSchedule (bodies : TaskId → Serial.Prog Addr V) :
    IsRun (fun (s : Machine m V) a => s.step bodies a.1 a.2) (runSchedule bodies) :=
  ⟨fun _ => rfl, fun _ _ _ => rfl⟩

theorem steps_of_runSchedule {bodies : TaskId → Serial.Prog Addr V} {s s' : Machine m V}
    {schedule : List (Fin (m + 1) × Bool)} (h : s.runSchedule bodies schedule = some s') :
    s.Steps bodies s' :=
  (isRun_runSchedule bodies).path (fun _ a _ hstep => ⟨a.1, a.2, hstep⟩) h

end Machine

/-! ## Bodies in the runtime -/

/-- A step of the runtime starts a body, finishes one, or leaves all bodies alone. -/
inductive BodyStep (r : Runtime m) (i : Fin (m + 1)) (r' : Runtime m) : Prop
  | start (t : TaskId) (hold : r.pc i = .hold t) (pc : r'.pc = Function.update r.pc i (.body t))
      (log : r'.log = r.log ++ [.start t])
  | finish (t : TaskId) (body : r.pc i = .body t)
      (pc : r'.pc = Function.update r.pc i (.restore t)) (log : r'.log = r.log ++ [.finish t])
  | other (pc : ∀ j t, r'.pc j = .body t ↔ r.pc j = .body t) (starts : ∀ t, r'.starts t = r.starts t)
      (finishes : ∀ t, r'.finishes t = r.finishes t)

theorem bodies_setPc_iff {r : Runtime m} {i : Fin (m + 1)} {p : Pc}
    (hold : ∀ t, r.pc i ≠ .body t) (hnew : ∀ t, p ≠ .body t) (j : Fin (m + 1)) (t : TaskId) :
    Function.update r.pc i p j = .body t ↔ r.pc j = .body t := by
  by_cases hj : j = i
  · subst hj
    rw [Function.update_self]
    exact iff_of_false (hnew t) (hold t)
  · rw [Function.update_of_ne hj]

theorem Runtime.Turn.bodyStep {r r' : Runtime m} {i : Fin (m + 1)} (h : Turn r i r') :
    BodyStep r i r' := by
  cases h with
  | quiet _ _ _ _ halike =>
      exact .other (bodies_setPc_iff (fun t hb => halike.outside t (Or.inl hb))
        fun t hb => halike.outside' t (Or.inl hb)) (fun _ => rfl) fun _ => rfl
  | pop hi _ =>
      exact .other (bodies_setPc_iff (by simp [hi]) (by simp)) (fun _ => rfl) fun _ => rfl
  | skip hi _ =>
      exact .other (bodies_setPc_iff (by simp [hi]) (by simp)) (fun _ => rfl) fun _ => rfl
  | @start t hi _ => exact .start t hi rfl rfl
  | @finish t hi => exact .finish t hi rfl rfl
  | restore hi =>
      refine .other (fun j t => ?_) (fun _ => rfl) fun _ => rfl
      exact bodies_setPc_iff (r := r) (by simp [hi]) (by simp) j t
  | walk _ _ _ hout hout' =>
      refine .other (bodies_setPc_iff (fun t hb => hout t (Or.inl hb))
        fun t hb => hout' t (Or.inl hb)) (fun t => ?_) fun t => ?_
      · change ((r.setHeap _).record _).starts t = _
        simp only [starts_record, reduceCtorEq, if_false]
        rfl
      · change ((r.setHeap _).record _).finishes t = _
        simp only [finishes_record, reduceCtorEq, if_false]
        rfl
  | push hi =>
      refine .other (fun j t => ?_) (fun _ => rfl) fun _ => rfl
      exact bodies_setPc_iff (r := r) (by simp [hi]) (by simp) j t

theorem InRound.bodyStep {nodes : Finset TaskId} {e : TaskId} {r r' : Runtime m}
    (h : InRound nodes e r) {i : Fin (m + 1)} {hit : Bool} (hstep : r.step i hit = some r') :
    BodyStep r i r' := by
  cases step_move h.round.inside hstep with
  | worker _ turn => exact turn.bodyStep
  | run _ turn => exact turn.bodyStep
  | turnEnd _ turn =>
      cases turn.bodyStep with
      | start t hi hpc hlog => exact .start t hi hpc hlog
      | finish t hi hpc hlog => exact .finish t hi hpc hlog
      | other hpc hs hf => exact .other hpc hs hf
  | @enter e' hm =>
      have he : e' = e := by
        have hwaits := h.waits
        rw [hm] at hwaits
        exact Option.some.inj hwaits
      have hrest := h.resting [] (he ▸ hm)
      exact .other (bodies_setPc_iff (fun t hb => hrest.outside t (Or.inl hb)) (by simp))
        (fun _ => rfl) fun _ => rfl
  | root _ _ => exact .other (fun _ _ => Iff.rfl) (fun _ => rfl) fun _ => rfl
  | test _ => exact .other (fun _ _ => Iff.rfl) (fun _ => rfl) fun _ => rfl
  | leave _ => exact .other (fun _ _ => Iff.rfl) (fun _ => rfl) fun _ => rfl
  | back _ => exact .other (fun _ _ => Iff.rfl) (fun _ => rfl) fun _ => rfl

/-! ## The simulation -/

/-- The interleaved programs that a machine state stands for. -/
structure Simulates (s : Machine m V) (a : Serial.State Addr V) : Prop where
  mem : a.mem = s.mem
  rest : ∀ t p, a.rest t = some p ↔ ∃ i, s.runtime.pc i = .body t ∧ s.cont i = p
  started : ∀ t, a.started t ↔ s.runtime.starts t ≠ 0
  finished : ∀ t, a.finished t ↔ s.runtime.finishes t ≠ 0

section Simulation

variable {bodies : TaskId → Serial.Prog Addr V} {s s' : Machine m V} {a : Serial.State Addr V}
  {lo hi e : TaskId}

/-- A step of the machine is an access of a body or a step of the runtime. -/
theorem Machine.step_runtime {i : Fin (m + 1)} {hit : Bool} (h : s.step bodies i hit = some s') :
    ((∃ t, s.runtime.pc i = .body t) ∧ s'.runtime = s.runtime) ∨
      (s.runtime.step i hit = some s'.runtime ∧ s'.mem = s.mem) := by
  unfold Machine.step at h
  split at h
  · rename_i t _ _ hi _
    cases h
    exact Or.inl ⟨⟨t, hi⟩, rfl⟩
  · rename_i t _ _ _ hi _
    cases h
    exact Or.inl ⟨⟨t, hi⟩, rfl⟩
  · obtain ⟨r, hr, rfl⟩ := Option.map_eq_some_iff.mp h
    exact Or.inr ⟨hr, rfl⟩
  · obtain ⟨r, hr, rfl⟩ := Option.map_eq_some_iff.mp h
    exact Or.inr ⟨hr, rfl⟩

theorem InRound.body_unique {nodes : Finset TaskId} {r : Runtime m} (h : InRound nodes e r)
    {i j : Fin (m + 1)} {t : TaskId} (hi : r.pc i = .body t) (hj : r.pc j = .body t) : i = j :=
  h.round.at_unique (h.round.at_of_beforeRestore (Or.inl hi))
    (h.round.at_of_beforeRestore (Or.inl hj))

/-- A step of the runtime that touches no body. -/
theorem Simulates.other (hsim : Simulates s a) {r : Runtime m}
    (hpc : ∀ j t, r.pc j = .body t ↔ s.runtime.pc j = .body t)
    (hstarts : ∀ t, r.starts t = s.runtime.starts t)
    (hfinishes : ∀ t, r.finishes t = s.runtime.finishes t) :
    Simulates { s with runtime := r } a where
  mem := hsim.mem
  rest := fun t p => (hsim.rest t p).trans
    (exists_congr fun i => and_congr_left fun _ => (hpc i t).symm)
  started := fun t => by rw [hsim.started, ← hstarts]
  finished := fun t => by rw [hsim.finished, ← hfinishes]

/-- One access of the body that thread `i` runs. -/
theorem Simulates.access (h : InRound (Finset.Ico lo hi) e s.runtime) (hsim : Simulates s a)
    {i : Fin (m + 1)} {t : TaskId} (hi : s.runtime.pc i = .body t) (p : Serial.Prog Addr V)
    (mem : Addr → V) :
    Simulates { s with mem := mem, cont := Function.update s.cont i p }
      { a with mem := mem, rest := Function.update a.rest t (some p) } where
  mem := rfl
  rest := fun u q => by
    change Function.update a.rest t (some p) u = some q ↔
      ∃ j, s.runtime.pc j = .body u ∧ Function.update s.cont i p j = q
    by_cases hut : u = t
    · subst hut
      rw [Function.update_self]
      constructor
      · rintro ⟨⟩
        exact ⟨i, hi, Function.update_self ..⟩
      · rintro ⟨j, hj, rfl⟩
        rw [h.body_unique hj hi, Function.update_self]
    · rw [Function.update_of_ne hut, hsim.rest]
      refine exists_congr fun j => and_congr_right fun hj => ?_
      have hji : j ≠ i := by
        rintro rfl
        rw [hi] at hj
        cases hj
        exact hut rfl
      rw [Function.update_of_ne hji]
  started := hsim.started
  finished := hsim.finished

theorem Simulates.start (h : InRound (Finset.Ico lo hi) e s.runtime) (hsim : Simulates s a)
    {i : Fin (m + 1)} {t : TaskId} (hi : s.runtime.pc i = .hold t) {r : Runtime m}
    (hpc : r.pc = Function.update s.runtime.pc i (.body t))
    (hlog : r.log = s.runtime.log ++ [.start t]) :
    Simulates { s with runtime := r, cont := Function.update s.cont i (bodies t) }
      { a with
        rest := Function.update a.rest t (some (bodies t))
        started := fun u => a.started u ∨ u = t } where
  mem := hsim.mem
  rest := fun u q => by
    change Function.update a.rest t (some (bodies t)) u = some q ↔
      ∃ j, r.pc j = .body u ∧ Function.update s.cont i (bodies t) j = q
    rw [hpc]
    by_cases hut : u = t
    · subst hut
      rw [Function.update_self]
      constructor
      · rintro ⟨⟩
        exact ⟨i, Function.update_self .., Function.update_self ..⟩
      · rintro ⟨j, hj, rfl⟩
        by_cases hji : j = i
        · rw [hji, Function.update_self]
        · -- a body that is about to start is not running already
          rw [Function.update_of_ne hji] at hj
          have hnot := (h.round.mem_of_hand (i := i) (by rw [hi]; rfl)).2.2
          have hone := h.round.starts_of_at (h.round.at_of_beforeRestore (Or.inl hj))
          omega
    · rw [Function.update_of_ne hut, hsim.rest]
      refine exists_congr fun j => ?_
      by_cases hji : j = i
      · subst hji
        rw [Function.update_self]
        refine iff_of_false (fun hand => ?_) fun hand => ?_
        · rw [hi] at hand
          cases hand.1
        · exact hut (Pc.body.inj hand.1).symm
      · rw [Function.update_of_ne hji, Function.update_of_ne hji]
  started := fun u => by
    have hstarts : r.starts u = s.runtime.starts u + if t = u then 1 else 0 := by
      unfold starts
      rw [hlog, List.count_append, List.count_singleton]
      simp
    rw [hstarts]
    by_cases htu : t = u
    · simp [htu]
    · simp [htu, Ne.symm htu, hsim.started]
  finished := fun u => by
    have hfinishes : r.finishes u = s.runtime.finishes u := by
      unfold finishes
      rw [hlog, List.count_append, List.count_singleton]
      simp
    rw [hfinishes]
    exact hsim.finished u

theorem Simulates.finish (h : InRound (Finset.Ico lo hi) e s.runtime) (hsim : Simulates s a)
    {i : Fin (m + 1)} {t : TaskId} (hi : s.runtime.pc i = .body t) {r : Runtime m}
    (hpc : r.pc = Function.update s.runtime.pc i (.restore t))
    (hlog : r.log = s.runtime.log ++ [.finish t]) :
    Simulates { s with runtime := r }
      { a with
        rest := Function.update a.rest t none
        finished := fun u => a.finished u ∨ u = t } where
  mem := hsim.mem
  rest := fun u q => by
    change Function.update a.rest t none u = some q ↔ ∃ j, r.pc j = .body u ∧ s.cont j = q
    rw [hpc]
    by_cases hut : u = t
    · subst hut
      rw [Function.update_self]
      refine iff_of_false (by simp) ?_
      rintro ⟨j, hj, -⟩
      by_cases hji : j = i
      · subst hji
        rw [Function.update_self] at hj
        cases hj
      · rw [Function.update_of_ne hji] at hj
        exact hji (h.body_unique hj hi)
    · rw [Function.update_of_ne hut, hsim.rest]
      refine exists_congr fun j => ?_
      by_cases hji : j = i
      · subst hji
        rw [Function.update_self, hi]
        refine iff_of_false (fun hand => hut (Pc.body.inj hand.1).symm) fun hand => ?_
        cases hand.1
      · rw [Function.update_of_ne hji]
  started := fun u => by
    have hstarts : r.starts u = s.runtime.starts u := by
      unfold starts
      rw [hlog, List.count_append, List.count_singleton]
      simp
    rw [hstarts]
    exact hsim.started u
  finished := fun u => by
    have hfinishes : r.finishes u = s.runtime.finishes u + if t = u then 1 else 0 := by
      unfold finishes
      rw [hlog, List.count_append, List.count_singleton]
      simp
    rw [hfinishes]
    by_cases htu : t = u
    · simp [htu]
    · simp [htu, Ne.symm htu, hsim.finished]

/-- The bodies of a round, one step of the machine after the other, are interleaved programs
that start only after the programs they conflict with. -/
theorem Simulates.step {d : Serial.Declared Addr V}
    (h : InRound (Finset.Ico lo hi) e s.runtime)
    (horder : ∀ u t, lo ≤ u → u < t → t < hi → d.Conflict u t →
      TransGen (Release.Edge (Finset.Ico lo hi) s.runtime.outs) u t)
    (hprog : ∀ t, lo ≤ t → t < hi → bodies t = d.prog t) (hsim : Simulates s a)
    {i : Fin (m + 1)} {hit : Bool} (hstep : s.step bodies i hit = some s') :
    ∃ a', (a' = a ∨ Serial.Step d lo hi a a') ∧ Simulates s' a' := by
  unfold Machine.step at hstep
  split at hstep
  · rename_i t b k hi hcont
    cases hstep
    have hrun : a.rest t = some (.read b k) := (hsim.rest t _).mpr ⟨i, hi, hcont⟩
    have hmem := hsim.mem
    refine ⟨_, Or.inr (.read t b k hrun), ?_⟩
    have hacc := hsim.access h hi (k (s.mem b)) s.mem
    rw [hmem]
    rw [← hmem] at hacc ⊢
    exact hacc
  · rename_i t b v k hi hcont
    cases hstep
    have hrun : a.rest t = some (.write b v k) := (hsim.rest t _).mpr ⟨i, hi, hcont⟩
    refine ⟨_, Or.inr (.write t b v k hrun), ?_⟩
    rw [hsim.mem]
    exact hsim.access h hi k (Function.update s.mem b v)
  · rename_i t hi
    obtain ⟨r, hr, rfl⟩ := Option.map_eq_some_iff.mp hstep
    cases h.bodyStep hr with
    | start t' hi' hpc hlog =>
        have htt : t' = t := by
          rw [hi] at hi'
          exact (Pc.hold.inj hi').symm
        subst htt
        obtain ⟨hmem, hready, hnot⟩ := h.round.mem_of_hand (i := i) (by rw [hi]; rfl)
        obtain ⟨hlo, hhi⟩ := Finset.mem_Ico.mp hmem
        rw [if_pos (by rw [hpc, Function.update_self])]
        refine ⟨_, Or.inr (.start t' ⟨hlo, hhi⟩ ?_ ?_), hprog t' hlo hhi ▸ hsim.start h hi hpc hlog⟩
        · rw [hsim.started]
          exact not_not.mpr hnot
        · intro u hulo hut hc
          rw [hsim.finished]
          have hfin := h.round.finished_of_reach (horder u t' hulo hut hhi hc) hready
          exact Nat.pos_iff_ne_zero.mp (List.count_pos_iff.mpr hfin)
    | finish t' hi' _ _ => simp [hi] at hi'
    | other hpc hs hf =>
        rw [if_neg (by rw [hpc, hi]; simp)]
        exact ⟨a, Or.inl rfl, hsim.other hpc hs hf⟩
  · rename_i hhold hread hwrite
    obtain ⟨r, hr, rfl⟩ := Option.map_eq_some_iff.mp hstep
    cases h.bodyStep hr with
    | start t hi _ _ => exact absurd hi (hhold t)
    | finish t hi hpc hlog =>
        have hdone : s.cont i = .done := by
          cases hc : s.cont i with
          | done => rfl
          | read b k => exact absurd hc (hread t b k hi)
          | write b v k => exact absurd hc (hwrite t b v k hi)
        have hrun : a.rest t = some .done := (hsim.rest t _).mpr ⟨i, hi, hdone⟩
        exact ⟨_, Or.inr (.finish t hrun), hsim.finish h hi hpc hlog⟩
    | other hpc hs hf => exact ⟨a, Or.inl rfl, hsim.other hpc hs hf⟩

/-- A whole round: while it lasts the machine simulates the interleaved programs, and when
it is over the memory is that of the serial execution. -/
theorem Machine.round_serial {d : Serial.Declared Addr V} {s₀ : Machine m V}
    (h : InRound (Finset.Ico lo hi) e s₀.runtime) (hle : lo ≤ hi)
    (horder : ∀ u t, lo ≤ u → u < t → t < hi → d.Conflict u t →
      TransGen (Release.Edge (Finset.Ico lo hi) s₀.runtime.outs) u t)
    (hprog : ∀ t, lo ≤ t → t < hi → bodies t = d.prog t)
    (hsim : Simulates s₀ (Serial.State.init s₀.mem)) (hsteps : s₀.Steps bodies s) :
    (InRound (Finset.Ico lo hi) e s.runtime ∧ s₀.runtime.heap.SameShape s.runtime.heap ∧
      ∃ a, Simulates s a ∧ Serial.Inv d lo hi s₀.mem a) ∨
    (AfterRound s.runtime ∧ s.mem = Serial.serial d.prog lo s₀.mem (hi - lo)) := by
  induction hsteps with
  | refl => exact Or.inl ⟨h, Heap.SameShape.refl _, _, hsim, Serial.Inv.init d lo hi s₀.mem⟩
  | @tail s₁ s₂ _ hlast ih =>
      obtain ⟨i, hit, hstep⟩ := hlast
      rcases ih with ⟨hin, hshape, a, hsim₁, hinv⟩ | ⟨hafter, hmem⟩
      · have horder₁ : ∀ u t, lo ≤ u → u < t → t < hi → d.Conflict u t →
            TransGen (Release.Edge (Finset.Ico lo hi) s₁.runtime.outs) u t := by
          have houts : s₁.runtime.outs = s₀.runtime.outs := hshape.outs_fun
          rw [houts]
          exact horder
        obtain ⟨a', ha', hsim₂⟩ := hsim₁.step hin horder₁ hprog hstep
        have hinv' : Serial.Inv d lo hi s₀.mem a' := by
          rcases ha' with rfl | hs
          · exact hinv
          · exact hinv.step hs
        rcases step_runtime hstep with ⟨-, hsame⟩ | ⟨hr, hmem⟩
        · exact Or.inl ⟨hsame ▸ hin, hsame ▸ hshape, a', hsim₂, hinv'⟩
        · by_cases hret : i = 0 ∧ s₁.runtime.main = .returned e
          · -- the round is over: every body has finished
            obtain ⟨rfl, hret⟩ := hret
            refine Or.inr ⟨hin.return hret hr, hmem.trans ?_⟩
            rw [← hsim₁.mem]
            refine hinv.serial_of_finished hle fun t hlo hhi => ?_
            rw [hsim₁.finished]
            have hfin := (hin.round.complete (hin.ended (Or.inr hret))
              (Finset.mem_Ico.mpr ⟨hlo, hhi⟩)).2.1
            omega
          · have hmain : i = 0 → s₁.runtime.main ≠ .returned e := fun hi hm => hret ⟨hi, hm⟩
            exact Or.inl ⟨hin.step hmain hr, hshape.trans (hin.step_shape hr), a', hsim₂, hinv'⟩
      · rcases step_runtime hstep with ⟨⟨t, hi⟩, -⟩ | ⟨hr, hmem'⟩
        · exact absurd (Or.inl hi) ((hafter.idle.resting i).outside t)
        · exact Or.inr ⟨hafter.step hr, hmem'.trans hmem⟩

end Simulation

/-! ## Loops without conflicts -/

/-- The task declares a read of the address. -/
def DeclaresRead (lo : TaskId) (ps : List (Nat × TaskSpec)) (t : TaskId) (a : Addr) : Prop :=
  ∃ k type, Accesses lo ps t k a type ∧ type.reads = true

/-- The task declares a write of the address. -/
def DeclaresWrite (lo : TaskId) (ps : List (Nat × TaskSpec)) (t : TaskId) (a : Addr) : Prop :=
  ∃ k type, Accesses lo ps t k a type ∧ type.writes = true

/-- Any assignment of the tasks to schedulers. -/
def TaskDagGraph.assignAffinity (g : TaskDagGraph) (affinity : TaskId → Int) : TaskDagGraph :=
  { g with heap := fun t => { g.heap t with affinityId := affinity t } }

/-- A conflict of declared addresses is a conflict between two loops, the earlier task in
the earlier loop. -/
theorem crossConflict_of_sorted {lo : TaskId} {ps : List (Nat × TaskSpec)}
    (hsorted : ps.Pairwise fun p q => p.1 ≤ q.1) (hfree : ConflictFree lo ps) {u t : TaskId}
    (hut : u < t) {a : Addr} {k l : Nat} {type type' : InOut} (hu : Accesses lo ps u k a type)
    (ht : Accesses lo ps t l a type') (hw : type.writes = true ∨ type'.writes = true) :
    CrossConflict lo ps u t := by
  refine ⟨k, l, ?_, a, type, type', hu, ht, hw⟩
  have hne : k ≠ l := by
    rintro rfl
    exact hfree k u t (by lia) ⟨a, type, type', hu, ht, hw⟩
  obtain ⟨hulo, -, -, spec, hspec, -⟩ := hu
  obtain ⟨-, -, -, spec', hspec', -⟩ := ht
  obtain ⟨hi, hgi⟩ := List.getElem?_eq_some_iff.mp hspec
  obtain ⟨hj, hgj⟩ := List.getElem?_eq_some_iff.mp hspec'
  have hle := List.pairwise_iff_getElem.mp hsorted (u - lo) (t - lo) hi hj (by lia)
  rw [hgi, hgj] at hle
  exact Nat.lt_of_le_of_ne hle hne

theorem crossConflict_of_declared {lo : TaskId} {loops : List Loop}
    (hfree : ConflictFree lo (registered loops)) {u t : TaskId} (hut : u < t) {a : Addr}
    {k l : Nat} {type type' : InOut} (hu : Accesses lo (registered loops) u k a type)
    (ht : Accesses lo (registered loops) t l a type')
    (hw : type.writes = true ∨ type'.writes = true) :
    CrossConflict lo (registered loops) u t :=
  crossConflict_of_sorted (registered_sorted loops) hfree hut hu ht hw

/-- Loops without conflicts, closed and spawned: whatever the number of threads, the
assignment of tasks to them and the interleaving, the memory in the end is the one that the
bodies leave when they run one after another in the order of their registration. -/
theorem parallel_eq_serial {g₀ : TaskDagGraph} (hg₀ : Blank g₀) (loops : List Loop)
    (hfree : ConflictFree g₀.fresh (registered loops))
    (affinity : TaskId → Int) (haff : ∀ t, 0 ≤ affinity t ∧ affinity t < (m + 1 : Nat))
    (bodies : TaskId → Serial.Prog Addr V)
    (hbodies : ∀ t, g₀.fresh ≤ t → t < g₀.fresh + (registered loops).length →
      (bodies t).Within (DeclaresRead g₀.fresh (registered loops) t)
        (DeclaresWrite g₀.fresh (registered loops) t))
    (mem : Addr → V) {r : Runtime m} {s : Machine m V}
    (hspawn : (Runtime.initial ((g₀.buildAll
      (loopCalls loops)).endConstructDag.assignAffinity affinity)).spawn = some r)
    (hsteps : Machine.Steps bodies ⟨r, mem, fun _ => .done⟩ s) (hret : s.runtime.main = .prog) :
    s.mem = Serial.serial bodies g₀.fresh mem (registered loops).length := by
  have hdep := Dependence.loops hg₀ loops hfree
  set g := g₀.buildAll (loopCalls loops) with hg
  set lo := g₀.fresh with hlo
  set ps := registered loops with hps
  have hfresh : g.fresh = lo + ps.length := hdep.fresh
  have hready : Ready (Finset.Ico lo g.fresh) g.fresh
      (Runtime.initial (g.endConstructDag.assignAffinity affinity) : Runtime m) :=
    hdep.book.ready ⟨fun _ => rfl, fun _ => rfl, fun _ => rfl⟩ rfl rfl
      (fun t _ => haff t) (idle_initial _) rfl
  have hin := hready.inRound hspawn
  obtain ⟨hshape, hpc, -, hlog⟩ := hready.spawn_same hspawn
  -- the bodies of the tasks, as declared programs
  let d : Serial.Declared Addr V :=
    { prog := fun t => if lo ≤ t ∧ t < g.fresh then bodies t else .done
      reads := DeclaresRead lo ps
      writes := DeclaresWrite lo ps
      within := fun t => by
        split
        · rename_i ht
          exact hbodies t ht.1 (hfresh ▸ ht.2)
        · trivial }
  have hprog : ∀ t, lo ≤ t → t < g.fresh → bodies t = d.prog t :=
    fun t h h' => (if_pos ⟨h, h'⟩).symm
  have horder : ∀ u t, lo ≤ u → u < t → t < g.fresh → d.Conflict u t →
      TransGen (Release.Edge (Finset.Ico lo g.fresh) r.outs) u t := by
    intro u t hulo hut ht hc
    have hcross : CrossConflict lo ps u t := by
      obtain ⟨a, ⟨⟨k, ty, hu, hw⟩, hread | hwrite⟩ | ⟨hread | hwrite, l, ty', ht', hw⟩⟩ := hc
      · obtain ⟨l, ty', ht', -⟩ := hread
        exact crossConflict_of_declared hfree hut hu ht' (Or.inl hw)
      · obtain ⟨l, ty', ht', -⟩ := hwrite
        exact crossConflict_of_declared hfree hut hu ht' (Or.inl hw)
      · obtain ⟨k, ty, hu, -⟩ := hread
        exact crossConflict_of_declared hfree hut hu ht' (Or.inr hw)
      · obtain ⟨k, ty, hu, -⟩ := hwrite
        exact crossConflict_of_declared hfree hut hu ht' (Or.inr hw)
    refine TransGen.mono ?_ _ _ (hdep.complete u t hcross)
    rintro v w ⟨hv, hw, hmem⟩
    refine ⟨hv, hw, ?_⟩
    rw [show r.outs v = (g.endConstructDag.heap v).outs from hshape.outs v]
    exact (hdep.book.mem_outs_closed hv).mpr (Or.inl hmem)
  have hsim : Simulates (⟨r, mem, fun _ => .done⟩ : Machine m V) (Serial.State.init mem) := by
    refine ⟨rfl, fun t p => iff_of_false (by simp [Serial.State.init]) ?_,
      fun t => iff_of_false not_false (by simp [starts, hlog]),
      fun t => iff_of_false not_false (by simp [finishes, hlog])⟩
    rintro ⟨i, hi, -⟩
    rw [hpc] at hi
    cases hi
  have hround := Machine.round_serial hin hdep.book.lo_le horder hprog hsim hsteps
  rcases hround with ⟨hin', -⟩ | ⟨-, hmem⟩
  · have := hin'.waits
    rw [hret] at this
    cases this
  · rw [hmem, hfresh, Nat.add_sub_cancel_left]
    refine Serial.serial_congr mem fun t h h' => ?_
    exact (hprog t h (hfresh ▸ h')).symm

namespace Example

def access (a : Addr) (type : InOut) : AddrTuple := ⟨a, .NORMAL, type, NEIGHBOR_NONE, .INOUT_NONE⟩

/-- Two tasks read address `8` and write `16` and `24`; a third adds these up into `8`. -/
def stencil : List Loop :=
  [⟨none, [⟨⟨true, 5⟩, fun _ _ => [], [access 8 .IN, access 16 .OUT]⟩,
      ⟨⟨true, 5⟩, fun _ _ => [], [access 8 .IN, access 24 .OUT]⟩]⟩,
    ⟨some 2, [⟨⟨false, 5⟩, fun _ _ => [], [access 16 .IN, access 24 .IN, access 8 .INOUT]⟩]⟩]

def stencilBody : TaskId → Serial.Prog Addr Nat
  | 0 => .read 8 fun v => .write 16 (v + 1) .done
  | 1 => .read 8 fun v => .write 24 (2 * v) .done
  | _ => .read 16 fun v => .read 24 fun w => .write 8 (v + w) .done

theorem stencil_within (t : TaskId) (hlo : 0 ≤ t) (hhi : t < 0 + (registered stencil).length) :
    (stencilBody t).Within (DeclaresRead 0 (registered stencil) t)
      (DeclaresWrite 0 (registered stencil) t) := by
  have hacc : ∀ (t k : Nat) (spec : TaskSpec) (a : Addr) (type : InOut),
      (registered stencil)[t]? = some (k, spec) → a ≠ 0 → type ≠ .INOUT_NONE →
      (⟨a, type, false⟩ : Access) ∈ spec.accesses →
      Accesses 0 (registered stencil) t k a type :=
    fun t k spec a type hspec ha htype hmem =>
      ⟨Nat.zero_le t, ha, htype, spec, hspec, _, hmem, rfl, rfl⟩
  have hlen : (registered stencil).length = 3 := rfl
  rw [hlen] at hhi
  obtain rfl | rfl | rfl : t = 0 ∨ t = 1 ∨ t = 2 := by lia
  · exact ⟨⟨0, .IN, hacc 0 0 _ 8 .IN rfl (by decide) (by decide) (List.Mem.head _), rfl⟩, fun v =>
      ⟨⟨0, .OUT, hacc 0 0 _ 16 .OUT rfl (by decide) (by decide)
        (List.Mem.tail _ (List.Mem.head _)), rfl⟩, trivial⟩⟩
  · exact ⟨⟨0, .IN, hacc 1 0 _ 8 .IN rfl (by decide) (by decide) (List.Mem.head _), rfl⟩, fun v =>
      ⟨⟨0, .OUT, hacc 1 0 _ 24 .OUT rfl (by decide) (by decide)
        (List.Mem.tail _ (List.Mem.head _)), rfl⟩, trivial⟩⟩
  · exact ⟨⟨1, .IN, hacc 2 1 _ 16 .IN rfl (by decide) (by decide) (List.Mem.head _), rfl⟩, fun v =>
      ⟨⟨1, .IN, hacc 2 1 _ 24 .IN rfl (by decide) (by decide)
        (List.Mem.tail _ (List.Mem.head _)), rfl⟩, fun w =>
      ⟨⟨1, .INOUT, hacc 2 1 _ 8 .INOUT rfl (by decide) (by decide)
        (List.Mem.tail _ (List.Mem.tail _ (List.Mem.head _))), rfl⟩, trivial⟩⟩⟩

/-- The stencil, all of it given to the second scheduler. -/
def stencilRuntime : Runtime 1 :=
  Runtime.initial
    (((TaskDagGraph.init 2).buildAll (loopCalls stencil)).endConstructDag.assignAffinity fun _ => 1)

end Example

/-- Both threads run until `spawn_and_wait` returns. -/
theorem parallel_eq_serial_example : ∃ (r : Runtime 1) (s : Machine 1 Nat),
    Example.stencilRuntime.spawn = some r ∧
    Machine.Steps Example.stencilBody ⟨r, fun _ => 2, fun _ => .done⟩ s ∧
    s.runtime.main = .prog ∧ s.mem 8 = 7 ∧
    s.mem = Serial.serial Example.stencilBody 0 (fun _ => 2) 3 := by
  have hrun : ((Example.stencilRuntime.spawn.bind fun r =>
      (Machine.runSchedule Example.stencilBody ⟨r, fun _ => 2, fun _ => .done⟩
        (List.replicate 16 [(0, true), (1, true), (1, true)]).flatten).map fun s => (r, s)).map
      fun p => (p.2.runtime.main, p.2.mem 8)) = some (.prog, 7) := by decide
  obtain ⟨⟨r, s⟩, hr, hend⟩ := Option.map_eq_some_iff.mp hrun
  obtain ⟨r', hspawn, hs⟩ := Option.bind_eq_some_iff.mp hr
  obtain ⟨s', hschedule, hpair⟩ := Option.map_eq_some_iff.mp hs
  obtain ⟨rfl, rfl⟩ := Prod.mk.inj hpair
  obtain ⟨hmain, hvalue⟩ := Prod.mk.inj hend
  have hsteps := Machine.steps_of_runSchedule hschedule
  exact ⟨r', s', hspawn, hsteps, hmain, hvalue,
    parallel_eq_serial (blank_init 2) Example.stencil (by decide) (fun _ => 1)
      (fun _ => by decide) Example.stencilBody Example.stencil_within (fun _ => 2) hspawn hsteps hmain⟩

end AceMesh
