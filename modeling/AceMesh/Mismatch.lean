import AceMesh.Keeping

/-!
# A number announced with other vectors

`dag_start` of a stored number with other vectors clears the flag of the number and leaves its
counter at `0` or more, so `spawn_and_wait` neither resumes the stored graph nor stores the new
one (`Standing.built`). The new graph consists of new objects, and no thread touches another
graph than the one that is run: the stored graph stands as it was when the rounds began
(`mismatch_transparent`).

Where the stored graph has no task there is nothing to stand: its end task has been deleted by
the first run (`mismatch_of_nothing`).
-/

open AceMesh.TaskDagGraph AceMesh.Runtime

namespace AceMesh

namespace Session

variable {m : Nat} {no : Int} {inst : DagInstance} {tasks : List TaskId} {s t t' : Session m}
  {c : Int} {flag : Option Bool} {a : Act m} {iv : List Int} {fv : List Double}

/-- The vectors are not the recorded ones, in length or in an element. -/
def Differs (s : Session m) (no : Int) (iv : List Int) (fv : List Double) : Prop :=
  ¬ (s.graph.reuse.dagIvecMap no = iv ∧ SameFloats (s.graph.reuse.dagFvecMap no) fv)

/-- Rounds of a number with other vectors, and what the threads do meanwhile; `announced` once
`dag_start` has been called. -/
inductive Rounds (no : Int) (s : Session m) : Bool → Session m → Prop
  | start : Rounds no s false s
  | dagStart {announced : Bool} {t t' : Session m} {iv : List Int} {fv : List Double} :
      Rounds no s announced t → s.Differs no iv fv →
      t.act (.call (.dagStart no iv fv)) = some t' → Rounds no s true t'
  | build {announced : Bool} {t t' : Session m} {c : BuildCall} : Rounds no s announced t →
      t.act (.call (.build c)) = some t' → Rounds no s announced t'
  | spawnAndWait {t t' : Session m} : Rounds no s true t →
      t.act (.call .spawnAndWait) = some t' → Rounds no s true t'
  | thread {announced : Bool} {t t' : Session m} {i : Fin (m + 1)} {hit : Bool} :
      Rounds no s announced t → t.act (.thread i hit) = some t' → Rounds no s announced t'

/-- Tasks are registered, and threads make steps. -/
inductive Builds (s : Session m) : Session m → Prop
  | start : Builds s s
  | build {t t' : Session m} {c : BuildCall} : Builds s t →
      t.act (.call (.build c)) = some t' → Builds s t'
  | thread {t t' : Session m} {i : Fin (m + 1)} {hit : Bool} : Builds s t →
      t.act (.thread i hit) = some t' → Builds s t'

theorem act_dagStart (hact : s.act (.call (.dagStart no iv fv)) = some t) :
    s.runtime.main = .prog ∧ t = s.dagStart no iv fv := by
  have hcall : s.call (.dagStart no iv fv) = some t := hact
  unfold Session.call at hcall
  split at hcall
  · rename_i hmain
    dsimp only at hcall
    split at hcall
    · cases hcall
    · exact ⟨hmain, (Option.some.inj hcall).symm⟩
  · cases hcall

theorem act_of_dagStart (hm : s.runtime.main = .prog) (hloop : s.looping = false) :
    s.act (.call (.dagStart no iv fv)) = some (s.dagStart no iv fv) := by
  change s.call (.dagStart no iv fv) = _
  unfold Session.call
  rw [if_pos hm]
  dsimp only
  exact if_neg (by simp [hloop])

/-- `spawn_and_wait` runs a new graph unless it resumes one. -/
theorem spawnAndWait_waits (hs : s.spawnAndWait = some t) (hkind : s.kind ≠ .resumed) :
    t.runtime.main.waitsFor = some s.graph.fresh := by
  obtain ⟨g, e, hg, hend, -, rfl⟩ := spawnAndWait_eq_some hs
  change some e = some s.graph.fresh
  rw [← hend]
  cases prepared_of_prepare hg with
  | resumed hreuse _ => exact absurd (if_pos hreuse) hkind
  | stored heap _ _ _ heq =>
      rw [heq]
      rfl
  | built _ _ heq =>
      rw [heq]
      rfl

/-- The graph of `inst` is run again, with the objects that it had in `s`. -/
structure Resumes (s : Session m) (inst : DagInstance) (tasks : List TaskId) (t : Session m) :
    Prop where
  main : t.runtime.main = .spawn inst.endTask inst.needSpawnTasks
  heap : ∀ u, u ∈ tasks ∨ u = inst.endTask →
    t.heap u = s.heap.incrementRefCount inst.endTask u
  executes : t.Executes tasks
  alive : ∀ r, t.runtime.Steps r → ∀ u, u ∈ tasks ∨ u = inst.endTask →
    (r.heap u).deleted = false

/-! ## The stored graph stands -/

/-- In the state `t` the graph stored under `no` is as it was in `s`, and is not run; `flag` is
what the last `dag_start`, one of this number, has left. -/
structure Standing (no : Int) (inst : DagInstance) (tasks : List TaskId) (s : Session m) (c : Int)
    (flag : Option Bool) (t : Session m) : Prop where
  tracked : Tracked no inst tasks s.heap t
  inv : t.Inv
  vectors : t.graph.reuse.dagIvecMap no = s.graph.reuse.dagIvecMap no ∧
    t.graph.reuse.dagFvecMap no = s.graph.reuse.dagFvecMap no
  cnt : t.graph.reuse.dagReuseCnt no = some c
  flagged : ∀ f, flag = some f →
    t.graph.reuse.currDagNo = no ∧ t.graph.reuse.dagReuseFlag no = some f
  still : ∀ u, u ∈ tasks ∨ u = inst.endTask → t.heap u = s.heap u
  waits : t.runtime.main.waitsFor ≠ some inst.endTask

namespace Standing

/-- An act that calls nothing of the numbers. -/
theorem quiet (h : Standing no inst tasks s c flag t) (hne : tasks ≠ [])
    (hact : t.act a = some t') (hreuse : t'.graph.reuse = t.graph.reuse)
    (hwaits : t'.runtime.main.waitsFor ≠ some inst.endTask) :
    Standing no inst tasks s c flag t' where
  tracked := h.tracked.act h.inv hact
  inv := h.inv.act hact
  vectors := hreuse ▸ h.vectors
  cnt := hreuse ▸ h.cnt
  flagged := hreuse ▸ h.flagged
  still := fun u hu =>
    (h.tracked.act_still h.inv hne hact h.waits hwaits hu).trans (h.still u hu)
  waits := hwaits

theorem build (h : Standing no inst tasks s c flag t) (hne : tasks ≠ []) {b : BuildCall}
    (hact : t.act (.call (.build b)) = some t') : Standing no inst tasks s c flag t' := by
  obtain ⟨lo, base, hbetween, hmain, hcall⟩ := call_between h.inv hact
  unfold Session.call at hcall
  rw [if_pos hmain] at hcall
  refine h.quiet hne hact (build_frame hbetween hcall).2.1 ?_
  rw [build_main hcall, hmain]
  simp [MainPc.waitsFor]

theorem thread (h : Standing no inst tasks s c flag t) (hne : tasks ≠ []) {i : Fin (m + 1)}
    {hit : Bool} (hact : t.act (.thread i hit) = some t') :
    Standing no inst tasks s c flag t' := by
  obtain ⟨r, hr, rfl⟩ := Option.map_eq_some_iff.mp hact
  have hmove := step_move h.inv.inside hr
  refine h.quiet hne hact hmove.reuse ?_
  obtain hsame | hback := hmove.waitsFor
  · change r.main.waitsFor ≠ _
    rw [hsame]
    exact h.waits
  · change r.main.waitsFor ≠ _
    rw [hback]
    simp

/-- `dag_start` of the number returns `1` for the recorded vectors, and leaves its answer in the
flag. -/
theorem announce (h : Standing no inst tasks s c flag t) (hne : tasks ≠ [])
    (hact : t.act (.call (.dagStart no iv fv)) = some t') :
    ((t.graph.dagStart no iv fv).2 = true ↔ ¬ s.Differs no iv fv) ∧
    ∃ c', ((t.graph.dagStart no iv fv).2 = false → c' = c) ∧
      Standing no inst tasks s c' (some (t.graph.dagStart no iv fv).2) t' := by
  obtain ⟨hmain, rfl⟩ := act_dagStart hact
  have hwaits : (t.dagStart no iv fv).runtime.main.waitsFor ≠ some inst.endTask := h.waits
  have htracked := h.tracked.act h.inv hact
  have hinv := h.inv.act hact
  have hstill : ∀ u, u ∈ tasks ∨ u = inst.endTask → (t.dagStart no iv fv).heap u = s.heap u :=
    fun u hu => (h.tracked.act_still h.inv hne hact h.waits hwaits hu).trans (h.still u hu)
  have hdiffers : ¬ s.Differs no iv fv ↔ sameVectors (t.graph.reuse.dagIvecMap no) iv
      (t.graph.reuse.dagFvecMap no) fv = true := by
    rw [sameVectors_iff, h.vectors.1, h.vectors.2]
    exact not_not
  have hann := dagStart_announces t.graph no iv fv
  have hreuse : (t.dagStart no iv fv).graph.reuse = (t.graph.dagStart no iv fv).1.reuse := rfl
  generalize (t.graph.dagStart no iv fv).1.reuse = u at hann hreuse
  generalize (t.graph.dagStart no iv fv).2 = ret at hann
  rw [hdiffers]
  cases hann with
  | again c₁ hc₁ hsame =>
      obtain rfl := Option.some.inj (h.cnt.symm.trans hc₁)
      refine ⟨iff_of_true rfl hsame, c + 1, fun hret => Bool.noConfusion hret,
        htracked, hinv, ?_, ?_, ?_, hstill, hwaits⟩
      · rw [hreuse]
        exact h.vectors
      · rw [hreuse]
        exact Function.update_self ..
      · intro f hf
        rw [hreuse]
        exact ⟨rfl, (Function.update_self ..).trans hf⟩
  | other c₁ hc₁ hdiffer =>
      refine ⟨iff_of_false Bool.false_ne_true (by simp [hdiffer]), c, fun _ => rfl,
        htracked, hinv, ?_, ?_, ?_, hstill, hwaits⟩
      · rw [hreuse]
        exact h.vectors
      · rw [hreuse]
        exact h.cnt
      · intro f hf
        rw [hreuse]
        exact ⟨rfl, (Function.update_self ..).trans hf⟩
  | first hnone =>
      rw [h.cnt] at hnone
      cases hnone

/-- The graph that is built in a round is run as it is: it is not stored, and nothing is
resumed. -/
theorem kind_built (h : Standing no inst tasks s c (some false) t) : t.kind = .built := by
  obtain ⟨hcurr, hflag⟩ := h.flagged false rfl
  obtain ⟨c', hc', hcnt'⟩ := h.tracked.cnt
  obtain rfl := Option.some.inj (h.cnt.symm.trans hcnt')
  have hstored : c ≠ -1 := by omega
  unfold kind reuses inits
  rw [hcurr, hflag, h.cnt]
  simp [hstored]

theorem built (h : Standing no inst tasks s c (some false) t) (hne : tasks ≠ [])
    (hact : t.act (.call .spawnAndWait) = some t') :
    Standing no inst tasks s c (some false) t' := by
  have hkind := h.kind_built
  have hs := call_spawnAndWait hact
  obtain ⟨-, -, hother⟩ := spawnAndWait_reuse hs
  obtain ⟨lo, base, hbetween, -, -⟩ := call_between h.inv hact
  refine h.quiet hne hact (hother (by rw [hkind]; simp)) ?_
  rw [spawnAndWait_waits hs (by rw [hkind]; simp)]
  obtain ⟨-, hlt, -⟩ := h.tracked.objects hbetween.shelf hne
  have := hbetween.looped.lo_le
  intro heq
  have := Option.some.inj heq
  lia

/-- Once announced with the recorded vectors, the stored graph is run, with its own objects. -/
theorem resumes (h : Standing no inst tasks s c (some true) t) (hne : tasks ≠ [])
    (hm : t.runtime.main = .prog) (hloop : t.looping = false) :
    ∃ t', t.act (.call .spawnAndWait) = some t' ∧ Resumes s inst tasks t' := by
  obtain ⟨hcurr, hflag⟩ := h.flagged true rfl
  have hreuse : t.graph.reuses = true := by
    unfold reuses
    rw [hcurr, hflag]
    rfl
  have hkind : t.kind = .resumed := if_pos hreuse
  have hslot : t.graph.reuse.dagInstanceMap t.graph.reuse.currDagNo = some inst :=
    hcurr ▸ h.tracked.slot
  have hs : t.spawnAndWait = some { t with
      runtime := { ({ t.runtime with graph := { t.graph with
        endTask := some inst.endTask, needSpawnTasks := inst.needSpawnTasks } } :
          Runtime m).setHeap (t.heap.incrementRefCount inst.endTask) with
        main := .spawn inst.endTask inst.needSpawnTasks, log := [] }
      calls := .spawnAndWait no .resumed :: t.calls } := by
    have halive := h.tracked.alive h.inv hne (Or.inr rfl)
    unfold Session.spawnAndWait
    rw [prepare_of_reuses hreuse, hkind, resumeFromBuffer, hslot, hcurr, Option.bind_some]
    exact Option.map_eq_some_iff.mpr
      ⟨_, Runtime.spawn_eq_some_iff.mpr ⟨inst.endTask, rfl, halive, rfl⟩, rfl⟩
  have hact := act_spawnAndWait hm hloop hs
  refine ⟨_, hact, rfl, fun u hu => ?_, (h.inv.act hact).executes h.tracked.tasks,
    fun r hsteps u hu => ?_⟩
  · change t.heap.incrementRefCount inst.endTask u = _
    rw [Heap.incrementRefCount, Heap.incrementRefCount, Heap.modify_apply, Heap.modify_apply,
      h.still u hu]
  · exact ((h.tracked.act h.inv hact).steps (h.inv.act hact) hsteps).alive
      ((h.inv.act hact).steps hsteps) hne hu

end Standing

/-- Through all rounds the stored graph stands. -/
theorem Rounds.standing {announced : Bool} (h : Rounds no s announced t)
    (hs : Standing no inst tasks s c none s) (hne : tasks ≠ []) :
    Standing no inst tasks s c (if announced then some false else none) t := by
  induction h with
  | start => exact hs
  | dagStart _ hdiffer hact ih =>
      obtain ⟨hiff, c', hcnt, hstanding⟩ := ih.announce hne hact
      have hret := Bool.eq_false_iff.mpr fun hret => hiff.mp hret hdiffer
      rw [hret] at hstanding
      exact hcnt hret ▸ hstanding
  | build _ hact ih => exact ih.build hne hact
  | spawnAndWait _ hact ih => exact ih.built hne hact
  | thread _ hact ih => exact ih.thread hne hact

theorem Builds.standing {v : Session m} (h : Builds t v)
    (ht : Standing no inst tasks s c flag t) (hne : tasks ≠ []) :
    Standing no inst tasks s c flag v := by
  induction h with
  | start => exact ht
  | build _ hact ih => exact ih.build hne hact
  | thread _ hact ih => exact ih.thread hne hact

/-- A stored graph stands between the calls. -/
theorem Reached.standing (h : Reached (fun _ _ => True) s) (hm : s.runtime.main = .prog)
    (hslot : s.graph.reuse.dagInstanceMap no = some inst)
    (htasks : storedTasks no s.calls = some tasks) :
    ∃ c, Standing no inst tasks s c none s := by
  have htracked := h.tracked hslot htasks
  obtain ⟨c, -, hcnt⟩ := htracked.cnt
  refine ⟨c, htracked, h.inv, ⟨rfl, rfl⟩, hcnt, nofun, fun _ _ => rfl, ?_⟩
  rw [hm]
  simp [MainPc.waitsFor]

/-- Rounds with other vectors change nothing of a stored graph with tasks; each runs the graph
that it has built, and a `dag_start` with the recorded vectors brings the stored graph back. -/
theorem mismatch_transparent (h : Reached (fun _ _ => True) s) (hm : s.runtime.main = .prog)
    (hslot : s.graph.reuse.dagInstanceMap no = some inst)
    (htasks : storedTasks no s.calls = some tasks) (hne : tasks ≠ []) {announced : Bool}
    (hrounds : Rounds no s announced t) :
    (t.graph.reuse.dagIvecMap no = s.graph.reuse.dagIvecMap no ∧
      t.graph.reuse.dagFvecMap no = s.graph.reuse.dagFvecMap no ∧
      t.graph.reuse.dagInstanceMap no = some inst ∧
      t.graph.reuse.dagReuseCnt no = s.graph.reuse.dagReuseCnt no ∧
      ∀ u, u ∈ tasks ∨ u = inst.endTask → t.heap u = s.heap u) ∧
    (t.runtime.main = .prog → t.looping = false →
      (∀ iv fv, s.Differs no iv fv → (t.graph.dagStart no iv fv).2 = false) ∧
      (announced = true → ∃ t', t.act (.call .spawnAndWait) = some t' ∧
        t'.Executes (tasksSince t.calls)) ∧
      ∀ iv fv, ¬ s.Differs no iv fv → (t.graph.dagStart no iv fv).2 = true ∧
        ∀ v, Builds (t.dagStart no iv fv) v → v.runtime.main = .prog → v.looping = false →
          ∃ v', v.act (.call .spawnAndWait) = some v' ∧
            Resumes s inst tasks v') := by
  obtain ⟨c, hs⟩ := h.standing hm hslot htasks
  have ht := hrounds.standing hs hne
  refine ⟨⟨ht.vectors.1, ht.vectors.2, ht.tracked.slot, ht.cnt.trans hs.cnt.symm, ht.still⟩,
    fun htm hloop => ?_⟩
  have hact : ∀ iv fv, t.act (.call (.dagStart no iv fv)) = some (t.dagStart no iv fv) :=
    fun iv fv => act_of_dagStart htm hloop
  refine ⟨fun iv fv hdiffer => ?_, fun hannounced => ?_, fun iv fv hsame => ?_⟩
  · exact Bool.eq_false_iff.mpr fun hret => (ht.announce hne (hact iv fv)).1.mp hret hdiffer
  · rw [if_pos hannounced] at ht
    have hkind := ht.kind_built
    obtain ⟨lo, base, hbetween⟩ := ht.inv.between htm
    obtain ⟨t', ht'⟩ := hbetween.spawnAndWait_isSome (by rw [hkind]; simp)
    have hspawn := act_spawnAndWait htm hloop ht'
    refine ⟨t', hspawn, (ht.inv.act hspawn).executes ?_⟩
    rw [(spawnAndWait_reuse ht').1, hkind]
    rfl
  · obtain ⟨hiff, c', -, hstanding⟩ := ht.announce hne (hact iv fv)
    have hret := hiff.mpr hsame
    rw [hret] at hstanding
    refine ⟨hret, fun v hbuilds hvm hvloop => ?_⟩
    exact (hbuilds.standing hstanding hne).resumes hne hvm hvloop

namespace Example

/-- A graph with `n` tasks is stored under the number `1` and run. -/
def stored (n : Nat) : List (Act 1) :=
  announced n ++ .call .spawnAndWait :: turns (n * 9 + 4)

/-- A graph with one task is built and run. -/
def rebuilt : List (Act 1) := loop ++ .call .spawnAndWait :: turns 13

def starts : Act 1 → Bool
  | .call (.dagStart _ _ _) => true
  | _ => false

theorem rounds_of_run {s t t' : Session 1} {no : Int} (h : Rounds no s true t)
    {acts : List (Act 1)} (hacts : acts.all fun a => !starts a) (hrun : t.run acts = some t') :
    Rounds no s true t' := by
  refine isRun_run.keeps ?_ hrun h
  intro a ha t t' hact hrounds
  have hstarts := List.all_eq_true.mp hacts a ha
  cases a with
  | thread i hit => exact hrounds.thread hact
  | call c =>
      cases c with
      | build c => exact hrounds.build hact
      | dagStart dagNo intVec floatVec => cases hstarts
      | spawnAndWait => exact hrounds.spawnAndWait hact

/-- The vectors are the empty ones, and a number is announced with another. -/
theorem differs {s : Session 1} (h : s.graph.reuse.dagIvecMap 1 = []) :
    s.Differs 1 [5] [] := by
  rintro ⟨hiv, -⟩
  rw [h] at hiv
  cases hiv

end Example

/-- A round with other vectors between two runs of a graph with one task. -/
theorem mismatch_transparent_example : ∃ s t v : Session 1, Rounds 1 s true t ∧
    t.runtime.log.count (.start 2) = 1 ∧ t.heap 0 = s.heap 0 ∧
    (t.graph.dagStart 1 [] []).2 = true ∧
    (t.dagStart 1 [] []).act (.call .spawnAndWait) = some v ∧
    Resumes s ⟨1, [0]⟩ [0] v := by
  have hrun : (((start : Session 1).run (Example.stored 1)).bind fun s =>
      (s.act (.call (.dagStart 1 [5] []))).bind fun s' =>
        (s'.run Example.rebuilt).map fun t =>
          decide (s.runtime.main = .prog ∧ s.graph.reuse.dagInstanceMap 1 = some ⟨1, [0]⟩ ∧
            storedTasks 1 s.calls = some [0] ∧ s.graph.reuse.dagIvecMap 1 = [] ∧
            (s.graph.reuse.dagFvecMap 1).isEmpty ∧ t.runtime.main = .prog ∧
            t.looping = false ∧ t.runtime.log.count (.start 2) = 1)) = some true := by decide +kernel
  obtain ⟨s, hs, hrun⟩ := Option.bind_eq_some_iff.mp hrun
  obtain ⟨s', hs', hrun⟩ := Option.bind_eq_some_iff.mp hrun
  obtain ⟨t, ht, hrun⟩ := Option.map_eq_some_iff.mp hrun
  simp only [decide_eq_true_eq, List.isEmpty_iff] at hrun
  obtain ⟨hm, hslot, htasks, hiv, hfv, hmt, hloop, hlog⟩ := hrun
  have hrounds := Example.rounds_of_run (Rounds.start.dagStart (Example.differs hiv) hs')
    (by decide) ht
  obtain ⟨⟨-, -, -, -, hheap⟩, hcalls⟩ := mismatch_transparent (Reached.start.run _ hs) hm hslot
    htasks (by simp) hrounds
  obtain ⟨hret, hall⟩ := (hcalls hmt hloop).2.2 [] [] fun hdiffer => hdiffer ⟨hiv, by
    rw [hfv]
    exact List.Forall₂.nil⟩
  obtain ⟨v, hv, hresumes⟩ := hall _ .start hmt hloop
  exact ⟨s, t, v, hrounds, hlog, hheap 0 (by simp), hret, hv, hresumes⟩

/-- The end task of a graph without tasks has been deleted by the first run. After a round with
other vectors `dag_start` promises the graph again, and `spawn_and_wait` finds the deleted
object. -/
theorem mismatch_of_nothing : ∃ s t : Session 1,
    Reached (fun _ _ => True) s ∧ s.runtime.main = .prog ∧
    s.graph.reuse.dagInstanceMap 1 = some ⟨0, []⟩ ∧ storedTasks 1 s.calls = some [] ∧
    Rounds 1 s true t ∧ t.runtime.main = .prog ∧ t.looping = false ∧
    (t.graph.dagStart 1 [] []).2 = true ∧ ((t.dagStart 1 [] []).heap 0).deleted = true ∧
    (t.dagStart 1 [] []).kind = .resumed ∧
    (t.dagStart 1 [] []).act (.call .spawnAndWait) = none := by
  have hrun : (((start : Session 1).run (Example.stored 0)).bind fun s =>
      (s.act (.call (.dagStart 1 [5] []))).bind fun s' =>
        (s'.run Example.rebuilt).map fun t =>
          decide (s.runtime.main = .prog ∧ s.graph.reuse.dagInstanceMap 1 = some ⟨0, []⟩ ∧
            storedTasks 1 s.calls = some [] ∧ s.graph.reuse.dagIvecMap 1 = [] ∧
            t.runtime.main = .prog ∧ t.looping = false ∧ (t.graph.dagStart 1 [] []).2 = true ∧
            ((t.dagStart 1 [] []).heap 0).deleted = true ∧
            (t.dagStart 1 [] []).kind = .resumed ∧
            ((t.dagStart 1 [] []).act (.call .spawnAndWait)).isNone = true)) = some true := by
    decide +kernel
  obtain ⟨s, hs, hrun⟩ := Option.bind_eq_some_iff.mp hrun
  obtain ⟨s', hs', hrun⟩ := Option.bind_eq_some_iff.mp hrun
  obtain ⟨t, ht, hrun⟩ := Option.map_eq_some_iff.mp hrun
  obtain ⟨hm, hslot, htasks, hiv, hmt, hloop, hret, hdeleted, hkind, hnone⟩ :=
    of_decide_eq_true hrun
  have hrounds := Example.rounds_of_run (Rounds.start.dagStart (Example.differs hiv) hs')
    (by decide) ht
  exact ⟨s, t, Reached.start.run _ hs, hm, hslot, htasks, hrounds, hmt, hloop, hret, hdeleted,
    hkind, Option.isNone_iff_eq_none.mp hnone⟩

end Session

end AceMesh
