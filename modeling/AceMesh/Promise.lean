import AceMesh.Resumption

/-!
# What `dag_start` promises

The vectors of a number are recorded by its first `dag_start`, the graph is saved by a later
`spawn_and_wait`, and `dag_start` looks at the vectors only. `outset` follows a number from
its first `dag_start` to the next call that matters. When that call is a `spawn_and_wait`,
the graph is saved with the vectors that have been recorded, and every later promise can be
honoured. When it is another `dag_start`, none can (`dag_start_promise`): either nothing is
ever saved under the number, or a graph that was built for other vectors.
-/

open AceMesh.TaskDagGraph AceMesh.Runtime

namespace AceMesh

/-! ## Comparing vectors -/

namespace Double

theorem beq_def (x y : Double) : (x == y) = (!x.isNaN && !y.isNaN &&
    (x.bits == y.bits || (x.magnitude == 0#64 && y.magnitude == 0#64))) := rfl

/-- Equal doubles are equal to the same doubles. -/
theorem beq_euclidean {x y z : Double} (hxy : (x == y) = true) (hxz : (x == z) = true) :
    (y == z) = true := by
  have hmag : ∀ a b : Double, a.bits = b.bits → a.magnitude = b.magnitude := by
    intro a b h
    unfold magnitude
    rw [h]
  rw [beq_def] at hxy hxz ⊢
  simp only [Bool.and_eq_true, Bool.or_eq_true, Bool.not_eq_true', beq_iff_eq] at hxy hxz ⊢
  obtain ⟨⟨-, hy⟩, hbits⟩ := hxy
  obtain ⟨⟨-, hz⟩, hbits'⟩ := hxz
  refine ⟨⟨hy, hz⟩, ?_⟩
  obtain hbits | ⟨hx, hy⟩ := hbits
  · obtain hbits' | ⟨hx, hz⟩ := hbits'
    · exact Or.inl (hbits.symm.trans hbits')
    · exact Or.inr ⟨(hmag x y hbits).symm.trans hx, hz⟩
  · obtain hbits' | ⟨-, hz⟩ := hbits'
    · exact Or.inr ⟨hy, (hmag x z hbits').symm.trans hx⟩
    · exact Or.inr ⟨hy, hz⟩

theorem beq_symm {x y : Double} (h : (x == y) = true) : (y == x) = true := by
  rw [beq_def] at h ⊢
  simp only [Bool.and_eq_true, Bool.or_eq_true, Bool.not_eq_true', beq_iff_eq] at h ⊢
  exact ⟨h.1.symm, h.2.imp Eq.symm And.symm⟩

end Double

/-- As long as each other, and `==` at each place. -/
def SameFloats : List Double → List Double → Prop :=
  List.Forall₂ fun x y => (x == y) = true

theorem SameFloats.euclidean {xs ys zs : List Double} (hy : SameFloats xs ys)
    (hz : SameFloats xs zs) : SameFloats ys zs := by
  induction hy generalizing zs with
  | nil =>
      cases hz
      exact List.Forall₂.nil
  | cons hxy _ ih =>
      obtain ⟨z, zs, hxz, hrest, rfl⟩ := List.forall₂_cons_left_iff.mp hz
      exact List.Forall₂.cons (Double.beq_euclidean hxy hxz) (ih hrest)

theorem SameFloats.symm {xs ys : List Double} (h : SameFloats xs ys) : SameFloats ys xs := by
  induction h with
  | nil => exact List.Forall₂.nil
  | cons hxy _ ih => exact List.Forall₂.cons (Double.beq_symm hxy) ih

theorem sameVectors_iff {vecI intVec : List Int} {vecF floatVec : List Double} :
    sameVectors vecI intVec vecF floatVec = true ↔ vecI = intVec ∧ SameFloats vecF floatVec := by
  have hint : vecI = intVec ↔ vecI.length = intVec.length ∧
      (vecI.zip intVec).any (fun p => p.1 != p.2) = false := by
    rw [← List.forall₂_eq_eq_eq, List.forall₂_iff_zip]
    simp
  have hfloat : SameFloats vecF floatVec ↔ vecF.length = floatVec.length ∧
      (vecF.zip floatVec).any (fun p => p.1 != p.2) = false := by
    unfold SameFloats
    rw [List.forall₂_iff_zip]
    simp [bne]
  rw [hint, hfloat]
  unfold sameVectors
  by_cases hlen : vecI.length = intVec.length ∧ vecF.length = floatVec.length
  · simp [hlen.1, hlen.2]
  · rw [if_pos (by tauto)]
    simp only [Bool.false_eq_true, false_iff]
    tauto

/-! ## What the calls say -/

/-- A `dag_start` that has returned. -/
structure Announcement where
  dagNo : Int
  intVec : List Int
  floatVec : List Double
  ret : Bool

/-- The last `dag_start` of the program. -/
def lastStart : List Call → Option Announcement
  | [] => none
  | .dagStart dagNo intVec floatVec ret :: _ => some ⟨dagNo, intVec, floatVec, ret⟩
  | .task _ :: calls => lastStart calls
  | .spawnAndWait _ _ :: calls => lastStart calls

/-- What has followed the first `dag_start` of a number: nothing but tasks yet, first a
`spawn_and_wait`, or first another `dag_start`. -/
inductive Outset
  | unseen
  | fresh
  | prompt
  | late
  deriving DecidableEq

def outset (no : Int) : List Call → Outset
  | [] => .unseen
  | .task _ :: calls => outset no calls
  | .dagStart dagNo _ _ _ :: calls =>
    match outset no calls with
    | .unseen => if dagNo = no then .fresh else .unseen
    | .fresh => .late
    | .prompt => .prompt
    | .late => .late
  | .spawnAndWait _ _ :: calls =>
    match outset no calls with
    | .unseen => .unseen
    | .fresh => .prompt
    | .prompt => .prompt
    | .late => .late

theorem outset_cons_prompt {no : Int} {calls : List Call} (h : outset no calls = .prompt)
    (c : Call) : outset no (c :: calls) = .prompt := by
  cases c with
  | task t => exact h
  | dagStart dagNo intVec floatVec ret => simp [outset, h]
  | spawnAndWait dagNo kind => simp [outset, h]

namespace Session

variable {m : Nat} {s s' : Session m}

theorem call_spawnAndWait (hact : s.act (.call .spawnAndWait) = some s') :
    s.spawnAndWait = some s' := by
  replace hact : s.call .spawnAndWait = some s' := hact
  unfold Session.call at hact
  dsimp only at hact
  split at hact
  · split at hact
    · cases hact
    · exact hact
  · cases hact

/-- What an act does to the numbers and to the list of calls. -/
inductive Effect (s s' : Session m) : Prop
  | quiet (reuse : s'.graph.reuse = s.graph.reuse) (calls : s'.calls = s.calls)
  | task (t : TaskId) (reuse : s'.graph.reuse = s.graph.reuse) (calls : s'.calls = .task t :: s.calls)
  | dagStart (dagNo : Int) (intVec : List Int) (floatVec : List Double)
      (eq : s' = s.dagStart dagNo intVec floatVec)
  | spawnAndWait (act : s.act (.call .spawnAndWait) = some s')

theorem act_effect {a : Act m} (hact : s.act a = some s') : Effect s s' := by
  have hs := hact
  cases a with
  | thread i hit =>
      obtain ⟨r, hr, rfl⟩ := Option.map_eq_some_iff.mp hs
      exact .quiet (step_reuse hr) rfl
  | call c =>
      replace hs : s.call c = some s' := hs
      unfold Session.call at hs
      split at hs
      · cases c with
        | build c =>
            replace hs : s.build c = some s' := hs
            unfold Session.build at hs
            split at hs
            · cases hs
              exact .quiet rfl rfl
            · split at hs
              · cases hs
                exact .quiet rfl rfl
              · cases hs
            · rename_i spec _
              cases hs
              exact .task s.graph.fresh (taskGenerator_reuse _ spec) rfl
            · cases hs
              refine .quiet ?_ rfl
              show s.graph.endSplitTask.reuse = _
              rw [endSplitTask_eq]
            · cases hs
        | dagStart dagNo intVec floatVec =>
            dsimp only at hs
            split at hs
            · cases hs
            · cases hs
              exact .dagStart dagNo intVec floatVec rfl
        | spawnAndWait =>
            dsimp only at hs
            split at hs
            · cases hs
            · exact .spawnAndWait hact
      · cases hs

/-- The three outcomes of `dag_start`. -/
inductive Announces (u : DagReuse) (no : Int) (iv : List Int) (fv : List Double) :
    DagReuse → Bool → Prop
  | again (c : Int) (cnt : u.dagReuseCnt no = some c)
      (same : sameVectors (u.dagIvecMap no) iv (u.dagFvecMap no) fv = true) :
      Announces u no iv fv { u with
        currDagNo := no
        dagReuseCnt := Function.update u.dagReuseCnt no (some (c + 1))
        dagReuseFlag := Function.update u.dagReuseFlag no (some true) } true
  | other (c : Int) (cnt : u.dagReuseCnt no = some c)
      (differ : sameVectors (u.dagIvecMap no) iv (u.dagFvecMap no) fv = false) :
      Announces u no iv fv { u with
        currDagNo := no
        dagReuseFlag := Function.update u.dagReuseFlag no (some false) } false
  | first (cnt : u.dagReuseCnt no = none) :
      Announces u no iv fv { u with
        currDagNo := no
        dagReuseFlag := Function.update u.dagReuseFlag no (some false)
        dagReuseCnt := Function.update u.dagReuseCnt no (some (-1))
        dagIvecMap := Function.update u.dagIvecMap no (u.dagIvecMap no ++ iv)
        dagFvecMap := Function.update u.dagFvecMap no (u.dagFvecMap no ++ fv) } false

theorem dagStart_announces (g : TaskDagGraph) (no : Int) (iv : List Int) (fv : List Double) :
    Announces g.reuse no iv fv (g.dagStart no iv fv).1.reuse (g.dagStart no iv fv).2 := by
  unfold TaskDagGraph.dagStart
  dsimp only
  split
  · rename_i c hcnt
    split
    · rename_i hsame
      have h : Announces g.reuse no iv fv _ true := .again c hcnt hsame
      rwa [← Function.update_idem (a := no) (some false) (some true) g.reuse.dagReuseFlag] at h
    · rename_i hdiffer
      exact .other c hcnt (by simpa using hdiffer)
  · rename_i hcnt
    exact .first hcnt

theorem Announces.latest {u u' : DagReuse} {no : Int} {iv : List Int} {fv : List Double}
    {ret : Bool} (h : Announces u no iv fv u' ret) :
    u'.currDagNo = no ∧ u'.dagReuseFlag no = some ret := by
  cases h with
  | again c _ _ => exact ⟨rfl, Function.update_self ..⟩
  | other c _ _ => exact ⟨rfl, Function.update_self ..⟩
  | first _ => exact ⟨rfl, Function.update_self ..⟩

theorem dagStart_reuse_announces (s : Session m) (no : Int) (iv : List Int) (fv : List Double) :
    Announces s.graph.reuse no iv fv (s.dagStart no iv fv).graph.reuse
      (s.graph.dagStart no iv fv).2 := dagStart_announces s.graph no iv fv

/-! ## The last announcement -/

/-- The current number and its flag come from the last `dag_start`. -/
structure Latest (s : Session m) : Prop where
  missing : lastStart s.calls = none → ∀ no, s.graph.reuse.dagReuseFlag no = none
  found : ∀ a, lastStart s.calls = some a →
    s.graph.reuse.currDagNo = a.dagNo ∧ s.graph.reuse.dagReuseFlag a.dagNo = some a.ret

theorem Latest.congr (h : Latest s) (hflag : s'.graph.reuse.dagReuseFlag = s.graph.reuse.dagReuseFlag)
    (hcurr : s'.graph.reuse.currDagNo = s.graph.reuse.currDagNo)
    (hlast : lastStart s'.calls = lastStart s.calls) : Latest s' := by
  refine ⟨fun hnone no => ?_, fun a ha => ?_⟩
  · rw [hflag]
    exact h.missing (hlast ▸ hnone) no
  · rw [hflag, hcurr]
    exact h.found a (hlast ▸ ha)

/-- `spawn_and_wait` writes neither the current number nor a flag. -/
theorem spawnAndWait_flag (hs : s.spawnAndWait = some s') :
    s'.graph.reuse.dagReuseFlag = s.graph.reuse.dagReuseFlag ∧
      s'.graph.reuse.currDagNo = s.graph.reuse.currDagNo ∧
      s'.graph.reuse.dagIvecMap = s.graph.reuse.dagIvecMap ∧
      s'.graph.reuse.dagFvecMap = s.graph.reuse.dagFvecMap := by
  obtain ⟨-, hstored, hother⟩ := spawnAndWait_reuse hs
  by_cases hkind : s.kind = .stored
  · obtain ⟨-, -, hreuse⟩ := hstored hkind
    rw [hreuse]
    exact ⟨rfl, rfl, rfl, rfl⟩
  · rw [hother hkind]
    exact ⟨rfl, rfl, rfl, rfl⟩

theorem Latest.effect (h : Latest s) (heffect : Effect s s') : Latest s' := by
  cases heffect with
  | quiet hreuse hcalls => exact h.congr (by rw [hreuse]) (by rw [hreuse]) (by rw [hcalls])
  | task t hreuse hcalls =>
      apply h.congr (by rw [hreuse]) (by rw [hreuse])
      rw [hcalls]
      rfl
  | dagStart no iv fv heq =>
      subst heq
      have hann := dagStart_reuse_announces s no iv fv
      refine ⟨(fun hnone => nomatch hnone), fun a ha => ?_⟩
      obtain rfl := Option.some.inj ha
      exact hann.latest
  | spawnAndWait hact =>
      have hs := call_spawnAndWait hact
      obtain ⟨hflag, hcurr, -⟩ := spawnAndWait_flag hs
      apply h.congr hflag hcurr
      rw [(spawnAndWait_reuse hs).1]
      rfl

theorem Reached.latest {ok : Session m → Act m → Prop} (h : Reached ok s) : Latest s := by
  induction h with
  | start => exact ⟨fun _ _ => rfl, fun a ha => by cases ha⟩
  | act hreached _ hact ih => exact ih.effect (act_effect hact)

/-! ## One number -/

/-- The graph under `no` has been saved by a `spawn_and_wait`, the last `dag_start` before
which was for `no` and these vectors. -/
def BuiltFor (no : Int) (iv : List Int) (fv : List Double) (s : Session m) : Prop :=
  ∃ (s₁ s₂ : Session m) (inst : DagInstance) (ret : Bool),
    Reached (fun _ _ => True) s₁ ∧ s₁.act (.call .spawnAndWait) = some s₂ ∧
    s₁.kind = .stored ∧ lastStart s₁.calls = some ⟨no, iv, fv, ret⟩ ∧
    s₂.graph.reuse.dagInstanceMap no = some inst ∧ Later s₂ s ∧
    s.graph.reuse.dagInstanceMap no = some inst

theorem BuiltFor.act {no : Int} {iv : List Int} {fv : List Double} {a : Act m}
    (h : BuiltFor no iv fv s) (hact : s.act a = some s')
    (hmap : s'.graph.reuse.dagInstanceMap no = s.graph.reuse.dagInstanceMap no) :
    BuiltFor no iv fv s' := by
  obtain ⟨s₁, s₂, inst, ret, hreached, hstore, hkind, hlast, hsaved, hlater, hinst⟩ := h
  exact ⟨s₁, s₂, inst, ret, hreached, hstore, hkind, hlast, hsaved, hlater.tail ⟨a, hact⟩,
    hmap.trans hinst⟩

/-- What the state holds for a number. After a late start the graph that the next
`spawn_and_wait` would save is not one for the recorded vectors. -/
inductive Account (no : Int) (s : Session m) : Outset → Prop
  | unseen (cnt : s.graph.reuse.dagReuseCnt no = none)
      (vectors : s.graph.reuse.dagIvecMap no = [] ∧ s.graph.reuse.dagFvecMap no = []) :
      Account no s .unseen
  | fresh (cnt : s.graph.reuse.dagReuseCnt no = some (-1))
      (last : lastStart s.calls =
        some ⟨no, s.graph.reuse.dagIvecMap no, s.graph.reuse.dagFvecMap no, false⟩) :
      Account no s .fresh
  | prompt (c : Int) (nonneg : 0 ≤ c) (cnt : s.graph.reuse.dagReuseCnt no = some c)
      (built : BuiltFor no (s.graph.reuse.dagIvecMap no) (s.graph.reuse.dagFvecMap no) s) :
      Account no s .prompt
  | late (c : Int) (le : -1 ≤ c) (cnt : s.graph.reuse.dagReuseCnt no = some c)
      (differ : c = -1 → ∀ a, lastStart s.calls = some a → a.dagNo = no →
        sameVectors (s.graph.reuse.dagIvecMap no) a.intVec
          (s.graph.reuse.dagFvecMap no) a.floatVec = false) : Account no s .late

/-- A `dag_start` of another number. -/
theorem Announces.of_ne {u u' : DagReuse} {no dagNo : Int} {iv : List Int} {fv : List Double}
    {ret : Bool} (h : Announces u dagNo iv fv u' ret) (hne : no ≠ dagNo) :
    u'.dagReuseCnt no = u.dagReuseCnt no ∧ u'.dagIvecMap no = u.dagIvecMap no ∧
      u'.dagFvecMap no = u.dagFvecMap no := by
  cases h with
  | again c _ _ => exact ⟨Function.update_of_ne hne .., rfl, rfl⟩
  | other c _ _ => exact ⟨rfl, rfl, rfl⟩
  | first _ =>
      exact ⟨Function.update_of_ne hne .., Function.update_of_ne hne .., Function.update_of_ne hne ..⟩

/-- A later `dag_start` of a number: the vectors stay, and the counter grows unless they are
others. -/
theorem Announces.of_seen {u u' : DagReuse} {no c : Int} {iv : List Int} {fv : List Double}
    {ret : Bool} (h : Announces u no iv fv u' ret) (hcnt : u.dagReuseCnt no = some c) :
    (u'.dagIvecMap no = u.dagIvecMap no ∧ u'.dagFvecMap no = u.dagFvecMap no) ∧
      ∃ c', c ≤ c' ∧ u'.dagReuseCnt no = some c' ∧
        (c' = c → sameVectors (u.dagIvecMap no) iv (u.dagFvecMap no) fv = false) := by
  cases h with
  | again c₁ hc₁ _ =>
      obtain rfl := Option.some.inj (hcnt.symm.trans hc₁)
      exact ⟨⟨rfl, rfl⟩, c + 1, by omega, Function.update_self .., fun he => by omega⟩
  | other c₁ _ hdiffer => exact ⟨⟨rfl, rfl⟩, c, Int.le_refl c, hcnt, fun _ => hdiffer⟩
  | first hnone =>
      rw [hcnt] at hnone
      cases hnone

/-- The first `dag_start` of a number records the vectors. -/
theorem Announces.of_unseen {u u' : DagReuse} {no : Int} {iv : List Int} {fv : List Double}
    {ret : Bool} (h : Announces u no iv fv u' ret) (hcnt : u.dagReuseCnt no = none) :
    u'.dagReuseCnt no = some (-1) ∧ u'.dagIvecMap no = u.dagIvecMap no ++ iv ∧
      u'.dagFvecMap no = u.dagFvecMap no ++ fv ∧ ret = false := by
  cases h with
  | again c hsome _ =>
      rw [hcnt] at hsome
      cases hsome
  | other c hsome _ =>
      rw [hcnt] at hsome
      cases hsome
  | first _ =>
      exact ⟨Function.update_self .., Function.update_self .., Function.update_self .., rfl⟩

theorem Announces.instances {u u' : DagReuse} {no : Int} {iv : List Int} {fv : List Double}
    {ret : Bool} (h : Announces u no iv fv u' ret) : u'.dagInstanceMap = u.dagInstanceMap := by
  cases h with
  | again _ _ _ => rfl
  | other _ _ _ => rfl
  | first _ => rfl

namespace Account

variable {no : Int} {o : Outset} {a : Act m}

theorem congr (h : Account no s o) (hact : s.act a = some s')
    (hreuse : s'.graph.reuse = s.graph.reuse) (hlast : lastStart s'.calls = lastStart s.calls) :
    Account no s' o := by
  cases h with
  | unseen hcnt hvectors => exact .unseen (by rw [hreuse]; exact hcnt) (by rw [hreuse]; exact hvectors)
  | fresh hcnt hfresh =>
      exact .fresh (by rw [hreuse]; exact hcnt) (by rw [hreuse, hlast]; exact hfresh)
  | prompt c hc hcnt hbuilt =>
      refine .prompt c hc (by rw [hreuse]; exact hcnt) ?_
      rw [hreuse]
      exact hbuilt.act hact (by rw [hreuse])
  | late c hc hcnt hdiffer =>
      refine .late c hc (by rw [hreuse]; exact hcnt) ?_
      rw [hreuse, hlast]
      exact hdiffer

theorem dagStart {dagNo : Int} {iv : List Int} {fv : List Double}
    (h : Account no s (outset no s.calls)) (hact : s.act a = some (s.dagStart dagNo iv fv)) :
    Account no (s.dagStart dagNo iv fv) (outset no (s.dagStart dagNo iv fv).calls) := by
  have hann := dagStart_reuse_announces s dagNo iv fv
  have hlast : lastStart (s.dagStart dagNo iv fv).calls =
      some ⟨dagNo, iv, fv, (s.graph.dagStart dagNo iv fv).2⟩ := rfl
  have hmap := congrFun hann.instances no
  have hout : outset no (s.dagStart dagNo iv fv).calls =
      match outset no s.calls with
      | .unseen => if dagNo = no then .fresh else .unseen
      | .fresh => .late
      | .prompt => .prompt
      | .late => .late := rfl
  rw [hout]
  generalize outset no s.calls = o at h ⊢
  generalize s.dagStart dagNo iv fv = s₁ at *
  by_cases hno : no = dagNo
  · subst hno
    cases h with
    | unseen hcnt hvectors =>
        obtain ⟨hivec, hfvec⟩ := hvectors
        obtain ⟨hcnt', hivec', hfvec', hret⟩ := hann.of_unseen hcnt
        rw [hivec, List.nil_append] at hivec'
        rw [hfvec, List.nil_append] at hfvec'
        dsimp only
        rw [if_pos rfl]
        apply Account.fresh hcnt'
        rw [hlast, hret, hivec', hfvec']
    | fresh hcnt hfresh =>
        obtain ⟨⟨hivec, hfvec⟩, c, hc, hcnt', hdiffer⟩ := hann.of_seen hcnt
        apply Account.late c hc hcnt'
        intro he b hb _
        obtain rfl := Option.some.inj (hlast.symm.trans hb)
        rw [hivec, hfvec]
        exact hdiffer he
    | prompt c hc hcnt hbuilt =>
        obtain ⟨⟨hivec, hfvec⟩, c', hle, hcnt', -⟩ := hann.of_seen hcnt
        apply Account.prompt c' (Int.le_trans hc hle) hcnt'
        rw [hivec, hfvec]
        exact hbuilt.act hact hmap
    | late c hc hcnt hdiffer =>
        obtain ⟨⟨hivec, hfvec⟩, c', hle, hcnt', hdiffer'⟩ := hann.of_seen hcnt
        apply Account.late c' (Int.le_trans hc hle) hcnt'
        intro he b hb _
        obtain rfl := Option.some.inj (hlast.symm.trans hb)
        rw [hivec, hfvec]
        exact hdiffer' (by omega)
  · obtain ⟨hcnt', hivec, hfvec⟩ := hann.of_ne hno
    have hother : ∀ b, lastStart s₁.calls = some b → b.dagNo ≠ no := by
      intro b hb he
      obtain rfl := Option.some.inj (hlast.symm.trans hb)
      exact hno he.symm
    cases h with
    | unseen hcnt hvectors =>
        dsimp only
        rw [if_neg (Ne.symm hno)]
        exact .unseen (hcnt'.trans hcnt) (by rw [hivec, hfvec]; exact hvectors)
    | fresh hcnt hfresh =>
        exact .late (-1) (Int.le_refl _) (hcnt'.trans hcnt) fun _ b hb he => absurd he (hother b hb)
    | prompt c hc hcnt hbuilt =>
        apply Account.prompt c hc (hcnt'.trans hcnt)
        rw [hivec, hfvec]
        exact hbuilt.act hact hmap
    | late c hc hcnt hdiffer =>
        exact .late c hc (hcnt'.trans hcnt) fun _ b hb he => absurd he (hother b hb)

theorem spawnAndWait (h : Account no s (outset no s.calls)) (hlatest : Latest s)
    (hreached : Reached (fun _ _ => True) s)
    (hact : s.act (.call .spawnAndWait) = some s') :
    Account no s' (outset no s'.calls) := by
  have hs := call_spawnAndWait hact
  obtain ⟨hcalls, hstored, hother⟩ := spawnAndWait_reuse hs
  obtain ⟨-, -, hivec, hfvec⟩ := spawnAndWait_flag hs
  have hlast : lastStart s'.calls = lastStart s.calls := by
    rw [hcalls]
    rfl
  have hout : outset no s'.calls =
      match outset no s.calls with
      | .unseen => .unseen
      | .fresh => .prompt
      | .prompt => .prompt
      | .late => .late := by
    rw [hcalls]
    rfl
  rw [hout]
  -- a number that is fresh is the current one
  have hfresh : ∀ b, lastStart s.calls = some b → b.dagNo = no → b.ret = false →
      s.graph.reuse.dagReuseCnt no = some (-1) →
      s.graph.reuse.currDagNo = no ∧ s.kind = .stored := by
    intro b hb hno hret hcnt
    obtain ⟨hcurr, hflag⟩ := hlatest.found b hb
    rw [hno] at hcurr hflag
    rw [hret] at hflag
    refine ⟨hcurr, ?_⟩
    unfold kind reuses inits
    rw [hcurr, hflag, hcnt]
    rfl
  generalize outset no s.calls = o at h ⊢
  by_cases hkind : s.kind = .stored
  · obtain ⟨hminus, -, hreuse⟩ := hstored hkind
    by_cases hno : no = s.graph.reuse.currDagNo
    · have hcnt' : s'.graph.reuse.dagReuseCnt no = some 0 := by
        rw [hreuse, hno]
        exact Function.update_self ..
      rw [← hno] at hminus
      cases h with
      | unseen hcnt _ =>
          rw [hcnt] at hminus
          cases hminus
      | fresh hcnt hstart =>
          apply Account.prompt 0 (Int.le_refl 0) hcnt'
          have hinst : s'.graph.reuse.dagInstanceMap no =
              some ⟨s.graph.fresh, s.graph.needSpawnTasks⟩ := by
            rw [hreuse, hno]
            exact Function.update_self ..
          rw [hivec, hfvec]
          exact ⟨s, s', _, false, hreached, hact, hkind, hstart, hinst,
            Relation.ReflTransGen.refl, hinst⟩
      | prompt c hc hcnt _ =>
          rw [hcnt] at hminus
          have := Option.some.inj hminus
          omega
      | late c hc hcnt _ => exact .late 0 (by omega) hcnt' fun he => by omega
    · have hcnt' : s'.graph.reuse.dagReuseCnt no = s.graph.reuse.dagReuseCnt no := by
        rw [hreuse]
        exact Function.update_of_ne hno ..
      have hmap : s'.graph.reuse.dagInstanceMap no = s.graph.reuse.dagInstanceMap no := by
        rw [hreuse]
        exact Function.update_of_ne hno ..
      cases h with
      | unseen hcnt hvectors =>
          exact .unseen (hcnt'.trans hcnt) (by rw [hivec, hfvec]; exact hvectors)
      | fresh hcnt hstart => exact absurd (hfresh _ hstart rfl rfl hcnt).1.symm hno
      | prompt c hc hcnt hbuilt =>
          apply Account.prompt c hc (hcnt'.trans hcnt)
          rw [hivec, hfvec]
          exact hbuilt.act hact hmap
      | late c hc hcnt hdiffer =>
          apply Account.late c hc (hcnt'.trans hcnt)
          rw [hivec, hfvec, hlast]
          exact hdiffer
  · have hreuse := hother hkind
    cases h with
    | unseen hcnt hvectors => exact (Account.unseen hcnt hvectors).congr hact hreuse hlast
    | fresh hcnt hstart => exact absurd (hfresh _ hstart rfl rfl hcnt).2 hkind
    | prompt c hc hcnt hbuilt => exact (Account.prompt c hc hcnt hbuilt).congr hact hreuse hlast
    | late c hc hcnt hdiffer => exact (Account.late c hc hcnt hdiffer).congr hact hreuse hlast

end Account

theorem Reached.account (h : Reached (fun _ _ => True) s) (no : Int) :
    Account no s (outset no s.calls) := by
  induction h with
  | start => exact .unseen rfl ⟨rfl, rfl⟩
  | @act s s' a hreached _ hact ih =>
      have heffect := act_effect hact
      cases heffect with
      | quiet hreuse hcalls =>
          rw [hcalls]
          exact ih.congr hact hreuse (by rw [hcalls])
      | task t hreuse hcalls =>
          rw [hcalls]
          exact ih.congr hact hreuse (by rw [hcalls]; rfl)
      | dagStart dagNo iv fv heq =>
          subst heq
          exact ih.dagStart hact
      | spawnAndWait hcall => exact ih.spawnAndWait hreached.latest hreached hcall

/-- The vectors of a number that has been announced stay. -/
theorem Effect.vectors (heffect : Effect s s') {no c : Int}
    (hcnt : s.graph.reuse.dagReuseCnt no = some c) :
    (s'.graph.reuse.dagIvecMap no = s.graph.reuse.dagIvecMap no ∧
      s'.graph.reuse.dagFvecMap no = s.graph.reuse.dagFvecMap no) ∧
    ∃ c', s'.graph.reuse.dagReuseCnt no = some c' := by
  cases heffect with
  | quiet hreuse _ =>
      rw [hreuse]
      exact ⟨⟨rfl, rfl⟩, c, hcnt⟩
  | task t hreuse _ =>
      rw [hreuse]
      exact ⟨⟨rfl, rfl⟩, c, hcnt⟩
  | dagStart dagNo iv fv heq =>
      subst heq
      have hann := dagStart_reuse_announces s dagNo iv fv
      by_cases hno : no = dagNo
      · subst hno
        obtain ⟨hvectors, c', -, hcnt', -⟩ := hann.of_seen hcnt
        exact ⟨hvectors, c', hcnt'⟩
      · obtain ⟨hcnt', hvectors⟩ := hann.of_ne hno
        exact ⟨hvectors, c, hcnt'.trans hcnt⟩
  | spawnAndWait hact =>
      have hs := call_spawnAndWait hact
      obtain ⟨-, -, hivec, hfvec⟩ := spawnAndWait_flag hs
      obtain ⟨-, hstored, hother⟩ := spawnAndWait_reuse hs
      refine ⟨⟨congrFun hivec no, congrFun hfvec no⟩, ?_⟩
      by_cases hkind : s.kind = .stored
      · obtain ⟨-, -, hreuse⟩ := hstored hkind
        rw [hreuse]
        by_cases hno : no = s.graph.reuse.currDagNo
        · exact ⟨0, by rw [hno]; exact Function.update_self ..⟩
        · exact ⟨c, (Function.update_of_ne hno ..).trans hcnt⟩
      · rw [hother hkind]
        exact ⟨c, hcnt⟩

/-- A number that had a prompt start keeps it. -/
theorem Effect.prompt (heffect : Effect s s') {no : Int} (h : outset no s.calls = .prompt) :
    outset no s'.calls = .prompt := by
  cases heffect with
  | quiet _ hcalls =>
      rw [hcalls]
      exact h
  | task t _ hcalls =>
      rw [hcalls]
      exact outset_cons_prompt h _
  | dagStart dagNo iv fv heq =>
      subst heq
      exact outset_cons_prompt h _
  | spawnAndWait hact =>
      rw [(spawnAndWait_reuse (call_spawnAndWait hact)).1]
      exact outset_cons_prompt h _

theorem Later.vectors {no c : Int} (hlater : Later s s')
    (hcnt : s.graph.reuse.dagReuseCnt no = some c) :
    s'.graph.reuse.dagIvecMap no = s.graph.reuse.dagIvecMap no ∧
      s'.graph.reuse.dagFvecMap no = s.graph.reuse.dagFvecMap no := by
  induction hlater using Relation.ReflTransGen.head_induction_on generalizing c with
  | refl => exact ⟨rfl, rfl⟩
  | head hact _ ih =>
      obtain ⟨a, hact⟩ := hact
      obtain ⟨⟨hivec, hfvec⟩, c', hcnt'⟩ := (act_effect hact).vectors hcnt
      obtain ⟨hivec', hfvec'⟩ := ih hcnt'
      exact ⟨hivec'.trans hivec, hfvec'.trans hfvec⟩

theorem Later.prompt {no : Int} (hlater : Later s s')
    (h : outset no s.calls = .prompt) : outset no s'.calls = .prompt := by
  induction hlater using Relation.ReflTransGen.head_induction_on with
  | refl => exact h
  | head hact _ ih =>
      obtain ⟨a, hact⟩ := hact
      exact ih ((act_effect hact).prompt h)

/-- `dag_start` keeps its promise: a graph has been saved, and for equal vectors. -/
def Honoured (no : Int) (iv : List Int) (fv : List Double) (s : Session m) : Prop :=
  ∃ iv' fv', BuiltFor no iv' fv' s ∧ iv' = iv ∧ SameFloats fv' fv

/-- A promise is made for the recorded vectors. -/
theorem recorded_of_promise {no : Int} {iv : List Int} {fv : List Double}
    (hret : (s.graph.dagStart no iv fv).2 = true) :
    s.graph.reuse.dagIvecMap no = iv ∧ SameFloats (s.graph.reuse.dagFvecMap no) fv := by
  have hann := dagStart_announces s.graph no iv fv
  rw [hret] at hann
  generalize (s.graph.dagStart no iv fv).1.reuse = u at hann
  cases hann with
  | again c _ hsame => exact sameVectors_iff.mp hsame

/-- A promised graph can be run, and was built for the vectors of the promise, exactly if the
first `dag_start` of its number was followed by a `spawn_and_wait` before any other
`dag_start`. -/
theorem dag_start_promise (h : Reached (fun _ _ => True) s) {no : Int} {iv : List Int}
    {fv : List Double} (hret : (s.graph.dagStart no iv fv).2 = true) :
    Honoured no iv fv s ↔ outset no s.calls = .prompt := by
  obtain ⟨hiv, hfv⟩ := recorded_of_promise hret
  constructor
  · intro hhonoured
    obtain ⟨iv', fv', ⟨s₁, s₂, inst, ret, hreached, hstore, hkind, hlast, -, hlater, -⟩,
      rfl, hsame⟩ := hhonoured
    have hs := call_spawnAndWait hstore
    obtain ⟨hcalls, hstored, -⟩ := spawnAndWait_reuse hs
    have hcurr := (hreached.latest.found _ hlast).1
    dsimp only at hcurr
    have hminus := (hstored hkind).1
    rw [hcurr] at hminus
    -- the account of the number when the graph was saved
    have hout : outset no s₂.calls = match outset no s₁.calls with
        | .unseen => .unseen
        | .fresh => .prompt
        | .prompt => .prompt
        | .late => .late := by
      rw [hcalls]
      rfl
    have haccount := hreached.account no
    generalize outset no s₁.calls = o at haccount hout
    cases haccount with
    | unseen hcnt _ =>
        rw [hcnt] at hminus
        cases hminus
    | fresh _ _ => exact hlater.prompt hout
    | prompt _ _ _ _ => exact hlater.prompt hout
    | late c _ hcnt hdiffer =>
        have hno := hdiffer (Option.some.inj (hcnt.symm.trans hminus)) _ hlast rfl
        obtain ⟨⟨hivec, hfvec⟩, c', hcnt'⟩ :=
          (act_effect hstore).vectors hminus
        obtain ⟨hivec', hfvec'⟩ := hlater.vectors hcnt'
        rw [hivec'.trans hivec] at hiv
        rw [hfvec'.trans hfvec] at hfv
        have hyes : sameVectors (s₁.graph.reuse.dagIvecMap no) iv'
            (s₁.graph.reuse.dagFvecMap no) fv' = true := by
          rw [sameVectors_iff]
          exact ⟨hiv, hfv.symm.euclidean hsame.symm⟩
        dsimp only at hno
        rw [hyes] at hno
        cases hno
  · intro hprompt
    have haccount := h.account no
    rw [hprompt] at haccount
    cases haccount with
    | prompt c _ _ hbuilt => exact ⟨_, _, hbuilt, hiv, hfv⟩

/-- A graph that has been run once. -/
theorem dag_start_promise_example : ∃ s : Session 1, (s.graph.dagStart 1 [] []).2 = true ∧
    outset 1 s.calls = .prompt ∧ Honoured 1 [] [] s := by
  have hrun : (((start : Session 1).run
      (Example.announced 1 ++ [.call .spawnAndWait] ++ Example.turns 13)).map fun s =>
        ((s.graph.dagStart 1 [] []).2, outset 1 s.calls)) = some (true, .prompt) := by decide
  obtain ⟨s, hs, hpair⟩ := Option.map_eq_some_iff.mp hrun
  obtain ⟨hret, hprompt⟩ := Prod.mk.inj hpair
  exact ⟨s, hret, hprompt, (dag_start_promise (Reached.start.run _ hs) hret).mpr hprompt⟩

/-- Announced twice before anything is run, a graph is promised that does not exist. -/
theorem dag_start_promise_broken : ∃ s : Session 1, Reached (fun _ _ => True) s ∧
    (s.graph.dagStart 1 [] []).2 = true ∧ s.graph.reuse.dagInstanceMap 1 = none ∧
    ¬ Honoured 1 [] [] s := by
  refine ⟨start.dagStart 1 [] [], Reached.start.run [.call (.dagStart 1 [] [])] rfl, rfl, rfl, ?_⟩
  intro hhonoured
  obtain ⟨iv, fv, ⟨s₁, s₂, inst, ret, -, -, -, -, -, -, hinst⟩, -⟩ := hhonoured
  cases hinst

end Session

end AceMesh
