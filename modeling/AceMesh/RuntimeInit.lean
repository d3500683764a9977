import AceMesh.CoreList

/-!
# The initialisation

`aceMesh_runtime_init`, with and without a number of threads, up to the creation of the threads;
`CPUBIND` is on, there are no thread groups and no extra thread. A number that the environment
does not set is -1. The assertions compare it as an unsigned number, and only the process of rank
0 replaces it, behind the place where the default cores are listed.

So `aceMesh_runtime_init()` needs `ACEMESH_NUM_THREADS`, and a list of cores needs it as well,
even where the program says how many threads there are (`runtime_init_iff`).
-/

namespace AceMesh

namespace RuntimeInit

open CoreScan

/-! ## The code -/

def maxThreads : Nat := 512

def noAffinity : Int := -1

/-- The variables that are read. -/
structure Env where
  numThreads : Option (List Char)
  threadGroupSize : Option (List Char)
  coreList : Option (List Char)

/-- Why no thread is created: `exit(1)`, an assertion, the loop over the list of cores, or an
index outside of an array. -/
inductive Halt
  | exited
  | assertion
  | scan (e : Stop)
  | outside
  deriving DecidableEq

/-- A variable that holds a number, or -1. -/
def readNumber : Option (List Char) → Except Halt Int
  | some text => if CInt.atoi text < 0 then .error .exited else .ok (CInt.atoi text)
  | none => .ok (-1)

/-- The loop over the list of cores, which takes no more turns than the text has characters. -/
def readCores (value : List Char) : Except Halt (List Int) :=
  match readCoreList value.length value with
  | some (.ok s) => .ok s.coreIds
  | some (.error e) => .error (.scan e)
  | none => .error (.scan .outside)

structure Settings where
  totalThreads : Int
  groupSize : Int
  vecCoreIds : List Int
  deriving DecidableEq

/-- `get_env_settings`. -/
def getEnvSettings (env : Env) : Except Halt Settings := do
  let totalThreads ← readNumber env.numThreads
  let groupSize ← readNumber env.threadGroupSize
  match env.coreList with
  | none => return { totalThreads, groupSize, vecCoreIds := [] }
  | some value =>
    let vecCoreIds ← readCores value
    if maxThreads < vecCoreIds.length then throw .exited
    else if CInt.unsigned totalThreads ≤ vecCoreIds.length then
      return { totalThreads, groupSize, vecCoreIds }
    else throw .assertion

/-- What the threads start with: `num_threads`, the `affinity_cpu_id` of the schedulers, and the
core of the main thread. -/
structure Workers where
  numThreads : Int
  affinityCpuIds : List Int
  masterCpu : Int
  deriving DecidableEq

def createWorkerThread (nThreads : Int) (p : List Int) : Except Halt Workers :=
  match p with
  | [] => .error .outside
  | cpu :: _ =>
    if 1 ≤ nThreads ∧ nThreads ≤ p.length then
      .ok { numThreads := nThreads, affinityCpuIds := p.take nThreads.toNat, masterCpu := cpu }
    else .error .outside

def threadBind (bindProcessorId : List Int) (threadNum : Int) : Except Halt Workers :=
  createWorkerThread threadNum bindProcessorId

/-- `core_ids[MAX_THREADS]={0}`, with `core_vec` copied into it. -/
def fillCoreIds (coreVec : List Int) : Except Halt (List Int) :=
  if coreVec.length ≤ maxThreads then
    .ok (coreVec ++ List.replicate (maxThreads - coreVec.length) 0)
  else .error .outside

/-- The end of both functions, from the assertion on. -/
def bindThreads (threadNum : Int) (coreVec : List Int) : Except Halt Workers :=
  if CInt.sizeT threadNum ≤ coreVec.length then do
    let coreIds ← fillCoreIds coreVec
    threadBind coreIds threadNum
  else throw .assertion

/-- The cores that are pushed where there is no list. -/
def defaultCores (threadNum : Int) : List Int :=
  (List.range threadNum.toNat).map fun i : Nat => (i : Int)

/-- `aceMesh_runtime_init(int thread_num)`, in which the rank only decides what is printed. -/
def aceMeshRuntimeInitNum (env : Env) (threadNum : Int) : Except Halt Workers := do
  let settings ← getEnvSettings env
  let coreVec :=
    if settings.vecCoreIds.length = 0 then defaultCores threadNum else settings.vecCoreIds
  bindThreads threadNum coreVec

/-- `aceMesh_runtime_init()`. -/
def aceMeshRuntimeInit (myMpiRank : Int) (env : Env) : Except Halt Workers := do
  let settings ← getEnvSettings env
  let coreVec :=
    if settings.vecCoreIds.length = 0 then defaultCores settings.totalThreads
    else settings.vecCoreIds
  let threadNum :=
    if myMpiRank = 0 then
      if settings.totalThreads = -1 then 1 else settings.totalThreads
    else settings.totalThreads
  bindThreads threadNum coreVec

/-- The core in the mask that a thread is bound with: the main thread by `create_worker_thread`,
another one by `worker_kernel_func`. -/
def Workers.boundTo (w : Workers) (i : Nat) : Option Int :=
  if i = 0 then some w.masterCpu
  else
    match w.affinityCpuIds[i]? with
    | some cpu => if cpu ≠ noAffinity then some cpu else none
    | none => none

/-! ## What is asked for -/

/-- The environment sets the number of threads to `n`, and the list of cores to `items`. -/
structure Env.Valid (env : Env) (n : Option Nat) (items : Option (List Item)) : Prop where
  numThreads : env.numThreads.map CInt.atoi = n.map fun k : Nat => (k : Int)
  inRange : ∀ k, n = some k → 1 ≤ k ∧ k ≤ maxThreads
  groupSize : ∀ text, env.threadGroupSize = some text → 0 ≤ CInt.atoi text
  coreList : env.coreList = items.map listText
  wellFormed : ∀ l, items = some l → l ≠ [] ∧ ∀ x ∈ l, x.Valid
  fits : ∀ l, items = some l → (l.flatMap Item.ids).length ≤ maxThreads

/-- A list has at least `t` cores. -/
def Enough (items : Option (List Item)) (t : Nat) : Prop :=
  ∀ l, items = some l → t ≤ (l.flatMap Item.ids).length

/-- `t` threads are created, each bound to the core at its place in the list, or to the core of
its number. -/
def Starts (t : Nat) (items : Option (List Item)) (r : Except Halt Workers) : Prop :=
  ∃ w, r = .ok w ∧ w.numThreads = t ∧ w.affinityCpuIds.length = t ∧
    ∀ i < t, w.boundTo i =
      match items with
      | some l => (l.flatMap Item.ids)[i]?
      | none => some (i : Int)

/-! ## Creating the threads -/

theorem fillCoreIds_get {coreVec : List Int} {i : Nat} (hi : i < coreVec.length) (k : Nat) :
    (coreVec ++ List.replicate k 0)[i]? = coreVec[i]? :=
  List.getElem?_append_left hi

/-- The threads get the first cores. -/
theorem bindThreads_ok {t : Nat} {coreVec : List Int} (hpos : 1 ≤ t) (hle : t ≤ coreVec.length)
    (hmax : coreVec.length ≤ maxThreads) (hcores : ∀ cpu ∈ coreVec, 0 ≤ cpu) :
    ∃ w, bindThreads t coreVec = .ok w ∧ w.numThreads = t ∧ w.affinityCpuIds.length = t ∧
      ∀ i < t, w.boundTo i = coreVec[i]? := by
  have hsmall : t ≤ 512 := hle.trans hmax
  have hsize : CInt.sizeT t = t := by
    rw [CInt.sizeT_of_lt (by omega) (by omega), Int.toNat_natCast]
  obtain ⟨cpu, rest, rfl⟩ : ∃ cpu rest, coreVec = cpu :: rest := by
    cases coreVec with
    | nil => exact absurd (hpos.trans hle) (Nat.not_succ_le_zero 0)
    | cons cpu rest => exact ⟨cpu, rest, rfl⟩
  let p : List Int := (cpu :: rest) ++ List.replicate (maxThreads - (cpu :: rest).length) 0
  have hlength : (t : Int) ≤ p.length := by
    have happ : p.length = (cpu :: rest).length + (maxThreads - (cpu :: rest).length) := by
      rw [List.length_append, List.length_replicate]
    omega
  have hbind : bindThreads t (cpu :: rest) =
      .ok { numThreads := t, affinityCpuIds := p.take t, masterCpu := cpu } := by
    unfold bindThreads fillCoreIds
    rw [hsize, if_pos hle, if_pos hmax]
    exact if_pos ⟨by omega, hlength⟩
  refine ⟨_, hbind, rfl, ?_, fun i hi => ?_⟩
  · rw [List.length_take]
    omega
  · have hget : (p.take t)[i]? = (cpu :: rest)[i]? := by
      rw [List.getElem?_take_of_lt hi]
      exact fillCoreIds_get (hi.trans_le hle) _
    by_cases hzero : i = 0
    · subst hzero
      rfl
    · have hcpu := List.getElem?_eq_getElem (hi.trans_le hle)
      have hneg : (cpu :: rest)[i] ≠ noAffinity := by
        have hge := hcores _ (List.getElem_mem (hi.trans_le hle))
        unfold noAffinity
        omega
      unfold Workers.boundTo
      rw [if_neg hzero]
      dsimp only
      rw [hget, hcpu]
      exact if_pos hneg

/-- The assertion takes -1 for a large number. -/
theorem bindThreads_unset {coreVec : List Int} (hmax : coreVec.length ≤ maxThreads) :
    bindThreads (-1) coreVec = .error .assertion := by
  apply if_neg
  have hsize : CInt.sizeT (-1) = 18446744073709551615 := by decide
  unfold maxThreads at hmax
  omega

theorem defaultCores_length (t : Nat) : (defaultCores t).length = t := by
  rw [defaultCores, List.length_map, List.length_range, Int.toNat_natCast]

theorem defaultCores_get {t i : Nat} (hi : i < t) : (defaultCores t)[i]? = some (i : Int) := by
  rw [defaultCores, List.getElem?_map, Int.toNat_natCast, List.getElem?_range hi, Option.map_some]

theorem defaultCores_nonneg (t : Nat) : ∀ cpu ∈ defaultCores t, 0 ≤ cpu := by
  intro cpu hcpu
  obtain ⟨i, -, rfl⟩ := List.mem_map.mp hcpu
  exact Int.natCast_nonneg i

/-! ## The list of cores -/

theorem ids_nonneg (x : Item) : ∀ cpu ∈ x.ids, 0 ≤ cpu := by
  intro cpu hcpu
  cases x with
  | number n =>
      rw [List.mem_singleton.mp hcpu]
      exact Int.natCast_nonneg _
  | range a b =>
      obtain ⟨k, -, rfl⟩ := List.mem_map.mp hcpu
      omega

theorem ids_length_pos {x : Item} (hx : x.Valid) : 0 < x.ids.length := by
  cases x with
  | number n => exact Nat.one_pos
  | range a b =>
      have hlt : a.value < b.value := hx.1
      change 0 < (upTo a.value b.value).length
      rw [upTo_cons (by omega)]
      exact Nat.succ_pos _

theorem items_length_pos {l : List Item} (hne : l ≠ []) (hvalid : ∀ x ∈ l, x.Valid) :
    0 < (l.flatMap Item.ids).length := by
  obtain ⟨x, l, rfl⟩ := List.exists_cons_of_ne_nil hne
  have hfirst := ids_length_pos (hvalid x List.mem_cons_self)
  rw [List.flatMap_cons, List.length_append]
  omega

/-- The loop does not run out of turns. -/
theorem readCoreList_ne_none (value : List Char) : readCoreList value.length value ≠ none := by
  unfold readCoreList
  split
  · rename_i hbracket
    cases value with
    | nil => cases hbracket
    | cons c p =>
        cases hbracket
        obtain ⟨r, hloop, -⟩ := loop_settled
          (s := { cursor := '[' :: p, coreIds := [], isRange := false, first := 0 }) (by decide)
          rfl (Nat.lt_succ_self p.length)
        rw [List.length_cons, hloop]
        exact Option.some_ne_none r
  · exact Option.some_ne_none _

theorem readCores_listText {l : List Item} (hne : l ≠ []) (hvalid : ∀ x ∈ l, x.Valid) :
    ((∀ x ∈ l, x.BelowMax) → readCores (listText l) = .ok (l.flatMap Item.ids)) ∧
    ((∃ x ∈ l, ¬x.BelowMax) → readCores (listText l) = .error (.scan .overflow)) := by
  obtain ⟨hgood, hbad⟩ := readCoreList_items hne hvalid
  unfold readCores
  constructor
  · intro hbelow
    obtain ⟨s, hloop, -, hids⟩ := hgood hbelow
    rw [hloop]
    exact congrArg Except.ok hids
  · intro hmax
    rw [hbad hmax]

/-! ## The environment -/

/-- What a number is read as. -/
def numberOf (n : Option Nat) : Int := (n.map fun k : Nat => (k : Int)).getD (-1)

section Valid

variable {env : Env} {n : Option Nat} {items : Option (List Item)}

theorem Env.Valid.readNumber (h : env.Valid n items) :
    readNumber env.numThreads = .ok (numberOf n) := by
  have hatoi := h.numThreads
  cases henv : env.numThreads with
  | none =>
      rw [henv] at hatoi
      cases n with
      | none => rfl
      | some k => cases hatoi
  | some text =>
      rw [henv] at hatoi
      cases n with
      | none => cases hatoi
      | some k =>
          have hvalue : CInt.atoi text = k := Option.some.inj hatoi
          change (if CInt.atoi text < 0 then .error Halt.exited else .ok (CInt.atoi text)) =
            Except.ok (k : Int)
          rw [hvalue]
          exact if_neg (by omega)

theorem Env.Valid.readGroupSize (h : env.Valid n items) :
    ∃ g, RuntimeInit.readNumber env.threadGroupSize = .ok g := by
  cases henv : env.threadGroupSize with
  | none => exact ⟨-1, rfl⟩
  | some text => exact ⟨CInt.atoi text, if_neg (by have := h.groupSize text henv; omega)⟩

/-- Without a list of cores the numbers are what is read. -/
theorem Env.Valid.settings_none (h : env.Valid n none) :
    ∃ g, getEnvSettings env = .ok ⟨numberOf n, g, []⟩ := by
  obtain ⟨g, hg⟩ := h.readGroupSize
  refine ⟨g, ?_⟩
  unfold getEnvSettings
  rw [h.readNumber, hg, h.coreList]
  rfl

/-- A number that is not set is above the length of every list. -/
theorem Env.Valid.unsigned_le (h : env.Valid n items) {len : Nat} (hlen : len ≤ maxThreads) :
    CInt.unsigned (numberOf n) ≤ len ↔ ∃ k, n = some k ∧ k ≤ len := by
  unfold maxThreads at hlen
  cases n with
  | none =>
      have hunset : CInt.unsigned (numberOf none) = 4294967295 := by decide
      rw [hunset]
      refine iff_of_false (by omega) ?_
      rintro ⟨k, hk, -⟩
      cases hk
  | some k =>
      have hk : k ≤ 512 := (h.inRange k rfl).2
      have hset : CInt.unsigned (numberOf (some k)) = k := by
        change CInt.unsigned (k : Int) = k
        rw [CInt.unsigned_of_lt (by omega) (by omega), Int.toNat_natCast]
      rw [hset]
      constructor
      · exact fun hle => ⟨k, rfl, hle⟩
      · rintro ⟨k', hk', hle⟩
        cases hk'
        exact hle

/-- The assertion of `get_env_settings` compares the list with the number that the
environment sets. -/
theorem Env.Valid.settings_some {l : List Item} (h : env.Valid n (some l)) :
    ((∀ x ∈ l, x.BelowMax) ∧ (∃ k, n = some k ∧ k ≤ (l.flatMap Item.ids).length) ∧
      ∃ g, getEnvSettings env = .ok ⟨numberOf n, g, l.flatMap Item.ids⟩) ∨
    (¬((∀ x ∈ l, x.BelowMax) ∧ ∃ k, n = some k ∧ k ≤ (l.flatMap Item.ids).length) ∧
      ∃ e, getEnvSettings env = .error e) := by
  obtain ⟨hne, hvalid⟩ := h.wellFormed l rfl
  obtain ⟨hgood, hbad⟩ := readCores_listText hne hvalid
  obtain ⟨g, hg⟩ := h.readGroupSize
  have hfits := h.fits l rfl
  have hget : getEnvSettings env = (readCores (listText l)).bind fun vecCoreIds =>
      if maxThreads < vecCoreIds.length then .error .exited
      else if CInt.unsigned (numberOf n) ≤ vecCoreIds.length then
        .ok ⟨numberOf n, g, vecCoreIds⟩
      else .error .assertion := by
    unfold getEnvSettings
    rw [h.readNumber, hg, h.coreList]
    rfl
  rw [hget]
  by_cases hbelow : ∀ x ∈ l, x.BelowMax
  · have hread : (readCores (listText l)).bind (fun vecCoreIds =>
        if maxThreads < vecCoreIds.length then .error .exited
        else if CInt.unsigned (numberOf n) ≤ vecCoreIds.length then
          .ok ⟨numberOf n, g, vecCoreIds⟩
        else .error .assertion) =
        if CInt.unsigned (numberOf n) ≤ (l.flatMap Item.ids).length then
          .ok (⟨numberOf n, g, l.flatMap Item.ids⟩ : Settings)
        else .error .assertion := by
      rw [hgood hbelow]
      exact if_neg (Nat.not_lt.mpr hfits)
    rw [hread]
    by_cases hle : CInt.unsigned (numberOf n) ≤ (l.flatMap Item.ids).length
    · exact Or.inl ⟨hbelow, (h.unsigned_le hfits).mp hle, g, if_pos hle⟩
    · exact Or.inr ⟨fun hboth => hle ((h.unsigned_le hfits).mpr hboth.2), .assertion, if_neg hle⟩
  · refine Or.inr ⟨fun hboth => hbelow hboth.1, .scan .overflow, ?_⟩
    push Not at hbelow
    rw [hbad hbelow]
    rfl

/-- From the settings to the threads, where the cores are enough. -/
theorem Env.Valid.starts {t : Nat} (h : env.Valid n items) (hpos : 1 ≤ t) (hmax : t ≤ maxThreads)
    (henough : Enough items t) {coreVec : List Int}
    (hnone : items = none → coreVec = defaultCores t)
    (hsome : ∀ l, items = some l → coreVec = l.flatMap Item.ids) :
    Starts t items (bindThreads t coreVec) := by
  cases items with
  | none =>
      have hcores := hnone rfl
      subst hcores
      obtain ⟨w, hw, hnum, hlen, hbound⟩ := bindThreads_ok hpos (defaultCores_length t).ge
        ((defaultCores_length t).trans_le hmax) (defaultCores_nonneg t)
      exact ⟨w, hw, hnum, hlen, fun i hi => (hbound i hi).trans (defaultCores_get hi)⟩
  | some l =>
      have hcores := hsome l rfl
      subst hcores
      have hnonneg : ∀ cpu ∈ l.flatMap Item.ids, 0 ≤ cpu := by
        intro cpu hcpu
        obtain ⟨x, -, hx⟩ := List.mem_flatMap.mp hcpu
        exact ids_nonneg x cpu hx
      obtain ⟨w, hw, hnum, hlen, hbound⟩ :=
        bindThreads_ok hpos (henough l rfl) (h.fits l rfl) hnonneg
      exact ⟨w, hw, hnum, hlen, hbound⟩

theorem not_starts {t : Nat} {e : Halt} : ¬ Starts t items (.error e) := by
  rintro ⟨w, hw, -⟩
  cases hw

/-- `aceMesh_runtime_init(t)`. -/
theorem Env.Valid.initNum_iff (h : env.Valid n items) {t : Nat} (hpos : 1 ≤ t)
    (hmax : t ≤ maxThreads) (henough : Enough items t) :
    Starts t items (aceMeshRuntimeInitNum env t) ↔ ∀ l, items = some l →
      (∀ x ∈ l, x.BelowMax) ∧ ∃ k, n = some k ∧ k ≤ (l.flatMap Item.ids).length := by
  cases items with
  | none =>
      obtain ⟨g, hg⟩ := h.settings_none
      refine iff_of_true ?_ (fun l hl => by cases hl)
      unfold aceMeshRuntimeInitNum
      rw [hg]
      exact h.starts hpos hmax henough (fun _ => rfl) (fun l hl => by cases hl)
  | some l =>
      obtain ⟨hne, hvalid⟩ := h.wellFormed l rfl
      rcases h.settings_some with ⟨hbelow, hset, g, hg⟩ | ⟨hnot, e, he⟩
      · refine iff_of_true ?_ (fun l' hl' => by cases hl'; exact ⟨hbelow, hset⟩)
        unfold aceMeshRuntimeInitNum
        rw [hg]
        refine h.starts hpos hmax henough (fun hl => by cases hl) fun l' hl' => ?_
        cases hl'
        exact if_neg (items_length_pos hne hvalid).ne'
      · refine iff_of_false ?_ (fun hall => hnot (hall l rfl))
        unfold aceMeshRuntimeInitNum
        rw [he]
        exact not_starts

/-- A number that is set is the number of threads, on every rank. -/
theorem init_of_settings {k : Nat} {g : Int} {vecCoreIds : List Int} (myMpiRank : Int)
    (hsettings : getEnvSettings env = .ok ⟨(k : Int), g, vecCoreIds⟩) :
    aceMeshRuntimeInit myMpiRank env =
      bindThreads k (if vecCoreIds.length = 0 then defaultCores k else vecCoreIds) := by
  have hset : (k : Int) ≠ -1 := by omega
  have hnum : (if myMpiRank = 0 then if (k : Int) = -1 then 1 else (k : Int) else k) = k := by
    rw [if_neg hset, ite_self]
  unfold aceMeshRuntimeInit
  rw [hsettings]
  exact congrArg (bindThreads · _) hnum

/-- A number that is not set is replaced too late, or not at all. -/
theorem init_unset {g : Int} (myMpiRank : Int)
    (hsettings : getEnvSettings env = .ok ⟨-1, g, []⟩) :
    aceMeshRuntimeInit myMpiRank env = .error .assertion := by
  unfold aceMeshRuntimeInit
  rw [hsettings]
  change bindThreads (if myMpiRank = 0 then 1 else -1) [] = .error .assertion
  split
  · exact if_neg (by decide)
  · exact bindThreads_unset (Nat.zero_le _)

/-- `aceMesh_runtime_init()`. -/
theorem Env.Valid.init_iff (h : env.Valid n items) (myMpiRank : Int)
    (henough : Enough items (n.getD 1)) :
    Starts (n.getD 1) items (aceMeshRuntimeInit myMpiRank env) ↔
      n ≠ none ∧ ∀ l, items = some l → ∀ x ∈ l, x.BelowMax := by
  cases items with
  | none =>
      obtain ⟨g, hg⟩ := h.settings_none
      cases n with
      | none =>
          rw [init_unset myMpiRank hg]
          exact iff_of_false not_starts (fun hset => hset.1 rfl)
      | some k =>
          obtain ⟨hpos, hmax⟩ := h.inRange k rfl
          refine iff_of_true ?_ ⟨Option.some_ne_none k, fun l hl => by cases hl⟩
          rw [init_of_settings myMpiRank hg]
          exact h.starts hpos hmax henough (fun _ => rfl) (fun l hl => by cases hl)
  | some l =>
      obtain ⟨hne, hvalid⟩ := h.wellFormed l rfl
      rcases h.settings_some with ⟨hbelow, ⟨k, rfl, -⟩, g, hg⟩ | ⟨hnot, e, he⟩
      · obtain ⟨hpos, hmax⟩ := h.inRange k rfl
        refine iff_of_true ?_ ⟨Option.some_ne_none k, fun l' hl' => by cases hl'; exact hbelow⟩
        rw [init_of_settings myMpiRank hg, if_neg (items_length_pos hne hvalid).ne']
        refine h.starts hpos hmax henough (fun hl => by cases hl) fun l' hl' => ?_
        cases hl'
        rfl
      · refine iff_of_false ?_ ?_
        · unfold aceMeshRuntimeInit
          rw [he]
          exact not_starts
        · rintro ⟨hset, hbelow⟩
          obtain ⟨k, rfl⟩ := Option.ne_none_iff_exists'.mp hset
          exact hnot ⟨hbelow l rfl, k, rfl, henough l rfl⟩

end Valid

/-- In a valid environment with as many cores as threads: `aceMesh_runtime_init()` starts the
threads just if their number is set, and `aceMesh_runtime_init(t)` just if there is no list of
cores or the number that is set, which need not be `t`, is not above its length; and no range of
the list goes up to the largest `int`. The rank does not matter. -/
theorem runtime_init_iff {env : Env} {n : Option Nat} {items : Option (List Item)}
    (h : env.Valid n items) (myMpiRank : Int) :
    (Enough items (n.getD 1) →
      (Starts (n.getD 1) items (aceMeshRuntimeInit myMpiRank env) ↔
        n ≠ none ∧ ∀ l, items = some l → ∀ x ∈ l, x.BelowMax)) ∧
    ∀ t, 1 ≤ t → t ≤ maxThreads → Enough items t →
      (Starts t items (aceMeshRuntimeInitNum env t) ↔ ∀ l, items = some l →
        (∀ x ∈ l, x.BelowMax) ∧ ∃ k, n = some k ∧ k ≤ (l.flatMap Item.ids).length) :=
  ⟨h.init_iff myMpiRank, fun _ hpos hmax henough => h.initNum_iff hpos hmax henough⟩

/-! ## Two cores -/

/-- `[1-2]`. -/
def pair : List Item := [.range (.ofDigits ['1'] rfl rfl) (.ofDigits ['2'] rfl rfl)]

/-- The environment with this list, and with the number of threads in `numThreads`. -/
def pairEnv (numThreads : Option (List Char)) : Env :=
  { numThreads, threadGroupSize := none, coreList := some ['[', '1', '-', '2', ']'] }

theorem pair_ids : pair.flatMap Item.ids = [1, 2] := by decide

theorem valid_pairEnv {numThreads : Option (List Char)} {n : Option Nat}
    (hnum : numThreads.map CInt.atoi = n.map fun k : Nat => (k : Int))
    (hrange : ∀ k, n = some k → 1 ≤ k ∧ k ≤ maxThreads) :
    (pairEnv numThreads).Valid n (some pair) where
  numThreads := hnum
  inRange := hrange
  groupSize := fun text htext => by cases htext
  coreList := rfl
  wellFormed := by
    intro l hl
    cases hl
    refine ⟨List.cons_ne_nil _ _, ?_⟩
    simp [pair, Item.Valid, Numeral.value, Numeral.ofDigits, CInt.decimal]
  fits := by
    intro l hl
    cases hl
    rw [pair_ids]
    decide

theorem enough_pair : Enough (some pair) 2 := by
  intro l hl
  cases hl
  rw [pair_ids]
  rfl

/-- Two threads on two cores. -/
theorem runtime_init_iff_pair :
    Starts 2 (some pair) (aceMeshRuntimeInit (-1) (pairEnv (some ['2']))) ∧
      Starts 2 (some pair) (aceMeshRuntimeInitNum (pairEnv (some ['2'])) 2) := by
  have hbelow : ∀ l, some pair = some l → ∀ x ∈ l, x.BelowMax := by
    intro l hl
    cases hl
    simp [pair, Item.BelowMax, Numeral.value, Numeral.ofDigits, CInt.decimal]
  have hvalid : (pairEnv (some ['2'])).Valid (some 2) (some pair) :=
    valid_pairEnv (by decide) (fun k hk => by cases hk; decide)
  obtain ⟨hinit, hinitNum⟩ := runtime_init_iff hvalid (-1)
  refine ⟨(hinit enough_pair).mpr ⟨Option.some_ne_none 2, hbelow⟩,
    (hinitNum 2 (by decide) (by decide) enough_pair).mpr fun l hl => ⟨hbelow l hl, 2, rfl, ?_⟩⟩
  exact enough_pair l hl

/-- Valid environments in which an assertion fails: nothing is set, on rank 0 and elsewhere; two
cores for two threads, while the number is not set or is four. -/
theorem runtime_init_assertions :
    (Env.Valid ⟨none, none, none⟩ none none ∧ Enough none 1 ∧
      aceMeshRuntimeInit 0 ⟨none, none, none⟩ = .error .assertion ∧
      aceMeshRuntimeInit (-1) ⟨none, none, none⟩ = .error .assertion) ∧
    ((pairEnv none).Valid none (some pair) ∧ (pairEnv (some ['4'])).Valid (some 4) (some pair) ∧
      Enough (some pair) 2 ∧ aceMeshRuntimeInitNum (pairEnv none) 2 = .error .assertion ∧
      aceMeshRuntimeInitNum (pairEnv (some ['4'])) 2 = .error .assertion) := by
  have hnothing : Env.Valid ⟨none, none, none⟩ none none :=
    ⟨rfl, fun k hk => (by cases hk), fun text htext => (by cases htext), rfl,
      fun l hl => (by cases hl), fun l hl => (by cases hl)⟩
  have hunset : (pairEnv none).Valid none (some pair) :=
    valid_pairEnv rfl (fun k hk => by cases hk)
  have hfour : (pairEnv (some ['4'])).Valid (some 4) (some pair) :=
    valid_pairEnv (by decide) (fun k hk => by cases hk; decide)
  refine ⟨⟨hnothing, fun l hl => (by cases hl), by decide, by decide⟩,
    hunset, hfour, enough_pair, by decide, by decide⟩

end RuntimeInit

end AceMesh
