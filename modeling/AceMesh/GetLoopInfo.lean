import AceMesh.GraphCheck
import AceMesh.Lib.PyText
import Mathlib.Data.Finset.Sort

/-!
# The reader of `loop_dependence.info`

`tools/get_loop_info.py`, in Python 2. A line with a `:` is an entry of the table of loops, `#`
ends a graph, every other line is a task with its successors. The dictionaries are functions; an
exception ends the program, here with `none`. What `print_loop_info` writes for gnuplot is left
out, and so is `print_relationship`, which raises a `TypeError` for every loop that has a task.
-/

open PyText

namespace AceMesh.GetLoopInfo

structure Graph where
  loopNodeDict : Int → Option (List Char)
  edgeDict : Int → Option (Int → Option (List (Int × Int)))
  loopDep : Int → Option (List Int)

namespace Graph

/-- The graph of `__init__` and of `reset`. -/
def empty : Graph := ⟨fun _ => none, fun _ => none, fun _ => none⟩

/-- The entry of a loop. -/
def insertNode (g : Graph) (id : Int) (name : List Char) : Graph where
  loopNodeDict := Function.update g.loopNodeDict id (some name)
  edgeDict := Function.update g.edgeDict id (some fun _ => none)
  loopDep := Function.update g.loopDep id (some [])

def addNode (g : Graph) (nodeStr : List Char) : Option Graph :=
  let mylist := nodeStr.splitOn ':'
  (mylist[0]?.bind fun s => int (strip s)).bind fun id =>
    mylist[1]?.map fun s => g.insertNode id (strip s)

/-- The loop of `add_edge`, which takes four fields at a time. -/
def addSuccessors (fromLoopId : Int) : List (List Char) → Graph → List (Int × Int) →
    Option (Graph × List (Int × Int))
  | [], g, mylist => some (g, mylist)
  | _ :: s :: _ :: s' :: rest, g, mylist =>
    (int s).bind fun toLoopId => (int s').bind fun toTaskId =>
      (g.loopDep fromLoopId).bind fun dep =>
        addSuccessors fromLoopId rest
          { g with loopDep := Function.update g.loopDep fromLoopId (some (dep ++ [toLoopId])) }
          (mylist ++ [(toLoopId, toTaskId)])
  | _, _, _ => none

def addEdge (g : Graph) (edgeStr : List Char) : Option Graph :=
  let tmplist := edgeStr.splitOn ','
  if tmplist.length < 4 then some g
  else
    (tmplist[1]?.bind int).bind fun fromLoopId => (tmplist[3]?.bind int).bind fun fromTaskId =>
      (addSuccessors fromLoopId (tmplist.drop 4) g []).bind fun (g, mylist) =>
        (g.edgeDict fromLoopId).map fun e =>
          { g with
            edgeDict := Function.update g.edgeDict fromLoopId
              (some (Function.update e fromTaskId (some mylist))) }

/-- `sorted(set(self.loop_dep[id]))`, which `print_loop_info` prints for a loop. -/
def relationships (g : Graph) (id : Int) : Option (List Int) :=
  (g.loopDep id).map fun loops => loops.toFinset.sort

/-- `judge_node`. -/
def judgeNode (inStr : List Char) : Bool := 1 < (inStr.splitOn ':').length

def readLine (g : Graph) (line : List Char) : Option Graph :=
  if judgeNode line then g.addNode line else g.addEdge line

end Graph

/-- The loop over the lines. It returns the graphs that `print_loop_info` has shown, and the one
that is left. At a `#` the user is asked whether to go on. -/
def readLines : List (List Char) → List String → Graph → List Graph → Option (List Graph × Graph)
  | [], _, g, shown => some (shown, g)
  | line :: rest, choices, g, shown =>
    if strip line = ['#'] then
      match choices with
      | [] => none
      | choice :: choices =>
        if choice = "y" then readLines rest choices Graph.empty (shown ++ [g])
        else some (shown ++ [g], g)
    else (g.readLine (strip line)).bind fun g => readLines rest choices g shown

def main (text : String) (choices : List String) : Option (List Graph × Graph) :=
  readLines (lines text.toList) choices Graph.empty []

/-! ## One line -/

/-- The characters of a number. -/
abbrev num (n : Nat) : List Char := Nat.toDigits 10 n

theorem toList_toString_natCast (n : Nat) : (toString (n : Int)).toList = num n := by
  show (Nat.repr n).toList = _
  exact Nat.toList_repr

theorem judgeNode_of_not_mem {line : List Char} (h : ':' ∉ line) :
    Graph.judgeNode line = false := by
  unfold Graph.judgeNode
  rw [List.splitOn_eq_singleton h]
  rfl

/-- The name that is read for a loop: it ends at the first colon. -/
def nameOf (loopName : List Char) : List Char := strip (loopName.takeWhile (· != ':'))

theorem splitOn_colon (name : List Char) : ∃ rest, name.splitOn ':' =
    name.takeWhile (· != ':') :: rest := by
  by_cases hmem : ':' ∈ name
  · obtain ⟨xs, ys, rfl, hxs⟩ := List.eq_append_cons_of_mem hmem
    refine ⟨ys.splitOn ':', ?_⟩
    rw [List.splitOn_append_cons_self_of_not_mem hxs, List.takeWhile_append_of_pos]
    · simp
    · intro c hc
      simpa using fun heq : c = ':' => hxs (heq ▸ hc)
  · refine ⟨[], ?_⟩
    rw [List.splitOn_eq_singleton hmem, List.takeWhile_eq_self_iff.mpr]
    intro c hc
    simpa using fun heq : c = ':' => hmem (heq ▸ hc)

/-- Blanks at the end of a line do not change the name. -/
theorem nameOf_rdropWhile (name : List Char) :
    nameOf (name.rdropWhile isSpace) = nameOf name := by
  unfold nameOf
  by_cases hmem : ':' ∈ name
  · obtain ⟨xs, ys, rfl, hxs⟩ := List.eq_append_cons_of_mem hmem
    have htake : ∀ zs, (xs ++ ':' :: zs).takeWhile (· != ':') = xs := by
      intro zs
      rw [List.takeWhile_append_of_pos]
      · simp
      · intro c hc
        simpa using fun heq : c = ':' => hxs (heq ▸ hc)
    rw [rdropWhile_append_of_not_blank (by decide), htake, htake]
  · have htake : ∀ zs : List Char, ':' ∉ zs → zs.takeWhile (· != ':') = zs := by
      intro zs hzs
      rw [List.takeWhile_eq_self_iff]
      intro c hc
      simpa using fun heq : c = ':' => hzs (heq ▸ hc)
    rw [htake _ fun hbad => hmem ((List.rdropWhile_prefix _ _).subset hbad), htake _ hmem,
      strip_rdropWhile]

/-- A line that begins with a number. -/
theorem strip_num_append {n : Nat} {c : Char} (hc : isSpace c = false) (s : List Char) :
    strip (num n ++ c :: s) = num n ++ c :: s.rdropWhile isSpace := by
  have hdrop : (num n ++ c :: s).dropWhile isSpace = num n ++ c :: s := by
    cases hnum : num n with
    | nil => exact absurd hnum Nat.toDigits_ne_nil
    | cons d ds =>
        have hdigit := toDigits_isDigit n d (by rw [← num, hnum]; exact List.mem_cons_self)
        exact List.dropWhile_cons_of_neg (by simp [isSpace_of_isDigit hdigit])
  unfold strip
  rw [hdrop, rdropWhile_append_of_not_blank hc]

/-- The line of a loop. -/
theorem readLine_node (g : Graph) (n : Nat) (name : List Char) :
    g.readLine (strip (num n ++ ':' :: name)) = some (g.insertNode n (nameOf name)) := by
  obtain ⟨rest, hrest⟩ := splitOn_colon (name.rdropWhile isSpace)
  have hsplit : (strip (num n ++ ':' :: name)).splitOn ':' =
      num n :: (name.rdropWhile isSpace).takeWhile (· != ':') :: rest := by
    rw [strip_num_append (by decide),
      List.splitOn_append_cons_self_of_not_mem (not_mem_toDigits (by decide) n), hrest]
  have hjudge : Graph.judgeNode (strip (num n ++ ':' :: name)) = true := by
    unfold Graph.judgeNode
    rw [hsplit]
    simp
  unfold Graph.readLine Graph.addNode
  rw [if_pos hjudge, hsplit]
  show ((int (strip (num n))).bind fun id => some (g.insertNode id (nameOf _))) = _
  rw [strip_toDigits, int_toDigits, nameOf_rdropWhile]
  rfl

/-! ## The line of a task -/

/-- The successors of a task in the order of its line, each with whether it is a vertical one. -/
abbrev Successors : Type := List (Bool × Nat × Nat)

def loopLabel (vertical : Bool) : List Char :=
  if vertical then " v_child loop id".toList else " child loop id".toList

def taskLabel (vertical : Bool) : List Char :=
  if vertical then " v_child task id".toList else " child task id".toList

def successorText (u : Bool × Nat × Nat) : List Char :=
  ',' :: loopLabel u.1 ++ ',' :: num u.2.1 ++ ',' :: taskLabel u.1 ++ ',' :: ' ' :: num u.2.2

def edgeLine (loopId taskId : Nat) (us : Successors) : List Char :=
  "parent loop id".toList ++ ',' :: num loopId ++ ',' :: " parent task id".toList ++
    ',' :: num taskId ++ us.flatMap successorText

def successorFields (u : Bool × Nat × Nat) : List (List Char) :=
  [loopLabel u.1, num u.2.1, taskLabel u.1, ' ' :: num u.2.2]

/-- The characters of the labels. -/
def labelChars : List Char := ", v_child loop task id parent".toList

theorem mem_successorText {c : Char} {u : Bool × Nat × Nat} (h : c ∈ successorText u) :
    c.isDigit = true ∨ c ∈ labelChars := by
  have hloop : loopLabel u.1 ⊆ labelChars := by
    cases u.1 <;> decide
  have htask : taskLabel u.1 ⊆ labelChars := by
    cases u.1 <;> decide
  have hcomma : ',' ∈ labelChars := by decide
  have hblank : ' ' ∈ labelChars := by decide
  unfold successorText at h
  simp only [List.cons_append, List.mem_cons, List.mem_append] at h
  rcases h with rfl | ((h | rfl | h) | rfl | h) | rfl | rfl | h
  · exact Or.inr hcomma
  · exact Or.inr (hloop h)
  · exact Or.inr hcomma
  · exact Or.inl (toDigits_isDigit _ c h)
  · exact Or.inr hcomma
  · exact Or.inr (htask h)
  · exact Or.inr hcomma
  · exact Or.inr hblank
  · exact Or.inl (toDigits_isDigit _ c h)

theorem mem_edgeLine {c : Char} {loopId taskId : Nat} {us : Successors}
    (h : c ∈ edgeLine loopId taskId us) : c.isDigit = true ∨ c ∈ labelChars := by
  have hparent : "parent loop id".toList ⊆ labelChars := by decide
  have hparent' : " parent task id".toList ⊆ labelChars := by decide
  have hcomma : ',' ∈ labelChars := by decide
  unfold edgeLine at h
  simp only [List.mem_append, List.mem_cons, List.mem_flatMap] at h
  rcases h with (((h | rfl | h) | rfl | h) | rfl | h) | ⟨u, -, h⟩
  · exact Or.inr (hparent h)
  · exact Or.inr hcomma
  · exact Or.inl (toDigits_isDigit _ c h)
  · exact Or.inr hcomma
  · exact Or.inr (hparent' h)
  · exact Or.inr hcomma
  · exact Or.inl (toDigits_isDigit _ c h)
  · exact mem_successorText h

theorem not_mem_edgeLine {c : Char} (hdigit : c.isDigit = false) (hlabel : c ∉ labelChars)
    (loopId taskId : Nat) (us : Successors) : c ∉ edgeLine loopId taskId us := by
  intro h
  rcases mem_edgeLine h with h | h
  · rw [h] at hdigit
    cases hdigit
  · exact hlabel h

/-- A line of a task ends with a digit. -/
theorem getLast_edgeLine (loopId taskId : Nat) (us : Successors) :
    ∀ c ∈ (edgeLine loopId taskId us).getLast?, c.isDigit = true := by
  have hlast : ∀ (xs : List Char) (n : Nat), ∀ c ∈ (xs ++ num n).getLast?, c.isDigit = true := by
    intro xs n c hc
    rw [List.getLast?_append_of_ne_nil _ Nat.toDigits_ne_nil] at hc
    exact toDigits_isDigit n c (List.mem_of_mem_getLast? hc)
  unfold edgeLine
  induction us using List.reverseRecOn with
  | nil =>
      rw [List.flatMap_nil, List.append_nil, List.append_cons]
      exact hlast _ taskId
  | append_singleton us u ih =>
      have heq : ∀ xs : List Char, xs ++ (us ++ [u]).flatMap successorText =
          xs ++ us.flatMap successorText ++ (',' :: loopLabel u.1 ++ ',' :: num u.2.1 ++
            ',' :: taskLabel u.1 ++ [',', ' ']) ++ num u.2.2 := by
        intro xs
        simp [successorText]
      rw [heq]
      exact hlast _ u.2.2

theorem strip_edgeLine (loopId taskId : Nat) (us : Successors) :
    strip (edgeLine loopId taskId us) = edgeLine loopId taskId us := by
  apply strip_eq_self
  · intro c hc
    obtain rfl : 'p' = c := Option.some_inj.mp hc
    decide
  · intro c hc
    exact isSpace_of_isDigit (getLast_edgeLine loopId taskId us c hc)

/-- The fields behind the first one. -/
theorem splitOn_successorText {s : List Char} (h : ',' ∉ s) (us : Successors) :
    (s ++ us.flatMap successorText).splitOn ',' = s :: us.flatMap successorFields := by
  induction us generalizing s with
  | nil => simpa using List.splitOn_eq_singleton h
  | cons u us ih =>
      have hloop : ',' ∉ loopLabel u.1 := by
        cases u.1 <;> decide
      have htask : ',' ∉ taskLabel u.1 := by
        cases u.1 <;> decide
      have hnum : ∀ n, ',' ∉ num n := not_mem_toDigits (by decide)
      have heq : s ++ (u :: us).flatMap successorText = s ++ ',' :: (loopLabel u.1 ++ ',' ::
          (num u.2.1 ++ ',' :: (taskLabel u.1 ++ ',' ::
            ((' ' :: num u.2.2) ++ us.flatMap successorText)))) := by
        simp [successorText]
      rw [heq, List.splitOn_append_cons_self_of_not_mem h,
        List.splitOn_append_cons_self_of_not_mem hloop,
        List.splitOn_append_cons_self_of_not_mem (hnum _),
        List.splitOn_append_cons_self_of_not_mem htask, ih (by simp [hnum])]
      rfl

theorem splitOn_edgeLine (loopId taskId : Nat) (us : Successors) :
    (edgeLine loopId taskId us).splitOn ',' = "parent loop id".toList :: num loopId ::
      " parent task id".toList :: num taskId :: us.flatMap successorFields := by
  have hnum : ∀ n, ',' ∉ num n := not_mem_toDigits (by decide)
  have heq : edgeLine loopId taskId us = "parent loop id".toList ++ ',' :: (num loopId ++
      ',' :: (" parent task id".toList ++ ',' :: (num taskId ++ us.flatMap successorText))) := by
    unfold edgeLine
    rw [List.append_assoc, List.append_assoc, List.append_assoc, List.cons_append,
      List.cons_append, List.cons_append]
  rw [heq, List.splitOn_append_cons_self_of_not_mem (by decide),
    List.splitOn_append_cons_self_of_not_mem (hnum _),
    List.splitOn_append_cons_self_of_not_mem (by decide), splitOn_successorText (hnum _)]

/-- The numbers of the successors as they are read. -/
def readIds (us : Successors) : List (Int × Int) := us.map fun u => (u.2.1, u.2.2)

theorem addSuccessors_eq (fromLoopId : Int) (us : Successors) (g : Graph)
    (mylist : List (Int × Int)) {dep : List Int} (hdep : g.loopDep fromLoopId = some dep) :
    Graph.addSuccessors fromLoopId (us.flatMap successorFields) g mylist =
      some ({ g with
          loopDep := Function.update g.loopDep fromLoopId
            (some (dep ++ (readIds us).map Prod.fst)) },
        mylist ++ readIds us) := by
  induction us generalizing g mylist dep with
  | nil =>
      have hsame : Function.update g.loopDep fromLoopId (some dep) = g.loopDep :=
        Function.update_eq_self_iff.mpr hdep.symm
      simp [Graph.addSuccessors, readIds, hsame]
  | cons u us ih =>
      rw [List.flatMap_cons]
      show ((int (num u.2.1)).bind fun toLoopId => (int (' ' :: num u.2.2)).bind fun toTaskId =>
        (g.loopDep fromLoopId).bind fun dep => Graph.addSuccessors fromLoopId
          (us.flatMap successorFields)
          { g with loopDep := Function.update g.loopDep fromLoopId (some (dep ++ [toLoopId])) }
          (mylist ++ [(toLoopId, toTaskId)])) = _
      rw [int_cons_blank (by decide), int_toDigits, int_toDigits, hdep]
      show Graph.addSuccessors fromLoopId (us.flatMap successorFields)
        { g with loopDep := Function.update g.loopDep fromLoopId (some (dep ++ [(u.2.1 : Int)])) }
        (mylist ++ [((u.2.1 : Int), (u.2.2 : Int))]) = _
      rw [ih _ _ (Function.update_self fromLoopId (some (dep ++ [(u.2.1 : Int)])) g.loopDep)]
      simp [readIds]

/-- What a line adds to the loop of the task. -/
def Graph.insertEdge (g : Graph) (loopId taskId : Int) (us : List (Int × Int)) : Graph :=
  { g with
    edgeDict := Function.update g.edgeDict loopId
      ((g.edgeDict loopId).map fun e => Function.update e taskId (some us))
    loopDep := Function.update g.loopDep loopId
      ((g.loopDep loopId).map fun dep => dep ++ us.map Prod.fst) }

/-- The line of a task of a loop in the table. -/
theorem readLine_edge (g : Graph) (loopId taskId : Nat) (us : Successors)
    (hedge : (g.edgeDict loopId).isSome) (hdep : (g.loopDep loopId).isSome) :
    g.readLine (strip (edgeLine loopId taskId us)) =
      some (g.insertEdge loopId taskId (readIds us)) := by
  obtain ⟨e, he⟩ := Option.isSome_iff_exists.mp hedge
  obtain ⟨dep, hdep⟩ := Option.isSome_iff_exists.mp hdep
  have hcolon : ':' ∉ edgeLine loopId taskId us :=
    not_mem_edgeLine (by decide) (by decide) loopId taskId us
  unfold Graph.readLine Graph.addEdge
  rw [strip_edgeLine, judgeNode_of_not_mem hcolon, if_neg Bool.false_ne_true, splitOn_edgeLine]
  rw [if_neg (by simp)]
  show ((int (num loopId)).bind fun fromLoopId => (int (num taskId)).bind fun fromTaskId =>
    (Graph.addSuccessors fromLoopId (us.flatMap successorFields) g []).bind _) = _
  rw [int_toDigits, int_toDigits]
  show ((Graph.addSuccessors loopId (us.flatMap successorFields) g []).bind _) = _
  rw [addSuccessors_eq _ us g [] hdep]
  show ((g.edgeDict loopId).map _) = _
  unfold Graph.insertEdge
  rw [he, hdep]
  rfl

end AceMesh.GetLoopInfo
