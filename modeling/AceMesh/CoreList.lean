import AceMesh.Lib.CInt

/-!
# The list of cores

The loop of `get_env_settings` that reads `ACEMESH_CORE_LIST`, such as `[0-3,8]`. The end of a
list of characters stands for the `NUL`. The loop reads a number behind each bracket, comma or
minus, and then goes on to the next of these; the number behind a minus completes the range that
the number before it has begun.

On a list with brackets it does what one expects, unless a range goes up to the largest `int`
(`core_list_iff`). On any other text the next separator, which neither loop is careful about, may
lie behind the end (`core_list_stops_iff`).
-/

namespace AceMesh

/-- Why the loop ends without a result: the program exits, the cursor has left the string, or an
`int` overflows. -/
inductive Stop
  | rejected
  | outside
  | overflow
  deriving DecidableEq

/-- The cursor, `vec_core_ids`, and `is_range` with `first`. -/
structure CoreScan where
  cursor : List Char
  coreIds : List Int
  isRange : Bool
  first : Int
  deriving DecidableEq

namespace CoreScan

def intMax : Int := 2 ^ 31 - 1

/-- `lo`, …, `hi`. -/
def upTo (lo hi : Int) : List Int := (List.range (hi + 1 - lo).toNat).map fun k : Nat => lo + k

/-- What a number is taken for. The loop that completes a range counts beyond `last`. -/
def addNumber (s : CoreScan) (i : Int) : Except Stop CoreScan :=
  if s.isRange then
    if s.first < i then
      if i = intMax then .error .overflow
      else .ok { s with coreIds := s.coreIds ++ upTo (s.first + 1) i, isRange := false }
    else .error .rejected
  else .ok { s with coreIds := s.coreIds ++ [i] }

/-- The inner loop: on to a comma, a closing bracket or a minus. -/
def scan : List Char → Option (List Char)
  | [] => none
  | c :: p => if c = ',' ∨ c = ']' ∨ c = '-' then some (c :: p) else scan p

/-- A turn of the outer loop. -/
def turn (s : CoreScan) : Except Stop CoreScan :=
  match s.cursor with
  | [] => .error .outside
  | _ :: p =>
    match s.addNumber (CInt.atoi p) with
    | .error e => .error e
    | .ok s =>
      match scan p with
      | none => .error .outside
      | some q =>
        .ok (if q.head? = some '-' then
            { s with cursor := q, isRange := true, first := CInt.atoi p }
          else { s with cursor := q })

/-- The outer loop, for `fuel` turns at most. -/
def loop : Nat → CoreScan → Option (Except Stop CoreScan)
  | fuel, s =>
    if s.cursor.head? = some ']' then some (.ok s)
    else
      match fuel with
      | 0 => none
      | fuel + 1 =>
        match s.turn with
        | .error e => some (.error e)
        | .ok s => loop fuel s

/-- `get_env_settings`, from the test of the first character to the end of the loop. -/
def readCoreList (fuel : Nat) (value : List Char) : Option (Except Stop CoreScan) :=
  if value.head? = some '[' then
    loop fuel { cursor := value, coreIds := [], isRange := false, first := 0 }
  else some (.error .rejected)

/-! ## The loops -/

def Separator (c : Char) : Prop := c = ',' ∨ c = ']' ∨ c = '-'

theorem not_isDigit_of_separator {c : Char} (h : Separator c) : c.isDigit = false := by
  obtain rfl | rfl | rfl := h <;> decide

theorem scan_append {l : List Char} (hl : ∀ c ∈ l, c.isDigit = true) {c : Char}
    (hc : Separator c) (p : List Char) : scan (l ++ c :: p) = some (c :: p) := by
  induction l with
  | nil => exact if_pos hc
  | cons d l ih =>
      have hd : ¬Separator d := by
        intro hsep
        have hdigit := hl d List.mem_cons_self
        rw [not_isDigit_of_separator hsep] at hdigit
        cases hdigit
      refine (if_neg hd).trans ?_
      exact ih fun c hc => hl c (List.mem_cons_of_mem d hc)

variable {s s' : CoreScan} {fuel : Nat}

theorem addNumber_single (h : s.isRange = false) (i : Int) :
    s.addNumber i = .ok { s with coreIds := s.coreIds ++ [i] } := by
  unfold addNumber
  rw [h]
  rfl

theorem addNumber_rejected (h : s.isRange = true) {i : Int} (hle : i ≤ s.first) :
    s.addNumber i = .error .rejected := by
  unfold addNumber
  rw [if_pos h, if_neg (Int.not_lt.mpr hle)]

theorem addNumber_overflow (h : s.isRange = true) (hlt : s.first < intMax) :
    s.addNumber intMax = .error .overflow := by
  unfold addNumber
  rw [if_pos h, if_pos hlt, if_pos rfl]

theorem addNumber_range (h : s.isRange = true) {i : Int} (hlt : s.first < i) (hne : i ≠ intMax) :
    s.addNumber i =
      .ok { s with coreIds := s.coreIds ++ upTo (s.first + 1) i, isRange := false } := by
  unfold addNumber
  rw [if_pos h, if_pos hlt, if_neg hne]

theorem turn_none {c : Char} {p : List Char} (hcursor : s.cursor = c :: p)
    (hadd : s.addNumber (CInt.atoi p) = .ok s') (hscan : scan p = none) :
    s.turn = .error .outside := by
  unfold turn
  rw [hcursor]
  dsimp only
  rw [hadd]
  dsimp only
  rw [hscan]

theorem turn_some {c : Char} {p q : List Char} (hcursor : s.cursor = c :: p)
    (hadd : s.addNumber (CInt.atoi p) = .ok s') (hscan : scan p = some q) :
    s.turn = .ok (if q.head? = some '-' then
        { s' with cursor := q, isRange := true, first := CInt.atoi p }
      else { s' with cursor := q }) := by
  unfold turn
  rw [hcursor]
  dsimp only
  rw [hadd]
  dsimp only
  rw [hscan]

theorem turn_error {c : Char} {p : List Char} (hcursor : s.cursor = c :: p) {e : Stop}
    (hadd : s.addNumber (CInt.atoi p) = .error e) : s.turn = .error e := by
  unfold turn
  rw [hcursor]
  dsimp only
  rw [hadd]

theorem loop_end (h : s.cursor.head? = some ']') (fuel : Nat) : loop fuel s = some (.ok s) := by
  cases fuel <;> exact if_pos h

theorem loop_error (h : s.cursor.head? ≠ some ']') {e : Stop} (hturn : s.turn = .error e) :
    loop (fuel + 1) s = some (.error e) := by
  rw [loop, if_neg h, hturn]

theorem loop_ok (h : s.cursor.head? ≠ some ']') (hturn : s.turn = .ok s') :
    loop (fuel + 1) s = loop fuel s' := by
  rw [loop, if_neg h, hturn]

/-- More turns change nothing. -/
theorem loop_mono {r : Except Stop CoreScan} {fuel' : Nat} (hle : fuel ≤ fuel')
    (h : loop fuel s = some r) : loop fuel' s = some r := by
  induction fuel generalizing s fuel' with
  | zero =>
      by_cases hend : s.cursor.head? = some ']'
      · rw [loop_end hend] at h ⊢
        exact h
      · rw [loop, if_neg hend] at h
        cases h
  | succ fuel ih =>
      obtain ⟨fuel', rfl⟩ := Nat.exists_eq_add_of_le' (Nat.zero_lt_of_lt hle)
      by_cases hend : s.cursor.head? = some ']'
      · rw [loop_end hend] at h ⊢
        exact h
      · cases hturn : s.turn with
        | error e =>
            rw [loop_error hend hturn] at h ⊢
            exact h
        | ok s₁ =>
            rw [loop_ok hend hturn] at h ⊢
            exact ih (Nat.le_of_succ_le_succ hle) h

/-! ## Lists of items -/

/-- A number in a list of cores. -/
structure Numeral where
  digits : List Char
  isDigit : ∀ d ∈ digits, d.isDigit = true
  nonempty : digits ≠ []

def Numeral.value (n : Numeral) : Nat := CInt.decimal n.digits

def Numeral.ofDigits (ds : List Char) (h : ds.all Char.isDigit = true) (hne : ds.isEmpty = false) :
    Numeral :=
  ⟨ds, List.all_eq_true.mp h, List.isEmpty_eq_false_iff.mp hne⟩

inductive Item
  | number (n : Numeral)
  | range (a b : Numeral)

namespace Item

def text : Item → List Char
  | .number n => n.digits
  | .range a b => a.digits ++ '-' :: b.digits

/-- The cores that an item stands for. -/
def ids : Item → List Int
  | .number n => [(n.value : Int)]
  | .range a b => upTo a.value b.value

/-- An item of the grammar, with numbers that are `int`s. -/
def Valid : Item → Prop
  | .number n => n.value < 2 ^ 31
  | .range a b => a.value < b.value ∧ b.value < 2 ^ 31

/-- The item is not a range up to the largest `int`. -/
def BelowMax : Item → Prop
  | .number _ => True
  | .range _ b => b.value ≠ 2 ^ 31 - 1

end Item

/-- The items behind the bracket or a comma, up to the closing bracket. -/
def itemsText : List Item → List Char
  | [] => []
  | [x] => x.text ++ [']']
  | x :: items => x.text ++ ',' :: itemsText items

/-- `[item,item,…]`. -/
def listText (items : List Item) : List Char := '[' :: itemsText items

/-- A turn that finds a number. -/
theorem turn_numeral {n : Numeral} (hn : n.value < 2 ^ 31) {sep c : Char} (hc : Separator c)
    {p : List Char} (hcursor : s.cursor = sep :: (n.digits ++ c :: p))
    (hadd : s.addNumber n.value = .ok s') :
    s.turn = .ok (if c = '-' then { s' with cursor := c :: p, isRange := true, first := n.value }
      else { s' with cursor := c :: p }) := by
  have hatoi : CInt.atoi (n.digits ++ c :: p) = n.value :=
    CInt.atoi_digits n.isDigit n.nonempty hn (not_isDigit_of_separator hc) p
  rw [← hatoi] at hadd
  have hturn := turn_some hcursor hadd (scan_append n.isDigit hc p)
  rw [hatoi] at hturn
  simpa only [List.head?_cons, Option.some.injEq] using hturn

theorem turn_numeral_error {n : Numeral} (hn : n.value < 2 ^ 31) {sep c : Char} (hc : Separator c)
    {p : List Char} (hcursor : s.cursor = sep :: (n.digits ++ c :: p)) {e : Stop}
    (hadd : s.addNumber n.value = .error e) : s.turn = .error e := by
  have hatoi : CInt.atoi (n.digits ++ c :: p) = n.value :=
    CInt.atoi_digits n.isDigit n.nonempty hn (not_isDigit_of_separator hc) p
  rw [← hatoi] at hadd
  exact turn_error hcursor hadd

theorem upTo_cons {lo hi : Int} (h : lo ≤ hi) : upTo lo hi = lo :: upTo (lo + 1) hi := by
  have hcount : (hi + 1 - lo).toNat = (hi + 1 - (lo + 1)).toNat + 1 := by omega
  unfold upTo
  rw [hcount, List.range_succ_eq_map, List.map_cons, List.map_map]
  congr 1
  · exact Int.add_zero lo
  · apply List.map_congr_left
    intro k _
    change lo + ((k + 1 : Nat) : Int) = lo + 1 + k
    omega

theorem loop_number {n : Numeral} (hn : n.value < 2 ^ 31) (hr : s.isRange = false) {sep c : Char}
    (hsep : sep ≠ ']') (hc : c = ',' ∨ c = ']') {p : List Char}
    (hcursor : s.cursor = sep :: (n.digits ++ c :: p)) :
    loop (fuel + 1) s =
      loop fuel { s with cursor := c :: p, coreIds := s.coreIds ++ [(n.value : Int)] } := by
  have hopen : s.cursor.head? ≠ some ']' := by
    rw [hcursor]
    exact fun heq => hsep (Option.some.inj heq)
  have hminus : c ≠ '-' := by
    obtain rfl | rfl := hc <;> decide
  have hturn := turn_numeral hn (hc.imp id Or.inl) hcursor (addNumber_single hr n.value)
  rw [if_neg hminus] at hturn
  exact loop_ok hopen hturn

theorem upTo_append {lo hi : Int} (h : lo < hi) (l : List Int) :
    l ++ [lo] ++ upTo (lo + 1) hi = l ++ upTo lo hi := by
  rw [upTo_cons h.le, List.append_assoc, List.singleton_append]

theorem loop_range {a b : Numeral} (hlt : a.value < b.value) (hmax : b.value < 2 ^ 31)
    (hr : s.isRange = false) {sep c : Char} (hsep : sep ≠ ']') (hc : c = ',' ∨ c = ']')
    {p : List Char} (hcursor : s.cursor = sep :: (a.digits ++ '-' :: (b.digits ++ c :: p))) :
    loop (fuel + 2) s =
      if b.value = 2 ^ 31 - 1 then some (.error .overflow)
      else loop fuel
        { cursor := c :: p
          coreIds := s.coreIds ++ upTo a.value b.value
          isRange := false
          first := a.value } := by
  have hopen : s.cursor.head? ≠ some ']' := by
    rw [hcursor]
    exact fun heq => hsep (Option.some.inj heq)
  have hminus : c ≠ '-' := by
    obtain rfl | rfl := hc <;> decide
  have hless : (a.value : Int) < b.value := Int.ofNat_lt.mpr hlt
  -- the first number is taken for an item of its own
  have hfirst := turn_numeral (Nat.lt_trans hlt hmax) (Or.inr (Or.inr rfl)) hcursor
    (addNumber_single hr a.value)
  rw [if_pos rfl] at hfirst
  let s₁ : CoreScan :=
    { cursor := '-' :: (b.digits ++ c :: p)
      coreIds := s.coreIds ++ [(a.value : Int)]
      isRange := true
      first := a.value }
  have hopen₁ : s₁.cursor.head? ≠ some ']' := by
    intro heq
    exact absurd (Option.some.inj heq) (by decide)
  have hrest : loop (fuel + 2) s = loop (fuel + 1) s₁ := loop_ok hopen hfirst
  have hc : Separator c := hc.imp id Or.inl
  rw [hrest]
  by_cases hb : b.value = 2 ^ 31 - 1
  · have heq : (b.value : Int) = intMax := by
      unfold intMax
      omega
    have hadd : s₁.addNumber b.value = .error .overflow := by
      rw [heq] at hless ⊢
      exact addNumber_overflow rfl hless
    rw [if_pos hb]
    exact loop_error hopen₁ (turn_numeral_error hmax hc rfl hadd)
  · have hne : (b.value : Int) ≠ intMax := by
      unfold intMax
      omega
    have hsecond := turn_numeral hmax hc rfl (addNumber_range (s := s₁) rfl hless hne)
    rw [if_neg hminus] at hsecond
    rw [if_neg hb, loop_ok hopen₁ hsecond, ← upTo_append hless]

/-- What the loop makes of one item: it goes on behind it, or it stops at a range up to the
largest `int`. -/
theorem loop_item {x : Item} (hx : x.Valid) (hr : s.isRange = false) {sep c : Char}
    (hsep : sep ≠ ']') (hc : c = ',' ∨ c = ']') {p : List Char}
    (hcursor : s.cursor = sep :: (x.text ++ c :: p)) (hfuel : x.text.length ≤ fuel) :
    (x.BelowMax → ∃ s' fuel', loop fuel s = loop fuel' s' ∧ fuel ≤ fuel' + x.text.length ∧
      s'.cursor = c :: p ∧ s'.coreIds = s.coreIds ++ x.ids ∧ s'.isRange = false) ∧
    (¬x.BelowMax → loop fuel s = some (.error .overflow)) := by
  cases x with
  | number n =>
      have hlength : 0 < n.digits.length := List.length_pos_iff.mpr n.nonempty
      obtain ⟨fuel, rfl⟩ := Nat.exists_eq_add_of_le' (Nat.lt_of_lt_of_le hlength hfuel)
      refine ⟨fun _ => ⟨_, fuel, loop_number hx hr hsep hc hcursor, ?_, rfl, rfl, hr⟩,
        fun hnot => absurd trivial hnot⟩
      change fuel + 1 ≤ fuel + n.digits.length
      omega
  | range a b =>
      obtain ⟨hlt, hmax⟩ := hx
      have hlength : 2 ≤ (a.digits ++ '-' :: b.digits).length := by
        have ha := List.length_pos_iff.mpr a.nonempty
        rw [List.length_append, List.length_cons]
        omega
      obtain ⟨fuel, rfl⟩ := Nat.exists_eq_add_of_le' (Nat.le_trans hlength hfuel)
      have hcursor : s.cursor = sep :: (a.digits ++ '-' :: (b.digits ++ c :: p)) := by
        rw [hcursor]
        exact congrArg (sep :: ·) (List.append_assoc ..)
      rw [loop_range hlt hmax hr hsep hc hcursor]
      constructor
      · intro hbelow
        rw [if_neg hbelow]
        refine ⟨_, fuel, rfl, ?_, rfl, rfl, rfl⟩
        change fuel + 2 ≤ fuel + (a.digits ++ '-' :: b.digits).length
        omega
      · intro hnot
        exact if_pos (Decidable.of_not_not hnot)

/-- What the loop makes of a list of items. -/
theorem loop_items {items : List Item} (hne : items ≠ []) (hvalid : ∀ x ∈ items, x.Valid)
    (hr : s.isRange = false) {sep : Char} (hsep : sep ≠ ']')
    (hcursor : s.cursor = sep :: itemsText items) (hfuel : (itemsText items).length ≤ fuel) :
    ((∀ x ∈ items, x.BelowMax) → ∃ s', loop fuel s = some (.ok s') ∧ s'.cursor = [']'] ∧
      s'.coreIds = s.coreIds ++ items.flatMap Item.ids) ∧
    ((∃ x ∈ items, ¬x.BelowMax) → loop fuel s = some (.error .overflow)) := by
  induction items generalizing s fuel sep with
  | nil => exact absurd rfl hne
  | cons x items ih =>
      have hx := hvalid x List.mem_cons_self
      cases items with
      | nil =>
          have hlength : x.text.length + 1 ≤ fuel := by
            rw [show itemsText [x] = x.text ++ [']'] from rfl, List.length_append] at hfuel
            exact hfuel
          obtain ⟨hgood, hbad⟩ :=
            loop_item hx hr hsep (Or.inr rfl) hcursor (Nat.le_of_succ_le hlength)
          constructor
          · intro hbelow
            obtain ⟨s', fuel', hloop, -, hcursor', hids, -⟩ := hgood (hbelow x List.mem_cons_self)
            refine ⟨s', ?_, hcursor', ?_⟩
            · rw [hloop]
              apply loop_end
              rw [hcursor']
              rfl
            · rw [hids, List.flatMap_cons, List.flatMap_nil, List.append_nil]
          · rintro ⟨y, hy, hnot⟩
            rw [List.mem_singleton.mp hy] at hnot
            exact hbad hnot
      | cons y items =>
          have hlength : x.text.length + (itemsText (y :: items)).length + 1 ≤ fuel := by
            rw [show itemsText (x :: y :: items) = x.text ++ ',' :: itemsText (y :: items) from rfl,
              List.length_append, List.length_cons] at hfuel
            omega
          have hitem : x.text.length ≤ fuel := by omega
          obtain ⟨hgood, hbad⟩ := loop_item hx hr hsep (Or.inl rfl) hcursor hitem
          by_cases hxmax : x.BelowMax
          · obtain ⟨s', fuel', hloop, hle, hcursor', hids, hr'⟩ := hgood hxmax
            have hrest : (itemsText (y :: items)).length ≤ fuel' := by omega
            obtain ⟨hgood', hbad'⟩ := ih (List.cons_ne_nil y items)
              (fun z hz => hvalid z (List.mem_cons_of_mem x hz)) hr' (by decide) hcursor' hrest
            rw [hloop]
            constructor
            · intro hbelow
              obtain ⟨s'', hend, hcursor'', hids''⟩ :=
                hgood' fun z hz => hbelow z (List.mem_cons_of_mem x hz)
              refine ⟨s'', hend, hcursor'', ?_⟩
              rw [hids'', hids, List.append_assoc]
              rfl
            · rintro ⟨z, hz, hnot⟩
              rcases List.mem_cons.mp hz with rfl | hz
              · exact absurd hxmax hnot
              · exact hbad' ⟨z, hz, hnot⟩
          · exact ⟨fun hbelow => absurd (hbelow x List.mem_cons_self) hxmax, fun _ => hbad hxmax⟩

theorem readCoreList_mono {value : List Char} {r : Except Stop CoreScan} {fuel' : Nat}
    (hle : fuel ≤ fuel') (h : readCoreList fuel value = some r) :
    readCoreList fuel' value = some r := by
  unfold readCoreList at h ⊢
  split
  · rename_i hbracket
    rw [if_pos hbracket] at h
    exact loop_mono hle h
  · rename_i hbracket
    rw [if_neg hbracket] at h
    exact h

/-- A list of items needs no more turns than it has characters. -/
theorem readCoreList_items {items : List Item} (hne : items ≠ []) (hvalid : ∀ x ∈ items, x.Valid) :
    ((∀ x ∈ items, x.BelowMax) → ∃ s,
      readCoreList (listText items).length (listText items) = some (.ok s) ∧ s.cursor = [']'] ∧
      s.coreIds = items.flatMap Item.ids) ∧
    ((∃ x ∈ items, ¬x.BelowMax) →
      readCoreList (listText items).length (listText items) = some (.error .overflow)) := by
  let s₀ : CoreScan := { cursor := listText items, coreIds := [], isRange := false, first := 0 }
  have hread : readCoreList (listText items).length (listText items) =
      loop (listText items).length s₀ := if_pos rfl
  rw [hread]
  exact loop_items (s := s₀) hne hvalid rfl (by decide) rfl (Nat.le_succ (itemsText items).length)

/-- On a list of items the loop ends at the closing bracket with the cores of all items, just if
no range goes up to the largest `int`. -/
theorem core_list_iff {items : List Item} (hne : items ≠ []) (hvalid : ∀ x ∈ items, x.Valid) :
    (∃ s, (∀ fuel, (listText items).length ≤ fuel →
        readCoreList fuel (listText items) = some (.ok s)) ∧
      s.cursor = [']'] ∧ s.coreIds = items.flatMap Item.ids) ↔ ∀ x ∈ items, x.BelowMax := by
  obtain ⟨hgood, hbad⟩ := readCoreList_items hne hvalid
  constructor
  · rintro ⟨s, hrun, -⟩ x hx
    by_contra hnot
    have hoverflow := hbad ⟨x, hx, hnot⟩
    rw [hrun _ (Nat.le_refl _)] at hoverflow
    cases hoverflow
  · intro hbelow
    obtain ⟨s, hend, hcursor, hids⟩ := hgood hbelow
    exact ⟨s, fun fuel hfuel => readCoreList_mono hfuel hend, hcursor, hids⟩

/-- `[0-3,8]`. -/
def rangeAndNumber : List Item :=
  [.range (.ofDigits ['0'] rfl rfl) (.ofDigits ['3'] rfl rfl), .number (.ofDigits ['8'] rfl rfl)]

theorem core_list_iff_rangeAndNumber : ∃ s, (∀ fuel, 7 ≤ fuel →
    readCoreList fuel ['[', '0', '-', '3', ',', '8', ']'] = some (.ok s)) ∧
      s.cursor = [']'] ∧ s.coreIds = [0, 1, 2, 3, 8] := by
  have hvalid : ∀ x ∈ rangeAndNumber, x.Valid := by
    simp [rangeAndNumber, Item.Valid, Numeral.value, Numeral.ofDigits, CInt.decimal]
  have hbelow : ∀ x ∈ rangeAndNumber, x.BelowMax := by
    simp [rangeAndNumber, Item.BelowMax, Numeral.value, Numeral.ofDigits, CInt.decimal]
  exact (core_list_iff (List.cons_ne_nil _ _) hvalid).mpr hbelow

/-- `[2147483646-2147483647]`, a range up to the largest `int`. -/
def rangeToMax : List Item :=
  [.range (.ofDigits "2147483646".toList rfl rfl) (.ofDigits "2147483647".toList rfl rfl)]

theorem core_list_rangeToMax :
    rangeToMax ≠ [] ∧ (∀ x ∈ rangeToMax, x.Valid) ∧
      ∀ fuel, 2 ≤ fuel → readCoreList fuel (listText rangeToMax) = some (.error .overflow) := by
  refine ⟨List.cons_ne_nil _ _, ?_, ?_⟩
  · simp [rangeToMax, Item.Valid, Numeral.value, Numeral.ofDigits, CInt.decimal]
  · intro fuel hfuel
    obtain ⟨fuel, rfl⟩ := Nat.exists_eq_add_of_le' hfuel
    rfl

/-! ## Any text -/

/-- The ranges of a text up to the first closing bracket, each with the number where the field
before the minus begins and the number behind the minus. -/
def ranges : List Char → List Char → List (Int × Int)
  | _, [] => []
  | field, c :: p =>
    if c = ']' then []
    else if c = '-' then (CInt.atoi field, CInt.atoi p) :: ranges p p
    else if c = ',' then ranges p p
    else ranges field p

/-- A range that the loop does not complete. -/
def Faulty (r : Int × Int) : Prop := r.2 ≤ r.1 ∨ r.2 = intMax

instance : DecidablePred Faulty := fun _ => inferInstanceAs (Decidable (_ ∨ _))

/-- The first range that cannot be completed is one that the assertion rejects; if there is none,
the text is closed. -/
def Bounded (rs : List (Int × Int)) (closed : Prop) : Prop :=
  match rs.find? fun r => Faulty r with
  | some r => r.2 ≤ r.1
  | none => closed

variable {r : Int × Int} {rs : List (Int × Int)} {closed : Prop}

theorem bounded_cons_of_faulty (h : Faulty r) : Bounded (r :: rs) closed ↔ r.2 ≤ r.1 := by
  have hfirst : (r :: rs).find? (fun r => Faulty r) = some r :=
    List.find?_cons_of_pos (decide_eq_true h)
  unfold Bounded
  rw [hfirst]

theorem bounded_cons_of_not_faulty (h : ¬Faulty r) :
    Bounded (r :: rs) closed ↔ Bounded rs closed := by
  have hrest : (r :: rs).find? (fun r => Faulty r) = rs.find? fun r => Faulty r := by
    apply List.find?_cons_of_neg
    rwa [decide_eq_true_iff]
  unfold Bounded
  rw [hrest]

/-- What the inner loop finds in `p`, and what this means for the ranges. -/
inductive ScanResult (field p : List Char) : Option (List Char) → Prop
  | none (ranges : ranges field p = []) (open_ : ']' ∉ p) : ScanResult field p none
  | close (q : List Char) (ranges : ranges field p = []) (closed : ']' ∈ p) :
      ScanResult field p (some (']' :: q))
  | minus (q : List Char) (length : q.length < p.length)
      (ranges : ranges field p = (CInt.atoi field, CInt.atoi q) :: ranges q q)
      (closed : ']' ∈ p ↔ ']' ∈ q) : ScanResult field p (some ('-' :: q))
  | comma (q : List Char) (length : q.length < p.length) (ranges : ranges field p = ranges q q)
      (closed : ']' ∈ p ↔ ']' ∈ q) : ScanResult field p (some (',' :: q))

theorem scan_spec (field p : List Char) : ScanResult field p (scan p) := by
  induction p with
  | nil => exact .none rfl List.not_mem_nil
  | cons c p ih =>
      have hmem (hne : c ≠ ']') : ']' ∈ c :: p ↔ ']' ∈ p := by
        rw [List.mem_cons]
        exact or_iff_right fun heq => hne heq.symm
      unfold scan
      by_cases hclose : c = ']'
      · subst hclose
        exact .close p rfl List.mem_cons_self
      · by_cases hminus : c = '-'
        · subst hminus
          exact .minus p (Nat.lt_succ_self _) rfl (hmem hclose)
        · by_cases hcomma : c = ','
          · subst hcomma
            exact .comma p (Nat.lt_succ_self _) rfl (hmem hclose)
          · have hother : ranges field (c :: p) = ranges field p := by
              rw [ranges, if_neg hclose, if_neg hminus, if_neg hcomma]
            rw [if_neg fun h => h.elim hcomma fun h => h.elim hclose hminus]
            generalize scan p = o at ih
            cases ih with
            | none hranges hopen =>
                exact .none (hother.trans hranges) fun h => hopen ((hmem hclose).mp h)
            | close q hranges hclosed =>
                exact .close q (hother.trans hranges) ((hmem hclose).mpr hclosed)
            | minus q hlength hranges hclosed =>
                exact .minus q (Nat.lt_succ_of_lt hlength) (hother.trans hranges)
                  ((hmem hclose).trans hclosed)
            | comma q hlength hranges hclosed =>
                exact .comma q (Nat.lt_succ_of_lt hlength) (hother.trans hranges)
                  ((hmem hclose).trans hclosed)

/-- The value has been consumed up to a closing bracket, or it is rejected. -/
def Settled : Except Stop CoreScan → Prop
  | .ok s => s.cursor.head? = some ']'
  | .error e => e = .rejected

/-- The range that is waiting for its second number. -/
def pending (s : CoreScan) (p : List Char) : List (Int × Int) :=
  if s.isRange then [(s.first, CInt.atoi p)] else []

/-- What a turn at `p` comes to, where `good` says that from there on the text is consumed or
rejected. -/
inductive TurnResult (good : Prop) (p : List Char) : Except Stop CoreScan → Prop
  | stop (e : Stop) (settled : Settled (.error e) ↔ good) : TurnResult good p (.error e)
  | close (s : CoreScan) (closing : s.cursor.head? = some ']') (settled : good) :
      TurnResult good p (.ok s)
  | goOn (s : CoreScan) (c : Char) (q : List Char) (separator : c ≠ ']')
      (cursor : s.cursor = c :: q) (length : q.length < p.length)
      (settled : Bounded (s.pending q ++ ranges q q) (']' ∈ q) ↔ good) :
      TurnResult good p (.ok s)

/-- A turn that takes its number. -/
theorem turn_taken {c : Char} {p : List Char} (hcursor : s.cursor = c :: p)
    (hadd : s.addNumber (CInt.atoi p) = .ok s') (hr : s'.isRange = false) :
    TurnResult (Bounded (ranges p p) (']' ∈ p)) p s.turn := by
  have hresult := scan_spec p p
  cases hscan : scan p with
  | none =>
      rw [hscan] at hresult
      obtain ⟨hranges, hopen⟩ := hresult
      rw [turn_none hcursor hadd hscan, hranges]
      exact .stop .outside (iff_of_false Stop.noConfusion hopen)
  | some q =>
      rw [turn_some hcursor hadd hscan]
      rw [hscan] at hresult
      cases hresult with
      | close q hranges hclosed =>
          rw [hranges]
          exact .close _ rfl hclosed
      | minus q hlength hranges hclosed =>
          rw [hranges, hclosed]
          exact .goOn _ '-' q (by decide) rfl hlength Iff.rfl
      | comma q hlength hranges hclosed =>
          have hpending : pending { s' with cursor := ',' :: q } q = [] := by
            unfold pending
            rw [hr]
            rfl
          rw [hranges, hclosed]
          refine .goOn { s' with cursor := ',' :: q } ',' q (by decide) rfl hlength ?_
          rw [hpending, List.nil_append]

theorem turn_spec {c : Char} {p : List Char} (hcursor : s.cursor = c :: p) :
    TurnResult (Bounded (s.pending p ++ ranges p p) (']' ∈ p)) p s.turn := by
  by_cases hr : s.isRange = true
  · have hpending : s.pending p = [(s.first, CInt.atoi p)] := if_pos hr
    rw [hpending, List.singleton_append]
    by_cases hlt : s.first < CInt.atoi p
    · by_cases hmax : CInt.atoi p = intMax
      · have hadd : s.addNumber (CInt.atoi p) = .error .overflow := by
          rw [hmax] at hlt ⊢
          exact addNumber_overflow hr hlt
        rw [turn_error hcursor hadd, bounded_cons_of_faulty (Or.inr hmax)]
        exact .stop .overflow (iff_of_false Stop.noConfusion (Int.not_le.mpr hlt))
      · have hcomplete : ¬Faulty (s.first, CInt.atoi p) := by
          rintro (hle | heq)
          · exact Int.not_le.mpr hlt hle
          · exact hmax heq
        rw [bounded_cons_of_not_faulty hcomplete]
        exact turn_taken hcursor (addNumber_range hr hlt hmax) rfl
    · have hle : CInt.atoi p ≤ s.first := Int.not_lt.mp hlt
      rw [turn_error hcursor (addNumber_rejected hr hle), bounded_cons_of_faulty (Or.inl hle)]
      exact .stop .rejected (iff_of_true rfl hle)
  · have hpending : s.pending p = [] := if_neg hr
    have hr : s.isRange = false := Bool.eq_false_of_not_eq_true hr
    rw [hpending, List.nil_append]
    exact turn_taken hcursor (addNumber_single hr _) hr

/-- From any turn on. -/
theorem loop_settled {c : Char} (hc : c ≠ ']') {p : List Char} (hcursor : s.cursor = c :: p)
    (hfuel : p.length < fuel) : ∃ r, loop fuel s = some r ∧
      (Settled r ↔ Bounded (s.pending p ++ ranges p p) (']' ∈ p)) := by
  induction fuel generalizing s c p with
  | zero => exact absurd hfuel (Nat.not_lt_zero _)
  | succ fuel ih =>
      have hopen : s.cursor.head? ≠ some ']' := by
        rw [hcursor]
        exact fun heq => hc (Option.some.inj heq)
      have hresult := turn_spec hcursor
      cases hturn : s.turn with
      | error e =>
          rw [hturn] at hresult
          cases hresult with
          | stop _ hsettled => exact ⟨_, loop_error hopen hturn, hsettled⟩
      | ok s' =>
          rw [hturn] at hresult
          cases hresult with
          | close _ hclosing hbounded =>
              refine ⟨_, (loop_ok hopen hturn).trans (loop_end hclosing fuel), ?_⟩
              exact iff_of_true hclosing hbounded
          | goOn _ c' q hc' hcursor' hlength hbounded =>
              have hshorter : q.length < fuel := by omega
              obtain ⟨r, hloop, hsettled⟩ := ih hc' hcursor' hshorter
              exact ⟨r, (loop_ok hopen hturn).trans hloop, hsettled.trans hbounded⟩

/-- The loops end, and do not leave the string, just if it does not begin with a bracket, or the
first range in it that cannot be completed is one that the assertion rejects, or it is closed and
has no such range. -/
theorem core_list_stops_iff (value : List Char) :
    (∃ r, (∀ fuel, value.length ≤ fuel → readCoreList fuel value = some r) ∧ Settled r) ↔
      (value.head? ≠ some '[' ∨ Bounded (ranges value.tail value.tail) (']' ∈ value.tail)) := by
  by_cases hbracket : value.head? = some '['
  · obtain ⟨p, rfl⟩ : ∃ p, value = '[' :: p := by
      cases value with
      | nil => cases hbracket
      | cons c p => exact ⟨p, congrArg (· :: p) (Option.some.inj hbracket)⟩
    have hread (fuel : Nat) : readCoreList fuel ('[' :: p) =
        loop fuel { cursor := '[' :: p, coreIds := [], isRange := false, first := 0 } := if_pos rfl
    obtain ⟨r, hloop, hsettled⟩ := loop_settled
      (s := { cursor := '[' :: p, coreIds := [], isRange := false, first := 0 }) (by decide) rfl
      (Nat.lt_succ_self p.length)
    rw [or_iff_right (not_not_intro hbracket)]
    refine Iff.trans ⟨?_, ?_⟩ hsettled
    · rintro ⟨r', hrun, hr'⟩
      have hsame := hrun _ (Nat.le_refl _)
      rw [hread, List.length_cons, hloop] at hsame
      rw [Option.some.inj hsame]
      exact hr'
    · intro hr
      have hend : readCoreList ('[' :: p).length ('[' :: p) = some r := (hread _).trans hloop
      exact ⟨r, fun fuel hfuel => readCoreList_mono hfuel hend, hr⟩
  · exact iff_of_true ⟨_, fun fuel _ => if_neg hbracket, rfl⟩ (Or.inl hbracket)

/-- The value `[1`. -/
theorem core_list_not_closed :
    (∀ fuel, 1 ≤ fuel → readCoreList fuel ['[', '1'] = some (.error .outside)) ∧
      ¬Settled (.error .outside) := by
  refine ⟨?_, Stop.noConfusion⟩
  intro fuel hfuel
  obtain ⟨fuel, rfl⟩ := Nat.exists_eq_add_of_le' hfuel
  rfl

end CoreScan

end AceMesh
