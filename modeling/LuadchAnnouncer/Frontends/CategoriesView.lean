import LuadchAnnouncer.Frontends.Categories
import LuadchAnnouncer.Frontends.RuleFile

/-!
# The list of the categories

The fifth tab shows the categories in a list of three columns of text: the index, how
many rules have the category, and its name.  `del_category` reads the row that is
selected back from these texts, and asks the second whether the category is in use.

What it asks is `not cnt == ""`, which compares a boolean with a text.
`delCategory_guarded_iff` says for which rows the rules come to no harm all the same,
and `enables_iff` that the column itself is right.

## Main results

* `parseText_nr`, `parseText_cnt` — the texts of a row, read back.
* `deleteAt_nr` — the row that is selected is the one that goes.
* `delCategory_guarded_iff` — when the rules come to no harm.
-/

namespace LuadchAnnouncer.Frontends.CategoriesView

open LuadchAnnouncer.Verified
open LuadchAnnouncer.Verified.Bytes
open LuadchAnnouncer.Verified.LuaValue
open LuadchAnnouncer.Verified.LuaPattern (digit)
open LuadchAnnouncer.Verified.LuaTable (sameKey sameKey_str normKey strLe)
open LuadchAnnouncer.Verified.LuaLiteral
open LuadchAnnouncer.Verified.LuaRecord
open LuadchAnnouncer.Frontends.GuiTables
open LuadchAnnouncer.Frontends.Categories
open LuadchAnnouncer.Frontends.RuleFile (Rule)

variable {spare : Nat}

/-! ## The rows -/

/-- `value[ "category" ] == item` -/
def hasCategory (name : Str) (rule : Rule spare) : Bool :=
  sameKey (field (.table rule.fields) (lit "category")) (.str name)

/-- `table.countValue( tables[ "rules" ], name, "category" )` -/
def countValue (rules : List (Rule spare)) (name : Str) : Nat := rules.countP (hasCategory name)

/-- `cnt` -/
def cntText (cnt : Nat) : Str := if cnt = 0 then [] else LuaNum.natText cnt ++ lit "x"

/-- An order of `spairs( tables[ "categories" ], "asc", "categoryname" )`, keys
included. -/
structure Order (names : List Str) where
  visited : List (Str × Nat)
  perm : visited.Perm names.zipIdx
  sorted : visited.Pairwise fun a b => strLe (lower a.1) (lower b.1) = true

/-- The texts of a row. -/
structure Row where
  nr : Str
  cnt : Str
  name : Str

def rowOf (rules : List (Rule spare)) (entry : Str × Nat) : Row where
  nr := LuaNum.natText (entry.2 + 1)
  cnt := cntText (countValue rules entry.1)
  name := entry.1

/-- `category_listview_fill` -/
def fill (rules : List (Rule spare)) {names : List Str} (order : Order names) : List Row :=
  order.visited.map (rowOf rules)

/-! ## Reading a row back -/

/-- `parse_listview_selection`, for one column. -/
def parseText (text : Str) : LuaVal :=
  match LuaNum.ofStr text with
  | some n => .num n
  | none => .str text

/-- `table.remove( tables[ "categories" ], nr )` -/
def removeAt (names : Names) (nr : LuaVal) : Except LuaError Names :=
  match normKey nr with
  | .num (.int i) =>
      if i = names.list.length ∨ (1 ≤ i ∧ i ≤ names.list.length + 1) then
        .ok (names.remove (i - 1).toNat)
      else .error .call
  | _ => .error .call

/-- The lists behind a call, and the lines of its message, below the heading. -/
structure Call where
  state : State
  said : List Str

def inUse (name : Str) : Str := lit "Error: Selected category '" ++ name ++ lit "' is in use!"

def deleted (nr name : Str) : List Str :=
  [lit "Deleted: Category #" ++ nr ++ lit ": '" ++ name ++ lit "'",
    lit "Categories list was renumbered"]

/-- The last branch of `del_category`. -/
def deleteAt (s : State) (nr name : LuaVal) : Except LuaError Call := do
  let names ← removeAt s.names nr
  let nr ← nr.concatText
  let name ← name.concatText
  .ok ⟨.saved names, deleted nr name⟩

/-- `del_category`.  Without a selection it compares nil with a number. -/
def delCategory (s : State) (view : List Row) (selected : Option Nat) : Except LuaError Call :=
  match selected.bind fun i => view[i]? with
  | none => .error .compare
  | some row => do
      let nr := parseText row.nr
      let cnt := parseText row.cnt
      let name := parseText row.name
      if sameKey nr (.num (.int (-1))) then .ok ⟨s, [lit "Error: No category selected!"]⟩
      else if ← nr.numLt (.int view.length) then
        .ok ⟨s, [lit "Error: Category selection out of range!"]⟩
      -- `not cnt == ""` is `( not cnt ) == ""`
      else if sameKey (.bool (!cnt.truthy)) (.str []) then do
        let name ← name.concatText
        .ok ⟨s, [inUse name]⟩
      else deleteAt s nr name

/-- Whether selecting a row enables the button. -/
def enables (row : Row) : Bool := sameKey (parseText row.cnt) (.str [])

/-! ## What is read back -/

/-- The index comes back as the number it is. -/
theorem parseText_nr {nr : Nat} (h : nr < 2 ^ 63) :
    parseText (LuaNum.natText nr) = .num (.int nr) := by
  unfold parseText
  rw [ofStr_natText]
  unfold numeral
  rw [if_pos h]

/-- A name comes back as a text, or as the number it reads as. -/
theorem parseText_concatText (text : Str) : ∃ name, (parseText text).concatText = .ok name := by
  unfold parseText
  cases LuaNum.ofStr text with
  | none => exact ⟨text, rfl⟩
  | some n => exact ⟨n.tostring, rfl⟩

theorem Order.length_eq {names : List Str} (order : Order names) :
    order.visited.length = names.length := by
  rw [order.perm.length_eq, List.length_zipIdx]

/-- The rows are those of the list. -/
theorem Order.getElem?_of_mem {names : List Str} (order : Order names) {entry : Str × Nat}
    (h : entry ∈ order.visited) : names[entry.2]? = some entry.1 := by
  have hmem := order.perm.mem_iff.mp h
  exact List.mem_zipIdx_iff_getElem?.mp hmem

/-- For the number of a row, `table.remove` takes the name that the row is about. -/
theorem removeAt_nr {names : Names} {k : Nat} (h : k < names.list.length) :
    removeAt names (.num (.int (k + 1 : Nat))) = .ok (names.remove k) := by
  have hnr : normKey (.num (.int (k + 1 : Nat))) = .num (.int (k + 1 : Nat)) := rfl
  have hindex : ((k + 1 : Nat) - 1 : Int).toNat = k := by omega
  unfold removeAt
  rw [hnr]
  simp only
  rw [hindex, if_pos (by omega)]

/-- What a deletion says is not that the category is in use. -/
theorem inUse_notMem_deleted (text nr name : Str) : inUse text ∉ deleted nr name := by
  intro hmem
  have hletter : (inUse text).head? = some 69 := rfl
  have hother : ∀ line ∈ deleted nr name, line.head? ≠ some 69 := by
    unfold deleted
    simp only [List.forall_mem_cons]
    refine ⟨?_, ?_, fun line hline => absurd hline List.not_mem_nil⟩
    · show some (68 : UInt8) ≠ some 69
      decide
    · decide
  exact hother _ hmem hletter

/-- So the last branch of `del_category` removes that name and says so. -/
theorem deleteAt_nr (s : State) {k : Nat} (h : k < s.names.list.length) {name : LuaVal} {text : Str}
    (hname : name.concatText = .ok text) :
    deleteAt s (.num (.int (k + 1 : Nat))) name =
      .ok ⟨.saved (s.names.remove k), deleted (LuaNum.intText (k + 1 : Nat)) text⟩ := by
  unfold deleteAt
  rw [removeAt_nr h, hname]
  rfl

/-- Every row can be deleted, whatever its count: that is what `del_category` does. -/
theorem delCategory_row (s : State) (shown : List (Rule spare)) (order : Order s.names.list)
    (row : Fin order.visited.length) :
    ∃ said, delCategory s (fill shown order) (some row) =
        .ok ⟨.saved (s.names.remove order.visited[row].2), said⟩ ∧
      ∀ name, inUse name ∉ said := by
  have hmem : order.visited[row] ∈ order.visited := List.getElem_mem _
  have hget := order.getElem?_of_mem hmem
  have hlt : order.visited[row].2 < s.names.list.length := (List.getElem?_eq_some_iff.mp hget).1
  have hcapacity : order.visited[row].2 + 1 < 2 ^ 63 := by
    have hfits := s.names.fits
    unfold capacity at hfits
    omega
  have hrow : (fill shown order)[(row : Nat)]? = some (rowOf shown order.visited[row]) := by
    unfold fill
    rw [List.getElem?_map, List.getElem?_eq_getElem row.isLt]
    rfl
  have hlength : (fill shown order).length = s.names.list.length := by
    unfold fill
    rw [List.length_map, order.length_eq]
  obtain ⟨text, htext⟩ := parseText_concatText order.visited[row].1
  have hselected : sameKey (.num (.int (order.visited[row].2 + 1 : Nat))) (.num (.int (-1))) =
      false := by
    show (LuaNum.int _ == LuaNum.int (-1)) = false
    rw [beq_eq_false_iff_ne]
    intro heq
    have hint := LuaNum.int.inj heq
    omega
  have hrange : LuaVal.numLt (.int (fill shown order).length)
      (.num (.int (order.visited[row].2 + 1 : Nat))) = .ok false := by
    show Except.ok (!decide _) = Except.ok false
    rw [hlength, decide_eq_true (by omega)]
    rfl
  refine ⟨deleted (LuaNum.intText (order.visited[row].2 + 1 : Nat)) text, ?_,
    fun name => inUse_notMem_deleted name _ _⟩
  · unfold delCategory
    rw [Option.bind_some, hrow]
    unfold rowOf
    simp only
    rw [parseText_nr hcapacity, hselected, hrange, deleteAt_nr s hlt htext]
    rfl

/-! ## The rules -/

/-- Some rule has the category, as the text of the rule's field. -/
def Used (rules : List (Rule spare)) (name : Str) : Prop :=
  ∃ rule ∈ rules, hasCategory name rule = true

/-- Every category that is not empty and that a rule has is in the list. -/
def Referenced (rules : List (Rule spare)) (names : List Str) : Prop :=
  ∀ name, name ≠ [] → Used rules name → name ∈ names

/-- The rules keep their categories, and a category that is in use is refused. -/
structure Guarded (rules : List (Rule spare)) (s : State) (name : Str) (call : Call) : Prop where
  referenced : Referenced rules s.names.list → Referenced rules call.state.names.list
  refused : Used rules name → call.state = s ∧ ∃ text, inUse text ∈ call.said

/-- Without the name at a position, everything else is there. -/
theorem mem_eraseIdx_of_ne {names : List Str} {k : Nat} {name other : Str}
    (hget : names[k]? = some name) (hmem : other ∈ names) (hne : other ≠ name) :
    other ∈ names.eraseIdx k := by
  rw [List.mem_eraseIdx_iff_getElem?]
  obtain ⟨i, hi⟩ := List.getElem?_of_mem hmem
  refine ⟨i, ?_, hi⟩
  intro hik
  rw [hik, hget] at hi
  exact hne (Option.some.inj hi).symm

/-- **Deleting a category, exactly.**  Whatever the rules and whatever the list shows of
them, the row that is selected is deleted; so the rules are guarded if and only if none
of them has the category. -/
theorem delCategory_guarded_iff (rules shown : List (Rule spare)) (s : State)
    (order : Order s.names.list) (row : Fin order.visited.length) :
    ∃ call, delCategory s (fill shown order) (some row) = .ok call ∧
      (Guarded rules s order.visited[row].1 call ↔ ¬ Used rules order.visited[row].1) := by
  have hget := order.getElem?_of_mem (List.getElem_mem row.isLt)
  have hlt := (List.getElem?_eq_some_iff.mp hget).1
  obtain ⟨said, hcall, hsaid⟩ := delCategory_row s shown order row
  refine ⟨_, hcall, ?_⟩
  constructor
  · intro hguarded hused
    obtain ⟨-, text, htext⟩ := hguarded.refused hused
    exact hsaid text htext
  · intro hunused
    constructor
    case referenced =>
      intro hreferenced name hne hused
      apply mem_eraseIdx_of_ne hget (hreferenced name hne hused)
      intro hsame
      exact hunused (hsame ▸ hused)
    case refused => exact fun hused => absurd hused hunused

/-- It is what the list of names calls a deletion. -/
theorem delCategory_refines (shown : List (Rule spare)) (s : State) (order : Order s.names.list)
    (row : Fin order.visited.length) :
    ∃ call, delCategory s (fill shown order) (some row) = .ok call ∧
      call.state = Categories.delCategory s (some order.visited[row].2) := by
  have hget := order.getElem?_of_mem (List.getElem_mem row.isLt)
  have hlt : order.visited[row].2 < s.names.list.length := (List.getElem?_eq_some_iff.mp hget).1
  obtain ⟨said, hcall, -⟩ := delCategory_row s shown order row
  refine ⟨_, hcall, ?_⟩
  unfold Categories.delCategory
  simp only
  rw [if_neg (Nat.not_le.mpr hlt)]

/-- A rule of a category. -/
def ruleOf (category : Str) : Rule 0 := RuleFile.newRule.filled (lit "a") category

theorem hasCategory_ruleOf (category : Str) : hasCategory category (ruleOf category) = true := by
  unfold hasCategory ruleOf
  rw [Rule.category_filled]
  exact beq_self_eq_true category

def oneName : Names := ⟨[lit "TV"], by decide⟩

def oneOrder : Order oneName.list := ⟨[(lit "TV", 0)], .refl _, List.pairwise_singleton _ _⟩

/-- The only category there is, and a rule that has it. -/
theorem delCategory_used :
    ¬ ∀ (rules : List (Rule 0)) (s : State) (order : Order s.names.list)
      (row : Fin order.visited.length) (call : Call),
        delCategory s (fill rules order) (some row) = .ok call →
          Guarded rules s order.visited[row].1 call := by
  intro hall
  have hused : Used [ruleOf (lit "TV")] (lit "TV") :=
    ⟨ruleOf (lit "TV"), List.mem_cons_self, hasCategory_ruleOf (lit "TV")⟩
  have hlt : 0 < oneOrder.visited.length := by decide
  obtain ⟨said, hcall, hsaid⟩ :=
    delCategory_row (.saved oneName) [ruleOf (lit "TV")] oneOrder ⟨0, hlt⟩
  have hguarded := hall [ruleOf (lit "TV")] (.saved oneName) oneOrder ⟨0, hlt⟩ _ hcall
  obtain ⟨-, text, htext⟩ := hguarded.refused hused
  exact hsaid text htext

/-! ## The button -/

section Count

variable {ds : Str}

/-- A count such as `12x` has digits in it and an `x`, and nothing else. -/
theorem notMem_count (h : ∀ c ∈ ds, digit c = true) {c : UInt8} (hdigit : digit c = false)
    (hx : c ≠ 120) : c ∉ ds ++ [120] := by
  rw [List.mem_append, List.mem_singleton]
  rintro (hmem | hmem)
  · rw [h c hmem] at hdigit
    cases hdigit
  · exact hx hmem

theorem splitSign_count (h : ∀ c ∈ ds, digit c = true) :
    LuaNum.splitSign (ds ++ [120]) = (false, ds ++ [120]) :=
  splitSign_of_notMem (notMem_count h rfl (by decide)) (notMem_count h rfl (by decide))

/-- So there is no blank in it that `tonumber` could skip. -/
theorem isSpace_count (h : ∀ c ∈ ds, digit c = true) :
    ∀ c ∈ ds ++ [120], LuaNum.isSpace c = false := by
  intro c hc
  rcases List.mem_append.mp hc with hc | hc
  · exact isSpace_of_digit (h c hc)
  · rw [List.mem_singleton.mp hc]
    decide

/-- Only of `0x` it is the `x` of a hexadecimal numeral, and then nothing is behind it. -/
theorem splitHex_count (hne : ds ≠ []) (h : ∀ c ∈ ds, digit c = true) :
    ∀ r, LuaNum.splitHex (ds ++ [120]) = some r → r = [] := by
  have hsecond : ∀ (c : UInt8) (t : Str), ds ++ [120] = 48 :: c :: t → digit c = false →
      t = [] := by
    intro c t heq hc
    cases ds with
    | nil => exact absurd rfl hne
    | cons d ds =>
        have hrest := (List.cons.inj heq).2
        cases ds with
        | nil => exact (List.cons.inj hrest).2.symm
        | cons e ds =>
            have he := h e (List.mem_cons_of_mem _ List.mem_cons_self)
            rw [(List.cons.inj hrest).1, hc] at he
            cases he
  intro r hr
  unfold LuaNum.splitHex at hr
  split at hr
  case h_1 heq =>
    obtain rfl := Option.some.inj hr
    exact hsecond 120 _ heq rfl
  case h_2 heq =>
    obtain rfl := Option.some.inj hr
    exact hsecond 88 _ heq rfl
  case h_3 => cases hr

/-- `3x` is no number. -/
theorem ofStr_count (hne : ds ≠ []) (h : ∀ c ∈ ds, digit c = true) :
    LuaNum.ofStr (ds ++ [120]) = none := by
  have hx : digit 120 = false := rfl
  have htake : (ds ++ [120]).takeWhile digit = ds := by
    rw [List.takeWhile_append_of_pos h]
    simp [hx]
  have hdrop : (ds ++ [120]).dropWhile digit = [120] := by
    rw [List.dropWhile_append_of_pos h]
    simp [hx]
  have hnot : (ds ++ [120]).all digit = false := by
    simp [hx]
  have hint : LuaNum.str2int (ds ++ [120]) = none := by
    unfold LuaNum.str2int
    rw [splitSign_count h]
    simp only
    cases hsplit : LuaNum.splitHex (ds ++ [120]) with
    | none => simp [hnot]
    | some r => simp [splitHex_count hne h r hsplit]
  have hfloat : LuaNum.str2d (ds ++ [120]) = none := by
    unfold LuaNum.str2d
    rw [splitSign_count h]
    simp only
    cases hsplit : LuaNum.splitHex (ds ++ [120]) with
    | none => simp [LuaNum.floatBody, htake, hdrop, hne, LuaNum.exponentPart]
    | some r => simp [splitHex_count hne h r hsplit, LuaNum.floatBody]
  unfold LuaNum.ofStr
  rw [trim_eq_self (isSpace_count h), hint, hfloat]
  rfl

end Count

/-- What the second column is read back as. -/
theorem parseText_cnt (cnt : Nat) : parseText (cntText cnt) = .str (cntText cnt) := by
  unfold cntText
  split
  case isTrue => rfl
  case isFalse =>
    have hnone : LuaNum.ofStr (LuaNum.natText cnt ++ lit "x") = none :=
      ofStr_count (natText_ne_nil cnt) (digit_natText cnt)
    unfold parseText
    rw [hnone]

/-- The button is enabled for the categories that no rule has. -/
theorem enables_iff (rules : List (Rule spare)) (entry : Str × Nat) :
    enables (rowOf rules entry) = true ↔ ¬ Used rules entry.1 := by
  unfold enables rowOf
  simp only
  rw [parseText_cnt]
  have hzero : countValue rules entry.1 = 0 ↔ ¬ Used rules entry.1 := by
    unfold countValue Used
    rw [List.countP_eq_zero, not_exists]
    simp only [not_and]
  rw [← hzero, sameKey_str]
  unfold cntText
  split
  case isTrue hnone => exact iff_of_true rfl hnone
  case isFalse hsome =>
    apply iff_of_false
    · exact List.append_ne_nil_of_left_ne_nil (natText_ne_nil _) _
    · exact hsome

end LuadchAnnouncer.Frontends.CategoriesView
