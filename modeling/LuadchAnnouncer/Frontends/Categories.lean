import LuadchAnnouncer.Verified.LuaRecord
import LuadchAnnouncer.Frontends.GuiTables

/-!
# The categories

`tables[ "categories" ]` is a list of names, and `cfg/categories.lua` is its
file.  The start-up import takes the names from the rules, `add_category` takes
one from the user and `imp_category` takes them from a file that `exp_category`
of another window may have written.  Each asks `table.hasValue` for a name before
it inserts it.

`fresh` is what a loop of that kind adds to a list, and `Consistent` is what
every operation keeps: the names are distinct, none is empty, and the file holds
them.  The order in which `pairs` and `table.sort` give their keys is a parameter
wherever there is a choice.

## Main results

* `mem_fresh`, `fresh_again`, `fresh_perm` — what such a loop adds: what is missing,
  nothing the second time, and the same in any order.
* `Consistent.step`, `Consistent.run` — every operation keeps the list and its file.
* `importCategoriesTbl_complete` — behind the start-up import every category of the
  rules is there.
* `impCategory_expCategory` — what one window exports, another imports as far as it is
  missing.
* `categories_run` — all of this over any run, with what can stop one.
-/

namespace LuadchAnnouncer.Frontends.Categories

open LuadchAnnouncer.Verified
open LuadchAnnouncer.Verified.Bytes
open LuadchAnnouncer.Verified.LuaValue
open LuadchAnnouncer.Verified.LuaTable (Entries normal seq sortKeys strLe)
open LuadchAnnouncer.Verified.LuaData
open LuadchAnnouncer.Verified.LuaRecord
open LuadchAnnouncer.Core.Util
open LuadchAnnouncer.Frontends.GuiTables

/-! ## Adding what is missing -/

section Fresh

variable {α : Type} [BEq α] [LawfulBEq α]

/-- The elements that are visited, allowed and not there yet, each once. -/
def fresh (allow : α → Bool) (names : List α) : List α → List α
  | [] => []
  | name :: visited =>
      if name ∉ names ∧ allow name = true then name :: fresh allow (names ++ [name]) visited
      else fresh allow names visited

/-- What a loop of that kind adds are the names that were not there and that it may add. -/
theorem mem_fresh {allow : α → Bool} {names visited : List α} {a : α} :
    a ∈ fresh allow names visited ↔ a ∈ visited ∧ a ∉ names ∧ allow a = true := by
  induction visited generalizing names with
  | nil => simp [fresh]
  | cons name visited ih =>
      unfold fresh
      split
      case isTrue hnew =>
        rw [List.mem_cons, ih, List.mem_cons, List.mem_append, List.mem_singleton]
        constructor
        · rintro (rfl | ⟨hvisited, hnames, hallow⟩)
          · exact ⟨Or.inl rfl, hnew⟩
          · exact ⟨Or.inr hvisited, fun h => hnames (Or.inl h), hallow⟩
        · rintro ⟨rfl | hvisited, hnames, hallow⟩
          · exact Or.inl rfl
          · by_cases hsame : a = name
            · exact Or.inl hsame
            · right
              refine ⟨hvisited, ?_, hallow⟩
              rintro (h | h)
              · exact hnames h
              · exact hsame h
      case isFalse hold =>
        rw [ih, List.mem_cons]
        constructor
        · rintro ⟨hvisited, hrest⟩
          exact ⟨Or.inr hvisited, hrest⟩
        · rintro ⟨rfl | hvisited, hrest⟩
          · exact absurd hrest hold
          · exact ⟨hvisited, hrest⟩

/-- It adds no name twice, and none that was there. -/
theorem nodup_append_fresh {allow : α → Bool} {names : List α} (hnames : names.Nodup)
    (visited : List α) : (names ++ fresh allow names visited).Nodup := by
  induction visited generalizing names with
  | nil =>
      unfold fresh
      rw [List.append_nil]
      exact hnames
  | cons name visited ih =>
      unfold fresh
      split
      case isTrue hnew =>
        have hsnoc : (names ++ [name]).Nodup := by
          rw [List.nodup_append_comm, List.singleton_append, List.nodup_cons]
          exact ⟨hnew.1, hnames⟩
        have hrest := ih hsnoc
        rw [List.append_assoc, List.singleton_append] at hrest
        exact hrest
      case isFalse => exact ih hnames

/-- A second visit finds nothing to add. -/
theorem fresh_again {allow : α → Bool} {names visited visited' : List α}
    (hsame : ∀ a, a ∈ visited' → a ∈ visited) :
    fresh allow (names ++ fresh allow names visited) visited' = [] := by
  rw [List.eq_nil_iff_forall_not_mem]
  intro a ha
  rw [mem_fresh, List.mem_append, mem_fresh] at ha
  obtain ⟨hvisited, hold, hallow⟩ := ha
  apply hold
  by_cases hnames : a ∈ names
  · exact Or.inl hnames
  · exact Or.inr ⟨hsame a hvisited, hnames, hallow⟩

/-- What is added, from a list that is visited in some order. -/
theorem fresh_perm {allow : α → Bool} {names visited source : List α} (hsource : source.Nodup)
    (hnames : names.Nodup) (hvisited : ∀ a, a ∈ visited ↔ a ∈ source)
    (hallow : ∀ a ∈ source, allow a = true) :
    (fresh allow names visited).Perm (source.filter fun a => a ∉ names) := by
  have hfresh : (fresh allow names visited).Nodup :=
    (List.nodup_append.mp (nodup_append_fresh hnames visited)).2.1
  rw [List.perm_ext_iff_of_nodup hfresh (hsource.filter _)]
  intro a
  rw [mem_fresh, List.mem_filter, decide_eq_true_eq, hvisited]
  constructor
  · rintro ⟨hmem, hnew, -⟩
    exact ⟨hmem, hnew⟩
  · rintro ⟨hmem, hnew⟩
    exact ⟨hmem, hnew, hallow a hmem⟩

end Fresh

/-! ## Names -/

/-- `tables[ "categories" ]`, which holds at most what a Lua table can.  Inserting a name
into a full one raises. -/
structure Names where
  list : List Str
  fits : list.length ≤ capacity

/-- `table.insert( tables[ "categories" ], { categoryname = name } )` -/
def Names.insert (names : Names) (name : Str) : Except LuaError Names :=
  if h : names.list.length < capacity then
    .ok ⟨names.list ++ [name], by rw [List.length_append, List.length_singleton]; exact h⟩
  else .error .call

def Names.remove (names : Names) (nr : Nat) : Names :=
  ⟨names.list.eraseIdx nr, le_trans (List.length_eraseIdx_le names.list nr) names.fits⟩

/-- `table.hasValue( tables[ "categories" ], name, "categoryname" )` -/
def Names.has (names : Names) (name : Str) : Bool := hasValue id names.list name none

theorem Names.has_iff {names : Names} {name : Str} : names.has name = true ↔ name ∈ names.list := by
  unfold Names.has
  rw [hasValue_none, List.map_id]

/-- An element of the list. -/
def category (name : Str) : LuaVal := .table [(.str (lit "categoryname"), .str name)]

/-- The list and its file. -/
structure State where
  names : Names
  file : Str

/-- `save_categories_values` -/
def saveCategoriesValues (names : Names) : Str :=
  written (serialize (seq (names.list.map category)) (lit "categories"))

def State.saved (names : Names) : State := ⟨names, saveCategoriesValues names⟩

/-! ## The operations -/

/-- An order of `spairs( tbl, "asc", field )`, for the values of the field. -/
structure Spairs (values : List Str) where
  visited : List Str
  perm : visited.Perm values
  sorted : visited.Pairwise fun a b => strLe (lower a) (lower b) = true

def fields : LuaVal → Entries
  | .table es => es
  | _ => []

/-- An order of `pairs( tbl )`.  Lua promises none, so every permutation of the entries is
one. -/
structure Pairs (tbl : LuaVal) where
  visited : Entries
  perm : visited.Perm (fields tbl)

/-- The loop of the imports, with what is inserted in `affected`. -/
def insertMissing (allow : Str → Bool) :
    Names → List Str → List Str → Except LuaError (Names × List Str)
  | names, affected, [] => .ok (names, affected)
  | names, affected, name :: visited =>
      if names.has name = false ∧ allow name = true then do
        let names ← names.insert name
        insertMissing allow names (affected ++ [name]) visited
      else insertMissing allow names affected visited

/-- The end of the imports. -/
def saveAffected (s : State) (r : Names × List Str) : State :=
  if 0 < r.2.length then .saved r.1 else { s with names := r.1 }

/-- `import_categories_tbl`, for the categories of the rules. -/
def importCategoriesTbl (s : State) {rules : List Str} (order : Spairs rules) :
    Except LuaError State := do
  let r ← insertMissing (fun name => name != []) s.names [] order.visited
  .ok (saveAffected s r)

/-- `add_category`, for the text in the dialog.  Its blanks are removed first. -/
def addCategory (s : State) (text : Str) : Except LuaError State :=
  let categoryname := trim (text.filter fun c => c != 32)
  if categoryname = [] then .ok s
  else if isSafeName categoryname = false then .ok s
  else if s.names.has categoryname then .ok s
  else do
    let names ← s.names.insert categoryname
    .ok (.saved names)

/-- `del_category`.  Without a selection it compares nil with a number.  That a
category is in use is never found: the test is `not cnt == ""`. -/
def delCategory (s : State) (selected : Option Nat) : State :=
  match selected with
  | none => s
  | some nr => if s.names.list.length ≤ nr then s else .saved (s.names.remove nr)

/-- One entry of a freshstuff file. -/
def validEntry : LuaVal × LuaVal → Bool
  | (.str id, .str name) => name != [] && name == id
  | _ => false

/-- `dialog_category_validate_event` -/
def valid (categoriesFresh : LuaVal) : Bool :=
  categoriesFresh.isTable && (fields categoriesFresh).all validEntry

def entryName : LuaVal × LuaVal → Str
  | (_, .str name) => name
  | _ => []

variable {spare : Nat}

/-- `imp_category`, for the content of the file that is picked. -/
def impCategory (loader : Loader (spare + 4)) (s : State) (content : Str)
    (order : Pairs (loader.read content)) : Except LuaError State :=
  if valid (loader.read content) = false then .ok s
  else do
    let r ← insertMissing (fun _ => true) s.names [] (order.visited.map entryName)
    .ok (saveAffected s r)

/-- The table `exp_category` fills. -/
def exported (visited : List Str) : Entries :=
  visited.foldl (fun exp name => LuaTable.set exp (.str name) (.str name)) []

/-- `exp_category`: what it writes. -/
def expCategory {names : List Str} (order : Spairs names) : Str :=
  written (serialize (exported order.visited) [])

inductive Op (loader : Loader (spare + 4)) where
  | importTbl {rules : List Str} (order : Spairs rules)
  | add (text : Str)
  | del (selected : Option Nat)
  | imp (content : Str) (order : Pairs (loader.read content))

def step {loader : Loader (spare + 4)} (s : State) : Op loader → Except LuaError State
  | .importTbl order => importCategoriesTbl s order
  | .add text => addCategory s text
  | .del selected => .ok (delCategory s selected)
  | .imp content order => impCategory loader s content order

def run {loader : Loader (spare + 4)} (s : State) : List (Op loader) → Except LuaError State
  | [] => .ok s
  | op :: ops => (step s op).bind fun s => run s ops

/-- How many names an operation may insert. -/
def Op.candidates {loader : Loader (spare + 4)} : Op loader → Nat
  | .importTbl order => order.visited.length
  | .add _ => 1
  | .del _ => 0
  | .imp _ order => order.visited.length

/-- A list without duplicates and without an empty name, that is the list on disk.  Every
operation keeps this. -/
structure Consistent (loader : Loader (spare + 4)) (s : State) : Prop where
  nodup : s.names.list.Nodup
  named : [] ∉ s.names.list
  equal : stored loader s.file = some (s.names.list.map category)

/-! ## The file -/

theorem storable_category (name : Str) : Storable (category name) := by
  refine .table ⟨List.pairwise_singleton _ _, Or.inl rfl⟩ ?_
  intro e he
  rw [List.mem_singleton.mp he]
  exact .str name

theorem levels_category (name : Str) : levels (category name) = 2 := by
  simp [category, levels, fieldLevels, keyLevels]

theorem map_normal_category (names : List Str) :
    (names.map category).map normal = names.map category := by
  rw [List.map_map]
  apply List.map_congr_left
  intro name _
  rfl

/-- What is saved is read back as it was: the names, in their order. -/
theorem stored_saveCategoriesValues (loader : Loader (spare + 4)) (names : Names) :
    stored loader (saveCategoriesValues names) = some (names.list.map category) := by
  have hname : Identifier (lit "categories") := by
    constructor
    · decide
    · decide
  have hlen : (names.list.map category).length ≤ capacity := by
    rw [List.length_map]
    exact names.fits
  have hstorable : ∀ v ∈ names.list.map category, Storable v := by
    intro v hv
    obtain ⟨name, -, rfl⟩ := List.mem_map.mp hv
    exact storable_category name
  have hlevels : ∀ v ∈ names.list.map category, levels v + 2 ≤ spare + 4 := by
    intro v hv
    obtain ⟨name, -, rfl⟩ := List.mem_map.mp hv
    rw [levels_category]
    omega
  obtain ⟨file, hfile, -, hstored⟩ :=
    stored_serialize loader hlen hstorable hlevels (by omega) hname (by decide)
  unfold saveCategoriesValues
  rw [hfile]
  show stored loader file = _
  rw [hstored, map_normal_category]

theorem consistent_saved (loader : Loader (spare + 4)) {names : Names} (hnodup : names.list.Nodup)
    (hnamed : [] ∉ names.list) : Consistent loader (.saved names) where
  nodup := hnodup
  named := hnamed
  equal := stored_saveCategoriesValues loader names

/-! ## The loop of the imports -/

/-- Where there is room, a name goes to the end of the list. -/
theorem Names.insert_ok {names names' : Names} {name : Str} (h : names.insert name = .ok names') :
    names'.list = names.list ++ [name] := by
  unfold Names.insert at h
  split at h
  case isTrue =>
    injection h with h
    rw [← h]
  case isFalse => cases h

theorem Names.insert_returns (names : Names) (h : names.list.length < capacity) (name : Str) :
    ∃ names', names.insert name = .ok names' := by
  unfold Names.insert
  rw [dif_pos h]
  exact ⟨_, rfl⟩

theorem Names.has_false {names : Names} {name : Str} :
    names.has name = false ↔ name ∉ names.list := by
  rw [← Names.has_iff, Bool.not_eq_true]

/-- What the loop leaves behind. -/
theorem insertMissing_ok {allow : Str → Bool} {visited : List Str} :
    ∀ {names : Names} {affected : List Str} {r : Names × List Str},
      insertMissing allow names affected visited = .ok r →
        r.1.list = names.list ++ fresh allow names.list visited ∧
          r.2 = affected ++ fresh allow names.list visited := by
  induction visited with
  | nil =>
      intro names affected r h
      unfold insertMissing at h
      injection h with h
      rw [← h, fresh, List.append_nil, List.append_nil]
      exact ⟨rfl, rfl⟩
  | cons name visited ih =>
      intro names affected r h
      unfold insertMissing at h
      unfold fresh
      split at h
      case isTrue hnew =>
        rw [Names.has_false] at hnew
        rw [if_pos hnew]
        cases hinsert : names.insert name with
        | error e => rw [hinsert] at h; cases h
        | ok names' =>
            rw [hinsert] at h
            obtain ⟨hlist, haffected⟩ := ih h
            rw [Names.insert_ok hinsert, List.append_assoc, List.singleton_append] at hlist
            rw [Names.insert_ok hinsert, List.append_assoc, List.singleton_append] at haffected
            exact ⟨hlist, haffected⟩
      case isFalse hold =>
        rw [Names.has_false] at hold
        rw [if_neg hold]
        exact ih h

/-- It comes to its end where there is room. -/
theorem insertMissing_returns (allow : Str → Bool) {visited : List Str} :
    ∀ {names : Names} (affected : List Str), names.list.length + visited.length ≤ capacity →
      ∃ r, insertMissing allow names affected visited = .ok r := by
  induction visited with
  | nil =>
      intro names affected _
      exact ⟨_, rfl⟩
  | cons name visited ih =>
      intro names affected hroom
      rw [List.length_cons] at hroom
      unfold insertMissing
      split
      case isTrue =>
        obtain ⟨names', hinsert⟩ := names.insert_returns (by omega) name
        have hroom' : names'.list.length + visited.length ≤ capacity := by
          rw [Names.insert_ok hinsert, List.length_append, List.length_singleton]
          omega
        rw [hinsert]
        exact ih (affected ++ [name]) hroom'
      case isFalse => exact ih affected (by omega)

theorem names_saveAffected (s : State) (r : Names × List Str) :
    (saveAffected s r).names = r.1 := by
  unfold saveAffected
  split
  · rfl
  · rfl

/-- A list with the same names is the same list. -/
theorem State.eq_of_list {s : State} {names : Names} (h : names.list = s.names.list) :
    { s with names := names } = s := by
  cases s with
  | mk old file =>
      cases old with
      | mk list fits =>
          cases names with
          | mk list' fits' =>
              have hlist : list' = list := h
              subst hlist
              rfl

/-- An import that finds nothing changes nothing. -/
theorem saveAffected_nil {s : State} {r : Names × List Str} (hlist : r.1.list = s.names.list)
    (haffected : r.2 = []) : saveAffected s r = s := by
  unfold saveAffected
  rw [haffected, if_neg (by simp)]
  exact State.eq_of_list hlist

/-- An import ends in a consistent window: it saves if it has inserted something, and if it
has not, the file is right as it is. -/
theorem Consistent.saveAffected {loader : Loader (spare + 4)} {s : State}
    (h : Consistent loader s) {allow : Str → Bool} {visited : List Str} {r : Names × List Str}
    (hr : insertMissing allow s.names [] visited = .ok r)
    (hallow : ∀ name ∈ visited, allow name = true → name ≠ []) :
    Consistent loader (saveAffected s r) := by
  obtain ⟨hlist, haffected⟩ := insertMissing_ok hr
  rw [List.nil_append] at haffected
  by_cases hnone : fresh allow s.names.list visited = []
  case pos =>
    rw [hnone, List.append_nil] at hlist
    rw [hnone] at haffected
    rw [saveAffected_nil hlist haffected]
    exact h
  case neg =>
    have hpos : 0 < r.2.length := by
      rw [haffected]
      exact List.length_pos_of_ne_nil hnone
    unfold Categories.saveAffected
    rw [if_pos hpos]
    apply consistent_saved
    · rw [hlist]
      exact nodup_append_fresh h.nodup visited
    · rw [hlist, List.mem_append, mem_fresh]
      rintro (hold | ⟨hvisited, -, hallowed⟩)
      · exact h.named hold
      · exact hallow [] hvisited hallowed rfl

/-! ## One operation -/

/-- No name is empty in a file that the dialog takes for valid. -/
theorem entryName_of_valid {tbl : LuaVal} (h : valid tbl = true) {order : Pairs tbl} {name : Str}
    (hname : name ∈ order.visited.map entryName) : name ≠ [] := by
  obtain ⟨e, he, rfl⟩ := List.mem_map.mp hname
  unfold valid at h
  rw [Bool.and_eq_true, List.all_eq_true] at h
  have hvalid := h.2 e (order.perm.mem_iff.mp he)
  unfold validEntry at hvalid
  split at hvalid
  · rw [Bool.and_eq_true, bne_iff_ne] at hvalid
    exact hvalid.1
  · cases hvalid

/-- An import from the rules that returns has inserted what was missing and saved it. -/
theorem importCategoriesTbl_ok {s s' : State} {rules : List Str} {order : Spairs rules}
    (h : importCategoriesTbl s order = .ok s') :
    ∃ r, insertMissing (fun name => name != []) s.names [] order.visited = .ok r ∧
      s' = saveAffected s r := by
  unfold importCategoriesTbl at h
  cases hr : insertMissing (fun name => name != []) s.names [] order.visited with
  | error e => rw [hr] at h; cases h
  | ok r =>
      rw [hr] at h
      injection h with h
      exact ⟨r, rfl, h.symm⟩

/-- So has an import from a file, if the dialog takes it; otherwise nothing has happened. -/
theorem impCategory_ok {loader : Loader (spare + 4)} {s s' : State} {content : Str}
    {order : Pairs (loader.read content)} (h : impCategory loader s content order = .ok s') :
    (valid (loader.read content) = false ∧ s' = s) ∨
      valid (loader.read content) = true ∧
        ∃ r, insertMissing (fun _ => true) s.names [] (order.visited.map entryName) = .ok r ∧
          s' = saveAffected s r := by
  unfold impCategory at h
  split at h
  case isTrue hinvalid =>
    injection h with h
    exact Or.inl ⟨hinvalid, h.symm⟩
  case isFalse hvalid =>
    rw [Bool.not_eq_false] at hvalid
    right
    refine ⟨hvalid, ?_⟩
    cases hr : insertMissing (fun _ => true) s.names [] (order.visited.map entryName) with
    | error e => rw [hr] at h; cases h
    | ok r =>
        rw [hr] at h
        injection h with h
        exact ⟨r, rfl, h.symm⟩

/-- A name from the user is inserted if it is safe, not empty and not there. -/
theorem addCategory_ok {s s' : State} {text : Str} (h : addCategory s text = .ok s') :
    let categoryname := trim (text.filter fun c => c != 32)
    (s' = s ∧ (isSafeName categoryname = true → categoryname ≠ [] →
      categoryname ∈ s.names.list)) ∨
    (categoryname ≠ [] ∧ isSafeName categoryname = true ∧ categoryname ∉ s.names.list ∧
      ∃ names, s.names.insert categoryname = .ok names ∧ s' = .saved names) := by
  intro categoryname
  simp only [Categories.addCategory] at h
  split at h
  case isTrue hempty =>
    injection h with h
    exact Or.inl ⟨h.symm, fun _ hname => absurd hempty hname⟩
  case isFalse hname =>
    split at h
    case isTrue hunsafe =>
      injection h with h
      left
      refine ⟨h.symm, fun hsafe _ => ?_⟩
      rw [hsafe] at hunsafe
      cases hunsafe
    case isFalse hsafe =>
      split at h
      case isTrue htaken =>
        injection h with h
        exact Or.inl ⟨h.symm, fun _ _ => Names.has_iff.mp htaken⟩
      case isFalse hfree =>
        rw [Bool.not_eq_true, Names.has_false] at hfree
        rw [Bool.not_eq_false] at hsafe
        cases hinsert : s.names.insert (trim (text.filter fun c => c != 32)) with
        | error e => rw [hinsert] at h; cases h
        | ok names =>
            rw [hinsert] at h
            injection h with h
            exact Or.inr ⟨hname, hsafe, hfree, names, rfl, h.symm⟩

/-- A removal does nothing, or removes one name and saves. -/
theorem delCategory_cases (s : State) (selected : Option Nat) :
    delCategory s selected = s ∨ ∃ nr, delCategory s selected = .saved (s.names.remove nr) := by
  unfold Categories.delCategory
  cases selected with
  | none => exact Or.inl rfl
  | some nr =>
      by_cases hrange : s.names.list.length ≤ nr
      case pos => exact Or.inl (if_pos hrange)
      case neg => exact Or.inr ⟨nr, if_neg hrange⟩

theorem Names.mem_of_mem_remove {names : Names} {nr : Nat} {name : Str}
    (h : name ∈ (names.remove nr).list) : name ∈ names.list :=
  List.mem_of_mem_eraseIdx h

/-- A name from the user keeps the window consistent. -/
theorem Consistent.addCategory {loader : Loader (spare + 4)} {s s' : State}
    (h : Consistent loader s) {text : Str} (hadd : addCategory s text = .ok s') :
    Consistent loader s' := by
  rcases addCategory_ok hadd with ⟨rfl, -⟩ | ⟨hname, -, hfree, names, hinsert, rfl⟩
  · exact h
  · apply consistent_saved
    · rw [Names.insert_ok hinsert, List.nodup_append_comm, List.singleton_append, List.nodup_cons]
      exact ⟨hfree, h.nodup⟩
    · rw [Names.insert_ok hinsert, List.mem_append, List.mem_singleton]
      rintro (hold | hnew)
      · exact h.named hold
      · exact hname hnew.symm

/-- So does a removal. -/
theorem Consistent.delCategory {loader : Loader (spare + 4)} {s : State}
    (h : Consistent loader s) (selected : Option Nat) :
    Consistent loader (delCategory s selected) := by
  rcases delCategory_cases s selected with hsame | ⟨nr, hremoved⟩
  · rw [hsame]
    exact h
  · rw [hremoved]
    apply consistent_saved
    · exact h.nodup.sublist (List.eraseIdx_sublist s.names.list nr)
    · exact fun hmem => h.named (Names.mem_of_mem_remove hmem)

/-- Every operation keeps the list what it is. -/
theorem Consistent.step {loader : Loader (spare + 4)} {s s' : State} (h : Consistent loader s)
    {op : Op loader} (hstep : step s op = .ok s') : Consistent loader s' := by
  cases op with
  | importTbl order =>
      obtain ⟨r, hr, rfl⟩ := importCategoriesTbl_ok hstep
      apply h.saveAffected hr
      intro name _ hallow
      exact bne_iff_ne.mp hallow
  | add text => exact h.addCategory hstep
  | del selected =>
      injection hstep with hstep
      rw [← hstep]
      exact h.delCategory selected
  | imp content order =>
      rcases impCategory_ok hstep with ⟨-, rfl⟩ | ⟨hvalid, r, hr, rfl⟩
      · exact h
      · apply h.saveAffected hr
        intro name hname _
        exact entryName_of_valid hvalid hname

/-- An operation that has room for what it inserts does not raise. -/
theorem step_returns {loader : Loader (spare + 4)} {s : State} {op : Op loader}
    (hroom : s.names.list.length + op.candidates ≤ capacity) : ∃ s', step s op = .ok s' := by
  cases op with
  | importTbl order =>
      obtain ⟨r, hr⟩ := insertMissing_returns (fun name => name != []) [] hroom
      refine ⟨saveAffected s r, ?_⟩
      simp only [step, importCategoriesTbl, hr]
      rfl
  | add text =>
      simp only [step, addCategory]
      split
      case isTrue => exact ⟨s, rfl⟩
      case isFalse =>
        split
        case isTrue => exact ⟨s, rfl⟩
        case isFalse =>
          split
          case isTrue => exact ⟨s, rfl⟩
          case isFalse =>
            obtain ⟨names, hnames⟩ := s.names.insert_returns hroom
              (trim (text.filter fun c => c != 32))
            rw [hnames]
            exact ⟨.saved names, rfl⟩
  | del selected => exact ⟨delCategory s selected, rfl⟩
  | imp content order =>
      have hlen : s.names.list.length + (order.visited.map entryName).length ≤ capacity := by
        rw [List.length_map]
        exact hroom
      obtain ⟨r, hr⟩ := insertMissing_returns (fun _ => true) [] hlen
      by_cases hvalid : valid (loader.read content) = false
      case pos => exact ⟨s, if_pos hvalid⟩
      case neg =>
        refine ⟨saveAffected s r, ?_⟩
        simp only [step, impCategory, if_neg hvalid, hr]
        rfl

/-- And a whole run of operations, by induction on its list. -/
theorem Consistent.run {loader : Loader (spare + 4)} {ops : List (Op loader)} {s s' : State}
    (h : Consistent loader s) (hrun : run s ops = .ok s') : Consistent loader s' := by
  induction ops generalizing s with
  | nil =>
      injection hrun with hrun
      rw [← hrun]
      exact h
  | cons op ops ih =>
      unfold Categories.run at hrun
      cases hstep : Categories.step s op with
      | error e => rw [hstep] at hrun; cases hrun
      | ok s₁ =>
          rw [hstep] at hrun
          exact ih (h.step hstep) hrun

/-! ## The start-up import -/

/-- The names behind an import, in the words of `fresh`. -/
theorem names_importCategoriesTbl {s s' : State} {rules : List Str} {order : Spairs rules}
    (h : importCategoriesTbl s order = .ok s') :
    s'.names.list =
      s.names.list ++ fresh (fun name => name != []) s.names.list order.visited := by
  obtain ⟨r, hr, rfl⟩ := importCategoriesTbl_ok h
  rw [names_saveAffected]
  exact (insertMissing_ok hr).1

/-- The loop, where nothing is missing. -/
theorem insertMissing_nil {allow : Str → Bool} {names : Names} (affected : List Str) :
    ∀ {visited : List Str}, fresh allow names.list visited = [] →
      insertMissing allow names affected visited = .ok (names, affected) := by
  intro visited
  induction visited with
  | nil => intro _; rfl
  | cons name visited ih =>
      intro hnone
      have hold : ¬ (names.has name = false ∧ allow name = true) := by
        rw [Names.has_false]
        intro hnew
        have hmem : name ∈ fresh allow names.list (name :: visited) :=
          mem_fresh.mpr ⟨List.mem_cons_self, hnew⟩
        rw [hnone] at hmem
        cases hmem
      have hrest : fresh allow names.list visited = [] := by
        rw [List.eq_nil_iff_forall_not_mem] at hnone ⊢
        intro a ha
        have hmem := mem_fresh.mp ha
        exact hnone a (mem_fresh.mpr ⟨List.mem_cons_of_mem _ hmem.1, hmem.2⟩)
      unfold insertMissing
      rw [if_neg hold]
      exact ih hrest

/-- Behind the import every category of a rule is there, and another import has
nothing to do. -/
theorem importCategoriesTbl_complete {s s' : State} {rules : List Str} {order : Spairs rules}
    (h : importCategoriesTbl s order = .ok s') :
    (∀ name ∈ rules, name ≠ [] → name ∈ s'.names.list) ∧
      s.names.list <+: s'.names.list ∧
      ∀ again : Spairs rules, importCategoriesTbl s' again = .ok s' := by
  have hnames := names_importCategoriesTbl h
  refine ⟨?_, ?_, ?_⟩
  · intro name hname hne
    rw [hnames, List.mem_append]
    by_cases hold : name ∈ s.names.list
    case pos => exact Or.inl hold
    case neg =>
      right
      exact mem_fresh.mpr ⟨order.perm.mem_iff.mpr hname, hold, bne_iff_ne.mpr hne⟩
  · rw [hnames]
    exact List.prefix_append _ _
  · intro again
    have hnone : fresh (fun name => name != []) s'.names.list again.visited = [] := by
      rw [hnames]
      apply fresh_again
      intro name hname
      exact order.perm.mem_iff.mpr (again.perm.mem_iff.mp hname)
    unfold importCategoriesTbl
    rw [insertMissing_nil [] hnone]
    exact congrArg Except.ok (saveAffected_nil rfl rfl)

/-! ## The exchange -/

/-- The entry of a name in a freshstuff file. -/
def entry (name : Str) : LuaVal × LuaVal := (.str name, .str name)

/-- Where the names are distinct, the exporting loop makes one entry of each. -/
theorem foldl_set_entry {visited : List Str} :
    ∀ (names : List Str), (names ++ visited).Nodup →
      visited.foldl (fun exp name => LuaTable.set exp (.str name) (.str name)) (names.map entry) =
        (names ++ visited).map entry := by
  induction visited with
  | nil =>
      intro names _
      rw [List.append_nil]
      rfl
  | cons name visited ih =>
      intro names hnodup
      have hnew : ∀ e ∈ names.map entry, LuaTable.sameKey e.1 (.str name) = false := by
        intro e he
        obtain ⟨old, hold, rfl⟩ := List.mem_map.mp he
        rw [Bool.eq_false_iff]
        intro hsame
        have heq : old = name := LuaTable.sameKey_str.mp hsame
        exact (List.nodup_append.mp hnodup).2.2 old hold name List.mem_cons_self heq
      have hset : LuaTable.set (names.map entry) (.str name) (.str name) =
          (names ++ [name]).map entry := by
        rw [LuaTable.set_of_notMem (by simp) hnew, List.map_append]
        rfl
      rw [List.append_cons] at hnodup ⊢
      rw [List.foldl_cons, hset]
      exact ih _ hnodup

theorem exported_eq {visited : List Str} (h : visited.Nodup) :
    exported visited = visited.map entry :=
  foldl_set_entry [] h

/-- So what it has made can be written to a file and read back. -/
theorem storable_exported {visited : List Str} (h : visited.Nodup) :
    Storable (.table (visited.map entry)) := by
  refine .table ⟨?_, Or.inl ?_⟩ ?_
  · rw [List.map_map, List.pairwise_map]
    apply List.Pairwise.imp ?_ h
    intro a b hne
    rw [Bool.eq_false_iff]
    intro hsame
    exact hne (LuaTable.sameKey_str.mp hsame)
  · rw [List.map_map, List.all_map, List.all_eq_true]
    intro name _
    rfl
  · intro e he
    obtain ⟨name, -, rfl⟩ := List.mem_map.mp he
    exact .str name

/-- What another window finds in an exported file. -/
theorem read_expCategory (loader : Loader (spare + 4)) {names : List Str} (hnodup : names.Nodup)
    (order : Spairs names) :
    ∃ es, loader.read (expCategory order) = .table es ∧ es.Perm (names.map entry) := by
  have hvisited : order.visited.Nodup := order.perm.nodup_iff.mpr hnodup
  have hlevels : levels (.table (order.visited.map entry)) < spare + 4 := by
    have hfields : fieldLevels (order.visited.map entry) ≤ 1 := by
      rw [fieldLevels_le]
      intro e he
      obtain ⟨name, -, rfl⟩ := List.mem_map.mp he
      simp [entry, keyLevels, levels]
    rw [levels]
    omega
  obtain ⟨text, htext, hread⟩ := loader.read_serialize (storable_exported hvisited)
    (Or.inr rfl) (by decide) hlevels
  have hfile : expCategory order = text := by
    unfold expCategory
    rw [exported_eq hvisited, htext]
    rfl
  have hnormal : (sortKeys (order.visited.map entry)).map (fun e => (e.1, normal e.2)) =
      sortKeys (order.visited.map entry) := by
    have hid : ∀ e ∈ sortKeys (order.visited.map entry), (e.1, normal e.2) = id e := by
      intro e he
      obtain ⟨name, -, rfl⟩ := List.mem_map.mp (LuaTable.mem_sortKeys.mp he)
      rfl
    rw [List.map_congr_left hid, List.map_id]
  refine ⟨sortKeys (order.visited.map entry), ?_, ?_⟩
  · rw [hfile, hread, LuaTable.normal_table, hnormal]
  · exact (LuaTable.perm_sortKeys _).trans (order.perm.map entry)

/-- A list that is exported and imported joins the other as a set would. -/
theorem impCategory_expCategory {loader : Loader (spare + 4)} {s s' : State}
    (h : Consistent loader s) {names : List Str} (hnodup : names.Nodup) (hnamed : [] ∉ names)
    (order : Spairs names) {pairs : Pairs (loader.read (expCategory order))}
    (himp : impCategory loader s (expCategory order) pairs = .ok s') :
    ∃ added, added.Perm (names.filter fun name => name ∉ s.names.list) ∧
      s'.names.list = s.names.list ++ added := by
  obtain ⟨es, hread, hperm⟩ := read_expCategory loader hnodup order
  have hvalid : valid (loader.read (expCategory order)) = true := by
    unfold valid
    rw [hread, Bool.and_eq_true, List.all_eq_true]
    refine ⟨rfl, ?_⟩
    intro e he
    obtain ⟨name, hname, rfl⟩ := List.mem_map.mp (hperm.mem_iff.mp he)
    have hne : name ≠ [] := fun hnil => hnamed (hnil ▸ hname)
    simp [entry, validEntry, hne]
  have hvisited : ∀ name, name ∈ pairs.visited.map entryName ↔ name ∈ names := by
    have hpairs : pairs.visited.Perm (names.map entry) := by
      have hfields : fields (loader.read (expCategory order)) = es := by rw [hread]; rfl
      exact (hfields ▸ pairs.perm).trans hperm
    intro name
    rw [(hpairs.map entryName).mem_iff, List.map_map]
    exact iff_of_eq (congrArg _ (List.map_id names))
  rcases impCategory_ok himp with ⟨hinvalid, -⟩ | ⟨-, r, hr, rfl⟩
  · rw [hvalid] at hinvalid
    cases hinvalid
  · refine ⟨_, fresh_perm hnodup h.nodup hvisited fun _ _ => rfl, ?_⟩
    rw [names_saveAffected]
    exact (insertMissing_ok hr).1

/-- **The categories are a list without duplicates.**  Any run keeps them one,
equal on disk, and can go on where there is room for what comes; behind a
start-up import every category of the rules is there; and what another window has
exported is added as far as it is missing. -/
theorem categories_run (loader : Loader (spare + 4)) (s s' : State) (ops : List (Op loader))
    (h : Consistent loader s) (hrun : run s ops = .ok s') :
    Consistent loader s' ∧
    (∀ op : Op loader, s'.names.list.length + op.candidates ≤ capacity →
      ∃ s'', step s' op = .ok s'') ∧
    (∀ (rules : List Str) (order : Spairs rules) (s'' : State),
      importCategoriesTbl s' order = .ok s'' →
        (∀ name ∈ rules, name ≠ [] → name ∈ s''.names.list) ∧
        s'.names.list <+: s''.names.list ∧
        ∀ again : Spairs rules, importCategoriesTbl s'' again = .ok s'') ∧
    (∀ (names : List Str), names.Nodup → [] ∉ names → ∀ (order : Spairs names)
      (pairs : Pairs (loader.read (expCategory order))) (s'' : State),
      impCategory loader s' (expCategory order) pairs = .ok s'' →
        ∃ added, added.Perm (names.filter fun name => name ∉ s'.names.list) ∧
          s''.names.list = s'.names.list ++ added) := by
  have h' := h.run hrun
  refine ⟨h', ?_, ?_, ?_⟩
  · intro op hroom
    exact step_returns hroom
  · intro rules order s'' himport
    exact importCategoriesTbl_complete himport
  · intro names hnodup hnamed order pairs s'' himp
    exact impCategory_expCategory h' hnodup hnamed order himp

/-- One category. -/
def oneCategory (name : Str) : State :=
  .saved ⟨[name], by rw [List.length_singleton]; decide⟩

/-- The order in which the fields are stored. -/
def inOrder (tbl : LuaVal) : Pairs tbl := ⟨fields tbl, List.Perm.refl _⟩

/-- What two other windows export. -/
def firstWindow : Spairs [lit "TV", lit "0day"] :=
  ⟨[lit "0day", lit "TV"], List.Perm.swap _ _ _, by decide⟩

def secondWindow : Spairs [lit "xvid", lit "mp3"] :=
  ⟨[lit "mp3", lit "xvid"], List.Perm.swap _ _ _, by decide⟩

/-- Two rules with a category, of which one is new, a category with a blank, the first
category is deleted, and the file of another window is imported. -/
def visits : List (Op (dataLoader 4)) :=
  [.importTbl ⟨[lit "TV", lit "xvid"], List.Perm.refl _, by decide⟩, .add (lit "x 264"),
    .del (some 0), .imp (expCategory firstWindow) (inOrder _)]

/-- That run, and behind it the file of the second window, which has one new category. -/
theorem categories_run_one :
    ∃ s' s'', run (oneCategory (lit "tv")) visits = .ok s' ∧
      s'.names.list = [lit "TV", lit "xvid", lit "x264", lit "0day"] ∧
      Consistent (dataLoader 4) s' ∧
      impCategory (dataLoader 4) s' (expCategory secondWindow) (inOrder _) = .ok s'' ∧
      s''.names.list = [lit "TV", lit "xvid", lit "x264", lit "0day", lit "mp3"] := by
  have hconsistent : Consistent (dataLoader 4) (oneCategory (lit "tv")) :=
    consistent_saved (dataLoader 4) (List.nodup_singleton _) (by decide)
  have hends : (run (oneCategory (lit "tv")) visits).toOption.map (·.names.list) =
      some [lit "TV", lit "xvid", lit "x264", lit "0day"] := by
    decide +kernel
  cases hrun : run (oneCategory (lit "tv")) visits with
  | error err =>
      rw [hrun] at hends
      cases hends
  | ok s' =>
      have hlist : s'.names.list = [lit "TV", lit "xvid", lit "x264", lit "0day"] := by
        rw [hrun] at hends
        exact Option.some.inj hends
      obtain ⟨hkept, hroom, -, hexchange⟩ :=
        categories_run (dataLoader 4) (oneCategory (lit "tv")) s' visits hconsistent hrun
      obtain ⟨s'', himp⟩ := hroom (.imp (expCategory secondWindow) (inOrder _))
        (by rw [hlist]; decide +kernel)
      obtain ⟨added, hadded, hjoined⟩ :=
        hexchange _ (by decide) (by decide) secondWindow (inOrder _) s'' himp
      have hnew : [lit "xvid", lit "mp3"].filter (fun name => name ∉ s'.names.list) =
          [lit "mp3"] := by
        rw [hlist]
        decide
      rw [hnew, List.perm_singleton] at hadded
      rw [hlist, hadded] at hjoined
      exact ⟨s', s'', rfl, hlist, hkept, himp, hjoined⟩

end LuadchAnnouncer.Frontends.Categories
