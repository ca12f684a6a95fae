import Mathlib.Data.List.InsertIdx
import LuadchAnnouncer.Verified.LuaRecord
import LuadchAnnouncer.Frontends.GuiTables

/-!
# The rules in memory and on disk

The window keeps the rules twice.  Edits and renames go to `tables[ "rules" ]`
and wait there for a save, which writes the whole of it.  `add_rule`,
`clone_rule` and `del_rule` change the list in memory and then the file, which
they load, change and write back by themselves.

`Entry` is what both lists are about: a rule as it is now, and as it was when it
was saved or inserted last.  `aligned` says that after any run memory is the
first column of one list of entries and the file the second.  For the names on
disk that is not enough: the name of a rule is compared with the names in memory
and goes to the file.

Files can be written.  The tag lists a clone has in common with its original are
edited in all the rules that refer to them at once.

## Main results

* `stored_updateSavedRulesValues` — what a change of the file makes of what was in it.
* `Represents.step`, `Represents.run` — every operation does to memory and file what it
  does to the entries.
* `aligned` — the two columns over any run.
* `distinct_step`, `staysDistinct_iff` — the names of the second column.
* `staysDistinct_fails` — two rules on disk with one name.
-/

namespace LuadchAnnouncer.Frontends.RuleFile

open LuadchAnnouncer.Verified
open LuadchAnnouncer.Verified.Bytes
open LuadchAnnouncer.Verified.LuaValue
open LuadchAnnouncer.Verified.LuaTable (Entries normal seq)
open LuadchAnnouncer.Verified.LuaData
open LuadchAnnouncer.Verified.LuaRecord
open LuadchAnnouncer.Core.Util
open LuadchAnnouncer.Frontends.GuiTables

/-! ## Rules -/

/-- A value a rule may hold.  `spare` is what is left of the C stack behind the
tables of a new rule. -/
structure Value (spare : Nat) where
  val : LuaVal
  storable : Storable val
  shallow : levels val ≤ spare + 2

/-- A rule: a table with a name, that can be stored as an element of the file. -/
structure Rule (spare : Nat) where
  fields : Entries
  record : Record fields
  shallow : levels (.table fields) ≤ spare + 3
  rulename : Str
  named : field (.table fields) (lit "rulename") = .str rulename

/-- The fields besides the name. -/
abbrev Other := { name : Str // name ≠ lit "rulename" }

variable {spare : Nat}

def text (s : Str) : Value spare := ⟨.str s, .str s, by simp [levels]⟩

/-- `rule[ name ] = value` -/
def Rule.set (rule : Rule spare) (name : Other) (value : Value spare) : Rule spare where
  fields := LuaTable.set rule.fields (.str name.1) value.val
  record := rule.record.set name.1 value.storable
  shallow := levels_set value.storable.ne_nil rule.shallow value.shallow (by omega)
  rulename := rule.rulename
  named := by rw [field_set_of_ne value.storable.ne_nil rule.fields name.2, rule.named]

/-- `rule.rulename = rulename` -/
def Rule.rename (rule : Rule spare) (rulename : Str) : Rule spare where
  fields := LuaTable.set rule.fields (.str (lit "rulename")) (.str rulename)
  record := rule.record.set (lit "rulename") (.str rulename)
  shallow := levels_set (by simp) rule.shallow (by simp [levels]) (by omega)
  rulename := rulename
  named := field_set_self (by simp) rule.fields (lit "rulename")

/-- What the file holds of a rule. -/
def Rule.disk (rule : Rule spare) : LuaVal := normal (.table rule.fields)

/-- The table `add_rule` makes. -/
def newFields : Entries :=
  [(.str (lit "active"), .bool false),
    (.str (lit "alibicheck"), .bool false),
    (.str (lit "alibinick"), .str (lit "DUMP")),
    (.str (lit "blacklist"), .table
      [(.str (lit "(incomplete)"), .bool true),
        (.str (lit "(no-sfv)"), .bool true),
        (.str (lit "(nuked)"), .bool true)]),
    (.str (lit "category"), .str []),
    (.str (lit "command"), .str (lit "+addrel")),
    (.str (lit "daydirscheme"), .bool false),
    (.str (lit "path"), .str (lit "C:/your/path/to/announce")),
    (.str (lit "rulename"), .str []),
    (.str (lit "whitelist"), .table []),
    (.str (lit "zeroday"), .bool false),
    (.str (lit "checkdirs"), .bool true),
    (.str (lit "checkdirsnfo"), .bool false),
    (.str (lit "checkdirssfv"), .bool false),
    (.str (lit "checkfiles"), .bool false),
    (.str (lit "checkspaces"), .bool true),
    (.str (lit "checkage"), .bool false),
    (.str (lit "maxage"), .num (.int 0))]

/-- The table of a new rule can be written to a file: its keys are names, and distinct. -/
theorem record_newFields : Record newFields := by
  have hwhitelist : Storable (.table []) := .table ⟨by simp, by simp⟩ (by simp)
  have hblacklist : Storable (.table [(.str (lit "(incomplete)"), .bool true),
      (.str (lit "(no-sfv)"), .bool true), (.str (lit "(nuked)"), .bool true)]) := by
    refine .table ⟨by decide, by decide⟩ ?_
    intro e he
    simp only [List.mem_cons, List.not_mem_nil, or_false] at he
    rcases he with rfl | rfl | rfl
    all_goals exact .bool true
  refine ⟨.table ⟨by decide, by decide +kernel⟩ ?_, by decide +kernel⟩
  intro e he
  simp only [newFields, List.mem_cons, List.not_mem_nil, or_false] at he
  rcases he with rfl | rfl | rfl | rfl | rfl | rfl | rfl | rfl | rfl | rfl | rfl | rfl | rfl | rfl |
    rfl | rfl | rfl | rfl
  all_goals first | exact .bool _ | exact .str _ | exact hblacklist | exact hwhitelist | skip
  exact .int (by decide)

def newRule : Rule spare where
  fields := newFields
  record := record_newFields
  shallow := by
    have hlevels : levels (.table newFields) = 3 := by decide
    omega
  rulename := []
  named := by
    have hmem : (.str (lit "rulename"), .str []) ∈ newFields := by simp [newFields]
    exact get_of_mem record_newFields.keys.distinct hmem

/-- The entries of the dialog. -/
def Rule.filled (rule : Rule spare) (name category : Str) : Rule spare :=
  (rule.rename (trim name)).set ⟨lit "category", by decide⟩ (text category)

theorem Rule.category_filled (rule : Rule spare) (name category : Str) :
    field (.table (rule.filled name category).fields) (lit "category") = .str category := by
  have hne : LuaVal.str category ≠ .nil := by simp
  exact field_set_self hne (rule.rename (trim name)).fields (lit "category")

/-! ## Memory and the file -/

/-- `tables[ "rules" ]` and `cfg/rules.lua`. -/
structure State (spare : Nat) where
  rules : List (Rule spare)
  file : Str
  fits : rules.length ≤ capacity

/-- `update_saved_rules_values`, which raises before it writes where there is no
list, or no room. -/
def updateSavedRulesValues (loader : Loader (spare + 5)) (file : Str)
    (action : List LuaVal → Except LuaError (List LuaVal)) : Str :=
  match stored loader file with
  | none => file
  | some tbl =>
      match action tbl with
      | .error _ => file
      | .ok tbl => written (serialize (seq tbl) (lit "rules"))

/-- `save_rules_values` -/
def saveRulesValues (rules : List (Rule spare)) : Str :=
  written (serialize (seq (rules.map fun rule => .table rule.fields)) (lit "rules"))

/-- `validate.rule_unique_name`: whether it has nothing to say.  It decides whether
`validate.save` lets the rules through. -/
def ruleUniqueName (rules : List (Rule spare)) : Bool :=
  rules.zipIdx.all fun e => !hasValue Rule.rulename rules e.1.rulename (some e.2)

/-- The OK button of `add_rule`, for the table `t` with the entries of the dialog
in it. -/
def okAddRule (loader : Loader (spare + 5)) (s : State spare) (t : Rule spare) : State spare :=
  if t.rulename = [] then s
  else if isSafeName t.rulename = false then s
  else if hasValue Rule.rulename s.rules t.rulename none then s
  else if h : s.rules.length < capacity then
    { rules := s.rules ++ [t]
      file := updateSavedRulesValues loader s.file (tableInsert (.table t.fields))
      fits := by rw [List.length_append, List.length_singleton]; exact h }
  -- `table.insert` raises
  else s

/-- `clone_rule`, up to the OK button of the dialog it opens. -/
def cloneRule (loader : Loader (spare + 5)) (s : State spare) (selected : Option Nat)
    (name category : Str) : State spare :=
  match selected.bind fun nr => s.rules[nr]? with
  | none => s
  | some rule => okAddRule loader s (rule.filled name category)

/-- `del_rule`.  Without a selection it compares nil with a number. -/
def delRule (loader : Loader (spare + 5)) (s : State spare) (selected : Option Nat) : State spare :=
  match selected with
  | none => s
  | some nr =>
      if s.rules.length ≤ nr then s
      else if s.rules.length = 1 then s
      else
        { rules := s.rules.eraseIdx nr
          file := updateSavedRulesValues loader s.file (tableRemove nr)
          fits := le_trans (List.length_eraseIdx_le s.rules nr) s.fits }

inductive Op (spare : Nat) where
  /-- An edit of a field, in the rules that have it in common. -/
  | edit (ks : List Nat) (name : Other) (value : Value spare)
  /-- A keystroke in the name of a rule. -/
  | rename (nr : Nat) (value : Str)
  | add (name category : Str)
  | clone (selected : Option Nat) (name category : Str)
  | del (selected : Option Nat)
  | save

def editRule (ks : List Nat) (name : Other) (value : Value spare) (k : Nat) (rule : Rule spare) :
    Rule spare :=
  if k ∈ ks then rule.set name value else rule

def renameRule (nr : Nat) (value : Str) (k : Nat) (rule : Rule spare) : Rule spare :=
  if k = nr then rule.rename (trim value) else rule

/-- An assignment in memory. -/
def State.change (s : State spare) (f : Nat → Rule spare → Rule spare) : State spare where
  rules := s.rules.mapIdx f
  file := s.file
  fits := by rw [List.length_mapIdx]; exact s.fits

def step (loader : Loader (spare + 5)) (s : State spare) : Op spare → State spare
  | .edit ks name value => s.change (editRule ks name value)
  | .rename nr value => s.change (renameRule nr value)
  | .add name category => okAddRule loader s (newRule.filled name category)
  | .clone selected name category => cloneRule loader s selected name category
  | .del selected => delRule loader s selected
  | .save => if ruleUniqueName s.rules then { s with file := saveRulesValues s.rules } else s

def run (loader : Loader (spare + 5)) (s : State spare) (ops : List (Op spare)) : State spare :=
  ops.foldl (step loader) s

/-! ## Entries -/

/-- A rule as it is now, and as it was when it was saved or inserted last. -/
structure Entry (spare : Nat) where
  now : Rule spare
  saved : Rule spare

/-- Whether a rule is taken in. -/
def accepts (rules : List (Rule spare)) (t : Rule spare) : Bool :=
  !t.rulename.isEmpty && isSafeName t.rulename && !hasValue Rule.rulename rules t.rulename none &&
    decide (rules.length < capacity)

/-- The rule a dialog has to offer. -/
def offered (rules : List (Rule spare)) : Op spare → Option (Rule spare)
  | .add name category => some (newRule.filled name category)
  | .clone selected name category =>
      (selected.bind fun nr => rules[nr]?).map fun rule => rule.filled name category
  | _ => none

/-- The rule that is inserted. -/
def inserted (rules : List (Rule spare)) (op : Op spare) : Option (Rule spare) :=
  (offered rules op).filter fun t => accepts rules t

/-- The rule that is removed. -/
def removed (rules : List (Rule spare)) : Op spare → Option Nat
  | .del (some nr) => if nr < rules.length ∧ rules.length ≠ 1 then some nr else none
  | _ => none

def changeNow (f : Nat → Rule spare → Rule spare) (entries : List (Entry spare)) :
    List (Entry spare) :=
  entries.mapIdx fun k e => { e with now := f k e.now }

/-- What an operation does to the entries: a rule comes, with one value for both
columns, or goes, or its value of now changes, or is saved. -/
def entryStep (entries : List (Entry spare)) (op : Op spare) : List (Entry spare) :=
  match op with
  | .edit ks name value => changeNow (editRule ks name value) entries
  | .rename nr value => changeNow (renameRule nr value) entries
  | .save =>
      if ruleUniqueName (entries.map Entry.now) then entries.map fun e => ⟨e.now, e.now⟩
      else entries
  | .del _ =>
      match removed (entries.map Entry.now) op with
      | none => entries
      | some nr => entries.eraseIdx nr
  | _ => entries ++ ((inserted (entries.map Entry.now) op).map fun t => ⟨t, t⟩).toList

/-- What an operation does to a column of the file, where the rules in memory are
these. -/
def columnStep {β : Type} (column : Rule spare → β) (rules : List (Rule spare)) (op : Op spare)
    (saved : List β) : List β :=
  match op with
  | .edit _ _ _ => saved
  | .rename _ _ => saved
  | .save => if ruleUniqueName rules then rules.map column else saved
  | .del _ =>
      match removed rules op with
      | none => saved
      | some nr => saved.eraseIdx nr
  | _ => saved ++ ((inserted rules op).map column).toList

/-- What an operation does to the file. -/
def diskStep (rules : List (Rule spare)) (op : Op spare) (disk : List LuaVal) : List LuaVal :=
  columnStep Rule.disk rules op disk

/-- The entries behind a load. -/
def loaded (rules : List (Rule spare)) : List (Entry spare) := rules.map fun rule => ⟨rule, rule⟩

def entryRun (entries : List (Entry spare)) (ops : List (Op spare)) : List (Entry spare) :=
  ops.foldl entryStep entries

/-- Memory is the one column and the file is the other. -/
structure Represents (loader : Loader (spare + 5)) (s : State spare)
    (entries : List (Entry spare)) : Prop where
  memory : s.rules = entries.map Entry.now
  disk : stored loader s.file = some ((entries.map Entry.saved).map Rule.disk)

/-! ## What the file holds -/

theorem Rule.normal_disk (rule : Rule spare) : normal rule.disk = rule.disk :=
  rule.record.storable.normal_normal

theorem Rule.field_disk (rule : Rule spare) :
    field rule.disk (lit "rulename") = .str rule.rulename := by
  unfold Rule.disk
  rw [rule.record.field_normal, rule.named]
  rfl

/-- What can be an element of the file: a rule from memory or one from disk. -/
def Element (spare : Nat) (v : LuaVal) : Prop :=
  ∃ rule : Rule spare, v = .table rule.fields ∨ v = rule.disk

theorem Element.storable {v : LuaVal} (h : Element spare v) : Storable v := by
  obtain ⟨rule, rfl | rfl⟩ := h
  · exact rule.record.storable
  · exact rule.record.storable.normal

theorem Element.levels_le {v : LuaVal} (h : Element spare v) : levels v ≤ spare + 3 := by
  obtain ⟨rule, rfl | rfl⟩ := h
  · exact rule.shallow
  · unfold Rule.disk
    rw [levels_normal rule.record.storable]
    exact rule.shallow

theorem element_disk {saved : List (Rule spare)} {v : LuaVal} (h : v ∈ saved.map Rule.disk) :
    Element spare v := by
  obtain ⟨rule, -, rfl⟩ := List.mem_map.mp h
  exact ⟨rule, Or.inr rfl⟩

theorem map_normal_disk (saved : List (Rule spare)) :
    (saved.map Rule.disk).map normal = saved.map Rule.disk := by
  rw [List.map_map]
  apply List.map_congr_left
  intro rule _
  exact rule.normal_disk

/-- A list of rules is loaded as it was written. -/
theorem stored_written (loader : Loader (spare + 5)) {tbl : List LuaVal}
    (hlen : tbl.length ≤ capacity) (htbl : ∀ v ∈ tbl, Element spare v) :
    stored loader (written (serialize (seq tbl) (lit "rules"))) = some (tbl.map normal) := by
  have hname : Identifier (lit "rules") := by
    constructor
    · decide
    · decide
  have hstorable : ∀ v ∈ tbl, Storable v := fun v hv => (htbl v hv).storable
  have hlevels : ∀ v ∈ tbl, levels v + 2 ≤ spare + 5 := by
    intro v hv
    have hle := (htbl v hv).levels_le
    omega
  obtain ⟨file, hfile, -, hstored⟩ :=
    stored_serialize loader hlen hstorable hlevels (by omega) hname (by decide)
  rw [hfile]
  exact hstored

/-- What a save writes is read back as the rules in memory, in their order. -/
theorem stored_saveRulesValues (loader : Loader (spare + 5)) {rules : List (Rule spare)}
    (hlen : rules.length ≤ capacity) :
    stored loader (saveRulesValues rules) = some (rules.map Rule.disk) := by
  unfold saveRulesValues
  rw [stored_written loader (by rw [List.length_map]; exact hlen), List.map_map]
  · rfl
  · intro v hv
    obtain ⟨rule, -, rfl⟩ := List.mem_map.mp hv
    exact ⟨rule, Or.inl rfl⟩

/-- What is loaded, changed and written back. -/
theorem stored_updateSavedRulesValues {loader : Loader (spare + 5)} {file : Str}
    {saved : List (Rule spare)} (hfile : stored loader file = some (saved.map Rule.disk))
    {action : List LuaVal → Except LuaError (List LuaVal)} {tbl : List LuaVal}
    (haction : action (saved.map Rule.disk) = .ok tbl) (hlen : tbl.length ≤ capacity)
    (htbl : ∀ v ∈ tbl, Element spare v) :
    stored loader (updateSavedRulesValues loader file action) = some (tbl.map normal) := by
  unfold updateSavedRulesValues
  rw [hfile]
  simp only [haction]
  exact stored_written loader hlen htbl

/-- The file with a rule appended by `add_rule` or `clone_rule` is read back as the old one
and the rule behind it. -/
theorem stored_insert {loader : Loader (spare + 5)} {file : Str} {saved : List (Rule spare)}
    (hfile : stored loader file = some (saved.map Rule.disk)) (hlen : saved.length < capacity)
    (t : Rule spare) :
    stored loader (updateSavedRulesValues loader file (tableInsert (.table t.fields))) =
      some (saved.map Rule.disk ++ [t.disk]) := by
  have haction : tableInsert (.table t.fields) (saved.map Rule.disk) =
      .ok (saved.map Rule.disk ++ [.table t.fields]) := by
    unfold tableInsert
    rw [if_pos (by rw [List.length_map]; exact hlen)]
  have helements : ∀ v ∈ saved.map Rule.disk ++ [.table t.fields], Element spare v := by
    intro v hv
    rcases List.mem_append.mp hv with hv | hv
    · exact element_disk hv
    · exact ⟨t, Or.inl (List.mem_singleton.mp hv)⟩
  have hfits : (saved.map Rule.disk ++ [LuaVal.table t.fields]).length ≤ capacity := by
    rw [List.length_append, List.length_map, List.length_singleton]
    exact hlen
  rw [stored_updateSavedRulesValues hfile haction hfits helements, List.map_append,
    map_normal_disk]
  rfl

/-- The file with a rule removed by `del_rule` is the old one without that position. -/
theorem stored_remove {loader : Loader (spare + 5)} {file : Str} {saved : List (Rule spare)}
    (hfile : stored loader file = some (saved.map Rule.disk)) (hlen : saved.length ≤ capacity)
    {nr : Nat} (hnr : nr ≤ saved.length) :
    stored loader (updateSavedRulesValues loader file (tableRemove nr)) =
      some ((saved.map Rule.disk).eraseIdx nr) := by
  have haction : tableRemove nr (saved.map Rule.disk) =
      .ok ((saved.map Rule.disk).eraseIdx nr) := by
    unfold tableRemove
    rw [if_pos (by rw [List.length_map]; exact hnr)]
  rw [List.eraseIdx_map] at haction ⊢
  have helements : ∀ v ∈ (saved.eraseIdx nr).map Rule.disk, Element spare v := by
    intro v hv
    exact element_disk hv
  have hfits : ((saved.eraseIdx nr).map Rule.disk).length ≤ capacity := by
    rw [List.length_map]
    exact le_trans (List.length_eraseIdx_le saved nr) hlen
  rw [stored_updateSavedRulesValues hfile haction hfits helements, map_normal_disk]

/-! ## One operation -/

/-- The nested tests of the OK button. -/
theorem okAddRule_cases (loader : Loader (spare + 5)) (s : State spare) (t : Rule spare) :
    (accepts s.rules t = true ∧ (okAddRule loader s t).rules = s.rules ++ [t] ∧
      (okAddRule loader s t).file =
        updateSavedRulesValues loader s.file (tableInsert (.table t.fields)) ∧
      s.rules.length < capacity) ∨
    accepts s.rules t = false ∧ okAddRule loader s t = s := by
  unfold okAddRule accepts
  split
  case isTrue hempty => simp [hempty]
  case isFalse hempty =>
    split
    case isTrue hbad => simp [hbad]
    case isFalse hsafe =>
      split
      case isTrue htaken => simp [htaken]
      case isFalse htaken =>
        split
        case isTrue hlen => simp [hempty, hsafe, htaken, hlen]
        case isFalse hlen => simp [hlen]

/-- A removal takes the selected rule out of memory and out of the file, or does nothing,
because it is the last one or none is selected. -/
theorem delRule_cases (loader : Loader (spare + 5)) (s : State spare) (selected : Option Nat) :
    (∃ nr, removed s.rules (.del selected) = some nr ∧ nr < s.rules.length ∧
      (delRule loader s selected).rules = s.rules.eraseIdx nr ∧
      (delRule loader s selected).file =
        updateSavedRulesValues loader s.file (tableRemove nr)) ∨
    removed s.rules (.del selected) = none ∧ delRule loader s selected = s := by
  unfold delRule removed
  cases selected with
  | none => exact Or.inr ⟨rfl, rfl⟩
  | some nr =>
      by_cases hrange : s.rules.length ≤ nr
      case pos =>
        right
        simp [hrange, Nat.not_lt.mpr hrange]
      case neg =>
        by_cases hlast : s.rules.length = 1
        case pos =>
          right
          simp [hlast]
        case neg =>
          left
          refine ⟨nr, ?_, Nat.not_le.mp hrange, ?_⟩
          · simp [Nat.not_le.mp hrange, hlast]
          · simp [hrange, hlast]

/-- A dialog appends its rule in memory if it takes it in. -/
theorem okAddRule_rules (loader : Loader (spare + 5)) (s : State spare) (t : Rule spare) :
    (okAddRule loader s t).rules =
      s.rules ++ ((some t).filter fun t => accepts s.rules t).toList := by
  rcases okAddRule_cases loader s t with ⟨haccepts, hrules, -, -⟩ | ⟨hrefused, hsame⟩
  · rw [hrules, Option.filter_some_pos haccepts]
    rfl
  · rw [hsame, Option.filter_some_neg (by simp [hrefused])]
    exact (List.append_nil s.rules).symm

/-- And then it does the same in the file. -/
theorem okAddRule_stored {loader : Loader (spare + 5)} {s : State spare} {saved : List (Rule spare)}
    (hfile : stored loader s.file = some (saved.map Rule.disk))
    (hlen : saved.length = s.rules.length) (t : Rule spare) :
    stored loader (okAddRule loader s t).file = some (saved.map Rule.disk ++
      (((some t).filter fun t => accepts s.rules t).map Rule.disk).toList) := by
  rcases okAddRule_cases loader s t with ⟨haccepts, -, hfile', hroom⟩ | ⟨hrefused, hsame⟩
  · rw [hfile', stored_insert hfile (by omega), Option.filter_some_pos haccepts]
    rfl
  · rw [hsame, hfile, Option.filter_some_neg (by simp [hrefused])]
    exact congrArg some (List.append_nil _).symm

/-- What one operation does to the file. -/
theorem stored_step {loader : Loader (spare + 5)} {s : State spare} {saved : List (Rule spare)}
    (hfile : stored loader s.file = some (saved.map Rule.disk))
    (hlen : saved.length = s.rules.length) (op : Op spare) :
    stored loader (step loader s op).file = some (diskStep s.rules op (saved.map Rule.disk)) := by
  cases op with
  | edit ks name value => exact hfile
  | rename nr value => exact hfile
  | add name category => exact okAddRule_stored hfile hlen _
  | clone selected name category =>
      simp only [step, diskStep, columnStep, inserted, offered, cloneRule]
      cases selected.bind fun nr => s.rules[nr]? with
      | none => simpa using hfile
      | some rule => exact okAddRule_stored hfile hlen _
  | del selected =>
      unfold step diskStep columnStep
      rcases delRule_cases loader s selected with ⟨nr, hremoved, hnr, -, hfile'⟩ | ⟨hnone, hsame⟩
      · have hfits : saved.length ≤ capacity := by
          have hle := s.fits
          omega
        simp only [hremoved]
        rw [hfile', stored_remove hfile hfits (by omega)]
      · simp only [hnone]
        rw [hsame, hfile]
  | save =>
      simp only [step, diskStep, columnStep]
      split
      case isTrue hunique => exact stored_saveRulesValues loader s.fits
      case isFalse hunique => exact hfile

/-- An edit changes the first column. -/
theorem now_changeNow (f : Nat → Rule spare → Rule spare) (entries : List (Entry spare)) :
    (changeNow f entries).map Entry.now = (entries.map Entry.now).mapIdx f := by
  apply List.ext_getElem?
  intro k
  unfold changeNow
  rw [List.getElem?_map, List.getElem?_mapIdx, List.getElem?_mapIdx, List.getElem?_map]
  cases entries[k]? with
  | none => rfl
  | some e => rfl

/-- And leaves the second alone. -/
theorem saved_changeNow (f : Nat → Rule spare → Rule spare) (entries : List (Entry spare)) :
    (changeNow f entries).map Entry.saved = entries.map Entry.saved := by
  apply List.ext_getElem?
  intro k
  unfold changeNow
  rw [List.getElem?_map, List.getElem?_mapIdx, List.getElem?_map]
  cases entries[k]? with
  | none => rfl
  | some e => rfl

/-- What one operation does to memory. -/
theorem rules_step {s : State spare} {entries : List (Entry spare)}
    (hrules : s.rules = entries.map Entry.now) (loader : Loader (spare + 5)) (op : Op spare) :
    (step loader s op).rules = (entryStep entries op).map Entry.now := by
  have happend : ∀ t : Option (Rule spare),
      (entries ++ (t.map fun t => Entry.mk t t).toList).map Entry.now = s.rules ++ t.toList := by
    intro t
    rw [List.map_append, ← hrules]
    cases t with
    | none => rfl
    | some t => rfl
  cases op with
  | edit ks name value =>
      unfold entryStep
      rw [now_changeNow, ← hrules]
      rfl
  | rename nr value =>
      unfold entryStep
      rw [now_changeNow, ← hrules]
      rfl
  | add name category =>
      unfold entryStep
      simp only [happend, ← hrules]
      exact okAddRule_rules loader s _
  | clone selected name category =>
      simp only [step, entryStep, happend, ← hrules, inserted, offered, cloneRule]
      cases selected.bind fun nr => s.rules[nr]? with
      | none => simp
      | some rule => exact okAddRule_rules loader s _
  | del selected =>
      unfold entryStep step
      rw [← hrules]
      rcases delRule_cases loader s selected with ⟨nr, hremoved, -, hrules', -⟩ | ⟨hnone, hsame⟩
      · simp only [hremoved]
        rw [hrules', ← List.eraseIdx_map, ← hrules]
      · simp only [hnone]
        rw [hsame, hrules]
  | save =>
      simp only [entryStep, step, ← hrules]
      split
      case isTrue hunique =>
        rw [List.map_map]
        exact hrules
      case isFalse hunique => exact hrules

/-- The column of the file follows what is done to the file. -/
theorem saved_entryStep {β : Type} (column : Rule spare → β) (entries : List (Entry spare))
    (op : Op spare) :
    ((entryStep entries op).map Entry.saved).map column =
      columnStep column (entries.map Entry.now) op ((entries.map Entry.saved).map column) := by
  have happend : ∀ t : Option (Rule spare),
      ((entries ++ (t.map fun t => Entry.mk t t).toList).map Entry.saved).map column =
        (entries.map Entry.saved).map column ++ (t.map column).toList := by
    intro t
    rw [List.map_append, List.map_append]
    cases t with
    | none => rfl
    | some t => rfl
  cases op with
  | edit ks name value => exact congrArg _ (saved_changeNow _ entries)
  | rename nr value => exact congrArg _ (saved_changeNow _ entries)
  | add name category => exact happend _
  | clone selected name category => exact happend _
  | del selected =>
      unfold entryStep columnStep
      cases removed (entries.map Entry.now) (.del selected) with
      | none => rfl
      | some nr =>
          show ((entries.eraseIdx nr).map Entry.saved).map column = _
          rw [← List.eraseIdx_map, ← List.eraseIdx_map]
  | save =>
      simp only [entryStep, columnStep]
      split
      case isTrue hunique =>
        have hsaved : (entries.map fun e => Entry.mk e.now e.now).map Entry.saved =
            entries.map Entry.now := by
          rw [List.map_map]
          rfl
        rw [hsaved]
      case isFalse hunique => rfl

/-- The step lemma: what an operation does to memory and file is what it does to the two
columns.  One case for each operation. -/
theorem Represents.step {loader : Loader (spare + 5)} {s : State spare}
    {entries : List (Entry spare)} (h : Represents loader s entries) (op : Op spare) :
    Represents loader (step loader s op) (entryStep entries op) := by
  have hlen : (entries.map Entry.saved).length = s.rules.length := by
    rw [h.memory, List.length_map, List.length_map]
  constructor
  · exact rules_step h.memory loader op
  · rw [stored_step h.disk hlen op, saved_entryStep, ← h.memory]
    rfl

/-! ## Runs -/

theorem Represents.run {loader : Loader (spare + 5)} {s : State spare}
    {entries : List (Entry spare)} (h : Represents loader s entries) (ops : List (Op spare)) :
    Represents loader (run loader s ops) (entryRun entries ops) := by
  induction ops generalizing s entries with
  | nil => exact h
  | cons op ops ih => exact ih (h.step op)

/-- Behind a load both columns are the rules of the file. -/
theorem represents_loaded {loader : Loader (spare + 5)} {s : State spare}
    (hloaded : stored loader s.file = some (s.rules.map Rule.disk)) :
    Represents loader s (loaded s.rules) := by
  have hnow : (loaded s.rules).map Entry.now = s.rules := by
    unfold loaded
    rw [List.map_map]
    exact List.map_id s.rules
  have hsaved : (loaded s.rules).map Entry.saved = s.rules := by
    unfold loaded
    rw [List.map_map]
    exact List.map_id s.rules
  constructor
  · exact hnow.symm
  · rw [hsaved]
    exact hloaded

/-- **Memory and the file stay aligned.**  After any run the two are the columns
of one list, and so of one length; the next operation does to the file what
`diskStep` says, and a save makes them equal. -/
theorem aligned (loader : Loader (spare + 5)) (s : State spare)
    (hloaded : stored loader s.file = some (s.rules.map Rule.disk)) (ops : List (Op spare)) :
    Represents loader (run loader s ops) (entryRun (loaded s.rules) ops) ∧
    (stored loader (run loader s ops).file).map List.length = some (run loader s ops).rules.length ∧
    (∀ op, stored loader (step loader (run loader s ops) op).file =
      (stored loader (run loader s ops).file).map (diskStep (run loader s ops).rules op)) ∧
    (ruleUniqueName (run loader s ops).rules = true →
      stored loader (step loader (run loader s ops) .save).file =
        some ((step loader (run loader s ops) .save).rules.map Rule.disk)) := by
  have h := (represents_loaded hloaded).run ops
  refine ⟨h, ?_, ?_, ?_⟩
  · rw [h.disk, h.memory, Option.map_some, List.length_map, List.length_map, List.length_map]
  · intro op
    rw [(h.step op).disk, h.disk, saved_entryStep, ← h.memory, Option.map_some]
    rfl
  · intro hunique
    rw [(h.step .save).disk, saved_entryStep, ← h.memory]
    unfold columnStep RuleFile.step
    rw [if_pos hunique, if_pos hunique]

/-- A window that has just been saved. -/
def justSaved (rules : List (Rule spare)) (fits : rules.length ≤ capacity) : State spare where
  rules := rules
  file := saveRulesValues rules
  fits := fits

theorem stored_justSaved (loader : Loader (spare + 5)) (rules : List (Rule spare))
    (fits : rules.length ≤ capacity) :
    stored loader (justSaved rules fits).file = some ((justSaved rules fits).rules.map Rule.disk) :=
  stored_saveRulesValues loader fits

theorem one_le_capacity (rule : Rule spare) : [rule].length ≤ capacity := by
  rw [List.length_singleton]
  decide

/-- A new rule of this name, saved. -/
def oneRule (name : Str) : State 0 := justSaved [newRule.rename name] (one_le_capacity _)

/-- An unsaved rename, a clone, the removal of the renamed rule, and a save. -/
theorem aligned_oneRule :
    (stored (dataLoader 5) (run (dataLoader 5) (oneRule (lit "a"))
      [.rename 0 (lit "b"), .clone (some 0) (lit "c") [], .del (some 0), .save]).file).map
        List.length =
      some (run (dataLoader 5) (oneRule (lit "a"))
        [.rename 0 (lit "b"), .clone (some 0) (lit "c") [], .del (some 0), .save]).rules.length :=
  (aligned (dataLoader 5) (oneRule (lit "a"))
    (stored_justSaved (dataLoader 5) _ (one_le_capacity _))
    [.rename 0 (lit "b"), .clone (some 0) (lit "c") [], .del (some 0), .save]).2.1

/-! ## The names on disk -/

/-- The names the file holds. -/
def savedNames (loader : Loader (spare + 5)) (file : Str) : Option (List LuaVal) :=
  (stored loader file).map fun tbl => tbl.map fun v => field v (lit "rulename")

/-- `rules.lua` is a list of rules, and no two of them have one name. -/
def Distinct (loader : Loader (spare + 5)) (s : State spare) : Prop :=
  ∃ names, savedNames loader s.file = some names ∧ names.Nodup

/-- The names stay distinct along a run. -/
def StaysDistinct (loader : Loader (spare + 5)) (s : State spare) : List (Op spare) → Prop
  | [] => Distinct loader s
  | op :: ops => Distinct loader s ∧ StaysDistinct loader (step loader s op) ops

/-- No rule on disk has the name of the rule that is inserted. -/
def Untaken (loader : Loader (spare + 5)) (s : State spare) (op : Op spare) : Prop :=
  ∀ t, inserted s.rules op = some t → ∀ names, savedNames loader s.file = some names →
    .str t.rulename ∉ names

def UntakenAlong (loader : Loader (spare + 5)) (s : State spare) : List (Op spare) → Prop
  | [] => True
  | op :: ops => Untaken loader s op ∧ UntakenAlong loader (step loader s op) ops

/-- The rules that are let through have distinct names. -/
theorem ruleUniqueName_iff {rules : List (Rule spare)} :
    ruleUniqueName rules = true ↔ (rules.map Rule.rulename).Nodup := by
  rw [← hasValue_unique]
  unfold ruleUniqueName
  rw [List.all_eq_true]
  constructor
  · intro h k rule hk
    have hfree := h (rule, k) (List.mem_zipIdx_iff_getElem?.mpr hk)
    simpa using hfree
  · intro h e he
    have hfree := h e.2 e.1 (List.mem_zipIdx_iff_getElem?.mp he)
    simp [hfree]

/-- The names on disk are those of the rules that are there. -/
theorem savedNames_eq {loader : Loader (spare + 5)} {file : Str} {saved : List (Rule spare)}
    (hfile : stored loader file = some (saved.map Rule.disk)) :
    savedNames loader file = some ((saved.map Rule.rulename).map LuaVal.str) := by
  have hnames : (saved.map Rule.disk).map (fun v => field v (lit "rulename")) =
      (saved.map Rule.rulename).map LuaVal.str := by
    rw [List.map_map, List.map_map]
    apply List.map_congr_left
    intro rule _
    exact rule.field_disk
  unfold savedNames
  rw [hfile, Option.map_some, hnames]

/-- That no name is on disk twice is a matter of the second column. -/
theorem distinct_iff {loader : Loader (spare + 5)} {s : State spare} {entries : List (Entry spare)}
    (h : Represents loader s entries) :
    Distinct loader s ↔ ((entries.map Entry.saved).map Rule.rulename).Nodup := by
  have hinj : Function.Injective LuaVal.str := fun _ _ heq => LuaVal.str.inj heq
  unfold Distinct
  rw [savedNames_eq h.disk]
  constructor
  · rintro ⟨names, hnames, hnodup⟩
    injection hnames with hnames
    rw [← hnames, List.nodup_map_iff hinj] at hnodup
    exact hnodup
  · intro hnodup
    exact ⟨_, rfl, (List.nodup_map_iff hinj).mpr hnodup⟩

/-- And so is whether the name of a rule that comes in is on disk already. -/
theorem untaken_iff {loader : Loader (spare + 5)} {s : State spare} {entries : List (Entry spare)}
    (h : Represents loader s entries) {op : Op spare} :
    Untaken loader s op ↔ ∀ t, inserted s.rules op = some t →
      t.rulename ∉ (entries.map Entry.saved).map Rule.rulename := by
  have hmem : ∀ name : Str, ∀ names : List Str, LuaVal.str name ∈ names.map LuaVal.str ↔
      name ∈ names := by
    intro name names
    exact List.mem_map_of_injective fun _ _ heq => LuaVal.str.inj heq
  unfold Untaken
  simp only [savedNames_eq h.disk, Option.some.injEq, forall_eq', hmem]

/-- Of all operations only an insertion can give a column a name twice. -/
theorem nodup_columnStep (rules : List (Rule spare)) (op : Op spare) {names : List Str}
    (hnodup : names.Nodup) :
    (columnStep Rule.rulename rules op names).Nodup ↔
      ∀ t, inserted rules op = some t → t.rulename ∉ names := by
  have happend : ∀ t? : Option (Rule spare),
      (names ++ (t?.map Rule.rulename).toList).Nodup ↔
        ∀ t, t? = some t → t.rulename ∉ names := by
    intro t?
    cases t? with
    | none => simpa using hnodup
    | some t =>
        simp only [Option.map_some, Option.toList_some, Option.some.injEq, forall_eq']
        rw [List.nodup_append_comm, List.singleton_append, List.nodup_cons]
        exact and_iff_left hnodup
  have hnone : ∀ op : Op spare, offered rules op = none →
      ((∀ t, inserted rules op = some t → t.rulename ∉ names) ↔ True) := by
    intro op hop
    simp [inserted, hop]
  cases op with
  | edit ks name value =>
      rw [hnone _ rfl, iff_true]
      exact hnodup
  | rename nr value =>
      rw [hnone _ rfl, iff_true]
      exact hnodup
  | add name category => exact happend _
  | clone selected name category => exact happend _
  | del selected =>
      rw [hnone _ rfl, iff_true]
      unfold columnStep
      cases removed rules (.del selected) with
      | none => exact hnodup
      | some nr => exact hnodup.sublist (List.eraseIdx_sublist names nr)
  | save =>
      rw [hnone _ rfl, iff_true]
      simp only [columnStep]
      split
      case isTrue hunique => exact ruleUniqueName_iff.mp hunique
      case isFalse => exact hnodup

theorem distinct_step {loader : Loader (spare + 5)} {s : State spare}
    {entries : List (Entry spare)} (h : Represents loader s entries) (hdistinct : Distinct loader s)
    (op : Op spare) : Distinct loader (step loader s op) ↔ Untaken loader s op := by
  rw [distinct_iff (h.step op), saved_entryStep, ← h.memory, untaken_iff h]
  exact nodup_columnStep s.rules op ((distinct_iff h).mp hdistinct)

theorem staysDistinct_head {loader : Loader (spare + 5)} {s : State spare} {ops : List (Op spare)}
    (h : StaysDistinct loader s ops) : Distinct loader s := by
  cases ops with
  | nil => exact h
  | cons op ops => exact h.1

/-- **The names on disk.**  They stay distinct exactly in the runs in which no
rule is inserted under a name that a rule on disk has. -/
theorem staysDistinct_iff (loader : Loader (spare + 5)) (s : State spare)
    (entries : List (Entry spare)) (h : Represents loader s entries)
    (hdistinct : Distinct loader s) (ops : List (Op spare)) :
    StaysDistinct loader s ops ↔ UntakenAlong loader s ops := by
  induction ops generalizing s entries with
  | nil => exact iff_true_intro hdistinct
  | cons op ops ih =>
      unfold StaysDistinct UntakenAlong
      constructor
      · intro hstays
        have hhead := staysDistinct_head hstays.2
        have huntaken := (distinct_step h hdistinct op).mp hhead
        exact ⟨huntaken, (ih _ _ (h.step op) hhead).mp hstays.2⟩
      · intro huntaken
        have hnext := (distinct_step h hdistinct op).mpr huntaken.1
        exact ⟨hdistinct, (ih _ _ (h.step op) hnext).mpr huntaken.2⟩

theorem represents_oneRule (name : Str) :
    Represents (dataLoader 5) (oneRule name) (loaded (oneRule name).rules) :=
  represents_loaded (stored_justSaved (dataLoader 5) _ (one_le_capacity _))

theorem distinct_oneRule (name : Str) : Distinct (dataLoader 5) (oneRule name) :=
  (distinct_iff (represents_oneRule name)).mpr (List.nodup_singleton _)

/-- A rename that is not saved, a rule of another name, and a save. -/
theorem staysDistinct_oneRule :
    StaysDistinct (dataLoader 5) (oneRule (lit "a"))
      [.rename 0 (lit "b"), .add (lit "c") [], .save] := by
  apply (staysDistinct_iff (dataLoader 5) (oneRule (lit "a")) _ (represents_oneRule (lit "a"))
    (distinct_oneRule (lit "a")) [.rename 0 (lit "b"), .add (lit "c") [], .save]).mpr
  have hnone : ∀ (s : State 0) (op : Op 0), inserted s.rules op = none →
      Untaken (dataLoader 5) s op := by
    intro s op hnone t ht
    rw [hnone] at ht
    cases ht
  have hadd := (represents_oneRule (lit "a")).step (.rename 0 (lit "b"))
  have huntaken : Untaken (dataLoader 5)
      (step (dataLoader 5) (oneRule (lit "a")) (.rename 0 (lit "b"))) (.add (lit "c") []) := by
    rw [untaken_iff hadd]
    intro t ht
    rw [← Option.some.inj (Option.filter_eq_some_iff.mp ht).1]
    decide +kernel
  exact ⟨hnone _ _ rfl, huntaken, hnone _ _ rfl, trivial⟩

/-- A rule that is renamed and not saved leaves its name on disk, where a new rule
of that name joins it. -/
theorem staysDistinct_fails :
    ¬ ∀ (s : State 0) (entries : List (Entry 0)), Represents (dataLoader 5) s entries →
      Distinct (dataLoader 5) s → (s.rules.map Rule.rulename).Nodup →
      ∀ ops, StaysDistinct (dataLoader 5) s ops := by
  intro hall
  have hrepresents := represents_oneRule (lit "a")
  have hdistinct := distinct_oneRule (lit "a")
  have hstays := hall (oneRule (lit "a")) _ hrepresents hdistinct (List.nodup_singleton _)
    [.rename 0 (lit "b"), .add (lit "a") []]
  obtain ⟨-, huntaken, -⟩ := (staysDistinct_iff (dataLoader 5) (oneRule (lit "a")) _ hrepresents
    hdistinct _).mp hstays
  have haccepts : accepts [((newRule : Rule 0).rename (lit "a")).rename (lit "b")]
      (newRule.filled (lit "a") []) = true := by decide
  have hmissing := (untaken_iff (hrepresents.step _)).mp huntaken (newRule.filled (lit "a") [])
    (Option.filter_some_pos haccepts)
  exact hmissing (by decide)

end LuadchAnnouncer.Frontends.RuleFile
