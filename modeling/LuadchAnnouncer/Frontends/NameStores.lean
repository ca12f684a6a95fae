import LuadchAnnouncer.Verified.Runs
import LuadchAnnouncer.Core.NetBmsg
import LuadchAnnouncer.Frontends.RuleFile
import LuadchAnnouncer.Frontends.Categories

/-!
# The names in the stores

`SAFE_NAME_PATTERN` is asked by the two dialogs that take a name from the user.  Three
more ways lead into the stores: the field with the name of a rule writes what is typed,
`imp_category` takes every text of its file, and `import_categories_tbl` takes what the
rules have.

`safeNames_iff` says of a window, with its two lists and their files, that the names in
it stay safe exactly in the runs in which nothing unsafe comes these three ways, and
that no category then breaks the text of an announcement.

## Main results

* `throughout_rules`, `throughout_categories` — names in memory and on disk, entry by
  entry.
* `rulenames_step`, `categorynames_step` — one operation on either list.
* `safeNames_step` — one step of the window: safe names exactly if nothing unsafe came
  in.
* `SafeCategories.text` — and what that means for an announcement.
* `safeNames_iff` — any run.
-/

namespace LuadchAnnouncer.Frontends.NameStores

open LuadchAnnouncer.Verified
open LuadchAnnouncer.Verified.Bytes
open LuadchAnnouncer.Verified.LuaValue
open LuadchAnnouncer.Verified.LuaPattern (digit)
open LuadchAnnouncer.Verified.LuaTable (normal)
open LuadchAnnouncer.Verified.LuaData
open LuadchAnnouncer.Verified.LuaRecord
open LuadchAnnouncer.Verified.Runs
open LuadchAnnouncer.Core.Util
open LuadchAnnouncer.Core.NetBmsg (space Announcement)
open LuadchAnnouncer.Frontends.GuiTables
open LuadchAnnouncer.Frontends.RuleFile (Rule Entry Represents entryStep editRule renameRule
  inserted)
open LuadchAnnouncer.Frontends.Categories (Names category valid entryName mem_fresh)

/-! ## Texts in a list and in its file -/

/-- The field holds a text of this kind.  A field that is no text holds none. -/
def Holds (q : Str → Bool) (key : Str) (v : LuaVal) : Prop := ∃ s, field v key = .str s ∧ q s = true

/-- All elements of the list hold one, and all elements of its file. -/
def Throughout {l : Nat} (loader : Loader l) (q : Str → Bool) (key : Str) (tbl : List LuaVal)
    (file : Str) : Prop :=
  (∀ v ∈ tbl, Holds q key v) ∧ ∃ onDisk, stored loader file = some onDisk ∧
    ∀ v ∈ onDisk, Holds q key v

/-- Where a field is a text, the property is about that text. -/
theorem holds_iff {q : Str → Bool} {key : Str} {v : LuaVal} {s : Str} (h : field v key = .str s) :
    Holds q key v ↔ q s = true := by
  unfold Holds
  rw [h]
  constructor
  · intro hholds
    obtain ⟨s', hs', hq⟩ := hholds
    injection hs' with hs'
    rw [hs']
    exact hq
  · intro hq
    exact ⟨s, rfl, hq⟩

/-- What a rule may have for a category: nothing, or a safe name. -/
def announceable (s : Str) : Bool := s.isEmpty || isSafeName s

/-- The name a rule is given when its field is left empty. -/
def defaultName (k : Nat) : Str := lit "Rule #" ++ LuaNum.natText k

/-- Not even that one is safe. -/
theorem isSafeName_defaultName (k : Nat) : isSafeName (defaultName k) = false := by
  have hblank : safeByte 32 = false := by decide
  have hmem : (32 : UInt8) ∈ defaultName k := List.mem_append_left _ (by decide)
  unfold isSafeName
  rw [Bool.and_eq_false_iff]
  right
  rw [Bool.eq_false_iff]
  intro hall
  have hsafe := List.all_eq_true.mp hall 32 hmem
  rw [hblank] at hsafe
  cases hsafe

/-- A safe byte is a printable one, and no blank: it needs no escape in a frame. -/
theorem safeByte_printable {c : UInt8} (h : safeByte c = true) : 32 < c ∧ c < 127 := by
  unfold safeByte digit at h
  simp only [Bool.or_eq_true, Bool.and_eq_true, decide_eq_true_eq, beq_iff_eq,
    UInt8.le_iff_toNat_le, ← UInt8.toNat_inj] at h
  rw [UInt8.lt_iff_toNat_lt, UInt8.lt_iff_toNat_lt]
  simp only [UInt8.reduceToNat] at h ⊢
  omega

/-- No space and no control character is in such a category. -/
theorem printable_of_announceable {s : Str} (h : announceable s = true) :
    ∀ c ∈ s, 32 < c ∧ c < 127 := by
  intro c hc
  unfold announceable isSafeName at h
  rw [Bool.or_eq_true, Bool.and_eq_true] at h
  rcases h with hempty | hsafe
  · rw [List.isEmpty_iff.mp hempty] at hc
    cases hc
  · exact safeByte_printable (List.all_eq_true.mp hsafe.2 c hc)

theorem space_notMem_of_announceable {s : Str} (h : announceable s = true) : space ∉ s := by
  intro hmem
  have hprintable := printable_of_announceable h space hmem
  exact absurd hprintable.1 (by decide)

/-! ## The window -/

variable {spare : Nat}

/-- The two lists of the window and their files.  The names of both are what
`SAFE_NAME_PATTERN` is about. -/
structure Window (spare : Nat) where
  rules : RuleFile.State spare
  categories : Categories.State

/-- `tables[ "rules" ]` -/
def Window.ruleTables (w : Window spare) : List LuaVal :=
  w.rules.rules.map fun rule => .table rule.fields

/-- `tables[ "categories" ]` -/
def Window.categoryTables (w : Window spare) : List LuaVal :=
  w.categories.names.list.map category

inductive Op (loader : Loader (spare + 5)) where
  | rules (op : RuleFile.Op spare)
  | categories (op : Categories.Op loader)

variable {loader : Loader (spare + 5)}

/-- What is selected in a choice of the categories. -/
def Chosen (w : Window spare) (name : Str) : Prop := name = [] ∨ name ∈ w.categories.names.list

/-- What the window lets the user do: the category of a rule is chosen from the list,
and the import goes through the categories that the rules have. -/
def Offers (w : Window spare) : Op loader → Prop
  | .rules (.edit _ name value) =>
      name.1 = lit "category" → ∃ s, value.val = .str s ∧ Chosen w s
  | .rules (.add _ name) => Chosen w name
  | .rules (.clone _ _ name) => Chosen w name
  | .categories (@Categories.Op.importTbl _ _ names _) =>
      w.ruleTables.map (fun v => field v (lit "category")) = names.map .str
  | _ => True

/-- One operation. -/
inductive Step : Window spare → Op loader → Window spare → Prop where
  | rules {w : Window spare} {op : RuleFile.Op spare} (offers : Offers w (.rules op : Op loader)) :
      Step w (.rules op) { w with rules := RuleFile.step loader w.rules op }
  | categories {w : Window spare} {op : Categories.Op loader} {s : Categories.State}
      (offers : Offers w (.categories op)) (returns : Categories.step w.categories op = .ok s) :
      Step w (.categories op) { w with categories := s }

/-- The rules are those of `RuleFile`, and the categories are those of their file. -/
structure Kept (loader : Loader (spare + 5)) (w : Window spare) : Prop where
  rules : ∃ entries, Represents loader w.rules entries
  categories : stored loader w.categories.file = some w.categoryTables

/-- All names are safe, in memory and on disk. -/
structure SafeNames (loader : Loader (spare + 5)) (w : Window spare) : Prop where
  rulenames : Throughout loader isSafeName (lit "rulename") w.ruleTables w.rules.file
  categorynames :
    Throughout loader isSafeName (lit "categoryname") w.categoryTables w.categories.file

/-- So are the categories of the rules, where they have one. -/
def SafeCategories (loader : Loader (spare + 5)) (w : Window spare) : Prop :=
  Throughout loader announceable (lit "category") w.ruleTables w.rules.file

/-- Nothing unsafe comes in by an operation that does not ask. -/
def Guarded (w : Window spare) : Op loader → Prop
  | .rules (.rename nr value) => nr < w.rules.rules.length → isSafeName (trim value) = true
  | .categories (.importTbl _) => ∀ v ∈ w.ruleTables, Holds announceable (lit "category") v
  | .categories (.imp content _) => valid (loader.read content) = true →
      ∀ e ∈ Categories.fields (loader.read content), isSafeName (entryName e) = true
  | _ => True

/-- The rule an announcement is made under is one of the file. -/
def Announces (loader : Loader (spare + 5)) (w : Window spare) (a : Announcement) : Prop :=
  ∃ onDisk, stored loader w.rules.file = some onDisk ∧
    ∃ v ∈ onDisk, field v (lit "category") = .str a.category

/-! ## The rules -/

/-- The rule is one of this kind now, and was when it was saved. -/
def EveryRule (p : Rule spare → Prop) (entries : List (Entry spare)) : Prop :=
  ∀ e ∈ entries, p e.now ∧ p e.saved

/-- What an operation makes of a rule in memory. -/
def changed (op : RuleFile.Op spare) (k : Nat) (rule : Rule spare) : Rule spare :=
  match op with
  | .edit ks name value => editRule ks name value k rule
  | .rename nr value => renameRule nr value k rule
  | _ => rule

/-- Sorting the keys changes no text. -/
theorem normal_eq_str {v : LuaVal} {s : Str} : normal v = .str s ↔ v = .str s := by
  cases v with
  | table es =>
      rw [LuaTable.normal_table]
      simp
  | _ => exact Iff.rfl

/-- What is written of a rule has the names of the rule in memory. -/
theorem holds_disk (q : Str → Bool) (key : Str) (rule : Rule spare) :
    Holds q key rule.disk ↔ Holds q key (.table rule.fields) := by
  have hfield : ∀ s, field rule.disk key = .str s ↔ field (.table rule.fields) key = .str s := by
    intro s
    unfold Rule.disk
    rw [rule.record.field_normal, normal_eq_str]
  unfold Holds
  simp only [hfield]

/-- Entry by entry, memory and disk have the property if both values of each entry have it. -/
theorem throughout_rules {s : RuleFile.State spare} {entries : List (Entry spare)}
    (h : Represents loader s entries) (q : Str → Bool) (key : Str) :
    Throughout loader q key (s.rules.map fun rule => .table rule.fields) s.file ↔
      EveryRule (fun rule => Holds q key (.table rule.fields)) entries := by
  unfold Throughout EveryRule
  rw [h.disk, h.memory]
  simp only [Option.some.injEq, exists_eq_left', List.forall_mem_map, holds_disk]
  constructor
  · intro hboth e he
    exact ⟨hboth.1 e he, hboth.2 e he⟩
  · intro hboth
    exact ⟨fun e he => (hboth e he).1, fun e he => (hboth e he).2⟩

/-- An edit asks it of the value of now only: the value on disk is as it was. -/
theorem everyRule_changeNow {p : Rule spare → Prop} {entries : List (Entry spare)}
    (h : EveryRule p entries) (f : Nat → Rule spare → Rule spare) :
    EveryRule p (RuleFile.changeNow f entries) ↔
      ∀ k rule, (entries.map Entry.now)[k]? = some rule → p (f k rule) := by
  have hget : ∀ k, (RuleFile.changeNow f entries)[k]? =
      entries[k]?.map fun e => Entry.mk (f k e.now) e.saved := by
    intro k
    exact List.getElem?_mapIdx
  constructor
  · intro hnext k rule hk
    rw [List.getElem?_map, Option.map_eq_some_iff] at hk
    obtain ⟨e, he, rfl⟩ := hk
    have hmem : (⟨f k e.now, e.saved⟩ : Entry spare) ∈ RuleFile.changeNow f entries := by
      apply List.mem_of_getElem? (i := k)
      rw [hget, he]
      rfl
    exact (hnext _ hmem).1
  · intro hchanged e' he'
    obtain ⟨k, hk⟩ := List.getElem?_of_mem he'
    rw [hget, Option.map_eq_some_iff] at hk
    obtain ⟨e, he, rfl⟩ := hk
    have hnow : (entries.map Entry.now)[k]? = some e.now := by
      rw [List.getElem?_map, he]
      rfl
    exact ⟨hchanged k e.now hnow, (h e (List.mem_of_getElem? he)).2⟩

/-- A rule that comes in has to have it, and the others keep it. -/
theorem everyRule_append {p : Rule spare → Prop} {entries : List (Entry spare)}
    (h : EveryRule p entries) (t? : Option (Rule spare)) :
    EveryRule p (entries ++ (t?.map fun t => Entry.mk t t).toList) ↔ ∀ t, t? = some t → p t := by
  cases t? with
  | none =>
      rw [Option.map_none, Option.toList_none, List.append_nil]
      exact iff_of_true h fun t ht => by cases ht
  | some t =>
      unfold EveryRule
      simp only [Option.map_some, Option.toList_some, List.forall_mem_append,
        List.forall_mem_singleton, and_self, Option.some.injEq, forall_eq']
      exact and_iff_right h

/-- What one operation does to the rules: it changes those in memory, and may insert
one. -/
theorem everyRule_step {p : Rule spare → Prop} {entries : List (Entry spare)}
    (h : EveryRule p entries) (op : RuleFile.Op spare) :
    EveryRule p (entryStep entries op) ↔
      (∀ k rule, (entries.map Entry.now)[k]? = some rule → p (changed op k rule)) ∧
        ∀ t, inserted (entries.map Entry.now) op = some t → p t := by
  have hnow : ∀ (k : Nat) (rule : Rule spare), (entries.map Entry.now)[k]? = some rule →
      p rule := by
    intro k rule hk
    obtain ⟨e, he, rfl⟩ := List.mem_map.mp (List.mem_of_getElem? hk)
    exact (h e he).1
  have hnone : RuleFile.offered (entries.map Entry.now) op = none →
      ∀ t, inserted (entries.map Entry.now) op = some t → p t := by
    intro hoffered t ht
    unfold inserted at ht
    rw [hoffered] at ht
    cases ht
  cases op with
  | edit ks name value =>
      rw [and_iff_left (hnone rfl)]
      exact everyRule_changeNow h _
  | rename nr value =>
      rw [and_iff_left (hnone rfl)]
      exact everyRule_changeNow h _
  | add name category =>
      apply (everyRule_append h _).trans
      exact (and_iff_right hnow).symm
  | clone selected name category =>
      apply (everyRule_append h _).trans
      exact (and_iff_right hnow).symm
  | del selected =>
      apply iff_of_true ?_ ⟨hnow, hnone rfl⟩
      unfold entryStep
      cases RuleFile.removed (entries.map Entry.now) (.del selected) with
      | none => exact h
      | some nr => exact fun e he => h e (List.mem_of_mem_eraseIdx he)
  | save =>
      apply iff_of_true ?_ ⟨hnow, hnone rfl⟩
      simp only [entryStep]
      split
      case isTrue =>
        intro e he
        obtain ⟨e', he', rfl⟩ := List.mem_map.mp he
        exact ⟨(h e' he').1, (h e' he').1⟩
      case isFalse => exact h

/-! ## The categories -/

/-- The names an operation has for the list. -/
def Brings : Categories.Op loader → Str → Prop
  | .importTbl order, name => name ∈ order.visited ∧ name ≠ []
  | .add text, name => name = trim (text.filter fun c => c != 32) ∧ isSafeName name = true
  | .del _, _ => False
  | .imp content order, name =>
      valid (loader.read content) = true ∧ name ∈ order.visited.map entryName

/-- The list is the one in its file. -/
def OnDisk (loader : Loader (spare + 5)) (s : Categories.State) : Prop :=
  stored loader s.file = some (s.names.list.map category)

theorem onDisk_saved (loader : Loader (spare + 5)) (names : Names) : OnDisk loader (.saved names) :=
  Categories.stored_saveCategoriesValues loader names

theorem holds_category (q : Str → Bool) (name : Str) :
    Holds q (lit "categoryname") (category name) ↔ q name = true :=
  holds_iff rfl

theorem throughout_categories {s : Categories.State} (h : OnDisk loader s) (q : Str → Bool) :
    Throughout loader q (lit "categoryname") (s.names.list.map category) s.file ↔
      ∀ name ∈ s.names.list, q name = true := by
  unfold Throughout
  rw [h]
  simp only [Option.some.injEq, exists_eq_left', List.forall_mem_map, holds_category, and_self]

/-- What an import leaves behind. -/
theorem saveAffected_step {s : Categories.State} (h : OnDisk loader s) {allow : Str → Bool}
    {visited : List Str} {r : Names × List Str}
    (hr : Categories.insertMissing allow s.names [] visited = .ok r) :
    OnDisk loader (Categories.saveAffected s r) ∧
      ∀ name, name ∈ (Categories.saveAffected s r).names.list ↔
        name ∈ s.names.list ∨ (name ∈ visited ∧ allow name = true) := by
  obtain ⟨hlist, haffected⟩ := Categories.insertMissing_ok hr
  rw [List.nil_append] at haffected
  constructor
  · by_cases hnone : r.2 = []
    case pos =>
      rw [← haffected, hnone, List.append_nil] at hlist
      rw [Categories.saveAffected_nil hlist hnone]
      exact h
    case neg =>
      unfold Categories.saveAffected
      rw [if_pos (List.length_pos_of_ne_nil hnone)]
      exact onDisk_saved loader r.1
  · intro name
    rw [Categories.names_saveAffected, hlist, List.mem_append, mem_fresh]
    by_cases hold : name ∈ s.names.list
    case pos => exact iff_of_true (Or.inl hold) (Or.inl hold)
    case neg => simp only [hold, false_or, not_false_eq_true, true_and]

/-- The file is kept, all that is brought is in the list, and nothing else is new. -/
structure Leaves (loader : Loader (spare + 5)) (s s' : Categories.State) (brings : Str → Prop) :
    Prop where
  onDisk : OnDisk loader s'
  brought : ∀ name, brings name → name ∈ s'.names.list
  new : ∀ name ∈ s'.names.list, name ∈ s.names.list ∨ brings name

/-- An import from the rules brings the names the rules have. -/
theorem importCategoriesTbl_leaves {s s' : Categories.State} (h : OnDisk loader s)
    {names : List Str} {order : Categories.Spairs names}
    (himport : Categories.importCategoriesTbl s order = .ok s') :
    Leaves loader s s' fun name => name ∈ order.visited ∧ name ≠ [] := by
  obtain ⟨r, hr, rfl⟩ := Categories.importCategoriesTbl_ok himport
  obtain ⟨hdisk, hmem⟩ := saveAffected_step h hr
  simp only [bne_iff_ne] at hmem
  exact ⟨hdisk, fun name hname => (hmem name).mpr (Or.inr hname), fun name => (hmem name).mp⟩

/-- A name from the user has been asked whether it is safe. -/
theorem addCategory_leaves {s s' : Categories.State} (h : OnDisk loader s) {text : Str}
    (hadd : Categories.addCategory s text = .ok s') :
    Leaves loader s s' fun name =>
      name = trim (text.filter fun c => c != 32) ∧ isSafeName name = true := by
  rcases Categories.addCategory_ok hadd with ⟨rfl, htaken⟩ | ⟨-, hsafe, -, names, hinsert, rfl⟩
  · refine ⟨h, ?_, fun name hname => Or.inl hname⟩
    intro name hname
    obtain ⟨rfl, hsafe⟩ := hname
    apply htaken hsafe
    intro hempty
    rw [hempty] at hsafe
    cases hsafe
  · refine ⟨onDisk_saved loader names, ?_, ?_⟩
    · intro name hname
      show name ∈ names.list
      rw [Names.insert_ok hinsert, hname.1]
      exact List.mem_append_right _ List.mem_cons_self
    · intro name hname
      have hmem : name ∈ names.list := hname
      rw [Names.insert_ok hinsert, List.mem_append, List.mem_singleton] at hmem
      rcases hmem with hold | hnew
      · exact Or.inl hold
      · right
        refine ⟨hnew, ?_⟩
        rw [hnew]
        exact hsafe

/-- A removal brings no name. -/
theorem delCategory_leaves {s : Categories.State} (h : OnDisk loader s) (selected : Option Nat) :
    Leaves loader s (Categories.delCategory s selected) fun _ => False := by
  rcases Categories.delCategory_cases s selected with hsame | ⟨nr, hremoved⟩
  · rw [hsame]
    exact ⟨h, fun name hname => hname.elim, fun name hname => Or.inl hname⟩
  · rw [hremoved]
    refine ⟨onDisk_saved loader _, fun name hname => hname.elim, ?_⟩
    intro name hname
    exact Or.inl (Names.mem_of_mem_remove hname)

/-- An import from a file brings all of its names, unasked. -/
theorem impCategory_leaves {s s' : Categories.State} (h : OnDisk loader s) {content : Str}
    {order : Categories.Pairs (loader.read content)}
    (himp : Categories.impCategory loader s content order = .ok s') :
    Leaves loader s s' fun name =>
      valid (loader.read content) = true ∧ name ∈ order.visited.map entryName := by
  rcases Categories.impCategory_ok himp with ⟨hinvalid, rfl⟩ | ⟨hvalid, r, hr, rfl⟩
  · refine ⟨h, ?_, fun name hname => Or.inl hname⟩
    intro name hname
    rw [hname.1] at hinvalid
    cases hinvalid
  · obtain ⟨hdisk, hmem⟩ := saveAffected_step h hr
    refine ⟨hdisk, ?_, ?_⟩
    · intro name hname
      exact (hmem name).mpr (Or.inr ⟨hname.2, rfl⟩)
    · intro name hname
      rcases (hmem name).mp hname with hold | hnew
      · exact Or.inl hold
      · exact Or.inr ⟨hvalid, hnew.1⟩

/-- What one operation does to the categories. -/
theorem categories_leaves {s s' : Categories.State} (h : OnDisk loader s)
    {op : Categories.Op loader} (hstep : Categories.step s op = .ok s') :
    Leaves loader s s' (Brings op) := by
  cases op with
  | importTbl order => exact importCategoriesTbl_leaves h hstep
  | add text => exact addCategory_leaves h hstep
  | del selected =>
      injection hstep with hstep
      rw [← hstep]
      exact delCategory_leaves h selected
  | imp content order => exact impCategory_leaves h hstep

/-! ## The fields of a rule -/

theorem holds_rulename (q : Str → Bool) (rule : Rule spare) :
    Holds q (lit "rulename") (.table rule.fields) ↔ q rule.rulename = true :=
  holds_iff rule.named

theorem rulename_editRule (ks : List Nat) (name : RuleFile.Other) (value : RuleFile.Value spare)
    (k : Nat) (rule : Rule spare) : (editRule ks name value k rule).rulename = rule.rulename := by
  unfold editRule
  split
  · rfl
  · rfl

theorem category_rename (rule : Rule spare) (rulename : Str) :
    field (.table (rule.rename rulename).fields) (lit "category") =
      field (.table rule.fields) (lit "category") := by
  have hne : LuaVal.str rulename ≠ .nil := by simp
  have hother : lit "rulename" ≠ lit "category" := by decide
  exact field_set_of_ne hne rule.fields hother

/-- A rename leaves the category of a rule alone. -/
theorem category_renameRule (nr : Nat) (value : Str) (k : Nat) (rule : Rule spare) :
    field (.table (renameRule nr value k rule).fields) (lit "category") =
      field (.table rule.fields) (lit "category") := by
  unfold renameRule
  split
  · exact category_rename rule (trim value)
  · rfl

/-- An edit does, too, if it is not the category that is edited. -/
theorem category_editRule (ks : List Nat) (name : RuleFile.Other) (value : RuleFile.Value spare)
    (k : Nat) (rule : Rule spare) :
    field (.table (editRule ks name value k rule).fields) (lit "category") =
        field (.table rule.fields) (lit "category") ∨
      name.1 = lit "category" ∧
        field (.table (editRule ks name value k rule).fields) (lit "category") = value.val := by
  unfold editRule
  split
  case isFalse => exact Or.inl rfl
  case isTrue =>
    by_cases hname : name.1 = lit "category"
    case pos =>
      right
      refine ⟨hname, ?_⟩
      rw [← hname]
      exact field_set_self value.storable.ne_nil rule.fields name.1
    case neg => exact Or.inl (field_set_of_ne value.storable.ne_nil rule.fields hname)

/-- A rule that is inserted has the safe name of the dialog, and the category that was
chosen there. -/
theorem inserted_eq {rules : List (Rule spare)} {op : RuleFile.Op spare} {t : Rule spare}
    (h : inserted rules op = some t) :
    isSafeName t.rulename = true ∧ ∃ (rule : Rule spare) (name category : Str),
      t = rule.filled name category ∧
        (op = .add name category ∨ ∃ selected, op = .clone selected name category) := by
  obtain ⟨hoffered, haccepts⟩ := Option.filter_eq_some_iff.mp h
  constructor
  · unfold RuleFile.accepts at haccepts
    simp only [Bool.and_eq_true] at haccepts
    exact haccepts.1.1.2
  · cases op with
    | add name category =>
        injection hoffered with ht
        exact ⟨_, name, category, ht.symm, Or.inl rfl⟩
    | clone selected name category =>
        obtain ⟨rule, -, ht⟩ := Option.map_eq_some_iff.mp hoffered
        exact ⟨rule, name, category, ht.symm, Or.inr ⟨selected, rfl⟩⟩
    | edit ks name value => cases hoffered
    | rename nr value => cases hoffered
    | del selected => cases hoffered
    | save => cases hoffered

/-! ## One operation of the window -/

/-- A step of the window keeps its lists and its files in line. -/
theorem Kept.step {w w' : Window spare} {op : Op loader} (h : Kept loader w)
    (hstep : Step w op w') : Kept loader w' := by
  cases hstep with
  | @rules op offers =>
      obtain ⟨entries, hentries⟩ := h.rules
      exact ⟨⟨entryStep entries op, hentries.step op⟩, h.categories⟩
  | categories offers returns => exact ⟨h.rules, (categories_leaves h.categories returns).onDisk⟩

/-- Of the operations on rules only a rename can make a name unsafe. -/
theorem rulenames_step {w : Window spare} (hkept : Kept loader w)
    (hsafe : Throughout loader isSafeName (lit "rulename") w.ruleTables w.rules.file)
    (op : RuleFile.Op spare) :
    Throughout loader isSafeName (lit "rulename")
        (Window.mk (RuleFile.step loader w.rules op) w.categories).ruleTables
        (RuleFile.step loader w.rules op).file ↔
      Guarded w (.rules op : Op loader) := by
  obtain ⟨entries, hentries⟩ := hkept.rules
  have hnow : EveryRule (fun rule => Holds isSafeName (lit "rulename") (.table rule.fields))
      entries := (throughout_rules hentries isSafeName (lit "rulename")).mp hsafe
  apply (throughout_rules (hentries.step op) isSafeName (lit "rulename")).trans
  rw [everyRule_step hnow op, ← hentries.memory]
  simp only [holds_rulename]
  rw [and_iff_left fun t ht => (inserted_eq ht).1]
  have hmemory : ∀ (k : Nat) (rule : Rule spare), w.rules.rules[k]? = some rule →
      isSafeName rule.rulename = true := by
    intro k rule hk
    apply (holds_rulename isSafeName rule).mp
    exact hsafe.1 _ (List.mem_map_of_mem (List.mem_of_getElem? hk))
  cases op with
  | rename nr value =>
      show (∀ k rule, _ → isSafeName (renameRule nr value k rule).rulename = true) ↔
        (nr < w.rules.rules.length → isSafeName (trim value) = true)
      constructor
      · intro hnext hnr
        have hrenamed := hnext nr w.rules.rules[nr] (List.getElem?_eq_getElem hnr)
        unfold renameRule at hrenamed
        rw [if_pos rfl] at hrenamed
        exact hrenamed
      · intro hguard k rule hk
        unfold renameRule
        split
        case isTrue hsame =>
          apply hguard
          rw [← hsame]
          exact (List.getElem?_eq_some_iff.mp hk).1
        case isFalse => exact hmemory k rule hk
  | edit ks name value =>
      apply iff_of_true ?_ trivial
      intro k rule hk
      show isSafeName (editRule ks name value k rule).rulename = true
      rw [rulename_editRule]
      exact hmemory k rule hk
  | add name category => exact iff_of_true hmemory trivial
  | clone selected name category => exact iff_of_true hmemory trivial
  | del selected => exact iff_of_true hmemory trivial
  | save => exact iff_of_true hmemory trivial

/-- What the import takes from the rules. -/
theorem importTbl_guarded {w : Window spare} {names : List Str} (order : Categories.Spairs names)
    (hfields : w.ruleTables.map (fun v => field v (lit "category")) = names.map .str) :
    (∀ name, name ∈ order.visited ∧ name ≠ [] → isSafeName name = true) ↔
      ∀ v ∈ w.ruleTables, Holds announceable (lit "category") v := by
  constructor
  · intro hvisited v hv
    have hmem : field v (lit "category") ∈ names.map LuaVal.str := by
      rw [← hfields]
      exact List.mem_map_of_mem hv
    obtain ⟨name, hname, hfield⟩ := List.mem_map.mp hmem
    apply (holds_iff hfield.symm).mpr
    unfold announceable
    by_cases hempty : name = []
    case pos => rw [hempty]; rfl
    case neg =>
      rw [hvisited name ⟨order.perm.mem_iff.mpr hname, hempty⟩]
      exact Bool.or_true _
  · intro hrules name hname
    have hmem : LuaVal.str name ∈ w.ruleTables.map fun v => field v (lit "category") := by
      rw [hfields]
      exact List.mem_map_of_mem (order.perm.mem_iff.mp hname.1)
    obtain ⟨v, hv, hfield⟩ := List.mem_map.mp hmem
    have hannounceable := (holds_iff hfield).mp (hrules v hv)
    unfold announceable at hannounceable
    rw [Bool.or_eq_true] at hannounceable
    exact hannounceable.resolve_left fun hempty => hname.2 (List.isEmpty_iff.mp hempty)

/-- The guard is about the names that are brought. -/
theorem brings_guarded {w : Window spare} {op : Categories.Op loader}
    (offers : Offers w (.categories op)) :
    (∀ name, Brings op name → isSafeName name = true) ↔ Guarded w (.categories op) := by
  cases op with
  | importTbl order => exact importTbl_guarded order offers
  | add text =>
      apply iff_of_true ?_ trivial
      intro name hname
      exact hname.2
  | del selected =>
      apply iff_of_true ?_ trivial
      intro name hname
      exact hname.elim
  | imp content order =>
      constructor
      · intro hnames hvalid e he
        exact hnames _ ⟨hvalid, List.mem_map_of_mem (order.perm.mem_iff.mpr he)⟩
      · intro hguard name hname
        obtain ⟨e, he, rfl⟩ := List.mem_map.mp hname.2
        exact hguard hname.1 e (order.perm.mem_iff.mp he)

/-- Of the operations on categories only an import can. -/
theorem categorynames_step {w : Window spare} (hkept : Kept loader w)
    (hsafe : Throughout loader isSafeName (lit "categoryname") w.categoryTables w.categories.file)
    {op : Categories.Op loader} (offers : Offers w (.categories op)) {s : Categories.State}
    (returns : Categories.step w.categories op = .ok s) :
    Throughout loader isSafeName (lit "categoryname") (s.names.list.map category) s.file ↔
      Guarded w (.categories op) := by
  have hleaves := categories_leaves hkept.categories returns
  have hold := (throughout_categories hkept.categories isSafeName).mp hsafe
  rw [throughout_categories hleaves.onDisk, ← brings_guarded offers]
  constructor
  · intro hlist name hname
    exact hlist name (hleaves.brought name hname)
  · intro hbrings name hname
    rcases hleaves.new name hname with hmem | hbring
    · exact hold name hmem
    · exact hbrings name hbring

/-- The names are safe behind a step exactly if nothing unsafe came in by it, a step of
either list. -/
theorem safeNames_step {w w' : Window spare} {op : Op loader} (hkept : Kept loader w)
    (hsafe : SafeNames loader w) (hstep : Step w op w') : SafeNames loader w' ↔ Guarded w op := by
  cases hstep with
  | @rules op offers =>
      rw [← rulenames_step hkept hsafe.rulenames op]
      constructor
      · intro h
        exact h.rulenames
      · intro hrules
        exact ⟨hrules, hsafe.categorynames⟩
  | @categories op s offers returns =>
      rw [← categorynames_step hkept hsafe.categorynames offers returns]
      constructor
      · intro h
        exact h.categorynames
      · intro hcategories
        exact ⟨hsafe.rulenames, hcategories⟩

/-- A category that can be chosen is empty or a safe name. -/
theorem Chosen.announceable {w : Window spare} (hsafe : SafeNames loader w)
    (hkept : Kept loader w) {name : Str} (h : Chosen w name) : announceable name = true := by
  unfold NameStores.announceable
  rcases h with hempty | hmem
  · rw [hempty]
    rfl
  · rw [(throughout_categories hkept.categories isSafeName).mp hsafe.categorynames name hmem]
    exact Bool.or_true _

/-- What is chosen from safe names is safe. -/
theorem SafeCategories.step {w w' : Window spare} {op : Op loader} (h : SafeCategories loader w)
    (hkept : Kept loader w) (hsafe : SafeNames loader w) (hstep : Step w op w') :
    SafeCategories loader w' := by
  cases hstep with
  | categories offers returns => exact h
  | @rules op offers =>
      obtain ⟨entries, hentries⟩ := hkept.rules
      have hnow := (throughout_rules hentries announceable (lit "category")).mp h
      apply (throughout_rules (hentries.step op) announceable (lit "category")).mpr
      rw [everyRule_step hnow op, ← hentries.memory]
      have hmemory : ∀ (k : Nat) (rule : Rule spare), w.rules.rules[k]? = some rule →
          Holds announceable (lit "category") (.table rule.fields) := by
        intro k rule hk
        exact h.1 _ (List.mem_map_of_mem (List.mem_of_getElem? hk))
      constructor
      · intro k rule hk
        cases op with
        | edit ks name value =>
            show Holds _ _ (.table (editRule ks name value k rule).fields)
            rcases category_editRule ks name value k rule with hsame | ⟨hname, hvalue⟩
            · unfold Holds
              rw [hsame]
              exact hmemory k rule hk
            · obtain ⟨s, hs, hchosen⟩ := offers hname
              exact ⟨s, by rw [hvalue, hs], hchosen.announceable hsafe hkept⟩
        | rename nr value =>
            show Holds _ _ (.table (renameRule nr value k rule).fields)
            unfold Holds
            rw [category_renameRule]
            exact hmemory k rule hk
        | add name category => exact hmemory k rule hk
        | clone selected name category => exact hmemory k rule hk
        | del selected => exact hmemory k rule hk
        | save => exact hmemory k rule hk
      · intro t ht
        obtain ⟨-, rule, name, category, rfl, hop⟩ := inserted_eq ht
        have hchosen : Chosen w category := by
          rcases hop with rfl | ⟨selected, rfl⟩
          · exact offers
          · exact offers
        exact ⟨category, rule.category_filled name category, hchosen.announceable hsafe hkept⟩

/-! ## Runs -/

/-- What the client finds in the file is what the hub is to split. -/
theorem SafeCategories.text {w : Window spare} (h : SafeCategories loader w) {a : Announcement}
    (ha : Announces loader w a) :
    (∀ c ∈ a.category, 32 < c ∧ c < 127) ∧
      a.text.splitOn space = a.spoken.splitOn space ++ a.category :: a.release.splitOn space := by
  obtain ⟨onDisk, hstored, v, hv, hfield⟩ := ha
  obtain ⟨onDisk', hstored', hholds⟩ := h.2
  rw [hstored] at hstored'
  injection hstored' with hsame
  rw [← hsame] at hholds
  have hannounceable := (holds_iff hfield).mp (hholds v hv)
  constructor
  · exact printable_of_announceable hannounceable
  · exact a.splitOn_text (space_notMem_of_announceable hannounceable)

/-- **Only safe names are in the stores**, exactly as long as the text of a name field
is safe when it is taken, and the names of an import are.  Where they are and the rules
start with such categories, no announcement has one that would break its text. -/
theorem safeNames_iff {w : Window spare} {run : List (Op loader × Window spare)}
    (hkept : Kept loader w) (hsafe : SafeNames loader w) (hrun : IsRun Step w run) :
    ((∀ e ∈ run, SafeNames loader e.2) ↔ ∀ e ∈ sources w run, Guarded e.1 e.2) ∧
    ((∀ e ∈ run, SafeNames loader e.2) → SafeCategories loader w →
      ∀ e ∈ run, ∀ a : Announcement, Announces loader e.2 a →
        (∀ c ∈ a.category, 32 < c ∧ c < 127) ∧
          a.text.splitOn space =
            a.spoken.splitOn space ++ a.category :: a.release.splitOn space) := by
  constructor
  · apply IsRun.forall_iff (I := Kept loader) ?_ ?_ hrun hkept hsafe
    · intro v op v' hv hstep
      exact hv.step hstep
    · intro v op v' hv hsafe hstep
      exact safeNames_step hv hsafe hstep
  · intro hall hcategories e he a ha
    have hboth := hrun.and_target hall
    have hkeep := hboth.invariant
      (I := fun v => Kept loader v ∧ SafeNames loader v ∧ SafeCategories loader v)
      (by
        intro v op v' hv hstep
        exact ⟨hv.1.step hstep.1, hstep.2, hv.2.2.step hv.1 hv.2.1 hstep.1⟩)
      ⟨hkept, hsafe, hcategories⟩ e he
    exact hkeep.2.2.text ha

/-- A window that has loaded its files. -/
theorem kept_loaded {w : Window spare}
    (hrules : stored loader w.rules.file = some (w.rules.rules.map Rule.disk))
    (hcategories : stored loader w.categories.file = some w.categoryTables) : Kept loader w where
  rules := ⟨_, RuleFile.represents_loaded hrules⟩
  categories := hcategories

/-- A rule and a category. -/
def oneOfEach : Window 0 where
  rules := RuleFile.oneRule (lit "a")
  categories := Categories.oneCategory (lit "TV")

theorem kept_oneOfEach : Kept (dataLoader 5) oneOfEach :=
  kept_loaded (RuleFile.stored_justSaved (dataLoader 5) _ (RuleFile.one_le_capacity _))
    (onDisk_saved (dataLoader 5) _)

/-- The window of the example has one name in each list, and both are safe. -/
theorem safeNames_oneOfEach : SafeNames (dataLoader 5) oneOfEach where
  rulenames := by
    apply (throughout_rules (RuleFile.represents_oneRule (lit "a")) _ _).mpr
    intro e he
    have hrule : Holds isSafeName (lit "rulename")
        (.table ((RuleFile.newRule : Rule 0).rename (lit "a")).fields) :=
      (holds_rulename _ _).mpr (by decide)
    rw [List.mem_singleton.mp he]
    exact ⟨hrule, hrule⟩
  categorynames := by
    apply (throughout_categories (onDisk_saved (dataLoader 5) _) _).mpr
    intro name hname
    rw [List.mem_singleton.mp hname]
    decide

/-- A category whose blank is removed, and a rename. -/
theorem safeNames_renamed :
    ∃ run : List (Op (dataLoader 5) × Window 0), run.length = 2 ∧
      IsRun Step oneOfEach run ∧ ∀ e ∈ run, SafeNames (dataLoader 5) e.2 := by
  have hadd : Step oneOfEach (.categories (.add (lit "x 264")) : Op (dataLoader 5)) _ :=
    .categories trivial rfl
  have hrun : IsRun Step oneOfEach
      [((.categories (.add (lit "x 264")) : Op (dataLoader 5)), _),
        (.rules (.rename 0 (lit "b")), _)] :=
    ⟨hadd, .rules trivial, trivial⟩
  refine ⟨_, rfl, hrun, (safeNames_iff kept_oneOfEach safeNames_oneOfEach hrun).1.mpr ?_⟩
  simp only [sources, List.forall_mem_cons]
  refine ⟨trivial, ?_, fun e he => absurd he List.not_mem_nil⟩
  intro _
  decide

/-- What is typed into the name of a rule is taken with its blanks. -/
theorem not_safeNames_renamed :
    ¬ ∀ (w : Window 0) (run : List (Op (dataLoader 5) × Window 0)), Kept (dataLoader 5) w →
      SafeNames (dataLoader 5) w → IsRun Step w run →
      ∀ e ∈ run, SafeNames (dataLoader 5) e.2 := by
  intro hall
  have hstep : Step oneOfEach (.rules (.rename 0 (lit "a b")) : Op (dataLoader 5)) _ :=
    .rules trivial
  have hsafe := hall oneOfEach [(_, _)] kept_oneOfEach safeNames_oneOfEach ⟨hstep, trivial⟩ _
    List.mem_cons_self
  have hguarded := (safeNames_step kept_oneOfEach safeNames_oneOfEach hstep).mp hsafe
  have hblank : isSafeName (trim (lit "a b")) = true := hguarded (by decide)
  exact absurd hblank (by decide)

end LuadchAnnouncer.Frontends.NameStores
