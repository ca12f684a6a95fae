import LuadchAnnouncer.Verified.LuaRecord
import LuadchAnnouncer.Frontends.GuiTables

/-!
# The second tab

The fields of the tab are texts, which their handlers look at when the focus leaves
them, and `save_cfg_values` puts into `tables[ "cfg" ]` as numbers and saves.  Two of
its nine assignments are not what they should be: the text of the share falls back to
the description of the bot, which is no number, and the flag `freshstuff_version` is
assigned from a global variable of that name, which nothing assigns.

`saveCfgValues_iff` says for which tables and which texts that does not show.

## Main results

* `get_saved`, `get_saved_of_elsewhere` — what a save assigns, and what it leaves
  alone.
* `only_memory_iff`, `only_disk` — the table in memory, and the one on disk.
* `saveCfgValues_iff` — memory and file.
* `not_only_flag` — the flag that is dropped.
-/

namespace LuadchAnnouncer.Frontends.ConfigTab

open LuadchAnnouncer.Verified.Bytes
open LuadchAnnouncer.Verified.LuaValue
open LuadchAnnouncer.Verified.LuaPattern (digit)
open LuadchAnnouncer.Verified.LuaTable
open LuadchAnnouncer.Verified.LuaLiteral
open LuadchAnnouncer.Verified.LuaData
open LuadchAnnouncer.Verified.LuaRecord
open LuadchAnnouncer.Core.Util
open LuadchAnnouncer.Frontends.GuiTables

/-! ## The fields -/

/-- A value of the spin control, within its range. -/
structure LogfileSize where
  value : Int
  atLeast : 2097152 ≤ value
  atMost : value ≤ 6291456

/-- What the user has left in the fields: six texts, a spin control, and a check box.  A
text may be anything. -/
structure Typed where
  botdesc : Str
  botshare : Str
  botslots : Str
  announceinterval : Str
  sleeptime : Str
  sockettimeout : Str
  logfilesize : LogfileSize
  trayicon : Bool

/-- The table `defaults`. -/
def defaultBotdesc : Str := lit "Luadch Announcer Client"

def defaultBotshare : Int := 0

def defaultBotslots : Int := 0

def defaultAnnounceinterval : Int := 300

def defaultSleeptime : Int := 10

def defaultSockettimeout : Int := 60

/-- `check_for_whitespaces_textctrl` -/
def checkForWhitespaces (text : Str) : Str := text.filter fun c => c != 32

/-- `string.match( current, "^[0-9]+$" )` -/
def isNumber (current : Str) : Bool := !current.isEmpty && current.all digit

/-- `check_for_number_or_reset_to_default`: what is in the control then. -/
def checkForNumber (current default : Str) : Str := if isNumber current then current else default

/-- `check_for_empty_and_reset_to_default`, on the text of a control: what is
returned. -/
def checkForEmpty (current : Str) (default : LuaVal) : LuaVal :=
  if current = [] then default else .str current

/-- Both handlers of a field for a number. -/
def leave (text default : Str) : Str := checkForNumber (checkForWhitespaces text) default

/-- The texts of the fields when the focus has left them. -/
structure Left where
  botdesc : Str
  botshare : Str
  botslots : Str
  announceinterval : Str
  sleeptime : Str
  sockettimeout : Str

/-- The handlers of `wx.wxEVT_KILL_FOCUS`.  The default of the share is that of the
description. -/
def Typed.left (typed : Typed) : Left where
  botdesc := if typed.botdesc = [] then defaultBotdesc else typed.botdesc
  botshare := leave typed.botshare defaultBotdesc
  botslots := leave typed.botslots (LuaNum.intText defaultBotslots)
  announceinterval := leave typed.announceinterval (LuaNum.intText defaultAnnounceinterval)
  sleeptime := leave typed.sleeptime (LuaNum.intText defaultSleeptime)
  sockettimeout := leave typed.sockettimeout (LuaNum.intText defaultSockettimeout)

/-! ## The save -/

/-- `tonumber( v )`, as a value. -/
def tonumber (v : LuaVal) : LuaVal :=
  match v.tonumber with
  | some n => .num n
  | none => .nil

/-- A field for a number, as it is read by `save_cfg_values`. -/
def numberOf (text : Str) (default : Int) : LuaVal :=
  tonumber (checkForEmpty text (.num (.int default)))

/-- The global variable `freshstuff_version`. -/
def freshstuffVersion : LuaVal := .nil

/-- The assignments of `save_cfg_values`. -/
def assignments (left : Left) (logfilesize : LogfileSize) (trayicon : Bool) :
    List (Str × LuaVal) :=
  [(lit "botdesc", checkForEmpty left.botdesc (.str defaultBotdesc)),
    (lit "botshare", numberOf left.botshare defaultBotshare),
    (lit "botslots", numberOf left.botslots defaultBotslots),
    (lit "announceinterval", numberOf left.announceinterval defaultAnnounceinterval),
    (lit "sleeptime", numberOf left.sleeptime defaultSleeptime),
    (lit "sockettimeout", numberOf left.sockettimeout defaultSockettimeout),
    (lit "trayicon", .bool trayicon),
    (lit "logfilesize", tonumber (.num (.int logfilesize.value))),
    (lit "freshstuff_version", freshstuffVersion)]

/-- `tables[ "cfg" ]` and `cfg/cfg.lua` behind it. -/
structure Saved where
  cfg : Entries
  file : Str

/-- `save_cfg_values`, when the focus has left the fields. -/
def saveCfgValues (cfg : Entries) (typed : Typed) : Saved :=
  let cfg := assign cfg (assignments typed.left typed.logfilesize typed.trayicon)
  { cfg := cfg, file := written (serialize cfg (lit "cfg")) }

/-! ## What it should do -/

def tabNames : List Str :=
  [lit "botdesc", lit "botshare", lit "botslots", lit "announceinterval", lit "sleeptime",
    lit "sockettimeout", lit "trayicon", lit "logfilesize"]

def numberNames : List Str :=
  [lit "botshare", lit "botslots", lit "announceinterval", lit "sleeptime", lit "sockettimeout",
    lit "logfilesize"]

/-- A key of another tab: none of the eight that this one assigns to. -/
def Elsewhere (k : LuaVal) : Prop := ∀ name ∈ tabNames, sameKey (.str name) k = false

/-- A field of what there is behind the save. -/
def index (v k : LuaVal) : LuaVal :=
  match v with
  | .table es => get es k
  | _ => .nil

/-- The keys of other tabs are what they were, and the numbers of this one are
numbers. -/
structure Only (same : LuaVal → LuaVal → Prop) (cfg : Entries) (behind : LuaVal) : Prop where
  elsewhere : ∀ k, Elsewhere k → same (get cfg k) (index behind k)
  numbers : ∀ name ∈ numberNames, ∃ n, index behind (.str name) = .num n

/-- There is no flag that could be lost, and the share is a number, so its default is not
asked for. -/
def Spared (cfg : Entries) (typed : Typed) : Prop :=
  get cfg (.str (lit "freshstuff_version")) = .nil ∧
    isNumber (checkForWhitespaces typed.botshare) = true

/-- The numbers that are typed are those of a 64-bit integer.  A larger one becomes a
float, which the loader's model leaves open. -/
def Fits (typed : Typed) : Prop :=
  ∀ text ∈ [typed.left.botshare, typed.left.botslots, typed.left.announceinterval,
    typed.left.sleeptime, typed.left.sockettimeout], LuaNum.digitsValue 10 text < 2 ^ 63

/-! ## The numbers -/

theorem isNumber_iff {s : Str} : isNumber s = true ↔ s ≠ [] ∧ ∀ c ∈ s, digit c = true := by
  unfold isNumber
  rw [Bool.and_eq_true, Bool.not_eq_true', List.isEmpty_eq_false_iff, List.all_eq_true]

/-- A text that is a number is saved as that number, whatever the default is. -/
theorem numberOf_isNumber {text : Str} (h : isNumber text = true) (default : Int) :
    numberOf text default = .num (numeral (LuaNum.digitsValue 10 text)) := by
  obtain ⟨hne, hdigits⟩ := isNumber_iff.mp h
  unfold numberOf checkForEmpty tonumber
  rw [if_neg hne]
  show (match LuaNum.ofStr text with
    | some n => LuaVal.num n
    | none => LuaVal.nil) = _
  rw [ofStr_digits hne hdigits]

theorem isNumber_natText (n : Nat) : isNumber (LuaNum.natText n) = true :=
  isNumber_iff.mpr ⟨natText_ne_nil n, digit_natText n⟩

/-- Where the default is a number, the field is one. -/
theorem isNumber_leave (text : Str) {default : Str} (h : isNumber default = true) :
    isNumber (leave text default) = true := by
  unfold leave checkForNumber
  split
  case isTrue hnumber => exact hnumber
  case isFalse => exact h

/-- The description is no number. -/
theorem numberOf_defaultBotdesc : numberOf defaultBotdesc defaultBotshare = .nil := by
  have hnone : LuaNum.ofStr defaultBotdesc = none := by decide
  show (match LuaNum.ofStr defaultBotdesc with
    | some n => LuaVal.num n
    | none => LuaVal.nil) = _
  rw [hnone]

/-- The share that is saved. -/
theorem botshare_num_iff (typed : Typed) :
    (∃ n, numberOf typed.left.botshare defaultBotshare = .num n) ↔
      isNumber (checkForWhitespaces typed.botshare) = true := by
  show (∃ n, numberOf (checkForNumber (checkForWhitespaces typed.botshare) defaultBotdesc)
    defaultBotshare = .num n) ↔ _
  unfold checkForNumber
  split
  case isTrue hnumber => exact iff_of_true ⟨_, numberOf_isNumber hnumber _⟩ hnumber
  case isFalse hnot =>
    apply iff_of_false
    · rintro ⟨n, hn⟩
      rw [numberOf_defaultBotdesc] at hn
      cases hn
    · exact hnot

/-! ## The table in memory -/

def flag : Str := lit "freshstuff_version"

theorem map_assignments (left : Left) (logfilesize : LogfileSize) (trayicon : Bool) :
    (assignments left logfilesize trayicon).map (fun a => a.1) = tabNames ++ [flag] := rfl

theorem nodup_names : (tabNames ++ [flag]).Nodup := by decide

/-- What is assigned is there. -/
theorem get_saved (cfg : Entries) (typed : Typed) {name : Str} {v : LuaVal}
    (h : (name, v) ∈ assignments typed.left typed.logfilesize typed.trayicon) :
    get (saveCfgValues cfg typed).cfg (.str name) = v := by
  have hnodup : ((assignments typed.left typed.logfilesize typed.trayicon).map
      fun a => a.1).Nodup := by
    rw [map_assignments]
    exact nodup_names
  exact get_assign_of_mem cfg hnodup h

/-- And the flag is not. -/
theorem get_saved_flag (cfg : Entries) (typed : Typed) :
    get (saveCfgValues cfg typed).cfg (.str flag) = .nil := by
  apply get_saved
  simp [assignments, freshstuffVersion, flag]

/-- A field of another tab is left alone, unless it is the flag. -/
theorem get_saved_of_elsewhere (cfg : Entries) (typed : Typed) {k : LuaVal} (hk : Elsewhere k)
    (hflag : sameKey (.str flag) k = false) :
    get (saveCfgValues cfg typed).cfg k = get cfg k := by
  apply get_assign_of_notMem
  intro a ha
  have hmem : a.1 ∈ tabNames ++ [flag] := by
    rw [← map_assignments typed.left typed.logfilesize typed.trayicon]
    exact List.mem_map_of_mem ha
  rcases List.mem_append.mp hmem with htab | hlast
  · exact hk a.1 htab
  · rw [List.mem_singleton.mp hlast]
    exact hflag

theorem elsewhere_flag : Elsewhere (.str flag) := by
  unfold Elsewhere
  decide

theorem eq_of_sameKey_str {name : Str} {k : LuaVal} (h : sameKey (.str name) k = true) :
    k = .str name := by
  rw [sameKey_comm] at h
  exact sameKey_name.mp h

/-- The fields for numbers, as soon as the share is one. -/
theorem numbers_saved (cfg : Entries) {typed : Typed}
    (h : isNumber (checkForWhitespaces typed.botshare) = true) :
    ∀ name ∈ numberNames, ∃ n, get (saveCfgValues cfg typed).cfg (.str name) = .num n := by
  have hshare := (botshare_num_iff typed).mpr h
  have hleave : ∀ (text : Str) (n : Nat) (default : Int),
      ∃ m, numberOf (leave text (LuaNum.natText n)) default = .num m :=
    fun text n default => ⟨_, numberOf_isNumber (isNumber_leave text (isNumber_natText n)) default⟩
  have hassigned : ∀ (name : Str) (v : LuaVal),
      (name, v) ∈ assignments typed.left typed.logfilesize typed.trayicon → (∃ n, v = .num n) →
        ∃ n, get (saveCfgValues cfg typed).cfg (.str name) = .num n := by
    intro name v hmem hnum
    rw [get_saved cfg typed hmem]
    exact hnum
  unfold numberNames
  simp only [List.forall_mem_cons]
  refine ⟨?_, ?_, ?_, ?_, ?_, ?_, fun name hname => absurd hname List.not_mem_nil⟩
  · exact hassigned _ (numberOf typed.left.botshare defaultBotshare) (by simp [assignments]) hshare
  · exact hassigned _ (numberOf typed.left.botslots defaultBotslots) (by simp [assignments])
      (hleave typed.botslots 0 _)
  · exact hassigned _ (numberOf typed.left.announceinterval defaultAnnounceinterval)
      (by simp [assignments]) (hleave typed.announceinterval 300 _)
  · exact hassigned _ (numberOf typed.left.sleeptime defaultSleeptime) (by simp [assignments])
      (hleave typed.sleeptime 10 _)
  · exact hassigned _ (numberOf typed.left.sockettimeout defaultSockettimeout)
      (by simp [assignments]) (hleave typed.sockettimeout 60 _)
  · exact hassigned _ (.num (.int typed.logfilesize.value)) (by simp [assignments, tonumber,
      LuaVal.tonumber]) ⟨_, rfl⟩

/-- In memory. -/
theorem only_memory_iff (cfg : Entries) (typed : Typed) :
    Only Eq cfg (.table (saveCfgValues cfg typed).cfg) ↔ Spared cfg typed := by
  constructor
  · intro h
    constructor
    · have hflag : get cfg (.str flag) = get (saveCfgValues cfg typed).cfg (.str flag) :=
        h.elsewhere (.str flag) elsewhere_flag
      rw [get_saved_flag] at hflag
      exact hflag
    · have hshare : ∃ n, get (saveCfgValues cfg typed).cfg (.str (lit "botshare")) = .num n :=
        h.numbers (lit "botshare") List.mem_cons_self
      rw [get_saved cfg typed (v := numberOf typed.left.botshare defaultBotshare)
        (by simp [assignments])] at hshare
      exact (botshare_num_iff typed).mp hshare
  · intro h
    constructor
    · intro k hk
      show get cfg k = get (saveCfgValues cfg typed).cfg k
      cases hflag : sameKey (.str flag) k with
      | true =>
          rw [eq_of_sameKey_str hflag, get_saved_flag]
          exact h.1
      | false => exact (get_saved_of_elsewhere cfg typed hk hflag).symm
    · exact numbers_saved cfg h.2

/-! ## The table on disk -/

theorem storable_numberOf {text : Str} (h : isNumber text = true)
    (hfits : LuaNum.digitsValue 10 text < 2 ^ 63) (default : Int) :
    Storable (numberOf text default) := by
  rw [numberOf_isNumber h, numeral_of_lt hfits]
  exact .int (by omega)

theorem levels_numberOf {text : Str} (h : isNumber text = true)
    (hfits : LuaNum.digitsValue 10 text < 2 ^ 63) (default : Int) :
    levels (numberOf text default) = 1 := by
  rw [numberOf_isNumber h, numeral_of_lt hfits, levels, intLevels, if_neg (by omega)]

/-- What is assigned can be saved, when the share is a number and none is too large. -/
theorem storable_assignments {typed : Typed} (hfits : Fits typed)
    (h : isNumber (checkForWhitespaces typed.botshare) = true) :
    ∀ a ∈ assignments typed.left typed.logfilesize typed.trayicon,
      (a.2 = .nil ∨ Storable a.2) ∧ levels a.2 = 1 := by
  have hshare : isNumber typed.left.botshare = true := by
    show isNumber (checkForNumber _ _) = true
    unfold checkForNumber
    rw [if_pos h]
    exact h
  have hnumber : ∀ {text : Str} (default : Int), isNumber text = true →
      LuaNum.digitsValue 10 text < 2 ^ 63 →
      (numberOf text default = .nil ∨ Storable (numberOf text default)) ∧
        levels (numberOf text default) = 1 :=
    fun default hnum hlt =>
      ⟨Or.inr (storable_numberOf hnum hlt default), levels_numberOf hnum hlt default⟩
  have hleave : ∀ (text : Str) (n : Nat), isNumber (leave text (LuaNum.natText n)) = true :=
    fun text n => isNumber_leave text (isNumber_natText n)
  have hdesc : ∀ text : Str, (checkForEmpty text (.str defaultBotdesc) = .nil ∨
      Storable (checkForEmpty text (.str defaultBotdesc))) ∧
        levels (checkForEmpty text (.str defaultBotdesc)) = 1 := by
    intro text
    unfold checkForEmpty
    split
    · exact ⟨Or.inr (.str _), rfl⟩
    · exact ⟨Or.inr (.str _), rfl⟩
  have hsize : Storable (.num (.int typed.logfilesize.value)) ∧
      levels (.num (.int typed.logfilesize.value)) = 1 := by
    have hatLeast := typed.logfilesize.atLeast
    have hatMost := typed.logfilesize.atMost
    refine ⟨.int (by omega), ?_⟩
    rw [levels, intLevels, if_neg (by omega)]
  unfold Fits at hfits
  simp only [List.forall_mem_cons] at hfits
  obtain ⟨hfits1, hfits2, hfits3, hfits4, hfits5, -⟩ := hfits
  unfold assignments
  simp only [List.forall_mem_cons]
  refine ⟨hdesc _, hnumber _ hshare hfits1, hnumber _ (hleave typed.botslots 0) hfits2,
    hnumber _ (hleave typed.announceinterval 300) hfits3,
    hnumber _ (hleave typed.sleeptime 10) hfits4,
    hnumber _ (hleave typed.sockettimeout 60) hfits5, ⟨Or.inr (.bool _), rfl⟩,
    ⟨Or.inr hsize.1, hsize.2⟩, ⟨Or.inl rfl, rfl⟩, fun a ha => absurd ha List.not_mem_nil⟩

/-- Sorting its keys does not show, whatever the key that is read. -/
theorem index_normal {es : Entries} (h : Record es) (k : LuaVal) :
    index (normal (.table es)) k = normal (get es k) := by
  cases k with
  | str name =>
      have hfield := h.field_normal name
      rw [normal_table] at hfield ⊢
      exact hfield
  | _ =>
      have hsorted : Record ((sortKeys es).map fun e => (e.1, normal e.2)) := by
        constructor
        · rw [← normal_table]
          exact h.storable.normal
        · rw [List.map_map, List.all_eq_true]
          intro k hk
          obtain ⟨e, he, rfl⟩ := List.mem_map.mp hk
          exact List.all_eq_true.mp h.strings e.1 (List.mem_map_of_mem (mem_sortKeys.mp he))
      rw [normal_table, h.get_eq_nil rfl]
      exact hsorted.get_eq_nil rfl

variable {spare : Nat}

/-- What is in the file can be loaded. -/
theorem read_saved (loader : Loader (spare + 4)) {cfg : Entries} {typed : Typed}
    (hcfg : Record cfg) (hlevels : levels (.table cfg) ≤ spare + 3) (hfits : Fits typed)
    (h : isNumber (checkForWhitespaces typed.botshare) = true) :
    Record (saveCfgValues cfg typed).cfg ∧
      loader.read (saveCfgValues cfg typed).file =
        normal (.table (saveCfgValues cfg typed).cfg) := by
  have hassigned := storable_assignments hfits h
  have hrecord : Record (saveCfgValues cfg typed).cfg :=
    hcfg.assign fun a ha => (hassigned a ha).1
  have hshallow : levels (.table (saveCfgValues cfg typed).cfg) ≤ spare + 2 + 1 := by
    apply levels_assign (by omega) hlevels
    intro a ha
    rw [(hassigned a ha).2]
    omega
  have hname : Identifier (lit "cfg") := by
    constructor
    · decide
    · decide
  refine ⟨hrecord, ?_⟩
  obtain ⟨text, htext, hread⟩ := loader.read_serialize hrecord.storable (Or.inl hname) (by decide)
    (show levels (.table (saveCfgValues cfg typed).cfg) < spare + 4 by omega)
  have hfile : (saveCfgValues cfg typed).file = text := by
    show written (serialize (saveCfgValues cfg typed).cfg (lit "cfg")) = text
    rw [htext]
    rfl
  rw [hfile, hread]

/-- On disk, behind a save of what is right in memory. -/
theorem only_disk (loader : Loader (spare + 4)) {cfg : Entries} {typed : Typed}
    (hcfg : Record cfg) (hlevels : levels (.table cfg) ≤ spare + 3) (hfits : Fits typed)
    (h : isNumber (checkForWhitespaces typed.botshare) = true)
    (hmemory : Only Eq cfg (.table (saveCfgValues cfg typed).cfg)) :
    Only DeepEq cfg (loader.read (saveCfgValues cfg typed).file) := by
  obtain ⟨hrecord, hread⟩ := read_saved loader hcfg hlevels hfits h
  rw [hread]
  constructor
  · intro k hk
    have hsame : get cfg k = get (saveCfgValues cfg typed).cfg k := hmemory.elsewhere k hk
    rw [index_normal hrecord, hsame]
    exact hrecord.deepEq_get k
  · intro name hname
    obtain ⟨n, hn⟩ := hmemory.numbers name hname
    have hvalue : get (saveCfgValues cfg typed).cfg (.str name) = .num n := hn
    rw [index_normal hrecord, hvalue]
    exact ⟨n, rfl⟩

/-- **Saving the tab, exactly.**  In memory, whatever the table and the texts are, no
other key changes and the numbers are numbers if and only if there is no flag and the
share is a number; and of a table that can be stored, with numbers that are not too
large, the same is true of memory and the file together. -/
theorem saveCfgValues_iff (cfg : Entries) (typed : Typed) :
    (Only Eq cfg (.table (saveCfgValues cfg typed).cfg) ↔ Spared cfg typed) ∧
    ∀ (spare : Nat) (loader : Loader (spare + 4)), Record cfg →
      levels (.table cfg) ≤ spare + 3 → Fits typed →
        (Only Eq cfg (.table (saveCfgValues cfg typed).cfg) ∧
          Only DeepEq cfg (loader.read (saveCfgValues cfg typed).file) ↔ Spared cfg typed) := by
  refine ⟨only_memory_iff cfg typed, ?_⟩
  intro spare loader hcfg hlevels hfits
  rw [only_memory_iff]
  constructor
  · exact fun h => h.1
  · intro h
    exact ⟨h, only_disk loader hcfg hlevels hfits h.2 ((only_memory_iff cfg typed).mpr h)⟩

/-- The fields as they are by default. -/
def typedDefaults : Typed where
  botdesc := []
  botshare := lit "0"
  botslots := lit "0"
  announceinterval := lit "300"
  sleeptime := lit "10"
  sockettimeout := lit "60"
  logfilesize := ⟨2097152, by omega, by omega⟩
  trayicon := false

/-- A table with the upload rate and nothing else. -/
def oneKey : Entries := [(.str (lit "botupload"), .num (.int 0))]

theorem record_oneKey : Record oneKey := by
  refine ⟨.table ⟨List.pairwise_singleton _ _, Or.inl rfl⟩ ?_, rfl⟩
  intro e he
  rw [List.mem_singleton.mp he]
  exact .int (by omega)

theorem fits_typedDefaults : Fits typedDefaults := by
  unfold Fits
  decide

/-- A table with a key of another tab, and the defaults typed into this one: the save keeps
the key and writes numbers. -/
theorem saveCfgValues_oneKey :
    Only Eq oneKey (.table (saveCfgValues oneKey typedDefaults).cfg) ∧
      Only DeepEq oneKey ((dataLoader 4).read (saveCfgValues oneKey typedDefaults).file) :=
  ((saveCfgValues_iff oneKey typedDefaults).2 0 (dataLoader 4) record_oneKey (by decide)
    fits_typedDefaults).mpr ⟨rfl, by decide⟩

/-- The flag is set, and a save of the second tab drops it. -/
theorem not_only_flag :
    ¬ ∀ (cfg : Entries) (typed : Typed), Only Eq cfg (.table (saveCfgValues cfg typed).cfg) := by
  intro hall
  have hflag : get [(.str flag, .bool true)] (.str flag) =
      get (saveCfgValues [(.str flag, .bool true)] typedDefaults).cfg (.str flag) :=
    (hall [(.str flag, .bool true)] typedDefaults).elsewhere (.str flag) elsewhere_flag
  rw [get_saved_flag] at hflag
  have htrue : get [(.str flag, .bool true)] (.str flag) = .bool true := rfl
  rw [htrue] at hflag
  cases hflag

end LuadchAnnouncer.Frontends.ConfigTab
