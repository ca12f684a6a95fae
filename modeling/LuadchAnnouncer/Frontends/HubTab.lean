import LuadchAnnouncer.Frontends.HubUrl

/-!
# The first tab

Its six fields are texts.  When the focus leaves the address, what is in it may be a whole
URL of a hub, which `parse_address_input` takes apart; a save writes the trimmed texts to
`cfg/hub.lua`, and the worker that CONNECT starts reads that file.  What keeps the two
together is the flag `need_save.hub`, which any change of a field sets.

A table the tab can show and save is `Tidy`: its keys are names, its six fields are texts
or nothing, and the port may also be a natural number below 2 ^ 63.  A save leaves such
a table if the port is below that, and the file that comes with the program has one.

## Main results

* `left_hubaddress` — a second visit of the address changes nothing, and a URL is taken
  apart.
* `saveHubValues_ok` — a save can be read back, field by field.
* `kept_session` — the invariant of a session with the window.
* `connect_reads_shown` — what CONNECT reads is what is shown.
* `port_forgotten` — but for a port that was deleted.
-/

namespace LuadchAnnouncer.Frontends.HubTab

open LuadchAnnouncer.Verified.Bytes
open LuadchAnnouncer.Verified.LuaValue
open LuadchAnnouncer.Verified.LuaTable
open LuadchAnnouncer.Verified.LuaLiteral
open LuadchAnnouncer.Verified.LuaData
open LuadchAnnouncer.Verified.LuaRecord
open LuadchAnnouncer.Core.Util
open LuadchAnnouncer.Frontends.GuiTables
open LuadchAnnouncer.Frontends.ConfigTab (checkForWhitespaces isNumber checkForNumber isNumber_iff
  tonumber)
open LuadchAnnouncer.Frontends.HubUrl (schemeByte alnum parseUrl IsHost isHost_of_parseUrl
  parseUrl_host parseUrl_url subset_of_parseUrl isNumber_of_parseUrl)

/-! ## The fields -/

/-- The text controls of the tab. -/
inductive Control where
  | hubname
  | hubaddress
  | hubport
  | nickname
  | password
  | keyprint
  deriving DecidableEq, Repr

/-- Its field in `tables[ "hub" ]`. -/
def Control.key : Control → Str
  | .hubname => lit "name"
  | .hubaddress => lit "addr"
  | .hubport => lit "port"
  | .nickname => lit "nick"
  | .password => lit "pass"
  | .keyprint => lit "keyp"

abbrev Texts := Control → Str

/-- The tab, with `tables[ "hub" ]` and `cfg/hub.lua` behind it. -/
structure Tab where
  texts : Texts
  hub : Entries
  file : Str
  needSave : Bool

/-- `control:SetValue( text )`, which sends the event that the user's typing sends, and
`HandleChangeTab1`. -/
def Tab.setValue (tab : Tab) (control : Control) (text : Str) : Tab :=
  { tab with texts := Function.update tab.texts control text, needSave := true }

@[simp] theorem texts_setValue_self (tab : Tab) (control : Control) (text : Str) :
    (tab.setValue control text).texts control = text := by
  show Function.update tab.texts control text control = text
  rw [Function.update_self]

/-- `if text then control:SetValue( text ) end` -/
def Tab.setFound (tab : Tab) (control : Control) : Option Str → Tab
  | some text => tab.setValue control text
  | none => tab

/-- `check_for_whitespaces_textctrl` -/
def Tab.checkForWhitespaces (tab : Tab) (control : Control) : Tab :=
  if 32 ∈ tab.texts control then
    tab.setValue control (ConfigTab.checkForWhitespaces (tab.texts control))
  else tab

/-- `check_for_number_or_reset_to_default( control_hubport, "" )` -/
def Tab.checkForNumber (tab : Tab) : Tab :=
  if isNumber (tab.texts .hubport) then tab else tab.setValue .hubport []

/-- `parse_address_input` -/
def Tab.parseAddressInput (tab : Tab) : Tab :=
  let url := tab.texts .hubaddress
  if url = [] then tab
  else
    let parsed := parseUrl url
    if parsed.host = some url then tab
    else
      ((tab.setFound .hubaddress parsed.host).setFound .hubport parsed.port).setFound .keyprint
        parsed.keyp

/-- The handlers of `wx.wxEVT_KILL_FOCUS`.  The name has none. -/
def Tab.left (tab : Tab) : Control → Tab
  | .hubname => tab
  | .hubaddress => (tab.checkForWhitespaces .hubaddress).parseAddressInput
  | .hubport => (tab.checkForWhitespaces .hubport).checkForNumber
  | .nickname => tab.checkForWhitespaces .nickname
  | .password => tab.checkForWhitespaces .password
  | .keyprint => tab.checkForWhitespaces .keyprint

/-- The focus comes to a control and leaves it, and perhaps its text is another then. -/
def Tab.visited (tab : Tab) (control : Control) (typed : Option Str) : Tab :=
  (tab.setFound control typed).left control

/-! ### The address settles -/

theorem notMem_checkForWhitespaces (s : Str) : 32 ∉ checkForWhitespaces s := by
  intro hmem
  have hne := (List.mem_filter.mp hmem).2
  revert hne
  decide

/-- When the focus has left a field there is no blank in it. -/
theorem texts_checkForWhitespaces (tab : Tab) (control : Control) :
    32 ∉ (tab.checkForWhitespaces control).texts control := by
  unfold Tab.checkForWhitespaces
  split
  case isTrue =>
    rw [texts_setValue_self]
    exact notMem_checkForWhitespaces _
  case isFalse hnot => exact hnot

theorem Tab.checkForWhitespaces_of_notMem {tab : Tab} {control : Control}
    (h : 32 ∉ tab.texts control) : tab.checkForWhitespaces control = tab := if_neg h

/-- A second pass over the address finds the port and the keyprint that are there already. -/
theorem setFound_twice (tab : Tab) (number print : Option Str) :
    ((((tab.setFound .hubport number).setFound .keyprint print).setFound .hubport number).setFound
      .keyprint print) = (tab.setFound .hubport number).setFound .keyprint print := by
  have hupdate : ∀ (texts : Texts) (number print : Str),
      Function.update (Function.update (Function.update (Function.update texts .hubport number)
        .keyprint print) .hubport number) .keyprint print =
      Function.update (Function.update texts .hubport number) .keyprint print := by
    intro texts number print
    rw [Function.update_comm (by decide : Control.hubport ≠ .keyprint), Function.update_idem,
      Function.update_comm (by decide : Control.keyprint ≠ .hubport), Function.update_idem]
  cases number with
  | none =>
      cases print with
      | none => rfl
      | some print => simp [Tab.setFound, Tab.setValue]
  | some number =>
      cases print with
      | none => simp [Tab.setFound, Tab.setValue]
      | some print => simp [Tab.setFound, Tab.setValue, hupdate]

theorem texts_setFound_of_ne (tab : Tab) {control other : Control} (h : other ≠ control)
    (found : Option Str) : (tab.setFound control found).texts other = tab.texts other := by
  cases found with
  | none => rfl
  | some text => exact Function.update_of_ne h text tab.texts

/-- The two ways the handler takes. -/
theorem parseAddressInput_eq (tab : Tab) : tab.parseAddressInput =
    if tab.texts .hubaddress = [] ∨
        (parseUrl (tab.texts .hubaddress)).host = some (tab.texts .hubaddress) then tab
    else
      ((tab.setFound .hubaddress (parseUrl (tab.texts .hubaddress)).host).setFound .hubport
        (parseUrl (tab.texts .hubaddress)).port).setFound .keyprint
          (parseUrl (tab.texts .hubaddress)).keyp := by
  unfold Tab.parseAddressInput
  simp only
  split
  case isTrue hempty => rw [if_pos (Or.inl hempty)]
  case isFalse hempty =>
    split
    case isTrue hhost => rw [if_pos (Or.inr hhost)]
    case isFalse hhost => rw [if_neg (not_or.mpr ⟨hempty, hhost⟩)]

theorem texts_parseAddressInput {tab : Tab} (h : ¬(tab.texts .hubaddress = [] ∨
    (parseUrl (tab.texts .hubaddress)).host = some (tab.texts .hubaddress))) :
    tab.parseAddressInput.texts .hubaddress =
      (tab.setFound .hubaddress (parseUrl (tab.texts .hubaddress)).host).texts .hubaddress := by
  rw [parseAddressInput_eq, if_neg h, texts_setFound_of_ne _ (by decide),
    texts_setFound_of_ne _ (by decide)]

/-- Where no host is found the address stays, and what is found beside it stays too. -/
theorem parseAddressInput_twice (tab : Tab) :
    tab.parseAddressInput.parseAddressInput = tab.parseAddressInput := by
  by_cases hquiet : tab.texts .hubaddress = [] ∨
      (parseUrl (tab.texts .hubaddress)).host = some (tab.texts .hubaddress)
  case pos =>
    have hsame : tab.parseAddressInput = tab := by rw [parseAddressInput_eq, if_pos hquiet]
    rw [hsame, hsame]
  case neg =>
    have haddress := texts_parseAddressInput hquiet
    cases hname : (parseUrl (tab.texts .hubaddress)).host with
    | none =>
        rw [hname] at haddress
        have hstays : tab.parseAddressInput.texts .hubaddress = tab.texts .hubaddress := haddress
        rw [parseAddressInput_eq tab.parseAddressInput, hstays, if_neg hquiet,
          parseAddressInput_eq tab, if_neg hquiet, hname]
        exact setFound_twice tab _ _
    | some name =>
        rw [hname] at haddress
        have hnow : tab.parseAddressInput.texts .hubaddress = name := by
          rw [haddress]
          exact texts_setValue_self tab .hubaddress name
        rw [parseAddressInput_eq tab.parseAddressInput, hnow]
        exact if_pos (Or.inr (parseUrl_host (isHost_of_parseUrl hname)))

/-- Taking an address apart puts no blank into it. -/
theorem notMem_parseAddressInput {tab : Tab} (h : 32 ∉ tab.texts .hubaddress) :
    32 ∉ tab.parseAddressInput.texts .hubaddress := by
  by_cases hquiet : tab.texts .hubaddress = [] ∨
      (parseUrl (tab.texts .hubaddress)).host = some (tab.texts .hubaddress)
  case pos =>
    rw [parseAddressInput_eq, if_pos hquiet]
    exact h
  case neg =>
    rw [texts_parseAddressInput hquiet]
    cases hname : (parseUrl (tab.texts .hubaddress)).host with
    | none => exact h
    | some name =>
        show 32 ∉ (tab.setValue .hubaddress name).texts .hubaddress
        rw [texts_setValue_self]
        exact fun hmem => h (subset_of_parseUrl hname hmem)

/-- A whole URL has no blank in it, if its parts have none. -/
theorem notMem_url {scheme name number print : Str} (hall : scheme.all schemeByte = true)
    (hname : 32 ∉ name) (hnumber : isNumber number = true) (halnum : print.all alnum = true) :
    32 ∉ scheme ++ lit "://" ++ (name ++ lit ":" ++ number ++ lit "/?kp=SHA256/" ++ print) := by
  intro hmem
  simp only [List.mem_append] at hmem
  rcases hmem with (hmem | hmem) | ((((hmem | hmem) | hmem) | hmem) | hmem)
  · have hbyte := List.all_eq_true.mp hall 32 hmem
    revert hbyte
    decide
  · revert hmem
    decide
  · exact hname hmem
  · revert hmem
    decide
  · have hbyte := (isNumber_iff.mp hnumber).2 32 hmem
    revert hbyte
    decide
  · revert hmem
    decide
  · have hbyte := List.all_eq_true.mp halnum 32 hmem
    revert hbyte
    decide

/-- And it is longer than its host. -/
theorem ne_url (scheme name print : Str) {number : Str} (hnumber : isNumber number = true) :
    name ≠ scheme ++ lit "://" ++ (name ++ lit ":" ++ number ++ lit "/?kp=SHA256/" ++ print) := by
  have hpos := List.length_pos_iff.mpr (isNumber_iff.mp hnumber).1
  intro heq
  have hlen := congrArg List.length heq
  simp only [List.length_append] at hlen
  omega

/-- **The address.**  Whatever is in the fields, leaving the address a second time changes
nothing; and when the URL of a hub is typed there, its host stays, and its port and its keyprint
go to their own fields. -/
theorem left_hubaddress (tab : Tab) :
    (tab.left .hubaddress).left .hubaddress = tab.left .hubaddress ∧
    ∀ scheme name number print : Str, scheme ≠ [] → scheme.all schemeByte = true → IsHost name →
      32 ∉ name → isNumber number = true → print ≠ [] → print.all alnum = true →
        tab.visited .hubaddress (some (scheme ++ lit "://" ++
          (name ++ lit ":" ++ number ++ lit "/?kp=SHA256/" ++ print))) =
        { tab with
          texts := Function.update (Function.update (Function.update tab.texts .hubaddress name)
            .hubport number) .keyprint print
          needSave := true } := by
  constructor
  · have hclean : 32 ∉ (tab.left .hubaddress).texts .hubaddress :=
      notMem_parseAddressInput (texts_checkForWhitespaces tab .hubaddress)
    show ((tab.left .hubaddress).checkForWhitespaces .hubaddress).parseAddressInput = _
    rw [Tab.checkForWhitespaces_of_notMem hclean]
    exact parseAddressInput_twice _
  · intro scheme name number print hscheme hall hname hspace hnumber hprint halnum
    have hurl := notMem_url hall hspace hnumber halnum
    have hparsed := parseUrl_url hscheme hall hname hnumber hprint halnum
    have hne := ne_url scheme name print hnumber
    generalize scheme ++ lit "://" ++ (name ++ lit ":" ++ number ++ lit "/?kp=SHA256/" ++ print) =
      url at hurl hparsed hne
    have htyped := texts_setValue_self tab .hubaddress url
    have hempty : url ≠ [] := by
      intro hnil
      rw [hnil] at hparsed
      cases hparsed
    show ((tab.setValue .hubaddress url).checkForWhitespaces .hubaddress).parseAddressInput = _
    rw [Tab.checkForWhitespaces_of_notMem (by rw [htyped]; exact hurl), parseAddressInput_eq,
      htyped, hparsed, if_neg (not_or.mpr ⟨hempty, fun heq => hne (Option.some.inj heq)⟩)]
    show Tab.mk (Function.update (Function.update (Function.update (Function.update tab.texts
      .hubaddress url) .hubaddress name) .hubport number) .keyprint print) tab.hub tab.file true = _
    rw [Function.update_idem]

def emptyTab : Tab := { texts := fun _ => [], hub := [], file := [], needSave := false }

/-- What is found in such a URL, with the port of a hub on this machine. -/
theorem left_hubaddress_localhost :
    (emptyTab.visited .hubaddress (some (lit "adcs" ++ lit "://" ++
      (lit "localhost" ++ lit ":" ++ lit "5001" ++ lit "/?kp=SHA256/" ++ lit "AB3D")))).texts
        .hubport = lit "5001" := by
  have hname : IsHost (lit "localhost") := ⟨by decide, by decide +kernel⟩
  rw [(left_hubaddress emptyTab).2 (lit "adcs") (lit "localhost") (lit "5001") (lit "AB3D")
    (by decide) (by decide) hname (by decide) (by decide) (by decide) (by decide)]
  rfl

/-! ## The file -/

/-- `a or b` -/
def orElse (a b : LuaVal) : LuaVal := if a.truthy then a else b

/-- The argument of `control:SetValue`, which is a string. -/
def argument : LuaVal → Except LuaError Str
  | .str s => .ok s
  | _ => .error .call

/-- `set_hub_values` -/
def setHubValues (address : LuaVal → Str) (hub : Entries) : Except LuaError Texts := do
  let hubname := orElse (get hub (.str (lit "name"))) (.str (lit "Luadch Testhub"))
  let hubaddr := orElse (get hub (.str (lit "addr"))) (.str (lit "your.dynaddy.org"))
  let hubport := orElse (get hub (.str (lit "port"))) (.num (.int 5001))
  let hubnick := orElse (get hub (.str (lit "nick"))) (.str (lit "Announcer"))
  let hubpass := orElse (get hub (.str (lit "pass"))) (.str (lit "test"))
  let hubkeyp := orElse (get hub (.str (lit "keyp"))) (.str (lit "unknown"))
  let hubname ← argument hubname
  let hubaddr ← argument hubaddr
  let hubport := hubport.tostring address
  let hubnick ← argument hubnick
  let hubpass ← argument hubpass
  let hubkeyp ← argument hubkeyp
  return fun
    | .hubname => hubname
    | .hubaddress => hubaddr
    | .hubport => hubport
    | .nickname => hubnick
    | .password => hubpass
    | .keyprint => hubkeyp

variable {spare : Nat}

/-- The window opens: `tables[ "hub" ]` is loaded, shown by `undo_changes`, and what the events
of that say is undone. -/
def opened (loader : Loader (spare + 4)) (address : LuaVal → Str) (file : Str) :
    Except LuaError Tab :=
  match loader.read file with
  | .table hub => (setHubValues address hub).map fun texts =>
      { texts := texts, hub := hub, file := file, needSave := false }
  | _ => .error .index

/-- The assignments of `save_hub_values`. -/
def assignments (texts : Texts) : List (Str × LuaVal) :=
  [(lit "name", .str (trim (texts .hubname))), (lit "addr", .str (trim (texts .hubaddress))),
    (lit "port", tonumber (.str (trim (texts .hubport)))),
    (lit "nick", .str (trim (texts .nickname))), (lit "pass", .str (trim (texts .password))),
    (lit "keyp", .str (trim (texts .keyprint)))]

/-- `save_hub_values` -/
@[irreducible] def Tab.saveHubValues (tab : Tab) : Tab :=
  let hub := assign tab.hub (assignments tab.texts)
  { tab with hub := hub, file := written (serialize hub (lit "hub")) }

theorem hub_saveHubValues (tab : Tab) :
    tab.saveHubValues.hub = assign tab.hub (assignments tab.texts) := by
  simp only [Tab.saveHubValues]

theorem file_saveHubValues (tab : Tab) :
    tab.saveHubValues.file = written (serialize tab.saveHubValues.hub (lit "hub")) := by
  simp only [Tab.saveHubValues]

/-- The second argument of `validate.hub`. -/
inductive DialogEvent where
  | save
  | connect
  deriving DecidableEq, Repr

/-- `validate.empty( control )` -/
def Tab.empty (tab : Tab) (control : Control) : Bool := trim (tab.texts control) = []

/-- `validate.number( control )` -/
def Tab.number (tab : Tab) (control : Control) : Bool :=
  (LuaNum.ofStr (tab.texts control)).isNone

/-- `validate.hub`: the message, or nothing. -/
def validateHub (event : DialogEvent) (tab : Tab) : Option (List Str) :=
  if tab.empty .hubaddress || tab.number .hubport || tab.empty .nickname || tab.empty .password then
    let warnings := if event ≠ .save ∧ tab.needSave then [lit "Warn: Unsaved changes"] else []
    let errors :=
      if event = .connect then
        (if tab.empty .hubaddress then [lit "Error: No Hub address!"] else []) ++
          (if tab.number .hubport then [lit "Error: No Hub port!"] else []) ++
          (if tab.empty .nickname then [lit "Error: No Hub nickname!"] else []) ++
          (if tab.empty .password then [lit "Error: No Hub password!"] else [])
      else []
    if warnings ++ errors = [] then none
    else some (lit "Tab 1: Hub Account" ::
      lit "Please solve the following issue(s) your changes before continue!" ::
        (warnings ++ errors))
  else if event ≠ .save ∧ tab.needSave then
    some [lit "Please save your changes before continue!", lit "Warn: Unsaved changes"]
  else none

/-- The button of the tab. -/
def Tab.saved (tab : Tab) : Tab :=
  if (validateHub .save tab).isNone then { tab.saveHubValues with needSave := false } else tab

/-- Nothing keeps the tab from being saved. -/
theorem validateHub_save (tab : Tab) : validateHub .save tab = none := by
  simp [validateHub]

theorem texts_saveHubValues (tab : Tab) : tab.saveHubValues.texts = tab.texts := by
  simp only [Tab.saveHubValues]

theorem saved_eq (tab : Tab) : tab.saved =
    { texts := tab.saveHubValues.texts, hub := tab.saveHubValues.hub,
      file := tab.saveHubValues.file, needSave := false } := by
  unfold Tab.saved
  rw [validateHub_save]
  simp only [Option.isNone_none, if_true]

/-! ## What can happen -/

/-- The tabs that are reached from a file, in any number of sessions with the window: a button
takes the focus from the control that has it, and so the handlers have run before a save.  The
port that is saved is an integer. -/
inductive Session (loader : Loader (spare + 4)) (address : LuaVal → Str) (file : Str) : Tab → Prop
  | opened {tab : Tab} (h : opened loader address file = .ok tab) : Session loader address file tab
  | visited {tab : Tab} (control : Control) (typed : Option Str)
      (h : Session loader address file tab) :
      Session loader address file (tab.visited control typed)
  | tls {tab : Tab} (h : Session loader address file tab) :
      Session loader address file { tab with needSave := true }
  | saved {tab : Tab} (h : Session loader address file tab)
      (hfits : LuaNum.digitsValue 10 (tab.texts .hubport) < 2 ^ 63) :
      Session loader address file tab.saved
  | reopened {tab tab' : Tab} (h : Session loader address file tab)
      (hopened : HubTab.opened loader address tab.file = .ok tab') :
      Session loader address file tab'

/-! ## What the fields say -/

/-- The table `defaults` of `set_hub_values`, as it is shown. -/
def Control.default : Control → Str
  | .hubname => lit "Luadch Testhub"
  | .hubaddress => lit "your.dynaddy.org"
  | .hubport => lit "5001"
  | .nickname => lit "Announcer"
  | .password => lit "test"
  | .keyprint => lit "unknown"

/-- A field of the file and the text of its control say the same.  The port is a number in
the file and digits in its control; the others are texts, up to white space around them. -/
def Says (control : Control) (v : LuaVal) (text : Str) : Prop :=
  if control = .hubport then v.tonumber = LuaNum.ofStr text
  else ∃ s, v = .str s ∧ trim s = trim text

/-- They do, or the file has no such field and the default is shown. -/
def Agrees (control : Control) (v : LuaVal) (text : Str) : Prop :=
  Says control v text ∨ v = .nil ∧ text = control.default

/-- What the field of a port holds when it has lost the focus: digits, or nothing. -/
def IsPort (text : Str) : Prop := text = [] ∨ isNumber text = true

/-- What may be in a field: nothing, a text, and in that of the port also a natural
number, which is what a save writes. -/
def Plain (control : Control) (v : LuaVal) : Prop :=
  v = .nil ∨
    if control = .hubport then
      (∃ s, v = .str s ∧ IsPort s) ∨ ∃ n : Nat, n < 2 ^ 63 ∧ v = .num (.int n)
    else ∃ s, v = .str s

/-- A table the tab can show and save: a record that is not nested too deeply for the
parser, with fields that the controls can show. -/
structure Tidy (spare : Nat) (hub : Entries) : Prop where
  record : Record hub
  shallow : levels (.table hub) ≤ spare + 3
  plain : ∀ control : Control, Plain control (get hub (.str control.key))

/-- What a field holds is written and read back as it is. -/
theorem Plain.normal_eq {control : Control} {v : LuaVal} (h : Plain control v) :
    normal v = v := by
  rcases h with rfl | h
  · rfl
  · split at h
    · rcases h with ⟨s, rfl, -⟩ | ⟨n, -, rfl⟩
      · rfl
      · rfl
    · obtain ⟨s, rfl⟩ := h
      rfl

/-- What is read back is such a table, and says the same. -/
theorem Tidy.sorted {hub : Entries} (h : Tidy spare hub) :
    ∃ es, normal (.table hub) = .table es ∧ Tidy spare es ∧
      ∀ control : Control, get es (.str control.key) = get hub (.str control.key) := by
  have hfields : ∀ control : Control, get ((sortKeys hub).map fun e => (e.1, normal e.2))
      (.str control.key) = get hub (.str control.key) := by
    intro control
    have hfield := h.record.field_normal control.key
    rw [normal_table] at hfield
    exact hfield.trans (h.plain control).normal_eq
  refine ⟨_, normal_table hub, ⟨h.record.sorted, ?_, ?_⟩, hfields⟩
  · rw [← normal_table, levels_normal h.record.storable]
    exact h.shallow
  · intro control
    rw [hfields]
    exact h.plain control

/-! ### Shown -/

/-- The text of a field for a text. -/
def shown (v : LuaVal) (default : Str) : Str :=
  match v with
  | .str s => s
  | _ => default

/-- What a control is given is a text: that of the field, or the default. -/
theorem argument_orElse {control : Control} (hcontrol : control ≠ .hubport) {v : LuaVal}
    (h : Plain control v) : argument (orElse v (.str control.default)) =
      .ok (shown v control.default) := by
  rcases h with rfl | h
  · rfl
  · rw [if_neg hcontrol] at h
    obtain ⟨s, rfl⟩ := h
    rfl

/-- A text field and its control say the same, or the default is shown. -/
theorem agrees_shown {control : Control} (hcontrol : control ≠ .hubport) {v : LuaVal}
    (h : Plain control v) : Agrees control v (shown v control.default) := by
  rcases h with rfl | h
  · exact Or.inr ⟨rfl, rfl⟩
  · rw [if_neg hcontrol] at h
    obtain ⟨s, rfl⟩ := h
    left
    rw [Says, if_neg hcontrol]
    exact ⟨s, rfl, rfl⟩

/-- The text of the port. -/
def shownPort (address : LuaVal → Str) (v : LuaVal) : Str :=
  (orElse v (.num (.int 5001))).tostring address

theorem shownPort_nil (address : LuaVal → Str) : shownPort address .nil = lit "5001" := by
  show LuaNum.intText 5001 = _
  decide

/-- So do the port and its control, and what is shown there is a port. -/
theorem agrees_shownPort (address : LuaVal → Str) {v : LuaVal} (h : Plain .hubport v) :
    Agrees .hubport v (shownPort address v) ∧ IsPort (shownPort address v) := by
  rcases h with rfl | h
  · rw [shownPort_nil]
    exact ⟨Or.inr ⟨rfl, rfl⟩, Or.inr (by decide)⟩
  · rw [if_pos rfl] at h
    rcases h with ⟨s, rfl, hs⟩ | ⟨n, hn, rfl⟩
    · exact ⟨Or.inl rfl, hs⟩
    · have htext : shownPort address (.num (.int n)) = LuaNum.natText n := by
        show LuaNum.intText n = _
        rw [LuaNum.intText, if_neg (by omega), Int.natAbs_natCast]
      rw [htext]
      refine ⟨Or.inl ?_, Or.inr (ConfigTab.isNumber_natText n)⟩
      rw [Says, if_pos rfl, ofStr_natText, numeral_of_lt hn]
      rfl

/-- The texts behind `set_hub_values`. -/
def shownTexts (address : LuaVal → Str) (hub : Entries) : Texts := fun control =>
  if control = .hubport then shownPort address (get hub (.str control.key))
  else shown (get hub (.str control.key)) control.default

/-- The tab shows what the file says, field by field. -/
theorem agrees_shownTexts (address : LuaVal → Str) {hub : Entries} (h : Tidy spare hub)
    (control : Control) :
    Agrees control (get hub (.str control.key)) (shownTexts address hub control) := by
  unfold shownTexts
  split
  case isTrue hport =>
    rw [hport]
    exact (agrees_shownPort address (h.plain .hubport)).1
  case isFalse hcontrol => exact agrees_shown hcontrol (h.plain control)

theorem isPort_shownTexts (address : LuaVal → Str) {hub : Entries} (h : Tidy spare hub) :
    IsPort (shownTexts address hub .hubport) :=
  (agrees_shownPort address (h.plain .hubport)).2

/-- The tab shows what there is. -/
theorem setHubValues_eq (address : LuaVal → Str) {hub : Entries} (h : Tidy spare hub) :
    setHubValues address hub = .ok (shownTexts address hub) := by
  have htext : ∀ control : Control, control ≠ .hubport →
      argument (orElse (get hub (.str control.key)) (.str control.default)) =
        .ok (shown (get hub (.str control.key)) control.default) :=
    fun control hcontrol => argument_orElse hcontrol (h.plain control)
  have hname := htext .hubname (by decide)
  have haddr := htext .hubaddress (by decide)
  have hnick := htext .nickname (by decide)
  have hpass := htext .password (by decide)
  have hkeyp := htext .keyprint (by decide)
  simp only [Control.key, Control.default] at hname haddr hnick hpass hkeyp
  simp only [setHubValues, hname, haddr, hnick, hpass, hkeyp]
  show Except.ok _ = Except.ok _
  congr 1
  funext control
  cases control <;> rfl

/-! ### Saved -/

theorem map_assignments (texts : Texts) : (assignments texts).map (fun a => a.1) =
    [lit "name", lit "addr", lit "port", lit "nick", lit "pass", lit "keyp"] := rfl

/-- What a save assigns to a field. -/
def valueOf (control : Control) (text : Str) : LuaVal :=
  if control = .hubport then tonumber (.str (trim text)) else .str (trim text)

theorem mem_assignments (texts : Texts) (control : Control) :
    (control.key, valueOf control (texts control)) ∈ assignments texts := by
  cases control <;> simp [assignments, valueOf, Control.key]

/-- The assignments of a save are those of the six fields. -/
theorem eq_of_mem_assignments {texts : Texts} {a : Str × LuaVal} (h : a ∈ assignments texts) :
    ∃ control : Control, a.2 = valueOf control (texts control) := by
  simp only [assignments, List.mem_cons, List.not_mem_nil, or_false] at h
  rcases h with rfl | rfl | rfl | rfl | rfl | rfl
  · exact ⟨.hubname, rfl⟩
  · exact ⟨.hubaddress, rfl⟩
  · exact ⟨.hubport, rfl⟩
  · exact ⟨.nickname, rfl⟩
  · exact ⟨.password, rfl⟩
  · exact ⟨.keyprint, rfl⟩

theorem get_assignments (hub : Entries) (texts : Texts) (control : Control) :
    get (assign hub (assignments texts)) (.str control.key) = valueOf control (texts control) := by
  have hnodup : ((assignments texts).map fun a => a.1).Nodup := by
    rw [map_assignments]
    decide
  exact get_assign_of_mem hub hnodup (mem_assignments texts control)

/-- The port that is saved. -/
theorem valueOf_hubport {text : Str} (h : IsPort text)
    (hfits : LuaNum.digitsValue 10 text < 2 ^ 63) : valueOf .hubport text = .nil ∨
      valueOf .hubport text = .num (.int (LuaNum.digitsValue 10 text)) := by
  have hvalue : valueOf .hubport text = tonumber (.str (trim text)) := if_pos rfl
  rw [hvalue]
  rcases h with rfl | h
  · exact Or.inl rfl
  · obtain ⟨hne, hdigits⟩ := isNumber_iff.mp h
    right
    have htrim : trim text = text := trim_eq_self fun c hc => isSpace_of_digit (hdigits c hc)
    have hnumber : (LuaVal.str text).tonumber = some (.int (LuaNum.digitsValue 10 text)) := by
      rw [LuaVal.tonumber, ofStr_digits hne hdigits, numeral_of_lt hfits]
    rw [htrim, tonumber, hnumber]

/-- What a save assigns says what the control shows. -/
theorem says_valueOf {control : Control} {text : Str}
    (h : control = .hubport → IsPort text) : Says control (valueOf control text) text := by
  rw [Says, valueOf]
  split
  case isTrue hport =>
    rcases h hport with rfl | hnumber
    · rfl
    · obtain ⟨hne, hdigits⟩ := isNumber_iff.mp hnumber
      have htrim : trim text = text := trim_eq_self fun c hc => isSpace_of_digit (hdigits c hc)
      rw [htrim, tonumber, LuaVal.tonumber, ofStr_digits hne hdigits]
      rfl
  case isFalse => exact ⟨trim text, rfl, trim_trim text⟩

/-- And it is what may be in a field, where the port is an integer. -/
theorem plain_valueOf {control : Control} {text : Str}
    (h : control = .hubport → IsPort text ∧ LuaNum.digitsValue 10 text < 2 ^ 63) :
    Plain control (valueOf control text) := by
  by_cases hport : control = .hubport
  case pos =>
    obtain ⟨hdigits, hfits⟩ := h hport
    rw [hport]
    rcases valueOf_hubport hdigits hfits with hnil | hnumber
    · exact Or.inl hnil
    · right
      rw [if_pos rfl, hnumber]
      exact Or.inr ⟨_, hfits, rfl⟩
  case neg =>
    right
    rw [if_neg hport, valueOf, if_neg hport]
    exact ⟨_, rfl⟩

/-- So it can be written to a file, and has no tables in it. -/
theorem Plain.storable {control : Control} {v : LuaVal} (h : Plain control v) :
    (v = .nil ∨ Storable v) ∧ levels v = 1 := by
  rcases h with rfl | h
  · exact ⟨Or.inl rfl, rfl⟩
  · split at h
    · rcases h with ⟨s, rfl, -⟩ | ⟨n, hn, rfl⟩
      · exact ⟨Or.inr (.str s), rfl⟩
      · refine ⟨Or.inr (.int (by omega)), ?_⟩
        rw [levels, intLevels, if_neg (by omega)]
    · obtain ⟨s, rfl⟩ := h
      exact ⟨Or.inr (.str s), rfl⟩

/-- A save keeps the table as it should be, and the file can be read. -/
theorem saveHubValues_ok (loader : Loader (spare + 4)) {tab : Tab} (hhub : Tidy spare tab.hub)
    (hport : IsPort (tab.texts .hubport))
    (hfits : LuaNum.digitsValue 10 (tab.texts .hubport) < 2 ^ 63) :
    Tidy spare tab.saveHubValues.hub ∧ ∃ es, loader.read tab.saveHubValues.file = .table es ∧
      Tidy spare es ∧ ∀ control : Control,
        get es (.str control.key) = valueOf control (tab.texts control) := by
  have hplain : ∀ control : Control, Plain control (valueOf control (tab.texts control)) :=
    fun control => plain_valueOf fun heq => by rw [heq]; exact ⟨hport, hfits⟩
  have hassigned : ∀ a ∈ assignments tab.texts, (a.2 = .nil ∨ Storable a.2) ∧ levels a.2 = 1 := by
    intro a ha
    obtain ⟨control, hvalue⟩ := eq_of_mem_assignments ha
    rw [hvalue]
    exact (hplain control).storable
  have hshallow : levels (.table (assign tab.hub (assignments tab.texts))) ≤ spare + 2 + 1 := by
    apply levels_assign (by omega) hhub.shallow
    intro a ha
    rw [(hassigned a ha).2]
    omega
  have htidy : Tidy spare tab.saveHubValues.hub := by
    rw [hub_saveHubValues]
    constructor
    · exact hhub.record.assign fun a ha => (hassigned a ha).1
    · exact hshallow
    · intro control
      rw [get_assignments]
      exact hplain control
  have hname : Identifier (lit "hub") := ⟨by decide, by decide⟩
  have hlevels : levels (.table tab.saveHubValues.hub) < spare + 4 := by
    have hle := htidy.shallow
    omega
  have htype : lit "hub" ≠ lit "type" := by decide
  obtain ⟨text, htext, hread⟩ :=
    loader.read_serialize htidy.record.storable (Or.inl hname) htype hlevels
  have hfile : tab.saveHubValues.file = text := by
    rw [file_saveHubValues, htext]
    rfl
  obtain ⟨es, hes, htidy', hfields⟩ := htidy.sorted
  have hbehind : loader.read tab.saveHubValues.file = .table es := by rw [hfile, hread, hes]
  refine ⟨htidy, es, hbehind, htidy', ?_⟩
  intro control
  rw [hfields, hub_saveHubValues, get_assignments]

/-! ### Left -/

/-- A handler leaves the table and the file alone, and changes a text only with the flag set. -/
structure Flagged (tab tab' : Tab) : Prop where
  hub : tab'.hub = tab.hub
  file : tab'.file = tab.file
  flag : tab'.needSave = true ∨ tab' = tab

theorem Flagged.refl (tab : Tab) : Flagged tab tab := ⟨rfl, rfl, Or.inr rfl⟩

theorem Flagged.trans {tab tab' tab'' : Tab} (h : Flagged tab tab') (h' : Flagged tab' tab'') :
    Flagged tab tab'' := by
  refine ⟨h'.hub.trans h.hub, h'.file.trans h.file, ?_⟩
  rcases h'.flag with hflag | rfl
  · exact Or.inl hflag
  · exact h.flag

theorem flagged_setFound (tab : Tab) (control : Control) (found : Option Str) :
    Flagged tab (tab.setFound control found) := by
  cases found with
  | none => exact Flagged.refl tab
  | some text => exact ⟨rfl, rfl, Or.inl rfl⟩

theorem flagged_checkForWhitespaces (tab : Tab) (control : Control) :
    Flagged tab (tab.checkForWhitespaces control) := by
  unfold Tab.checkForWhitespaces
  split
  · exact ⟨rfl, rfl, Or.inl rfl⟩
  · exact Flagged.refl tab

theorem flagged_checkForNumber (tab : Tab) : Flagged tab tab.checkForNumber := by
  unfold Tab.checkForNumber
  split
  · exact Flagged.refl tab
  · exact ⟨rfl, rfl, Or.inl rfl⟩

theorem flagged_parseAddressInput (tab : Tab) : Flagged tab tab.parseAddressInput := by
  rw [parseAddressInput_eq]
  split
  · exact Flagged.refl tab
  · exact ((flagged_setFound _ _ _).trans (flagged_setFound _ _ _)).trans (flagged_setFound _ _ _)

/-- Leaving a control changes texts, and sets the flag where it does. -/
theorem flagged_left (tab : Tab) (control : Control) : Flagged tab (tab.left control) := by
  cases control with
  | hubname => exact Flagged.refl tab
  | hubaddress =>
      exact (flagged_checkForWhitespaces tab _).trans (flagged_parseAddressInput _)
  | hubport => exact (flagged_checkForWhitespaces tab _).trans (flagged_checkForNumber _)
  | _ => exact flagged_checkForWhitespaces tab _

theorem flagged_visited (tab : Tab) (control : Control) (typed : Option Str) :
    Flagged tab (tab.visited control typed) :=
  (flagged_setFound tab control typed).trans (flagged_left _ control)

theorem texts_checkForWhitespaces_of_ne (tab : Tab) {control other : Control}
    (h : other ≠ control) : (tab.checkForWhitespaces control).texts other = tab.texts other := by
  unfold Tab.checkForWhitespaces
  split
  · exact Function.update_of_ne h _ tab.texts
  · rfl

/-- The port is left alone by all the handlers but two. -/
theorem texts_left_hubport (tab : Tab) {control : Control} (hport : control ≠ .hubport)
    (haddress : control ≠ .hubaddress) :
    (tab.left control).texts .hubport = tab.texts .hubport := by
  cases control with
  | hubname => rfl
  | hubaddress => exact absurd rfl haddress
  | hubport => exact absurd rfl hport
  | _ => exact texts_checkForWhitespaces_of_ne tab (by decide)

/-- A port that is found in an address is a number. -/
theorem isPort_parseAddressInput {tab : Tab} (h : IsPort (tab.texts .hubport)) :
    IsPort (tab.parseAddressInput.texts .hubport) := by
  rw [parseAddressInput_eq]
  split
  · exact h
  · rw [texts_setFound_of_ne _ (by decide)]
    cases hnumber : (parseUrl (tab.texts .hubaddress)).port with
    | none =>
        show IsPort ((tab.setFound .hubaddress _).texts .hubport)
        rw [texts_setFound_of_ne _ (by decide)]
        exact h
    | some number =>
        show IsPort ((Tab.setValue _ .hubport number).texts .hubport)
        rw [texts_setValue_self]
        exact Or.inr (isNumber_of_parseUrl hnumber)

/-- The port is a number or nothing, whichever control is left. -/
theorem isPort_visited {tab : Tab} (h : IsPort (tab.texts .hubport)) (control : Control)
    (typed : Option Str) : IsPort ((tab.visited control typed).texts .hubport) := by
  by_cases hcontrol : control = .hubport
  case pos =>
    rw [hcontrol]
    show IsPort (((tab.setFound .hubport typed).checkForWhitespaces
      .hubport).checkForNumber.texts .hubport)
    unfold Tab.checkForNumber
    split
    case isTrue hnumber => exact Or.inr hnumber
    case isFalse => exact Or.inl (texts_setValue_self _ .hubport [])
  case neg =>
    have hfound : IsPort ((tab.setFound control typed).texts .hubport) := by
      rw [texts_setFound_of_ne _ (Ne.symm hcontrol)]
      exact h
    by_cases haddress : control = .hubaddress
    case pos =>
      rw [haddress] at hfound ⊢
      apply isPort_parseAddressInput
      rw [texts_checkForWhitespaces_of_ne _ (by decide)]
      exact hfound
    case neg =>
      rw [Tab.visited, texts_left_hubport _ hcontrol haddress]
      exact hfound

/-! ## Whole runs -/

/-- The invariant of a session with the window: the table is tidy, the port is a port, and
the file agrees with what is shown unless the flag says that there is something to save. -/
structure Kept (loader : Loader (spare + 4)) (tab : Tab) : Prop where
  hub : Tidy spare tab.hub
  port : IsPort (tab.texts .hubport)
  file : ∃ es, loader.read tab.file = .table es ∧ Tidy spare es ∧
    (tab.needSave = false →
      ∀ control : Control, Agrees control (get es (.str control.key)) (tab.texts control))

/-- A file like that can be opened. -/
theorem opened_eq (loader : Loader (spare + 4)) (address : LuaVal → Str) {file : Str}
    {es : Entries} (hread : loader.read file = .table es) (hes : Tidy spare es) :
    opened loader address file = .ok
      { texts := shownTexts address es, hub := es, file := file, needSave := false } := by
  simp only [opened, hread, setHubValues_eq address hes]
  rfl

/-- A window that has just been opened shows what the file says. -/
theorem Kept.opened {loader : Loader (spare + 4)} {address : LuaVal → Str} {file : Str}
    {es : Entries} (hread : loader.read file = .table es) (hes : Tidy spare es) {tab : Tab}
    (h : HubTab.opened loader address file = .ok tab) : Kept loader tab := by
  rw [opened_eq loader address hread hes] at h
  injection h with h
  rw [← h]
  exact ⟨hes, isPort_shownTexts address hes, es, hread, hes, fun _ => agrees_shownTexts address hes⟩

/-- A change of a field sets the flag, so nothing is shown for saved that is not. -/
theorem Kept.flagged {loader : Loader (spare + 4)} {tab tab' : Tab} (h : Kept loader tab)
    (hflagged : Flagged tab tab') (hport : IsPort (tab'.texts .hubport)) : Kept loader tab' := by
  obtain ⟨es, hread, hes, hagrees⟩ := h.file
  refine ⟨by rw [hflagged.hub]; exact h.hub, hport, es, by rw [hflagged.file]; exact hread, hes, ?_⟩
  intro hclear
  rcases hflagged.flag with hset | rfl
  · rw [hset] at hclear
    cases hclear
  · exact hagrees hclear

/-- A save writes what is shown, and clears the flag. -/
theorem Kept.saved {loader : Loader (spare + 4)} {tab : Tab} (h : Kept loader tab)
    (hfits : LuaNum.digitsValue 10 (tab.texts .hubport) < 2 ^ 63) : Kept loader tab.saved := by
  obtain ⟨hhub, es, hread, hes, hvalues⟩ := saveHubValues_ok loader h.hub h.port hfits
  rw [saved_eq]
  constructor
  · exact hhub
  · rw [texts_saveHubValues]
    exact h.port
  · refine ⟨es, hread, hes, ?_⟩
    intro _ control
    rw [texts_saveHubValues, hvalues]
    exact Or.inl (says_valueOf fun heq => by rw [heq]; exact h.port)

/-- So it is in every session, by induction on what has happened in it. -/
theorem kept_session {loader : Loader (spare + 4)} {address : LuaVal → Str} {file : Str}
    {es : Entries} (hread : loader.read file = .table es) (hes : Tidy spare es) {tab : Tab}
    (h : Session loader address file tab) : Kept loader tab := by
  induction h with
  | opened h => exact Kept.opened hread hes h
  | @visited tab control typed _ ih =>
      exact ih.flagged (flagged_visited tab control typed) (isPort_visited ih.port control typed)
  | tls _ ih => exact ih.flagged ⟨rfl, rfl, Or.inl rfl⟩ ih.port
  | saved _ hfits ih => exact ih.saved hfits
  | reopened _ hopened ih =>
      obtain ⟨es', hread', hes', -⟩ := ih.file
      exact Kept.opened hread' hes' hopened

theorem session_opens {loader : Loader (spare + 4)} {address : LuaVal → Str} {file : Str}
    {es : Entries} (hread : loader.read file = .table es) (hes : Tidy spare es) {tab : Tab}
    (h : Session loader address file tab) : ∃ tab', opened loader address tab.file = .ok tab' := by
  obtain ⟨es', hread', hes', -⟩ := (kept_session hread hes h).file
  exact ⟨_, opened_eq loader address hread' hes'⟩

/-- What a hub tab that lets connect has checked. -/
theorem checked_of_validateHub {tab : Tab} (h : validateHub .connect tab = none) :
    tab.needSave = false ∧ tab.empty .hubaddress = false ∧ tab.number .hubport = false ∧
      tab.empty .nickname = false ∧ tab.empty .password = false := by
  have hmessage : ∀ (b : Bool) (text : Str), (if b = true then [text] else []) = [] ↔
      b = false := by
    intro b text
    cases b <;> simp
  unfold validateHub at h
  split at h
  case isTrue hfailed =>
    -- whatever fails has its error
    simp only [ite_eq_left_iff, reduceCtorEq, imp_false, not_not, List.append_eq_nil_iff,
      if_true, hmessage] at h
    obtain ⟨-, ⟨⟨haddress, hport⟩, hnick⟩, hpass⟩ := h
    rw [haddress, hport, hnick, hpass] at hfailed
    cases hfailed
  case isFalse hpassed =>
    simp only [Bool.or_eq_true, not_or, Bool.not_eq_true] at hpassed
    split at h
    case isTrue => cases h
    case isFalse hsaved =>
      have hclear : tab.needSave = false := by simpa using hsaved
      exact ⟨hclear, hpassed.1.1.1, hpassed.1.1.2, hpassed.1.2, hpassed.2⟩

/-- `cfg/hub.lua` as it comes. -/
def shippedHub : Entries :=
  [(.str (lit "addr"), .str (lit "127.0.0.1")), (.str (lit "keyp"), .str []),
    (.str (lit "name"), .str (lit "Luadch Testhub")), (.str (lit "nick"), .str (lit "Announcer")),
    (.str (lit "pass"), .str (lit "test")), (.str (lit "port"), .str (lit "5001"))]

def shippedFile : Str := written (serialize shippedHub (lit "hub"))

def shippedTab : Tab where
  texts := shownTexts (fun _ => []) shippedHub
  hub := shippedHub
  file := shippedFile
  needSave := false

/-- The file that comes with the program is one the tab can show and save. -/
theorem tidy_shippedHub : Tidy 0 shippedHub := by
  constructor
  · refine ⟨.table ⟨by decide, Or.inl rfl⟩ ?_, rfl⟩
    intro e he
    simp only [shippedHub, List.mem_cons, List.not_mem_nil, or_false] at he
    rcases he with rfl | rfl | rfl | rfl | rfl | rfl <;> exact .str _
  · decide
  · intro control
    right
    cases control with
    | hubport => exact Or.inl ⟨lit "5001", rfl, Or.inr (by decide)⟩
    | _ => exact ⟨_, rfl⟩

/-- It can be read. -/
theorem read_shippedFile : (dataLoader 4).read shippedFile = .table shippedHub := by
  have hname : Identifier (lit "hub") := ⟨by decide, by decide⟩
  have htype : lit "hub" ≠ lit "type" := by decide
  obtain ⟨text, htext, hread⟩ := (dataLoader 4).read_serialize
    tidy_shippedHub.record.storable (Or.inl hname) htype (by decide)
  have hfile : shippedFile = text := by
    rw [shippedFile, htext]
    rfl
  have hnormal : normal (.table shippedHub) = .table shippedHub := by rfl
  rw [hfile, hread, hnormal]

/-- **CONNECT reads what is shown.**  However many times the window was opened on the file, its
fields visited and typed into and the tab saved: the window can be opened again; and when the tab
lets connect, the worker finds in every field of the file what its control shows (the texts up to
white space around them), or the file has no such field and the control shows its default; there is
an address, a nick and a password, and the port that is shown is a number. -/
theorem connect_reads_shown (loader : Loader (spare + 4)) (address : LuaVal → Str) {file : Str}
    {es : Entries} (hread : loader.read file = .table es) (hes : Tidy spare es) {tab : Tab}
    (h : Session loader address file tab) :
    (∃ tab', opened loader address tab.file = .ok tab') ∧
    (validateHub .connect tab = none → ∃ hub, loader.read tab.file = .table hub ∧
      (∀ control : Control, Agrees control (get hub (.str control.key)) (tab.texts control)) ∧
      trim (tab.texts .hubaddress) ≠ [] ∧ trim (tab.texts .nickname) ≠ [] ∧
      trim (tab.texts .password) ≠ [] ∧ LuaNum.ofStr (tab.texts .hubport) ≠ none) := by
  refine ⟨session_opens hread hes h, ?_⟩
  intro hconnect
  obtain ⟨hub, hfile, -, hagrees⟩ := (kept_session hread hes h).file
  obtain ⟨hclear, haddress, hport, hnick, hpass⟩ := checked_of_validateHub hconnect
  refine ⟨hub, hfile, hagrees hclear, of_decide_eq_false haddress, of_decide_eq_false hnick,
    of_decide_eq_false hpass, ?_⟩
  intro hnone
  rw [Tab.number, hnone] at hport
  cases hport

/-- The worker reads what the tab shows, from that file on. -/
theorem connect_reads_shown_shipped :
    ∃ hub, (dataLoader 4).read shippedFile = .table hub ∧ ∀ control : Control,
      Agrees control (get hub (.str control.key)) (shippedTab.texts control) := by
  have hsession : Session (dataLoader 4) (fun _ => []) shippedFile shippedTab :=
    .opened (opened_eq (dataLoader 4) (fun _ => []) read_shippedFile tidy_shippedHub)
  obtain ⟨-, h⟩ := connect_reads_shown (dataLoader 4) (fun _ => []) read_shippedFile
    tidy_shippedHub hsession
  obtain ⟨hub, hread, hagrees, -⟩ := h (by decide)
  exact ⟨hub, hread, hagrees⟩

theorem shownTexts_of_str (address : LuaVal → Str) {hub : Entries} {control : Control}
    (hcontrol : control ≠ .hubport) {text : Str} (h : get hub (.str control.key) = .str text) :
    shownTexts address hub control = text := by
  rw [shownTexts, if_neg hcontrol, h, shown]

/-- **A port can be forgotten.**  Whatever has happened to a tab, if it is saved with no port but
with an address, a nick and a password, and the window is opened again, then the default of the port
is shown and the tab lets connect, while the file the worker reads has no port. -/
theorem port_forgotten {loader : Loader (spare + 4)} {address : LuaVal → Str} {file : Str}
    {es : Entries} (hread : loader.read file = .table es) (hes : Tidy spare es) {tab tab' : Tab}
    (h : Session loader address file tab) (hempty : tab.texts .hubport = [])
    (hfilled : ∀ control ∈ [Control.hubaddress, .nickname, .password],
      trim (tab.texts control) ≠ [])
    (hopened : opened loader address tab.saved.file = .ok tab') :
    tab'.texts .hubport = lit "5001" ∧ validateHub .connect tab' = none ∧
      ∃ hub, loader.read tab'.file = .table hub ∧ get hub (.str (lit "port")) = .nil := by
  have hkept := kept_session hread hes h
  have hzero : LuaNum.digitsValue 10 (tab.texts .hubport) < 2 ^ 63 := by
    rw [hempty]
    decide
  obtain ⟨-, hub, hfile, hhub, hvalues⟩ := saveHubValues_ok loader hkept.hub hkept.port hzero
  have hport : get hub (.str (lit "port")) = .nil := by
    have hvalue := hvalues .hubport
    rw [hempty] at hvalue
    exact hvalue
  rw [saved_eq, opened_eq loader address hfile hhub] at hopened
  injection hopened with hopened
  have htext : tab'.texts .hubport = lit "5001" := by
    rw [← hopened]
    show shownPort address (get hub (.str (lit "port"))) = _
    rw [hport, shownPort_nil]
  have hnumber : tab'.number .hubport = false := by
    rw [Tab.number, htext]
    decide
  have hempties : ∀ control ∈ [Control.hubaddress, .nickname, .password],
      tab'.empty control = false := by
    intro control hmem
    have hcontrol : control ≠ .hubport := by
      rintro rfl
      exact absurd hmem (by decide)
    have hvalue : get hub (.str control.key) = .str (trim (tab.texts control)) := by
      rw [hvalues, valueOf, if_neg hcontrol]
    have hshown : tab'.texts control = trim (tab.texts control) := by
      rw [← hopened]
      exact shownTexts_of_str address hcontrol hvalue
    rw [Tab.empty, hshown, decide_eq_false_iff_not]
    exact fun hblank => hfilled control hmem ((trim_trim _).symm.trans hblank)
  simp only [List.forall_mem_cons] at hempties
  obtain ⟨haddress, hnick, hpass, -⟩ := hempties
  have hclear : tab'.needSave = false := by rw [← hopened]
  refine ⟨htext, ?_, hub, ?_, hport⟩
  · simp [validateHub, haddress, hnumber, hnick, hpass, hclear]
  · rw [← hopened]
    exact hfile

/-- With its port deleted and saved, no port is in the file, and CONNECT is not held up by
this tab. -/
theorem port_forgotten_shipped : ∃ tab', opened (dataLoader 4) (fun _ => [])
      (shippedTab.visited .hubport (some [])).saved.file = .ok tab' ∧
    validateHub .connect tab' = none ∧
    ∃ hub, (dataLoader 4).read tab'.file = .table hub ∧ get hub (.str (lit "port")) = .nil := by
  have hsession : Session (dataLoader 4) (fun _ => []) shippedFile
      (shippedTab.visited .hubport (some [])) :=
    .visited .hubport (some [])
      (.opened (opened_eq (dataLoader 4) (fun _ => []) read_shippedFile tidy_shippedHub))
  obtain ⟨tab', hopened⟩ :=
    session_opens read_shippedFile tidy_shippedHub (.saved hsession (by decide))
  obtain ⟨-, hconnect, hport⟩ := port_forgotten read_shippedFile tidy_shippedHub hsession rfl
    (by decide) hopened
  exact ⟨tab', hopened, hconnect, hport⟩

end LuadchAnnouncer.Frontends.HubTab
