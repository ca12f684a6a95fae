import LuadchAnnouncer.Core.SaveTable
import LuadchAnnouncer.Frontends.StatusFile
import LuadchAnnouncer.Verified.LuaRecord

/-!
# The status file on disk

`StatusFile` takes a file for what loading it comes to.  Here a file is its
bytes: the worker writes what `serialize` makes of the table, and worker and GUI
read them with `loadtable`, which runs the text as a Lua chunk.

`Shows` says what bytes come to, and `Shown` that the two files of one model are
those of the other.  Each file operation keeps it (`Shown.step`), and so at every
moment of a run `get_status`, over the bytes, gives what a reader is owed.

The file may hold fields of other names, which the worker writes back.

## Main results

* `Shown.written` — the worker's update: what it loads and writes back holds the
  table with the value of the event.
* `onDisk_savetableAtomic` — its operations are those of `savetable_atomic`.
* `Shown.getStatus` — what the GUI reads from the bytes.
* `bytes_current` — all events, beside a reader, on the bytes.
-/

namespace LuadchAnnouncer.Frontends.StatusDisk

open LuadchAnnouncer.Verified
open LuadchAnnouncer.Verified.Bytes
open LuadchAnnouncer.Verified.LuaValue
open LuadchAnnouncer.Verified.LuaTable (Entries normal normal_table)
open LuadchAnnouncer.Verified.LuaData
open LuadchAnnouncer.Verified.LuaRecord
open LuadchAnnouncer.Verified.LuaSource (Globals load)
open LuadchAnnouncer.Verified.Program
open LuadchAnnouncer.Core.Net (StatusKey)
open LuadchAnnouncer.Verified.Writing (Medium)
open LuadchAnnouncer.Core.Util (serialize loadtable callable load_serialize loadtable_serialize
  Identifier)
open LuadchAnnouncer.Core.SaveTable (savetable_sound remove tmpOf tmpOf_ne)
open LuadchAnnouncer.Frontends.StatusFile

/-! ## The table -/

/-- The name of the field of a key. -/
def fieldName : StatusKey → Str
  | .hubconnect => lit "hubconnect"
  | .hubhandshake => lit "hubhandshake"
  | .hubkeyp => lit "hubkeyp"
  | .support => lit "support"
  | .hubsupport => lit "hubsupport"
  | .hubosnr => lit "hubosnr"
  | .hubsid => lit "hubsid"
  | .hubinf => lit "hubinf"
  | .owninf => lit "owninf"
  | .passwd => lit "passwd"
  | .hubsalt => lit "hubsalt"
  | .hublogin => lit "hublogin"
  | .cipher => lit "cipher"

def statusKeys : List StatusKey :=
  [.hubconnect, .hubhandshake, .hubkeyp, .support, .hubsupport, .hubosnr, .hubsid, .hubinf,
    .owninf, .passwd, .hubsalt, .hublogin, .cipher]

theorem mem_statusKeys (key : StatusKey) : key ∈ statusKeys := by
  cases key <;> decide

/-- Two keys do not share a field. -/
theorem fieldName_inj {key other : StatusKey} (h : fieldName key = fieldName other) :
    key = other := by
  have hnodup : (statusKeys.map fieldName).Nodup := by decide +kernel
  exact List.inj_on_of_nodup_map hnodup (mem_statusKeys key) (mem_statusKeys other) h

/-- The value of a field. -/
def valueOf : Option Str → LuaVal
  | none => .nil
  | some value => .str value

/-- The table of a file: a record that has the texts of `tbl` under its keys, not nested
more deeply than the parser goes. -/
structure Holds (l : Nat) (es : Entries) (tbl : Table) : Prop where
  record : Record es
  fits : levels (.table es) < l
  fields : ∀ key, field (.table es) (fieldName key) = valueOf (tbl key)

variable {l : Nat}

/-- `{ }` -/
theorem holds_nil (hl : 1 < l) : Holds l [] fun _ => none where
  record := ⟨.table ⟨List.Pairwise.nil, Or.inl rfl⟩ (fun e he => absurd he (by simp)), rfl⟩
  fits := hl
  fields := fun _ => rfl

/-- `tbl[ key ] = value` -/
theorem Holds.set {es : Entries} {tbl : Table} (h : Holds l es tbl) (hl : 2 < l)
    (key : StatusKey) (value : Str) :
    Holds l (LuaTable.set es (.str (fieldName key)) (.str value)) (tbl.set key value) where
  record := h.record.set (fieldName key) (.str value)
  fits := by
    have hfits := h.fits
    have hlevels : levels (.str value) ≤ l - 2 := by
      rw [levels]
      · omega
      · simp
      · simp
    have hset : levels (.table (LuaTable.set es (.str (fieldName key)) (.str value))) ≤
        l - 2 + 1 :=
      levels_set (Storable.str value).ne_nil (by omega) hlevels (by omega)
    omega
  fields := by
    intro other
    by_cases hsame : other = key
    · subst hsame
      rw [field_set_self (Storable.str value).ne_nil]
      simp [Table.set, valueOf]
    · have hne : fieldName key ≠ fieldName other := fun heq => hsame (fieldName_inj heq).symm
      rw [field_set_of_ne (Storable.str value).ne_nil es hne, h.fields]
      simp [Table.set, hsame]

/-- Its keys may be sorted. -/
theorem Holds.sorted {es : Entries} {tbl : Table} (h : Holds l es tbl) :
    ∃ es', normal (.table es) = .table es' ∧ Holds l es' tbl := by
  refine ⟨_, normal_table es, h.record.sorted, ?_, ?_⟩
  · rw [← normal_table, levels_normal h.record.storable]
    exact h.fits
  · intro key
    rw [← normal_table, h.record.field_normal, h.fields]
    cases tbl key with
    | none => rfl
    | some value => rfl

/-! ## What bytes come to -/

/-- The file at `path` is loaded as this, by any process that has not lost `type`. -/
def Shows (l : Nat) (disk : Core.Util.Files) (path : Str) : Option Text → Prop
  | none => disk path = none
  | some .invalid => disk path ≠ none ∧ ∀ globals, callable (globals (lit "type")) = true →
      ∃ globals', loadtable l path disk globals = .ok (.nil, globals')
  | some (.table tbl) => disk path ≠ none ∧ ∃ es, Holds l es tbl ∧
      ∀ globals, callable (globals (lit "type")) = true →
        ∃ globals', loadtable l path disk globals = .ok (.table es, globals')

/-- It is a property of what is in the file. -/
theorem Shows.congr {disk disk' : Core.Util.Files} {path path' : Str} {text : Option Text}
    (h : Shows l disk path text) (hsame : disk' path' = disk path) :
    Shows l disk' path' text := by
  have hload : ∀ globals, loadtable l path' disk' globals = loadtable l path disk globals := by
    intro globals
    unfold loadtable
    rw [hsame]
  cases text with
  | none => exact hsame.trans h
  | some text =>
      cases text with
      | invalid =>
          refine ⟨by rw [hsame]; exact h.1, ?_⟩
          simp only [hload]
          exact h.2
      | table tbl =>
          refine ⟨by rw [hsame]; exact h.1, ?_⟩
          simp only [hload]
          exact h.2

/-- There is a file exactly if the model has one. -/
theorem Shows.exists_iff {disk : Core.Util.Files} {path : Str} {text : Option Text}
    (h : Shows l disk path text) : disk path ≠ none ↔ text ≠ none := by
  cases text with
  | none => exact iff_of_false (fun hne => hne h) (fun hne => hne rfl)
  | some text =>
      refine iff_of_true ?_ (by simp)
      cases text with
      | invalid => exact h.1
      | table tbl => exact h.1

/-- An empty file is a chunk that returns nothing. -/
theorem shows_empty {disk : Core.Util.Files} {path : Str} (hfile : disk path = some []) :
    Shows l disk path (some .invalid) := by
  have hload : load l [] = some ⟨[], .nothing⟩ := by
    cases l <;> rfl
  refine ⟨by rw [hfile]; simp, ?_⟩
  intro globals _
  refine ⟨globals, ?_⟩
  unfold loadtable
  simp only [hfile, hload]
  rfl

/-- The text `savetable` writes is loaded as the table, with its keys sorted. -/
theorem shows_serialize {disk : Core.Util.Files} {path text : Str} {es : Entries} {tbl : Table}
    (h : Holds l es tbl) (htext : serialize es (lit "status") = .ok text)
    (hfile : disk path = some text) : Shows l disk path (some (.table tbl)) := by
  have hname : Identifier (lit "status") := by
    constructor
    · decide
    · decide
  obtain ⟨es', hsorted, hholds⟩ := h.sorted
  refine ⟨by rw [hfile]; simp, es', hholds, ?_⟩
  intro globals hlib
  have hloaded := (loadtable_serialize h.record.storable (Or.inl hname) (by decide) h.fits hlib
    htext hfile).2
  rw [hsorted] at hloaded
  exact ⟨_, hloaded⟩

/-! ## The file operations -/

/-- What an operation of the worker does to the bytes.  It writes the text of a table that
holds the one of the model. -/
def OnDisk (l : Nat) (path : Str) (disk : Core.Util.Files) (e : FileEff)
    (disk' : Core.Util.Files) : Prop :=
  match e with
  | .touch => disk' = Function.update disk path (some ((disk path).getD []))
  | .openTmp => disk' = Function.update disk (tmpOf path) (some [])
  | .writeTmp tbl => ∃ es text, Holds l es tbl ∧ serialize es (lit "status") = .ok text ∧
      disk' = Function.update disk (tmpOf path) (some text)
  | .remove => disk' = Function.update disk path none
  | .rename => disk' = if disk (tmpOf path) = none then disk
      else Function.update (Function.update disk path (disk (tmpOf path))) (tmpOf path) none
  | .removeTmp => disk' = Function.update disk (tmpOf path) none
  | .load | .called _ | .returned _ => disk' = disk

/-- The two files are those of the model. -/
structure Shown (l : Nat) (path : Str) (disk : Core.Util.Files) (files : Files) : Prop where
  file : Shows l disk path files.path
  tmp : Shows l disk (tmpOf path) files.tmp

section

variable {path : Str} {disk disk' : Core.Util.Files} {files : Files} {s : State}

/-- A file is written, and the other one left alone. -/
theorem shows_update {other : Str} {content : Option Str} {text : Option Text}
    (h : Shows l disk other text) (hne : other ≠ path) :
    Shows l (Function.update disk path content) other text :=
  h.congr (Function.update_of_ne hne _ _)

/-- **One operation.**  What it does to the bytes is what it does to the model. -/
theorem Shown.step (h : Shown l path disk s.files) {e : FileEff}
    (hdisk : OnDisk l path disk e disk') :
    Shown l path disk' (s.step e).2.files := by
  have htmp := tmpOf_ne path
  cases e with
  | touch =>
      rw [OnDisk] at hdisk
      subst hdisk
      refine ⟨?_, shows_update h.tmp htmp⟩
      -- an empty file where there was none
      cases hpath : s.files.path with
      | none =>
          have hnone := h.file
          rw [hpath, Shows] at hnone
          have hcontent : (disk path).getD [] = [] := by rw [hnone]; rfl
          simp only [State.step, State.setPath, hpath, Option.getD_none]
          exact shows_empty (by rw [Function.update_self, hcontent])
      | some text =>
          have hshown := h.file
          obtain ⟨content, hcontent⟩ := Option.ne_none_iff_exists'.mp
            (h.file.exists_iff.mpr (by rw [hpath]; simp))
          rw [hpath] at hshown
          simp only [State.step, State.setPath, hpath, Option.getD_some]
          exact hshown.congr (by rw [Function.update_self, hcontent]; rfl)
  | load =>
      rw [OnDisk] at hdisk
      subst hdisk
      exact h
  | openTmp =>
      rw [OnDisk] at hdisk
      subst hdisk
      exact ⟨shows_update h.file htmp.symm, shows_empty (Function.update_self _ _ _)⟩
  | writeTmp tbl =>
      obtain ⟨es, text, hholds, htext, rfl⟩ := hdisk
      exact ⟨shows_update h.file htmp.symm,
        shows_serialize hholds htext (Function.update_self _ _ _)⟩
  | remove =>
      rw [OnDisk] at hdisk
      subst hdisk
      exact ⟨Function.update_self _ _ _, shows_update h.tmp htmp⟩
  | rename =>
      rw [OnDisk] at hdisk
      subst hdisk
      cases hfile : s.files.tmp with
      | none =>
          have hnone := h.tmp
          rw [hfile, Shows] at hnone
          rw [if_pos hnone]
          simp only [State.step, hfile]
          exact h
      | some text =>
          have hshown := h.tmp
          have hsome := h.tmp.exists_iff.mpr (by rw [hfile]; simp)
          rw [hfile] at hshown
          rw [if_neg hsome]
          simp only [State.step, hfile]
          constructor
          · apply hshown.congr
            rw [Function.update_of_ne htmp.symm, Function.update_self]
          · exact Function.update_self _ _ _
  | removeTmp =>
      rw [OnDisk] at hdisk
      subst hdisk
      exact ⟨shows_update h.file htmp.symm, Function.update_self _ _ _⟩
  | called ev =>
      rw [OnDisk] at hdisk
      subst hdisk
      exact h
  | returned ev =>
      rw [OnDisk] at hdisk
      subst hdisk
      exact h

/-- Nothing on disk, and nothing in the model. -/
example : Shown l path (fun _ => none) ⟨none, none⟩ := ⟨rfl, rfl⟩

/-- **The five operations** of the worker are `savetable_atomic`, where none of them fails. -/
theorem onDisk_savetableAtomic {es : Entries} {tbl : Table} (h : Holds l es tbl) :
    ∃ disk₁ disk₂ disk₃, OnDisk l path disk .openTmp disk₁ ∧
      OnDisk l path disk₁ (.writeTmp tbl) disk₂ ∧ OnDisk l path disk₂ .remove disk₃ ∧
        OnDisk l path disk₃ .rename (Core.SaveTable.savetableAtomic
          ⟨true, Medium.sound, true, true, true⟩ es (lit "status") path disk).files := by
  have hname : Identifier (lit "status") := by
    constructor
    · decide
    · decide
  obtain ⟨text, htext, -⟩ := load_serialize h.record.storable (Or.inl hname) h.fits
  have htmp := tmpOf_ne path
  refine ⟨_, _, _, rfl, ⟨es, text, h, htext, rfl⟩, rfl, ?_⟩
  rw [Function.update_idem]
  have hleft : Function.update (Function.update disk (tmpOf path) (some text)) path none
      (tmpOf path) = some text := by
    rw [Function.update_of_ne htmp, Function.update_self]
  rw [OnDisk, if_neg (by rw [hleft]; simp)]
  simp only [Core.SaveTable.savetableAtomic, savetable_sound htext, remove, if_true]

/-! ## Reading and writing back -/

/-- `loadtable( status_file ) or { }` -/
def orEmpty (ret : LuaVal) : Entries :=
  match ret with
  | .table es => es
  | _ => []

/-- `get_status( file, key )` -/
def getStatus (l : Nat) (path key : Str) (disk : Core.Util.Files) (globals : Globals) :
    Except LuaError LuaVal := do
  let (tbl, _) ← loadtable l path disk globals
  if tbl.truthy then .ok (if (field tbl key).truthy then field tbl key else .str [])
  else .ok (.str [])

/-- What a load comes to, beside one of the model: a table that holds the model's, or nothing
where the model has none. -/
def Loads (l : Nat) : Option Table → LuaVal → Prop
  | none, ret => ret = .nil
  | some tbl, ret => ∃ es, ret = .table es ∧ Holds l es tbl

/-- **A load.**  It never raises, whether there is a file or not and whatever is in it. -/
theorem Shown.loads (h : Shown l path disk files) {globals : Globals}
    (hlib : callable (globals (lit "type")) = true) :
    ∃ ret globals', loadtable l path disk globals = .ok (ret, globals') ∧
      Loads l files.loadtable ret := by
  have hpath := h.file
  unfold Files.loadtable
  cases hfile : files.path with
  | none =>
      rw [hfile, Shows] at hpath
      refine ⟨.nil, globals, ?_, rfl⟩
      unfold loadtable
      rw [hpath]
  | some text =>
      rw [hfile] at hpath
      cases text with
      | invalid =>
          obtain ⟨globals', hloaded⟩ := hpath.2 globals hlib
          exact ⟨.nil, globals', hloaded, rfl⟩
      | table tbl =>
          obtain ⟨-, es, hholds, hload⟩ := hpath
          obtain ⟨globals', hloaded⟩ := hload globals hlib
          exact ⟨.table es, globals', hloaded, es, rfl, hholds⟩

/-- **The worker's update.**  The table it writes back, whatever else is in it, is one of those
that hold the table of the model. -/
theorem Shown.written (h : Shown l path disk files) (hl : 2 < l) {globals : Globals}
    (hlib : callable (globals (lit "type")) = true) (key : StatusKey) (value : Str) :
    ∃ ret globals', loadtable l path disk globals = .ok (ret, globals') ∧
      Holds l (LuaTable.set (orEmpty ret) (.str (fieldName key)) (.str value))
        ((files.loadtable.getD fun _ => none).set key value) := by
  obtain ⟨ret, globals', hloaded, hret⟩ := h.loads hlib
  refine ⟨ret, globals', hloaded, ?_⟩
  cases hmodel : files.loadtable with
  | none =>
      rw [hmodel, Loads] at hret
      rw [hret]
      exact (holds_nil (by omega)).set hl key value
  | some tbl =>
      rw [hmodel] at hret
      obtain ⟨es, rfl, hholds⟩ := hret
      exact hholds.set hl key value

/-- **What the GUI reads** from the bytes. -/
theorem Shown.getStatus (h : Shown l path disk files) {globals : Globals}
    (hlib : callable (globals (lit "type")) = true) (key : StatusKey) :
    getStatus l path (fieldName key) disk globals = .ok (.str (files.getStatus key)) := by
  obtain ⟨ret, globals', hloaded, hret⟩ := h.loads hlib
  unfold StatusDisk.getStatus Files.getStatus
  rw [hloaded]
  cases hmodel : files.loadtable with
  | none =>
      rw [hmodel, Loads] at hret
      rw [hret]
      rfl
  | some tbl =>
      rw [hmodel] at hret
      obtain ⟨es, rfl, hholds⟩ := hret
      show Except.ok (if (field (.table es) (fieldName key)).truthy then
        field (.table es) (fieldName key) else .str []) =
          .ok (.str ((tbl key).getD []))
      rw [hholds.fields]
      cases tbl key with
      | none => rfl
      | some value => rfl

end

/-! ## All events -/

/-- The worker, on the model and on the bytes. -/
def Writer (l : Nat) (path : Str) (w : State × Core.Util.Files) (e : FileEff) (reply : FileReply e)
    (w' : State × Core.Util.Files) : Prop :=
  Worker w.1 e reply w'.1 ∧ OnDisk l path w.2 e w'.2

/-- The bytes stay those of the model, by `Shown.step`. -/
theorem ensures_shown {path : Str} {disk : Core.Util.Files} {files : Files}
    (h : Shown l path disk files) (events : List Event) :
    Ensures (Writer l path) (onEvents events) (State.start files, disk) fun _ w =>
      Shown l path w.2 w.1.files := by
  refine ensures_uses (I := fun w : State × Core.Util.Files => Shown l path w.2 w.1.files) ?_
    (Prog.uses_true (onEvents events)) (State.start files, disk) h
  rintro w e reply w' - hshown ⟨hworker, hdisk⟩
  have hstep := hshown.step hdisk
  rw [Worker] at hworker
  rw [hworker] at hstep
  exact hstep

/-- **Reading the bytes beside the worker.**  At every moment of every run, `get_status` gives
what a reader of the model gets, and once a key has a completed event this is what it is owed
exactly if the file is there. -/
theorem bytes_current {path : Str} {disk : Core.Util.Files} {files : Files}
    (h : Shown l path disk files) (events : List Event) {globals : Globals}
    (hlib : callable (globals (lit "type")) = true) :
    Ensures (Writer l path) (onEvents events) (State.start files, disk) fun _ w => ∀ key,
      getStatus l path (fieldName key) w.2 globals = .ok (.str (w.1.files.getStatus key)) ∧
        (w.1.completed key ≠ none → (Current w.1 key ↔ w.2 path ≠ none)) := by
  intro o w hexec key
  have hshown := ensures_shown h events o w hexec
  have hread := ensures_readable files events o w.1
    (hexec.view Prod.fst fun _ _ _ _ hwriter => hwriter.1)
  refine ⟨hshown.getStatus hlib key, ?_⟩
  intro hdone
  rw [hread key hdone]
  exact hshown.file.exists_iff.symm

end LuadchAnnouncer.Frontends.StatusDisk
