import LuadchAnnouncer.Core.Net

/-!
# The status file

The worker turns every status event into an update of `core/status.lua`, and
the GUI reads that file whenever it wants to know about a key.  The two are
separate processes, so the GUI may open the file between any two of the
worker's file operations.

The update goes through `util.savetable_atomic`: the table is written to a file
beside the target, the target is removed, and the new file is renamed into its
place.  A file that has the name of the target is never written to again, so
what `get_status` returns is settled when it opens the file.

The file operations are those of a POSIX system, and none of them fails here.
What is in a file is taken for what loading it comes to; `StatusDisk` has the bytes.

## Main results

* `ensures_onStatus` — one event: a reader is served at every moment at which there
  is a file, and behind the handler the file has the value.
* `reads_current_iff` — all events: once a key has a completed event, a read gives the
  value of the last one, or of the one in progress, exactly if the file is there.
* `read_removed_empty` — the moment at which it is not.
-/

namespace LuadchAnnouncer.Frontends.StatusFile

open LuadchAnnouncer.Verified.Bytes
open LuadchAnnouncer.Verified.LuaValue
open LuadchAnnouncer.Verified.Program
open LuadchAnnouncer.Core.Net (StatusKey)

/-! ## Files -/

/-- The table `status`; an absent key is `nil`. -/
abbrev Table := StatusKey → Option Str

def Table.set (tbl : Table) (key : StatusKey) (value : Str) : Table :=
  fun k => if k = key then some value else tbl k

/-- The text of a file by what loading it comes to: the table its chunk
returns, or nothing, as for an empty file and for one cut off half-way. -/
inductive Text where
  | table (tbl : Table)
  | invalid

/-- The files `path` and `path .. ".tmp"`; `none` is no file. -/
structure Files where
  path : Option Text
  tmp : Option Text

/-- `util.loadtable( path )` -/
def Files.loadtable (files : Files) : Option Table :=
  match files.path with
  | none => none
  | some .invalid => none
  | some (.table tbl) => some tbl

/-- The GUI's `get_status( path, key )`. -/
def Files.getStatus (files : Files) (key : StatusKey) : Str :=
  match files.loadtable with
  | some tbl => (tbl key).getD []
  | none => []

/-! ## The status handler -/

/-- A status event.  `net.lua` emits no empty text, and a cipher has a name. -/
structure Event where
  key : StatusKey
  value : Str
  nonempty : value ≠ []

inductive FileEff where
  /-- `io.open( path, "a+" )`, closed again -/
  | touch
  | load
  /-- `io.open( tmp, "w+" )` -/
  | openTmp
  /-- the writes of `savetable` up to its `file:close( )` -/
  | writeTmp (tbl : Table)
  /-- `os.remove( path )` -/
  | remove
  /-- `os.rename( tmp, path )` -/
  | rename
  /-- `os.remove( tmp )` -/
  | removeTmp
  /-- `events.emit` calls the handler -/
  | called (ev : Event)
  /-- the handler has returned -/
  | returned (ev : Event)

abbrev FileReply : FileEff → Type
  | .load => Option Table
  | .openTmp => Bool
  | .rename => Bool
  | _ => Unit

abbrev FileAct (α : Type) := Prog FileEff FileReply LuaError Unit α

def openTmp : FileAct Bool := Prog.effect FileEff.openTmp

def rename : FileAct Bool := Prog.effect FileEff.rename

def load : FileAct (Option Table) := Prog.effect FileEff.load

def act (e : FileEff) : FileAct (FileReply e) := Prog.effect e

/-- `savetable( tbl, name, tmp )` -/
def savetable (tbl : Table) : FileAct Bool := do
  if ← openTmp then
    let _ ← act (.writeTmp tbl)
    return true
  else return false

/-- `savetable_atomic( tbl, name, path )` -/
def savetableAtomic (tbl : Table) : FileAct Bool := do
  if ← savetable tbl then
    let _ ← act .remove
    if ← rename then return true
    else
      let _ ← act .removeTmp
      return false
  else return false

/-- The handler of `events.on( "status", .. )`. -/
def onStatus (key : StatusKey) (value : Str) : FileAct Unit := do
  let _ ← act .touch
  let tbl ← load
  let _ ← savetableAtomic ((tbl.getD fun _ => none).set key value)

/-- One event after the other. -/
def onEvents (events : List Event) : FileAct Unit :=
  events.foldlM (fun _ ev => do
    let _ ← act (.called ev)
    onStatus ev.key ev.value
    let _ ← act (.returned ev)) ()

/-! ## Running beside a reader -/

/-- The files, and how far the worker has got with its events. -/
structure State where
  files : Files
  completed : Table
  current : Option Event

def State.start (files : Files) : State :=
  { files := files, completed := fun _ => none, current := none }

def State.setPath (s : State) (path : Option Text) : State :=
  { s with files := { s.files with path := path } }

def State.setTmp (s : State) (tmp : Option Text) : State :=
  { s with files := { s.files with tmp := tmp } }

/-- What an operation does, and what it answers. -/
def State.step (s : State) : (e : FileEff) → FileReply e × State
  | .touch => ((), s.setPath (some (s.files.path.getD .invalid)))
  | .load => (s.files.loadtable, s)
  | .openTmp => (true, s.setTmp (some .invalid))
  | .writeTmp tbl => ((), s.setTmp (some (.table tbl)))
  | .remove => ((), s.setPath none)
  | .rename =>
      match s.files.tmp with
      | none => (false, s)
      | some text => (true, (s.setPath (some text)).setTmp none)
  | .removeTmp => ((), s.setTmp none)
  | .called ev => ((), { s with current := some ev })
  | .returned ev =>
      ((), { s with completed := s.completed.set ev.key ev.value, current := none })

def Worker (s : State) (e : FileEff) (reply : FileReply e) (s' : State) : Prop :=
  s.step e = (reply, s')

/-- What a reader is owed: a text, of the last completed event for the key or
of the one in progress. -/
def Current (s : State) (key : StatusKey) : Prop :=
  s.files.getStatus key ≠ [] ∧
    (s.completed key = some (s.files.getStatus key) ∨
      ∃ ev, s.current = some ev ∧ ev.key = key ∧ ev.value = s.files.getStatus key)

/-! ## What the file holds -/

/-- The moment is as it should be: a reader gets what it is owed if and only if
there is a file to open. -/
def Readable (s : State) : Prop :=
  ∀ key, s.completed key ≠ none → (Current s key ↔ s.files.path ≠ none)

/-- No completed event has left an empty text. -/
def Texts (completed : Table) : Prop := ∀ key, completed key ≠ some []

/-- The file has what the completed events have left, if there are any. -/
def Held (s : State) : Prop :=
  (∀ key, s.completed key = none) ∨
    ∃ tbl, s.files.path = some (.table tbl) ∧
      ∀ key value, s.completed key = some value → tbl key = some value

/-- The table has the value of the event, and of the completed ones the rest. -/
def Table.Has (tbl : Table) (ev : Event) (completed : Table) : Prop :=
  tbl ev.key = some ev.value ∧
    ∀ key value, key ≠ ev.key → completed key = some value → tbl key = some value

theorem Files.getStatus_table {files : Files} {tbl : Table} {key : StatusKey} {value : Str}
    (hpath : files.path = some (.table tbl)) (hkey : tbl key = some value) :
    files.getStatus key = value := by
  simp [Files.getStatus, Files.loadtable, hpath, hkey]

/-- A file that has what the completed events have left serves its readers. -/
theorem readable_of_held {s : State} (htexts : Texts s.completed) (h : Held s) :
    Readable s := by
  intro key hkey
  rcases h with hnone | ⟨tbl, hpath, htbl⟩
  · exact absurd (hnone key) hkey
  · obtain ⟨value, hvalue⟩ := Option.ne_none_iff_exists'.mp hkey
    have hget := Files.getStatus_table hpath (htbl key value hvalue)
    constructor
    · intro _ hnone
      rw [hpath] at hnone
      cases hnone
    · intro _
      refine ⟨?_, Or.inl (by rw [hget, hvalue])⟩
      rintro hempty
      rw [hget] at hempty
      exact htexts key (hempty ▸ hvalue)

/-- So does one with the event in progress in it and the others as they were. -/
theorem readable_of_has {s : State} {ev : Event} {tbl : Table} (htexts : Texts s.completed)
    (hcurrent : s.current = some ev) (hpath : s.files.path = some (.table tbl))
    (htbl : tbl.Has ev s.completed) : Readable s := by
  intro key hkey
  obtain ⟨value, hvalue⟩ := Option.ne_none_iff_exists'.mp hkey
  constructor
  · intro _ hnone
    rw [hpath] at hnone
    cases hnone
  · intro _
    by_cases hsame : key = ev.key
    · subst hsame
      have hget := Files.getStatus_table hpath htbl.1
      exact ⟨by rw [hget]; exact ev.nonempty, Or.inr ⟨ev, hcurrent, rfl, hget.symm⟩⟩
    · have hget := Files.getStatus_table hpath (htbl.2 key value hsame hvalue)
      refine ⟨?_, Or.inl (by rw [hget, hvalue])⟩
      intro hempty
      rw [hget] at hempty
      exact htexts key (hempty ▸ hvalue)

/-- Between `os.remove` and `os.rename` there is nothing to read. -/
theorem readable_of_removed {s : State} (hpath : s.files.path = none) : Readable s := by
  intro key _
  constructor
  · rintro ⟨hne, -⟩
    exact absurd (by simp [Files.getStatus, Files.loadtable, hpath]) hne
  · intro hpresent
    exact absurd hpath hpresent

/-! ## One event -/

/-- A program goes on behind one operation with its answer and the state it leaves. -/
theorem ensures_act {α : Type} {e : FileEff} {k : FileReply e → FileAct α} {s : State}
    {Q : Outcome LuaError Unit α → State → Prop} (hrun : Q .running s)
    (h : Ensures Worker (k (s.step e).1) (s.step e).2 Q) :
    Ensures Worker (Prog.bind (Prog.effect e) k) s Q := by
  refine ensures_effect_bind.mpr ⟨hrun, ?_⟩
  rintro reply s' hstep
  rw [Worker] at hstep
  rw [hstep] at h
  exact h

/-- Reading works at every moment of a stage. -/
abbrev Stage {α : Type} (Next : α → State → Prop) : Outcome LuaError Unit α → State → Prop :=
  Outcome.andThen (fun _ : Outcome LuaError Unit Unit => Readable) Next

/-- What the handler makes of what it has loaded. -/
theorem has_set {s : State} (h : Held s) (ev : Event) :
    ((s.files.loadtable.getD fun _ => none).set ev.key ev.value).Has ev s.completed := by
  refine ⟨by simp [Table.set], ?_⟩
  intro key value hne hvalue
  rcases h with hnone | ⟨tbl, hpath, htbl⟩
  · rw [hnone key] at hvalue
    cases hvalue
  · simp [Table.set, hne, Files.loadtable, hpath, htbl key value hvalue]

/-- Opening the file for appending does no harm. -/
theorem Held.touch {s : State} (h : Held s) :
    Held (s.setPath (some (s.files.path.getD .invalid))) := by
  rcases h with hnone | ⟨tbl, hpath, htbl⟩
  · exact Or.inl hnone
  · exact Or.inr ⟨tbl, by simp [State.setPath, hpath], htbl⟩

/-- **The handler.**  At every moment of it a reader is served if there is a
file, and at its end the file has the value. -/
theorem ensures_onStatus (ev : Event) (s : State) (hcurrent : s.current = some ev)
    (htexts : Texts s.completed) (hheld : Held s) :
    Ensures Worker (onStatus ev.key ev.value) s (Stage fun _ s' =>
      Readable s' ∧ s'.completed = s.completed ∧
        ∃ tbl, s'.files.path = some (.table tbl) ∧ tbl.Has ev s.completed) := by
  have hheld₁ := hheld.touch
  have hset := has_set hheld₁ ev
  have hread : ∀ s' : State, s'.completed = s.completed → Held s' → Readable s' := by
    intro s' hsame hs'
    exact readable_of_held (hsame ▸ htexts) hs'
  refine ensures_act (hread _ rfl hheld) ?_
  refine ensures_act (hread _ rfl hheld₁) ?_
  -- from here on `path` holds what it held until it is removed
  refine ensures_act (hread _ rfl hheld₁) ?_
  refine ensures_act (hread _ rfl hheld₁) ?_
  refine ensures_act (hread _ rfl hheld₁) ?_
  refine ensures_act (readable_of_removed rfl) ?_
  have hfinal : Readable ((s.setPath (some (.table
      (((s.setPath (some (s.files.path.getD .invalid))).files.loadtable.getD
        fun _ => none).set ev.key ev.value)))).setTmp none) :=
    readable_of_has htexts hcurrent rfl hset
  exact ensures_ret.mpr ⟨hfinal, hfinal, rfl, _, rfl, hset⟩

/-! ## All events -/

/-- Between two events. -/
structure Rest (s : State) : Prop where
  idle : s.current = none
  texts : Texts s.completed
  held : Held s

theorem Rest.readable {s : State} (h : Rest s) : Readable s := readable_of_held h.texts h.held

theorem rest_start (files : Files) : Rest (State.start files) where
  idle := rfl
  texts := by rintro key ⟨⟩
  held := Or.inl fun _ => rfl

/-- A handler that has returned leaves its value among the completed ones. -/
theorem rest_returned {s s' : State} {ev : Event} {tbl : Table} (htexts : Texts s.completed)
    (hsame : s'.completed = s.completed) (hpath : s'.files.path = some (.table tbl))
    (htbl : tbl.Has ev s.completed) : Rest (s'.step (.returned ev)).2 where
  idle := rfl
  texts := by
    intro key hkey
    simp only [State.step, Table.set, hsame] at hkey
    split at hkey
    case isTrue => exact ev.nonempty (Option.some.inj hkey)
    case isFalse => exact htexts key hkey
  held := by
    refine Or.inr ⟨tbl, hpath, ?_⟩
    intro key value hvalue
    simp only [State.step, Table.set, hsame] at hvalue
    split at hvalue
    case isTrue heq =>
      rw [Option.some.injEq] at hvalue
      rw [heq, ← hvalue]
      exact htbl.1
    case isFalse hne => exact htbl.2 key value hne hvalue

/-- Every moment of the worker is as it should be: between two events `Rest` carries over,
and inside of one the stage of its handler does. -/
theorem ensures_readable (files : Files) (events : List Event) :
    Ensures Worker (onEvents events) (State.start files) fun _ s => Readable s := by
  refine ensures_foldlM (I := fun _ _ s => Rest s) ?_ ?_ ?_ events () _ (rest_start files)
  · exact fun _ _ s h => h.readable
  · exact fun _ s h => h.readable
  · intro ev rest _ s h
    refine ensures_act h.readable ?_
    refine ensures_stage_bind (ensures_onStatus ev _ rfl h.texts h.held) ?_
    intro _ s' hdone
    obtain ⟨hread, hsame, tbl, hpath, htbl⟩ := hdone
    have hrest := rest_returned h.texts hsame hpath htbl
    refine ensures_act hread ?_
    exact ensures_ret.mpr ⟨hrest.readable, hrest⟩

/-- **Reading beside the worker, exactly.**  Whatever the two files were before
and whatever the events are: once a key has a completed event, a reader gets
the text of the last one, or of the one being handled, if and only if the
status file is there when it is opened. -/
theorem reads_current_iff (files : Files) (events : List Event) :
    Ensures Worker (onEvents events) (State.start files) fun _ s =>
      ∀ key, s.completed key ≠ none → (Current s key ↔ s.files.path ≠ none) :=
  ensures_readable files events

/-- The worker gets through `n` file operations. -/
def steps : State × Nat → (e : FileEff) → Option (FileReply e × (State × Nat))
  | (s, n + 1), e => some ((s.step e).1, (s.step e).2, n)
  | (_, 0), _ => none

/-- The run of the example takes the steps of the model, as far as its fuel goes. -/
theorem worker_steps {s s' : State × Nat} {e : FileEff} {reply : FileReply e}
    (h : steps s e = some (reply, s')) : Worker s.1 e reply s'.1 := by
  obtain ⟨s, n⟩ := s
  cases n with
  | zero => cases h
  | succ n =>
      simp only [steps, Option.some.injEq, Prod.mk.injEq] at h
      obtain ⟨rfl, rfl⟩ := h
      rfl

/-- The first two events of a login, and a read in the middle of the second:
the GUI is told that the key it has seen a value for is empty. -/
theorem read_removed_empty :
    ¬ ∀ (files : Files) (events : List Event),
      Ensures Worker (onEvents events) (State.start files) fun _ s =>
        ∀ key, s.completed key ≠ none → Current s key := by
  intro hall
  let events : List Event := [
    ⟨.hubconnect, lit "Connected. Try a SSL handshake...", by decide⟩,
    ⟨.hubhandshake, lit "Generate keyprint...", by decide +kernel⟩]
  let start := State.start ⟨none, none⟩
  have hexec : Exec Worker (onEvents events) start ((onEvents events).run steps (start, 14)).1
      ((onEvents events).run steps (start, 14)).2.1 :=
    exec_run_view steps Prod.fst (fun _ _ _ _ => worker_steps) (onEvents events) (start, 14)
  have hdone : ((onEvents events).run steps (start, 14)).2.1.completed .hubconnect ≠ none := by
    decide
  have hempty : ((onEvents events).run steps (start, 14)).2.1.files.getStatus .hubconnect =
      [] := by decide
  exact (hall ⟨none, none⟩ events _ _ hexec .hubconnect hdone).1 hempty

end LuadchAnnouncer.Frontends.StatusFile
