import Mathlib.Data.Finset.Insert
import LuadchAnnouncer.Verified.LuaValue

/-!
# `core/log.lua`

Two files live under `log/`: `logfile.txt`, the activity trace, and
`announced.txt`, one announced release name a line.  Each is opened once for
appending and written through that handle for the life of the process, while
the size check goes by *path*: `check_filesize` stats the path and truncates
through a second handle.  `LogFile` keeps the two apart, because somebody
else may rename or delete a file the process still holds open.  For the same
reason a file that is there need not be one that can be opened for writing,
and `LogState.writable` says of each path whether it can: the check closes the
file it has truncated without asking whether there is one, so it raises where
the file is over the limit and the open fails.

`announced.txt` has an in-memory copy, the table `releases`.  `announce.lua`
takes a reference to it when it is loaded and uses it as its table of already
sent releases, which is why a rotation clears it in place.

## Main results

* `formatbytes_isSome_iff` — the one thing that can be wrong with a marker line: a size
  below zero.
* `release_linked`, `event_frame` — what the two calls do where their file is in place.
-/

namespace LuadchAnnouncer.Core.Log

open LuadchAnnouncer.Verified.Bytes
open LuadchAnnouncer.Verified.Double (nearest roundEven)
open LuadchAnnouncer.Verified.LuaValue

/-! ## The two files -/

/-- The two files of the module. -/
inductive LogName where
  | logfile
  | announced
  deriving DecidableEq, Repr

/-- `LOG_PATH .. "logfile.txt"` and `LOG_PATH .. "announced.txt"`. -/
def LogName.path : LogName → Str
  | .logfile => lit "log/" ++ lit "logfile.txt"
  | .announced => lit "log/" ++ lit "announced.txt"

/-- An open log file: either the path still names the file the handle writes
to, or the file was `moved` away and the path names another file or none. -/
inductive LogFile where
  | linked (content : Str)
  | moved (atPath : Option Str) (held : Str)
  deriving DecidableEq, Repr

namespace LogFile

/-- What the path names. -/
def atPath : LogFile → Option Str
  | .linked content => some content
  | .moved there _ => there

/-- `io.open( file, "w+" )`, closed again. -/
def truncate : LogFile → LogFile
  | .linked _ => .linked []
  | .moved _ held => .moved (some []) held

/-- A flushed write through the append handle. -/
def write (s : Str) : LogFile → LogFile
  | .linked content => .linked (content ++ s)
  | .moved there held => .moved there (held ++ s)

end LogFile

/-! ## `util.formatbytes` -/

/-- The units, as the source has them: there is no `ZB`. -/
def units : List Str :=
  [lit "B", lit "KB", lit "MB", lit "GB", lit "TB", lit "PB", lit "EB", lit "YB"]

/-- The text of `maxlogsize` in the marker lines; `none` is the `nil` a
negative number gets. -/
def formatbytes (bytes : Int) : Option Str :=
  if bytes < 0 then none
  else if bytes = 0 then some (lit "0 B")
  else
    -- the first division by 1024 makes a float of the number, the others are exact
    let n := if bytes < 1024 then bytes.toNat else ⌊nearest bytes⌋.toNat
    let i := Nat.log 1024 n
    let suffix := lit " " ++ (units[i]?).getD (lit "?")
    if i = 0 then some (LuaNum.natText n ++ suffix)
    else
      let hundredths := (roundEven ((n * 100 : Nat) / (1024 ^ i : Nat) : Rat)).toNat
      let cents := LuaNum.natText (hundredths % 100)
      some (LuaNum.natText (hundredths / 100) ++ lit "." ++
        (if cents.length < 2 then lit "0" ++ cents else cents) ++ suffix)

/-- The size has a text unless it is negative.  This is what the marker line needs. -/
theorem formatbytes_isSome_iff (bytes : Int) : (formatbytes bytes).isSome = true ↔ 0 ≤ bytes := by
  unfold formatbytes
  by_cases hneg : bytes < 0
  · simp [hneg, Int.not_le.mpr hneg]
  · simp only [hneg, if_false, Int.not_lt.mp hneg, iff_true]
    split
    case isTrue => rfl
    case isFalse =>
      generalize (if bytes < 1024 then bytes.toNat else ⌊nearest bytes⌋.toNat) = n
      split
      case isTrue => rfl
      case isFalse => rfl

/-! ## State and operations -/

/-- The module's upvalues and the two files behind them; `writable` says of
each path whether what it names can be opened with `"w+"`. -/
structure LogState where
  maxlogsize : Int
  logfile : LogFile
  announced : LogFile
  content : Str
  releases : Finset Str
  writable : LogName → Bool

namespace LogState

/-- The state of one of the files. -/
def file (st : LogState) : LogName → LogFile
  | .logfile => st.logfile
  | .announced => st.announced

def setFile (st : LogState) (name : LogName) (f : LogFile) : LogState :=
  match name with
  | .logfile => { st with logfile := f }
  | .announced => { st with announced := f }

/-- A line written to one of them. -/
def write (st : LogState) (name : LogName) (s : Str) : LogState :=
  st.setFile name ((st.file name).write s)

/-- `check_filesize`: truncate the file at the path when it is over the limit,
and the in-memory copy with it.  A path that names nothing has no attributes
to take the size of, and a file that cannot be opened for writing leaves no
file to close. -/
def checkFilesize (st : LogState) (name : LogName) : Except LuaError (Bool × LogState) :=
  match (st.file name).atPath with
  | none => .error .index
  | some there =>
      if st.maxlogsize < (there.length : Int) then
        if st.writable name then
          let st := st.setFile name (st.file name).truncate
          let st := if find name.path (lit "logfile") then { st with content := [] } else st
          let st := if find name.path (lit "announced") then { st with releases := ∅ } else st
          .ok (true, st)
        else .error .index
      else .ok (false, st)

/-- The line that tells that a file was cleared, built in the call that
cleared it. -/
def clearedMarker (st : LogState) (timestamp : Str) (name : Str) : Except LuaError Str :=
  match formatbytes st.maxlogsize with
  | none => .error .concat
  | some size =>
      .ok (timestamp ++ lit "cleared '" ++ name ++ lit "' because of max logfile size: " ++
        size ++ [lf])

/-- `log.release( buf )`. -/
def release (st : LogState) (timestamp buf : Str) : Except LuaError LogState := do
  let (cleared, st) ← st.checkFilesize .announced
  let st := { st with releases := insert buf st.releases }
  let st := st.write .announced (buf ++ [lf])
  if cleared then
    let marker ← st.clearedMarker timestamp (lit "announced.txt")
    return st.write .logfile marker
  else
    return st

/-- `log.event( buf )`. -/
def event (st : LogState) (timestamp buf : Str) : Except LuaError LogState := do
  let (cleared, st) ← st.checkFilesize .logfile
  let buf := timestamp ++ buf
  let st := st.write .logfile (buf ++ [lf])
  let st := { st with content := st.content ++ buf }
  if cleared then
    let marker ← st.clearedMarker timestamp (lit "logfile.txt")
    return st.write .logfile marker
  else
    return st

end LogState

/-! ## Start-up -/

/-- `pre_rotate`: what is left of a file before it is read, given what the
path named. -/
def preRotate (maxlogsize : Int) : Option Str → Option Str
  | none => none
  | some there => if maxlogsize < (there.length : Int) then some [] else some there

/-- Loading the module.  Opening for appending creates a missing file, and the
two files are taken to be ones that can be written to; what becomes of that later
is for others to change. -/
def load (maxlogsize : Int) (logfile announced : Option Str) : LogState :=
  let logfile := (preRotate maxlogsize logfile).getD []
  let announced := (preRotate maxlogsize announced).getD []
  { maxlogsize := maxlogsize
    logfile := .linked logfile
    announced := .linked announced
    content := logfile
    releases := (lines announced).toFinset
    writable := fun _ => true }

/-! ## What one call can do -/

@[simp] theorem path_logfile_find_logfile :
    find LogName.logfile.path (lit "logfile") = true := by decide

@[simp] theorem path_logfile_find_announced :
    find LogName.logfile.path (lit "announced") = false := by decide

@[simp] theorem path_announced_find_logfile :
    find LogName.announced.path (lit "logfile") = false := by decide

@[simp] theorem path_announced_find_announced :
    find LogName.announced.path (lit "announced") = true := by decide

namespace LogState

/-- The call rotates `announced.txt`: the file it finds at the path is over the limit, so
file and names are cleared before the new record is written. -/
def Rotates (st : LogState) (content : Str) : Prop :=
  st.maxlogsize < (content.length : Int)

instance (st : LogState) (content : Str) : Decidable (st.Rotates content) := by
  unfold Rotates
  infer_instance

/-- The check of `announced.txt`, where it is at its path: over the limit it is emptied
together with the names in memory. -/
theorem checkFilesize_announced {st : LogState} {content : Str}
    (hlink : st.announced = .linked content) :
    st.checkFilesize .announced =
      if st.Rotates content then
        if st.writable .announced then
          .ok (true, { st with announced := .linked [], releases := ∅ })
        else .error .index
      else .ok (false, st) := by
  have hpath : (st.file .announced).atPath = some content := by
    rw [file, hlink]
    rfl
  unfold checkFilesize
  rw [hpath]
  simp only [Rotates, path_announced_find_logfile, path_announced_find_announced,
    Bool.false_eq_true, if_false, if_true]
  by_cases hrot : st.maxlogsize < (content.length : Int)
  · simp [hrot, setFile, file, hlink, LogFile.truncate]
  · simp [hrot]

/-- **What `log.release` does** while nobody else touches the files: the name
goes to the end of the file and into the table, both of them emptied first
when the file is over its limit.  `logfile.txt` at most grows. -/
theorem release_linked {st st' : LogState} {timestamp buf content : Str}
    (hlink : st.announced = .linked content)
    (h : st.release timestamp buf = .ok st') :
    st'.announced =
        .linked ((if st.Rotates content then [] else content) ++ (buf ++ [lf])) ∧
      st'.releases = insert buf (if st.Rotates content then ∅ else st.releases) ∧
      st'.maxlogsize = st.maxlogsize ∧
      (∃ marker, st'.logfile = st.logfile.write marker ∨ st'.logfile = st.logfile) ∧
      st'.content = st.content ∧ st'.writable = st.writable := by
  unfold release at h
  rw [checkFilesize_announced hlink] at h
  by_cases hrot : st.Rotates content
  · cases hopen : st.writable .announced with
    | false => simp [hrot, hopen, bind, Except.bind] at h
    | true =>
        simp only [hrot, hopen, if_true, bind, Except.bind, clearedMarker] at h
        cases hfmt : formatbytes st.maxlogsize with
        | none =>
            simp [write, setFile, hfmt] at h
        | some size =>
            simp only [write, setFile, file, hfmt, pure, Except.pure, Except.ok.injEq] at h
            subst h
            simp only [LogFile.write, hrot, if_true, List.nil_append, true_and, and_true]
            exact ⟨_, Or.inl rfl⟩
  · simp only [hrot, if_false, bind, Except.bind, Bool.false_eq_true, pure, Except.pure,
      Except.ok.injEq] at h
    subst h
    simp [write, setFile, file, hlink, LogFile.write, hrot]

/-- `log.event` writes to `logfile.txt` alone: the announced names, on disk and
in memory, are none of its business. -/
theorem event_frame {st st' : LogState} {timestamp buf : Str}
    (h : st.event timestamp buf = .ok st') :
    st'.announced = st.announced ∧ st'.releases = st.releases ∧
      st'.maxlogsize = st.maxlogsize ∧ st'.writable = st.writable := by
  unfold event at h
  unfold checkFilesize at h
  cases hpath : (st.file .logfile).atPath with
  | none => simp [hpath, bind, Except.bind] at h
  | some there =>
      simp only [hpath, path_logfile_find_logfile, path_logfile_find_announced,
        Bool.false_eq_true, if_false, if_true, setFile] at h
      by_cases hrot : st.maxlogsize < (there.length : Int)
      · cases hopen : st.writable .logfile with
        | false => simp [hrot, hopen, bind, Except.bind] at h
        | true =>
            simp only [hrot, hopen, if_true, bind, Except.bind, clearedMarker] at h
            cases hfmt : formatbytes st.maxlogsize with
            | none => simp [write, setFile, hfmt] at h
            | some size =>
                simp only [write, setFile, file, hfmt, pure, Except.pure,
                  Except.ok.injEq] at h
                subst h
                exact ⟨rfl, rfl, rfl, rfl⟩
      · simp only [hrot, if_false, bind, Except.bind, Bool.false_eq_true, pure,
          Except.pure, Except.ok.injEq] at h
        subst h
        exact ⟨rfl, rfl, rfl, rfl⟩

end LogState

end LuadchAnnouncer.Core.Log
