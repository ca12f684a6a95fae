import Mathlib.Logic.Function.Basic
import LuadchAnnouncer.Verified.Raising
import LuadchAnnouncer.Core.LogBound

/-!
# Logs that somebody else rotates

The user guide sends those who want to keep their logs to an external rotation.  That
moves a file away from under the process, and the size check takes the size of what it
finds at the path: where it finds nothing it raises, in the middle of whatever the
caller was about.  It raises as well where it finds a file that is over the limit and
cannot be opened for writing, a copy without the rights or one that another program
holds, because it closes the handle it has got without a look at it.

A run is a list of steps, the calls of the announcer and what others do to the two files
in between: move them, replace them, write to them, take away the right to write to
them and give it back.  `logging_iff` says in which runs every call returns and every
released name is remembered.  Whether a file is at its path can be read off what others
did to it, which is `Undisturbed`; whether it is over its limit depends on what the
calls have written, so `Openable` is asked of the state each call is made in.

## Main results

* `keeps_iff` — one call, exactly: a limit that is not negative, a file at the path, and
  one that can be opened if it is to be cut.
* `event_returns_iff` — the same of `log.event`, for those that call it.
* `logging_iff` — whole runs.
-/

namespace LuadchAnnouncer.Core.LogRotation

open LuadchAnnouncer.Verified.Bytes
open LuadchAnnouncer.Verified.LuaValue
open LuadchAnnouncer.Verified.Raising
open LuadchAnnouncer.Core.Log
open LuadchAnnouncer.Core.LogBound (Call Over)

/-! ## What others do to a file -/

/-- What the handle writes to. -/
def held : LogFile → Str
  | .linked content => content
  | .moved _ held => held

/-- What somebody else does to one of the files between two calls, as an administrator or
a log rotation would. -/
inductive Change where
  /-- the file is moved away, or deleted -/
  | remove
  /-- another file is put in its place -/
  | replace (content : Str)
  /-- the file at the path is truncated, or written to -/
  | edit (content : Str)
  /-- the file the process has open is moved back -/
  | restore

namespace Change

/-- The file afterwards.  The process keeps what it has open. -/
def apply : Change → LogFile → LogFile
  | .remove, f => .moved none (held f)
  | .replace content, f => .moved (some content) (held f)
  | .edit content, .linked _ => .linked content
  | .edit content, .moved there held => .moved (there.map fun _ => content) held
  | .restore, f => .linked (held f)

/-- Whether there is a file at the path afterwards, given whether there was. -/
def leaves : Change → Bool → Bool
  | .remove, _ => false
  | .replace _, _ => true
  | .edit _, there => there
  | .restore, _ => true

/-- Whether there is a file at the path behind a change depends on whether there was one
before. -/
theorem isSome_atPath_apply (change : Change) (f : LogFile) :
    (change.apply f).atPath.isSome = change.leaves f.atPath.isSome := by
  cases change with
  | remove => rfl
  | replace content => rfl
  | restore => rfl
  | edit content =>
      cases f with
      | linked content => rfl
      | moved there held =>
          cases there with
          | none => rfl
          | some there => rfl

end Change

/-! ## One call -/

/-- The path names a file. -/
def isThere (st : LogState) (name : LogName) : Bool := (st.file name).atPath.isSome

/-- What the path names can be opened for writing if it is over the limit. -/
def Openable (st : LogState) (name : LogName) : Prop :=
  Over st name → st.writable name = true

/-- The call returns, and what it releases is remembered, so that the next scan leaves it
out. -/
def Keeps (st : LogState) (c : Call) : Prop :=
  ∃ st', c.perform st = .ok st' ∧
    ∀ timestamp buf, c = .release timestamp buf → buf ∈ st'.releases

/-- Writing to a file that is held open brings no file to its path, and takes none away. -/
@[simp] theorem isThere_write (st : LogState) (name other : LogName) (s : Str) :
    isThere (st.write name s) other = isThere st other := by
  have hwrite : ∀ f : LogFile, (f.write s).atPath.isSome = f.atPath.isSome := by
    intro f
    cases f with
    | linked content => rfl
    | moved there held => rfl
  cases name with
  | logfile =>
      cases other with
      | logfile => exact hwrite st.logfile
      | announced => rfl
  | announced =>
      cases other with
      | logfile => rfl
      | announced => exact hwrite st.announced

@[simp] theorem maxlogsize_write (st : LogState) (name : LogName) (s : Str) :
    (st.write name s).maxlogsize = st.maxlogsize := by
  cases name with
  | logfile => rfl
  | announced => rfl

@[simp] theorem releases_write (st : LogState) (name : LogName) (s : Str) :
    (st.write name s).releases = st.releases := by
  cases name with
  | logfile => rfl
  | announced => rfl

theorem isSome_atPath_truncate (f : LogFile) : f.truncate.atPath.isSome = true := by
  cases f with
  | linked content => rfl
  | moved there held => rfl

/-- Over the limit, of a file that is there. -/
theorem over_iff {st : LogState} {name : LogName} {there : Str}
    (h : (st.file name).atPath = some there) :
    Over st name ↔ st.maxlogsize < (there.length : Int) := by
  unfold Over LogBound.size LogBound.text
  rw [h]
  rfl

/-- The size check of a file that is there and can be cut if it has to be. -/
theorem checkFilesize_of_isThere {st : LogState} {name : LogName}
    (h : isThere st name = true) (hopen : Openable st name) :
    ∃ cleared st', st.checkFilesize name = .ok (cleared, st') ∧
      st'.maxlogsize = st.maxlogsize ∧ (∀ other, isThere st' other = isThere st other) ∧
      (cleared = false → 0 ≤ st.maxlogsize) := by
  obtain ⟨there, hthere⟩ := Option.isSome_iff_exists.mp h
  unfold LogState.checkFilesize
  rw [hthere]
  simp only
  by_cases hover : st.maxlogsize < (there.length : Int)
  · rw [if_pos hover, if_pos (hopen ((over_iff hthere).mpr hover))]
    refine ⟨true, _, rfl, ?_, ?_, fun hfalse => Bool.noConfusion hfalse⟩
    · cases name with
      | logfile => simp [LogState.setFile]
      | announced => simp [LogState.setFile]
    · intro other
      have htruncate := isSome_atPath_truncate (st.file name)
      cases name with
      | logfile =>
          cases other with
          | logfile =>
              rw [h]
              simpa [LogState.setFile, isThere, LogState.file] using htruncate
          | announced => simp [LogState.setFile, isThere, LogState.file]
      | announced =>
          cases other with
          | logfile => simp [LogState.setFile, isThere, LogState.file]
          | announced =>
              rw [h]
              simpa [LogState.setFile, isThere, LogState.file] using htruncate
  · rw [if_neg hover]
    refine ⟨false, st, rfl, rfl, fun _ => rfl, fun _ => ?_⟩
    omega

theorem checkFilesize_of_not_isThere {st : LogState} {name : LogName}
    (h : isThere st name = false) : st.checkFilesize name = .error .index := by
  have hnone : (st.file name).atPath = none :=
    Option.isNone_iff_eq_none.mp (Option.isSome_eq_false_iff.mp h)
  unfold LogState.checkFilesize
  rw [hnone]

/-- Over the limit, a file that cannot be opened for writing leaves nothing to close, and
the call raises. -/
theorem checkFilesize_of_not_openable {st : LogState} {name : LogName}
    (h : ¬ Openable st name) : ¬ Returns (st.checkFilesize name) := by
  obtain ⟨hover, hclosed⟩ := Classical.not_imp.mp h
  unfold LogState.checkFilesize
  cases hthere : (st.file name).atPath with
  | none => exact not_returns_error _
  | some there =>
      simp only
      rw [if_pos ((over_iff hthere).mp hover), if_neg hclosed]
      exact not_returns_error _

theorem formatbytes_eq_none_iff {bytes : Int} : formatbytes bytes = none ↔ bytes < 0 := by
  rw [← Option.not_isSome_iff_eq_none, formatbytes_isSome_iff]
  omega

/-- The line about a file that was cut. -/
theorem clearedMarker_returns_iff {st : LogState} {timestamp name : Str} :
    Returns (st.clearedMarker timestamp name) ↔ 0 ≤ st.maxlogsize := by
  unfold LogState.clearedMarker
  cases hsize : formatbytes st.maxlogsize with
  | none =>
      have hneg := formatbytes_eq_none_iff.mp hsize
      exact iff_of_false (not_returns_error _) (by omega)
  | some size =>
      refine iff_of_true (returns_ok _) ?_
      by_contra hnot
      rw [formatbytes_eq_none_iff.mpr (by omega)] at hsize
      cases hsize

/-- How both calls end: where the file was cut, they tell `logfile.txt`. -/
def tell (timestamp name : Str) (cleared : Bool) (st : LogState) : Except LuaError LogState :=
  if cleared then do
    let marker ← st.clearedMarker timestamp name
    return st.write .logfile marker
  else return st

/-- The line that tells of a cut raises where the limit has no text, that is, where it is
negative. -/
theorem tell_returns_iff {st : LogState} {cleared : Bool} {timestamp name : Str}
    (hsize : cleared = false → 0 ≤ st.maxlogsize) :
    Returns (tell timestamp name cleared st) ↔ 0 ≤ st.maxlogsize := by
  unfold tell
  cases cleared with
  | false => exact iff_of_true (returns_ok st) (hsize rfl)
  | true =>
      rw [if_pos rfl, returns_bind_iff, ← clearedMarker_returns_iff]
      constructor
      · intro h
        obtain ⟨marker, hmarker, -⟩ := h
        exact ⟨marker, hmarker⟩
      · intro h
        obtain ⟨marker, hmarker⟩ := h
        exact ⟨marker, hmarker, returns_ok _⟩

/-- Telling of a cut changes neither the limit, nor the names, nor which files are there. -/
theorem tell_spec {st st' : LogState} {cleared : Bool} {timestamp name : Str}
    (h : tell timestamp name cleared st = .ok st') :
    st'.maxlogsize = st.maxlogsize ∧ st'.releases = st.releases ∧
      ∀ other, isThere st' other = isThere st other := by
  unfold tell at h
  cases cleared with
  | false =>
      obtain rfl : st = st' := Except.ok.inj h
      exact ⟨rfl, rfl, fun _ => rfl⟩
  | true =>
      rw [if_pos rfl, bind_eq_ok] at h
      obtain ⟨marker, -, h⟩ := h
      rw [pure_eq_ok] at h
      subst h
      exact ⟨maxlogsize_write st .logfile marker, releases_write st .logfile marker,
        fun other => isThere_write st .logfile other marker⟩

/-- What a call does between the size check and the end. -/
def record (st : LogState) : Call → LogState
  | .event timestamp buf =>
      { st.write .logfile (timestamp ++ buf ++ [lf]) with
        content := st.content ++ (timestamp ++ buf) }
  | .release _ buf =>
      LogState.write { st with releases := insert buf st.releases } .announced (buf ++ [lf])

def stamp : Call → Str
  | .event timestamp _ => timestamp
  | .release timestamp _ => timestamp

/-- The name of the call's own file. -/
def ownName : Call → Str
  | .event _ _ => lit "logfile.txt"
  | .release _ _ => lit "announced.txt"

/-- Both calls are of one form. -/
theorem perform_eq (st : LogState) (c : Call) :
    c.perform st = (do
      let (cleared, st) ← st.checkFilesize c.own
      tell (stamp c) (ownName c) cleared (record st c)) := by
  cases c with
  | event timestamp buf => rfl
  | release timestamp buf => rfl

/-- Writing the line of a call changes neither the limit nor which files are there; a
release is remembered by it. -/
theorem record_spec (st : LogState) (c : Call) :
    (record st c).maxlogsize = st.maxlogsize ∧
      (∀ other, isThere (record st c) other = isThere st other) ∧
      ∀ timestamp buf, c = .release timestamp buf → buf ∈ (record st c).releases := by
  cases c with
  | event timestamp buf =>
      refine ⟨maxlogsize_write st .logfile (timestamp ++ buf ++ [lf]), fun other => ?_, ?_⟩
      · exact isThere_write st .logfile other (timestamp ++ buf ++ [lf])
      · intro timestamp' buf' h
        cases h
  | release timestamp buf =>
      refine ⟨rfl, fun other => ?_, ?_⟩
      · exact isThere_write { st with releases := insert buf st.releases } .announced other _
      · intro timestamp' buf' h
        obtain ⟨rfl, rfl⟩ := Call.release.inj h
        exact Finset.mem_insert_self buf st.releases

/-- What a check that returns has found. -/
theorem checked_of_ok {st : LogState} {name : LogName} {r : Bool × LogState}
    (h : st.checkFilesize name = .ok r) : isThere st name = true ∧ Openable st name := by
  constructor
  · by_contra hnot
    rw [checkFilesize_of_not_isThere (Bool.eq_false_iff.mpr hnot)] at h
    cases h
  · by_contra hnot
    exact checkFilesize_of_not_openable hnot ⟨r, h⟩

/-- What a call that returns leaves as it was, and what it remembers. -/
theorem perform_spec {st st' : LogState} {c : Call} (h : c.perform st = .ok st') :
    st'.maxlogsize = st.maxlogsize ∧ (∀ other, isThere st' other = isThere st other) ∧
      ∀ timestamp buf, c = .release timestamp buf → buf ∈ st'.releases := by
  rw [perform_eq, bind_eq_ok] at h
  obtain ⟨⟨cleared, st₁⟩, hcheck, htell⟩ := h
  obtain ⟨hthere, hopen⟩ := checked_of_ok hcheck
  obtain ⟨cleared', st₁', hcheck', hmax, hsame, -⟩ := checkFilesize_of_isThere hthere hopen
  obtain ⟨rfl, rfl⟩ := Prod.mk.inj (Except.ok.inj (hcheck.symm.trans hcheck'))
  obtain ⟨hmax', hreleases, hsame'⟩ := tell_spec htell
  obtain ⟨hmax'', hsame'', hremembers⟩ := record_spec st₁ c
  refine ⟨?_, ?_, ?_⟩
  · rw [hmax', hmax'', hmax]
  · intro other
    rw [hsame', hsame'', hsame]
  · intro timestamp buf hc
    rw [hreleases]
    exact hremembers timestamp buf hc

/-- **One call, exactly.**  It returns if and only if the limit is not negative and its
own file is at its path, as one that can be opened for writing if it is over the
limit. -/
theorem perform_returns_iff (st : LogState) (c : Call) :
    Returns (c.perform st) ↔
      0 ≤ st.maxlogsize ∧ isThere st c.own = true ∧ Openable st c.own := by
  rw [perform_eq, returns_bind_iff]
  constructor
  · intro h
    obtain ⟨⟨cleared, st₁⟩, hcheck, htell⟩ := h
    obtain ⟨hthere, hopen⟩ := checked_of_ok hcheck
    obtain ⟨cleared', st₁', hcheck', hmax, -, hsize⟩ := checkFilesize_of_isThere hthere hopen
    obtain ⟨rfl, rfl⟩ := Prod.mk.inj (Except.ok.inj (hcheck.symm.trans hcheck'))
    have hmax' : (record st₁ c).maxlogsize = st.maxlogsize := by
      rw [(record_spec st₁ c).1, hmax]
    exact ⟨hmax' ▸ (tell_returns_iff (hmax'.symm ▸ hsize)).mp htell, hthere, hopen⟩
  · intro h
    obtain ⟨hpos, hthere, hopen⟩ := h
    obtain ⟨cleared, st₁, hcheck, hmax, -, hsize⟩ := checkFilesize_of_isThere hthere hopen
    have hmax' : (record st₁ c).maxlogsize = st.maxlogsize := by
      rw [(record_spec st₁ c).1, hmax]
    exact ⟨_, hcheck, (tell_returns_iff (hmax'.symm ▸ hsize)).mpr (hmax'.symm ▸ hpos)⟩

/-- A call that returns remembers what it releases. -/
theorem keeps_iff (st : LogState) (c : Call) :
    Keeps st c ↔ 0 ≤ st.maxlogsize ∧ isThere st c.own = true ∧ Openable st c.own := by
  rw [← perform_returns_iff]
  constructor
  · intro h
    obtain ⟨st', hst', -⟩ := h
    exact ⟨st', hst'⟩
  · intro h
    obtain ⟨st', hst'⟩ := h
    exact ⟨st', hst', (perform_spec hst').2.2⟩

/-- The log can be written to: what every caller of `log.event` relies on. -/
def LogReady (st : LogState) : Prop :=
  0 ≤ st.maxlogsize ∧ isThere st .logfile = true ∧ Openable st .logfile

theorem event_returns_iff (st : LogState) (timestamp buf : Str) :
    Returns (st.event timestamp buf) ↔ LogReady st :=
  perform_returns_iff st (.event timestamp buf)

/-! ## Runs -/

/-- A step of a run: a change by somebody else, to a file or to whether it can be opened
for writing, or a call. -/
inductive Op where
  | outside (name : LogName) (change : Change)
  | access (name : LogName) (writable : Bool)
  | call (c : Call)

/-- The state after somebody else's change. -/
def changed (st : LogState) (name : LogName) (change : Change) : LogState :=
  st.setFile name (change.apply (st.file name))

/-- The state after somebody has taken away the right to write to a file, or has given
it back. -/
def granted (st : LogState) (name : LogName) (writable : Bool) : LogState :=
  { st with writable := Function.update st.writable name writable }

/-- Every call of the run has the property in the state it is made in.  The states in
between are those of the calls before and of what others have done. -/
def Throughout (P : LogState → Call → Prop) : LogState → List Op → Prop
  | _, [] => True
  | st, .outside name change :: rest => Throughout P (changed st name change) rest
  | st, .access name writable :: rest => Throughout P (granted st name writable) rest
  | st, .call c :: rest => P st c ∧ ∀ st', c.perform st = .ok st' → Throughout P st' rest

/-- Every call finds its own file, given which files are there. -/
def Undisturbed : (LogName → Bool) → List Op → Prop
  | _, [] => True
  | there, .outside name change :: rest =>
      Undisturbed (Function.update there name (change.leaves (there name))) rest
  | there, .access _ _ :: rest => Undisturbed there rest
  | there, .call c :: rest => there c.own = true ∧ Undisturbed there rest

theorem maxlogsize_changed (st : LogState) (name : LogName) (change : Change) :
    (changed st name change).maxlogsize = st.maxlogsize := by
  cases name with
  | logfile => rfl
  | announced => rfl

/-- A change by somebody else is to one of the two paths. -/
theorem isThere_changed (st : LogState) (name : LogName) (change : Change) :
    isThere (changed st name change) =
      Function.update (isThere st) name (change.leaves (isThere st name)) := by
  funext other
  have happly := change.isSome_atPath_apply (st.file name)
  by_cases h : other = name
  · subst h
    rw [Function.update_self]
    cases other with
    | logfile => exact happly
    | announced => exact happly
  · rw [Function.update_of_ne h]
    cases name with
    | logfile =>
        cases other with
        | logfile => exact absurd rfl h
        | announced => rfl
    | announced =>
        cases other with
        | logfile => rfl
        | announced => exact absurd rfl h

/-- **Logging, exactly.**  Over any run, of calls and of what others do to the files in
between, every call returns and what it releases is remembered, if and only if each call
finds its own file at its path, and finds one that can be opened for writing where it is
over the limit, and the limit, where there is a call at all, is not negative. -/
theorem logging_iff (st : LogState) (ops : List Op) :
    Throughout Keeps st ops ↔
      ((∃ c, .call c ∈ ops) → 0 ≤ st.maxlogsize) ∧ Undisturbed (isThere st) ops ∧
        Throughout (fun st c => Openable st c.own) st ops := by
  induction ops generalizing st with
  | nil => simp [Throughout, Undisturbed]
  | cons op rest ih =>
      cases op with
      | outside name change =>
          show Throughout Keeps (changed st name change) rest ↔ _ ∧
            Undisturbed (Function.update (isThere st) name (change.leaves (isThere st name)))
              rest ∧ Throughout (fun st c => Openable st c.own) (changed st name change) rest
          rw [ih, maxlogsize_changed, isThere_changed]
          simp
      | access name writable =>
          show Throughout Keeps (granted st name writable) rest ↔ _ ∧
            Undisturbed (isThere st) rest ∧
              Throughout (fun st c => Openable st c.own) (granted st name writable) rest
          rw [ih]
          have hmax : (granted st name writable).maxlogsize = st.maxlogsize := rfl
          have hthere : isThere (granted st name writable) = isThere st := by
            funext other
            cases other with
            | logfile => rfl
            | announced => rfl
          rw [hmax, hthere]
          simp
      | call c =>
          show (Keeps st c ∧ ∀ st', c.perform st = .ok st' → Throughout Keeps st' rest) ↔
            _ ∧ (isThere st c.own = true ∧ Undisturbed (isThere st) rest) ∧
              Openable st c.own ∧ ∀ st', c.perform st = .ok st' →
                Throughout (fun st c => Openable st c.own) st' rest
          have hcall : ∃ c', Op.call c' ∈ Op.call c :: rest := ⟨c, List.mem_cons_self⟩
          rw [keeps_iff]
          constructor
          · intro h
            obtain ⟨⟨hmax, hthere, hopen⟩, hrest⟩ := h
            obtain ⟨st', hst', -⟩ := (keeps_iff st c).mpr ⟨hmax, hthere, hopen⟩
            have hnext := (ih st').mp (hrest st' hst')
            rw [show isThere st' = isThere st from funext (perform_spec hst').2.1] at hnext
            refine ⟨fun _ => hmax, ⟨hthere, hnext.2.1⟩, hopen, ?_⟩
            intro st₁ hst₁
            exact ((ih st₁).mp (hrest st₁ hst₁)).2.2
          · intro h
            obtain ⟨hmax, ⟨hthere, hrest⟩, hopen, hopens⟩ := h
            refine ⟨⟨hmax hcall, hthere, hopen⟩, fun st' hst' => (ih st').mpr ?_⟩
            obtain ⟨hmax', hsame, -⟩ := perform_spec hst'
            rw [hmax', show isThere st' = isThere st from funext hsame]
            exact ⟨fun _ => hmax hcall, hrest, hopens st' hst'⟩

/-- `announced.txt` is moved away, and the next release that is sent is not remembered. -/
theorem logging_moved_raises : ¬ ∀ (st : LogState) (ops : List Op), Throughout Keeps st ops := by
  intro hall
  have h := hall (load 2097152 none none) [.outside .announced .remove,
    .call (.release (lit "[ 2026-10-09 / 12:00:00] ") (lit "Some.Release"))]
  obtain ⟨st', hst', -⟩ := h.1
  cases hst'

end LuadchAnnouncer.Core.LogRotation
