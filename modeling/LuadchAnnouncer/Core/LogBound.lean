import LuadchAnnouncer.Core.Log
import LuadchAnnouncer.Verified.Runs

/-!
# The size of the logs

A log is cut when it is over the limit, and only a call that is about to write
to it looks.  So a log may be over the limit by what was written to it last, and
by no more, as long as every write has its look.  There is one that has none:
`log.release` looks at `announced.txt`, and when it has cut that file it tells
`logfile.txt`.

`Overdue` is that write to a file that is due to be cut, and
`logs_bounded_iff` says that it is all that can go wrong, over any run.

## Main results

* `Sound.step` — what every call needs, and keeps.
* `bounded_step_iff` — one call: the bound is kept unless it is an `Overdue` one.
* `logs_bounded_iff` — any run, from the start of the module on.
* `logs_unbounded` — two releases after which `logfile.txt` is over the limit for good.
-/

namespace LuadchAnnouncer.Core.LogBound

open LuadchAnnouncer.Verified.Bytes
open LuadchAnnouncer.Verified.LuaValue
open LuadchAnnouncer.Verified.Runs
open LuadchAnnouncer.Core.Log

/-! ## Calls -/

inductive Call where
  /-- `log.event( buf )` -/
  | event (timestamp buf : Str)
  /-- `log.release( buf )` -/
  | release (timestamp buf : Str)

namespace Call

def perform (st : LogState) : Call → Except LuaError LogState
  | .event timestamp buf => st.event timestamp buf
  | .release timestamp buf => st.release timestamp buf

/-- The file a call looks at. -/
def own : Call → LogName
  | .event _ _ => .logfile
  | .release _ _ => .announced

/-- What it writes to that file, whatever it finds. -/
def line : Call → Str
  | .event timestamp buf => timestamp ++ buf ++ [lf]
  | .release _ buf => buf ++ [lf]

/-- What it adds to `content`. -/
def remembers : Call → Str
  | .event timestamp buf => timestamp ++ buf
  | .release _ _ => []

/-- The line about the file it has cut, as it goes to `logfile.txt`. -/
def marker (st : LogState) (c : Call) : Str :=
  let text := match c with
    | .event timestamp _ => st.clearedMarker timestamp (lit "logfile.txt")
    | .release timestamp _ => st.clearedMarker timestamp (lit "announced.txt")
  match text with
  | .ok text => text
  | .error _ => []

end Call

/-! ## What a file holds -/

/-- What stands at the path of a file. -/
def text (st : LogState) (name : LogName) : Str := (st.file name).atPath.getD []

def size (st : LogState) (name : LogName) : Nat := (text st name).length

/-- The handles write to the files at their paths.  A file that is moved away takes its
handle along, which is what this excludes. -/
def Linked (st : LogState) : Prop := ∀ name, st.file name = .linked (text st name)

/-- A look at the file finds it over the limit. -/
def Over (st : LogState) (name : LogName) : Prop := st.maxlogsize < (size st name : Int)

instance (st : LogState) (name : LogName) : Decidable (Over st name) := by
  unfold Over
  infer_instance

/-- The call cuts the file. -/
def Cuts (st : LogState) (c : Call) (name : LogName) : Prop := name = c.own ∧ Over st name

instance (st : LogState) (c : Call) (name : LogName) : Decidable (Cuts st c name) := by
  unfold Cuts
  infer_instance

/-- All that the call writes to the file. -/
def written (st : LogState) (c : Call) (name : LogName) : Str :=
  (if name = c.own then c.line else []) ++
    (if name = .logfile ∧ Over st c.own then c.marker st else [])

/-- What the file holds behind the call. -/
def textAfter (st : LogState) (c : Call) (name : LogName) : Str :=
  (if Cuts st c name then [] else text st name) ++ written st c name

def contentAfter (st : LogState) (c : Call) : Str :=
  (if Cuts st c .logfile then [] else st.content) ++ c.remembers

/-! ## What a call does -/

theorem formatbytes_isSome {bytes : Int} (h : 0 ≤ bytes) :
    ∃ size, formatbytes bytes = some size :=
  Option.isSome_iff_exists.mp ((formatbytes_isSome_iff bytes).mpr h)

/-- With a limit that is not negative the marker line can be put together, and is not empty. -/
theorem clearedMarker_ok {st : LogState} (h : 0 ≤ st.maxlogsize) (timestamp name : Str) :
    ∃ text, st.clearedMarker timestamp name = .ok text ∧ 0 < text.length := by
  obtain ⟨size, hsize⟩ := formatbytes_isSome h
  unfold LogState.clearedMarker
  rw [hsize]
  refine ⟨_, rfl, ?_⟩
  rw [List.length_append, List.length_singleton]
  omega

/-- So the marker of a call has a length. -/
theorem marker_pos {st : LogState} (h : 0 ≤ st.maxlogsize) (c : Call) :
    0 < (c.marker st).length := by
  cases c with
  | event timestamp buf =>
      obtain ⟨text, htext, hpos⟩ := clearedMarker_ok h timestamp (lit "logfile.txt")
      unfold Call.marker
      simp only [htext]
      exact hpos
  | release timestamp buf =>
      obtain ⟨text, htext, hpos⟩ := clearedMarker_ok h timestamp (lit "announced.txt")
      unfold Call.marker
      simp only [htext]
      exact hpos

/-- The check of `logfile.txt`, where it is at its path and can be opened: over the limit it
is emptied together with its copy in memory. -/
theorem checkFilesize_logfile {st : LogState} (hlink : Linked st)
    (hopen : st.writable .logfile = true) :
    st.checkFilesize .logfile =
      if Over st .logfile then
        .ok (true, { st with logfile := .linked [], content := [] })
      else .ok (false, st) := by
  have hfile := hlink .logfile
  have hpath : (st.file .logfile).atPath = some (text st .logfile) := by rw [hfile]; rfl
  unfold LogState.checkFilesize
  rw [hpath, hfile, hopen]
  simp only [path_logfile_find_logfile, path_logfile_find_announced, Bool.false_eq_true,
    if_false, if_true]
  rfl

theorem write_logfile {st : LogState} {content : Str} (h : st.logfile = .linked content)
    (s : Str) : st.write .logfile s = { st with logfile := .linked (content ++ s) } := by
  unfold LogState.write LogState.file
  rw [h]
  rfl

theorem write_announced {st : LogState} {content : Str} (h : st.announced = .linked content)
    (s : Str) : st.write .announced s = { st with announced := .linked (content ++ s) } := by
  unfold LogState.write LogState.file
  rw [h]
  rfl

/-- **What a call does** while nobody else touches the files. -/
theorem perform_linked {st : LogState} (hlink : Linked st)
    (hopen : ∀ name, st.writable name = true) (hpos : 0 ≤ st.maxlogsize) (c : Call) :
    ∃ st', c.perform st = .ok st' ∧
      st' = { st with
        logfile := .linked (textAfter st c .logfile)
        announced := .linked (textAfter st c .announced)
        content := contentAfter st c
        releases := st'.releases } := by
  have hlogfile : st.logfile = .linked (text st .logfile) := hlink .logfile
  have hannounced : st.announced = .linked (text st .announced) := hlink .announced
  cases c with
  | event timestamp buf =>
      obtain ⟨marker, hmarker, -⟩ := clearedMarker_ok hpos timestamp (lit "logfile.txt")
      show ∃ st', st.event timestamp buf = .ok st' ∧ _
      unfold LogState.event
      rw [checkFilesize_logfile hlink (hopen .logfile)]
      by_cases hover : Over st .logfile
      case pos =>
        rw [if_pos hover]
        refine ⟨{ st with
          logfile := .linked (timestamp ++ buf ++ [lf] ++ marker)
          content := timestamp ++ buf }, ?_, ?_⟩
        · show Except.bind (LogState.clearedMarker st timestamp (lit "logfile.txt")) _ = _
          rw [hmarker]
          rfl
        · simp [textAfter, contentAfter, Cuts, written, Call.own, Call.line, Call.remembers,
            Call.marker, hover, hmarker, ← hannounced]
      case neg =>
        rw [if_neg hover]
        refine ⟨{ st with
          logfile := .linked (text st .logfile ++ (timestamp ++ buf ++ [lf]))
          content := st.content ++ (timestamp ++ buf) }, ?_, ?_⟩
        · show Except.ok ({ st.write .logfile (timestamp ++ buf ++ [lf]) with
            content := st.content ++ (timestamp ++ buf) } : LogState) = _
          rw [write_logfile hlogfile]
        · simp [textAfter, contentAfter, Cuts, written, Call.own, Call.line, Call.remembers, hover,
            ← hannounced]
  | release timestamp buf =>
      obtain ⟨marker, hmarker, -⟩ := clearedMarker_ok hpos timestamp (lit "announced.txt")
      show ∃ st', st.release timestamp buf = .ok st' ∧ _
      unfold LogState.release
      rw [LogState.checkFilesize_announced hannounced]
      have hrotates : st.Rotates (text st .announced) ↔ Over st .announced := Iff.rfl
      rw [if_congr hrotates rfl rfl, if_pos (hopen .announced)]
      by_cases hover : Over st .announced
      case pos =>
        rw [if_pos hover]
        refine ⟨{ st with
          logfile := .linked (text st .logfile ++ marker)
          announced := .linked (buf ++ [lf])
          releases := insert buf ∅ }, ?_, ?_⟩
        · show Except.bind (LogState.clearedMarker st timestamp (lit "announced.txt"))
            (fun marker => Except.ok (LogState.write { st with
              announced := .linked (buf ++ [lf])
              releases := insert buf ∅ } .logfile marker)) = _
          rw [hmarker]
          apply congrArg Except.ok
          apply write_logfile
          exact hlogfile
        · simp [textAfter, contentAfter, Cuts, written, Call.own, Call.line, Call.remembers,
            Call.marker, hover, hmarker]
      case neg =>
        rw [if_neg hover]
        refine ⟨{ st with
          announced := .linked (text st .announced ++ (buf ++ [lf]))
          releases := insert buf st.releases }, ?_, ?_⟩
        · apply congrArg Except.ok
          apply write_announced
          exact hannounced
        · simp [textAfter, contentAfter, Cuts, written, Call.own, Call.line, Call.remembers, hover,
            ← hlogfile]

/-! ## Runs -/

/-- The module between two calls, with the number of bytes the last call that
wrote to a file has written to it. -/
structure Traced where
  st : LogState
  last : LogName → Nat

def start (maxlogsize : Int) (logfile announced : Option Str) : Traced where
  st := load maxlogsize logfile announced
  last := fun _ => 0

def Step (t : Traced) (c : Call) (t' : Traced) : Prop :=
  c.perform t.st = .ok t'.st ∧
    ∀ name, t'.last name =
      if written t.st c name = [] then t.last name else (written t.st c name).length

/-- No file is over the limit by more than its last write.  The limit is looked at before
a write, so this is the bound the code can keep. -/
def Bounded (t : Traced) : Prop :=
  ∀ name, (size t.st name : Int) ≤ t.st.maxlogsize + t.last name

/-- The memory is no larger than the file. -/
def Mirrors (t : Traced) : Prop := t.st.content.length ≤ size t.st .logfile

/-- `log.release` cuts `announced.txt`, and `logfile.txt`, to which it writes that
it has, is over the limit itself. -/
def Overdue (t : Traced) (c : Call) : Prop :=
  c.own = .announced ∧ Over t.st .announced ∧ Over t.st .logfile

/-- What every call keeps, and what it needs to return: the files are at their paths and
can be opened, the limit is positive, and the copy in memory is no longer than its file. -/
structure Sound (t : Traced) : Prop where
  linked : Linked t.st
  writable : ∀ name, t.st.writable name = true
  positive : 0 < t.st.maxlogsize
  mirrors : Mirrors t

/-- Behind a step the two files, the copy and the names are those that `textAfter` and
`contentAfter` say. -/
theorem Step.st_eq {t t' : Traced} {c : Call} (h : Step t c t') (ht : Sound t) :
    t'.st = { t.st with
      logfile := .linked (textAfter t.st c .logfile)
      announced := .linked (textAfter t.st c .announced)
      content := contentAfter t.st c
      releases := t'.st.releases } := by
  obtain ⟨st', hst', heq⟩ := perform_linked ht.linked ht.writable (le_of_lt ht.positive) c
  rw [h.1, Except.ok.injEq] at hst'
  rw [← hst'] at heq
  exact heq

theorem Step.text_eq {t t' : Traced} {c : Call} (h : Step t c t') (ht : Sound t)
    (name : LogName) : text t'.st name = textAfter t.st c name := by
  rw [h.st_eq ht]
  cases name with
  | logfile => rfl
  | announced => rfl

theorem Step.maxlogsize_eq {t t' : Traced} {c : Call} (h : Step t c t') (ht : Sound t) :
    t'.st.maxlogsize = t.st.maxlogsize := by
  rw [h.st_eq ht]

theorem remembers_le (c : Call) : c.remembers.length ≤ c.line.length := by
  cases c with
  | event timestamp buf => simp [Call.remembers, Call.line]
  | release timestamp buf => simp [Call.remembers]

/-- The copy in memory is never longer than the file: both are emptied together, and each
line goes to both or to the file only. -/
theorem mirrors_after {t : Traced} (ht : Mirrors t) (c : Call) :
    (contentAfter t.st c).length ≤ (textAfter t.st c .logfile).length := by
  have hkept : (if Cuts t.st c .logfile then [] else t.st.content).length ≤
      (if Cuts t.st c .logfile then [] else text t.st .logfile).length := by
    split
    · exact le_refl _
    · exact ht
  have hnew : c.remembers.length ≤ (written t.st c .logfile).length := by
    unfold written
    rw [List.length_append]
    cases c with
    | event timestamp buf =>
        exact le_trans (remembers_le _) (Nat.le_add_right _ _)
    | release timestamp buf => exact Nat.zero_le _
  unfold contentAfter textAfter
  rw [List.length_append, List.length_append]
  omega

/-- A step keeps what every call needs: the files at their paths, a positive limit, and a
copy that mirrors its file. -/
theorem Sound.step {t t' : Traced} {c : Call} (ht : Sound t) (h : Step t c t') : Sound t' := by
  have heq := h.st_eq ht
  constructor
  · intro name
    rw [heq]
    cases name with
    | logfile => rfl
    | announced => rfl
  · intro name
    rw [heq]
    exact ht.writable name
  · rw [h.maxlogsize_eq ht]
    exact ht.positive
  · have hcontent : t'.st.content = contentAfter t.st c := by rw [heq]
    unfold Mirrors size
    rw [h.text_eq ht, hcontent]
    exact mirrors_after ht.mirrors c

/-- The state a call leads to. -/
def next (t : Traced) (c : Call) : Traced where
  st := match c.perform t.st with
    | .ok st => st
    | .error _ => t.st
  last := fun name =>
    if written t.st c name = [] then t.last name else (written t.st c name).length

/-- So every call returns. -/
theorem Sound.step_next {t : Traced} (ht : Sound t) (c : Call) : Step t c (next t c) := by
  obtain ⟨st', hst', -⟩ := perform_linked ht.linked ht.writable (le_of_lt ht.positive) c
  have hnext : (next t c).st = st' := by
    unfold next
    simp only [hst']
  constructor
  · rw [hnext]
    exact hst'
  · exact fun _ => rfl

/-- What the start of the module leaves of a file is within the limit. -/
theorem preRotate_le {maxlogsize : Int} (h : 0 < maxlogsize) (there : Option Str) :
    ((((preRotate maxlogsize there).getD []).length : Nat) : Int) ≤ maxlogsize := by
  cases there with
  | none => exact le_of_lt h
  | some there =>
      show ((((if maxlogsize < (there.length : Int) then some [] else some there).getD []).length :
        Nat) : Int) ≤ maxlogsize
      split
      case isTrue => exact le_of_lt h
      case isFalse hle => exact Int.not_lt.mp hle

/-- That holds behind the start of the module, whatever the files held before. -/
theorem sound_start {maxlogsize : Int} (h : 0 < maxlogsize) (logfile announced : Option Str) :
    Sound (start maxlogsize logfile announced) where
  linked := by
    intro name
    cases name with
    | logfile => rfl
    | announced => rfl
  writable := fun _ => rfl
  positive := h
  mirrors := le_refl _

/-- And both files are within the limit there, before anything is written. -/
theorem bounded_start {maxlogsize : Int} (h : 0 < maxlogsize) (logfile announced : Option Str) :
    Bounded (start maxlogsize logfile announced) := by
  intro name
  show (size (load maxlogsize logfile announced) name : Int) ≤ maxlogsize + ((0 : Nat) : Int)
  rw [Int.natCast_zero, Int.add_zero]
  cases name with
  | logfile => exact preRotate_le h logfile
  | announced => exact preRotate_le h announced

/-- A file is bounded behind a call that has written to it if and only if the
call found it, or left it, within the limit. -/
theorem bounded_of_written {st : LogState} {c : Call} {name : LogName}
    (hpos : 0 < st.maxlogsize) :
    ((textAfter st c name).length : Int) ≤ st.maxlogsize + ((written st c name).length : Nat) ↔
      Cuts st c name ∨ ¬ Over st name := by
  unfold textAfter Over size
  rw [List.length_append]
  split
  case isTrue hcuts =>
    rw [List.length_nil]
    constructor
    · exact fun _ => Or.inl hcuts
    · intro _
      omega
  case isFalse hcuts =>
    constructor
    · intro h
      right
      omega
    · intro h
      have hle := h.resolve_left hcuts
      omega

theorem written_release_logfile (st : LogState) (timestamp buf : Str) :
    written st (.release timestamp buf) .logfile =
      if Over st .announced then (Call.release timestamp buf).marker st else [] := by
  simp [written, Call.own]

/-- The files a call leaves alone, cuts, or finds within the limit. -/
theorem uncut_iff {t : Traced} (hpos : 0 < t.st.maxlogsize) (c : Call) :
    (∀ name, written t.st c name = [] ∨ Cuts t.st c name ∨ ¬ Over t.st name) ↔
      ¬ Overdue t c := by
  cases c with
  | event timestamp buf =>
      apply iff_of_true
      · intro name
        cases name with
        | logfile =>
            right
            by_cases hover : Over t.st .logfile
            · exact Or.inl ⟨rfl, hover⟩
            · exact Or.inr hover
        | announced => exact Or.inl rfl
      · rintro ⟨hown, -⟩
        cases hown
  | release timestamp buf =>
      have hmarker : Over t.st .announced →
          written t.st (.release timestamp buf) .logfile ≠ [] := by
        intro hover
        have hlength := marker_pos (le_of_lt hpos) (.release timestamp buf)
        rw [written_release_logfile, if_pos hover]
        exact List.ne_nil_of_length_pos hlength
      constructor
      · rintro h ⟨-, hannounced, hlogfile⟩
        rcases h .logfile with hnone | ⟨hown, -⟩ | hnot
        · exact hmarker hannounced hnone
        · cases hown
        · exact hnot hlogfile
      · intro h name
        cases name with
        | logfile =>
            by_cases hover : Over t.st .announced
            case pos => exact Or.inr (Or.inr fun hlogfile => h ⟨rfl, hover, hlogfile⟩)
            case neg =>
              left
              rw [written_release_logfile, if_neg hover]
        | announced =>
            right
            by_cases hover : Over t.st .announced
            · exact Or.inl ⟨rfl, hover⟩
            · exact Or.inr hover

/-- A call that does not write to a file does not cut it. -/
theorem textAfter_of_written {st : LogState} {c : Call} {name : LogName}
    (h : written st c name = []) : textAfter st c name = text st name := by
  have hcuts : ¬ Cuts st c name := by
    rintro ⟨hown, -⟩
    have hline : c.line ≠ [] := by
      cases c with
      | event timestamp buf => simp [Call.line]
      | release timestamp buf => simp [Call.line]
    unfold written at h
    rw [if_pos hown] at h
    exact hline (List.append_eq_nil_iff.mp h).1
  unfold textAfter
  rw [if_neg hcuts, h, List.append_nil]

/-- **One call, exactly.** -/
theorem bounded_step_iff {t t' : Traced} {c : Call} (ht : Sound t) (hbounded : Bounded t)
    (h : Step t c t') : Bounded t' ↔ ¬ Overdue t c := by
  have hname : ∀ name, (size t'.st name : Int) ≤ t'.st.maxlogsize + t'.last name ↔
      written t.st c name = [] ∨ Cuts t.st c name ∨ ¬ Over t.st name := by
    intro name
    unfold size
    rw [h.text_eq ht, h.maxlogsize_eq ht, h.2 name]
    by_cases hnone : written t.st c name = []
    case pos =>
      rw [if_pos hnone, textAfter_of_written hnone]
      exact iff_of_true (hbounded name) (Or.inl hnone)
    case neg =>
      rw [if_neg hnone, bounded_of_written ht.positive, or_iff_right hnone]
  rw [← uncut_iff ht.positive c]
  exact forall_congr' hname

/-- **The size of the logs, exactly.**  Whatever the files hold when the module
is loaded: every call returns, the memory is never larger than `logfile.txt`, and
the files are within the limit but for the last write to them throughout a run,
if and only if no call of it tells a `logfile.txt` that is over the limit that
`announced.txt` was. -/
theorem logs_bounded_iff (maxlogsize : Int) (hpos : 0 < maxlogsize)
    (logfile announced : Option Str) (run : List (Call × Traced))
    (hrun : IsRun Step (start maxlogsize logfile announced) run) :
    ((∀ e ∈ run, Bounded e.2 ∧ Mirrors e.2) ↔
      ∀ e ∈ sources (start maxlogsize logfile announced) run, ¬ Overdue e.1 e.2) ∧
    (∀ e ∈ run, Mirrors e.2) ∧
    (∀ c, ∃ t', Step (start maxlogsize logfile announced) c t') ∧
    ∀ e ∈ run, ∀ c, ∃ t', Step e.2 c t' := by
  have hsound := sound_start hpos logfile announced
  have hkeep : ∀ (t : Traced) (c : Call) (t' : Traced), Sound t → Step t c t' → Sound t' :=
    fun _ _ _ ht h => ht.step h
  have hall : ∀ e ∈ run, Sound e.2 := IsRun.invariant hkeep hrun hsound
  have hmirrors : ∀ e ∈ run, Mirrors e.2 := fun e he => (hall e he).mirrors
  refine ⟨?_, hmirrors, fun c => ⟨_, hsound.step_next c⟩,
    fun e he c => ⟨next e.2 c, (hall e he).step_next c⟩⟩
  have hiff := IsRun.forall_iff (P := Bounded) (C := fun t c => ¬ Overdue t c) hkeep
    (fun _ _ _ ht hbounded h => bounded_step_iff ht hbounded h) hrun hsound
    (bounded_start hpos logfile announced)
  rw [← hiff]
  constructor
  · exact fun h e he => (h e he).1
  · exact fun h e he => ⟨h e he, hmirrors e he⟩

/-- An event, and two releases. -/
def eventCall : Call := .event (lit "[ 2026-01-01 / 00:00:00 ] ") (lit "x")

def releaseCall (name : String) : Call := .release (lit "[ 2026-01-01 / 00:00:00] ") (lit name)

/-- The states of a module with a limit of one byte, behind one call and two. -/
def tightOne : Traced := next (start 1 none none) eventCall

def tightTwo : Traced := next tightOne (releaseCall "a")

def tightRun : List (Call × Traced) :=
  [(eventCall, tightOne), (releaseCall "a", tightTwo),
    (releaseCall "b", next tightTwo (releaseCall "b"))]

theorem isRun_tightRun : IsRun Step (start 1 none none) tightRun ∧ Sound tightTwo := by
  have h0 : Sound (start 1 none none) := sound_start (by decide) none none
  have h1 : Sound tightOne := h0.step (h0.step_next _)
  have h2 : Sound tightTwo := h1.step (h1.step_next _)
  exact ⟨⟨h0.step_next _, h1.step_next _, h2.step_next _, trivial⟩, h2⟩

/-- The run up to the call that goes wrong. -/
theorem logs_bounded_tight :
    ((∀ e ∈ tightRun, Bounded e.2 ∧ Mirrors e.2) ↔
      ∀ e ∈ sources (start 1 none none) tightRun, ¬ Overdue e.1 e.2) ∧
    (∀ e ∈ tightRun, Mirrors e.2) ∧
    (∀ c, ∃ t', Step (start 1 none none) c t') ∧
    ∀ e ∈ tightRun, ∀ c, ∃ t', Step e.2 c t' :=
  logs_bounded_iff 1 (by decide) none none tightRun isRun_tightRun.1

/-- The second release tells `logfile.txt` that the first was cut away. -/
theorem logs_unbounded :
    ¬ ∀ (maxlogsize : Int) (logfile announced : Option Str) (run : List (Call × Traced)),
      0 < maxlogsize → IsRun Step (start maxlogsize logfile announced) run →
        ∀ e ∈ run, Bounded e.2 ∧ Mirrors e.2 := by
  intro hall
  obtain ⟨hrun, hsound⟩ := isRun_tightRun
  have hbounded := hall 1 none none tightRun (by decide) hrun
  have h2 : Bounded tightTwo := (hbounded (releaseCall "a", tightTwo) (by simp [tightRun])).1
  have h3 : Bounded (next tightTwo (releaseCall "b")) :=
    (hbounded (releaseCall "b", next tightTwo (releaseCall "b")) (by simp [tightRun])).1
  have hannounced : Over tightTwo.st .announced := by decide
  have hlogfile : Over tightTwo.st .logfile := by decide
  exact (bounded_step_iff hsound h2 (hsound.step_next _)).mp h3 ⟨rfl, hannounced, hlogfile⟩

end LuadchAnnouncer.Core.LogBound
