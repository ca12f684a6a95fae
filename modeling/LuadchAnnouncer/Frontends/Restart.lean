import LuadchAnnouncer.Frontends.Announcing

/-!
# At most once, across restarts

A process may be killed at any moment, in the middle of a write too, and the next one
reads from `announced.txt` what it has to leave out.  The account of `Frontends.Announcing`
goes on over the restart with the names that are still in the file: none of them is sent
again.  What a restart can lose of the account is little, and `Forgotten` says what.

## Main results

* `mem_lines_or_glued` — the names that are in the file behind any number of records.
* `Settled.step`, `ensures_loop` — the account and the file, along a session.
* `Alive.step` — moves and restarts keep what holds of a life.
* `lives_announce_once` — no name twice, and what a restart can forget.
-/

namespace LuadchAnnouncer.Frontends.Restart

open LuadchAnnouncer.Verified.Bytes
open LuadchAnnouncer.Verified.LuaValue
open LuadchAnnouncer.Verified.Program
open LuadchAnnouncer.Core.Log
open LuadchAnnouncer.Core.Announce
open LuadchAnnouncer.Core.Net (Settings Eff Reply Act announceOne announceRound mainBody loop
  commandOf)
open LuadchAnnouncer.Core.NetEffects
open LuadchAnnouncer.Core.NetLogin (defaultSettings)
open LuadchAnnouncer.Frontends.Reconnect
open LuadchAnnouncer.Frontends.Announcing

/-! ## Lines behind a record -/

/-- The lines that `log.release` has written for these names. -/
def records (names : List Str) : Str := names.flatMap fun name => name ++ [lf]

theorem records_concat (names : List Str) (name : Str) :
    records (names ++ [name]) = records names ++ (name ++ [lf]) := by
  rw [records, List.flatMap_append, List.flatMap_singleton]
  rfl

/-- What is appended behind a last line feed takes no line away. -/
theorem mem_lines_append {s : Str} (hs : Terminated s) {name : Str} (h : name ∈ lines s)
    (t : Str) : name ∈ lines (s ++ t) := by
  rcases hs with hnil | hlast
  · rw [hnil] at h
    cases h
  · obtain ⟨init, rfl⟩ := List.getLast?_eq_some_iff.mp hlast
    rw [List.append_assoc, List.singleton_append, lines_append_lf]
    exact List.mem_append_left _ h

/-- So a name that is recorded is a line, whatever stands in front, if what stands there
ends in a line feed. -/
theorem mem_lines_records {names : List Str} {name : Str} (hname : lf ∉ name) (t : Str) :
    ∀ s, Terminated s → name ∈ lines s ∨ name ∈ names → name ∈ lines (s ++ records names ++ t) := by
  induction names with
  | nil =>
      intro s hs h
      have hold : name ∈ lines s := h.resolve_right List.not_mem_nil
      rw [List.append_assoc]
      exact mem_lines_append hs hold _
  | cons first names ih =>
      intro s hs h
      have hnext : Terminated (s ++ (first ++ [lf])) := by
        rw [← List.append_assoc]
        exact terminated_append_lf _
      have hsplit : s ++ records (first :: names) ++ t =
          (s ++ (first ++ [lf])) ++ records names ++ t := by
        simp [records]
      rw [hsplit]
      apply ih _ hnext
      rcases h with hold | hnew
      · exact Or.inl (mem_lines_append hs hold _)
      · rcases List.mem_cons.mp hnew with heq | hrest
        · left
          rw [← heq, lines_append_line s name hs hname]
          exact List.mem_append_right _ (List.mem_singleton_self name)
        · exact Or.inr hrest

/-- A text whose last line is open, and the two names this may cost: the open line, and
the first record, which is glued to it. -/
def Glued (text : Str) (recorded : List Str) (name : Str) : Prop :=
  ∃ init rest, text = init ++ rest ∧ Terminated init ∧ lf ∉ rest ∧ rest ≠ [] ∧
    (name = rest ∨ recorded.head? = some name)

/-- If it does not, the first record is glued to the rest of a line; all the others are
lines. -/
theorem mem_lines_or_glued {text : Str} {recorded : List Str} {name : Str} (hname : lf ∉ name)
    (h : name ∈ lines text ∨ name ∈ recorded) (t : Str) :
    name ∈ lines (text ++ records recorded ++ t) ∨ Glued text recorded name := by
  obtain ⟨init, rest, rfl, hinit, hrest⟩ := exists_terminated_append text
  by_cases hclosed : rest = []
  · left
    rw [hclosed, List.append_nil] at h ⊢
    exact mem_lines_records hname t init hinit h
  · rw [lines_append_open init rest hinit hrest hclosed, List.mem_append, List.mem_singleton] at h
    by_cases hopen : name = rest
    · exact Or.inr ⟨init, rest, rfl, hinit, hrest, hclosed, Or.inl hopen⟩
    · cases recorded with
      | nil =>
          left
          have hold : name ∈ lines init := by simpa [hopen] using h
          rw [List.append_assoc, List.append_assoc]
          exact mem_lines_append hinit hold _
      | cons first names =>
          by_cases hfirst : first = name
          · refine Or.inr ⟨init, rest, rfl, hinit, hrest, hclosed, Or.inr ?_⟩
            rw [List.head?_cons, hfirst]
          · left
            have hsplit : init ++ rest ++ records (first :: names) ++ t =
                (init ++ (rest ++ first) ++ [lf]) ++ records names ++ t := by
              simp [records]
            rw [hsplit]
            apply mem_lines_records hname t _ (terminated_append_lf _)
            have hcases : name ∈ lines init ∨ name ∈ names := by
              simpa [hopen, Ne.symm hfirst] using h
            rcases hcases with hold | hnew
            · left
              rw [List.append_assoc]
              exact mem_lines_append hinit hold _
            · exact Or.inr hnew

/-! ## What a process writes -/

/-- The text the process has found, unless it was emptied, and its own records. -/
def written (text : Str) (p : Proc) : Str :=
  (if p.rotated then [] else text) ++ records p.recorded

/-- What `announced.txt` is to a process that has found `text` in it. -/
structure OnDisk (text : Str) (p : Proc) : Prop where
  file : p.log.announced = .linked (written text p)
  loaded : p.loaded = (lines text).toFinset

/-- What holds at every moment. -/
structure Covered (text : Str) (p : Proc) : Prop extends OnDisk text p where
  covered : ∀ name ∈ p.sentSince, name ∈ p.log.releases ∨ p.pending = some name

/-- What holds while no frame waits for its record. -/
structure Settled (text : Str) (p : Proc) : Prop extends OnDisk text p where
  settled : p.pending = none
  remembered : ∀ name ∈ p.sentSince, name ∈ p.log.releases

section

variable {text : Str} {p p' : Proc}

theorem Settled.covered (h : Settled text p) : Covered text p :=
  ⟨h.toOnDisk, fun name hname => Or.inl (h.remembered name hname)⟩

/-- Lines in the logfile change nothing about `announced.txt`. -/
theorem Settled.relogged (h : Settled text p) (hlog : Relogged p p') : Settled text p' := by
  obtain ⟨log, rfl, hannounced, hreleases⟩ := hlog
  exact {
    file := by
      simp only [hannounced]
      exact h.file
    loaded := h.loaded
    settled := h.settled
    remembered := by
      simp only [hreleases]
      exact h.remembered }

/-- The account of a round is no part of it, and the rules are none. -/
theorem Settled.rounded (h : Settled text p) (rules : Option (List Rule)) (round : Round) :
    Settled text { p with rules := rules, round := round } :=
  ⟨⟨h.file, h.loaded⟩, h.settled, h.remembered⟩

/-- A frame has gone out, and its record is still to come. -/
theorem Settled.sentBmsg (h : Settled text p) (name : Str) : Covered text (p.sentBmsg name) where
  file := h.file
  loaded := h.loaded
  covered := by
    intro other hother
    rcases List.mem_append.mp hother with hold | hnew
    · exact Or.inl (h.remembered other hold)
    · rw [List.mem_singleton] at hnew
      exact Or.inr (by rw [hnew]; rfl)

/-- The frame and its record together. -/
theorem Settled.released (h : Settled text p) {timestamp name : Str} {log : LogState}
    (hrelease : p.log.release timestamp name = .ok log) :
    Settled text ((p.sentBmsg name).released name log) := by
  have hmem := mem_releases_iff h.file hrelease
  obtain ⟨hfile, -⟩ := LogState.release_linked h.file hrelease
  have hrotates := rotates_eq_decide h.file hrelease
  rw [released_sentBmsg]
  exact {
    file := by
      show log.announced = .linked ((if p.rotated || p.rotates then [] else text) ++
        records ((if p.rotates then [] else p.recorded) ++ [name]))
      rw [hfile, hrotates, records_concat]
      by_cases hrot : p.log.Rotates (written text p)
      · simp [hrot, records]
      · rw [if_neg hrot, decide_eq_false hrot]
        simp [written]
    loaded := h.loaded
    settled := rfl
    remembered := by
      intro other hother
      obtain ⟨hrot, hold | hnew⟩ := mem_sentSince_cases hother
      · exact (hmem other).mpr (Or.inr ⟨hrot, h.remembered other hold⟩)
      · exact (hmem other).mpr (Or.inl hnew) }

/-! ## A session -/

/-- An effect that neither sends a release nor records one. -/
def mild : Eff → Bool
  | .release _ => false
  | .send (.bmsg _ _ _ _) => false
  | _ => true

def Mild (e : Eff) : Prop := mild e = true

/-- What is no part of announcing neither sends a release nor records one. -/
theorem mild_of_calm {e : Eff} (he : Calm e) : Mild e := by
  cases e with
  | release name => cases he
  | send frame =>
      cases frame with
      | bmsg sid command category name => cases he
      | _ => rfl
  | _ => rfl

/-- The other effects keep file and account settled. -/
theorem Settled.step {e : Eff} {reply : Reply e} (he : Mild e) (h : Settled text p)
    (hstep : p.Step e reply p') : Settled text p' := by
  by_cases hcalm : Calm e
  · exact h.relogged (relogged_of_calm hcalm hstep)
  · cases e with
    | release name => cases he
    | update =>
        cases reply with
        | ok entries =>
            obtain ⟨w, file, u, log, -, hlogged, -, rfl⟩ := hstep
            exact (h.relogged (relogged_of_logged hlogged)).rounded _ _
        | error err =>
            obtain ⟨w, file, log, -, hlogged, rfl⟩ := hstep
            exact (h.relogged (relogged_of_logged hlogged)).rounded p.rules _
    | send frame =>
        cases frame with
        | bmsg sid command category name => cases he
        | keepAlive sid =>
            cases reply with
            | ok _ =>
                cases hstep
                exact h
            | error err =>
                cases hstep
                exact h.rounded p.rules _
        | _ => exact absurd rfl hcalm
    | _ => exact absurd rfl hcalm

/-- What a session has to come to. -/
def Account {α : Type} (text : Str) (o : Outcome LuaError Bool α) (p : Proc) : Prop :=
  Covered text p ∧ ((∃ b, o = .exit b) → Settled text p)

theorem Settled.account {α : Type} (h : Settled text p) (o : Outcome LuaError Bool α) :
    Account text o p := ⟨h.covered, fun _ => h⟩

/-- A stage of a session. -/
abbrev Stage {α : Type} (text : Str) : Outcome LuaError Bool α → Proc → Prop :=
  Outcome.andThen (Account (α := Unit) text) fun _ => Settled text

theorem ensures_mild {α : Type} {q : Act α} (hq : q.Uses Mild) (h : Settled text p) :
    Ensures Proc.Step q p (Stage text) :=
  ensures_stage_uses (fun _ _ _ _ he hp hs => hp.step he hs) (fun _ _ hp => hp.account _) hq h

theorem ensures_calm {α : Type} {q : Act α} (hq : q.Uses Calm) (h : Settled text p) :
    Ensures Proc.Step q p (Stage text) :=
  ensures_mild (hq.mono fun _ => mild_of_calm) h

theorem ensures_quiet {α : Type} {q : Act α} (hq : q.Uses Quiet) (h : Settled text p) :
    Ensures Proc.Step q p (Stage text) :=
  ensures_calm (hq.mono fun _ => And.left) h

theorem ensures_here {α : Type} {a : α} (h : Settled text p) :
    Ensures Proc.Step (.ret a) p (Stage text) :=
  ensures_stage_ret (h.account _) h

/-- **A frame is followed by its record.** -/
theorem ensures_announceOne (sid : Str) (c : Nat) (entry : Str × Rule) (h : Settled text p) :
    Ensures Proc.Step (announceOne sid c entry) p (Stage text) := by
  obtain ⟨name, cfg⟩ := entry
  simp only [announceOne]
  cases hcommand : commandOf cfg with
  | error err => exact ensures_raise.mpr ⟨h.account _, h.account _⟩
  | ok command =>
      simp only [Prog.ofExcept, Prog.bind_eq, Prog.ret_bind]
      split
      case h_2 => exact ensures_stage_bind (ensures_quiet (uses_log _) h) fun _ _ => ensures_here
      case h_1 =>
        refine ensures_effect_bind.mpr ⟨h.account _, ?_⟩
        intro reply p₁ hstep
        cases reply with
        | error err =>
            cases hstep
            have hfailed : Settled text p.sendFailed := h.rounded p.rules _
            refine ensures_stage_bind (ensures_quiet (uses_log _) hfailed) fun _ p₂ h₂ => ?_
            exact ensures_exit.mpr ⟨h₂.account _, h₂.account _⟩
        | ok _ =>
            cases hstep
            have hsent : Account (α := Unit) text .running (p.sentBmsg name) := by
              refine ⟨h.sentBmsg name, ?_⟩
              rintro ⟨b, hexit⟩
              cases hexit
            refine ensures_effect_bind.mpr ⟨hsent, ?_⟩
            intro _ p₂ hrelease
            obtain ⟨timestamp, log, hlog, rfl⟩ := hrelease
            exact ensures_here (h.released hlog)

/-- A round sends and records one name after the other, so only the last can be pending. -/
theorem ensures_announceRound (settings : Settings) (sid : Str) (h : Settled text p) :
    Ensures Proc.Step (announceRound settings sid) p (Stage text) := by
  refine ensures_stage_bind (ensures_quiet (uses_settimeout _) h) fun _ p₁ h₁ => ?_
  refine ensures_stage_bind (ensures_mild (Prog.uses_effect rfl) h₁) fun found p₂ h₂ => ?_
  have hfound : Ensures Proc.Step (Prog.ofExcept found) p₂ (Stage text) := by
    cases found with
    | ok found => exact ensures_here h₂
    | error err => exact ensures_raise.mpr ⟨h₂.account _, h₂.account _⟩
  refine ensures_stage_bind hfound fun found p₃ h₃ => ?_
  refine ensures_stage_bind (ensures_quiet (uses_log _) h₃) fun _ p₄ h₄ => ?_
  have hentries : Ensures Proc.Step (found.foldlM (announceOne sid) 0) p₄ (Stage text) :=
    ensures_stage_foldlM (I := fun _ _ => Settled text) (fun _ _ _ hp => hp.account _)
      (fun entry _ c _ hp => ensures_announceOne sid c entry hp) h₄
  refine ensures_stage_bind hentries fun c p₅ h₅ => ?_
  refine ensures_stage_bind (ensures_quiet (uses_log _) h₅) fun _ p₆ h₆ => ?_
  refine ensures_stage_bind (ensures_mild (Prog.uses_effect rfl) h₆) fun reply p₇ h₇ => ?_
  cases reply with
  | ok _ => exact ensures_here h₇
  | error err =>
      refine ensures_stage_bind (ensures_quiet (uses_log _) h₇) fun _ p₈ h₈ => ?_
      exact ensures_exit.mpr ⟨h₈.account _, h₈.account _⟩

/-- The body of the main loop keeps that, too. -/
theorem ensures_mainBody (settings : Settings) (sid : Str) (nextAnnounce : LuaNum)
    (h : Settled text p) :
    Ensures Proc.Step (mainBody settings sid nextAnnounce) p (Stage text) := by
  refine ensures_stage_bind (ensures_quiet uses_gettime h) fun now p₁ h₁ => ?_
  split
  case isTrue =>
    refine ensures_stage_bind (ensures_announceRound settings sid h₁) fun _ p₂ h₂ => ?_
    refine ensures_stage_bind (ensures_quiet uses_gettime h₂) fun now' p₃ h₃ => ?_
    exact ensures_stage_bind (ensures_quiet uses_poll h₃) fun _ _ => ensures_here
  case isFalse => exact ensures_stage_bind (ensures_quiet uses_poll h₁) fun _ _ => ensures_here

/-- And so does a session as a whole. -/
theorem ensures_loop (settings : Settings) (fuel : Nat) (h : Settled text p) :
    Ensures Proc.Step (loop settings fuel) p (Stage text) := by
  refine ensures_stage_bind (ensures_quiet (uses_openSocket settings fuel) h) fun opened p₁ h₁ => ?_
  cases opened with
  | none => exact ensures_here h₁
  | some run =>
      refine ensures_stage_bind (ensures_quiet (uses_secure settings run) h₁) fun _ p₂ h₂ => ?_
      refine ensures_stage_bind (ensures_quiet (uses_sendSupport run) h₂) fun _ p₃ h₃ => ?_
      refine ensures_stage_bind (ensures_calm (calm_login settings run) h₃) fun sid p₄ h₄ => ?_
      refine ensures_stage_bind (ensures_quiet (uses_settle settings) h₄) fun _ p₅ h₅ => ?_
      have hmain := ensures_stage_iterate (I := fun _ : LuaNum => Settled text)
        (fun _ _ hp => hp.account _)
        (fun next _ hp => ensures_mainBody settings sid next hp) fuel (.int 0) h₅
      exact ensures_stage_bind hmain fun _ _ => ensures_here

end

/-- Every session of the reconnect loop starts settled, and is settled again where it
returns. -/
theorem contract (text : Str) (settings : Settings) :
    Contract Proc.Step id settings (Settled text) (Covered text) where
  session := by
    intro fuel p h
    exact ensures_of_stage (ensures_loop settings fuel h) fun _ _ hp => hp.account _
  raised := fun _ h => h
  pause := fun p reply p' h hstep =>
    h.step (show mild (.sleep settings.sleep) = true from rfl) hstep
  always := fun _ h => h.covered

/-! ## One life after the other -/

/-- A process, with the configuration it runs on, what it is about to do, and the text of
`announced.txt` it has found. -/
structure Life where
  settings : Settings
  phase : Phase
  proc : Proc
  text : Str

/-- What a process that is killed leaves of `announced.txt`, in the middle of a record as
it may be: the file may have been emptied for it, and any part of the line be written. -/
inductive Left (p : Proc) : Str → Prop where
  | still {content : Str} (h : p.log.announced = .linked content) : Left p content
  | within {content name part : Str} (h : p.log.announced = .linked content)
      (hpending : p.pending = some name) (hpart : part <+: name ++ [lf]) :
      Left p ((if p.rotates then [] else content) ++ part)

namespace Life

/-- A start on these files.  Of the names in the account those stay that the process
finds in `announced.txt`. -/
def start (settings : Settings) (fuel : Nat) (maxlogsize : Int) (logfile announced : Option Str)
    (rules : Option (List Rule)) (sent : List Str) : Life :=
  let log := load maxlogsize logfile announced
  { settings := settings
    phase := .session (loop settings fuel)
    proc := { Proc.start log rules with
      sentSince := sent.filter fun name => decide (name ∈ log.releases) }
    text := (preRotate maxlogsize announced).getD [] }

/-- A step of the process that runs, or its end and another start, with whatever is in
the configuration by then. -/
inductive Step (l : Life) : Life → Prop where
  | move {label : Label} {phase : Phase} {proc : Proc}
      (h : Moves Proc.Step id l.settings (l.phase, l.proc) label (phase, proc)) :
      Step l { l with phase := phase, proc := proc }
  | restart {text : Str} (h : Left l.proc text) (settings : Settings) (fuel : Nat)
      (maxlogsize : Int) (logfile : Option Str) (rules : Option (List Rule)) :
      Step l (start settings fuel maxlogsize logfile (some text) rules l.proc.sentSince)

/-- The process is within both contracts. -/
structure Alive (l : Life) : Prop where
  announcing : Within Proc.Step id Idle Recorded (l.phase, l.proc)
  writing : Within Proc.Step id (Settled l.text) (Covered l.text) (l.phase, l.proc)

/-- A process that is started with some account keeps it, whatever its files hold. -/
theorem alive_start (settings : Settings) (fuel : Nat) (maxlogsize : Int)
    (logfile announced : Option Str) (rules : Option (List Rule)) {sent : List Str}
    (hsent : sent.Nodup) :
    Alive (start settings fuel maxlogsize logfile announced rules sent) where
  announcing := by
    apply (Announcing.contract settings).session fuel
    have hfirst := idle_start maxlogsize logfile announced rules
    exact {
      once := hsent.filter _
      table := hfirst.table
      failed := hfirst.failed
      linked := hfirst.linked
      settled := hfirst.settled
      sent := by
        intro name hname
        exact of_decide_eq_true (List.mem_filter.mp hname).2 }
  writing := by
    apply (Restart.contract _ settings).session fuel
    exact {
      file := by simp [start, Proc.start, load, written, records]
      loaded := rfl
      settled := rfl
      remembered := by
        intro name hname
        exact of_decide_eq_true (List.mem_filter.mp hname).2 }

/-- A move of the process or a restart keeps what holds of every life. -/
theorem Alive.step {l l' : Life} (h : Alive l) (hstep : Step l l') : Alive l' := by
  cases hstep with
  | move hmove =>
      exact ⟨(Announcing.contract l.settings).step h.announcing hmove,
        (Restart.contract l.text l.settings).step h.writing hmove⟩
  | restart hleft settings fuel maxlogsize logfile rules =>
      have honce := ((Announcing.contract l.settings).always_of_within h.announcing).once
      exact alive_start settings fuel maxlogsize logfile _ rules honce

end Life

/-- How a name that has been sent can be missing from the table of the next process, that
finds `text`. -/
inductive Forgotten (l : Life) (maxlogsize : Int) (text name : Str) : Prop where
  /-- the name is no line -/
  | broken (h : lf ∈ name)
  /-- the process was killed between the frame and the end of the record -/
  | cut (h : l.proc.pending = some name)
  /-- the process was killed in a record that has emptied the file -/
  | rotating (hpending : l.proc.pending ≠ none) (h : l.proc.rotates = true)
  /-- the next process empties the file -/
  | oversized (h : maxlogsize < text.length)
  /-- the process had itself found a record that was cut -/
  | glued (hrotated : l.proc.rotated = false) (h : Glued l.text l.proc.recorded name)

/-- A name that is recorded is a line of the file, whatever is written behind it. -/
theorem Covered.line_or_glued {text : Str} {p : Proc} (h : Covered text p)
    (hrecorded : Recorded p) {name : Str} (hname : lf ∉ name) (hmem : name ∈ p.log.releases)
    (t : Str) :
    name ∈ lines (written text p ++ t) ∨ (p.rotated = false ∧ Glued text p.recorded name) := by
  have htable := (hrecorded.table name).mp hmem
  cases hrotated : p.rotated with
  | true =>
      left
      have hnew : name ∈ p.recorded := by simpa [hrotated] using htable
      rw [written, hrotated, if_pos rfl]
      exact mem_lines_records hname t [] (Or.inl rfl) (Or.inr hnew)
  | false =>
      have hcases : name ∈ lines text ∨ name ∈ p.recorded := by
        rcases htable with hnew | ⟨-, hold⟩
        · exact Or.inr hnew
        · rw [h.loaded, List.mem_toFinset] at hold
          exact Or.inl hold
      rw [written, hrotated, if_neg Bool.false_ne_true]
      rcases mem_lines_or_glued hname hcases t with hline | hglued
      · exact Or.inl hline
      · exact Or.inr ⟨rfl, hglued⟩

/-- What is recorded is found by the next process. -/
theorem Covered.found {l : Life} {text : Str} (h : Covered l.text l.proc)
    (hrecorded : Recorded l.proc) (hleft : Left l.proc text) (maxlogsize : Int)
    (logfile : Option Str) {name : Str} (hsent : name ∈ l.proc.sentSince)
    (hlost : name ∉ (load maxlogsize logfile (some text)).releases) :
    Forgotten l maxlogsize text name := by
  by_cases hname : lf ∈ name
  · exact .broken hname
  by_cases hsize : maxlogsize < (text.length : Int)
  · exact .oversized hsize
  have hlines : name ∉ lines text := by
    simpa [load, preRotate, hsize] using hlost
  rcases h.covered name hsent with hmem | hpending
  case inr => exact .cut hpending
  cases hleft with
  | still hfile =>
      rw [h.file] at hfile
      injection hfile with hfile
      rcases h.line_or_glued hrecorded hname hmem [] with hline | ⟨hrotated, hglued⟩
      · rw [List.append_nil, hfile] at hline
        exact absurd hline hlines
      · exact .glued hrotated hglued
  | @within content other part hfile hpending hpart =>
      by_cases hrot : l.proc.rotates = true
      · exact .rotating (by rw [hpending]; simp) hrot
      · rw [h.file] at hfile
        injection hfile with hfile
        rcases h.line_or_glued hrecorded hname hmem part with hline | ⟨hrotated, hglued⟩
        · rw [hfile] at hline
          rw [if_neg hrot] at hlines
          exact absurd hline hlines
        · exact .glued hrotated hglued

/-- **At most once, across restarts.**  However often the announcer is killed and started
again, no name of the account is sent twice; and a restart takes a name off the account only
if the name has a line feed in it, the kill came between its frame and its record, the file
was emptied, or the file had a record in it that an earlier kill has cut. -/
theorem lives_announce_once {settings : Settings} {fuel : Nat} {maxlogsize : Int}
    {logfile announced : Option Str} {rules : Option (List Rule)} {l : Life}
    (hlives : Relation.ReflTransGen Life.Step
      (Life.start settings fuel maxlogsize logfile announced rules []) l) :
    l.proc.sentSince.Nodup ∧
    ∀ text, Left l.proc text → ∀ (maxlogsize : Int) (logfile : Option Str),
      ∀ name ∈ l.proc.sentSince, name ∉ (load maxlogsize logfile (some text)).releases →
        Forgotten l maxlogsize text name := by
  have halive : Life.Alive l := by
    induction hlives with
    | refl =>
        exact Life.alive_start settings fuel maxlogsize logfile announced rules List.nodup_nil
    | tail _ hstep ih => exact ih.step hstep
  have hrecorded := (Announcing.contract l.settings).always_of_within halive.announcing
  have hcovered := (contract l.text l.settings).always_of_within halive.writing
  refine ⟨hrecorded.once, ?_⟩
  intro text hleft maxlogsize logfile name hname hlost
  exact hcovered.found hrecorded hleft maxlogsize logfile hname hlost

/-- A run of the process is one of its life. -/
theorem lives_of_runs {l : Life} {phase : Phase} {p : Proc}
    (hruns : Runs Proc.Step id l.settings (l.phase, l.proc) (phase, p)) :
    Relation.ReflTransGen Life.Step l { l with phase := phase, proc := p } := by
  suffices h : ∀ w, Runs Proc.Step id l.settings (l.phase, l.proc) w →
      Relation.ReflTransGen Life.Step l { l with phase := w.1, proc := w.2 } from h _ hruns
  intro w hw
  induction hw with
  | refl => exact .refl
  | tail _ hstep ih =>
      obtain ⟨label, hmove⟩ := hstep
      exact ih.tail (Life.Step.move hmove)

/-- A process at its start, and the lines of a hub that lets it in. -/
def morning : Proc × List Str := (Proc.start (load 2097152 none none) none,
  [lit "ISUP ADOSNR", lit "ISID AAAA", lit "IINF CT32", lit "IGPA MFRGGZDF", lit "BINF AAAA CT2"])

/-- What has become of its first session, with one release. -/
def firstDay : Outcome LuaError Bool Unit × Proc × List Str :=
  (loop defaultSettings 2).run goodDay morning

theorem firstDay_announces : firstDay.2.1.sentSince = [lit "Some.Release"] ∧
    firstDay.2.1.log.announced = .linked (lit "Some.Release\n") := by decide +kernel

/-- The first session of the example is a run in which one release is announced and
recorded. -/
theorem runs_firstDay : ∃ rest p, Runs Proc.Step id defaultSettings
    (.session (loop defaultSettings 2), morning.1) (.session rest, p) ∧
    p.sentSince = [lit "Some.Release"] ∧
    p.log.announced = .linked (lit "Some.Release\n") := by
  have hexec : ∀ day, (loop defaultSettings 2).run goodDay morning = day →
      Exec Proc.Step (loop defaultSettings 2) morning.1 day.1 day.2.1 := by
    intro day hday
    rw [← hday]
    exact exec_run_view goodDay Prod.fst (fun _ _ _ _ h => goodDay_step h) _ _
  obtain ⟨rest, hruns⟩ := runs_of_exec (hexec firstDay rfl)
  exact ⟨rest, firstDay.2.1, hruns, firstDay_announces⟩

/-- A release is announced, the process is killed, and the next one knows of it. -/
theorem lives_announce_once_restarted : ∃ l,
    Relation.ReflTransGen Life.Step (Life.start defaultSettings 2 2097152 none none none []) l ∧
    l.proc.sentSince = [lit "Some.Release"] ∧
    ∀ text, Left l.proc text → ∀ (maxlogsize : Int) (logfile : Option Str),
      ∀ name ∈ l.proc.sentSince, name ∉ (load maxlogsize logfile (some text)).releases →
        Forgotten l maxlogsize text name := by
  obtain ⟨rest, p, hruns, hsent, hfile⟩ := runs_firstDay
  let first := Life.start defaultSettings 2 2097152 none none none []
  let l := Life.start defaultSettings 2 2097152 none (some (lit "Some.Release\n")) none
    p.sentSince
  have hlives : Relation.ReflTransGen Life.Step first l :=
    (lives_of_runs (l := first) hruns).tail
      (Life.Step.restart (Left.still hfile) defaultSettings 2 2097152 none none)
  have hkept : l.proc.sentSince = [lit "Some.Release"] := by
    show p.sentSince.filter _ = _
    rw [hsent]
    decide +kernel
  exact ⟨l, hlives, hkept, (lives_announce_once hlives).2⟩

end LuadchAnnouncer.Frontends.Restart
