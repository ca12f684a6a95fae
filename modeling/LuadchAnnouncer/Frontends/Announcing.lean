import LuadchAnnouncer.Core.AnnounceFilter
import LuadchAnnouncer.Core.Log
import LuadchAnnouncer.Core.NetEffects
import LuadchAnnouncer.Core.NetLogin
import LuadchAnnouncer.Frontends.Reconnect

/-!
# At most once

What keeps a release from being announced twice is spread over three modules.
`announce.lua` leaves out of a scan what is in the table it calls
`alreadysent`; `net.lua` announces what the scan has found, one `BMSG` after
the other, and reports each to `log.lua`; and `log.lua` puts it into that same
table, after clearing the table when it has truncated the file behind it.

`Proc` is a process with its three modules and, next to them, an account of
what has gone out: the names sent and the names recorded since the last
rotation, and the round being announced.  `InRound` is the invariant of the
announcing loop, `Idle` the one of everything else.

## Main results

* `InRound.recorded_sentBmsg`, `InRound.released` — the two halves of an announcement.
* `ensures_announceRound`, `ensures_loop` — the round and the session.
* `contract` — the sessions of the reconnect loop, one after the other.
* `runs_announce_once` — what holds at every moment of every run.
-/

namespace LuadchAnnouncer.Frontends.Announcing

open LuadchAnnouncer.Verified.Bytes
open LuadchAnnouncer.Verified.LuaValue
open LuadchAnnouncer.Verified.Program
open LuadchAnnouncer.Core.Log
open LuadchAnnouncer.Core.Announce
open LuadchAnnouncer.Core.AnnounceScan
open LuadchAnnouncer.Core.Net (Settings Eff Reply Act announceOne announceRound mainBody loop
  commandOf login settle secure sendSupport openSocket log leave)
open LuadchAnnouncer.Core.AnnounceFilter (sampleFs sampleRule)
open LuadchAnnouncer.Core.NetEffects
open LuadchAnnouncer.Core.NetLogin (defaultSettings)
open LuadchAnnouncer.Frontends.Reconnect

/-! ## A process and its account -/

/-- The account of one round: what the scan found, in the order it is gone
through, and what has become of it. -/
structure Round where
  found : List Str := []
  sent : List Str := []
  recorded : List Str := []
  failed : Bool := false

/-- A process: its log, its rules, and beside them an account of what has gone out.  The
last fields are about the round that is under way. -/
structure Proc where
  log : LogState
  /-- the global `rules` -/
  rules : Option (List Rule)
  loaded : Finset Str
  rotated : Bool := false
  sentSince : List Str := []
  recorded : List Str := []
  pending : Option Str := none
  round : Round := {}

namespace Proc

/-- The process once its modules are loaded. -/
def start (log : LogState) (rules : Option (List Rule)) : Proc :=
  { log := log, rules := rules, loaded := log.releases }

/-- `alreadysent[ release ]` -/
def alreadysent (p : Proc) (release : Str) : Bool := decide (release ∈ p.log.releases)

/-- A `BMSG` has gone out. -/
def sentBmsg (p : Proc) (name : Str) : Proc :=
  { p with
    sentSince := p.sentSince ++ [name]
    pending := some name
    round := { p.round with sent := p.round.sent ++ [name] } }

/-- A frame of the round has not. -/
def sendFailed (p : Proc) : Proc := { p with round := { p.round with failed := true } }

/-- `check_filesize` is about to truncate `announced.txt`. -/
def rotates (p : Proc) : Bool :=
  match p.log.checkFilesize .announced with
  | .ok (cleared, _) => cleared
  | .error _ => false

/-- The call `log.release( name )` has finished.  It counts as recorded when it
is the call for the frame that has just gone out. -/
def released (p : Proc) (name : Str) (log : LogState) : Proc :=
  let own := p.pending == some name
  { p with
    log := log
    rotated := p.rotated || p.rotates
    sentSince := if p.rotates then [] else p.sentSince
    recorded := (if p.rotates then [] else p.recorded) ++ (if own then [name] else [])
    pending := none
    round := { p.round with
      recorded := if own then p.round.recorded ++ [name] else p.round.recorded } }

/-- Any number of lines for the activity trace. -/
def Logged : LogState → LogState → Prop :=
  Relation.ReflTransGen fun log log' => ∃ timestamp buf, log.event timestamp buf = .ok log'

/-- What an effect of `net.loop` does to the process.  A call into `log` that
raises ends the process, so there is nothing to be said after it. -/
def Step (p : Proc) : (e : Eff) → Reply e → Proc → Prop
  | .event buf, _, p' =>
      ∃ timestamp log, p.log.event timestamp buf = .ok log ∧ p' = { p with log := log }
  | .status _ _, _, p' => ∃ log, Logged p.log log ∧ p' = { p with log := log }
  | .update, .ok entries, p' =>
      ∃ w file u log, update w file p.rules p.alreadysent = .ok u ∧ Logged p.log log ∧
        entries.Perm (u.scan.found.entries.map fun entry => (entry.1, entry.2)) ∧
        p' = { p with
          log := log, rules := u.rules, round := { found := entries.map Prod.fst } }
  | .update, .error err, p' =>
      ∃ w file log, update w file p.rules p.alreadysent = .error err ∧ Logged p.log log ∧
        p' = { p with log := log, round := {} }
  | .send (.bmsg _ _ _ name), .ok (), p' => p' = p.sentBmsg name
  | .send (.bmsg _ _ _ _), .error _, p' => p' = p.sendFailed
  | .send (.keepAlive _), .error _, p' => p' = p.sendFailed
  | .release name, _, p' =>
      ∃ timestamp log, p.log.release timestamp name = .ok log ∧ p' = p.released name log
  | _, _, p' => p' = p

end Proc

/-! ## The invariants -/

/-- What holds at every moment: no name was sent twice since the last rotation, the table
has what was recorded since and, before any rotation, what was loaded, and a round that
has failed has recorded what it has sent. -/
structure Recorded (p : Proc) : Prop where
  once : p.sentSince.Nodup
  table : ∀ name, name ∈ p.log.releases ↔
    name ∈ p.recorded ∨ (p.rotated = false ∧ name ∈ p.loaded)
  failed : p.round.failed = true → p.round.recorded = p.round.sent ∧
    ∀ r ∈ p.round.found, r ∉ p.round.sent → r ∉ p.log.releases

/-- What holds while no frame is being accounted for: `announced.txt` is at its path, and
every name that was sent is in the table. -/
structure Idle (p : Proc) : Prop extends Recorded p where
  linked : ∃ content, p.log.announced = .linked content
  settled : p.pending = none
  sent : ∀ name ∈ p.sentSince, name ∈ p.log.releases

/-- What holds in a round, with `rest` still to be announced: none of these has been sent,
and what was found and not sent is not in the table, so a new scan would find it again. -/
structure InRound (rest : List (Str × Rule)) (p : Proc) : Prop extends Idle p where
  running : p.round.failed = false
  level : p.round.recorded = p.round.sent
  unsent : ∀ r ∈ p.round.found, r ∉ p.round.sent → r ∉ p.log.releases
  fresh : ∀ entry ∈ rest, entry.1 ∉ p.sentSince
  distinct : (rest.map Prod.fst).Nodup

/-- A step that leaves everything but the activity trace alone.  `log.event` writes to
`logfile.txt`, which is no part of the account. -/
def Relogged (p p' : Proc) : Prop :=
  ∃ log, p' = { p with log := log } ∧ log.announced = p.log.announced ∧
    log.releases = p.log.releases

/-- Lines in the logfile leave the account alone: `announced.txt` and the names in memory
are as before. -/
theorem logged_frame {st st' : LogState} (h : Proc.Logged st st') :
    st'.announced = st.announced ∧ st'.releases = st.releases := by
  induction h with
  | refl => exact ⟨rfl, rfl⟩
  | tail _ hstep ih =>
      obtain ⟨timestamp, buf, hevent⟩ := hstep
      obtain ⟨hannounced, hreleases, -⟩ := LogState.event_frame hevent
      exact ⟨hannounced.trans ih.1, hreleases.trans ih.2⟩

theorem relogged_refl (p : Proc) : Relogged p p := ⟨p.log, rfl, rfl, rfl⟩

theorem relogged_of_logged {p : Proc} {log : LogState} (h : Proc.Logged p.log log) :
    Relogged p { p with log := log } :=
  ⟨log, rfl, (logged_frame h).1, (logged_frame h).2⟩

/-- An effect that is no part of announcing does nothing to the process but that. -/
theorem relogged_of_calm {p p' : Proc} {e : Eff} {reply : Reply e} (he : Calm e)
    (h : p.Step e reply p') : Relogged p p' := by
  cases e with
  | event buf =>
      obtain ⟨timestamp, log, hevent, rfl⟩ := h
      exact relogged_of_logged (.single ⟨timestamp, buf, hevent⟩)
  | status key value =>
      obtain ⟨log, hlogged, rfl⟩ := h
      exact relogged_of_logged hlogged
  | update => cases he
  | release name => cases he
  | send frame =>
      cases frame with
      | bmsg sid command category name => cases he
      | keepAlive sid => cases he
      | hsup => cases h; exact relogged_refl p
      | inf sid => cases h; exact relogged_refl p
      | hpas pas => cases h; exact relogged_refl p
      | infCount sid hubcount => cases h; exact relogged_refl p
  | _ => cases h; exact relogged_refl p

/-- The account holds behind such an effect. -/
theorem Recorded.relogged {p p' : Proc} (h : Recorded p) (hlog : Relogged p p') :
    Recorded p' := by
  obtain ⟨log, rfl, hannounced, hreleases⟩ := hlog
  exact {
    once := h.once
    table := by
      intro name
      simp only [hreleases]
      exact h.table name
    failed := by
      intro hfailed
      simp only [hreleases]
      exact h.failed hfailed }

/-- Between two rounds it does, too. -/
theorem Idle.relogged {p p' : Proc} (h : Idle p) (hlog : Relogged p p') : Idle p' := by
  have hrecorded := h.toRecorded.relogged hlog
  obtain ⟨log, rfl, hannounced, hreleases⟩ := hlog
  exact {
    toRecorded := hrecorded
    linked := by
      simp only [hannounced]
      exact h.linked
    settled := h.settled
    sent := by
      simp only [hreleases]
      exact h.sent }

/-- And in the middle of a round. -/
theorem InRound.relogged {rest : List (Str × Rule)} {p p' : Proc} (h : InRound rest p)
    (hlog : Relogged p p') : InRound rest p' := by
  have hidle := h.toIdle.relogged hlog
  obtain ⟨log, rfl, hannounced, hreleases⟩ := hlog
  exact {
    toIdle := hidle
    running := h.running
    level := h.level
    unsent := by
      simp only [hreleases]
      exact h.unsent
    fresh := h.fresh
    distinct := h.distinct }

/-! ## The steps of a round -/

/-- A scan opens a round: it has left out what is in the table, and everything
sent since the last rotation is. -/
theorem inRound_of_scan {p : Proc} {w : World} {file : RulesFile} {u : Update}
    {entries : List (Str × Rule)} {log : LogState} (h : Idle p)
    (hupdate : update w file p.rules p.alreadysent = .ok u) (hlogged : Proc.Logged p.log log)
    (hentries : entries.Perm (u.scan.found.entries.map fun entry => (entry.1, entry.2))) :
    InRound entries { p with
      log := log, rules := u.rules, round := { found := entries.map Prod.fst } } := by
  obtain ⟨-, hreleases⟩ := logged_frame hlogged
  have hidle := h.relogged (relogged_of_logged hlogged)
  obtain ⟨list, -, hfound⟩ := update_found_iff hupdate
  have hkeys : (entries.map Prod.fst).Perm u.scan.found.keys := by
    have hmap := hentries.map Prod.fst
    rwa [List.map_map] at hmap
  have hnew : ∀ r ∈ entries.map Prod.fst, r ∉ p.log.releases := by
    intro r hr
    have hmem : r ∈ u.scan.found := AList.mem_keys.mpr (hkeys.mem_iff.mp hr)
    have hsent := ((hfound r).mp hmem).1
    simpa [Proc.alreadysent] using hsent
  exact {
    once := h.once
    table := hidle.table
    failed := by rintro ⟨⟩
    linked := hidle.linked
    settled := h.settled
    sent := hidle.sent
    running := rfl
    level := rfl
    unsent := by
      intro r hr _
      simp only [hreleases]
      exact hnew r hr
    fresh := by
      intro entry hentry hmem
      exact hnew entry.1 (List.mem_map_of_mem hentry) (h.sent entry.1 hmem)
    distinct := hkeys.nodup_iff.mpr u.scan.found.nodupKeys }

/-- When the loop goes on to the next entry, what is left of the round is fresh still. -/
theorem InRound.tail {entry : Str × Rule} {rest : List (Str × Rule)} {p : Proc}
    (h : InRound (entry :: rest) p) : InRound rest p := by
  have hdistinct := h.distinct
  rw [List.map_cons, List.nodup_cons] at hdistinct
  exact {
    toIdle := h.toIdle
    running := h.running
    level := h.level
    unsent := h.unsent
    fresh := fun entry' hentry => h.fresh entry' (List.mem_cons_of_mem _ hentry)
    distinct := hdistinct.2 }

/-- Between the frame and the record of it. -/
theorem InRound.recorded_sentBmsg {entry : Str × Rule} {rest : List (Str × Rule)} {p : Proc}
    (h : InRound (entry :: rest) p) : Recorded (p.sentBmsg entry.1) := by
  refine { once := ?_, table := h.table, failed := ?_ }
  · refine List.nodup_append.mpr ⟨h.once, List.nodup_singleton _, ?_⟩
    intro a ha b hb hab
    rw [List.mem_singleton] at hb
    subst hab hb
    exact h.fresh entry List.mem_cons_self ha
  · intro hfailed
    simp only [Proc.sentBmsg, h.running] at hfailed
    cases hfailed

/-- The frame and its record together, without the log the record is made in. -/
theorem released_sentBmsg (p : Proc) (name : Str) (log : LogState) :
    (p.sentBmsg name).released name log =
      { p with
        log := log
        rotated := p.rotated || p.rotates
        sentSince := if p.rotates then [] else p.sentSince ++ [name]
        recorded := (if p.rotates then [] else p.recorded) ++ [name]
        pending := none
        round := { p.round with
          sent := p.round.sent ++ [name], recorded := p.round.recorded ++ [name] } } := by
  have hown : ((p.sentBmsg name).pending == some name) = true := by simp [Proc.sentBmsg]
  have hrotates : (p.sentBmsg name).rotates = p.rotates := rfl
  simp only [Proc.released, hown, hrotates, if_true]
  rfl

/-- A call that returns rotates exactly when the file is over the limit: a file
that cannot be truncated stops the call. -/
theorem rotates_eq_decide {p : Proc} {timestamp buf content : Str} {log : LogState}
    (hlink : p.log.announced = .linked content)
    (hrelease : p.log.release timestamp buf = .ok log) :
    p.rotates = decide (p.log.Rotates content) := by
  unfold Proc.rotates
  unfold LogState.release at hrelease
  rw [LogState.checkFilesize_announced hlink] at hrelease ⊢
  by_cases hrot : p.log.Rotates content
  · by_cases hopen : p.log.writable .announced = true
    · simp [hrot, hopen]
    · simp [hrot, hopen, bind, Except.bind] at hrelease
  · simp [hrot]

/-- The table after a call: the name, and what was there unless it was cleared. -/
theorem mem_releases_iff {p : Proc} {timestamp buf content : Str} {log : LogState}
    (hlink : p.log.announced = .linked content)
    (hrelease : p.log.release timestamp buf = .ok log) (name : Str) :
    name ∈ log.releases ↔ name = buf ∨ (p.rotates = false ∧ name ∈ p.log.releases) := by
  obtain ⟨-, hreleases, -⟩ := LogState.release_linked hlink hrelease
  rw [hreleases, rotates_eq_decide hlink hrelease]
  by_cases hrot : p.log.Rotates content
  · simp [hrot]
  · simp [hrot]

/-- What counts as sent after the frame and its record. -/
theorem mem_sentSince_cases {rotates : Bool} {sentSince : List Str} {buf name : Str}
    (h : name ∈ if rotates then [] else sentSince ++ [buf]) :
    rotates = false ∧ (name ∈ sentSince ∨ name = buf) := by
  cases rotates with
  | true => simp at h
  | false =>
      rw [if_neg Bool.false_ne_true, List.mem_append, List.mem_singleton] at h
      exact ⟨rfl, h⟩

/-- The frame and its record together carry the round one entry further,
whether the record rotates the file or not. -/
theorem InRound.released {entry : Str × Rule} {rest : List (Str × Rule)} {p : Proc}
    {timestamp : Str} {log : LogState} (h : InRound (entry :: rest) p)
    (hrelease : p.log.release timestamp entry.1 = .ok log) :
    InRound rest ((p.sentBmsg entry.1).released entry.1 log) := by
  obtain ⟨content, hlink⟩ := h.linked
  obtain ⟨hfile, -⟩ := LogState.release_linked hlink hrelease
  have hmem := mem_releases_iff hlink hrelease
  have honce : (p.sentSince ++ [entry.1]).Nodup := h.recorded_sentBmsg.once
  have hdistinct := h.distinct
  rw [List.map_cons, List.nodup_cons] at hdistinct
  rw [released_sentBmsg]
  exact {
    once := by
      cases p.rotates with
      | true => exact List.nodup_nil
      | false => exact honce
    table := by
      intro name
      have htable := h.table name
      simp only [hmem, List.mem_append, List.mem_singleton, Bool.or_eq_false_iff]
      cases hrot : p.rotates with
      | true => simp
      | false =>
          simp only [htable, true_and, Bool.false_eq_true, if_false, and_true]
          tauto
    failed := by
      intro hfailed
      simp only [h.running] at hfailed
      cases hfailed
    linked := ⟨_, hfile⟩
    settled := rfl
    sent := by
      intro name hname
      obtain ⟨hrot, hold | hnew⟩ := mem_sentSince_cases hname
      · exact (hmem name).mpr (Or.inr ⟨hrot, h.sent name hold⟩)
      · exact (hmem name).mpr (Or.inl hnew)
    running := h.running
    level := by simp only [h.level]
    unsent := by
      intro r hr hnot hin
      rw [List.mem_append, List.mem_singleton, not_or] at hnot
      rcases (hmem r).mp hin with heq | ⟨-, hold⟩
      · exact hnot.2 heq
      · exact h.unsent r hr hnot.1 hold
    fresh := by
      intro entry' hentry hin
      have hother : entry'.1 ≠ entry.1 := by
        intro heq
        exact hdistinct.1 (heq ▸ List.mem_map_of_mem hentry)
      obtain ⟨-, hold | hnew⟩ := mem_sentSince_cases hin
      · exact h.fresh entry' (List.mem_cons_of_mem _ hentry) hold
      · exact hother hnew
    distinct := hdistinct.2 }

/-- A frame that could not be sent closes the round with its account level. -/
theorem InRound.sendFailed {rest : List (Str × Rule)} {p : Proc} (h : InRound rest p) :
    Idle p.sendFailed where
  once := h.once
  table := h.table
  failed := fun _ => ⟨h.level, h.unsent⟩
  linked := h.linked
  settled := h.settled
  sent := h.sent

/-! ## The main loop -/

/-- What a session has to come to: the account is right at every moment, and
settled when `net.loop` returns. -/
def Account {α : Type} (o : Outcome LuaError Bool α) (p : Proc) : Prop :=
  Recorded p ∧ ((∃ b, o = .exit b) → Idle p)

theorem Idle.account {α : Type} {p : Proc} (h : Idle p) (o : Outcome LuaError Bool α) :
    Account o p := ⟨h.toRecorded, fun _ => h⟩

/-- What a stage of the session has to come to, `Next` being what the stage
behind it needs. -/
abbrev Stage {α : Type} (Next : α → Proc → Prop) : Outcome LuaError Bool α → Proc → Prop :=
  Outcome.andThen (Account (α := Unit)) Next

/-- A stage that does not announce keeps what does not depend on the trace. -/
theorem ensures_calm {α : Type} {I : Proc → Prop}
    (hI : ∀ p p', I p → Relogged p p' → I p') (hidle : ∀ p, I p → Idle p) {q : Act α}
    (hq : q.Uses Calm) {p : Proc} (h : I p) :
    Ensures Proc.Step q p (Stage fun _ => I) := by
  have hstep : ∀ p e reply p', Calm e → I p → Proc.Step p e reply p' → I p' := by
    intro p e reply p' he hp hs
    exact hI p p' hp (relogged_of_calm he hs)
  have haccount : ∀ (o : Outcome LuaError Bool Unit) p, I p → Account o p := by
    intro o p hp
    exact (hidle p hp).account o
  exact ensures_stage_uses hstep haccount hq h

theorem ensures_idle {α : Type} {q : Act α} (hq : q.Uses Calm) {p : Proc} (h : Idle p) :
    Ensures Proc.Step q p (Stage fun _ => Idle) :=
  ensures_calm (fun _ _ => Idle.relogged) (fun _ hp => hp) hq h

theorem ensures_quiet {α : Type} {q : Act α} (hq : q.Uses Quiet) {p : Proc} (h : Idle p) :
    Ensures Proc.Step q p (Stage fun _ => Idle) :=
  ensures_idle (hq.mono fun _ => And.left) h

theorem ensures_inRound {α : Type} {q : Act α} (hq : q.Uses Calm) {rest : List (Str × Rule)}
    {p : Proc} (h : InRound rest p) : Ensures Proc.Step q p (Stage fun _ => InRound rest) :=
  ensures_calm (fun _ _ => InRound.relogged) (fun _ hp => hp.toIdle) hq h

theorem ensures_here {α : Type} {a : α} {p : Proc} {Next : α → Proc → Prop} (h : Idle p)
    (hnext : Next a p) : Ensures Proc.Step (.ret a) p (Stage Next) :=
  ensures_stage_ret (h.account _) hnext

theorem ensures_leave {α : Type} {b : Bool} {p : Proc} {Next : α → Proc → Prop} (h : Idle p) :
    Ensures Proc.Step (leave b) p (Stage Next) :=
  ensures_exit.mpr ⟨h.account _, h.account _⟩

/-- A frame that could not be sent: the session is over, the round is not. -/
theorem ensures_sendFailed {α : Type} {rest : List (Str × Rule)} {p : Proc} (text : Str)
    (b : Bool) {Next : α → Proc → Prop} (h : InRound rest p) :
    Ensures Proc.Step (Prog.bind (log text) fun _ => leave b) p.sendFailed (Stage Next) :=
  ensures_stage_bind (ensures_idle (calm_log text) h.sendFailed) fun _ _ => ensures_leave

/-- One entry of a round. -/
theorem ensures_announceOne (sid : Str) (entry : Str × Rule) (rest : List (Str × Rule))
    (c : Nat) (p : Proc) (h : InRound (entry :: rest) p) :
    Ensures Proc.Step (announceOne sid c entry) p (Stage fun _ => InRound rest) := by
  have haccount := h.toIdle.account (α := Unit)
  obtain ⟨name, cfg⟩ := entry
  simp only [announceOne]
  cases hcommand : commandOf cfg with
  | error err => exact ensures_raise.mpr ⟨haccount _, haccount _⟩
  | ok command =>
      simp only [Prog.ofExcept, Prog.bind_eq, Prog.ret_bind]
      split
      case h_2 =>
        -- the rule is broken: the release is passed over
        refine ensures_stage_bind (ensures_inRound (calm_log _) h) ?_
        intro _ p' hp'
        exact ensures_here hp'.toIdle hp'.tail
      case h_1 category command' hcategory =>
        refine ensures_effect_bind.mpr ⟨haccount _, ?_⟩
        intro reply p₁ hstep
        cases reply with
        | error err =>
            cases hstep
            exact ensures_sendFailed _ _ h
        | ok _ =>
            cases hstep
            -- the frame is out, and not yet recorded
            have hsent : Account (α := Unit) .running (p.sentBmsg name) := by
              refine ⟨h.recorded_sentBmsg, ?_⟩
              rintro ⟨b, ⟨⟩⟩
            refine ensures_effect_bind.mpr ⟨hsent, ?_⟩
            intro _ p₂ hrelease
            obtain ⟨timestamp, log, hlog, rfl⟩ := hrelease
            have hnext : InRound rest ((p.sentBmsg name).released name log) := h.released hlog
            exact ensures_here hnext.toIdle hnext

/-- The loop over what a scan has found. -/
theorem ensures_entries (sid : Str) (entries : List (Str × Rule)) (p : Proc)
    (h : InRound entries p) :
    Ensures Proc.Step (entries.foldlM (announceOne sid) 0) p (Stage fun _ => InRound []) := by
  have hrun : ∀ (rest : List (Str × Rule)) (c : Nat) (p : Proc), InRound rest p →
      Account (α := Unit) .running p := fun _ _ _ hp => hp.toIdle.account _
  exact ensures_stage_foldlM hrun
    (fun entry rest c p hp => ensures_announceOne sid entry rest c p hp) h

/-- What comes after it: a line for the trace and the frame that keeps the
connection alive. -/
theorem ensures_keepAlive (text : Str) (failed : Str → Str) (sid : Str) (p : Proc)
    (h : InRound [] p) :
    Ensures Proc.Step
      (Prog.bind (log text) fun _ =>
        Prog.bind (Prog.effect (Eff.send (.keepAlive sid))) fun reply : Except Str Unit =>
          match reply with
          | .error err => Prog.bind (log (failed err)) fun _ => leave false
          | .ok _ => .ret ())
      p (Stage fun _ => Idle) := by
  refine ensures_stage_bind (ensures_inRound (calm_log text) h) ?_
  intro _ p₁ h₁
  refine ensures_effect_bind.mpr ⟨h₁.toIdle.account _, ?_⟩
  intro reply p₂ hstep
  cases reply with
  | error err =>
      cases hstep
      exact ensures_sendFailed _ _ h₁
  | ok _ =>
      cases hstep
      exact ensures_here h₁.toIdle h₁.toIdle

/-- A round starts from the account of everything else, and comes back to it. -/
theorem ensures_announceRound (settings : Settings) (sid : Str) (p : Proc) (h : Idle p) :
    Ensures Proc.Step (announceRound settings sid) p (Stage fun _ => Idle) := by
  refine ensures_stage_bind (ensures_quiet (uses_settimeout _) h) ?_
  intro _ p₁ h₁
  refine ensures_effect_bind.mpr ⟨h₁.account _, ?_⟩
  intro reply p₂ hstep
  cases reply with
  | error err =>
      obtain ⟨w, file, log, -, hlogged, rfl⟩ := hstep
      have h₂ := h₁.relogged (relogged_of_logged hlogged)
      have h₃ : Idle { p₁ with log := log, round := {} } := {
        once := h₂.once
        table := h₂.table
        failed := by rintro ⟨⟩
        linked := h₂.linked
        settled := h₂.settled
        sent := h₂.sent }
      exact ensures_raise.mpr ⟨h₃.account _, h₃.account _⟩
  | ok entries =>
      obtain ⟨w, file, u, log, hupdate, hlogged, hentries, rfl⟩ := hstep
      have hround := inRound_of_scan h₁ hupdate hlogged hentries
      simp only [Prog.ofExcept, Prog.bind_eq, Prog.ret_bind]
      refine ensures_stage_bind (ensures_inRound (calm_log _) hround) ?_
      intro _ p₃ h₃
      refine ensures_stage_bind (ensures_entries sid entries p₃ h₃) ?_
      intro c p₄ h₄
      exact ensures_keepAlive _ _ sid p₄ h₄

/-- Reading, pinging and a round that is due: the body of the main loop keeps the account. -/
theorem ensures_mainBody (settings : Settings) (sid : Str) (nextAnnounce : LuaNum) (p : Proc)
    (h : Idle p) :
    Ensures Proc.Step (mainBody settings sid nextAnnounce) p (Stage fun _ => Idle) := by
  refine ensures_stage_bind (ensures_quiet uses_gettime h) ?_
  intro now p₁ h₁
  split
  case isTrue =>
    refine ensures_stage_bind (ensures_announceRound settings sid p₁ h₁) ?_
    intro _ p₂ h₂
    refine ensures_stage_bind (ensures_quiet uses_gettime h₂) ?_
    intro now' p₃ h₃
    refine ensures_stage_bind (ensures_quiet uses_poll h₃) ?_
    intro _ p₄ h₄
    exact ensures_here h₄ h₄
  case isFalse =>
    refine ensures_stage_bind (ensures_quiet uses_poll h₁) ?_
    intro _ p₂ h₂
    exact ensures_here h₂ h₂

/-- **One session.** -/
theorem ensures_loop (settings : Settings) (fuel : Nat) (p : Proc) (h : Idle p) :
    Ensures Proc.Step (loop settings fuel) p (Stage fun _ => Idle) := by
  refine ensures_stage_bind (ensures_quiet (uses_openSocket settings fuel) h) ?_
  intro opened p₁ h₁
  cases opened with
  | none => exact ensures_here h₁ h₁
  | some run =>
      refine ensures_stage_bind (ensures_quiet (uses_secure settings run) h₁) ?_
      intro _ p₂ h₂
      refine ensures_stage_bind (ensures_quiet (uses_sendSupport run) h₂) ?_
      intro _ p₃ h₃
      refine ensures_stage_bind (ensures_idle (calm_login settings run) h₃) ?_
      intro sid p₄ h₄
      refine ensures_stage_bind (ensures_quiet (uses_settle settings) h₄) ?_
      intro _ p₅ h₅
      have hmain := ensures_stage_iterate (I := fun _ : LuaNum => Idle)
        (fun _ _ hp => hp.account _) (ensures_mainBody settings sid) fuel (.int 0) h₅
      refine ensures_stage_bind hmain ?_
      intro _ p₆ h₆
      exact ensures_here h₆ h₆

/-! ## Any number of sessions -/

/-- The frontend's loop keeps the account. -/
theorem contract (settings : Settings) : Contract Proc.Step id settings Idle Recorded where
  session := by
    intro fuel p h
    exact ensures_of_stage (ensures_loop settings fuel p h) fun _ _ hp => hp.account _
  raised := fun _ h => h
  pause := fun _ _ _ h hstep => h.relogged <|
    relogged_of_calm (show announcing (.sleep settings.sleep) = false from rfl) hstep
  always := fun _ h => h.toRecorded

/-- A process starts with an empty account, whatever the two files hold. -/
theorem idle_start (maxlogsize : Int) (logfile announced : Option Str)
    (rules : Option (List Rule)) :
    Idle (Proc.start (load maxlogsize logfile announced) rules) where
  once := List.nodup_nil
  table := by
    intro name
    simp [Proc.start]
  failed := by rintro ⟨⟩
  linked := ⟨_, rfl⟩
  settled := rfl
  sent := by
    intro name hname
    cases hname

/-- **At most once.**  At every moment of every run of a process: no name has
gone out twice since the last rotation; the table holds the names recorded
since then and, without a rotation so far, those loaded at start-up; and when a
frame of the round could not be sent, the names sent in it are the names
recorded in it, and a scan made now finds whatever is left of it and still
passes. -/
theorem runs_announce_once {settings : Settings} {fuel : Nat} {maxlogsize : Int}
    {logfile announced : Option Str} {rules : Option (List Rule)} {phase : Phase} {p : Proc}
    (hrun : Runs Proc.Step id settings
      (.session (loop settings fuel), Proc.start (load maxlogsize logfile announced) rules)
      (phase, p)) :
    p.sentSince.Nodup ∧
    (∀ name, name ∈ p.log.releases ↔
      name ∈ p.recorded ∨ (p.rotated = false ∧ name ∈ p.loaded)) ∧
    (p.round.failed = true → p.round.recorded = p.round.sent ∧
      ∀ r ∈ p.round.found, r ∉ p.round.sent → ∀ w file u list,
        update w file p.rules p.alreadysent = .ok u → u.rules = some list →
        OffersFresh w list r → r ∈ u.scan.found) := by
  have hstart : Within Proc.Step id Idle Recorded
      (.session (loop settings fuel), Proc.start (load maxlogsize logfile announced) rules) :=
    (contract settings).session fuel _ (idle_start maxlogsize logfile announced rules)
  have hrecorded := (contract settings).always_of_within ((contract settings).runs hstart hrun)
  refine ⟨hrecorded.once, hrecorded.table, fun hfailed => ?_⟩
  obtain ⟨hlevel, hunsent⟩ := hrecorded.failed hfailed
  refine ⟨hlevel, ?_⟩
  intro r hr hnot w file u list hupdate hrules hoffers
  obtain ⟨list', hrules', hfound⟩ := update_found_iff hupdate
  rw [hrules, Option.some.injEq] at hrules'
  subst hrules'
  refine (hfound r).mpr ⟨?_, hoffers⟩
  simpa [Proc.alreadysent] using hunsent r hr hnot

/-! ## A first session -/

/-- A hub that sends the given lines, one release to announce, and nothing that
fails. -/
def goodDay : Proc × List Str → (e : Eff) → Option (Reply e × (Proc × List Str))
  | (p, lines), .event buf =>
      match p.log.event [] buf with
      | .ok log => some ((), { p with log := log }, lines)
      | .error _ => none
  | s, .status _ _ => some ((), s)
  | s, .tcp => some (.ok (), s)
  | s, .settimeout _ => some ((), s)
  | s, .connect => some (.ok (), s)
  | s, .sleep _ => some ((), s)
  | s, .wrap => some (.ok (), s)
  | s, .dohandshake => some (.ok (), s)
  | s, .fingerprint => some (some [], s)
  | (p, lines), .send (.bmsg _ _ _ name) => some (.ok (), p.sentBmsg name, lines)
  | s, .send _ => some (.ok (), s)
  | (p, line :: lines), .receive => some (.ok line, p, lines)
  | (_, []), .receive => none
  | s, .close => some ((), s)
  | s, .info => some (none, s)
  | s, .keepalive => some ((), s)
  | s, .gettime => some (0, s)
  | (p, lines), .update =>
      let rule := { sampleRule with
        command := .str (lit "+addrel"), category := .str (lit "Test") }
      match update (World.still sampleFs (fun _ => []) 4096) (.leaves (some [rule])) p.rules
          p.alreadysent with
      | .ok u =>
          let entries := u.scan.found.entries.map fun entry => (entry.1, entry.2)
          some (.ok entries,
            { p with rules := u.rules, round := { found := entries.map Prod.fst } }, lines)
      | .error _ => none
  | (p, lines), .release name =>
      match p.log.release [] name with
      | .ok log => some ((), p.released name log, lines)
      | .error _ => none

/-- What the hub of the example answers is what `Step` allows. -/
theorem goodDay_step {s s' : Proc × List Str} {e : Eff} {reply : Reply e}
    (h : goodDay s e = some (reply, s')) : s.1.Step e reply s'.1 := by
  obtain ⟨p, lines⟩ := s
  cases e with
  | event buf =>
      simp only [goodDay] at h
      cases hevent : p.log.event [] buf with
      | error err => simp [hevent] at h
      | ok log =>
          simp only [hevent, Option.some.injEq, Prod.mk.injEq] at h
          obtain ⟨-, rfl⟩ := h
          exact ⟨_, _, hevent, rfl⟩
  | status key value =>
      simp only [goodDay, Option.some.injEq, Prod.mk.injEq] at h
      obtain ⟨-, rfl⟩ := h
      exact ⟨_, .refl, rfl⟩
  | send frame =>
      cases frame with
      | _ =>
          simp only [goodDay, Option.some.injEq, Prod.mk.injEq] at h
          obtain ⟨rfl, rfl⟩ := h
          rfl
  | receive =>
      cases lines with
      | nil => cases h
      | cons line lines =>
          simp only [goodDay, Option.some.injEq, Prod.mk.injEq] at h
          obtain ⟨-, rfl⟩ := h
          rfl
  | update =>
      simp only [goodDay] at h
      split at h
      case h_1 u hupdate =>
        simp only [Option.some.injEq, Prod.mk.injEq] at h
        obtain ⟨rfl, rfl⟩ := h
        exact ⟨_, _, u, _, hupdate, .refl, .refl _, rfl⟩
      case h_2 => cases h
  | release name =>
      simp only [goodDay] at h
      cases hrelease : p.log.release [] name with
      | error err => simp [hrelease] at h
      | ok log =>
          simp only [hrelease, Option.some.injEq, Prod.mk.injEq] at h
          obtain ⟨-, rfl⟩ := h
          exact ⟨_, _, hrelease, rfl⟩
  | _ =>
      simp only [goodDay, Option.some.injEq, Prod.mk.injEq] at h
      obtain ⟨-, rfl⟩ := h
      rfl

/-- A run that announces: one release goes out and is in the table. -/
theorem sample_announces_once : ∃ phase p,
    Runs Proc.Step id defaultSettings
      (.session (loop defaultSettings 2), Proc.start (load 2097152 none none) none) (phase, p) ∧
    p.sentSince = [lit "Some.Release"] ∧
    (∀ name, name ∈ p.log.releases ↔
      name ∈ p.recorded ∨ (p.rotated = false ∧ name ∈ p.loaded)) := by
  let s : Proc × List Str := (Proc.start (load 2097152 none none) none,
    [lit "ISUP ADOSNR", lit "ISID AAAA", lit "IINF CT32", lit "IGPA MFRGGZDF",
      lit "BINF AAAA CT2"])
  have hsent : ((loop defaultSettings 2).run goodDay s).2.1.sentSince =
      [lit "Some.Release"] := by decide +kernel
  have hexec : Exec Proc.Step (loop defaultSettings 2) s.1
      ((loop defaultSettings 2).run goodDay s).1 ((loop defaultSettings 2).run goodDay s).2.1 :=
    exec_run_view goodDay Prod.fst (fun _ _ _ _ h => goodDay_step h) (loop defaultSettings 2) s
  have hruns : ∃ rest, Runs Proc.Step id defaultSettings
      (.session (loop defaultSettings 2), s.1)
      (.session rest, ((loop defaultSettings 2).run goodDay s).2.1) := runs_of_exec hexec
  obtain ⟨rest, hrun⟩ := hruns
  exact ⟨_, _, hrun, hsent, (runs_announce_once hrun).2.1⟩

end LuadchAnnouncer.Frontends.Announcing
