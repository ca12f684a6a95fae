import LuadchAnnouncer.Core.NetLogin
import LuadchAnnouncer.Frontends.GuiSystem

/-!
# One worker at a time

CONNECT is enabled again in three places: by DISCONNECT, and at the end of a
`start_process` that has given up, after a check that kills the worker and
after one that does not.  The last is what goes wrong: the tail of
`start_process` sets `pid` to 0 *before* it calls `kill_process`, so nothing
is killed there, and a worker that is still alive is forgotten.

`orderly` leaves out the runs in which that happens, and two others: a kill
that fails, and a notification about an earlier worker that arrives when a
later one is running and makes the GUI forget that one.

## Main results

* `settles_workerStep`, `settles_acts` — the steps that start no worker.
* `stage_checks`, `stage_followLogin`, `stage_startProcess` — CONNECT, part by part.
* `stage_handler` — every handler keeps `Orderly`.
* `startEnabled_noWorker` — at most one worker, in any orderly run.
* `connect_hubkeypEmpty_alive` — a worker that is forgotten.
-/

namespace LuadchAnnouncer.Frontends.GuiWorker

open LuadchAnnouncer.Verified.Bytes
open LuadchAnnouncer.Verified.LuaValue
open LuadchAnnouncer.Verified.Program
open LuadchAnnouncer.Core.Net (Settings StatusKey)
open LuadchAnnouncer.Core.NetEffects (failing)
open LuadchAnnouncer.Core.NetLogin (defaultSettings)
open LuadchAnnouncer.Frontends.Reconnect
open LuadchAnnouncer.Frontends.Gui
open LuadchAnnouncer.Frontends.GuiSystem

/-! ## The invariant -/

/-- No worker process is alive, whatever the GUI believes. -/
def NoWorker (s : Sys) : Prop := ∀ p, ¬ s.Alive p

/-- CONNECT is enabled only while no worker is alive. -/
def Single (s : Sys) : Prop := s.startEnabled = true → NoWorker s

/-- The GUI knows the worker that is alive. -/
def Tracked (s : Sys) : Prop := ∀ p, s.Alive p → 0 < p ∧ p = s.pid

/-- What holds whenever no handler is running: CONNECT is enabled only without a worker,
and a worker that is alive is the one the GUI knows. -/
def Orderly (s : Sys) : Prop := Single s ∧ Tracked s

/-- A check that gives up on this status leaves the worker alive. -/
def forgets (key : StatusKey) : Bool := checks.any fun check => check.key == key && !check.kills

/-- The steps that do not lose a worker. -/
def orderly : Condition where
  effect s
    | .getStatus key .fail, reply => forgets key = true →
        (∀ value, statusOf reply = .ok value → findFail value ≠ .ok true) ∨ NoWorker s
    | .getStatus key .empty, reply => forgets key = true →
        statusOf reply ≠ .ok (.str []) ∨ NoWorker s
    | .kill pid, ret => s.Alive pid → ret = 0
    | _, _ => True
  event s
    | .ended _ => NoWorker s
    | _ => True

theorem NoWorker.single {s : Sys} (h : NoWorker s) : Single s := fun _ => h

theorem NoWorker.orderly {s : Sys} (h : NoWorker s) : Orderly s :=
  ⟨fun _ => h, fun p hp => absurd hp (h p)⟩

theorem orderly_of_disabled {s : Sys} (h : s.startEnabled = false) (htracked : Tracked s) :
    Orderly s := by
  refine ⟨?_, htracked⟩
  intro henabled
  rw [h] at henabled
  cases henabled

/-! ## Steps that settle nothing -/

/-- No worker is started, and the GUI's idea of it is unchanged; one may have come to its
end. -/
structure Settles (s s' : Sys) : Prop where
  startEnabled : s'.startEnabled = s.startEnabled
  pid : s'.pid = s.pid
  alive : ∀ p, s'.Alive p → s.Alive p

/-- A property that such steps keep. -/
def Stable (A : Sys → Prop) : Prop := ∀ s s', A s → Settles s s' → A s'

theorem stable_noWorker : Stable NoWorker :=
  fun _ _ h hs p hp => h p (hs.alive p hp)

/-- That the one worker is the one the GUI knows outlives a step of the workers. -/
theorem stable_orderly : Stable Orderly := by
  rintro s s' ⟨hsingle, htracked⟩ hs
  constructor
  · intro henabled
    rw [hs.startEnabled] at henabled
    exact stable_noWorker s s' (hsingle henabled) hs
  · intro p hp
    rw [hs.pid]
    exact htracked p (hs.alive p hp)

/-- A worker the GUI has started and waits for. -/
def Busy (s : Sys) : Prop := s.startEnabled = false ∧ Tracked s

theorem Busy.orderly {s : Sys} (h : Busy s) : Orderly s := orderly_of_disabled h.1 h.2

theorem stable_busy : Stable Busy := by
  rintro s s' ⟨hdisabled, htracked⟩ hs
  refine ⟨hs.startEnabled.trans hdisabled, ?_⟩
  intro p hp
  rw [hs.pid]
  exact htracked p (hs.alive p hp)

theorem moves_alive {settings : Settings} {w w' : Phase × Session} {label : Label}
    (h : Moves Session.Step Session.over settings w label w') : w.1 ≠ .gone := by
  cases h with
  | _ => rintro ⟨⟩

/-- A worker that is alive and moves starts no other. -/
theorem settles_moved {s : Sys} {p : Nat} {w : Phase × Session} (hp : s.Alive p) :
    Settles s (s.moved p w) where
  startEnabled := rfl
  pid := rfl
  alive := by
    intro q hq
    by_cases hsame : q = p
    · rw [hsame]
      exact hp
    · simpa [Sys.Alive, Sys.moved, hsame] using hq

/-- So no step of the workers does. -/
theorem settles_workerStep {settings : Settings} {s s' : Sys} (h : WorkerStep settings s s') :
    Settles s s' := by
  cases h with
  | @emits p w key text loaded h =>
      have hs := settles_moved (w := w) (moves_alive h)
      exact ⟨hs.startEnabled, hs.pid, hs.alive⟩
  | acts h hquiet => exact settles_moved (moves_alive h)
  | @backs p w h hgoes =>
      have hs := settles_moved (w := w) (moves_alive h)
      exact ⟨hs.startEnabled, hs.pid, hs.alive⟩
  | @ends p w h hgone =>
      have hs := settles_moved (w := w) (moves_alive h)
      exact ⟨hs.startEnabled, hs.pid, hs.alive⟩

/-- An effect that has to do neither with the processes nor with CONNECT. -/
def plain : GuiEff → Bool
  | .execute _ => false
  | .kill _ => false
  | .setPid _ => false
  | .enableStart _ => false
  | _ => true

def Plain (e : GuiEff) : Prop := plain e = true

/-- And of the handlers, only those effects that start or kill a worker or enable CONNECT. -/
theorem settles_acts {settings : Settings} {s s' : Sys} {e : GuiEff} {reply : GuiReply e}
    (he : Plain e) (h : Acts settings s e reply s') : Settles s s' := by
  cases e with
  | execute cmd => cases he
  | kill pid => cases he
  | setPid pid => cases he
  | enableStart b => cases he
  | setConnLed state =>
      cases state with
      | _ => cases h; exact ⟨rfl, rfl, fun _ hp => hp⟩
  | getStatus key purpose =>
      obtain ⟨-, rfl⟩ := h
      exact ⟨rfl, rfl, fun _ hp => hp⟩
  | getPid =>
      obtain ⟨-, rfl⟩ := h
      exact ⟨rfl, rfl, fun _ hp => hp⟩
  | «exists» pid =>
      obtain ⟨-, rfl⟩ := h
      exact ⟨rfl, rfl, fun _ hp => hp⟩
  | _ => cases h; exact ⟨rfl, rfl, fun _ hp => hp⟩

/-! ## Rules -/

section

variable {settings : Settings}

theorem workers_stable {A : Sys → Prop} (hA : Stable A) {s s' : Sys} (h : A s)
    (hworkers : Workers settings s s') : A s' :=
  workers_keep (fun s s' hs hstep => hA s s' hs (settles_workerStep hstep)) h hworkers

/-- What a stage of a handler has to come to: at every moment CONNECT is enabled only
without a worker, and where the handler ends, things are orderly. -/
def Account {α : Type} (o : Outcome LuaError Unit α) (s : Sys) : Prop :=
  Single s ∧ (o ≠ .running → Orderly s)

abbrev Stage {α : Type} (Next : α → Sys → Prop) : Outcome LuaError Unit α → Sys → Prop :=
  Outcome.andThen (Account (α := Unit)) Next

theorem Orderly.account {α : Type} {s : Sys} (h : Orderly s) (o : Outcome LuaError Unit α) :
    Account o s := ⟨h.1, fun _ => h⟩

theorem stage_ret {α : Type} {a : α} {s : Sys} {Next : α → Sys → Prop} (h : Orderly s)
    (hnext : Next a s) : Ensures (Beside settings orderly) (.ret a) s (Stage Next) :=
  ensures_stage_ret (h.account _) hnext

/-- A value that may be an error, which ends the handler. -/
theorem stage_ofExcept {α : Type} {result : Except LuaError α} {s : Sys} {Next : α → Sys → Prop}
    (h : Orderly s) (hnext : ∀ a, result = .ok a → Next a s) :
    Ensures (Beside settings orderly) (Prog.ofExcept result) s (Stage Next) := by
  cases result with
  | ok a => exact stage_ret h (hnext a rfl)
  | error err => exact ensures_raise.mpr ⟨h.account _, h.account _⟩

/-- A stage of plain effects keeps what is stable. -/
theorem stage_plain {α : Type} {A : Sys → Prop} (hA : Stable A) (horderly : ∀ s, A s → Orderly s)
    {q : GuiAct α} (hq : q.Uses Plain) {s : Sys} (h : A s) :
    Ensures (Beside settings orderly) q s (Stage fun _ => A) := by
  have hstep : ∀ s e reply s', Plain e → A s → Beside settings orderly s e reply s' → A s' := by
    intro s e reply s' he hs hbeside
    obtain ⟨s₁, hworkers, hacts, -⟩ := hbeside
    have h₁ : A s₁ := workers_stable hA hs hworkers
    exact hA s₁ s' h₁ (settles_acts he hacts)
  have haccount : ∀ (o : Outcome LuaError Unit Unit) s, A s → Account o s := by
    intro o s hs
    exact (horderly s hs).account o
  exact ensures_stage_uses hstep haccount hq h

theorem plain_noWorker {α : Type} {q : GuiAct α} (hq : q.Uses Plain) {s : Sys}
    (h : NoWorker s) : Ensures (Beside settings orderly) q s (Stage fun _ => NoWorker) :=
  stage_plain stable_noWorker (fun _ => NoWorker.orderly) hq h

theorem plain_orderly {α : Type} {q : GuiAct α} (hq : q.Uses Plain) {s : Sys}
    (h : Orderly s) : Ensures (Beside settings orderly) q s (Stage fun _ => Orderly) :=
  stage_plain stable_orderly (fun _ hs => hs) hq h

theorem plain_busy {α : Type} {q : GuiAct α} (hq : q.Uses Plain) {s : Sys}
    (h : Busy s) : Ensures (Beside settings orderly) q s (Stage fun _ => Busy) :=
  stage_plain stable_busy (fun _ => Busy.orderly) hq h

/-- A stage that is one effect, with what the workers leave of `A` before it. -/
theorem stage_effect {e : GuiEff} {s : Sys} {A : Sys → Prop} {Next : GuiReply e → Sys → Prop}
    (hA : Stable A) (hsingle : ∀ s, A s → Single s) (h : A s)
    (hnext : ∀ s₁ reply s', A s₁ → Acts settings s₁ e reply s' →
      orderly.effect s₁ e reply → Single s' ∧ Next reply s') :
    Ensures (Beside settings orderly) (Prog.effect e) s (Stage Next) := by
  have hrunning : ∀ s, Single s → Account (α := Unit) .running s := by
    intro s hs
    exact ⟨hs, fun hne => absurd rfl hne⟩
  refine ensures_perform.mpr ⟨hrunning s (hsingle s h), ?_⟩
  intro reply s' hbeside
  obtain ⟨s₁, hworkers, hacts, hcond⟩ := hbeside
  have h₁ : A s₁ := workers_stable hA h hworkers
  obtain ⟨hs', hdone⟩ := hnext s₁ reply s' h₁ hacts hcond
  exact ensures_stage_ret (hrunning s' hs') hdone

/-! ## The small actions -/

theorem uses_act {e : GuiEff} (h : plain e = true) : (act e).Uses Plain := Prog.uses_effect h

theorem uses_broadcast (msg : Str) (color : Option Color) : (broadcast msg color).Uses Plain :=
  uses_act rfl

theorem uses_broadcastSome (msg : Option Str) (color : Color) :
    (broadcastSome msg color).Uses Plain := by
  cases msg with
  | none => trivial
  | some msg => exact uses_broadcast _ _

theorem uses_getStatus (key : StatusKey) (purpose : Purpose) :
    (getStatus key purpose).Uses Plain :=
  (uses_act rfl).bind fun reply => Prog.uses_ofExcept Plain (statusOf reply)

theorem uses_statusFails (key : StatusKey) (purpose : Purpose) :
    (statusFails key purpose).Uses Plain :=
  (uses_getStatus key purpose).bind fun value => Prog.uses_ofExcept Plain (findFail value)

theorem uses_statusIs (key : StatusKey) (purpose : Purpose) (text : Str) :
    (statusIs key purpose text).Uses Plain :=
  (uses_getStatus key purpose).bind fun _ => trivial

theorem uses_broadcastValue (value : LuaVal) (color : Color) :
    (broadcastValue value color).Uses Plain := by
  cases value with
  | table entries => exact (uses_act rfl).bind fun reply => Prog.uses_ofExcept Plain reply
  | _ => exact (Prog.uses_ofExcept Plain _).bind fun text => uses_broadcast _ _

theorem uses_broadcastStatus (key : StatusKey) (color : Color) :
    (broadcastStatus key color).Uses Plain :=
  (uses_getStatus key .shown).bind fun value => uses_broadcastValue value color

theorem uses_startTimer : startTimer.Uses Plain :=
  (uses_act rfl).bind fun _ => uses_broadcast _ _

theorem uses_stopTimer : stopTimer.Uses Plain :=
  (uses_act rfl).bind fun _ => uses_broadcast _ _

/-- What a reply to a read says of the workers there are. -/
def Told (key : StatusKey) (purpose : Purpose) (value : LuaVal) (s : Sys) : Prop :=
  ∃ s₁ reply, (NoWorker s₁ → NoWorker s) ∧ orderly.effect s₁ (.getStatus key purpose) reply ∧
    statusOf reply = .ok value

/-- A status that has been read for a check that does not kill. -/
theorem stage_getStatus {key : StatusKey} {purpose : Purpose} {s : Sys} {A : Sys → Prop}
    (hA : Stable A) (horderly : ∀ s, A s → Orderly s) (h : A s) :
    Ensures (Beside settings orderly) (getStatus key purpose) s
      (Stage fun value s' => A s' ∧ Told key purpose value s') := by
  have heffect : Ensures (Beside settings orderly) (Prog.effect (.getStatus key purpose)) s
      (Stage fun reply s' => A s' ∧ ∃ s₁, (NoWorker s₁ → NoWorker s') ∧
        orderly.effect s₁ (.getStatus key purpose) reply) := by
    refine stage_effect hA (fun s hs => (horderly s hs).1) h ?_
    intro s₁ reply s' h₁ hacts hcond
    have hsettles : Settles s₁ s' := settles_acts (e := .getStatus key purpose) rfl hacts
    have h' : A s' := hA s₁ s' h₁ hsettles
    exact ⟨(horderly s' h').1, h', s₁, fun hno => stable_noWorker s₁ s' hno hsettles, hcond⟩
  refine ensures_stage_bind heffect ?_
  rintro reply s' ⟨h', s₁, hno, hcond⟩
  exact stage_ofExcept (horderly s' h') fun value hvalue => ⟨h', s₁, reply, hno, hcond, hvalue⟩

/-- The worker `pid` is the only one there may be. -/
def Only (pid : Nat) (s : Sys) : Prop := Orderly s ∧ s.pid = pid

/-- The variable `pid` names the worker, if there is one. -/
theorem stage_getPid {s : Sys} (h : Orderly s) :
    Ensures (Beside settings orderly) getPid s (Stage Only) := by
  refine stage_effect stable_orderly (fun s hs => hs.1) h ?_
  rintro s₁ pid s' h₁ ⟨rfl, rfl⟩ -
  exact ⟨h₁.1, h₁, rfl⟩

theorem stable_only (pid : Nat) : Stable (Only pid) := by
  rintro s s' ⟨horderly, hpid⟩ hs
  exact ⟨stable_orderly s s' horderly hs, hs.pid.trans hpid⟩

/-- When the worker the GUI knows is killed, none is left. -/
theorem noWorker_killed {s : Sys} (h : Tracked s) : NoWorker (s.killed s.pid) := by
  intro p hp
  unfold Sys.killed at hp
  split at hp
  case h_1 hgone =>
    obtain ⟨-, rfl⟩ := h p hp
    exact hp hgone
  case h_2 =>
    by_cases hsame : p = s.pid
    · simp [Sys.Alive, Sys.endedBy, Sys.sessionOver, Sys.moved, hsame] at hp
    · have halive : s.Alive p := by
        simpa [Sys.Alive, Sys.endedBy, Sys.sessionOver, Sys.moved, hsame] using hp
      exact hsame (h p halive).2

/-- Killing the only worker there may be leaves none. -/
theorem stage_kill {pid : Nat} {s : Sys} (h : Only pid s) :
    Ensures (Beside settings orderly) (kill pid) s (Stage fun _ => NoWorker) := by
  refine stage_effect (stable_only pid) (fun _ hs => hs.1.1) h ?_
  rintro s₁ ret s' ⟨⟨-, htracked⟩, rfl⟩ hacts hcond
  have hno : NoWorker s' := by
    rcases hacts with ⟨-, rfl⟩ | ⟨hfailed, rfl⟩
    · exact noWorker_killed htracked
    · -- the kill has failed, so it was not a worker
      intro p hp
      obtain ⟨-, rfl⟩ := htracked p hp
      exact hfailed (hcond hp)
  exact ⟨hno.orderly.1, hno⟩

/-- Where the answer is that the process does not exist, no worker is alive. -/
theorem stage_exists {pid : Nat} {s : Sys} (h : Only pid s) :
    Ensures (Beside settings orderly) (processExists pid) s
      (Stage fun there s' => Only pid s' ∧ (there = false → NoWorker s')) := by
  refine stage_effect (stable_only pid) (fun _ hs => hs.1.1) h ?_
  rintro s₁ there s' h₁ ⟨hthere, rfl⟩ -
  refine ⟨h₁.1.1, h₁, ?_⟩
  rintro rfl p hp
  obtain ⟨-, hpid⟩ := h₁.1.2 p hp
  rw [hpid, h₁.2] at hp
  exact absurd (hthere hp) (by simp)

/-- **`kill_process`** leaves no worker, if it is given the `pid` of the only
one there may be. -/
theorem stage_killProcess {pid : Nat} {s : Sys} (h : Only pid s) :
    Ensures (Beside settings orderly) (killProcess pid) s (Stage fun _ => NoWorker) := by
  have hreset : ∀ s, NoWorker s →
      Ensures (Beside settings orderly) resetStatus s (Stage fun _ => NoWorker) :=
    fun s hs => plain_noWorker (uses_act rfl) hs
  unfold killProcess
  split
  case isFalse hzero =>
    have hno : NoWorker s := by
      intro p hp
      obtain ⟨hpos, hpid⟩ := h.1.2 p hp
      rw [hpid, h.2] at hpos
      exact hzero hpos
    exact hreset s hno
  case isTrue =>
    refine ensures_stage_bind (stage_exists h) ?_
    rintro there s₁ ⟨h₁, hgone⟩
    cases there with
    | false => exact hreset s₁ (hgone rfl)
    | true =>
        refine ensures_stage_bind (stage_kill h₁) ?_
        intro ret s₂ h₂
        have hlines : ∀ msg color, Ensures (Beside settings orderly) (broadcast msg color) s₂
            (Stage fun _ => NoWorker) := fun msg color => plain_noWorker (uses_broadcast _ _) h₂
        split
        case isTrue =>
          exact ensures_stage_bind (hlines _ _) fun _ s₃ h₃ =>
            ensures_stage_bind (plain_noWorker (uses_broadcast _ _) h₃) fun _ => hreset
        case isFalse =>
          exact ensures_stage_bind (hlines _ _) fun _ s₃ h₃ =>
            ensures_stage_bind (plain_noWorker (uses_broadcast _ _) h₃) fun _ s₄ h₄ =>
            ensures_stage_bind (plain_noWorker (uses_broadcast _ _) h₄) fun _ => hreset

/-! ## `start_process` -/

/-- `run` says whether the worker is still waited for. -/
def Running (run : Bool) (s : Sys) : Prop := if run then Busy s else NoWorker s

theorem Running.orderly {run : Bool} {s : Sys} (h : Running run s) : Orderly s := by
  cases run with
  | true => exact Busy.orderly h
  | false => exact NoWorker.orderly h

/-- `kill_process( pid, .. )`, with the variable `pid`, and what follows it. -/
theorem stage_killThen {α : Type} {q : GuiAct α} {Next : α → Sys → Prop} {s : Sys}
    (h : Orderly s)
    (hq : ∀ s', NoWorker s' → Ensures (Beside settings orderly) q s' (Stage Next)) :
    Ensures (Beside settings orderly)
      (Prog.bind getPid fun pid => Prog.bind (killProcess pid) fun _ => q) s (Stage Next) :=
  ensures_stage_bind (stage_getPid h) fun _ _ hs =>
    ensures_stage_bind (stage_killProcess hs) fun _ s' hs' => hq s' hs'

/-- Behind the check of `hubconnect` the worker is waited for still, or it has been killed. -/
theorem stage_checkHubconnect {s : Sys} (h : Busy s) :
    Ensures (Beside settings orderly) checkHubconnect s (Stage Running) := by
  have hgiveUp : ∀ s, Busy s →
      Ensures (Beside settings orderly) (Prog.bind getPid fun pid =>
        Prog.bind (killProcess pid) fun _ => .ret false) s (Stage Running) := by
    intro s hs
    exact stage_killThen hs.orderly fun s' hs' => stage_ret hs'.orderly hs'
  refine ensures_stage_bind (plain_busy (uses_statusFails _ _) h) fun fails s₁ h₁ => ?_
  split
  case isTrue =>
    exact ensures_stage_bind (plain_busy (uses_broadcastStatus _ _) h₁) fun _ => hgiveUp
  case isFalse =>
    refine ensures_stage_bind (plain_busy (uses_statusIs _ _ _) h₁) fun empty s₂ h₂ => ?_
    split
    case isTrue =>
      exact ensures_stage_bind (plain_busy (uses_act rfl) h₂) fun _ s₃ h₃ =>
        ensures_stage_bind (plain_busy (uses_act rfl) h₃) fun _ s₄ h₄ =>
        ensures_stage_bind (plain_busy (uses_broadcast _ _) h₄) fun _ => hgiveUp
    case isFalse =>
      exact ensures_stage_bind (plain_busy (uses_broadcastStatus _ _) h₂) fun _ s₃ h₃ =>
        stage_ret h₃.orderly h₃

/-- What a check finds: either the worker is still waited for, or giving up on
it is no harm, because the check kills it or because there is none. -/
theorem stage_statusLost {check : Check} (hcheck : check ∈ checks) {s : Sys} (h : Busy s) :
    Ensures (Beside settings orderly) (statusLost check.key) s
      (Stage fun lost s' => Busy s' ∧
        (lost = true → check.kills = true ∨ NoWorker s')) := by
  have hforgets : check.kills = false → forgets check.key = true := by
    intro hkills
    refine List.any_eq_true.mpr ⟨check, hcheck, ?_⟩
    simp [hkills]
  have hfails : Ensures (Beside settings orderly) (statusFails check.key .fail) s
      (Stage fun fails s' => Busy s' ∧
        (fails = true → check.kills = true ∨ NoWorker s')) := by
    refine ensures_stage_bind (stage_getStatus stable_busy (fun _ => Busy.orderly) h) ?_
    rintro value s₁ ⟨h₁, s₀, reply, hno, hcond, hvalue⟩
    refine stage_ofExcept h₁.orderly fun fails hfind => ⟨h₁, ?_⟩
    rintro rfl
    cases hkills : check.kills with
    | true => exact Or.inl rfl
    | false =>
        rcases hcond (hforgets hkills) with hgood | hgone
        · exact absurd hfind (hgood value hvalue)
        · exact Or.inr (hno hgone)
  refine ensures_stage_bind hfails ?_
  rintro fails s₁ ⟨h₁, hgivesUp⟩
  split
  case isTrue hfail => exact stage_ret h₁.orderly ⟨h₁, fun _ => hgivesUp hfail⟩
  case isFalse =>
    refine ensures_stage_bind (stage_getStatus stable_busy (fun _ => Busy.orderly) h₁) ?_
    rintro value s₂ ⟨h₂, s₀, reply, hno, hcond, hvalue⟩
    refine stage_ret h₂.orderly ⟨h₂, fun hempty => ?_⟩
    cases hkills : check.kills with
    | true => exact Or.inl rfl
    | false =>
        rw [isText_iff.mp hempty] at hvalue
        rcases hcond (hforgets hkills) with hgood | hgone
        · exact absurd hvalue hgood
        · exact Or.inr (hno hgone)

/-- A check that gives up leaves no worker: it has killed it, or `orderly` says that there
was none. -/
theorem stage_runCheck {check : Check} (hcheck : check ∈ checks) {run : Bool} {s : Sys}
    (h : Running run s) :
    Ensures (Beside settings orderly) (runCheck run check) s (Stage Running) := by
  cases run with
  | false => exact stage_ret h.orderly h
  | true =>
      have hbusy : Busy s := h
      refine ensures_stage_bind (stage_statusLost hcheck hbusy) ?_
      rintro lost s₁ ⟨h₁, hlost⟩
      cases lost with
      | false =>
          exact ensures_stage_bind (plain_busy (uses_broadcastStatus _ _) h₁) fun _ s₂ h₂ =>
            ensures_stage_bind (plain_busy (uses_broadcastSome _ _) h₂) fun _ s₃ h₃ =>
            ensures_stage_bind (plain_busy (uses_act rfl) h₃) fun _ s₄ h₄ => stage_ret h₄.orderly h₄
      | true =>
          have hend : ∀ s, NoWorker s →
              Ensures (Beside settings orderly)
                (Prog.bind (broadcastSome check.onLost .red) fun _ => .ret false) s
                (Stage Running) := by
            intro s hs
            exact ensures_stage_bind (plain_noWorker (uses_broadcastSome _ _) hs)
              fun _ s' hs' => stage_ret hs'.orderly hs'
          cases hkills : check.kills with
          | true =>
              refine ensures_stage_bind (plain_busy (uses_broadcastStatus _ _) h₁) ?_
              intro _ s₂ h₂
              exact stage_killThen h₂.orderly hend
          | false =>
              have hgone : NoWorker s₁ := (hlost rfl).resolve_left (by simp [hkills])
              exact ensures_stage_bind (plain_noWorker (uses_broadcastStatus _ _) hgone)
                fun _ => hend

/-- So behind all checks the worker is waited for, or there is none: the invariant of their
loop. -/
theorem stage_checks {run : Bool} {s : Sys} (h : Running run s) :
    Ensures (Beside settings orderly) (checks.foldlM runCheck run) s (Stage Running) := by
  let I : List Check → Bool → Sys → Prop := fun rest run s =>
    (∀ check ∈ rest, check ∈ checks) ∧ Running run s
  have hrun : ∀ rest run s, I rest run s → Account (α := Unit) .running s :=
    fun _ _ _ hs => hs.2.orderly.account _
  have hbody : ∀ check rest run s, I (check :: rest) run s →
      Ensures (Beside settings orderly) (runCheck run check) s (Stage (I rest)) := by
    rintro check rest run s ⟨hrest, hs⟩
    refine ensures_stage_mono (stage_runCheck (hrest check List.mem_cons_self) hs) ?_
    intro run' s' hs'
    exact ⟨fun c hc => hrest c (List.mem_cons_of_mem _ hc), hs'⟩
  have hstart : I checks run s := ⟨fun _ hc => hc, h⟩
  exact ensures_stage_mono (ensures_stage_foldlM hrun hbody hstart) fun _ _ hs => hs.2

/-- The last check starts no worker, kills none, and leaves CONNECT alone. -/
theorem uses_checkHublogin : checkHublogin.Uses Plain := by
  refine Prog.Uses.bind ?_ fun lost => ?_
  · refine (uses_statusFails _ _).bind fun fails => ?_
    split
    case isTrue => trivial
    case isFalse => exact uses_statusIs _ _ _
  · split
    case isTrue => exact uses_broadcastStatus _ _
    case isFalse =>
      exact (uses_act rfl).bind fun _ => (uses_act rfl).bind fun _ =>
        (uses_getStatus _ _).bind fun cipher =>
        (Prog.uses_ofExcept Plain cipher.concatText).bind fun _ => uses_broadcast _ _

/-- Assigning to `pid` when there is no worker. -/
theorem stage_setPid {pid : Nat} {s : Sys} (h : NoWorker s) :
    Ensures (Beside settings orderly) (setPid pid) s (Stage fun _ => NoWorker) := by
  refine stage_effect stable_noWorker (fun _ => NoWorker.single) h ?_
  rintro s₁ _ s' h₁ rfl -
  exact ⟨fun _ => h₁, h₁⟩

theorem stage_enableStart {b : Bool} {s : Sys} (h : NoWorker s) :
    Ensures (Beside settings orderly) (enableStart b) s
      (Stage fun _ s' => NoWorker s' ∧ s'.startEnabled = b) := by
  refine stage_effect stable_noWorker (fun _ => NoWorker.single) h ?_
  rintro s₁ _ s' h₁ rfl -
  exact ⟨fun _ => h₁, h₁, rfl⟩

/-- Behind the checks CONNECT is enabled only if they have given up, and then no worker is
left. -/
theorem stage_followLogin {s : Sys} (h : Busy s) :
    Ensures (Beside settings orderly) followLogin s (Stage fun _ => Orderly) := by
  refine ensures_stage_bind (stage_checkHubconnect h) fun run s₁ h₁ => ?_
  refine ensures_stage_bind (stage_checks h₁) fun run s₂ h₂ => ?_
  cases run with
  | true => exact plain_orderly uses_checkHublogin (Busy.orderly h₂)
  | false =>
      -- the tail forgets the worker; here there is none
      refine ensures_stage_bind (plain_noWorker uses_stopTimer h₂) fun _ s₃ h₃ =>
        ensures_stage_bind (plain_noWorker (uses_act rfl) h₃) fun _ s₄ h₄ =>
        ensures_stage_bind (plain_noWorker (uses_act rfl) h₄) fun _ s₅ h₅ =>
        ensures_stage_bind (stage_setPid h₅) fun _ s₆ h₆ => ?_
      refine stage_killThen h₆.orderly fun s₇ h₇ => ?_
      exact ensures_stage_mono (stage_enableStart h₇) fun _ _ hs => hs.1.orderly

/-- The worker just started is the only one there may be, and `pid` does not
name it yet. -/
def Fresh (pid : Nat) (s : Sys) : Prop :=
  s.startEnabled = false ∧ ∀ p, s.Alive p → 0 < p ∧ p = pid

theorem stable_fresh (pid : Nat) : Stable (Fresh pid) := by
  rintro s s' ⟨hdisabled, honly⟩ hs
  exact ⟨hs.startEnabled.trans hdisabled, fun p hp => honly p (hs.alive p hp)⟩

theorem Fresh.single {pid : Nat} {s : Sys} (h : Fresh pid s) : Single s := by
  intro henabled
  rw [h.1] at henabled
  cases henabled

/-- Nothing but CONNECT disabled, and no worker. -/
def Waiting (s : Sys) : Prop := s.startEnabled = false ∧ NoWorker s

theorem stable_waiting : Stable Waiting := by
  rintro s s' ⟨hdisabled, hno⟩ hs
  exact ⟨hs.startEnabled.trans hdisabled, stable_noWorker s s' hno hs⟩

/-- A start makes one worker, and the variable `pid` does not name it yet. -/
theorem stage_execute {cmd : Str} {s : Sys} (h : Waiting s) :
    Ensures (Beside settings orderly) (execute cmd) s (Stage Fresh) := by
  refine stage_effect stable_waiting (fun _ hs => hs.2.single) h ?_
  rintro s₁ pid s' ⟨hdisabled, hno⟩ hacts -
  rcases hacts with ⟨rfl, rfl⟩ | ⟨hpos, -, fuel, rfl⟩
  · exact ⟨hno.single, hdisabled, fun p hp => absurd hp (hno p)⟩
  · have hfresh : Fresh pid { s₁.moved pid (.session (Core.Net.loop settings fuel), {}) with
        latest := pid } := by
      refine ⟨hdisabled, ?_⟩
      intro p hp
      by_cases hsame : p = pid
      · exact ⟨hsame ▸ hpos, hsame⟩
      · exact absurd (by simpa [Sys.Alive, Sys.moved, hsame] using hp) (hno p)
    exact ⟨hfresh.single, hfresh⟩

theorem stage_namePid {pid : Nat} {s : Sys} (h : Fresh pid s) :
    Ensures (Beside settings orderly) (setPid pid) s (Stage fun _ => Busy) := by
  refine stage_effect (stable_fresh pid) (fun _ => Fresh.single) h ?_
  rintro s₁ _ s' h₁ rfl -
  have hbusy : Busy { s₁ with pid := pid } := ⟨h₁.1, h₁.2⟩
  exact ⟨hbusy.orderly.1, hbusy⟩

theorem plain_waiting {α : Type} {q : GuiAct α} (hq : q.Uses Plain) {s : Sys}
    (h : Waiting s) : Ensures (Beside settings orderly) q s (Stage fun _ => Waiting) :=
  stage_plain stable_waiting (fun _ hs => hs.2.orderly) hq h

/-- From there to its end, `start_process` keeps the one worker known or none alive. -/
theorem stage_startProcess {s : Sys} (h : Waiting s) :
    Ensures (Beside settings orderly) startProcess s (Stage fun _ => Orderly) := by
  refine ensures_stage_bind (plain_waiting (uses_act rfl) h) fun cwd s₁ h₁ => ?_
  simp only
  split
  case isTrue => exact plain_orderly (uses_broadcast _ _) h₁.2.orderly
  case isFalse =>
    exact ensures_stage_bind (stage_execute h₁) fun pid s₂ h₂ =>
      ensures_stage_bind (stage_namePid h₂) fun _ s₃ h₃ =>
      ensures_stage_bind (plain_busy (uses_broadcast _ _) h₃) fun _ s₄ h₄ =>
      ensures_stage_bind (plain_busy (uses_broadcast _ _) h₄) fun _ s₅ h₅ =>
      ensures_stage_bind (plain_busy (uses_act rfl) h₅) fun _ s₆ h₆ => stage_followLogin h₆

/-! ## The handlers -/

/-- So does the handler of CONNECT, which can be clicked while no worker is alive. -/
theorem stage_onConnect {s : Sys} (h : NoWorker s) :
    Ensures (Beside settings orderly) onConnect s (Stage fun _ => Orderly) := by
  refine ensures_stage_bind (plain_noWorker (uses_act rfl) h) fun broken s₁ h₁ => ?_
  split
  case isTrue => exact stage_ret h₁.orderly h₁.orderly
  case isFalse =>
    refine ensures_stage_bind (plain_noWorker (uses_act rfl) h₁) fun broken s₂ h₂ => ?_
    split
    case isTrue => exact stage_ret h₂.orderly h₂.orderly
    case isFalse =>
      exact ensures_stage_bind (plain_noWorker (uses_act rfl) h₂) fun _ s₃ h₃ =>
        ensures_stage_bind (plain_noWorker (uses_act rfl) h₃) fun _ s₄ h₄ =>
        ensures_stage_bind (stage_enableStart h₄) fun _ s₅ h₅ =>
        ensures_stage_bind (plain_waiting (uses_act rfl) ⟨h₅.2, h₅.1⟩) fun _ s₆ h₆ =>
        ensures_stage_bind (plain_waiting uses_startTimer h₆) fun _ s₇ h₇ =>
        ensures_stage_bind (stage_startProcess h₇) fun _ s₈ h₈ =>
        ensures_stage_bind (plain_orderly (uses_act rfl) h₈) fun _ s₉ h₉ =>
        ensures_stage_bind (plain_orderly (uses_act rfl) h₉) fun _ s₁₀ h₁₀ =>
        ensures_stage_bind (plain_orderly (uses_act rfl) h₁₀) fun _ s₁₁ h₁₁ =>
        ensures_stage_bind (plain_orderly (uses_act rfl) h₁₁) fun _ s₁₂ h₁₂ =>
        plain_orderly (uses_act rfl) h₁₂

/-- DISCONNECT enables CONNECT behind the kill of the worker. -/
theorem stage_onDisconnect {s : Sys} (h : Orderly s) :
    Ensures (Beside settings orderly) onDisconnect s (Stage fun _ => Orderly) := by
  refine ensures_stage_bind (plain_orderly (uses_act rfl) h) fun _ s₁ h₁ =>
    ensures_stage_bind (plain_orderly (uses_act rfl) h₁) fun _ s₂ h₂ =>
    ensures_stage_bind (plain_orderly (uses_act rfl) h₂) fun _ s₃ h₃ =>
    ensures_stage_bind (plain_orderly (uses_act rfl) h₃) fun _ s₄ h₄ =>
    ensures_stage_bind (plain_orderly uses_stopTimer h₄) fun _ s₅ h₅ =>
    stage_killThen h₅ fun s₆ h₆ => ensures_stage_bind (stage_enableStart h₆) fun _ s₇ h₇ => ?_
  have h₇' : Orderly s₇ := h₇.1.orderly
  exact ensures_stage_bind (plain_orderly (uses_act rfl) h₇') fun _ s₈ h₈ =>
    ensures_stage_bind (plain_orderly (uses_act rfl) h₈) fun _ s₉ h₉ =>
    ensures_stage_bind (plain_orderly (uses_act rfl) h₉) fun _ s₁₀ h₁₀ =>
    ensures_stage_bind (plain_orderly (uses_act rfl) h₁₀) fun _ s₁₁ h₁₁ =>
    ensures_stage_bind (plain_orderly (uses_act rfl) h₁₁) fun _ s₁₂ h₁₂ =>
    plain_orderly (uses_act rfl) h₁₂

/-- The timer starts no worker, kills none, and leaves CONNECT alone. -/
theorem uses_onConnStatus : onConnStatus.Uses Plain := by
  refine (uses_act rfl).bind fun _ => (uses_act rfl).bind fun _ =>
    (uses_statusFails _ _).bind fun fails => ?_
  split
  case isTrue => exact (uses_act rfl).bind fun _ => uses_act rfl
  case isFalse =>
    refine (uses_statusIs _ _ _).bind fun complete => ?_
    split
    case isTrue => exact (uses_act rfl).bind fun _ => uses_act rfl
    case isFalse => trivial

theorem stage_onEndProcess {s : Sys} (h : NoWorker s) :
    Ensures (Beside settings orderly) onEndProcess s (Stage fun _ => Orderly) :=
  ensures_stage_bind (stage_setPid h) fun _ _ h₁ =>
    ensures_stage_bind (plain_orderly (uses_act rfl) h₁.orderly) fun _ _ h₂ =>
    plain_orderly (uses_act rfl) h₂

/-- When the window is closed, the worker is killed before `pid` is set to 0, not behind it. -/
theorem stage_reap {s : Sys} (h : Orderly s) :
    Ensures (Beside settings orderly) reap s (Stage fun _ => Orderly) := by
  refine ensures_stage_bind (stage_getPid h) fun pid s₁ h₁ => ?_
  split
  case isFalse => exact stage_ret h₁.1 h₁.1
  case isTrue =>
    have hforget : ∀ s, NoWorker s →
        Ensures (Beside settings orderly) (setPid 0) s (Stage fun _ => Orderly) := by
      intro s hs
      exact ensures_stage_mono (stage_setPid hs) fun _ _ => NoWorker.orderly
    refine ensures_stage_bind (stage_exists h₁) ?_
    rintro there s₂ ⟨h₂, hgone⟩
    cases there with
    | false => exact hforget s₂ (hgone rfl)
    | true => exact ensures_stage_bind (stage_kill h₂) fun _ => hforget

/-- Each handler keeps the one worker: a case for every event. -/
theorem stage_handler {s s₁ : Sys} {event : Event} (h : Orderly s) (hfires : Fires s event s₁)
    (hevent : orderly.event s event) :
    Ensures (Beside settings orderly) (handler event) s₁ (Stage fun _ => Orderly) := by
  cases hfires with
  | connect _ henabled => exact stage_onConnect (h.1 henabled)
  | disconnect _ _ => exact stage_onDisconnect h
  | connStatus _ _ => exact plain_orderly uses_onConnStatus h
  | ended pid _ _ => exact stage_onEndProcess hevent
  | close _ =>
      exact ensures_stage_bind (stage_reap h) fun _ s₂ h₂ => plain_orderly (uses_act rfl) h₂
  | destroy =>
      exact ensures_stage_bind (plain_orderly (uses_act rfl) h) fun _ s₂ h₂ => stage_reap h₂

end

/-! ## Every run -/

/-- **At most one worker.**  In every state of every orderly run in which
CONNECT is enabled, no worker is alive. -/
theorem startEnabled_noWorker {settings : Settings} {s : Sys}
    (hreach : Reachable settings orderly s) (henabled : s.startEnabled = true) :
    ∀ p, ¬ s.Alive p := by
  have hsingle : Single s := by
    refine reachable_invariant (I := Orderly) (J := Single) ?_ ?_ ?_ ?_ ?_ hreach
    · intro status
      exact NoWorker.orderly fun p hp => hp rfl
    · exact fun s hs => hs.1
    · exact fun s s' hs hstep => stable_orderly s s' hs (settles_workerStep hstep)
    · intro s s' hs hstep hstart
      have hsettles := settles_workerStep hstep
      rw [hsettles.startEnabled] at hstart
      exact stable_noWorker s s' (hs hstart) hsettles
    · intro s s₁ event hs hfires hcond
      exact ensures_of_stage (stage_handler hs hfires hcond) fun _ _ hs' => hs'.account _
  exact hsingle henabled

/-- The status file when the handshake has just been made. -/
def handshakeMade (key : StatusKey) : Str :=
  if key = .hubconnect ∨ key = .hubhandshake then leftBehind key else []

/-- One click on CONNECT, and a status `hubkeyp` that is not there yet when it
is asked for: CONNECT is enabled again, and the worker is alive. -/
theorem connect_hubkeypEmpty_alive :
    ¬ ∀ (settings : Settings) (s : Sys), Reachable settings anything s →
      s.startEnabled = true → ∀ p, ¬ s.Alive p := by
  intro hall
  let s := (handler .connect).run (scripted defaultSettings id fun _ _ _ => true)
    (Sys.start (withTexts handshakeMade))
  have hreach : Reachable defaultSettings anything s.2 :=
    .during (.start (withTexts handshakeMade)) (.connect rfl rfl) trivial
      (exec_scripted (workers_asleep _) (fun _ _ _ _ => trivial) _ _) .refl
  have hend : s.2.startEnabled = true ∧ (s.2.worker 1234).1.isGone = false := by decide
  obtain ⟨henabled, hpending⟩ := hend
  refine hall defaultSettings s.2 hreach henabled 1234 ?_
  intro hgone
  rw [hgone] at hpending
  cases hpending

/-- The replies of a login that goes well. -/
def goodReply (_ : Sys) : (e : GuiEff) → GuiReply e → Bool
  | .getStatus _ _, .ok (some (.str text)) => !failing text && !text.isEmpty
  | .getStatus _ _, _ => false
  | .kill _, ret => ret == 0
  | _, _ => true

/-- A good answer is a text that is neither empty nor a failure. -/
theorem goodReply_getStatus {s : Sys} {key : StatusKey} {purpose : Purpose}
    {reply : Except LuaError (Option LuaVal)}
    (h : goodReply s (.getStatus key purpose) reply = true) :
    ∃ text, reply = .ok (some (.str text)) ∧ failing text = false ∧ text ≠ [] := by
  cases reply with
  | error err => cases h
  | ok found =>
      cases found with
      | none => cases h
      | some value =>
          cases value with
          | str text =>
              simp only [goodReply, Bool.and_eq_true, Bool.not_eq_true',
                List.isEmpty_eq_false_iff] at h
              exact ⟨text, rfl, h⟩
          | _ => cases h

/-- So a run with good answers is one that `orderly` leaves in. -/
theorem orderly_goodReply {s : Sys} {e : GuiEff} {reply : GuiReply e}
    (h : goodReply s e reply = true) : orderly.effect s e reply := by
  cases e with
  | getStatus key purpose =>
      obtain ⟨text, rfl, hgood, hthere⟩ := goodReply_getStatus h
      cases purpose with
      | fail =>
          refine fun _ => Or.inl fun value hvalue hfails => ?_
          rw [statusOf_text, Except.ok.injEq] at hvalue
          rw [← hvalue, findFail, hgood] at hfails
          cases hfails
      | empty =>
          refine fun _ => Or.inl fun hempty => ?_
          rw [statusOf_text, Except.ok.injEq, LuaVal.str.injEq] at hempty
          exact hthere hempty
      | _ => trivial
  | kill pid => exact fun _ => eq_of_beq h
  | _ => trivial

/-- CONNECT, a login that goes well, and DISCONNECT. -/
theorem startEnabled_noWorker_disconnect : ∃ s : Sys,
    Reachable defaultSettings orderly s ∧ s.startEnabled = true ∧ s.latest = 1234 ∧
    ∀ p, ¬ s.Alive p := by
  let s₁ := (handler .connect).run (scripted defaultSettings id goodReply)
    (Sys.start (withTexts leftBehind))
  let s₂ := (handler .disconnect).run (scripted defaultSettings id goodReply) s₁.2
  have hconnected : s₁.1 ≠ .running ∧ s₁.2.closed = false ∧ s₁.2.stopEnabled = true := by
    decide
  have hdisconnected : s₂.2.startEnabled = true ∧ s₂.2.latest = 1234 := by decide
  obtain ⟨hdone, hopen, hstop⟩ := hconnected
  obtain ⟨henabled, hlatest⟩ := hdisconnected
  have hidle : Idle defaultSettings orderly s₁.2 :=
    .handled (.start (withTexts leftBehind)) (.connect rfl rfl) trivial
      (exec_scripted (workers_asleep _) (fun _ _ _ => orderly_goodReply) _ _) hdone
  have hreach : Reachable defaultSettings orderly s₂.2 :=
    .during hidle (.disconnect hopen hstop) trivial
      (exec_scripted (workers_asleep _) (fun _ _ _ => orderly_goodReply) _ _) .refl
  exact ⟨s₂.2, hreach, henabled, hlatest, startEnabled_noWorker hreach henabled⟩

end LuadchAnnouncer.Frontends.GuiWorker
