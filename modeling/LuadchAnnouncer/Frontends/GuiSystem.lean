import Mathlib.Logic.Function.Basic
import LuadchAnnouncer.Frontends.Gui
import LuadchAnnouncer.Frontends.Reconnect

/-!
# The GUI beside its workers

The whole of it as one transition system: the workers the GUI has started, each
of them in its reconnect loop; the status file, which they write and the GUI
reads; and the GUI, which runs one event handler at a time.  A worker may make
any number of steps before each effect of a handler.

The GUI may find any file when it comes up, with any values under the keys.  A
status event changes it in one step here, and a read may come out empty or raise
at any time: what lies in between is the subject of the status file itself.
Where a worker could not load the file it starts from an empty table, and the
other keys are lost.

`Sys` also keeps an account of what the statements speak of: which worker's
session has written what stands under `hublogin`, whether a session has ended
since the last read, and whether a connection has been shown that was not there.

## Main results

* `reachable_invariant` — the induction over handlers and workers, made once.
* `exec_scripted` — how a run with fixed answers becomes one of the system.
-/

namespace LuadchAnnouncer.Frontends.GuiSystem

open LuadchAnnouncer.Verified.Bytes
open LuadchAnnouncer.Verified.LuaValue
open LuadchAnnouncer.Verified.Program
open LuadchAnnouncer.Core.Net (Settings StatusKey Eff Reply Act loop)
open LuadchAnnouncer.Core.NetEffects (failing)
open LuadchAnnouncer.Frontends.Reconnect
open LuadchAnnouncer.Frontends.Gui

/-! ## Workers -/

/-- What a session of a worker has come to: whether its login is complete, that
is, the last frame of it has been sent, and what it has written under
`hublogin`. -/
structure Session where
  loggedIn : Bool := false
  reported : Option Str := none
  deriving DecidableEq, Repr

def Session.observe (v : Session) : (e : Eff) → Reply e → Session
  | .send (.infCount _ _), .ok () => { v with loggedIn := true }
  | .status .hublogin text, _ => { v with reported := some text }
  | _, _ => v

/-- A session meets any hub at all: every reply is allowed, and only what the session has
done is noted. -/
def Session.Step (v : Session) (e : Eff) (reply : Reply e) (v' : Session) : Prop :=
  v' = v.observe e reply

/-- Nothing is left of a session that is over. -/
def Session.over (_ : Session) : Session := {}

/-! ## The system -/

/-- The GUI and its workers: the status file and who wrote it last, a worker for every
process number, and of the GUI the buttons, the timer, and the worker it believes in. -/
structure Sys where
  status : StatusKey → LuaVal
  worker : Nat → Phase × Session
  /-- the worker started last -/
  latest : Nat
  /-- the worker whose present session has written what is under `hublogin` -/
  writer : Option Nat
  /-- no session has ended since the last read -/
  steady : Bool
  /-- the variable `pid` -/
  pid : Nat
  /-- workers whose end the GUI has not been told of -/
  ended : List Nat
  startEnabled : Bool
  stopEnabled : Bool
  locked : Bool
  polling : Bool
  led : Led
  closed : Bool
  /-- a connection has been shown that was not there -/
  wrong : Bool

namespace Sys

/-- The GUI when it has come up, on the status file it has found. -/
def start (status : StatusKey → LuaVal) : Sys where
  status := status
  worker := fun _ => (.gone, {})
  latest := 0
  writer := none
  steady := true
  pid := 0
  ended := []
  startEnabled := true
  stopEnabled := false
  locked := false
  polling := false
  led := .disconnected
  closed := false
  wrong := false

/-- The process has not come to its end. -/
def Alive (s : Sys) (p : Nat) : Prop := (s.worker p).1 ≠ .gone

/-- The worker has completed the login of its session and is still in it. -/
def online : Phase × Session → Bool
  | (.session _, v) => v.loggedIn
  | _ => false

/-- The worker running now is connected. -/
def connected (s : Sys) : Bool := online (s.worker s.latest)

/-- The connection that is shown has to be there. -/
def showConnected (s : Sys) : Sys := { s with wrong := s.wrong || !s.connected }

/-- The worker `p` has come from its last state to `w`. -/
def moved (s : Sys) (p : Nat) (w : Phase × Session) : Sys :=
  { s with worker := Function.update s.worker p w }

/-- A session of the worker `p` is over. -/
def sessionOver (s : Sys) (p : Nat) : Sys :=
  { s with writer := if s.writer = some p then none else s.writer, steady := false }

/-- The worker `p` has come to its end, and the GUI will be told. -/
def endedBy (s : Sys) (p : Nat) : Sys := { s with ended := p :: s.ended }

/-- The status handler of the worker `p`, on a file it could load or not. -/
def emitted (s : Sys) (p : Nat) (key : StatusKey) (text : Str) (loaded : Bool) : Sys :=
  { s with
    status := Function.update (if loaded then s.status else fun _ => .nil) key (.str text)
    writer := if key = .hublogin then some p else if loaded then s.writer else none }

/-- The process `p` is killed, which may be one that is not a worker any more. -/
def killed (s : Sys) (p : Nat) : Sys :=
  match (s.worker p).1 with
  | .gone => s
  | _ => ((s.moved p (.gone, {})).sessionOver p).endedBy p

end Sys

/-- A step of a worker, and what the others notice of it: the status file it writes, the
end of its process, nothing else. -/
inductive WorkerStep (settings : Settings) (s : Sys) : Sys → Prop where
  | emits {p : Nat} {w : Phase × Session} {key : StatusKey} {text : Str} (loaded : Bool)
      (h : Moves Session.Step Session.over settings (s.worker p) (.did (.status key text)) w) :
      WorkerStep settings s ((s.moved p w).emitted p key text loaded)
  | acts {p : Nat} {w : Phase × Session} {e : Eff}
      (h : Moves Session.Step Session.over settings (s.worker p) (.did e) w)
      (hquiet : ∀ key text, e ≠ .status key text) : WorkerStep settings s (s.moved p w)
  | backs {p : Nat} {w : Phase × Session}
      (h : Moves Session.Step Session.over settings (s.worker p) .back w)
      (hgoes : w.1 ≠ .gone) : WorkerStep settings s ((s.moved p w).sessionOver p)
  | ends {p : Nat} {w : Phase × Session}
      (h : Moves Session.Step Session.over settings (s.worker p) .back w)
      (hgone : w.1 = .gone) :
      WorkerStep settings s (((s.moved p w).sessionOver p).endedBy p)

/-- Any number of steps of any workers. -/
def Workers (settings : Settings) : Sys → Sys → Prop :=
  Relation.ReflTransGen (WorkerStep settings)

/-! ## The GUI -/

/-- What an effect of a handler does, and what it may be answered.  A start may fail, a
kill may fail, and a read of the status file gives what is in it, nothing, or an error. -/
def Acts (settings : Settings) (s : Sys) : (e : GuiEff) → GuiReply e → Sys → Prop
  | .execute _, pid, s' =>
      (pid = 0 ∧ s' = s) ∨
        (0 < pid ∧ ¬ s.Alive pid ∧ ∃ fuel,
          s' = { s.moved pid (.session (loop settings fuel), {}) with latest := pid })
  | .exists pid, there, s' => (s.Alive pid → there = true) ∧ s' = s
  | .kill pid, ret, s' => (ret = 0 ∧ s' = s.killed pid) ∨ (ret ≠ 0 ∧ s' = s)
  | .getPid, pid, s' => pid = s.pid ∧ s' = s
  | .setPid pid, _, s' => s' = { s with pid := pid }
  | .getStatus key _, reply, s' =>
      (reply = .ok none ∨ reply = .ok (some (s.status key)) ∨ ∃ err, reply = .error err) ∧
        s' = { s with steady := true }
  | .resetStatus, _, s' => s' = { s with status := fun _ => .str [], writer := none }
  | .enableStart b, _, s' => s' = { s with startEnabled := b }
  | .enableStop b, _, s' => s' = { s with stopEnabled := b }
  | .protect b, _, s' => s' = { s with locked := b }
  | .timers b, _, s' => s' = { s with polling := b }
  | .stopPolling, _, s' => s' = { s with polling := false }
  | .setConnLed .connected, _, s' => s' = { s.showConnected with led := .connected }
  | .setConnLed state, _, s' => s' = { s with led := state }
  | .loginSuccessful, _, s' => s' = s.showConnected
  | .skip, _, s' => s' = { s with closed := true }
  | _, _, s' => s' = s

/-- The event can occur, with what its occurrence changes.  A button that is disabled
cannot be clicked, and the end of a process is told once. -/
inductive Fires (s : Sys) : Event → Sys → Prop where
  | connect (hopen : s.closed = false) (h : s.startEnabled = true) : Fires s .connect s
  | disconnect (hopen : s.closed = false) (h : s.stopEnabled = true) : Fires s .disconnect s
  | connStatus (hopen : s.closed = false) (h : s.polling = true) : Fires s .connStatus s
  | ended (pid : Nat) (hopen : s.closed = false) (h : pid ∈ s.ended) :
      Fires s (.ended pid) { s with ended := s.ended.erase pid }
  | close (hopen : s.closed = false) : Fires s .close s
  | destroy : Fires s .destroy s

/-- A condition on the steps of the GUI. -/
structure Condition where
  effect : Sys → (e : GuiEff) → GuiReply e → Prop := fun _ _ _ => True
  event : Sys → Event → Prop := fun _ _ => True

/-- Every step is allowed. -/
def anything : Condition := {}

/-- What an effect of a handler comes to: the workers may get on first, by any number of
steps. -/
def Beside (settings : Settings) (c : Condition) (s : Sys) (e : GuiEff) (reply : GuiReply e)
    (s' : Sys) : Prop :=
  ∃ s₁, Workers settings s s₁ ∧ Acts settings s₁ e reply s' ∧ c.effect s₁ e reply

/-- The states in which no handler is running: the start, and what handlers and workers
make of it.  Handlers run one at a time. -/
inductive Idle (settings : Settings) (c : Condition) : Sys → Prop where
  | start (status : StatusKey → LuaVal) : Idle settings c (Sys.start status)
  | worker {s s' : Sys} (h : Idle settings c s) (hstep : WorkerStep settings s s') :
      Idle settings c s'
  | handled {s s₁ s' : Sys} {event : Event} {o : Outcome LuaError Unit Unit}
      (h : Idle settings c s) (hfires : Fires s event s₁) (hevent : c.event s event)
      (hexec : Exec (Beside settings c) (handler event) s₁ o s') (hdone : o ≠ .running) :
      Idle settings c s'

/-- Every state a run of the system comes through, in the middle of a handler
or not. -/
inductive Reachable (settings : Settings) (c : Condition) : Sys → Prop where
  | idle {s : Sys} (h : Idle settings c s) : Reachable settings c s
  | during {s s₁ s₂ s' : Sys} {event : Event} {o : Outcome LuaError Unit Unit}
      (h : Idle settings c s) (hfires : Fires s event s₁) (hevent : c.event s event)
      (hexec : Exec (Beside settings c) (handler event) s₁ o s₂)
      (hworkers : Workers settings s₂ s') : Reachable settings c s'

/-! ## Invariants -/

/-- **The invariant rule.**  `I` is to hold whenever no handler is running, `J`
at every moment. -/
theorem reachable_invariant {settings : Settings} {c : Condition} {I J : Sys → Prop}
    (hstart : ∀ status, I (Sys.start status)) (hweaken : ∀ s, I s → J s)
    (hI : ∀ s s', I s → WorkerStep settings s s' → I s')
    (hJ : ∀ s s', J s → WorkerStep settings s s' → J s')
    (hevent : ∀ s s₁ event, I s → Fires s event s₁ → c.event s event →
      Ensures (Beside settings c) (handler event) s₁ fun o s' => J s' ∧ (o ≠ .running → I s'))
    {s : Sys} (h : Reachable settings c s) : J s := by
  have hidle : ∀ s, Idle settings c s → I s := by
    intro s hs
    induction hs with
    | start status => exact hstart status
    | worker _ hstep ih => exact hI _ _ ih hstep
    | handled _ hfires hcond hexec hdone ih =>
        exact (hevent _ _ _ ih hfires hcond _ _ hexec).2 hdone
  cases h with
  | idle h => exact hweaken s (hidle s h)
  | during h hfires hcond hexec hworkers =>
      have hmiddle := (hevent _ _ _ (hidle _ h) hfires hcond _ _ hexec).1
      induction hworkers with
      | refl => exact hmiddle
      | tail _ hstep ih => exact hJ _ _ ih hstep

/-- A property the workers keep is there when an effect takes place. -/
theorem workers_keep {settings : Settings} {A : Sys → Prop}
    (hA : ∀ s s', A s → WorkerStep settings s s' → A s') {s s' : Sys} (h : A s)
    (hworkers : Workers settings s s') : A s' := by
  induction hworkers with
  | refl => exact h
  | tail _ hstep ih => exact hA _ _ ih hstep

/-! ## One way it can go -/

/-- The hub's address is entered, the worker starts as process 1234 and does
not get on by itself, and the GUI reads what is in the file. -/
def answer (settings : Settings) (s : Sys) : (e : GuiEff) → GuiReply e × Sys
  | .validateCert => (false, s)
  | .validateConnect => (false, s)
  | .hubname => (lit "Luadch Testhub", s)
  | .hubaddress => (lit "127.0.0.1", s)
  | .hubport => (lit "5001", s)
  | .addr => (some (lit "127.0.0.1"), s)
  | .port => (some (lit "5001"), s)
  | .getCwd => (lit "C:\\announcer", s)
  | .execute _ =>
      match (s.worker 1234).1 with
      | .gone =>
          (1234, { s.moved 1234 (.session (loop settings 1), {}) with latest := 1234 })
      | _ => (0, s)
  | .exists _ => (true, s)
  | .kill pid => (0, s.killed pid)
  | .getPid => (s.pid, s)
  | .setPid pid => ((), { s with pid := pid })
  | .milliSleep _ => ((), s)
  | .getStatus key _ => (.ok (some (s.status key)), { s with steady := true })
  | .resetStatus => ((), { s with status := fun _ => .str [], writer := none })
  | .enableStart b => ((), { s with startEnabled := b })
  | .enableStop b => ((), { s with stopEnabled := b })
  | .protect b => ((), { s with locked := b })
  | .timers b => ((), { s with polling := b })
  | .stopPolling => ((), { s with polling := false })
  | .setConnLed .connected => ((), { s.showConnected with led := .connected })
  | .setConnLed state => ((), { s with led := state })
  | .statusText _ => ((), s)
  | .broadcast _ _ => ((), s)
  | .broadcastTable _ => (.ok (), s)
  | .loginSuccessful => ((), s.showConnected)
  | .header _ => ((), s)
  | .footer _ => ((), s)
  | .skip => ((), { s with closed := true })

/-- The system always has an answer: what `answer` says is what an effect can come to. -/
theorem acts_answer (settings : Settings) (s : Sys) (e : GuiEff) :
    Acts settings s e (answer settings s e).1 (answer settings s e).2 := by
  cases e with
  | execute cmd =>
      simp only [answer]
      split
      case h_1 hgone => exact Or.inr ⟨Nat.succ_pos 1233, fun h => h hgone, 1, rfl⟩
      case h_2 => exact Or.inl ⟨rfl, rfl⟩
  | «exists» pid => exact ⟨fun _ => rfl, rfl⟩
  | kill pid => exact Or.inl ⟨rfl, rfl⟩
  | getPid => exact ⟨rfl, rfl⟩
  | getStatus key purpose => exact ⟨Or.inr (Or.inl rfl), rfl⟩
  | setConnLed state =>
      cases state with
      | _ => rfl
  | _ => rfl

/-- The same, as far as `ok` lets it go, with the workers doing what `nap` says
whenever the GUI sleeps. -/
def scripted (settings : Settings) (nap : Sys → Sys)
    (ok : Sys → (e : GuiEff) → GuiReply e → Bool) (s : Sys) (e : GuiEff) :
    Option (GuiReply e × Sys) :=
  let s := match e with
    | .milliSleep _ => nap s
    | _ => s
  if ok s e (answer settings s e).1 then some (answer settings s e) else none

/-- A handler against a script is a run of it beside the workers, if the script naps only as
workers can and gives the answers the condition allows. -/
theorem exec_scripted {settings : Settings} {c : Condition} {nap : Sys → Sys}
    {ok : Sys → (e : GuiEff) → GuiReply e → Bool}
    (hnap : ∀ s, Workers settings s (nap s))
    (hok : ∀ s e reply, ok s e reply = true → c.effect s e reply) (p : GuiAct Unit) (s : Sys) :
    Exec (Beside settings c) p s (p.run (scripted settings nap ok) s).1
      (p.run (scripted settings nap ok) s).2 := by
  have hallowed : ∀ (s s₁ s' : Sys) (e : GuiEff) (reply : GuiReply e), Workers settings s s₁ →
      (if ok s₁ e (answer settings s₁ e).1 then some (answer settings s₁ e) else none) =
        some (reply, s') → Beside settings c s e reply s' := by
    intro s s₁ s' e reply hworkers h
    split at h
    case isTrue hs =>
      rw [Option.some.injEq] at h
      have hacts := acts_answer settings s₁ e
      rw [h] at hs hacts
      exact ⟨s₁, hworkers, hacts, hok s₁ e reply hs⟩
    case isFalse => cases h
  refine exec_run_view (scripted settings nap ok) id ?_ p s
  intro s e reply s' h
  cases e with
  | milliSleep ms => exact hallowed s _ s' _ reply (hnap s) h
  | _ => exact hallowed s _ s' _ reply .refl h

/-- No worker gets on. -/
theorem workers_asleep (settings : Settings) (s : Sys) : Workers settings s (id s) := .refl

/-- A status file in which every key has a text. -/
def withTexts (text : StatusKey → Str) (key : StatusKey) : LuaVal := .str (text key)

/-- What a login that has come to its end leaves in the status file. -/
def leftBehind : StatusKey → Str
  | .hubconnect => lit "Connected. Try a SSL handshake..."
  | .hubhandshake => lit "Generate keyprint..."
  | .hubkeyp => lit "Connection established. Try now to login..."
  | .support => lit "Waiting for hub support..."
  | .hubsupport => lit "Check for OSNR support..."
  | .hubosnr => lit "Hub has OSNR support, waiting for SID..."
  | .hubsid => lit "Provided SID: AAAA"
  | .hubinf => lit "Hub INF provided, try to send own INF..."
  | .owninf => lit "Own INF sended, waiting for password request..."
  | .passwd => lit "Salt provided, try to send password..."
  | .hubsalt => lit "Waiting for login..."
  | .hublogin => lit "Login complete."
  | .cipher => lit "TLS_AES_256_GCM_SHA384"

end LuadchAnnouncer.Frontends.GuiSystem
