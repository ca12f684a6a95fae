import LuadchAnnouncer.Core.NetLogin

/-!
# Which sessions close their socket

`net.loop` leaves its function in more than a dozen places, and each of them
looks after the socket itself.  Everything that gives up between the keyprint
check and the end of the login closes it, but for two failed sends; a failed
handshake does not, and nothing behind the login does.

`Sock` is the account a session keeps of its socket, and of the replies that
lead to one of those places.

## Main results

* `stage_loginBail`, `stage_login` — the ends of the login and what they do about the
  socket.
* `stage_mainLoop` — behind the login nothing closes it.
* `loop_closes_iff` — the exact account of a session that returns.
* `loop_handshake_leaks` — a handshake that fails.
-/

namespace LuadchAnnouncer.Core.NetSocket

open LuadchAnnouncer.Verified.Bytes
open LuadchAnnouncer.Verified.LuaValue
open LuadchAnnouncer.Verified.Program
open LuadchAnnouncer.Core.Net
open LuadchAnnouncer.Core.NetLogin (defaultSettings)

/-! ## The account -/

/-- The account a session keeps of its socket: what has been done with it, and which
replies have led to one of the places that leave it open. -/
structure Sock where
  connected : Bool := false
  closed : Bool := false
  /-- `client:dohandshake( )` has failed -/
  handshakeFailed : Bool := false
  /-- `HSUP` could not be sent -/
  supportFailed : Bool := false
  /-- the login `BINF` could not be sent -/
  infFailed : Bool := false
  /-- the last frame of the login has been sent -/
  loggedIn : Bool := false
  deriving DecidableEq, Repr

def Sock.observe (s : Sock) : (e : Eff) → Reply e → Sock
  | .connect, .ok () => { s with connected := true }
  | .close, _ => { s with closed := true }
  | .dohandshake, .error _ => { s with handshakeFailed := true }
  | .send .hsup, .error _ => { s with supportFailed := true }
  | .send (.inf _), .error _ => { s with infFailed := true }
  | .send (.infCount _ _), .ok () => { s with loggedIn := true }
  | _, _ => s

/-- Any hub, any network, any file system. -/
abbrev Watched : Sock → (e : Eff) → Reply e → Sock → Prop := Observed Sock.observe fun _ _ => True

/-- The session comes to one of the places that leave the socket open. -/
def Sock.abandoned (s : Sock) : Bool :=
  s.handshakeFailed || s.supportFailed || s.infFailed || s.loggedIn

/-- The socket of a session that is over: it was connected, and it has been
closed unless the session was abandoned. -/
def Settled (s : Sock) : Prop := s.connected = true ∧ (s.closed = true ↔ s.abandoned = false)

instance (s : Sock) : Decidable (Settled s) := by
  unfold Settled
  infer_instance

def opened : Sock := { connected := true }

/-- What has to hold where the function is left with a value.  An error leaves it too, and
then nothing is said about the socket. -/
def AtExit {α : Type} (o : Outcome LuaError Bool α) (s : Sock) : Prop :=
  ∀ b, o = .exit b → Settled s

abbrev Stage {α : Type} (Next : α → Sock → Prop) : Outcome LuaError Bool α → Sock → Prop :=
  Outcome.andThen (AtEnd (AtExit (α := Unit))) Next

section

variable {α : Type} {s : Sock} {Next : α → Sock → Prop}

theorem stage_leave {b : Bool} (h : Settled s) :
    Ensures Watched (leave b : Act α) s (Stage Next) :=
  observed_exit fun _ _ => h

theorem stage_raise {err : LuaError} : Ensures Watched (.raise err : Act α) s (Stage Next) :=
  observed_raise fun _ h => by cases h

/-- The socket is closed, and the function is left. -/
theorem stage_close {b : Bool} (h : Settled { s with closed := true }) :
    Ensures Watched (Prog.bind close fun _ => (leave b : Act α)) s (Stage Next) :=
  observed_effect fun _ _ => stage_leave h

end

/-! ## Pieces that do not show -/

theorem plain_log (buf : Str) : Plain Sock.observe (log buf) := plain_effect fun _ _ => rfl

theorem plain_emit (key : StatusKey) (value : Str) : Plain Sock.observe (emit key value) :=
  plain_effect fun _ _ => rfl

theorem plain_emitIf (run : Bool) (key : StatusKey) (value : Str) :
    Plain Sock.observe (emitIf run key value) := by
  cases run with
  | true => exact plain_emit key value
  | false => exact plain_ret ()

theorem plain_logFrame (text : Str) : Plain Sock.observe (logFrame text) :=
  (plain_log ruler).bind fun _ => plain_log text

theorem plain_settimeout (seconds : LuaNum) : Plain Sock.observe (settimeout seconds) :=
  plain_effect fun _ _ => rfl

theorem plain_sleep (seconds : LuaNum) : Plain Sock.observe (sleep seconds) :=
  plain_effect fun _ _ => rfl

theorem plain_receive : Plain Sock.observe receive := plain_effect fun _ _ => rfl

/-! ## The stages -/

section

variable {settings : Settings}

/-- Leaving the login closes the socket. -/
theorem stage_loginBail {α : Type} {Next : α → Sock → Prop} (statuskey : StatusKey)
    (disp : Disp) (msg : Str) :
    Ensures Watched (loginBail statuskey disp msg : Act α) opened (Stage Next) := by
  have hclose : Ensures Watched (Prog.bind close fun _ => (leave (disp == .terminal) : Act α))
      opened (Stage Next) := stage_close (by decide)
  cases disp with
  | _ => exact (plain_log _).before fun _ => (plain_emit _ _).before fun _ => hclose

/-- Reading a line leaves the socket open.  A read that fails without a text raises with it
open. -/
theorem stage_recvLoginFrom (n : Nat) :
    Ensures Watched (recvLoginFrom n) opened (Stage fun _ s' => s' = opened) := by
  induction n with
  | zero => exact observed_ret rfl
  | succ n ih =>
      refine plain_receive.before ?_
      rintro ((_ | err) | buf)
      · exact stage_raise
      · exact observed_ret rfl
      · simp only
        split
        case h_1 => exact observed_ret rfl
        case h_2 =>
          split
          case isTrue => exact (plain_log _).before fun _ => ih
          case isFalse =>
            split
            case isTrue => exact observed_ret rfl
            case isFalse => exact observed_ret rfl

/-- A login read yields a frame, closes the socket, or raises. -/
theorem stage_readLogin (statuskey : StatusKey) :
    Ensures Watched (readLogin statuskey) opened (Stage fun _ s' => s' = opened) := by
  refine observed_bind (stage_recvLoginFrom maxLoginStatus) ?_
  rintro (⟨disp, msg⟩ | buf)
  · exact stage_loginBail statuskey disp msg
  · exact (plain_logFrame _).before fun _ => observed_ret rfl

/-- Connecting leaves one socket open, or none was connected. -/
theorem stage_connectLoop (n : Nat) :
    Ensures Watched (connectLoop settings n) {}
      (Stage fun run s' => run = none ∨ s' = opened) := by
  induction n with
  | zero => exact observed_ret (Or.inl rfl)
  | succ n ih =>
      refine observed_effect ?_
      rintro (err | _) -
      · exact (plain_log _).before fun _ => (plain_log _).before fun _ =>
          (plain_emit _ _).before fun _ => (plain_sleep _).before fun _ => ih
      · exact observed_ret (Or.inr rfl)

/-- One socket is made, and all the tries to connect are made with it. -/
theorem stage_openSocket (fuel : Nat) :
    Ensures Watched (openSocket settings fuel) {}
      (Stage fun run s' => run = none ∨ s' = opened) := by
  refine observed_effect ?_
  rintro (err | _) -
  · exact stage_raise
  · exact (plain_log _).before fun _ => (plain_settimeout _).before fun _ =>
      stage_connectLoop fuel

/-- The handshake is given up without closing, the keyprint check is not. -/
theorem stage_secure (run : Bool) :
    Ensures Watched (secure settings run) opened (Stage fun _ s' => s' = opened) := by
  refine (plain_log _).before fun _ => (plain_emitIf _ _ _).before fun _ => ?_
  refine observed_effect ?_
  rintro (err | _) -
  · exact stage_raise
  refine (plain_settimeout _).before fun _ => observed_effect ?_
  rintro (err | _) -
  · exact (plain_log _).before fun _ => (plain_emit _ _).before fun _ =>
      stage_leave (show Settled { opened with handshakeFailed := true } by decide)
  refine (plain_log _).before fun _ => (plain_emitIf _ _ _).before fun _ => observed_effect ?_
  rintro (_ | fingerprint) -
  · exact stage_raise
  have hpass : ∀ text, Ensures Watched
      (Prog.bind (log text) fun _ => emit .hubkeyp text) opened (Stage fun _ s' => s' = opened) :=
    fun text => (plain_log _).before fun _ => (plain_emit _ _).stage
  simp only
  split
  case isFalse => exact hpass _
  case isTrue =>
    split
    case isTrue =>
      exact (plain_log _).before fun _ => (plain_emit _ _).before fun _ =>
        stage_close (show Settled { opened with closed := true } by decide)
    case isFalse => exact hpass _

/-- The first frame: the socket is open, or it is closed and the session is over.  So it is
with each step of the login. -/
theorem stage_sendSupport (run : Bool) :
    Ensures Watched (sendSupport run) opened (Stage fun _ s' => s' = opened) := by
  refine (plain_log _).before fun _ => (plain_emitIf _ _ _).before fun _ =>
    (plain_log _).before fun _ => observed_effect ?_
  rintro (err | _) -
  · exact (plain_log _).before fun _ => (plain_emit _ _).before fun _ =>
      stage_leave (show Settled { opened with supportFailed := true } by decide)
  · exact (plain_logFrame _).before fun _ => (plain_log _).before fun _ =>
      (plain_emitIf _ _ _).stage

theorem stage_hubSupport (run : Bool) :
    Ensures Watched (hubSupport run) opened (Stage fun _ s' => s' = opened) := by
  refine observed_bind (stage_readLogin _) fun buf => (plain_log _).before fun _ =>
    (plain_emitIf _ _ _).before fun _ => ?_
  split
  case isTrue => exact (plain_log _).before fun _ => (plain_emitIf _ _ _).stage
  case isFalse =>
    exact (plain_log _).before fun _ => (plain_emit _ _).before fun _ =>
      stage_close (by decide)

theorem stage_hubSid (run : Bool) :
    Ensures Watched (hubSid run) opened (Stage fun _ s' => s' = opened) := by
  refine observed_bind (stage_readLogin _) fun buf => ?_
  split
  case isTrue =>
    exact (plain_log _).before fun _ => (plain_emitIf _ _ _).before fun _ => observed_ret rfl
  case isFalse => exact (plain_log _).before fun _ => stage_close (by decide)

theorem stage_hubInf (run : Bool) (sid : Str) :
    Ensures Watched (hubInf settings run sid) opened (Stage fun _ s' => s' = opened) := by
  refine (plain_log _).before fun _ => observed_bind (stage_readLogin _) fun buf => ?_
  split
  case isFalse => exact (plain_log _).before fun _ => stage_close (by decide)
  case isTrue =>
    refine (plain_log _).before fun _ => (plain_emitIf _ _ _).before fun _ => observed_effect ?_
    rintro (err | _) -
    · exact (plain_log _).before fun _ => (plain_emit _ _).before fun _ =>
        stage_leave (show Settled { opened with infFailed := true } by decide)
    · exact (plain_logFrame _).before fun _ => (plain_log _).before fun _ =>
        (plain_emitIf _ _ _).stage

/-- The answer to the password request.  It raises where the salt does not fit, and then the
socket stays open. -/
theorem stage_password (run : Bool) :
    Ensures Watched (password settings run) opened (Stage fun _ s' => s' = opened) := by
  refine observed_bind (stage_readLogin _) fun buf => ?_
  split
  case isFalse =>
    exact (plain_log _).before fun _ => (plain_emit _ _).before fun _ =>
      stage_close (by decide)
  case isTrue =>
    refine (plain_log _).before fun _ => (plain_emitIf _ _ _).before fun _ => ?_
    cases hashPas : Adclib.hashPas settings.tiger settings.hub.pass (saltOf buf) with
    | error err => exact stage_raise
    | ok pas =>
        refine observed_effect ?_
        rintro (err | _) -
        · exact (plain_log _).before fun _ => (plain_emit _ _).before fun _ =>
            stage_close (show Settled { opened with closed := true } by decide)
        · exact (plain_logFrame _).before fun _ => (plain_log _).before fun _ =>
            (plain_emitIf _ _ _).stage

/-- The socket of a session whose login is complete. -/
def online : Sock := { opened with loggedIn := true }

/-- Behind the last step the session is online. -/
theorem stage_loginReply (run : Bool) (sid : Str) :
    Ensures Watched (loginReply run sid) opened (Stage fun _ s' => s' = online) := by
  refine observed_bind (stage_readLogin _) fun buf => ?_
  split
  case isFalse =>
    exact (plain_log _).before fun _ => (plain_emit _ _).before fun _ =>
      stage_close (by decide)
  case isTrue =>
    refine observed_effect ?_
    rintro (err | _) -
    · exact (plain_log _).before fun _ =>
        stage_close (show Settled { opened with closed := true } by decide)
    · exact (plain_logFrame _).before fun _ => (plain_log _).before fun _ =>
        (plain_emitIf _ _ _).stage

/-- The five steps. -/
theorem stage_login (run : Bool) :
    Ensures Watched (login settings run) opened (Stage fun _ s' => s' = online) :=
  observed_bind (stage_hubSupport run) fun _ =>
    observed_bind (stage_hubSid run) fun sid =>
    observed_bind (stage_hubInf run sid) fun _ =>
    observed_bind (stage_password run) fun _ =>
    observed_bind (stage_loginReply run sid) fun _ => observed_ret rfl

end

/-! ## The main loop

Behind the login nothing closes the socket. -/

/-- Not the closing of the socket. -/
def Keeps (e : Eff) : Prop := e ≠ .close

/-- The session is in its main loop: connected, logged in, and with its socket open. -/
def Online (s : Sock) : Prop := s.connected = true ∧ s.closed = false ∧ s.loggedIn = true

/-- An effect that neither opens nor closes a socket keeps the session online. -/
theorem Online.observe {s : Sock} (h : Online s) {e : Eff} (he : Keeps e) (reply : Reply e) :
    Online (s.observe e reply) := by
  obtain ⟨hconnected, hclosed, hlogged⟩ := h
  unfold Sock.observe
  split
  case h_2 => exact absurd rfl he
  all_goals exact ⟨by simp [hconnected], by simp [hclosed], by simp [hlogged]⟩

theorem Online.settled {s : Sock} (h : Online s) : Settled s := by
  obtain ⟨hconnected, hclosed, hlogged⟩ := h
  simp [Settled, Sock.abandoned, hconnected, hclosed, hlogged]

theorem keeps_log (buf : Str) : (log buf).Uses Keeps := Prog.uses_effect (by simp [Keeps])

theorem keeps_emit (key : StatusKey) (value : Str) : (emit key value).Uses Keeps :=
  Prog.uses_effect (by simp [Keeps])

theorem keeps_settimeout (seconds : LuaNum) : (settimeout seconds).Uses Keeps :=
  Prog.uses_effect (by simp [Keeps])

theorem keeps_send (frame : Frame) : (send frame).Uses Keeps :=
  Prog.uses_effect (by simp [Keeps])

theorem keeps_gettime : gettime.Uses Keeps := Prog.uses_effect (by simp [Keeps])

/-- The wait keeps it. -/
theorem keeps_settle (settings : Settings) : (settle settings).Uses Keeps := by
  have hrest : (Prog.bind (log (lit "Waiting " ++ settings.sleep.tostring ++
      lit " seconds before starting the announcer...")) fun _ =>
        Prog.bind (sleep settings.sleep) fun _ => keepalive).Uses Keeps :=
    (keeps_log _).bind fun _ => (Prog.uses_effect (by simp [Keeps])).bind fun _ =>
      Prog.uses_effect (by simp [Keeps])
  have hinfo : info.Uses Keeps := Prog.uses_effect (by simp [Keeps])
  refine hinfo.bind ?_
  rintro (_ | cipher)
  · exact hrest
  · exact (keeps_log _).bind fun _ => (keeps_log _).bind fun _ => (keeps_log _).bind fun _ =>
      (keeps_emit _ _).bind fun _ => hrest

/-- One announcement keeps it. -/
theorem keeps_announceOne (sid : Str) (c : Nat) (entry : Str × Core.Announce.Rule) :
    (announceOne sid c entry).Uses Keeps := by
  obtain ⟨release, cfg⟩ := entry
  refine (Prog.uses_ofExcept Keeps (commandOf cfg)).bind fun command => ?_
  split
  case h_1 =>
    refine (keeps_send _).bind ?_
    rintro (err | _)
    · exact (keeps_log _).bind fun _ => trivial
    · exact Prog.Uses.bind (Prog.uses_effect (by simp [Keeps])) fun _ => trivial
  case h_2 => exact (keeps_log _).bind fun _ => trivial

/-- A round keeps it. -/
theorem keeps_announceRound (settings : Settings) (sid : Str) :
    (announceRound settings sid).Uses Keeps := by
  have hupdate : update.Uses Keeps := Prog.uses_effect (by simp [Keeps])
  refine (keeps_settimeout _).bind fun _ => hupdate.bind fun found =>
    (Prog.uses_ofExcept Keeps found).bind fun found => (keeps_log _).bind fun _ =>
    (Prog.uses_foldlM (keeps_announceOne sid) found 0).bind fun c =>
    (keeps_log _).bind fun _ => (keeps_send _).bind ?_
  rintro (err | _)
  · exact (keeps_log _).bind fun _ => trivial
  · trivial

/-- The poll keeps it, also where it finds the hub gone: closing is not its business. -/
theorem keeps_poll : poll.Uses Keeps := by
  have hreceive : receive.Uses Keeps := Prog.uses_effect (by simp [Keeps])
  refine (keeps_settimeout _).bind fun _ => hreceive.bind ?_
  rintro ((_ | err) | line)
  · trivial
  · simp only
    split
    case isTrue => trivial
    case isFalse => exact (keeps_log _).bind fun _ => (keeps_emit _ _).bind fun _ => trivial
  · trivial

/-- So one turn of the main loop keeps it. -/
theorem keeps_mainBody (settings : Settings) (sid : Str) (nextAnnounce : LuaNum) :
    (mainBody settings sid nextAnnounce).Uses Keeps := by
  refine keeps_gettime.bind fun now => ?_
  split
  case isTrue =>
    exact (keeps_announceRound settings sid).bind fun _ => keeps_gettime.bind fun now =>
      keeps_poll.bind fun _ => trivial
  case isFalse => exact keeps_poll.bind fun _ => trivial

/-- A piece of such effects stays online to its end. -/
theorem stage_keeps {α : Type} {p : Act α} (hp : p.Uses Keeps) {s : Sock} (h : Online s) :
    Ensures Watched p s (Stage fun _ => Online) := by
  have hkeep : ∀ s e reply s', Keeps e → Online s → Watched s e reply s' → Online s' := by
    rintro s e reply _ he hs ⟨-, rfl⟩
    exact hs.observe he reply
  have hexit : ∀ (o : Outcome LuaError Bool Unit) s, Online s → AtEnd AtExit o s := by
    intro o s hs _ b _
    exact hs.settled
  exact ensures_stage_uses hkeep hexit hp h

/-- The main loop, however long it runs. -/
theorem stage_mainLoop (settings : Settings) (sid : Str) (fuel : Nat) {s : Sock}
    (h : Online s) :
    Ensures Watched (Prog.iterate (mainBody settings sid) fuel (.int 0)) s
      (Stage fun _ => Online) := by
  have hrun : ∀ (_ : LuaNum) (s : Sock), Online s → AtEnd (AtExit (α := Unit)) .running s :=
    fun _ s _ => atEnd_running s
  have hbody : ∀ (nextAnnounce : LuaNum) (s : Sock), Online s →
      Ensures Watched (mainBody settings sid nextAnnounce) s (Stage fun _ => Online) :=
    fun nextAnnounce s hs => stage_keeps (keeps_mainBody settings sid nextAnnounce) hs
  exact ensures_stage_iterate hrun hbody fuel (.int 0) h

/-! ## The whole session -/

/-- Where the loop has come to its end, whatever the end is, the socket is as it has to be
for the next one. -/
theorem loop_atExit (settings : Settings) (fuel : Nat) :
    Ensures Watched (loop settings fuel) {} (AtEnd AtExit) := by
  have hstage : Ensures Watched (loop settings fuel) {} (Stage fun _ _ => True) := by
    refine ensures_stage_bind (stage_openSocket fuel) ?_
    rintro (_ | run) s hs
    · exact observed_ret trivial
    obtain rfl : s = opened := by simpa using hs
    refine observed_bind (stage_secure run) fun _ =>
      observed_bind (stage_sendSupport run) fun _ => observed_bind (stage_login run) fun sid => ?_
    have honline : Online online := ⟨rfl, rfl, rfl⟩
    refine ensures_stage_bind (stage_keeps (keeps_settle settings) honline) ?_
    intro _ s hs
    refine ensures_stage_bind (stage_mainLoop settings sid fuel hs) ?_
    intro _ s' _
    exact observed_ret trivial
  refine ensures_of_stage hstage ?_
  intro a s _ _ b hb
  cases hb

/-- **Which sessions close their socket.**  Whatever the hub and the network
do, a session that returns was connected, and its socket has been closed
exactly if its handshake went well, `HSUP` and the login `BINF` could be sent,
and the login did not come to its end. -/
theorem loop_closes_iff (settings : Settings) (fuel : Nat) :
    Ensures Watched (loop settings fuel) {} fun o s =>
      ∀ b, o = .exit b → s.connected = true ∧
        (s.closed = true ↔ s.handshakeFailed = false ∧ s.supportFailed = false ∧
          s.infFailed = false ∧ s.loggedIn = false) := by
  refine (loop_atExit settings fuel).mono ?_
  rintro o s h b rfl
  obtain ⟨hconnected, hclosed⟩ := h (by simp) b rfl
  refine ⟨hconnected, hclosed.trans ?_⟩
  simp [Sock.abandoned, and_assoc]

/-- A hub that takes the connection and drops it in the handshake. -/
def droppingHub (s : Sock) : (e : Eff) → Option (Reply e × Sock)
  | .dohandshake => some (.error (lit "closed"), s.observe .dohandshake (.error (lit "closed")))
  | .tcp => some (.ok (), s)
  | .connect => some (.ok (), s.observe .connect (.ok ()))
  | .wrap => some (.ok (), s)
  | .event _ => some ((), s)
  | .status _ _ => some ((), s)
  | .settimeout _ => some ((), s)
  | _ => none

/-- A session whose handshake fails leaves its socket open. -/
theorem loop_handshake_leaks :
    ¬ ∀ (settings : Settings) (fuel : Nat), Ensures Watched (loop settings fuel) {} fun o s =>
      ∀ b, o = .exit b → s.connected = true → s.closed = true := by
  intro hall
  have hallowed : ∀ (s : Sock) (e : Eff) (reply : Reply e) (s' : Sock),
      droppingHub s e = some (reply, s') → Watched (id s) e reply (id s') := by
    intro s e reply s' h
    cases e with
    | _ => cases h <;> exact ⟨trivial, rfl⟩
  have hexec := exec_run_view droppingHub id hallowed (loop defaultSettings 1) {}
  have hrun : (loop defaultSettings 1).run droppingHub {} =
      (.exit false, { opened with handshakeFailed := true }) := by decide
  rw [hrun] at hexec
  have hclosed := hall defaultSettings 1 _ _ hexec false rfl rfl
  cases hclosed

end LuadchAnnouncer.Core.NetSocket
