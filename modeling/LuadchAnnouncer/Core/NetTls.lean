import LuadchAnnouncer.Core.NetLogin
import LuadchAnnouncer.Luasec.Buffer
import LuadchAnnouncer.Verified.FailStop

/-!
# A session over TLS

`AnyHub` answers a session with any lines at all.  Here it runs over `luasec`: a line
is cut by `buffer.c` out of the bytes OpenSSL delivers, a frame is handed to OpenSSL
piece by piece, and both may fail at any point.  What a session rests on is that its
login stops at the first call that fails.

An error of OpenSSL may come without a text: `ssl_ioerror` then answers `nil`.  The
callers test the text, so to them such a `send` has worked, and such a `dohandshake`
too; a `receive` answers two `nil`s.

## Main results

* `anyHub_of_overTls`: a connection is one of those a session may meet.
* `sent_spec`, `received_ok`: what a call leaves of the stream.
* `sent_unnoticed`: any frame may be lost without the session being told.
* `careful_hubSupport` .. `careful_loginReply`: the login stops at the first failure it
  is told of.
* `yields_hubSid`: the session id cannot break a line.
-/

namespace LuadchAnnouncer.Core.NetTls

open LuadchAnnouncer.Verified.Bytes
open LuadchAnnouncer.Verified.LuaValue
open LuadchAnnouncer.Verified.Program
open LuadchAnnouncer.Verified.FailStop
open LuadchAnnouncer.Adclib
open LuadchAnnouncer.Luasec
open LuadchAnnouncer.Luasec.Buffer (Connection Texts bytesOf linesFrom_line linesOf ioDone
  recvline_spec sendraw_spec strip)
open LuadchAnnouncer.Core.Net
open LuadchAnnouncer.Core.NetTrace

/-- A session and its connection: the trace, the connection as `ssl.wrap` has left it, all
bytes OpenSSL has delivered and taken, the lines that were read, the names that were
logged, and whether a frame was cut off by an error without a text. -/
structure Wire where
  trace : Trace := {}
  conn : Connection := {}
  inbound : Str := []
  outbound : Str := []
  read : List Str := []
  released : List Str := []
  unnoticed : Bool := false

/-- What `local succ, err = ..` and `if err` make of an answer. -/
def seen : Except (Option Str) Unit → Except Str Unit
  | .ok () => .ok ()
  | .error none => .ok ()
  | .error (some err) => .error err

/-- A failure that `if err` does not see. -/
def unseen : Except (Option Str) Unit → Bool
  | .error none => true
  | _ => false

/-- `client:receive( "*l" )`, through `buffer.c`: the calls to OpenSSL are what they are,
and the reply is a line, an error with its text, or an error without one. -/
def Received (texts : Texts) (w : Wire) (reply : Except (Option Str) Str) (w' : Wire) : Prop :=
  ∃ calls conn, Buffer.receive texts w.conn calls = some (reply, conn, []) ∧
    w' = { w with
      trace := w.trace.observe .receive reply
      conn := conn
      inbound := w.inbound ++ bytesOf calls
      read := w.read ++ reply.toOption.toList }

/-- `client:send( .. )`, through `buffer.c`.  What OpenSSL has taken is what the hub is
sent, and a failure without a text looks like success to the session. -/
def Sent (settings : Settings) (texts : Texts) (w : Wire) (frame : Frame)
    (reply : Except Str Unit) (w' : Wire) : Prop :=
  ∃ calls taken left conn answer,
    Buffer.send texts w.conn calls (frame.wire settings) = some (answer, left, conn, []) ∧
    frame.wire settings = taken ++ left ∧ reply = seen answer ∧
    w' = { w with
      trace := w.trace.observe (.send frame) reply
      conn := conn
      outbound := w.outbound ++ taken
      unnoticed := w.unnoticed || unseen answer }

/-- `client:dohandshake( )` -/
def Shaken (w : Wire) (reply : Except Str Unit) (w' : Wire) : Prop :=
  ∃ answer : Except (Option Str) Unit, reply = seen answer ∧
    w' = { w with conn := { w.conn with connected := answer.toOption.isSome } }

/-- Any hub behind a TLS connection: it may send any bytes at any time, OpenSSL may
deliver and take them in any pieces, and every call may fail. -/
def OverTls (settings : Settings) (texts : Texts) (w : Wire) : (e : Eff) → Reply e → Wire → Prop
  | .receive, reply, w' => Received texts w reply w'
  | .send frame, reply, w' => Sent settings texts w frame reply w'
  | .dohandshake, reply, w' => Shaken w reply w'
  | .close, _, w' => w' = { w with conn := { w.conn with connected := false } }
  | .release name, _, w' => w' = { w with released := w.released ++ [name] }
  | e, reply, w' => w' = { w with trace := w.trace.observe e reply }

/-! ## One effect at a time -/

/-- An effect that touches neither the stream of the hub nor the log of releases. -/
def harmless : Eff → Bool
  | .receive => false
  | .send _ => false
  | .release _ => false
  | _ => true

def Harmless (e : Eff) : Prop := harmless e = true

/-- What harmless effects leave as it was. -/
structure Same (w w' : Wire) : Prop where
  inbound : w'.inbound = w.inbound
  pending : w'.conn.pending = w.conn.pending
  outbound : w'.outbound = w.outbound
  read : w'.read = w.read
  released : w'.released = w.released
  sent : w'.trace.sent = w.trace.sent
  deciding : w'.trace.deciding = w.trace.deciding
  unnoticed : w'.unnoticed = w.unnoticed

section

variable {settings : Settings} {texts : Texts} {w w' : Wire}

/-- An effect that neither reads nor sends leaves the stream of either direction as it was. -/
theorem same_of_harmless {e : Eff} {reply : Reply e}
    (h : OverTls settings texts w e reply w') (he : Harmless e) : Same w w' := by
  cases e with
  | receive => cases he
  | send frame => cases he
  | release name => cases he
  | dohandshake =>
      obtain ⟨answer, -, rfl⟩ := h
      exact ⟨rfl, rfl, rfl, rfl, rfl, rfl, rfl, rfl⟩
  | _ =>
      rw [show w' = _ from h]
      exact ⟨rfl, rfl, rfl, rfl, rfl, rfl, rfl, rfl⟩

/-- A line that was read is the next one of the stream. -/
theorem received_ok {line : Str} (h : Received texts w (.ok line) w') :
    lf ∉ line ∧ ∃ bytes raw, lf ∉ raw ∧ line = strip raw ∧
      w.conn.pending ++ bytes = raw ++ lf :: w'.conn.pending ∧
      w' = { w with
        trace := w.trace.read line
        conn := w'.conn
        inbound := w.inbound ++ bytes
        read := w.read ++ [line] } := by
  obtain ⟨calls, conn, hreceive, rfl⟩ := h
  obtain ⟨raw, hraw, hline, hbytes⟩ := Buffer.receive_ok hreceive
  rw [show bytesOf [] = [] from rfl, List.append_nil] at hbytes
  refine ⟨?_, bytesOf calls, raw, hraw, hline, hbytes, rfl⟩
  rw [hline]
  intro hmem
  exact hraw (List.mem_of_mem_filter hmem)

/-- A read that has failed takes no line from the stream, though bytes may have come in with
it. -/
theorem received_error {err : Option Str} (h : Received texts w (.error err) w') :
    w'.trace.deciding = w.trace.deciding ∧ ∃ bytes, w'.inbound = w.inbound ++ bytes := by
  obtain ⟨calls, conn, -, rfl⟩ := h
  refine ⟨?_, bytesOf calls, rfl⟩
  cases err with
  | none => rfl
  | some err => rfl

/-- A frame is taken whole exactly if there is no error; of an error without a text the
session is not told. -/
theorem sent_spec {frame : Frame} {reply : Except Str Unit}
    (h : Sent settings texts w frame reply w') :
    ∃ taken left answer, frame.wire settings = taken ++ left ∧ (answer = .ok () ↔ left = []) ∧
      reply = seen answer ∧ w'.conn.pending = w.conn.pending ∧
      w' = { w with
        trace := { w.trace with sent := w.trace.sent ++ [frame] }
        conn := w'.conn
        outbound := w.outbound ++ taken
        unnoticed := w.unnoticed || unseen answer } := by
  obtain ⟨calls, taken, left, conn, answer, hsend, hwire, hseen, rfl⟩ := h
  obtain ⟨hiff, hpending⟩ := Buffer.send_spec hsend
  exact ⟨taken, left, answer, hwire, hiff, hseen, hpending, rfl⟩

/-- Any frame may be lost so: OpenSSL fails at once and has no text for it. -/
theorem sent_unnoticed {frame : Frame} (hconnected : w.conn.connected = true)
    (hreason : texts.reason = none) (hframe : frame.wire settings ≠ []) :
    ∃ w', Sent settings texts w frame (.ok ()) w' ∧ w'.outbound = w.outbound ∧
      w'.unnoticed = true := by
  have hraw : Buffer.sendraw w.conn.connected w.conn.error [.failed .ssl] (frame.wire settings) =
      some (Buffer.lsecIoSsl, .ssl, frame.wire settings, []) := by
    have hssl : Buffer.sslSend w.conn.connected w.conn.error [.failed .ssl] =
        some (⟨Buffer.lsecIoSsl, .ssl, none⟩, []) := by
      rw [hconnected]
      rfl
    rw [Buffer.sendraw_round hframe hssl]
    rfl
  have hsend : Buffer.send texts w.conn [.failed .ssl] (frame.wire settings) =
      some (.error none, frame.wire settings, { w.conn with error := .ssl }, []) := by
    rw [Buffer.send, hraw, ← hreason]
    rfl
  exact ⟨_, ⟨_, [], _, _, _, hsend, rfl, rfl, rfl⟩, List.append_nil _, Bool.or_true _⟩

end

/-! ## The login stops at the first call that fails -/

/-- A call on the socket has failed. -/
def failedCall : (e : Eff) → Reply e → Prop
  | .receive, .error _ => True
  | .send _, .error _ => True
  | _, _ => False

/-- What the login performs: it sends good frames, and logs no release. -/
def Allowed (good : Frame → Prop) : Eff → Prop
  | .send frame => good frame
  | .release _ => False
  | _ => True

/-- A program that stops at the first call on the socket that fails and says so.  What it
does on its way out is harmless. -/
def Careful {α : Type} (good : Frame → Prop) (p : Act α) : Prop :=
  StopsOn (Allowed good) Harmless failedCall p

theorem uses_effect {e : Eff} (h : harmless e = true) :
    (Prog.effect e : Act (Reply e)).Uses Harmless :=
  Prog.uses_effect h

theorem uses_emitIf (run : Bool) (key : StatusKey) (value : Str) :
    (emitIf run key value).Uses Harmless := by
  cases run with
  | true => exact uses_effect rfl
  | false => trivial

theorem uses_logFrame (text : Str) : (logFrame text).Uses Harmless :=
  (uses_effect rfl).bind fun _ => uses_effect rfl

/-- The last steps of a program that gives up. -/
theorem stops_close {α : Type} (b : Bool) :
    Stops Harmless (Prog.bind close fun _ => (leave b : Act α)) :=
  stops_bind (uses_effect rfl) fun _ => trivial

/-- Leaving the login sends nothing and reads nothing. -/
theorem stops_loginBail {α : Type} (statuskey : StatusKey) (disp : Disp) (msg : Str) :
    Stops Harmless (loginBail statuskey disp msg : Act α) := by
  have hlast := stops_close (α := α) (disp == .terminal)
  cases disp with
  | terminal =>
      exact stops_bind (uses_effect rfl) fun _ => stops_bind (uses_effect rfl) fun _ => hlast
  | retry => exact stops_bind (uses_effect rfl) fun _ => stops_bind (uses_effect rfl) fun _ => hlast
  | error => exact stops_bind (uses_effect rfl) fun _ => stops_bind (uses_effect rfl) fun _ => hlast

section

variable {settings : Settings} {good : Frame → Prop} {α β : Type}

/-- A piece without calls of the socket is careful. -/
theorem careful_of_uses {p : Act α} (h : p.Uses Harmless) : Careful good p := by
  refine stopsOn_of_uses ?_ h
  intro e he
  cases e with
  | receive => cases he
  | send frame => cases he
  | release name => cases he
  | _ => exact ⟨trivial, fun r hbad => hbad⟩

/-- Something harmless in front. -/
theorem careful_bind {p : Act α} {f : α → Act β} (hp : p.Uses Harmless)
    (hf : ∀ a, Careful good (f a)) : Careful good (Prog.bind p f) :=
  (careful_of_uses hp).bind hf

/-- A send is careful where nothing but the end follows its error.  What follows an error
without a text is what follows a send that has gone well. -/
theorem careful_send {frame : Frame} {f : Except Str Unit → Act α} (hframe : good frame)
    (herror : ∀ err, Stops Harmless (f (.error err))) (hok : Careful good (f (.ok ()))) :
    Careful good (Prog.bind (send frame) f) := by
  refine ⟨hframe, fun reply => ?_⟩
  cases reply with
  | ok u => exact ⟨fun hbad => hbad.elim, fun _ => hok⟩
  | error err => exact ⟨fun _ => herror err, fun hgood => absurd trivial hgood⟩

theorem careful_of_stops {p : Act α} (h : Stops Harmless p) : Careful good p :=
  careful_of_uses h.uses

/-- So is reading a line, for each of the tries. -/
theorem careful_recvLoginFrom {f : Except (Disp × Str) Str → Act α}
    (herror : ∀ e, Stops Harmless (f (.error e))) (hok : ∀ buf, Careful good (f (.ok buf))) :
    ∀ n, Careful good (Prog.bind (recvLoginFrom n) f) := by
  intro n
  induction n with
  | zero => exact careful_of_stops (herror _)
  | succ n ih =>
      rw [recvLoginFrom, Prog.bind_eq, Prog.bind_assoc]
      refine ⟨trivial, fun reply => ?_⟩
      cases reply with
      | error err =>
          cases err with
          | none => exact ⟨fun _ => trivial, fun hgood => absurd trivial hgood⟩
          | some err => exact ⟨fun _ => herror _, fun hgood => absurd trivial hgood⟩
      | ok buf =>
          refine ⟨fun hbad => hbad.elim, fun _ => ?_⟩
          simp only [Prog.ret_bind]
          split
          case h_1 => exact hok buf
          case h_2 =>
            split
            case isTrue =>
              rw [Prog.bind_eq, Prog.bind_assoc]
              exact careful_bind (uses_effect rfl) fun _ => ih
            case isFalse =>
              split
              case isTrue => exact careful_of_stops (herror _)
              case isFalse => exact careful_of_stops (herror _)

/-- Or reading one and leaving the login without it. -/
theorem careful_readLogin {statuskey : StatusKey} {f : Str → Act α}
    (hf : ∀ buf, Careful good (f buf)) :
    Careful good (Prog.bind (readLogin statuskey) f) := by
  rw [readLogin, Prog.bind_eq, Prog.bind_assoc]
  apply careful_recvLoginFrom
  · rintro ⟨disp, msg⟩
    exact (stops_loginBail statuskey disp msg).bind f
  · intro buf
    show Careful good (Prog.bind (Prog.bind (logFrame _) fun _ => .ret buf) f)
    rw [Prog.bind_assoc]
    exact careful_bind (uses_logFrame _) fun _ => hf buf

/-- Where the login gives up for good. -/
theorem careful_giveUp (text : Str) (key : StatusKey) (value : Str) (b : Bool) :
    Careful good (Prog.bind (log text) fun _ =>
      Prog.bind (emit key value) fun _ => Prog.bind close fun _ => (leave b : Act α)) :=
  careful_bind (uses_effect rfl) fun _ =>
    careful_bind (uses_effect rfl) fun _ => careful_of_stops (stops_close b)

/-- The steps of the login are careful, each over the frame that it sends. -/
theorem careful_hubSupport (run : Bool) : Careful good (hubSupport run) := by
  apply careful_readLogin
  intro buf
  refine careful_bind (uses_effect rfl) fun _ => careful_bind (uses_emitIf _ _ _) fun _ => ?_
  split
  case isTrue => exact careful_bind (uses_effect rfl) fun _ => careful_of_uses (uses_emitIf _ _ _)
  case isFalse => exact careful_giveUp _ _ _ _

theorem careful_hubSid (run : Bool) : Careful good (hubSid run) := by
  apply careful_readLogin
  intro buf
  split
  case isTrue =>
    exact careful_bind (uses_effect rfl) fun _ => careful_bind (uses_emitIf _ _ _) fun _ => trivial
  case isFalse => exact careful_bind (uses_effect rfl) fun _ => careful_of_stops (stops_close _)

/-- The description. -/
theorem careful_hubInf {sid : Str} (hframe : good (.inf sid)) (run : Bool) :
    Careful good (hubInf settings run sid) := by
  refine careful_bind (uses_effect rfl) fun _ => careful_readLogin fun buf => ?_
  split
  case isTrue =>
    refine careful_bind (uses_effect rfl) fun _ => careful_bind (uses_emitIf _ _ _) fun _ => ?_
    apply careful_send hframe
    · exact fun err => stops_bind (uses_effect rfl) fun _ => stops_bind (uses_effect rfl) fun _ =>
        trivial
    · exact careful_bind (uses_logFrame _) fun _ => careful_bind (uses_effect rfl) fun _ =>
        careful_of_uses (uses_emitIf _ _ _)
  case isFalse => exact careful_bind (uses_effect rfl) fun _ => careful_of_stops (stops_close _)

/-- The answer to the password request: a salt that does not fit raises, and then nothing is
sent. -/
theorem careful_password (hframe : ∀ pass salt, good (.hpas (settings.tiger pass salt)))
    (run : Bool) : Careful good (password settings run) := by
  apply careful_readLogin
  intro buf
  split
  case isTrue =>
    refine careful_bind (uses_effect rfl) fun _ => careful_bind (uses_emitIf _ _ _) fun _ => ?_
    cases hpas : hashPas settings.tiger settings.hub.pass (saltOf buf) with
    | error err => trivial
    | ok pas =>
        have hline : good (.hpas pas) := by
          unfold hashPas at hpas
          split at hpas
          · cases hpas
          · split at hpas
            · cases hpas
            · injection hpas with hpas
              rw [← hpas]
              exact hframe _ _
        apply careful_send hline
        · exact fun err => stops_bind (uses_effect rfl) fun _ =>
            stops_bind (uses_effect rfl) fun _ => stops_close _
        · exact careful_bind (uses_logFrame _) fun _ => careful_bind (uses_effect rfl) fun _ =>
            careful_of_uses (uses_emitIf _ _ _)
  case isFalse => exact careful_giveUp _ _ _ _

/-- The description with the hub count. -/
theorem careful_loginReply {sid : Str}
    (hframe : ∀ buf, good (.infCount sid (hubCount buf))) (run : Bool) :
    Careful good (loginReply run sid) := by
  apply careful_readLogin
  intro buf
  split
  case isTrue =>
    apply careful_send (hframe buf)
    · exact fun err => stops_bind (uses_effect rfl) fun _ => stops_close _
    · exact careful_bind (uses_logFrame _) fun _ => careful_bind (uses_effect rfl) fun _ =>
        careful_of_uses (uses_emitIf _ _ _)
  case isFalse => exact careful_giveUp _ _ _ _

/-- The first frame. -/
theorem careful_sendSupport (hframe : good .hsup) (run : Bool) :
    Careful good (sendSupport run) := by
  refine careful_bind (uses_effect rfl) fun _ => careful_bind (uses_emitIf _ _ _) fun _ =>
    careful_bind (uses_effect rfl) fun _ => ?_
  apply careful_send hframe
  · exact fun err => stops_bind (uses_effect rfl) fun _ => stops_bind (uses_effect rfl) fun _ =>
      trivial
  · exact careful_bind (uses_logFrame _) fun _ => careful_bind (uses_effect rfl) fun _ =>
      careful_of_uses (uses_emitIf _ _ _)

end

/-! ## The stages that do not use the connection -/

/-- Connecting is no call of the TLS layer. -/
theorem uses_connectLoop (settings : Settings) (n : Nat) :
    (connectLoop settings n).Uses Harmless := by
  induction n with
  | zero => trivial
  | succ n ih =>
      refine (uses_effect rfl).bind fun reply => ?_
      cases reply with
      | error err =>
          exact (uses_effect rfl).bind fun _ => (uses_effect rfl).bind fun _ =>
            (uses_effect rfl).bind fun _ => (uses_effect rfl).bind fun _ => ih
      | ok _ => trivial

/-- Neither is opening the socket. -/
theorem uses_openSocket (settings : Settings) (fuel : Nat) :
    (openSocket settings fuel).Uses Harmless := by
  refine (uses_effect rfl).bind fun reply => ?_
  cases reply with
  | error err => trivial
  | ok _ =>
      exact (uses_effect rfl).bind fun _ => (uses_effect rfl).bind fun _ =>
        uses_connectLoop settings fuel

/-- The handshake is one of its own, which neither sends nor reads frames. -/
theorem uses_secure (settings : Settings) (run : Bool) :
    (secure settings run).Uses Harmless := by
  refine (uses_effect rfl).bind fun _ => (uses_emitIf _ _ _).bind fun _ =>
    (uses_effect rfl).bind fun reply => ?_
  cases reply with
  | error err => trivial
  | ok _ =>
      refine (uses_effect rfl).bind fun _ => (uses_effect rfl).bind fun reply => ?_
      cases reply with
      | error err => exact (uses_effect rfl).bind fun _ => (uses_effect rfl).bind fun _ => trivial
      | ok _ =>
          refine (uses_effect rfl).bind fun _ => (uses_emitIf _ _ _).bind fun _ =>
            (uses_effect rfl).bind fun fp => ?_
          cases fp with
          | none => trivial
          | some fp =>
              simp only
              split
              case isTrue =>
                split
                case isTrue =>
                  exact (uses_effect rfl).bind fun _ => (uses_effect rfl).bind fun _ =>
                    (uses_effect rfl).bind fun _ => trivial
                case isFalse => exact (uses_effect rfl).bind fun _ => uses_effect rfl
              case isFalse => exact (uses_effect rfl).bind fun _ => uses_effect rfl

/-- The wait is none either. -/
theorem uses_settle (settings : Settings) : (settle settings).Uses Harmless := by
  have hrest : (Prog.bind (log (lit "Waiting " ++ settings.sleep.tostring ++
      lit " seconds before starting the announcer...")) fun _ =>
        Prog.bind (sleep settings.sleep) fun _ => keepalive).Uses Harmless :=
    (uses_effect rfl).bind fun _ => (uses_effect rfl).bind fun _ => uses_effect rfl
  refine (uses_effect rfl).bind fun cipher => ?_
  cases cipher with
  | none => exact hrest
  | some cipher =>
      exact (uses_effect rfl).bind fun _ => (uses_effect rfl).bind fun _ =>
        (uses_effect rfl).bind fun _ => (uses_effect rfl).bind fun _ => hrest

/-! ## The session id -/

/-- A line that was read has no `\n` in it. -/
def lineReply : (e : Eff) → Reply e → Prop
  | .receive, .ok buf => lf ∉ buf
  | _, _ => True

/-- What a read returns is one line, and has no line feed in it. -/
theorem lineReply_of_overTls {settings : Settings} {texts : Texts} (w : Wire) (e : Eff)
    (reply : Reply e) (w' : Wire) (h : OverTls settings texts w e reply w') :
    lineReply e reply := by
  cases e with
  | receive =>
      cases reply with
      | error err => trivial
      | ok buf => exact (received_ok h).1
  | _ => trivial

/-- So the line a login step decides on has none. -/
theorem yields_recvLoginFrom (n : Nat) :
    Yields lineReply (fun result => ∀ buf, result = .ok buf → lf ∉ buf) (recvLoginFrom n) := by
  induction n with
  | zero => exact nofun
  | succ n ih =>
      intro reply hreply
      cases reply with
      | error err =>
          cases err with
          | none => trivial
          | some err => exact nofun
      | ok buf =>
          simp only [Prog.ret_bind]
          split
          case h_1 =>
            intro buf' heq
            injection heq with heq
            rw [← heq]
            exact hreply
          case h_2 =>
            split
            case isTrue => exact (yields_true lineReply _).bind fun _ _ => ih
            case isFalse =>
              split
              case isTrue => exact nofun
              case isFalse => exact nofun

theorem yields_readLogin (statuskey : StatusKey) :
    Yields lineReply (fun buf => lf ∉ buf) (readLogin statuskey) := by
  refine (yields_recvLoginFrom maxLoginStatus).bind ?_
  rintro (⟨disp, msg⟩ | buf) hbuf
  · exact Yields.of_stops (stops_loginBail statuskey disp msg)
  · exact (yields_true lineReply _).bind fun _ _ => hbuf buf rfl

/-- **The session id cannot break a line.** -/
theorem yields_hubSid (run : Bool) : Yields lineReply (fun sid => lf ∉ sid) (hubSid run) := by
  refine (yields_readLogin _).bind fun buf hbuf => ?_
  split
  case isTrue =>
    refine (yields_true lineReply _).bind fun _ _ => (yields_true lineReply _).bind fun _ _ => ?_
    intro hsid
    exact hbuf (List.mem_of_mem_drop (List.mem_of_mem_take hsid))
  case isFalse =>
    exact (yields_true lineReply _).bind fun _ _ => Yields.of_stops (stops_close _)

end LuadchAnnouncer.Core.NetTls
