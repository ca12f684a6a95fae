import LuadchAnnouncer.Adclib
import LuadchAnnouncer.Core.Announce
import LuadchAnnouncer.Verified.Program

/-!
# `core/net.lua`

`net.loop` connects, logs in and announces, all in one function with about
twenty ways out.  It is modelled as a program over the effects it performs:
the calls into the socket, into `log`, `events` and `announce`, and the clock.
What the hub, the network and the file system do is the environment's choice.

The value of the function is what the program *exits* with: `true` stops the
frontend for good, `false` makes it reconnect.  A loop of the source runs on
fuel, and a program that *returns* has used its fuel up, so a statement about
every fuel is a statement about every moment of every run.

The calls of `log.event` and `events.emit` are taken to come back; what they
do to their files is modelled where those files are.
-/

namespace LuadchAnnouncer.Core.Net

open LuadchAnnouncer.Verified.Bytes
open LuadchAnnouncer.Verified.LuaValue
open LuadchAnnouncer.Verified.LuaPattern (Item literal digit capture matchAnchored)
open LuadchAnnouncer.Verified.Program
open LuadchAnnouncer.Adclib
open LuadchAnnouncer.Core.Announce (Rule)

/-! ## Configuration -/

/-- The table `hub`. -/
structure Hub where
  addr : Str
  keyp : Str
  name : Str
  nick : Str
  pass : Str
  port : Str

/-- The table `cfg`, as far as this file reads it.  The values that pass
through `tonumber` may be anything. -/
structure Cfg where
  announceinterval : LuaVal
  botdesc : Str
  botshare : LuaVal
  botslots : LuaVal
  botupload : LuaVal
  sleeptime : LuaVal
  sockettimeout : LuaNum

/-- The table `id`. -/
structure Id where
  pid : Str
  cid : Str

/-- Everything `net.loop` finds in globals, and the hash `adclib` computes. -/
structure Settings where
  hub : Hub
  cfg : Cfg
  id : Id
  tiger : Str → Str → Str

/-- `tonumber( cfg.sleeptime ) or 10` -/
def Settings.sleep (settings : Settings) : LuaNum := settings.cfg.sleeptime.numberOr 10

/-- `( tonumber( cfg.botshare ) or 0 ) * 1024 * 1024` -/
def Settings.bshare (settings : Settings) : LuaNum :=
  ((settings.cfg.botshare.numberOr 0).scale 1024).scale 1024

/-- The keys of the status table. -/
inductive StatusKey where
  | hubconnect
  | hubhandshake
  | hubkeyp
  | support
  | hubsupport
  | hubosnr
  | hubsid
  | hubinf
  | owninf
  | passwd
  | hubsalt
  | hublogin
  | cipher
  deriving DecidableEq, Repr

/-! ## Frames -/

def bottag : Str := lit "Announcer"

/-- `_VERSION`, which `const.lua` sets over the one of Lua. -/
def version : Str := lit "1.0.0-rc4"

/-- The frames the client sends, by what is put into them.  `Frame.wire` is the text,
built as the source builds it. -/
inductive Frame where
  | hsup
  | inf (sid : Str)
  | hpas (pas : Str)
  | infCount (sid hubcount : Str)
  | bmsg (sid command category release : Str)
  | keepAlive (sid : Str)
  deriving DecidableEq, Repr

/-- `CLIENT_BINF` -/
def clientBinf (settings : Settings) (sid : Str) : Str :=
  lit "BINF " ++ sid ++
    lit " NI" ++ escape settings.hub.nick ++
    lit " DE" ++ escape settings.cfg.botdesc ++
    lit " AP" ++ escape bottag ++
    lit " VE" ++ escape version ++
    lit " PD" ++ settings.id.pid ++
    lit " ID" ++ settings.id.cid ++
    lit " SS" ++ settings.bshare.tostring ++
    lit " SL" ++ (settings.cfg.botslots.numberOr 0).tostring ++
    lit " US" ++ (settings.cfg.botupload.numberOr 0).tostring ++
    lit " HN" ++ lit "0" ++
    lit " HR" ++ lit "0" ++
    lit " HO" ++ lit "0" ++
    lit " AW" ++ lit "2" ++
    lit " SU" ++ lit "OSNR,ADC0,ADCS,TCP4,UDP4" ++
    lit " I40.0.0.0\n"

/-- `CLIENT_KEEPING_ALIVE` -/
def clientKeepingAlive (sid : Str) : Str :=
  lit "BINF " ++ sid ++ lit " AP" ++ escape bottag ++ lit " VE" ++ escape version ++ lit "\n"

/-- The bytes given to `client:send`. -/
def Frame.wire (settings : Settings) : Frame → Str
  | .hsup => lit "HSUP ADBASE ADTIGR ADOSNR ADKEYP ADADCS ADADC0\n"
  | .inf sid => clientBinf settings sid
  | .hpas pas => lit "HPAS " ++ pas ++ lit "\n"
  | .infCount sid hubcount => lit "BINF " ++ sid ++ lit " " ++ hubcount ++ lit "\n"
  | .bmsg sid command category release =>
      lit "BMSG " ++ sid ++ lit " " ++
        escape (command ++ lit " " ++ category ++ lit " " ++ release) ++ lit "\n"
  | .keepAlive sid => clientKeepingAlive sid

/-! ## Effects -/

inductive Eff where
  /-- `log.event( buf )` -/
  | event (buf : Str)
  /-- `events.emit( "status", key, value )` -/
  | status (key : StatusKey) (value : Str)
  /-- `socket.tcp( )` -/
  | tcp
  | settimeout (seconds : LuaNum)
  | connect
  /-- `socket.sleep( seconds )` -/
  | sleep (seconds : LuaNum)
  /-- `ssl.wrap( client, sslctx )` -/
  | wrap
  | dohandshake
  /-- the keyprint of `client:getpeercertificate( )`: base32 of the SHA-256
  digest, without padding -/
  | fingerprint
  | send (frame : Frame)
  /-- `client:receive( "*l" )` -/
  | receive
  | close
  /-- `client:info( )`, down to the field `cipher` -/
  | info
  /-- the guarded `client:setoption( "keepalive", true )` -/
  | keepalive
  /-- `socket.gettime( )` -/
  | gettime
  /-- `announce.update( )`, with the pairs of `found` in the order they are
  visited -/
  | update
  /-- `log.release( name )` -/
  | release (name : Str)

/-- The reply to an effect; a text in place of a result is the second value
of a socket call that failed.  `luasec` has errors without a text, and what the
callers test is the text: a `send` that fails so counts as done, and a
`receive` leaves them with two `nil`s. -/
abbrev Reply : Eff → Type
  | .tcp => Except Str Unit
  | .connect => Except Str Unit
  | .wrap => Except Str Unit
  | .dohandshake => Except Str Unit
  | .fingerprint => Option Str
  | .send _ => Except Str Unit
  | .receive => Except (Option Str) Str
  | .info => Option Str
  | .gettime => Rat
  | .update => Except LuaError (List (Str × Rule))
  | _ => Unit

/-- A piece of `net.loop`. -/
abbrev Act (α : Type) := Prog Eff Reply LuaError Bool α

def log (buf : Str) : Act Unit := Prog.effect (Eff.event buf)

def emit (key : StatusKey) (value : Str) : Act Unit := Prog.effect (Eff.status key value)

def tcp : Act (Except Str Unit) := Prog.effect Eff.tcp

def settimeout (seconds : LuaNum) : Act Unit := Prog.effect (Eff.settimeout seconds)

def connect : Act (Except Str Unit) := Prog.effect Eff.connect

def sleep (seconds : LuaNum) : Act Unit := Prog.effect (Eff.sleep seconds)

def wrap : Act (Except Str Unit) := Prog.effect Eff.wrap

def dohandshake : Act (Except Str Unit) := Prog.effect Eff.dohandshake

def fingerprint : Act (Option Str) := Prog.effect Eff.fingerprint

def send (frame : Frame) : Act (Except Str Unit) := Prog.effect (Eff.send frame)

def receive : Act (Except (Option Str) Str) := Prog.effect Eff.receive

def close : Act Unit := Prog.effect Eff.close

def info : Act (Option Str) := Prog.effect Eff.info

def keepalive : Act Unit := Prog.effect Eff.keepalive

def gettime : Act Rat := Prog.effect Eff.gettime

def update : Act (Except LuaError (List (Str × Rule))) := Prog.effect Eff.update

def logRelease (name : Str) : Act Unit := Prog.effect (Eff.release name)

/-- `if run then events.emit( .. ) end` -/
def emitIf (run : Bool) (key : StatusKey) (value : Str) : Act Unit :=
  if run then emit key value else pure ()

/-- `return b` from `net.loop`. -/
def leave {α : Type} (b : Bool) : Act α := .exit b

def ruler : Str := List.replicate 79 45

/-- The two lines that trace a frame. -/
def logFrame (text : Str) : Act Unit := do
  log ruler
  log text

/-! ## `recv_login` -/

/-- What a login read has come to when it yields no frame: the session is given up for
now, for good, or with an error. -/
inductive Disp where
  | retry
  | terminal
  | error
  deriving DecidableEq, Repr

/-- `"^ISTA (%d%d%d)"` -/
def istaPattern : List Item :=
  literal ['I', 'S', 'T', 'A', ' '] ++
    [.openCapture, .one digit, .one digit, .one digit, .closeCapture]

/-- The code of a hub status frame. -/
def istaCode (buf : Str) : Option Str := capture (matchAnchored istaPattern buf)

/-- `sev == "0" or sev == "1"` -/
def informational (code : Str) : Bool := code.take 1 == lit "0" || code.take 1 == lit "1"

/-- `RETRY_ISTA[ code ]` -/
def retryIsta (code : Str) : Bool := code == lit "211" || code == lit "222" || code == lit "224"

/-- `MAX_LOGIN_STATUS` -/
def maxLoginStatus : Nat := 8

/-- The passes of the loop in `recv_login` that are left. -/
def recvLoginFrom : Nat → Act (Except (Disp × Str) Str)
  | 0 => return .error (.retry, lit "too many hub status frames")
  | n + 1 => do
      match ← receive with
      | .error (some err) => return .error (.error, err)
      | .error none => .raise .index
      | .ok buf =>
          match istaCode buf with
          | none => return .ok buf
          | some code =>
              if informational code then
                log (lit "Hub status (info): " ++ buf)
                recvLoginFrom n
              else if retryIsta code then return .error (.retry, buf)
              else return .error (.terminal, buf)

def recvLogin : Act (Except (Disp × Str) Str) := recvLoginFrom maxLoginStatus

/-- `login_bail`, and the return of its value. -/
def loginBail {α : Type} (statuskey : StatusKey) (disp : Disp) (msg : Str) : Act α := do
  match disp with
  | .terminal =>
      log (lit "Login rejected (fatal): " ++ msg)
      emit statuskey (lit "Fail: login rejected by hub")
  | .retry =>
      log (lit "Login rejected, reconnecting: " ++ msg)
      emit statuskey (lit "Fail: " ++ msg ++ lit " | reconnecting...")
  | .error =>
      log (lit "Fail: " ++ msg)
      emit statuskey (lit "Fail: " ++ msg)
  close
  leave (disp == .terminal)

/-- A login read, with the bail-out behind it and the trace of the frame. -/
def readLogin (statuskey : StatusKey) : Act Str := do
  match ← recvLogin with
  | .error (disp, msg) => loginBail statuskey disp msg
  | .ok buf =>
      logFrame (lit "HUB 2 CLIENT: " ++ buf)
      return buf

/-! ## The stages of `net.loop` -/

/-- The passes of the connect loop that are left; `none` when they are used
up, else the value of `run`. -/
def connectLoop (settings : Settings) : Nat → Act (Option Bool)
  | 0 => return none
  | n + 1 => do
      match ← connect with
      | .ok () => return some true
      | .error err =>
          log (lit "Fail: " ++ err)
          log (lit "Try to reconnect in " ++ settings.sleep.tostring ++ lit " seconds...")
          emit .hubconnect (lit "Fail: " ++ err ++ lit " | Try to reconnect in " ++
            settings.sleep.tostring ++ lit " seconds...")
          sleep settings.sleep
          connectLoop settings n

/-- From `socket.tcp` to the connected socket. -/
def openSocket (settings : Settings) (fuel : Nat) : Act (Option Bool) := do
  match ← tcp with
  | .error _ => .raise .failed
  | .ok () =>
      log (lit "Try to connect to hub '" ++ settings.hub.name ++ lit "' via " ++
        settings.hub.nick ++ lit "@" ++ settings.hub.addr ++ lit ":" ++ settings.hub.port ++
        lit " with timeout " ++ settings.cfg.sockettimeout.tostring ++ lit " seconds...")
      settimeout settings.cfg.sockettimeout
      connectLoop settings fuel

/-- The SSL handshake and the keyprint check. -/
def secure (settings : Settings) (run : Bool) : Act Unit := do
  log (lit "Connected. Try a SSL handshake...")
  emitIf run .hubconnect (lit "Connected. Try a SSL handshake...")
  match ← wrap with
  | .error _ => .raise .failed
  | .ok () =>
      settimeout settings.cfg.sockettimeout
      match ← dohandshake with
      | .error err =>
          log (lit "Fail: " ++ err)
          emit .hubhandshake (lit "Fail: " ++ err)
          leave false
      | .ok () =>
          log (lit "Generate keyprint...")
          emitIf run .hubhandshake (lit "Generate keyprint...")
          match ← fingerprint with
          | none => .raise .index
          | some fingerprint =>
              if settings.hub.keyp ≠ [] then
                if fingerprint ≠ settings.hub.keyp then
                  log (lit "Fail: Keyprint mismatch")
                  emit .hubkeyp (lit "Fail: Keyprint mismatch")
                  close
                  leave true
                else
                  log (lit "Connection with Keyprint verification...")
                  emit .hubkeyp (lit "Connection with Keyprint verification...")
              else
                log (lit "Connection without Keyprint verification...")
                emit .hubkeyp (lit "Connection without Keyprint verification...")

/-- Sending `HSUP`. -/
def sendSupport (run : Bool) : Act Unit := do
  log (lit "Connection established. Try now to login...")
  emitIf run .hubkeyp (lit "Connection established. Try now to login...")
  log (lit "Sending support...")
  match ← send .hsup with
  | .error err =>
      log (lit "Fail: " ++ err)
      emit .support (lit "Fail: " ++ err)
      leave false
  | .ok () =>
      logFrame (lit "CLIENT 2 HUB: HSUP ADBASE ADTIGR ADOSNR ADKEYP ADADCS ADADC0")
      log (lit "Waiting for hub support...")
      emitIf run .support (lit "Waiting for hub support...")

/-- The check of the hub's `SUP`. -/
def hubSupport (run : Bool) : Act Unit := do
  let buf ← readLogin .hubsupport
  log (lit "Check for OSNR support...")
  emitIf run .hubsupport (lit "Check for OSNR support...")
  if find buf (lit "ADOSNR") then
    log (lit "Hub has OSNR support, waiting for SID...")
    emitIf run .hubosnr (lit "Hub has OSNR support, waiting for SID...")
  else
    log (lit "Fail: No OSNR support, closing...")
    emit .hubosnr (lit "Fail: No OSNR support, closing...")
    close
    leave true

/-- The session id the hub provides. -/
def hubSid (run : Bool) : Act Str := do
  let buf ← readLogin .hubsid
  if find buf (lit "ISID") then
    let sid := (buf.drop 5).take 4
    log (lit "Provided SID: " ++ sid)
    emitIf run .hubsid (lit "Provided SID: " ++ sid)
    return sid
  else
    log (lit "No SID provided, closing...")
    close
    leave true

/-- The hub's `INF`, answered with the login `BINF`. -/
def hubInf (settings : Settings) (run : Bool) (sid : Str) : Act Unit := do
  log (lit "Waiting for hub INF...")
  let buf ← readLogin .hubinf
  if find buf (lit "IINF") then
    log (lit "Hub INF provided, try to send own INF...")
    emitIf run .hubinf (lit "Hub INF provided, try to send own INF...")
    match ← send (.inf sid) with
    | .error err =>
        log (lit "Fail: " ++ err)
        emit .owninf (lit "Fail: " ++ err)
        leave false
    | .ok () =>
        logFrame (lit "CLIENT 2 HUB: " ++ (Frame.inf sid).wire settings)
        log (lit "Own INF sended, waiting for password request...")
        emitIf run .owninf (lit "Own INF sended, waiting for password request...")
  else
    log (lit "No INF provided, closing...")
    close
    leave true

/-- `[A-Z2-7]` -/
def base32Digit (c : UInt8) : Bool := (65 ≤ c && c ≤ 90) || (50 ≤ c && c ≤ 55)

/-- `buf:sub( 6, -1 ):match( "^([A-Z2-7]+)" )` -/
def saltOf (buf : Str) : Option Str :=
  capture (matchAnchored [.openCapture, .plus base32Digit, .closeCapture] (buf.drop 5))

/-- The password request, answered with `HPAS`. -/
def password (settings : Settings) (run : Bool) : Act Unit := do
  let buf ← readLogin .passwd
  if find buf (lit "GPA") then
    log (lit "Salt provided, try to send password...")
    emitIf run .passwd (lit "Salt provided, try to send password...")
    let pas ← Prog.ofExcept (hashPas settings.tiger settings.hub.pass (saltOf buf))
    match ← send (.hpas pas) with
    | .error err =>
        log (lit "Fail: " ++ err)
        emit .hubsalt (lit "Fail: " ++ err)
        close
        leave false
    | .ok () =>
        logFrame (lit "CLIENT 2 HUB: HPAS " ++ pas)
        log (lit "Waiting for login...")
        emitIf run .hubsalt (lit "Waiting for login...")
  else
    log (lit "No password request, closing...")
    emit .passwd (lit "Fail: No password request, closing...")
    close
    leave true

/-- `HO1` for a user with operator rights, else `HR1`. -/
def hubCount (buf : Str) : Str :=
  if find buf (lit "CT4") || find buf (lit "CT8") || find buf (lit "CT16") ||
      find buf (lit "OP1") then lit "HO1"
  else lit "HR1"

/-- The reply to the password, answered with the third `BINF`. -/
def loginReply (run : Bool) (sid : Str) : Act Unit := do
  let buf ← readLogin .hublogin
  if find buf (lit "BINF") then
    match ← send (.infCount sid (hubCount buf)) with
    | .error err =>
        log (lit "Fail: " ++ err)
        close
        leave false
    | .ok () =>
        logFrame (lit "CLIENT 2 HUB: BINF " ++ sid ++ lit " " ++ hubCount buf)
        log (lit "Login complete.")
        emitIf run .hublogin (lit "Login complete.")
  else
    log (lit "Login failed. Last hub message: " ++ buf)
    emit .hublogin (lit "Fail: Login failed. Last hub message: " ++ buf)
    close
    leave true

/-- The login, from the first read to the main loop; its value is the SID. -/
def login (settings : Settings) (run : Bool) : Act Str := do
  hubSupport run
  let sid ← hubSid run
  hubInf settings run sid
  password settings run
  loginReply run sid
  return sid

/-- What stands between the login and the main loop. -/
def settle (settings : Settings) : Act Unit := do
  match ← info with
  | none => pure ()
  | some cipher =>
      log (lit "=============================================")
      log (lit "   Cipher: " ++ cipher)
      log (lit "=============================================")
      emit .cipher cipher
  log (lit "Waiting " ++ settings.sleep.tostring ++ lit " seconds before starting the announcer...")
  sleep settings.sleep
  keepalive

/-! ## The main loop -/

/-- `command`, with the alibi nick behind it where the rule asks for that. -/
def commandOf (cfg : Rule) : Except LuaError LuaVal :=
  if cfg.alibicheck.truthy then do
    let command ← cfg.command.concatText
    let alibinick ← cfg.alibinick.concatText
    return .str (command ++ lit " " ++ alibinick)
  else .ok cfg.command

/-- The body of the loop over `found`, with the counter `c`. -/
def announceOne (sid : Str) (c : Nat) (entry : Str × Rule) : Act Nat := do
  let (release, cfg) := entry
  let command ← Prog.ofExcept (commandOf cfg)
  match cfg.category, command with
  | .str category, .str command =>
      match ← send (.bmsg sid command category release) with
      | .error err =>
          log (lit "Fail: " ++ err)
          leave false
      | .ok () =>
          logRelease release
          return c + 1
  | _, _ =>
      log (lit "Your rules.lua is broken. No valid category/command given for release '" ++
        release ++ lit "' given.")
      return c

/-- One scan with everything it found announced, and the keep-alive. -/
def announceRound (settings : Settings) (sid : Str) : Act Unit := do
  settimeout settings.cfg.sockettimeout
  let found ← update
  let found ← Prog.ofExcept found
  log (lit "Start announcing...")
  let c ← found.foldlM (announceOne sid) 0
  log (lit "...finished. Announced " ++ LuaNum.natText c ++ lit " new releases.")
  match ← send (.keepAlive sid) with
  | .error err =>
      log (lit "Fail: " ++ err)
      leave false
  | .ok () => pure ()

/-- The errors an idle read may have. -/
def idleError (err : Str) : Bool :=
  err == lit "wantread" || err == lit "wantwrite" || err == lit "timeout"

/-- The liveness poll. -/
def poll : Act Unit := do
  settimeout (.int 5)
  match ← receive with
  | .ok _ => pure ()
  | .error none => pure ()
  | .error (some err) =>
      if idleError err then pure ()
      else
        log (lit "Fail: hub connection lost (" ++ err ++ lit ")")
        emit .hubconnect (lit "Fail: hub connection lost (" ++ err ++ lit ")")
        leave false

/-- The body of the main loop, with the variable `next_announce`. -/
def mainBody (settings : Settings) (sid : Str) (nextAnnounce : LuaNum) : Act LuaNum := do
  let now ← gettime
  if nextAnnounce.le (.flt now) then
    announceRound settings sid
    let now ← gettime
    poll
    return (settings.cfg.announceinterval.numberOr 300).plus now
  else
    poll
    return nextAnnounce

/-- `net.loop( )`, with fuel for the passes of its two loops. -/
def loop (settings : Settings) (fuel : Nat) : Act Unit := do
  match ← openSocket settings fuel with
  | none => pure ()
  | some run =>
      secure settings run
      sendSupport run
      let sid ← login settings run
      settle settings
      let _ ← Prog.iterate (mainBody settings sid) fuel (.int 0)

end LuadchAnnouncer.Core.Net
