import LuadchAnnouncer.Core.NetEffects

/-!
# The GUI and its worker process

The handlers of `frontends/gui/Announcer.wx.lua` that start, watch and stop the
spawned worker.  They are programs over what they do to the window, to the
worker process and to the status file; the other process may do anything in
between.

A read of the status file carries the use that is made of it, which decides
nothing here but lets a statement speak of that read.  The file is a Lua chunk:
to load it may raise, and what stands under a key may be any value, while the
handlers go on as if it were a text.  They are not guarded, so that an error in
one of them ends it where it stands.
-/

namespace LuadchAnnouncer.Frontends.Gui

open LuadchAnnouncer.Verified.Bytes
open LuadchAnnouncer.Verified.LuaValue
open LuadchAnnouncer.Verified.Program
open LuadchAnnouncer.Core.Net (StatusKey)
open LuadchAnnouncer.Core.NetEffects (failing)

/-! ## Effects -/

inductive Led where
  | connected
  | reconnecting
  | disconnected
  deriving DecidableEq, Repr

inductive Color where
  | green
  | orange
  | red
  | white
  | yellow
  deriving DecidableEq, Repr

/-- What a status is read for: `:find( "Fail" )` and `== ""` of `start_process`,
to be shown there, and `:find( "Fail" )` and `== "Login complete."` of the
timer. -/
inductive Purpose where
  | fail
  | empty
  | shown
  | polled
  | complete
  deriving DecidableEq, Repr

inductive GuiEff where
  /-- `validate.cert( true )` -/
  | validateCert
  /-- `validate.connect( true )` -/
  | validateConnect
  /-- `control_hubname:GetValue()` -/
  | hubname
  /-- `control_hubaddress:GetValue()` -/
  | hubaddress
  /-- `control_hubport:GetValue()` -/
  | hubport
  /-- `tables[ "hub" ][ "addr" ]` -/
  | addr
  /-- `tables[ "hub" ][ "port" ]` -/
  | port
  /-- `wx.wxGetCwd()` -/
  | getCwd
  /-- `wx.wxExecute( cmd, .. )` -/
  | execute (cmd : Str)
  /-- `wx.wxProcess.Exists( pid )` -/
  | exists (pid : Nat)
  /-- `wx.wxProcess.Kill( pid, .. )` -/
  | kill (pid : Nat)
  /-- the variable `pid`, read -/
  | getPid
  /-- the variable `pid`, assigned to -/
  | setPid (pid : Nat)
  | milliSleep (ms : Nat)
  /-- `get_status( files[ "core" ][ "status" ], key )` -/
  | getStatus (key : StatusKey) (purpose : Purpose)
  /-- `reset_status( files[ "core" ][ "status" ] )` -/
  | resetStatus
  /-- `start_client:Enable( b )` -/
  | enableStart (b : Bool)
  /-- `stop_client:Enable( b )` -/
  | enableStop (b : Bool)
  /-- `protect_hub_values( .. )` and `unprotect_hub_values( .. )` -/
  | protect (b : Bool)
  /-- `timer` and `conn_status_timer` started or stopped -/
  | timers (b : Bool)
  /-- `conn_status_timer:Stop()` -/
  | stopPolling
  /-- `set_conn_led( state )` -/
  | setConnLed (state : Led)
  /-- `sb:SetStatusText( text, 0 )` -/
  | statusText (text : Str)
  /-- `log_broadcast( log_window, msg, color )` -/
  | broadcast (msg : Str) (color : Option Color)
  /-- the same of a table, which is gone through line by line -/
  | broadcastTable (entries : List (LuaVal × LuaVal))
  /-- `log_broadcast( log_window, "LOGIN SUCCESSFUL", "YELLOW" )` -/
  | loginSuccessful
  /-- `log_broadcast_header( log_window, msg )` -/
  | header (msg : Str)
  /-- `log_broadcast_footer( log_window, msg )` -/
  | footer (msg : Str)
  /-- `event:Skip()` of the close event, once the children are deleted -/
  | skip

/-- What an effect is answered.  A read of the status file either raises what
its chunk raises, or finds no table there, or the value under the key. -/
abbrev GuiReply : GuiEff → Type
  | .validateCert => Bool
  | .validateConnect => Bool
  | .hubname => Str
  | .hubaddress => Str
  | .hubport => Str
  | .addr => Option Str
  | .port => Option Str
  | .getCwd => Str
  | .execute _ => Nat
  | .exists _ => Bool
  | .kill _ => Nat
  | .getPid => Nat
  | .getStatus _ _ => Except LuaError (Option LuaVal)
  | .broadcastTable _ => Except LuaError Unit
  | _ => Unit

/-- A piece of an event handler. -/
abbrev GuiAct (α : Type) := Prog GuiEff GuiReply LuaError Unit α

def validateCert : GuiAct Bool := Prog.effect GuiEff.validateCert

def validateConnect : GuiAct Bool := Prog.effect GuiEff.validateConnect

def hubname : GuiAct Str := Prog.effect GuiEff.hubname

def hubaddress : GuiAct Str := Prog.effect GuiEff.hubaddress

def hubport : GuiAct Str := Prog.effect GuiEff.hubport

def addr : GuiAct (Option Str) := Prog.effect GuiEff.addr

def port : GuiAct (Option Str) := Prog.effect GuiEff.port

def getCwd : GuiAct Str := Prog.effect GuiEff.getCwd

def execute (cmd : Str) : GuiAct Nat := Prog.effect (GuiEff.execute cmd)

def processExists (pid : Nat) : GuiAct Bool := Prog.effect (GuiEff.exists pid)

def kill (pid : Nat) : GuiAct Nat := Prog.effect (GuiEff.kill pid)

def getPid : GuiAct Nat := Prog.effect GuiEff.getPid

/-- `tbl[ key ] or ""`, or `""` without a table. -/
def statusOf : Except LuaError (Option LuaVal) → Except LuaError LuaVal
  | .error err => .error err
  | .ok none => .ok (.str [])
  | .ok (some value) => .ok (if value.truthy then value else .str [])

theorem statusOf_text (text : Str) : statusOf (.ok (some (.str text))) = .ok (.str text) := rfl

def getStatus (key : StatusKey) (purpose : Purpose) : GuiAct LuaVal := do
  let reply ← Prog.effect (GuiEff.getStatus key purpose)
  Prog.ofExcept (statusOf reply)

/-- `value:find( "Fail" )`, which takes a text: a table has no such method, and
the others have no methods at all. -/
def findFail : LuaVal → Except LuaError Bool
  | .str text => .ok (failing text)
  | .table _ => .error .call
  | _ => .error .index

/-- `value == text` -/
def isText (text : Str) : LuaVal → Bool
  | .str s => s == text
  | _ => false

theorem isText_iff {text : Str} {value : LuaVal} :
    isText text value = true ↔ value = .str text := by
  cases value with
  | str s => simp [isText]
  | _ => simp [isText]

def statusFails (key : StatusKey) (purpose : Purpose) : GuiAct Bool := do
  let value ← getStatus key purpose
  Prog.ofExcept (findFail value)

def statusIs (key : StatusKey) (purpose : Purpose) (text : Str) : GuiAct Bool := do
  let value ← getStatus key purpose
  return isText text value

def act (e : GuiEff) : GuiAct (GuiReply e) := Prog.effect e

def setPid (pid : Nat) : GuiAct Unit := act (.setPid pid)

def milliSleep (ms : Nat) : GuiAct Unit := act (.milliSleep ms)

def resetStatus : GuiAct Unit := act .resetStatus

def enableStart (b : Bool) : GuiAct Unit := act (.enableStart b)

def enableStop (b : Bool) : GuiAct Unit := act (.enableStop b)

def protect (b : Bool) : GuiAct Unit := act (.protect b)

def setConnLed (state : Led) : GuiAct Unit := act (.setConnLed state)

def statusText (text : Str) : GuiAct Unit := act (.statusText text)

def broadcast (msg : Str) (color : Option Color) : GuiAct Unit := act (.broadcast msg color)

/-- `log_broadcast( log_window, value, color )` of any value -/
def broadcastValue (value : LuaVal) (color : Color) : GuiAct Unit := do
  match value with
  | .table entries =>
      let reply ← act (.broadcastTable entries)
      Prog.ofExcept reply
  | value =>
      let text ← Prog.ofExcept value.concatText
      broadcast text (some color)

/-- `log_broadcast( log_window, get_status( .., key ), color )` -/
def broadcastStatus (key : StatusKey) (color : Color) : GuiAct Unit := do
  let value ← getStatus key .shown
  broadcastValue value color

/-! ## `kill_process`, and the timers -/

def appName : Str := lit "Luadch Announcer Client"

/-- `app_name .. " " .. _VERSION .. " ready."` -/
def ready : Str := appName ++ lit " " ++ Core.Net.version ++ lit " ready."

/-- `kill_process( pid, log_window )`.  The `pid` it sets to 0 at its end is its
own parameter. -/
def killProcess (pid : Nat) : GuiAct Unit := do
  if 0 < pid then
    if ← processExists pid then
      let ret ← kill pid
      if ret ≠ 0 then
        broadcast (lit "Unable to kill process: " ++ LuaNum.natText pid ++ lit "  |  code: " ++
          LuaNum.natText ret) (some .red)
        broadcast ready (some .orange)
      else
        broadcast (lit "Announcer stopped. (Killed process: " ++ LuaNum.natText pid ++ lit ")")
          (some .white)
        broadcast (lit "LOGOUT SUCCESSFUL") (some .yellow)
        broadcast ready (some .orange)
  resetStatus

def startTimer : GuiAct Unit := do
  let _ ← act (.timers true)
  broadcast (lit "Started timer: calc logfiles size, every " ++ LuaNum.natText 60000 ++
    lit " ms") none

def stopTimer : GuiAct Unit := do
  let _ ← act (.timers false)
  broadcast (lit "Stopped timer: calc logfiles size") none

/-! ## `conn_status_timer` -/

/-- `"adcs://" .. hubaddr .. ":" .. hubport` -/
def hubUrl (hubaddr hubport : Option Str) : Str :=
  lit "adcs://" ++ hubaddr.getD (lit "unknown") ++ lit ":" ++ hubport.getD (lit "unknown")

/-- The handler of `conn_status_timer`. -/
def onConnStatus : GuiAct Unit := do
  let hubaddr ← addr
  let hubport ← port
  if ← statusFails .hubconnect .polled then
    statusText (lit "Reconnecting to: " ++ hubUrl hubaddr hubport ++ lit " ...")
    setConnLed .reconnecting
  else
    if ← statusIs .hublogin .complete (lit "Login complete.") then
      statusText (lit "Connected to: " ++ hubUrl hubaddr hubport)
      setConnLed .connected

/-! ## `start_process` -/

/-- `%s` -/
def isSpace (c : UInt8) : Bool := c == 32 || (9 ≤ c && c ≤ 13)

def trim (s : Str) : Str := ((s.dropWhile isSpace).reverse.dropWhile isSpace).reverse

/-- `string.gsub( cwd, "\\+$", "" )` -/
def stripBackslashes (cwd : Str) : Str := (cwd.reverse.dropWhile (· == 92)).reverse

/-- `cmd` -/
def workerCommand (cwd : Str) : Str :=
  lit "\"" ++ cwd ++ lit "\\lua.exe\" \"" ++ cwd ++
    lit "\\frontends\\gui\\spawned_worker.lua\""

/-- `get_status( .., key ):find( "Fail" ) or get_status( .., key ) == ""` -/
def statusLost (key : StatusKey) : GuiAct Bool := do
  if ← statusFails key .fail then return true
  else statusIs key .empty []

/-- The first of the status checks. -/
def checkHubconnect : GuiAct Bool := do
  if ← statusFails .hubconnect .fail then
    broadcastStatus .hubconnect .red
    killProcess (← getPid)
    return false
  else
    if ← statusIs .hubconnect .empty [] then
      let hubaddr ← hubaddress
      let hubport ← hubport
      broadcast (lit "Fail: failed to connect to hub: 'adcs://" ++ trim hubaddr ++ lit ":" ++
        trim hubport ++ lit "'") (some .red)
      killProcess (← getPid)
      return false
    else
      broadcastStatus .hubconnect .green
      return true

/-- One of the checks behind it: whether it kills the worker when the status
is lost, and the lines it adds to the status it shows. -/
structure Check where
  key : StatusKey
  kills : Bool := false
  onLost : Option Str := none
  onPassed : Option Str := none

def hubhandshake : Check := { key := .hubhandshake, kills := true }

def hubkeyp : Check := { key := .hubkeyp, onPassed := some (lit "Sending support...") }

def support : Check := { key := .support }

def hubsupport : Check := { key := .hubsupport }

def hubosnr : Check := { key := .hubosnr }

def hubsid : Check where
  key := .hubsid
  onLost := some (lit "No SID provided, closing...")
  onPassed := some (lit "Waiting for hub INF...")

def hubinf : Check := { key := .hubinf, onLost := some (lit "No INF provided, closing...") }

def owninf : Check := { key := .owninf }

def passwd : Check := { key := .passwd, onLost := some (lit "No password request, closing...") }

def hubsalt : Check := { key := .hubsalt }

/-- The checks between `hubconnect` and `hublogin`, in their order. -/
def checks : List Check :=
  [hubhandshake, hubkeyp, support, hubsupport, hubosnr, hubsid, hubinf, owninf, passwd, hubsalt]

def broadcastSome (msg : Option Str) (color : Color) : GuiAct Unit :=
  match msg with
  | none => pure ()
  | some msg => broadcast msg (some color)

/-- `if run then .. end`, with the variable `run`. -/
def runCheck (run : Bool) (check : Check) : GuiAct Bool := do
  if run then
    if ← statusLost check.key then
      broadcastStatus check.key .red
      if check.kills then killProcess (← getPid)
      broadcastSome check.onLost .red
      return false
    else
      broadcastStatus check.key .green
      broadcastSome check.onPassed .green
      milliSleep 100
      return true
  else return false

/-- The last check.  It does not change `run`. -/
def checkHublogin : GuiAct Unit := do
  if ← statusLost .hublogin then
    broadcastStatus .hublogin .red
  else
    enableStop true
    let _ ← act .loginSuccessful
    let cipher ← getStatus .cipher .shown
    let cipher ← Prog.ofExcept cipher.concatText
    broadcast (lit "Cipher: " ++ cipher) (some .yellow)

/-- What is left of `start_process` when the worker has been started. -/
def followLogin : GuiAct Unit := do
  let run ← checkHubconnect
  let run ← checks.foldlM runCheck run
  if run then checkHublogin
  else
    stopTimer
    enableStop false
    protect false
    setPid 0
    killProcess (← getPid)
    enableStart true

def startProcess : GuiAct Unit := do
  let cwd ← getCwd
  let cwd := stripBackslashes cwd
  if cwd = [] then
    broadcast (lit "Fail: wxGetCwd() returned empty; cannot spawn announcer.") (some .red)
  else
    let pid ← execute (workerCommand cwd)
    setPid pid
    broadcast (lit "Announcer started. (process id: " ++ LuaNum.natText pid ++ lit ")")
      (some .white)
    broadcast (lit "Try to connect to hub...") (some .green)
    milliSleep 3000
    followLogin

/-! ## The other handlers -/

/-- The handler of the button CONNECT. -/
def onConnect : GuiAct Unit := do
  if ← validateCert then pure ()
  else
    if ← validateConnect then pure ()
    else
      let name ← hubname
      let _ ← act (.header (lit "Connect to Hub: " ++ name))
      enableStart false
      protect true
      startTimer
      startProcess
      let name ← hubname
      let _ ← act (.footer (lit "Connect to Hub: " ++ name))
      let hubaddr ← addr
      let hubport ← port
      statusText (lit "Connected to: " ++ hubUrl hubaddr hubport)

/-- The handler of the button DISCONNECT. -/
def onDisconnect : GuiAct Unit := do
  let name ← hubname
  let _ ← act (.header (lit "Disconnect from Hub: " ++ name))
  enableStop false
  protect false
  stopTimer
  killProcess (← getPid)
  enableStart true
  let name ← hubname
  let _ ← act (.footer (lit "Disconnect from Hub: " ++ name))
  let hubaddr ← addr
  let hubport ← port
  statusText (lit "Disconnected from: " ++ hubUrl hubaddr hubport)
  setConnLed .disconnected

/-- The handler of `wx.wxEVT_END_PROCESS`, after the streams are drained. -/
def onEndProcess : GuiAct Unit := do
  setPid 0
  let _ ← act .stopPolling
  setConnLed .disconnected

/-- What closing and destroying the window do about the worker. -/
def reap : GuiAct Unit := do
  let pid ← getPid
  if 0 < pid then
    if ← processExists pid then
      let _ ← kill pid
    setPid 0

/-- `HandleAppExit`, from where the user has had his say. -/
def onClose : GuiAct Unit := do
  reap
  let _ ← act .skip

/-- The handler of `wx.wxEVT_DESTROY`. -/
def onDestroy : GuiAct Unit := do
  resetStatus
  reap

/-- The events the GUI has a handler for, as far as the worker is concerned.
`ended pid` is the notification that the process has come to its end. -/
inductive Event where
  | connect
  | disconnect
  | connStatus
  | ended (pid : Nat)
  | close
  | destroy
  deriving DecidableEq, Repr

def handler : Event → GuiAct Unit
  | .connect => onConnect
  | .disconnect => onDisconnect
  | .connStatus => onConnStatus
  | .ended _ => onEndProcess
  | .close => onClose
  | .destroy => onDestroy

end LuadchAnnouncer.Frontends.Gui
