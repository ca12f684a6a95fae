import LuadchAnnouncer.Core.Net

/-!
# What the stages of a session touch

Everything before the main loop of `net.loop` leaves the announced names
alone, and everything but the reply to the password writes nothing but
failures under the status key `hublogin`.  Both facts are read off the stages
once, here.
-/

namespace LuadchAnnouncer.Core.NetEffects

open LuadchAnnouncer.Verified.Bytes
open LuadchAnnouncer.Verified.LuaValue
open LuadchAnnouncer.Verified.Program
open LuadchAnnouncer.Core.Net

/-- `value:find( "Fail" )` -/
def failing (value : Str) : Bool := find value (lit "Fail")

/-- The effects of announcing. -/
def announcing : Eff → Bool
  | .update => true
  | .release _ => true
  | .send (.bmsg _ _ _ _) => true
  | .send (.keepAlive _) => true
  | _ => false

/-- An effect that is no part of announcing: it is neither a scan, nor a `BMSG` or the
keep-alive behind them, nor the record of a release. -/
def Calm (e : Eff) : Prop := announcing e = false

/-- An effect that does not report the login as complete. -/
def Modest (e : Eff) : Prop := ∀ value, e = .status .hublogin value → failing value = true

/-- An effect that is no part of announcing, and does not report the login as complete. -/
def Quiet (e : Eff) : Prop := Calm e ∧ Modest e

/-- An effect that reports nothing and is no part of announcing. -/
def plain : Eff → Bool
  | .status _ _ => false
  | e => !announcing e

/-- What is appended to a text does not take its failure away. -/
theorem failing_append (value rest : Str) (h : failing value = true) :
    failing (value ++ rest) = true := by
  unfold failing at h ⊢
  rw [find_eq_true] at h ⊢
  exact h.trans (List.infix_append [] value rest)

/-- The texts the session puts under a key when a step has gone wrong. -/
theorem failing_fail (rest : Str) : failing (lit "Fail: " ++ rest) = true :=
  failing_append _ rest (by decide)

/-! ## The small actions -/

/-- An effect that reports nothing and is no part of announcing is quiet. -/
theorem quiet_of_plain {e : Eff} (h : plain e = true) : Quiet e := by
  unfold plain at h
  split at h
  case h_1 => cases h
  case h_2 hstatus =>
    have hcalm : announcing e = false := Bool.not_eq_true' _ |>.mp h
    refine ⟨hcalm, ?_⟩
    intro value he
    exact absurd he (hstatus _ _)

/-- Most effects are quiet by themselves, and only the reports have to be looked at. -/
theorem uses_plain {e : Eff} (h : plain e = true) :
    (Prog.effect e : Act (Reply e)).Uses Quiet :=
  Prog.uses_effect (quiet_of_plain h)

theorem quiet_status {key : StatusKey} {value : Str}
    (h : key = .hublogin → failing value = true) : Quiet (.status key value) := by
  refine ⟨rfl, ?_⟩
  rintro value' he
  cases he
  exact h rfl

theorem uses_log (buf : Str) : (log buf).Uses Quiet :=
  uses_plain rfl

theorem uses_emit {key : StatusKey} {value : Str}
    (h : key = .hublogin → failing value = true) : (emit key value).Uses Quiet :=
  Prog.uses_effect (quiet_status h)

theorem uses_emitIf {run : Bool} {key : StatusKey} {value : Str} (h : key ≠ .hublogin) :
    (emitIf run key value).Uses Quiet := by
  cases run with
  | true => exact uses_emit fun hkey => absurd hkey h
  | false => trivial

theorem uses_logFrame (text : Str) : (logFrame text).Uses Quiet :=
  (uses_log ruler).bind fun _ => uses_log text

theorem uses_close : close.Uses Quiet :=
  uses_plain rfl

theorem uses_sleep (seconds : LuaNum) : (sleep seconds).Uses Quiet :=
  uses_plain rfl

theorem uses_settimeout (seconds : LuaNum) : (settimeout seconds).Uses Quiet :=
  uses_plain rfl

theorem uses_receive : receive.Uses Quiet :=
  uses_plain rfl

theorem uses_gettime : gettime.Uses Quiet :=
  uses_plain rfl

theorem uses_send {frame : Frame} (h : announcing (.send frame) = false) :
    (send frame).Uses Quiet := by
  have hplain : plain (.send frame) = true := by simp [plain, h]
  exact uses_plain hplain

/-! ## Reading during the login -/

/-- Reading a line of the login is quiet, however many lines are skipped. -/
theorem uses_recvLoginFrom (n : Nat) : (recvLoginFrom n).Uses Quiet := by
  induction n with
  | zero => trivial
  | succ n ih =>
      refine uses_receive.bind ?_
      rintro ((_ | err) | buf)
      · trivial
      · trivial
      · simp only
        split
        case h_1 => trivial
        case h_2 =>
          split
          case isTrue => exact (uses_log _).bind fun _ => ih
          case isFalse =>
            split
            case isTrue => trivial
            case isFalse => trivial

/-- So is leaving the login: what it writes under any key is a failure. -/
theorem uses_loginBail {α : Type} (statuskey : StatusKey) (disp : Disp) (msg : Str) :
    (loginBail statuskey disp msg : Act α).Uses Quiet := by
  -- whatever the key, what is written under it is a failure
  have hclose : (Prog.bind close fun _ => (leave (disp == .terminal) : Act α)).Uses Quiet :=
    uses_close.bind fun _ => trivial
  cases disp with
  | retry =>
      refine (uses_log _).bind fun _ => (uses_emit fun _ => ?_).bind fun _ => hclose
      exact failing_append _ _ (failing_fail msg)
  | terminal =>
      refine (uses_log _).bind fun _ => (uses_emit fun _ => ?_).bind fun _ => hclose
      decide
  | error =>
      refine (uses_log _).bind fun _ => (uses_emit fun _ => ?_).bind fun _ => hclose
      exact failing_fail msg

theorem uses_readLogin (statuskey : StatusKey) : (readLogin statuskey).Uses Quiet := by
  refine (uses_recvLoginFrom maxLoginStatus).bind ?_
  rintro (⟨disp, msg⟩ | buf)
  · exact uses_loginBail statuskey disp msg
  · exact (uses_logFrame _).bind fun _ => trivial

/-! ## The stages -/

/-- Connecting is quiet, however often it is tried. -/
theorem uses_connectLoop (settings : Settings) (n : Nat) :
    (connectLoop settings n).Uses Quiet := by
  induction n with
  | zero => trivial
  | succ n ih =>
      refine (uses_plain rfl).bind ?_
      rintro (err | ⟨⟩)
      · exact (uses_log _).bind fun _ => (uses_log _).bind fun _ =>
          (uses_emit (by rintro ⟨⟩)).bind fun _ => (uses_sleep _).bind fun _ => ih
      · trivial

/-- So is opening the socket: there is nobody to announce to yet. -/
theorem uses_openSocket (settings : Settings) (fuel : Nat) :
    (openSocket settings fuel).Uses Quiet := by
  refine (uses_plain rfl).bind ?_
  rintro (err | ⟨⟩)
  · trivial
  · exact (uses_log _).bind fun _ => (uses_settimeout _).bind fun _ =>
      uses_connectLoop settings fuel

/-- Wrapping it and shaking hands sends no frame. -/
theorem uses_secure (settings : Settings) (run : Bool) : (secure settings run).Uses Quiet := by
  refine (uses_log _).bind fun _ => (uses_emitIf (by rintro ⟨⟩)).bind fun _ => ?_
  refine (uses_plain rfl).bind ?_
  rintro (err | ⟨⟩)
  · trivial
  refine (uses_settimeout _).bind fun _ => ?_
  refine (uses_plain rfl).bind ?_
  rintro (err | ⟨⟩)
  · exact (uses_log _).bind fun _ => (uses_emit (by rintro ⟨⟩)).bind fun _ => trivial
  refine (uses_log _).bind fun _ => (uses_emitIf (by rintro ⟨⟩)).bind fun _ => ?_
  refine (uses_plain rfl).bind ?_
  rintro (_ | fp)
  · trivial
  simp only
  split
  case isFalse => exact (uses_log _).bind fun _ => uses_emit (by rintro ⟨⟩)
  case isTrue =>
    split
    case isTrue =>
      exact (uses_log _).bind fun _ => (uses_emit (by rintro ⟨⟩)).bind fun _ =>
        uses_close.bind fun _ => trivial
    case isFalse => exact (uses_log _).bind fun _ => uses_emit (by rintro ⟨⟩)

/-- The first frame is one of the quiet ones: it has no SID, and announces nothing. -/
theorem uses_sendSupport (run : Bool) : (sendSupport run).Uses Quiet := by
  refine (uses_log _).bind fun _ => (uses_emitIf (by rintro ⟨⟩)).bind fun _ =>
    (uses_log _).bind fun _ => (uses_send rfl).bind ?_
  rintro (err | ⟨⟩)
  · exact (uses_log _).bind fun _ => (uses_emit (by rintro ⟨⟩)).bind fun _ => trivial
  · exact (uses_logFrame _).bind fun _ => (uses_log _).bind fun _ =>
      uses_emitIf (by rintro ⟨⟩)

/-- Reading the features of the hub is quiet. -/
theorem uses_hubSupport (run : Bool) : (hubSupport run).Uses Quiet := by
  refine (uses_readLogin _).bind fun buf => (uses_log _).bind fun _ =>
    (uses_emitIf (by rintro ⟨⟩)).bind fun _ => ?_
  split
  case isTrue => exact (uses_log _).bind fun _ => uses_emitIf (by rintro ⟨⟩)
  case isFalse =>
    exact (uses_log _).bind fun _ => (uses_emit (by rintro ⟨⟩)).bind fun _ =>
      uses_close.bind fun _ => trivial

theorem uses_hubSid (run : Bool) : (hubSid run).Uses Quiet := by
  refine (uses_readLogin _).bind fun buf => ?_
  split
  case isTrue =>
    exact (uses_log _).bind fun _ => (uses_emitIf (by rintro ⟨⟩)).bind fun _ => trivial
  case isFalse => exact (uses_log _).bind fun _ => uses_close.bind fun _ => trivial

/-- The description is quiet: it goes out before the first scan. -/
theorem uses_hubInf (settings : Settings) (run : Bool) (sid : Str) :
    (hubInf settings run sid).Uses Quiet := by
  refine (uses_log _).bind fun _ => (uses_readLogin _).bind fun buf => ?_
  split
  case isFalse => exact (uses_log _).bind fun _ => uses_close.bind fun _ => trivial
  case isTrue =>
    refine (uses_log _).bind fun _ => (uses_emitIf (by rintro ⟨⟩)).bind fun _ =>
      (uses_send rfl).bind ?_
    rintro (err | ⟨⟩)
    · exact (uses_log _).bind fun _ => (uses_emit (by rintro ⟨⟩)).bind fun _ => trivial
    · exact (uses_logFrame _).bind fun _ => (uses_log _).bind fun _ =>
        uses_emitIf (by rintro ⟨⟩)

/-- So is the answer to the password request. -/
theorem uses_password (settings : Settings) (run : Bool) :
    (password settings run).Uses Quiet := by
  refine (uses_readLogin _).bind fun buf => ?_
  split
  case isFalse =>
    exact (uses_log _).bind fun _ => (uses_emit (by rintro ⟨⟩)).bind fun _ =>
      uses_close.bind fun _ => trivial
  case isTrue =>
    refine (uses_log _).bind fun _ => (uses_emitIf (by rintro ⟨⟩)).bind fun _ =>
      (Prog.uses_ofExcept _ _).bind fun pas => (uses_send rfl).bind ?_
    rintro (err | ⟨⟩)
    · exact (uses_log _).bind fun _ => (uses_emit (by rintro ⟨⟩)).bind fun _ =>
        uses_close.bind fun _ => trivial
    · exact (uses_logFrame _).bind fun _ => (uses_log _).bind fun _ =>
        uses_emitIf (by rintro ⟨⟩)

/-- The wait in front of the first scan is quiet. -/
theorem uses_settle (settings : Settings) : (settle settings).Uses Quiet := by
  have hrest : (Prog.bind (log (lit "Waiting " ++ settings.sleep.tostring ++
      lit " seconds before starting the announcer...")) fun _ =>
        Prog.bind (sleep settings.sleep) fun _ => keepalive).Uses Quiet :=
    (uses_log _).bind fun _ => (uses_sleep _).bind fun _ =>
      uses_plain rfl
  refine (uses_plain rfl).bind ?_
  rintro (_ | cipher)
  · exact hrest
  · exact (uses_log _).bind fun _ => (uses_log _).bind fun _ => (uses_log _).bind fun _ =>
      (uses_emit (by rintro ⟨⟩)).bind fun _ => hrest

/-- So is the poll that finds out whether the hub is still there. -/
theorem uses_poll : poll.Uses Quiet := by
  refine (uses_settimeout _).bind fun _ => uses_receive.bind ?_
  rintro ((_ | err) | line)
  · trivial
  · simp only
    split
    case isTrue => trivial
    case isFalse =>
      exact (uses_log _).bind fun _ => (uses_emit (by rintro ⟨⟩)).bind fun _ => trivial
  · trivial

/-! ## The stage that reports the login -/

theorem calm_log (buf : Str) : (log buf).Uses Calm := (uses_log buf).mono fun _ => And.left

theorem calm_emit (key : StatusKey) (value : Str) : (emit key value).Uses Calm :=
  Prog.uses_effect (show announcing (.status key value) = false from rfl)

theorem calm_close : close.Uses Calm := uses_close.mono fun _ => And.left

/-- The reply to the password does not announce anything either. -/
theorem calm_loginReply (run : Bool) (sid : Str) : (loginReply run sid).Uses Calm := by
  refine ((uses_readLogin .hublogin).mono fun _ => And.left).bind fun buf => ?_
  split
  case isFalse =>
    exact (calm_log _).bind fun _ => (calm_emit _ _).bind fun _ =>
      calm_close.bind fun _ => trivial
  case isTrue =>
    have hsend : (send (.infCount sid (hubCount buf))).Uses Calm :=
      (uses_send rfl).mono fun _ => And.left
    refine hsend.bind ?_
    rintro (err | ⟨⟩)
    · exact (calm_log _).bind fun _ => calm_close.bind fun _ => trivial
    · refine ((uses_logFrame _).mono fun _ => And.left).bind fun _ =>
        (calm_log _).bind fun _ => ?_
      cases run with
      | true => exact calm_emit _ _
      | false => trivial

/-- Nothing in the login is a part of announcing. -/
theorem calm_login (settings : Settings) (run : Bool) : (login settings run).Uses Calm :=
  ((uses_hubSupport run).mono fun _ => And.left).bind fun _ =>
    ((uses_hubSid run).mono fun _ => And.left).bind fun sid =>
    ((uses_hubInf settings run sid).mono fun _ => And.left).bind fun _ =>
    ((uses_password settings run).mono fun _ => And.left).bind fun _ =>
    (calm_loginReply run sid).bind fun _ => trivial

end LuadchAnnouncer.Core.NetEffects
