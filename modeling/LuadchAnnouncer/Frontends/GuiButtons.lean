import LuadchAnnouncer.Frontends.GuiWorker

/-!
# CONNECT and DISCONNECT

The two buttons and the lock on the configuration tabs are set in five places.
CONNECT disables both buttons and locks the tabs before it starts the worker,
and leaves it to `start_process` to enable one of them again.  Three of its ends
do not: the early return for an empty working directory; a last status check
that fails, which is the only one not to give up; and an error, which ends the
handler where it stands, at a status file that raises when it is loaded or has
something else than a text where one is needed.

The rest of the program is left entirely open here: a status may read anything
at any time, and a worker may come to its end whenever it likes.

## Main results

* `clicked_one_enabled`: exactly one button after every handler, in the runs
  that come to none of these ends.
* `connect_hubloginEmpty_stuck`, `connect_statusNumber_stuck`: two that do.
* `clicked_idle`, `idle_one_enabled`: the same beside the workers.
-/

namespace LuadchAnnouncer.Frontends.GuiButtons

open LuadchAnnouncer.Verified.Bytes
open LuadchAnnouncer.Verified.LuaValue
open LuadchAnnouncer.Verified.Program
open LuadchAnnouncer.Core.Net (Settings StatusKey)
open LuadchAnnouncer.Core.NetEffects (failing)
open LuadchAnnouncer.Core.NetLogin (defaultSettings)
open LuadchAnnouncer.Frontends.Gui
open LuadchAnnouncer.Frontends.GuiSystem (Sys Acts Beside Condition Idle Workers WorkerStep answer
  leftBehind withTexts)

/-! ## The buttons -/

/-- What is enabled and what is locked: CONNECT, DISCONNECT, and the tabs with the
configuration. -/
structure Buttons where
  start : Bool
  stop : Bool
  locked : Bool
  deriving DecidableEq, Repr

/-- CONNECT can be clicked. -/
def offline : Buttons := ⟨true, false, false⟩

/-- DISCONNECT can be clicked. -/
def online : Buttons := ⟨false, true, true⟩

/-- Neither can, and the tabs are locked. -/
def waiting : Buttons := ⟨false, false, true⟩

def Buttons.observe (b : Buttons) : (e : GuiEff) → GuiReply e → Buttons
  | .enableStart v, _ => { b with start := v }
  | .enableStop v, _ => { b with stop := v }
  | .protect v, _ => { b with locked := v }
  | _, _ => b

/-- The button that is clicked has to be enabled; everything else may happen at
any time. -/
def Clickable (b : Buttons) : Event → Prop
  | .connect => b.start = true
  | .disconnect => b.stop = true
  | _ => True

/-- The states between two handlers, where every reply a handler was given
satisfies `ok`. -/
inductive Clicked (ok : (e : GuiEff) → GuiReply e → Prop) : Buttons → Prop where
  | start : Clicked ok offline
  | handled {b b' : Buttons} {event : Event} {o : Outcome LuaError Unit Unit}
      (h : Clicked ok b) (hclick : Clickable b event)
      (hexec : Exec (Observed Buttons.observe ok) (handler event) b o b')
      (hdone : o ≠ .running) : Clicked ok b'

/-- Every reply is allowed. -/
def anyReply (e : GuiEff) (_ : GuiReply e) : Prop := True

/-- What `start_process` has to find under a key, for each of its uses: the file
loads, `:find( "Fail" )` is possible and what is shown is, and the last check,
that of `hublogin`, finds no failure.  The cipher is only shown when DISCONNECT
is enabled. -/
def Wanted (key : StatusKey) (reply : Except LuaError (Option LuaVal)) : Purpose → Prop
  | .fail => ∃ value fails, statusOf reply = .ok value ∧ findFail value = .ok fails ∧
      (key = .hublogin → fails = false)
  | .empty => ∃ value, statusOf reply = .ok value ∧ (key = .hublogin → value ≠ .str [])
  | .shown => key ≠ .cipher → ∃ value, statusOf reply = .ok value ∧
      (value.isTable = true ∨ ∃ text, value.concatText = .ok text)
  | .polled => True
  | .complete => True

/-- The replies that take `start_process` past its gaps: a working directory it
can use, and a status it can go on with. -/
def followed : (e : GuiEff) → GuiReply e → Prop
  | .getCwd, cwd => stripBackslashes cwd ≠ []
  | .getStatus key purpose, reply => Wanted key reply purpose
  | .broadcastTable _, reply => reply = .ok ()
  | _, _ => True

/-- One of the two buttons is enabled, with the tabs to match: they are locked while there
is a worker to disconnect. -/
def Balanced (b : Buttons) : Prop := b = offline ∨ b = online

abbrev Shown : Buttons → (e : GuiEff) → GuiReply e → Buttons → Prop :=
  Observed Buttons.observe followed

abbrev Stage {α : Type} (Next : α → Buttons → Prop) :
    Outcome LuaError Unit α → Buttons → Prop :=
  Outcome.andThen (AtEnd fun (_ : Outcome LuaError Unit Unit) => Balanced) Next

/-! ## What leaves the buttons alone -/

/-- A piece of a handler that leaves the buttons alone, whatever it is answered. -/
abbrev Still {α : Type} (p : GuiAct α) : Prop := Plain Buttons.observe p

theorem still_act {e : GuiEff} (he : ∀ b reply, Buttons.observe b e reply = b) : Still (act e) :=
  plain_effect he

theorem still_broadcast (msg : Str) (color : Option Color) : Still (broadcast msg color) :=
  still_act fun _ _ => rfl

theorem still_broadcastSome (msg : Option Str) (color : Color) :
    Still (broadcastSome msg color) := by
  cases msg with
  | none => exact plain_ret ()
  | some msg => exact still_broadcast msg _

theorem still_getPid : Still getPid := plain_effect fun _ _ => rfl

theorem still_hubname : Still hubname := plain_effect fun _ _ => rfl

theorem still_exists (pid : Nat) : Still (processExists pid) := plain_effect fun _ _ => rfl

theorem still_kill (pid : Nat) : Still (kill pid) := plain_effect fun _ _ => rfl

theorem still_startTimer : Still startTimer :=
  (still_act fun _ _ => rfl).bind fun _ => still_broadcast _ _

theorem still_stopTimer : Still stopTimer :=
  (still_act fun _ _ => rfl).bind fun _ => still_broadcast _ _

/-- The line under the window, behind the name of the hub. -/
theorem still_url {f : Option Str → Option Str → Str} :
    Still (Prog.bind addr fun hubaddr => Prog.bind port fun hubport =>
      statusText (f hubaddr hubport)) := by
  have haddr : Still addr := plain_effect fun _ _ => rfl
  have hport : Still port := plain_effect fun _ _ => rfl
  exact haddr.bind fun _ => hport.bind fun _ => still_act fun _ _ => rfl

/-- Killing a worker is no matter of the buttons. -/
theorem still_killProcess (pid : Nat) : Still (killProcess pid) := by
  have hreset : Still resetStatus := still_act fun _ _ => rfl
  unfold killProcess
  split
  case isFalse => exact hreset
  case isTrue =>
    refine (still_exists pid).bind fun there => ?_
    cases there with
    | false => exact hreset
    | true =>
        refine (still_kill pid).bind fun ret => ?_
        split
        case isTrue =>
          exact (still_broadcast _ _).bind fun _ => (still_broadcast _ _).bind fun _ => hreset
        case isFalse =>
          exact (still_broadcast _ _).bind fun _ => (still_broadcast _ _).bind fun _ =>
            (still_broadcast _ _).bind fun _ => hreset

/-- Neither is what is done about the worker when the window is closed. -/
theorem still_reap : Still reap := by
  have hforget : Still (setPid 0) := still_act fun _ _ => rfl
  refine still_getPid.bind fun pid => ?_
  split
  case isFalse => exact plain_ret ()
  case isTrue =>
    refine (still_exists pid).bind fun there => ?_
    cases there with
    | false => exact hforget
    | true => exact (still_kill pid).bind fun _ => hforget

theorem still_onEndProcess : Still onEndProcess :=
  (still_act fun _ _ => rfl).bind fun _ => (still_act fun _ _ => rfl).bind fun _ =>
    still_act fun _ _ => rfl

theorem still_onClose : Still onClose := still_reap.bind fun _ => still_act fun _ _ => rfl

theorem still_onDestroy : Still onDestroy :=
  (still_act fun _ _ => rfl).bind fun _ => still_reap

/-! ## Reading the status -/

/-- A piece of a handler that leaves the buttons alone, and may end the handler
with an error. -/
abbrev Unseeing {α : Type} (p : GuiAct α) : Prop := p.Uses (Unseen Buttons.observe)

theorem unseeing_getStatus (key : StatusKey) (purpose : Purpose) :
    Unseeing (getStatus key purpose) :=
  (Prog.uses_effect fun _ _ => rfl).bind fun reply => Prog.uses_ofExcept _ (statusOf reply)

theorem unseeing_statusFails (key : StatusKey) (purpose : Purpose) :
    Unseeing (statusFails key purpose) :=
  (unseeing_getStatus key purpose).bind fun value => Prog.uses_ofExcept _ (findFail value)

/-- The timer shows a light and touches no button, even where its read raises. -/
theorem unseeing_onConnStatus : Unseeing onConnStatus := by
  have haddr : Still addr := plain_effect fun _ _ => rfl
  have hport : Still port := plain_effect fun _ _ => rfl
  have hshow : ∀ text state, Still (Prog.bind (statusText text) fun _ => setConnLed state) :=
    fun _ _ => (still_act fun _ _ => rfl).bind fun _ => still_act fun _ _ => rfl
  refine haddr.uses.bind fun _ => hport.uses.bind fun _ =>
    (unseeing_statusFails _ _).bind fun fails => ?_
  split
  case isTrue => exact (hshow _ _).uses
  case isFalse =>
    refine Prog.Uses.bind ((unseeing_getStatus _ _).bind fun _ => trivial) fun complete => ?_
    split
    case isTrue => exact (hshow _ _).uses
    case isFalse => trivial

/-- An error does no harm where one button is enabled. -/
theorem stage_unseeing {α : Type} {p : GuiAct α} (hp : Unseeing p) {b : Buttons}
    (h : Balanced b) : Ensures Shown p b (Stage fun _ => Balanced) := by
  have hkeep : ∀ (b₁ : Buttons) (e : GuiEff) (reply : GuiReply e) (b₂ : Buttons),
      Unseen Buttons.observe e → Balanced b₁ → Shown b₁ e reply b₂ → Balanced b₂ := by
    rintro b₁ e reply b₂ he h₁ ⟨-, rfl⟩
    rw [he b₁ reply]
    exact h₁
  have hend : ∀ (o : Outcome LuaError Unit Unit) (b₁ : Buttons), Balanced b₁ →
      AtEnd (fun _ => Balanced) o b₁ := fun _ _ hb _ => hb
  exact ensures_stage_uses hkeep hend hp h

/-- A piece that neither touches the buttons nor raises, in a run whose statuses are what
`start_process` wants. -/
def Follows {α : Type} (p : GuiAct α) : Prop :=
  ∀ b, Ensures Shown p b (Stage fun _ b' => b' = b)

theorem Follows.of_still {α : Type} {p : GuiAct α} (hp : Still p) : Follows p :=
  fun _ => hp.stage

theorem Follows.bind {α β : Type} {p : GuiAct α} {f : α → GuiAct β} (hp : Follows p)
    (hf : ∀ a, Follows (f a)) : Follows (Prog.bind p f) :=
  fun b => observed_bind (hp b) fun a => hf a b

theorem follows_ret {α : Type} (a : α) : Follows (.ret a : GuiAct α) :=
  fun _ => observed_ret rfl

/-- A read that does not raise, before the rest of a piece. -/
theorem Follows.read {α : Type} {key : StatusKey} {purpose : Purpose} {f : LuaVal → GuiAct α}
    (hf : ∀ reply, Wanted key reply purpose →
      ∃ value, statusOf reply = .ok value ∧ Follows (f value)) :
    Follows (Prog.bind (getStatus key purpose) f) := by
  intro b
  rw [getStatus, Prog.bind_eq, Prog.bind_assoc]
  refine observed_effect fun reply hwanted => ?_
  obtain ⟨value, hvalue, hfollows⟩ := hf reply hwanted
  rw [hvalue]
  exact hfollows b

theorem follows_statusFails (key : StatusKey) : Follows (statusFails key .fail) := by
  apply Follows.read
  rintro reply ⟨value, fails, hvalue, hfind, -⟩
  refine ⟨value, hvalue, ?_⟩
  rw [hfind]
  exact follows_ret fails

theorem follows_statusIs (key : StatusKey) (text : Str) : Follows (statusIs key .empty text) := by
  apply Follows.read
  rintro reply ⟨value, hvalue, -⟩
  exact ⟨value, hvalue, follows_ret _⟩

/-- A status that is shown is text here, so the line can be put together. -/
theorem follows_broadcastStatus {key : StatusKey} (hkey : key ≠ .cipher) (color : Color) :
    Follows (broadcastStatus key color) := by
  apply Follows.read
  intro reply hwanted
  obtain ⟨value, hvalue, hshown⟩ := hwanted hkey
  refine ⟨value, hvalue, ?_⟩
  have htext : ∀ text, Follows (Prog.bind (Prog.ofExcept (.ok text)) fun text =>
      broadcast text (some color)) := fun text => Follows.of_still (still_broadcast text _)
  cases value with
  | table entries =>
      intro b
      refine observed_effect fun reply hreply => ?_
      rw [show reply = .ok () from hreply]
      exact observed_ret rfl
  | str text => exact htext text
  | num n => exact htext n.tostring
  | _ => simp [LuaVal.isTable, LuaVal.concatText] at hshown

/-! ## `start_process` -/

/-- The waiting for `hubconnect` goes on as it does where every read is a text. -/
theorem follows_checkHubconnect : Follows checkHubconnect := by
  have hkey : StatusKey.hubconnect ≠ .cipher := by decide
  have hgiveUp : Follows (Prog.bind getPid fun pid => Prog.bind (killProcess pid) fun _ =>
      (.ret false : GuiAct Bool)) :=
    Follows.of_still (still_getPid.bind fun pid =>
      (still_killProcess pid).bind fun _ => plain_ret false)
  have haddress : Still hubaddress := plain_effect fun _ _ => rfl
  have hport : Still hubport := plain_effect fun _ _ => rfl
  refine (follows_statusFails _).bind fun fails => ?_
  split
  case isTrue => exact (follows_broadcastStatus hkey _).bind fun _ => hgiveUp
  case isFalse =>
    refine (follows_statusIs _ _).bind fun empty => ?_
    split
    case isTrue =>
      exact (Follows.of_still haddress).bind fun _ => (Follows.of_still hport).bind fun _ =>
        (Follows.of_still (still_broadcast _ _)).bind fun _ => hgiveUp
    case isFalse => exact (follows_broadcastStatus hkey _).bind fun _ => follows_ret true

theorem follows_statusLost (key : StatusKey) : Follows (statusLost key) := by
  refine (follows_statusFails key).bind fun fails => ?_
  split
  case isTrue => exact follows_ret true
  case isFalse => exact follows_statusIs key []

/-- A check that is followed neither raises nor touches a button: it may only say that the
worker is to be given up. -/
theorem follows_runCheck (run : Bool) {check : Check} (hkey : check.key ≠ .cipher) :
    Follows (runCheck run check) := by
  cases run with
  | false => exact follows_ret false
  | true =>
      have hend : Follows (Prog.bind (broadcastSome check.onLost .red) fun _ =>
          (.ret false : GuiAct Bool)) :=
        Follows.of_still ((still_broadcastSome _ _).bind fun _ => plain_ret false)
      have hsleep : Still (milliSleep 100) := still_act fun _ _ => rfl
      refine (follows_statusLost check.key).bind fun lost => ?_
      cases lost with
      | false =>
          exact (follows_broadcastStatus hkey _).bind fun _ =>
            Follows.of_still ((still_broadcastSome _ _).bind fun _ =>
              hsleep.bind fun _ => plain_ret true)
      | true =>
          refine (follows_broadcastStatus hkey _).bind fun _ => ?_
          cases check.kills with
          | true =>
              exact (Follows.of_still still_getPid).bind fun pid =>
                (Follows.of_still (still_killProcess pid)).bind fun _ => hend
          | false => exact hend

/-- So the checks in their order do not either, by induction on their list. -/
theorem follows_checks (run : Bool) : Follows (checks.foldlM runCheck run) := by
  intro b
  have hkeys : ∀ check ∈ checks, check.key ≠ .cipher := by decide
  have hbody : ∀ check rest (run : Bool) b', ((∀ c ∈ check :: rest, c.key ≠ .cipher) ∧ b' = b) →
      Ensures Shown (runCheck run check) b'
        (Stage fun _ b'' => (∀ c ∈ rest, c.key ≠ .cipher) ∧ b'' = b) := by
    rintro check rest run b' ⟨hrest, rfl⟩
    refine ensures_stage_mono (follows_runCheck run (hrest check List.mem_cons_self) b') ?_
    exact fun _ _ hb => ⟨fun c hc => hrest c (List.mem_cons_of_mem _ hc), hb⟩
  refine ensures_stage_mono (ensures_stage_foldlM (I := fun rest _ b' =>
    (∀ c ∈ rest, c.key ≠ .cipher) ∧ b' = b) ?_ hbody ⟨hkeys, rfl⟩) fun _ _ hb => hb.2
  exact fun _ _ b' _ => atEnd_running b'

/-- In these runs the last check is passed. -/
theorem stage_statusLost {b : Buttons} :
    Ensures Shown (statusLost .hublogin) b (Stage fun lost b' => lost = false ∧ b' = b) := by
  rw [statusLost, Prog.bind_eq, statusFails, getStatus, Prog.bind_eq, Prog.bind_eq,
    Prog.bind_assoc, Prog.bind_assoc]
  refine observed_effect fun reply hwanted => ?_
  obtain ⟨value, fails, hvalue, hfind, hgood⟩ := hwanted
  rw [hvalue]
  show Ensures Shown (Prog.bind (Prog.ofExcept (findFail value)) _) _ _
  rw [hfind, hgood rfl]
  show Ensures Shown (statusIs .hublogin .empty []) _ _
  rw [statusIs, getStatus, Prog.bind_eq, Prog.bind_eq, Prog.bind_assoc]
  refine observed_effect fun reply hwanted => ?_
  obtain ⟨value, hvalue, hthere⟩ := hwanted
  rw [hvalue]
  refine observed_ret ⟨?_, rfl⟩
  rw [Bool.eq_false_iff]
  exact fun hempty => hthere rfl (isText_iff.mp hempty)

/-- The last of them, where it finds no failure, enables DISCONNECT before anything in it
can raise. -/
theorem stage_checkHublogin :
    Ensures Shown checkHublogin waiting (Stage fun _ => Balanced) := by
  refine ensures_stage_bind stage_statusLost ?_
  rintro lost _ ⟨rfl, rfl⟩
  have hsuccessful : Still (act .loginSuccessful) := still_act fun _ _ => rfl
  refine observed_effect fun _ _ => stage_unseeing ?_ (Or.inr rfl)
  exact hsuccessful.uses.bind fun _ => (unseeing_getStatus _ _).bind fun cipher =>
    (Prog.uses_ofExcept _ cipher.concatText).bind fun _ => (still_broadcast _ _).uses

/-- What the checks come to is either passed on to the last one or given up. -/
theorem stage_followLogin : Ensures Shown followLogin waiting (Stage fun _ => Balanced) := by
  refine observed_bind (follows_checkHubconnect _) fun run =>
    observed_bind (follows_checks run _) fun run => ?_
  cases run with
  | true => exact stage_checkHublogin
  | false =>
      have hforget : Still (setPid 0) := still_act fun _ _ => rfl
      refine still_stopTimer.before fun _ => observed_effect fun _ _ =>
        observed_effect fun _ _ => hforget.before fun _ => still_getPid.before fun pid =>
        (still_killProcess pid).before fun _ => observed_last fun _ _ => Or.inl rfl

/-- So does `start_process`, from its start to each of its ends. -/
theorem stage_startProcess : Ensures Shown startProcess waiting (Stage fun _ => Balanced) := by
  have hexecute : ∀ cmd, Still (execute cmd) := fun _ => plain_effect fun _ _ => rfl
  have hset : ∀ pid, Still (setPid pid) := fun _ => still_act fun _ _ => rfl
  have hsleep : Still (milliSleep 3000) := still_act fun _ _ => rfl
  refine observed_effect fun cwd hcwd => ?_
  have hcwd : stripBackslashes cwd ≠ [] := hcwd
  simp only [hcwd, if_false]
  exact (hexecute _).before fun pid => (hset pid).before fun _ =>
    (still_broadcast _ _).before fun _ => (still_broadcast _ _).before fun _ =>
    hsleep.before fun _ => stage_followLogin

/-! ## The handlers -/

theorem stage_still {α : Type} {p : GuiAct α} (hp : Still p) {b : Buttons} (h : Balanced b) :
    Ensures Shown p b (Stage fun _ => Balanced) :=
  stage_unseeing hp.uses h

/-- The handler of CONNECT disables both buttons and gets one of them back. -/
theorem stage_onConnect : Ensures Shown onConnect offline (Stage fun _ => Balanced) := by
  have hcert : Still validateCert := plain_effect fun _ _ => rfl
  have hconnect : Still validateConnect := plain_effect fun _ _ => rfl
  have hheader : ∀ msg, Still (act (.header msg)) := fun _ => still_act fun _ _ => rfl
  have hfooter : ∀ msg, Still (act (.footer msg)) := fun _ => still_act fun _ _ => rfl
  refine hcert.before fun broken => ?_
  split
  case isTrue => exact observed_ret (Or.inl rfl)
  case isFalse =>
    refine hconnect.before fun broken => ?_
    split
    case isTrue => exact observed_ret (Or.inl rfl)
    case isFalse =>
      refine still_hubname.before fun name => (hheader _).before fun _ =>
        observed_effect fun _ _ => observed_effect fun _ _ => still_startTimer.before fun _ =>
        ensures_stage_bind stage_startProcess fun _ b hb => ?_
      exact stage_still (still_hubname.bind fun name => (hfooter _).bind fun _ => still_url) hb

/-- DISCONNECT leaves CONNECT enabled, whatever it starts from. -/
theorem stage_onDisconnect (b : Buttons) :
    Ensures Shown onDisconnect b (Stage fun _ => Balanced) := by
  have hheader : ∀ msg, Still (act (.header msg)) := fun _ => still_act fun _ _ => rfl
  have hfooter : ∀ msg, Still (act (.footer msg)) := fun _ => still_act fun _ _ => rfl
  have hled : Still (setConnLed .disconnected) := still_act fun _ _ => rfl
  have haddr : Still addr := plain_effect fun _ _ => rfl
  have hport : Still port := plain_effect fun _ _ => rfl
  refine still_hubname.before fun name => (hheader _).before fun _ =>
    observed_effect fun _ _ => observed_effect fun _ _ => still_stopTimer.before fun _ =>
    still_getPid.before fun pid => (still_killProcess pid).before fun _ =>
    observed_effect fun _ _ => ?_
  refine stage_still ?_ (Or.inl rfl)
  exact still_hubname.bind fun name => (hfooter _).bind fun _ => haddr.bind fun _ =>
    hport.bind fun _ => (still_act fun _ _ => rfl).bind fun _ => hled

/-- Each handler does, where the click was possible: a case for every event. -/
theorem stage_handler {b : Buttons} {event : Event} (h : Balanced b)
    (hclick : Clickable b event) :
    Ensures Shown (handler event) b (Stage fun _ => Balanced) := by
  cases event with
  | connect =>
      rcases h with rfl | rfl
      · exact stage_onConnect
      · cases hclick
  | disconnect => exact stage_onDisconnect b
  | connStatus => exact stage_unseeing unseeing_onConnStatus h
  | ended pid => exact stage_still still_onEndProcess h
  | close => exact stage_still still_onClose h
  | destroy => exact stage_still still_onDestroy h

/-! ## Every run -/

theorem balanced_clicked {b : Buttons} (h : Clicked followed b) : Balanced b := by
  induction h with
  | start => exact Or.inl rfl
  | handled _ hclick hexec hdone ih =>
      have hends := ensures_of_stage (stage_handler ih hclick) fun _ _ hb => fun _ => hb
      exact hends _ _ hexec hdone

/-- **Exactly one button.**  After every handler exactly one of CONNECT and
DISCONNECT is enabled, and the tabs are locked exactly if it is DISCONNECT; in
every run in which the working directory and the status `hublogin` let
`start_process` come to one of its proper ends. -/
theorem clicked_one_enabled {b : Buttons} (h : Clicked followed b) :
    b.start = !b.stop ∧ b.locked = b.stop := by
  rcases balanced_clicked h with rfl | rfl
  · exact ⟨rfl, rfl⟩
  · exact ⟨rfl, rfl⟩

/-- How a handler is answered while nothing changes but the buttons. -/
def replies (status : StatusKey → LuaVal) (b : Buttons) (e : GuiEff) :
    Option (GuiReply e × Buttons) :=
  some ((answer defaultSettings (Sys.start status) e).1,
    b.observe e (answer defaultSettings (Sys.start status) e).1)

/-- A handler against fixed answers is a run, where all these answers are allowed. -/
theorem exec_replies {ok : (e : GuiEff) → GuiReply e → Prop} {status : StatusKey → LuaVal}
    (hok : ∀ e, ok e (answer defaultSettings (Sys.start status) e).1) (p : GuiAct Unit)
    (b : Buttons) :
    Exec (Observed Buttons.observe ok) p b (p.run (replies status) b).1
      (p.run (replies status) b).2 := by
  refine exec_run_view (replies status) id ?_ p b
  intro b e reply b' h
  obtain ⟨rfl, rfl⟩ := Prod.mk.inj (Option.some.inj h)
  exact ⟨hok e, rfl⟩

/-- What an earlier session has left behind is a status that is followed. -/
theorem followed_leftBehind (e : GuiEff) :
    followed e (answer defaultSettings (Sys.start (withTexts leftBehind)) e).1 := by
  cases e with
  | getStatus key purpose =>
      cases purpose with
      | fail =>
          refine ⟨.str (leftBehind key), failing (leftBehind key), rfl, rfl, ?_⟩
          rintro rfl
          decide
      | empty =>
          refine ⟨.str (leftBehind key), rfl, ?_⟩
          rintro rfl hempty
          rw [LuaVal.str.injEq] at hempty
          revert hempty
          decide
      | shown => exact fun _ => ⟨.str (leftBehind key), rfl, Or.inr ⟨_, rfl⟩⟩
      | polled => trivial
      | complete => trivial
  | getCwd =>
      have hcwd : stripBackslashes (lit "C:\\announcer") ≠ [] := by decide
      exact hcwd
  | broadcastTable entries => exact rfl
  | _ => trivial

/-- CONNECT, and a login that goes well. -/
theorem clicked_one_enabled_connect : ∃ b : Buttons, Clicked followed b ∧ b.stop = true ∧
    b.start = !b.stop ∧ b.locked = b.stop := by
  have hrun : (handler .connect).run (replies (withTexts leftBehind)) offline =
      (.ret (), online) := by decide +kernel
  have hexec := exec_replies followed_leftBehind (handler .connect) offline
  rw [hrun] at hexec
  have hclick : Clickable offline .connect := rfl
  have hclicked : Clicked followed online := .handled .start hclick hexec (by simp)
  exact ⟨online, hclicked, rfl, clicked_one_enabled hclicked⟩

/-- The status file of a login that has got as far as the password. -/
def beforeHublogin (key : StatusKey) : Str := if key = .hublogin then [] else leftBehind key

/-- One click on CONNECT, and a status `hublogin` that is not there yet when it
is asked for: neither button is enabled any more. -/
theorem connect_hubloginEmpty_stuck :
    ¬ ∀ b : Buttons, Clicked anyReply b → b.start = !b.stop ∧ b.locked = b.stop := by
  intro hall
  have hrun : (handler .connect).run (replies (withTexts beforeHublogin)) offline =
      (.ret (), waiting) := by decide
  have hany : ∀ e, anyReply e (answer defaultSettings (Sys.start (withTexts beforeHublogin)) e).1 :=
    fun _ => trivial
  have hexec := exec_replies hany (handler .connect) offline
  rw [hrun] at hexec
  have hclick : Clickable offline .connect := rfl
  have hclicked : Clicked anyReply waiting := .handled .start hclick hexec (by simp)
  have hone := (hall waiting hclicked).1
  cases hone

/-- One click on CONNECT, and a status file with a number in place of the first
text: `:find` raises, and the handler ends with neither button enabled. -/
theorem connect_statusNumber_stuck : ∃ b : Buttons, Clicked anyReply b ∧ b = waiting := by
  have hrun : (handler .connect).run (replies fun _ => .num (.int 1)) offline =
      (.raise .index, waiting) := by decide
  have hany : ∀ e, anyReply e (answer defaultSettings (Sys.start fun _ => .num (.int 1)) e).1 :=
    fun _ => trivial
  have hexec := exec_replies hany (handler .connect) offline
  rw [hrun] at hexec
  have hclick : Clickable offline .connect := rfl
  exact ⟨waiting, .handled .start hclick hexec (by simp), rfl⟩

/-! ## Beside the workers -/

def buttons (s : Sys) : Buttons := ⟨s.startEnabled, s.stopEnabled, s.locked⟩

theorem buttons_workerStep {settings : Settings} {s s' : Sys} (h : WorkerStep settings s s') :
    buttons s' = buttons s := by
  cases h with
  | _ => rfl

theorem buttons_workers {settings : Settings} {s s' : Sys} (h : Workers settings s s') :
    buttons s' = buttons s := by
  induction h with
  | refl => rfl
  | tail _ hstep ih => exact (buttons_workerStep hstep).trans ih

theorem buttons_killed (s : Sys) (pid : Nat) : buttons (s.killed pid) = buttons s := by
  unfold Sys.killed
  split
  · rfl
  · rfl

/-- The buttons of the whole system are changed by the effects of a handler and by nothing
else. -/
theorem buttons_acts {settings : Settings} {s s' : Sys} {e : GuiEff} {reply : GuiReply e}
    (h : Acts settings s e reply s') : buttons s' = (buttons s).observe e reply := by
  cases e with
  | execute cmd =>
      rcases h with ⟨-, rfl⟩ | ⟨-, -, fuel, rfl⟩
      · rfl
      · rfl
  | kill pid =>
      rcases h with ⟨-, rfl⟩ | ⟨-, rfl⟩
      · exact buttons_killed s pid
      · rfl
  | setConnLed state =>
      cases state with
      | _ => cases h; rfl
  | getStatus key purpose =>
      obtain ⟨-, rfl⟩ := h
      rfl
  | getPid =>
      obtain ⟨-, rfl⟩ := h
      rfl
  | «exists» pid =>
      obtain ⟨-, rfl⟩ := h
      rfl
  | _ => cases h; rfl

/-- **The whole system is one of the runs.**  Beside its workers the GUI comes
through no other states than by itself. -/
theorem clicked_idle {settings : Settings} {c : Condition} {s : Sys} (h : Idle settings c s) :
    Clicked (fun e reply => ∃ s, c.effect s e reply) (buttons s) := by
  induction h with
  | start status => exact .start
  | worker _ hstep ih =>
      rw [buttons_workerStep hstep]
      exact ih
  | @handled s s₁ s' event o h hfires _ hexec hdone ih =>
      have hbuttons : buttons s₁ = buttons s := by
        cases hfires with
        | _ => rfl
      have hclick : Clickable (buttons s) event := by
        cases hfires with
        | connect _ henabled => exact henabled
        | disconnect _ henabled => exact henabled
        | _ => trivial
      have hseen : Exec (Observed Buttons.observe fun e reply => ∃ s, c.effect s e reply)
          (handler event) (buttons s₁) o (buttons s') := by
        refine hexec.view buttons ?_
        rintro t e reply t' ⟨t₁, hworkers, hacts, hcond⟩
        refine ⟨⟨t₁, hcond⟩, ?_⟩
        rw [buttons_acts hacts, buttons_workers hworkers]
      rw [hbuttons] at hseen
      exact .handled ih hclick hseen hdone

/-- A run under a narrower condition is one under a wider. -/
theorem Clicked.mono {ok ok' : (e : GuiEff) → GuiReply e → Prop}
    (hok : ∀ e reply, ok e reply → ok' e reply) {b : Buttons} (h : Clicked ok b) :
    Clicked ok' b := by
  induction h with
  | start => exact .start
  | handled _ hclick hexec hdone ih =>
      refine .handled ih hclick (hexec.view id ?_) hdone
      rintro b e reply b' ⟨hreply, rfl⟩
      exact ⟨hok e reply hreply, rfl⟩

/-- **One button beside the workers**: while they read and write the status file,
as long as what the GUI reads of it is what `start_process` asks for. -/
theorem idle_one_enabled {settings : Settings} {c : Condition} {s : Sys}
    (hc : ∀ s e reply, c.effect s e reply → followed e reply) (h : Idle settings c s) :
    Balanced (buttons s) :=
  balanced_clicked ((clicked_idle h).mono fun e reply hcond => hcond.elim fun s => hc s e reply)

end LuadchAnnouncer.Frontends.GuiButtons
