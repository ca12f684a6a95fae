import LuadchAnnouncer.Core.NetLogin
import LuadchAnnouncer.Frontends.GuiSystem

/-!
# What the GUI shows of a connection

Two places show a connection: `conn_status_timer` switches the light to
"connected", and `start_process` logs "LOGIN SUCCESSFUL".  Both go by the text
under `hublogin`, and that text outlives the session that has written it: no
session takes it back, a session that ends because a frame could not be sent
writes nothing at all, and what an earlier run has left in the file is still
there when a new worker starts.

`fresh` leaves out the steps at which a connection is shown for such a text.

## Main results

* `contract` — a worker reports a login only behind the hub's confirmation.
* `honest_workerStep`, `honest_acts` — the status file, beside the workers and in the
  handlers.
* `piece_handler` — a handler, as long as what it reads is fresh.
* `shown_connected` — any run.
* `connect_leftBehind_shown` — a click on CONNECT with an old file in place.
-/

namespace LuadchAnnouncer.Frontends.GuiStatus

open LuadchAnnouncer.Verified.Bytes
open LuadchAnnouncer.Verified.LuaValue
open LuadchAnnouncer.Verified.Program
open LuadchAnnouncer.Core.Net
open LuadchAnnouncer.Core.NetEffects
open LuadchAnnouncer.Core.NetLogin (defaultSettings willingHub)
open LuadchAnnouncer.Frontends.Reconnect
open LuadchAnnouncer.Frontends.Gui
open LuadchAnnouncer.Frontends.GuiSystem

/-! ## What a session writes -/

/-- A session that has reported its login has one.  What it reports of a failure says
nothing about a login. -/
def Truthful (v : Session) : Prop :=
  ∀ text, v.reported = some text → failing text = true ∨ v.loggedIn = true

theorem truthful_new : Truthful {} := by
  rintro text ⟨⟩

theorem Truthful.of_loggedIn {v : Session} (h : v.loggedIn = true) : Truthful v :=
  fun _ _ => Or.inr h

/-- A login that is complete stays complete. -/
theorem loggedIn_observe {v : Session} {e : Eff} {reply : Reply e} (h : v.loggedIn = true) :
    (v.observe e reply).loggedIn = true := by
  unfold Session.observe
  split
  case h_1 => rfl
  case h_2 => exact h
  case h_3 => exact h

/-- A session that has told the truth goes on doing so with every effect that does not
report a login. -/
theorem truthful_observe {v : Session} {e : Eff} {reply : Reply e} (he : Modest e)
    (h : Truthful v) : Truthful (v.observe e reply) := by
  unfold Session.observe
  split
  case h_1 => exact Truthful.of_loggedIn rfl
  case h_2 text _ =>
    intro text' htext
    rw [Option.some.injEq] at htext
    exact Or.inl (htext ▸ he text rfl)
  case h_3 => exact h

/-- What a stage of the session has to come to. -/
abbrev Stage {α : Type} (Next : α → Session → Prop) :
    Outcome LuaError Bool α → Session → Prop :=
  Outcome.andThen (fun _ : Outcome LuaError Bool Unit => Truthful) Next

/-- So does a whole piece of a session that reports none. -/
theorem stage_modest {α : Type} {q : Act α} (hq : q.Uses Modest) {v : Session}
    (h : Truthful v) : Ensures Session.Step q v (Stage fun _ => Truthful) := by
  have hstep : ∀ v e reply v', Modest e → Truthful v → Session.Step v e reply v' →
      Truthful v' := by
    rintro v e reply v' he hv rfl
    exact truthful_observe he hv
  exact ensures_stage_uses hstep (fun _ _ hv => hv) hq h

theorem stage_quiet {α : Type} {q : Act α} {v : Session} (hq : q.Uses Quiet)
    (h : Truthful v) : Ensures Session.Step q v (Stage fun _ => Truthful) :=
  stage_modest (hq.mono fun _ => And.right) h

/-- Once the login is complete, nothing a session does makes it untruthful. -/
theorem stage_loggedIn {α : Type} (q : Act α) {v : Session} (h : v.loggedIn = true) :
    Ensures Session.Step q v (Stage fun _ v' => v'.loggedIn = true) := by
  have hstep : ∀ (v : Session) e reply v', True → v.loggedIn = true →
      Session.Step v e reply v' → v'.loggedIn = true := by
    rintro v e reply v' - hv rfl
    exact loggedIn_observe hv
  exact ensures_stage_uses hstep (fun _ _ => Truthful.of_loggedIn) (Prog.uses_true q) h

/-- The loop of the login returns only behind the line of the hub that confirms it. -/
theorem stage_loginReply {run : Bool} {sid : Str} {v : Session} (h : Truthful v) :
    Ensures Session.Step (loginReply run sid) v (Stage fun _ v' => v'.loggedIn = true) := by
  refine ensures_stage_bind (stage_quiet (uses_readLogin .hublogin) h) fun buf v₁ h₁ => ?_
  split
  case isFalse =>
    have hfail :
        (emit .hublogin (lit "Fail: Login failed. Last hub message: " ++ buf)).Uses Quiet :=
      uses_emit fun _ => failing_append _ _ (by decide)
    exact ensures_stage_bind (stage_quiet (uses_log _) h₁) fun _ v₂ h₂ =>
      ensures_stage_bind (stage_quiet hfail h₂) fun _ v₃ h₃ =>
      ensures_stage_bind (stage_quiet uses_close h₃) fun _ v₄ h₄ =>
      ensures_exit.mpr ⟨h₄, h₄⟩
  case isTrue =>
    -- the third BINF; when it is out, the login is complete
    refine ensures_effect_bind.mpr ⟨h₁, ?_⟩
    rintro (err | ⟨⟩) v₂ rfl
    · exact ensures_stage_bind (stage_quiet (uses_log _) h₁) fun _ v₃ h₃ =>
        ensures_stage_bind (stage_quiet uses_close h₃) fun _ v₄ h₄ => ensures_exit.mpr ⟨h₄, h₄⟩
    · exact stage_loggedIn _ rfl

/-- Where `login` returns, the hub has let the session in. -/
theorem stage_login (settings : Settings) (run : Bool) {v : Session} (h : Truthful v) :
    Ensures Session.Step (login settings run) v (Stage fun _ v' => v'.loggedIn = true) := by
  refine ensures_stage_bind (stage_quiet (uses_hubSupport run) h) fun _ v₁ h₁ =>
    ensures_stage_bind (stage_quiet (uses_hubSid run) h₁) fun sid v₂ h₂ =>
    ensures_stage_bind (stage_quiet (uses_hubInf settings run sid) h₂) fun _ v₃ h₃ =>
    ensures_stage_bind (stage_quiet (uses_password settings run) h₃) fun _ v₄ h₄ =>
    ensures_stage_bind (stage_loginReply h₄) fun _ v₅ h₅ => ?_
  exact ensures_ret.mpr ⟨Truthful.of_loggedIn h₅, h₅⟩

/-- A session tells the truth from its first effect to its end. -/
theorem stage_loop (settings : Settings) (fuel : Nat) {v : Session} (h : Truthful v) :
    Ensures Session.Step (loop settings fuel) v (Stage fun _ => Truthful) := by
  refine ensures_stage_bind (stage_quiet (uses_openSocket settings fuel) h) ?_
  rintro (_ | run) v₁ h₁
  · exact ensures_ret.mpr ⟨h₁, h₁⟩
  refine ensures_stage_bind (stage_quiet (uses_secure settings run) h₁) fun _ v₂ h₂ =>
    ensures_stage_bind (stage_quiet (uses_sendSupport run) h₂) fun _ v₃ h₃ =>
    ensures_stage_bind (stage_login settings run h₃) fun sid v₄ h₄ => ?_
  exact ensures_stage_mono (stage_loggedIn _ h₄) fun _ _ => Truthful.of_loggedIn

/-- And each one of the reconnect loop starts with nothing reported. -/
theorem contract (settings : Settings) :
    Contract Session.Step Session.over settings (fun v => v = {}) Truthful where
  session := by
    rintro fuel v rfl
    have hloop : Ensures Session.Step (loop settings fuel) {} fun _ => Truthful :=
      ensures_of_stage (stage_loop settings fuel truthful_new) fun _ _ hv => hv
    exact hloop.mono fun _ _ hv => ⟨hv, fun _ => rfl⟩
  raised := fun _ _ => truthful_new
  pause := by
    rintro v reply v' rfl rfl
    rfl
  always := by
    rintro v rfl
    exact truthful_new

/-! ## The invariant -/

/-- Who is taken for the writer of the text under `hublogin` has written it, in
a session it is still in, and nothing wrong has been shown. -/
structure Honest (s : Sys) : Prop where
  within : ∀ p, Within Session.Step Session.over (fun v => v = {}) Truthful (s.worker p)
  writer : ∀ p, s.writer = some p →
    (s.worker p).2.reported.map LuaVal.str = some (s.status .hublogin) ∧
      ∃ rest, (s.worker p).1 = .session rest
  right : s.wrong = false

/-- The steps at which nothing stale is shown: a text that is taken for a
success has been written by the session the running worker is in and does not
turn into a failure between the two reads of `start_process`, and no session
ends between the read and what is shown for it. -/
def fresh : Condition where
  effect s
    | .getStatus .hublogin .complete, reply =>
        statusOf reply = .ok (.str (lit "Login complete.")) → s.writer = some s.latest
    | .getStatus .hublogin .empty, reply => ∀ value, statusOf reply = .ok value →
        value ≠ .str [] → s.writer = some s.latest ∧ findFail value ≠ .ok true
    | .setConnLed .connected, _ => s.steady = true
    | .loginSuccessful, _ => s.steady = true
    | _, _ => True

theorem honest_start (status : StatusKey → LuaVal) : Honest (Sys.start status) where
  within := fun _ => truthful_new
  writer := by rintro p ⟨⟩
  right := rfl

/-! ### Worker steps -/

/-- A step of one worker is within its contract, and the other workers are as before. -/
theorem within_moved {settings : Settings} {s : Sys} {p : Nat} {w : Phase × Session}
    {label : Label} (h : Honest s)
    (hmove : Moves Session.Step Session.over settings (s.worker p) label w) :
    ∀ q, Within Session.Step Session.over (fun v => v = {}) Truthful ((s.moved p w).worker q) := by
  intro q
  by_cases hsame : q = p
  · subst hsame
    simp only [Sys.moved, Function.update_self]
    exact (contract settings).step (h.within q) hmove
  · simp only [Sys.moved, Function.update_of_ne hsame]
    exact h.within q

/-- A step within a session, or the one that begins it. -/
theorem moves_did {settings : Settings} {w w' : Phase × Session} {e : Eff}
    (h : Moves Session.Step Session.over settings w (.did e) w') :
    (∃ rest, w'.1 = .session rest) ∧ ∃ reply, w'.2 = w.2.observe e reply := by
  cases h with
  | perform hstep => exact ⟨⟨_, rfl⟩, _, hstep⟩
  | again fuel hstep => exact ⟨⟨_, rfl⟩, _, hstep⟩

/-- Only a report changes what has been reported. -/
theorem reported_observe {v : Session} {e : Eff} {reply : Reply e}
    (he : ∀ text, e ≠ .status .hublogin text) : (v.observe e reply).reported = v.reported := by
  unfold Session.observe
  split
  case h_1 => rfl
  case h_2 text _ => exact absurd rfl (he text)
  case h_3 => rfl

/-- The writer of the text is still its writer after a step that writes nothing
under `hublogin`. -/
theorem writer_moved {settings : Settings} {s : Sys} {p q : Nat} {w : Phase × Session} {e : Eff}
    (h : Honest s) (hq : s.writer = some q) (he : ∀ text, e ≠ .status .hublogin text)
    (hmove : Moves Session.Step Session.over settings (s.worker p) (.did e) w) :
    ((s.moved p w).worker q).2.reported.map LuaVal.str = some (s.status .hublogin) ∧
      ∃ rest, ((s.moved p w).worker q).1 = .session rest := by
  obtain ⟨hreported, rest, hphase⟩ := h.writer q hq
  by_cases hsame : q = p
  · subst hsame
    obtain ⟨hsession, reply, hview⟩ := moves_did hmove
    simp only [Sys.moved, Function.update_self]
    exact ⟨by rw [hview, reported_observe he, hreported], hsession⟩
  · simp only [Sys.moved, Function.update_of_ne hsame]
    exact ⟨hreported, rest, hphase⟩

/-- The end of a session takes its text with it. -/
theorem honest_sessionOver {s : Sys} {p : Nat} {w : Phase × Session} (h : Honest s)
    (hwithin : ∀ q, Within Session.Step Session.over (fun v => v = {}) Truthful
      ((s.moved p w).worker q)) : Honest ((s.moved p w).sessionOver p) where
  within := hwithin
  writer := by
    intro q hq
    simp only [Sys.sessionOver] at hq
    by_cases hown : (s.moved p w).writer = some p
    · rw [if_pos hown] at hq
      cases hq
    · rw [if_neg hown] at hq
      have hne : q ≠ p := by
        rintro rfl
        exact hown hq
      simp only [Sys.sessionOver, Sys.moved, Function.update_of_ne hne]
      exact h.writer q hq
  right := h.right

/-- A step of a worker keeps the file in line with what its writer has reported. -/
theorem honest_workerStep {settings : Settings} {s s' : Sys} (h : Honest s)
    (hstep : WorkerStep settings s s') : Honest s' := by
  cases hstep with
  | @emits p w key text loaded hmove =>
      refine { within := within_moved h hmove, writer := ?_, right := h.right }
      intro q hq
      simp only [Sys.emitted] at hq ⊢
      by_cases hkey : key = .hublogin
      · subst hkey
        rw [if_pos rfl, Option.some.injEq] at hq
        subst hq
        obtain ⟨hsession, reply, hview⟩ := moves_did hmove
        simp only [Sys.moved, Function.update_self]
        exact ⟨by rw [hview]; rfl, hsession⟩
      · rw [if_neg hkey] at hq
        cases loaded with
        | false => cases hq
        | true =>
            simp only [if_true, Function.update_of_ne (Ne.symm hkey)] at hq ⊢
            exact writer_moved h hq (by rintro text' ⟨⟩; exact hkey rfl) hmove
  | acts hmove hquiet =>
      exact {
        within := within_moved h hmove
        writer := fun q hq => writer_moved h hq (fun text => hquiet _ text) hmove
        right := h.right }
  | backs hmove hgoes => exact honest_sessionOver h (within_moved h hmove)
  | ends hmove hgone =>
      have hover := honest_sessionOver h (within_moved h hmove)
      exact { within := hover.within, writer := hover.writer, right := hover.right }

/-- The last read has found a login: there is a worker that is logged in, unless a session
has ended since. -/
def Seen (s : Sys) : Prop := Honest s ∧ (s.steady = true → s.connected = true)

/-- A login is not undone by a further effect. -/
theorem online_did {settings : Settings} {w w' : Phase × Session} {e : Eff}
    (h : Moves Session.Step Session.over settings w (.did e) w') (hon : Sys.online w = true) :
    Sys.online w' = true := by
  cases h with
  | perform hstep =>
      rw [Session.Step] at hstep
      subst hstep
      exact loggedIn_observe hon
  | again fuel hstep => cases hon

/-- So the connection that is shown is one still, as long as no session ends. -/
theorem connected_moved {settings : Settings} {s : Sys} {p : Nat} {w : Phase × Session} {e : Eff}
    (hmove : Moves Session.Step Session.over settings (s.worker p) (.did e) w)
    (hon : s.connected = true) : (s.moved p w).connected = true := by
  by_cases hsame : s.latest = p
  · subst hsame
    simp only [Sys.connected, Sys.moved, Function.update_self]
    exact online_did hmove hon
  · simp only [Sys.connected, Sys.moved, Function.update_of_ne hsame]
    exact hon

/-- A connection that is shown is there still when a worker has moved. -/
theorem seen_workerStep {settings : Settings} {s s' : Sys} (h : Seen s)
    (hstep : WorkerStep settings s s') : Seen s' := by
  refine ⟨honest_workerStep h.1 hstep, ?_⟩
  cases hstep with
  | emits loaded hmove => exact fun hsteady => connected_moved hmove (h.2 hsteady)
  | acts hmove hquiet => exact fun hsteady => connected_moved hmove (h.2 hsteady)
  | backs hmove hgoes => rintro ⟨⟩
  | ends hmove hgone => rintro ⟨⟩

/-! ### Effects of the GUI -/

/-- An effect that shows no connection: neither the light nor the line "LOGIN SUCCESSFUL". -/
def discreet : GuiEff → Bool
  | .setConnLed .connected => false
  | .loginSuccessful => false
  | _ => true

def Discreet (e : GuiEff) : Prop := discreet e = true

/-- A worker that is killed writes nothing any more, and the file is still what it was. -/
theorem honest_killed {s : Sys} {p : Nat} (h : Honest s) : Honest (s.killed p) := by
  unfold Sys.killed
  split
  case h_1 => exact h
  case h_2 =>
    have hover := honest_sessionOver (p := p) (w := (.gone, {})) h (by
      intro q
      by_cases hsame : q = p
      · subst hsame
        simp only [Sys.moved, Function.update_self]
        exact truthful_new
      · simp only [Sys.moved, Function.update_of_ne hsame]
        exact h.within q)
    exact { within := hover.within, writer := hover.writer, right := hover.right }

/-- A new worker has written nothing yet. -/
theorem honest_execute {settings : Settings} {s : Sys} {p fuel : Nat} (h : Honest s)
    (hgone : ¬ s.Alive p) :
    Honest { s.moved p (.session (loop settings fuel), {}) with latest := p } where
  within := by
    intro q
    by_cases hsame : q = p
    · subst hsame
      simp only [Sys.moved, Function.update_self]
      exact (contract settings).session fuel {} rfl
    · simp only [Sys.moved, Function.update_of_ne hsame]
      exact h.within q
  writer := by
    intro q hq
    obtain ⟨hreported, rest, hphase⟩ := h.writer q hq
    have hne : q ≠ p := by
      rintro rfl
      exact hgone (by rw [Sys.Alive, hphase]; rintro ⟨⟩)
    simp only [Sys.moved, Function.update_of_ne hne]
    exact ⟨hreported, rest, hphase⟩
  right := h.right

/-- Nothing a handler does but show a connection can break that. -/
theorem honest_acts {settings : Settings} {s s' : Sys} {e : GuiEff} {reply : GuiReply e}
    (he : Discreet e) (h : Honest s) (hacts : Acts settings s e reply s') : Honest s' := by
  have hsame : ∀ {s' : Sys}, s'.worker = s.worker → s'.writer = s.writer →
      s'.status = s.status → s'.wrong = s.wrong → Honest s' := by
    intro s' hworker hwriter hstatus hwrong
    refine { within := ?_, writer := ?_, right := hwrong.trans h.right }
    · rw [hworker]
      exact h.within
    · rw [hworker, hwriter, hstatus]
      exact h.writer
  cases e with
  | execute cmd =>
      rcases hacts with ⟨-, rfl⟩ | ⟨-, hgone, fuel, rfl⟩
      · exact h
      · exact honest_execute h hgone
  | kill pid =>
      rcases hacts with ⟨-, rfl⟩ | ⟨-, rfl⟩
      · exact honest_killed h
      · exact h
  | resetStatus =>
      cases hacts
      exact { within := h.within, writer := by rintro p ⟨⟩, right := h.right }
  | loginSuccessful => cases he
  | setConnLed state =>
      cases state with
      | connected => cases he
      | _ => cases hacts; exact hsame rfl rfl rfl rfl
  | getStatus key purpose =>
      obtain ⟨-, rfl⟩ := hacts
      exact hsame rfl rfl rfl rfl
  | getPid =>
      obtain ⟨-, rfl⟩ := hacts
      exact h
  | «exists» pid =>
      obtain ⟨-, rfl⟩ := hacts
      exact h
  | _ => cases hacts; exact hsame rfl rfl rfl rfl

/-! ## The handlers -/

section

variable {settings : Settings}

/-- What every piece of a handler has to come to, `Next` being what the piece
behind it needs. -/
abbrev Piece {α : Type} (Next : α → Sys → Prop) : Outcome LuaError Unit α → Sys → Prop :=
  Outcome.andThen (fun _ : Outcome LuaError Unit Unit => Honest) Next

/-- So a piece of a handler that shows none keeps it. -/
theorem piece_discreet {α : Type} {q : GuiAct α} (hq : q.Uses Discreet) {s : Sys}
    (h : Honest s) : Ensures (Beside settings fresh) q s (Piece fun _ => Honest) := by
  have hstep : ∀ s e reply s', Discreet e → Honest s → Beside settings fresh s e reply s' →
      Honest s' := by
    intro s e reply s' he hs hbeside
    obtain ⟨s₁, hworkers, hacts, -⟩ := hbeside
    have h₁ : Honest s₁ := workers_keep (fun _ _ => honest_workerStep) hs hworkers
    exact honest_acts he h₁ hacts
  exact ensures_stage_uses hstep (fun _ _ hs => hs) hq h

/-- The text of the running worker's present session, taken for a success. -/
theorem connected_of_writer {s : Sys} (h : Honest s) (hwriter : s.writer = some s.latest)
    (hgood : findFail (s.status .hublogin) ≠ .ok true) : s.connected = true := by
  obtain ⟨hstatus, rest, hphase⟩ := h.writer s.latest hwriter
  obtain ⟨text, hreported, htext⟩ := Option.map_eq_some_iff.mp hstatus
  have htruthful := (contract defaultSettings).always_of_within (h.within s.latest)
  rcases htruthful _ hreported with hfail | hlogged
  · rw [← htext, findFail, hfail] at hgood
    exact absurd rfl hgood
  · unfold Sys.connected
    generalize hw : s.worker s.latest = w at hphase hlogged ⊢
    obtain ⟨phase, v⟩ := w
    subst hphase
    exact hlogged

theorem piece_ofExcept {α : Type} {result : Except LuaError α} {s : Sys}
    {Next : α → Sys → Prop} (h : Honest s) (hnext : ∀ a, result = .ok a → Next a s) :
    Ensures (Beside settings fresh) (Prog.ofExcept result) s (Piece Next) := by
  cases result with
  | ok a => exact ensures_ret.mpr ⟨h, hnext a rfl⟩
  | error err => exact ensures_raise.mpr ⟨h, h⟩

/-- What a read gives is what stands in the file, or nothing. -/
theorem status_of_acts {s s' : Sys} {key : StatusKey} {purpose : Purpose}
    {reply : Except LuaError (Option LuaVal)} {value : LuaVal}
    (hacts : Acts settings s (.getStatus key purpose) reply s')
    (hvalue : statusOf reply = .ok value) (hne : value ≠ .str []) :
    value = s.status key ∧ s' = { s with steady := true } := by
  obtain ⟨rfl | rfl | ⟨err, rfl⟩, rfl⟩ := hacts
  · rw [statusOf, Except.ok.injEq] at hvalue
    exact absurd hvalue.symm hne
  · rw [statusOf, Except.ok.injEq] at hvalue
    split at hvalue
    case isTrue => exact ⟨hvalue.symm, rfl⟩
    case isFalse => exact absurd hvalue.symm hne
  · cases hvalue

/-- A value read under `hublogin`, and what it says if it is a success. -/
theorem piece_getStatus {purpose : Purpose} (good : LuaVal → Prop) {s : Sys} (h : Honest s)
    (hgood : ∀ s reply value, statusOf reply = .ok value → good value →
      fresh.effect s (.getStatus .hublogin purpose) reply →
        value ≠ .str [] ∧ s.writer = some s.latest ∧ findFail value ≠ .ok true) :
    Ensures (Beside settings fresh) (getStatus .hublogin purpose) s
      (Piece fun value s' => Honest s' ∧ (good value → Seen s')) := by
  refine ensures_effect_bind.mpr ⟨h, ?_⟩
  rintro reply s' ⟨s₁, hworkers, hacts, hcond⟩
  have h₁ := workers_keep (fun _ _ => honest_workerStep) h hworkers
  have h' : Honest s' := honest_acts (e := .getStatus .hublogin purpose) rfl h₁ hacts
  refine piece_ofExcept h' fun value hvalue => ⟨h', fun hsuccess => ⟨h', fun _ => ?_⟩⟩
  obtain ⟨hne, hwriter, hok⟩ := hgood s₁ reply value hvalue hsuccess hcond
  obtain ⟨rfl, rfl⟩ := status_of_acts hacts hvalue hne
  show s₁.connected = true
  exact connected_of_writer h₁ hwriter hok

/-- Showing a connection that has been seen. -/
theorem piece_show {e : GuiEff} {s : Sys} (h : Seen s)
    (hshows : ∀ s reply s', Acts settings s e reply s' → fresh.effect s e reply →
      s.steady = true ∧ s'.worker = s.worker ∧ s'.writer = s.writer ∧ s'.status = s.status ∧
        s'.wrong = (s.wrong || !s.connected)) :
    Ensures (Beside settings fresh) (act e) s (Piece fun _ => Honest) := by
  refine ensures_perform.mpr ⟨h.1, ?_⟩
  rintro reply s' ⟨s₁, hworkers, hacts, hcond⟩
  obtain ⟨h₁, hseen⟩ := workers_keep (fun _ _ => seen_workerStep) h hworkers
  obtain ⟨hsteady, hworker, hwriter, hstatus, hwrong⟩ := hshows s₁ reply s' hacts hcond
  have h' : Honest s' := by
    refine { within := ?_, writer := ?_, right := ?_ }
    · rw [hworker]
      exact h₁.within
    · rw [hworker, hwriter, hstatus]
      exact h₁.writer
    · rw [hwrong, h₁.right, hseen hsteady]
      rfl
  exact ensures_ret.mpr ⟨h', h'⟩

/-- An effect on the window that comes between reading and showing. -/
theorem piece_seen {e : GuiEff} {s : Sys} (he : Discreet e) (h : Seen s)
    (hsame : ∀ s reply s', Acts settings s e reply s' →
      s'.worker = s.worker ∧ s'.latest = s.latest ∧ s'.steady = s.steady) :
    Ensures (Beside settings fresh) (act e) s (Piece fun _ => Seen) := by
  refine ensures_perform.mpr ⟨h.1, ?_⟩
  rintro reply s' ⟨s₁, hworkers, hacts, -⟩
  obtain ⟨h₁, hseen⟩ := workers_keep (fun _ _ => seen_workerStep) h hworkers
  have h' := honest_acts he h₁ hacts
  obtain ⟨hworker, hlatest, hsteady⟩ := hsame s₁ reply s' hacts
  refine ensures_ret.mpr ⟨h', h', ?_⟩
  unfold Sys.connected
  rw [hworker, hlatest, hsteady]
  exact hseen

theorem discreet_act {e : GuiEff} (h : discreet e = true) : (act e).Uses Discreet :=
  Prog.uses_effect h

theorem discreet_getStatus (key : StatusKey) (purpose : Purpose) :
    (getStatus key purpose).Uses Discreet :=
  (discreet_act rfl).bind fun reply => Prog.uses_ofExcept Discreet (statusOf reply)

theorem discreet_statusFails (key : StatusKey) (purpose : Purpose) :
    (statusFails key purpose).Uses Discreet :=
  (discreet_getStatus key purpose).bind fun value => Prog.uses_ofExcept Discreet (findFail value)

theorem discreet_statusIs (key : StatusKey) (purpose : Purpose) (text : Str) :
    (statusIs key purpose text).Uses Discreet :=
  (discreet_getStatus key purpose).bind fun _ => trivial

theorem discreet_broadcastValue (value : LuaVal) (color : Color) :
    (broadcastValue value color).Uses Discreet := by
  cases value with
  | table entries =>
      exact (discreet_act rfl).bind fun reply => Prog.uses_ofExcept Discreet reply
  | _ => exact (Prog.uses_ofExcept Discreet _).bind fun text => discreet_act rfl

theorem discreet_broadcastStatus (key : StatusKey) (color : Color) :
    (broadcastStatus key color).Uses Discreet :=
  (discreet_getStatus key .shown).bind fun value => discreet_broadcastValue value color

theorem discreet_broadcastSome (msg : Option Str) (color : Color) :
    (broadcastSome msg color).Uses Discreet := by
  cases msg with
  | none => trivial
  | some msg => exact discreet_act rfl

/-- Killing a worker shows no connection. -/
theorem discreet_killProcess (pid : Nat) : (killProcess pid).Uses Discreet := by
  unfold killProcess
  split
  case isFalse => exact discreet_act rfl
  case isTrue =>
    refine (discreet_act rfl).bind fun there => ?_
    split
    case isFalse => exact discreet_act rfl
    case isTrue =>
      refine (discreet_act rfl).bind fun ret => ?_
      split
      case isTrue =>
        exact (discreet_act rfl).bind fun _ => (discreet_act rfl).bind fun _ => discreet_act rfl
      case isFalse =>
        exact (discreet_act rfl).bind fun _ => (discreet_act rfl).bind fun _ =>
          (discreet_act rfl).bind fun _ => discreet_act rfl

/-- Waiting for one shows none either. -/
theorem discreet_checkHubconnect : checkHubconnect.Uses Discreet := by
  have hgiveUp : (Prog.bind getPid fun pid => Prog.bind (killProcess pid) fun _ =>
      (.ret false : GuiAct Bool)).Uses Discreet :=
    (discreet_act rfl).bind fun pid => (discreet_killProcess pid).bind fun _ => trivial
  refine (discreet_statusFails _ _).bind fun fails => ?_
  split
  case isTrue => exact (discreet_broadcastStatus _ _).bind fun _ => hgiveUp
  case isFalse =>
    refine (discreet_statusIs _ _ _).bind fun empty => ?_
    split
    case isTrue =>
      exact (discreet_act rfl).bind fun _ => (discreet_act rfl).bind fun _ =>
        (discreet_act rfl).bind fun _ => hgiveUp
    case isFalse => exact (discreet_broadcastStatus _ _).bind fun _ => trivial

theorem discreet_statusLost (key : StatusKey) : (statusLost key).Uses Discreet := by
  refine (discreet_statusFails _ _).bind fun fails => ?_
  split
  case isTrue => trivial
  case isFalse => exact discreet_statusIs _ _ _

/-- Nor does a check of a status. -/
theorem discreet_runCheck (run : Bool) (check : Check) : (runCheck run check).Uses Discreet := by
  have hend : (Prog.bind (broadcastSome check.onLost .red) fun _ =>
      (.ret false : GuiAct Bool)).Uses Discreet :=
    (discreet_broadcastSome _ _).bind fun _ => trivial
  cases run with
  | false => trivial
  | true =>
      refine (discreet_statusLost check.key).bind fun lost => ?_
      cases lost with
      | false =>
          exact (discreet_broadcastStatus _ _).bind fun _ =>
            (discreet_broadcastSome _ _).bind fun _ => (discreet_act rfl).bind fun _ => trivial
      | true =>
          refine (discreet_broadcastStatus _ _).bind fun _ => ?_
          split
          case isTrue =>
            exact (discreet_act rfl).bind fun pid => (discreet_killProcess pid).bind fun _ => hend
          case isFalse => exact hend

/-- Where the last check does not give up, a worker has logged in. -/
theorem piece_statusLost {s : Sys} (h : Honest s) :
    Ensures (Beside settings fresh) (statusLost .hublogin) s
      (Piece fun lost s' => Honest s' ∧ (lost = false → Seen s')) := by
  refine ensures_stage_bind (piece_discreet (discreet_statusFails _ _) h) fun fails s₁ h₁ => ?_
  split
  case isTrue => exact ensures_ret.mpr ⟨h₁, h₁, by rintro ⟨⟩⟩
  case isFalse =>
    refine ensures_stage_bind (piece_getStatus (fun value => value ≠ .str []) h₁ ?_) ?_
    · rintro s reply value hvalue hne hcond
      exact ⟨hne, hcond value hvalue hne⟩
    · rintro value s₂ ⟨h₂, hseen⟩
      refine ensures_ret.mpr ⟨h₂, h₂, fun hne => hseen fun hempty => ?_⟩
      rw [isText_iff.mpr hempty] at hne
      cases hne

/-- "LOGIN SUCCESSFUL" -/
theorem piece_checkHublogin {s : Sys} (h : Honest s) :
    Ensures (Beside settings fresh) checkHublogin s (Piece fun _ => Honest) := by
  refine ensures_stage_bind (piece_statusLost h) ?_
  rintro lost s₁ ⟨h₁, hseen⟩
  cases lost with
  | true => exact piece_discreet (discreet_broadcastStatus _ _) h₁
  | false =>
      refine ensures_stage_bind (piece_seen rfl (hseen rfl) ?_) fun _ s₂ h₂ =>
        ensures_stage_bind (piece_show h₂ ?_) fun _ s₃ h₃ =>
        ensures_stage_bind (piece_discreet (discreet_getStatus _ _) h₃) fun cipher s₄ h₄ =>
        ensures_stage_bind (piece_discreet (Prog.uses_ofExcept Discreet cipher.concatText) h₄)
          fun _ s₅ h₅ => piece_discreet (discreet_act rfl) h₅
      · rintro s reply s' rfl
        exact ⟨rfl, rfl, rfl⟩
      · rintro s reply s' rfl hcond
        exact ⟨hcond, rfl, rfl, rfl, rfl⟩

/-- So "LOGIN SUCCESSFUL" is logged for a session that is logged in. -/
theorem piece_followLogin {s : Sys} (h : Honest s) :
    Ensures (Beside settings fresh) followLogin s (Piece fun _ => Honest) := by
  refine ensures_stage_bind (piece_discreet discreet_checkHubconnect h) fun run s₁ h₁ =>
    ensures_stage_bind (piece_discreet (Prog.uses_foldlM discreet_runCheck checks run) h₁)
      fun run s₂ h₂ => ?_
  cases run with
  | true => exact piece_checkHublogin h₂
  | false =>
      refine piece_discreet ?_ h₂
      exact ((discreet_act rfl).bind fun _ => discreet_act rfl).bind fun _ =>
        (discreet_act rfl).bind fun _ => (discreet_act rfl).bind fun _ =>
        (discreet_act rfl).bind fun _ => (discreet_act rfl).bind fun pid =>
        (discreet_killProcess pid).bind fun _ => discreet_act rfl

/-- And `start_process` as a whole shows nothing that is not there. -/
theorem piece_startProcess {s : Sys} (h : Honest s) :
    Ensures (Beside settings fresh) startProcess s (Piece fun _ => Honest) := by
  refine ensures_stage_bind (piece_discreet (discreet_act rfl) h) fun cwd s₁ h₁ => ?_
  simp only
  split
  case isTrue => exact piece_discreet (discreet_act rfl) h₁
  case isFalse =>
    exact ensures_stage_bind (piece_discreet (discreet_act rfl) h₁) fun pid s₂ h₂ =>
      ensures_stage_bind (piece_discreet (discreet_act rfl) h₂) fun _ s₃ h₃ =>
      ensures_stage_bind (piece_discreet (discreet_act rfl) h₃) fun _ s₄ h₄ =>
      ensures_stage_bind (piece_discreet (discreet_act rfl) h₄) fun _ s₅ h₅ =>
      ensures_stage_bind (piece_discreet (discreet_act rfl) h₅) fun _ s₆ h₆ => piece_followLogin h₆

/-- The handler of CONNECT does not, as long as the checks read what is fresh. -/
theorem piece_onConnect {s : Sys} (h : Honest s) :
    Ensures (Beside settings fresh) onConnect s (Piece fun _ => Honest) := by
  refine ensures_stage_bind (piece_discreet (discreet_act rfl) h) fun broken s₁ h₁ => ?_
  split
  case isTrue => exact ensures_ret.mpr ⟨h₁, h₁⟩
  case isFalse =>
    refine ensures_stage_bind (piece_discreet (discreet_act rfl) h₁) fun broken s₂ h₂ => ?_
    split
    case isTrue => exact ensures_ret.mpr ⟨h₂, h₂⟩
    case isFalse =>
      refine ensures_stage_bind (piece_discreet (discreet_act rfl) h₂) fun _ s₃ h₃ =>
        ensures_stage_bind (piece_discreet (discreet_act rfl) h₃) fun _ s₄ h₄ =>
        ensures_stage_bind (piece_discreet (discreet_act rfl) h₄) fun _ s₅ h₅ =>
        ensures_stage_bind (piece_discreet (discreet_act rfl) h₅) fun _ s₆ h₆ =>
        ensures_stage_bind (piece_discreet ((discreet_act rfl).bind fun _ => discreet_act rfl) h₆)
          fun _ s₇ h₇ => ensures_stage_bind (piece_startProcess h₇) fun _ s₈ h₈ =>
        piece_discreet ?_ h₈
      exact (discreet_act rfl).bind fun _ => (discreet_act rfl).bind fun _ =>
        (discreet_act rfl).bind fun _ => (discreet_act rfl).bind fun _ => discreet_act rfl

/-- DISCONNECT shows no connection. -/
theorem discreet_onDisconnect : onDisconnect.Uses Discreet :=
  (discreet_act rfl).bind fun _ => (discreet_act rfl).bind fun _ =>
    (discreet_act rfl).bind fun _ => (discreet_act rfl).bind fun _ =>
    ((discreet_act rfl).bind fun _ => discreet_act rfl).bind fun _ =>
    (discreet_act rfl).bind fun pid => (discreet_killProcess pid).bind fun _ =>
    (discreet_act rfl).bind fun _ => (discreet_act rfl).bind fun _ =>
    (discreet_act rfl).bind fun _ => (discreet_act rfl).bind fun _ =>
    (discreet_act rfl).bind fun _ => (discreet_act rfl).bind fun _ => discreet_act rfl

/-- The green light. -/
theorem piece_onConnStatus {s : Sys} (h : Honest s) :
    Ensures (Beside settings fresh) onConnStatus s (Piece fun _ => Honest) := by
  refine ensures_stage_bind (piece_discreet (discreet_act rfl) h) fun _ s₁ h₁ =>
    ensures_stage_bind (piece_discreet (discreet_act rfl) h₁) fun _ s₂ h₂ =>
    ensures_stage_bind (piece_discreet (discreet_statusFails _ _) h₂) fun fails s₃ h₃ => ?_
  split
  case isTrue => exact piece_discreet ((discreet_act rfl).bind fun _ => discreet_act rfl) h₃
  case isFalse =>
    have hcomplete : Ensures (Beside settings fresh)
        (statusIs .hublogin .complete (lit "Login complete.")) s₃
        (Piece fun complete s' => Honest s' ∧ (complete = true → Seen s')) := by
      refine ensures_stage_bind
        (piece_getStatus (fun value => value = .str (lit "Login complete.")) h₃ ?_) ?_
      · rintro s reply value hvalue rfl hcond
        refine ⟨fun hempty => ?_, hcond hvalue, fun hfails => ?_⟩
        · rw [LuaVal.str.injEq] at hempty
          revert hempty
          decide
        · rw [findFail, Except.ok.injEq] at hfails
          revert hfails
          decide
      · rintro value s₄ ⟨h₄, hseen⟩
        exact ensures_ret.mpr ⟨h₄, h₄, fun hsame => hseen (isText_iff.mp hsame)⟩
    refine ensures_stage_bind hcomplete ?_
    rintro complete s₄ ⟨h₄, hseen⟩
    split
    case isFalse => exact ensures_ret.mpr ⟨h₄, h₄⟩
    case isTrue hshown =>
      refine ensures_stage_bind (piece_seen rfl (hseen hshown) ?_) fun _ s₅ h₅ =>
        piece_show h₅ ?_
      · rintro s reply s' rfl
        exact ⟨rfl, rfl, rfl⟩
      · rintro s reply s' rfl hcond
        exact ⟨hcond, rfl, rfl, rfl, rfl⟩

/-- And neither does closing the window. -/
theorem discreet_reap : reap.Uses Discreet := by
  refine (discreet_act rfl).bind fun pid => ?_
  split
  case isFalse => trivial
  case isTrue =>
    refine (discreet_act rfl).bind fun there => ?_
    split
    case isTrue => exact (discreet_act rfl).bind fun _ => discreet_act rfl
    case isFalse => exact discreet_act rfl

/-- No handler does: a case for every event. -/
theorem piece_handler {s s₁ : Sys} {event : Event} (h : Honest s) (hfires : Fires s event s₁) :
    Ensures (Beside settings fresh) (handler event) s₁ (Piece fun _ => Honest) := by
  cases hfires with
  | connect _ _ => exact piece_onConnect h
  | disconnect _ _ => exact piece_discreet discreet_onDisconnect h
  | connStatus _ _ => exact piece_onConnStatus h
  | ended pid _ _ =>
      refine piece_discreet ?_ ?_
      · exact (discreet_act rfl).bind fun _ => (discreet_act rfl).bind fun _ => discreet_act rfl
      · exact { within := h.within, writer := h.writer, right := h.right }
  | close _ => exact piece_discreet (discreet_reap.bind fun _ => discreet_act rfl) h
  | destroy => exact piece_discreet ((discreet_act rfl).bind fun _ => discreet_reap) h

end

/-! ## Every run -/

/-- **Only connections that are there.**  In no run whose steps show nothing
stale has the light been switched to "connected" or "LOGIN SUCCESSFUL" been
logged while the running worker was not in a session with its login complete. -/
theorem shown_connected {settings : Settings} {s : Sys}
    (hreach : Reachable settings fresh s) : s.wrong = false := by
  refine (reachable_invariant (I := Honest) (J := Honest) honest_start (fun _ h => h)
    (fun _ _ => honest_workerStep) (fun _ _ => honest_workerStep) ?_ hreach).right
  intro s s₁ event hs hfires _
  have hhonest : Ensures (Beside settings fresh) (handler event) s₁ fun _ => Honest :=
    ensures_of_stage (piece_handler hs hfires) fun _ _ hs' => hs'
  exact hhonest.mono fun _ _ hs' => ⟨hs', fun _ => hs'⟩

/-- One click on CONNECT with a status file from an earlier login in place: the
worker has only just been started when the GUI calls its login successful. -/
theorem connect_leftBehind_shown :
    ¬ ∀ (settings : Settings) (s : Sys), Reachable settings anything s → s.wrong = false := by
  intro hall
  let s := (handler .connect).run (scripted defaultSettings id fun _ _ _ => true)
    (Sys.start (withTexts leftBehind))
  have hreach : Reachable defaultSettings anything s.2 :=
    .during (.start (withTexts leftBehind)) (.connect rfl rfl) trivial
      (exec_scripted (workers_asleep _) (fun _ _ _ _ => trivial) _ _) .refl
  have hshown : s.2.wrong = true := by decide
  rw [hall defaultSettings s.2 hreach] at hshown
  cases hshown

/-! ## A login that goes well -/

/-- What an effect of the worker `p` leaves in the file. -/
def wrote (s : Sys) (p : Nat) : Eff → Sys
  | .status key text => s.emitted p key text true
  | _ => s

/-- The worker 1234 at a hub that sends what the login needs. -/
def willing (w : Sys × Session × List Str) (e : Eff) :
    Option (Reply e × (Sys × Session × List Str)) :=
  (willingHub w.2.2 e).map fun (reply, lines) =>
    (reply, wrote w.1 1234 e, w.2.1.observe e reply, lines)

theorem moved_moved (s : Sys) (p : Nat) (w w' : Phase × Session) :
    (s.moved p w).moved p w' = s.moved p w' := by
  simp [Sys.moved, Function.update_idem]

/-- One effect of the worker of the example is one step of the system. -/
theorem workerStep_did {settings : Settings} {s : Sys} {e : Eff} {k : Reply e → Act Unit}
    {v : Session} (reply : Reply e) :
    WorkerStep settings (s.moved 1234 (.session (.perform e k), v))
      ((wrote s 1234 e).moved 1234 (.session (k reply), v.observe e reply)) := by
  have hmove : Moves Session.Step Session.over settings
      ((s.moved 1234 (.session (.perform e k), v)).worker 1234) (.did e)
      (.session (k reply), v.observe e reply) := by
    simp only [Sys.moved, Function.update_self]
    exact .perform rfl
  have hsame := moved_moved s 1234 (.session (.perform e k), v)
    (.session (k reply), v.observe e reply)
  by_cases hstatus : ∃ key text, e = .status key text
  · obtain ⟨key, text, rfl⟩ := hstatus
    have hstep := WorkerStep.emits true hmove
    rw [hsame] at hstep
    exact hstep
  · have hstep := WorkerStep.acts hmove fun key text he => hstatus ⟨key, text, he⟩
    rw [hsame] at hstep
    have hwrote : wrote s 1234 e = s := by
      unfold wrote
      split
      case h_1 key text => exact absurd ⟨key, text, rfl⟩ hstatus
      case h_2 => rfl
    rw [hwrote]
    exact hstep

/-- Its steps up to where it waits are steps of the system, by induction on the session. -/
theorem workers_advance (settings : Settings) (p : Act Unit) :
    ∀ w : Sys × Session × List Str,
      Workers settings (w.1.moved 1234 (.session p, w.2.1))
        ((p.advance willing w).2.1.moved 1234
          (.session (p.advance willing w).1, (p.advance willing w).2.2.1)) := by
  induction p with
  | ret a => exact fun w => .refl
  | exit b => exact fun w => .refl
  | raise err => exact fun w => .refl
  | perform e k ih =>
      intro w
      cases hw : willing w e with
      | none =>
          simp only [Prog.advance, hw]
          exact .refl
      | some answered =>
          obtain ⟨reply, w'⟩ := answered
          simp only [Prog.advance, hw]
          obtain ⟨⟨reply', lines⟩, -, hpair⟩ := Option.map_eq_some_iff.mp hw
          simp only [Prod.mk.injEq] at hpair
          obtain ⟨rfl, rfl⟩ := hpair
          exact .head (workerStep_did reply')
            (ih reply' (wrote w.1 1234 e, w.2.1.observe e reply', lines))

/-- While the GUI sleeps, the worker logs in. -/
def logsIn (s : Sys) : Sys :=
  match s.worker 1234 with
  | (.session p, v) =>
      let w := p.advance willing (s, v, [lit "ISUP ADOSNR", lit "ISID AAAA", lit "IINF CT32",
        lit "IGPA MFRGGZDF", lit "BINF AAAA CT2"])
      w.2.1.moved 1234 (.session w.1, w.2.2.1)
  | _ => s

/-- So is its way through the login. -/
theorem workers_logsIn (settings : Settings) (s : Sys) : Workers settings s (logsIn s) := by
  unfold logsIn
  split
  case h_1 p v hw =>
    have hself : s.moved 1234 (.session p, v) = s := by
      rw [← hw]
      simp [Sys.moved]
    have hrun := workers_advance settings p (s, v, [lit "ISUP ADOSNR",
      lit "ISID AAAA", lit "IINF CT32", lit "IGPA MFRGGZDF", lit "BINF AAAA CT2"])
    rw [hself] at hrun
    exact hrun
  case h_2 => exact .refl

/-- Nothing stale is read. -/
def freshReply (s : Sys) : (e : GuiEff) → GuiReply e → Bool
  | .getStatus .hublogin .complete, _ => s.writer == some s.latest
  | .getStatus .hublogin .empty, .ok (some (.str text)) =>
      s.writer == some s.latest && !failing text
  | .getStatus .hublogin .empty, _ => false
  | .setConnLed .connected, _ => s.steady
  | .loginSuccessful, _ => s.steady
  | _, _ => true

/-- What the example answers to the last check is the text of the youngest worker, and no
failure. -/
theorem freshReply_getStatus {s : Sys} {reply : Except LuaError (Option LuaVal)}
    (h : freshReply s (.getStatus .hublogin .empty) reply = true) :
    ∃ text, reply = .ok (some (.str text)) ∧ s.writer = some s.latest ∧ failing text = false := by
  cases reply with
  | error err => cases h
  | ok found =>
      cases found with
      | none => cases h
      | some value =>
          cases value with
          | str text =>
              simp only [freshReply, Bool.and_eq_true, Bool.not_eq_true'] at h
              exact ⟨text, rfl, eq_of_beq h.1, h.2⟩
          | _ => cases h

/-- So its answers are those of a run that `fresh` leaves in. -/
theorem fresh_freshReply {s : Sys} {e : GuiEff} {reply : GuiReply e}
    (h : freshReply s e reply = true) : fresh.effect s e reply := by
  cases e with
  | getStatus key purpose =>
      cases key with
      | hublogin =>
          cases purpose with
          | complete => exact fun _ => eq_of_beq h
          | empty =>
              obtain ⟨text, rfl, hwriter, hgood⟩ := freshReply_getStatus h
              intro value hvalue _
              rw [statusOf_text, Except.ok.injEq] at hvalue
              refine ⟨hwriter, fun hfails => ?_⟩
              rw [← hvalue, findFail, hgood] at hfails
              cases hfails
          | _ => trivial
      | _ => trivial
  | setConnLed state =>
      cases state with
      | connected => exact h
      | reconnecting => trivial
      | disconnected => trivial
  | loginSuccessful => exact h
  | _ => trivial

/-- CONNECT, and a look at the connection: it is shown, and it is there. -/
theorem shown_connected_login : ∃ s : Sys, Reachable defaultSettings fresh s ∧
    s.led = .connected ∧ s.connected = true ∧ s.wrong = false := by
  let s₁ := (handler .connect).run (scripted defaultSettings logsIn freshReply)
    (Sys.start fun _ => .nil)
  let s₂ := (handler .connStatus).run (scripted defaultSettings logsIn freshReply) s₁.2
  have hstarted : s₁.1 ≠ .running ∧ s₁.2.closed = false ∧ s₁.2.polling = true := by
    decide
  have hpolled : s₂.2.led = .connected ∧ s₂.2.connected = true := by decide
  obtain ⟨hdone, hopen, hpolling⟩ := hstarted
  obtain ⟨hled, hconnected⟩ := hpolled
  have hidle : Idle defaultSettings fresh s₁.2 :=
    .handled (.start fun _ => .nil) (.connect rfl rfl) trivial
      (exec_scripted (workers_logsIn _) (fun _ _ _ => fresh_freshReply) _ _) hdone
  have hreach : Reachable defaultSettings fresh s₂.2 :=
    .during hidle (.connStatus hopen hpolling) trivial
      (exec_scripted (workers_logsIn _) (fun _ _ _ => fresh_freshReply) _ _) .refl
  exact ⟨s₂.2, hreach, hled, hconnected, shown_connected hreach⟩

end LuadchAnnouncer.Frontends.GuiStatus
