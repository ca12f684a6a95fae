import LuadchAnnouncer.Adclib.Hash
import LuadchAnnouncer.Core.NetBinf
import LuadchAnnouncer.Core.NetTls

/-!
# What a hub is sent

Whatever OpenSSL takes of a frame at once, and wherever the connection fails, the bytes
a hub is sent are the frames of the session, one line each, and perhaps the beginning
of one more.  The releases that are logged are those whose `BMSG` has gone out whole.

OpenSSL may fail with an error that has no text.  Then nothing that `client:send` returns
tells of the failure, and the session goes on as if the frame had gone out: `Misled` is
what can be said from there on.  `Whole` is the state of a session whose frames have all
been taken, and `Cut` that of one whose last frame has not, and which has been told.

## Main results

* `Misled.step`, `going_good`, `going_bad` — what one effect of a session does to the
  three states.
* `loop_stage` — the session as a whole, over the lemmas about its stages.
* `accounts_of_delivers` — from the bytes that were sent, the hub reads back the frames
  and no others.
* `loop_delivers` — the releases that are logged are those of the whole frames.
-/

namespace LuadchAnnouncer.Core.NetDelivers

open LuadchAnnouncer.Verified.Bytes
open LuadchAnnouncer.Verified.LuaValue
open LuadchAnnouncer.Verified.Program
open LuadchAnnouncer.Verified.FailStop
open LuadchAnnouncer.Adclib
open LuadchAnnouncer.Luasec.Buffer (Texts)
open LuadchAnnouncer.Core.Net
open LuadchAnnouncer.Core.NetTrace
open LuadchAnnouncer.Core.NetTls
open LuadchAnnouncer.Core.Announce (Rule)
open LuadchAnnouncer.Core.NetBinf (notMem_tostring)

/-! ## Frames are lines -/

/-- A text that is one line. -/
def IsLine (s : Str) : Prop := ∃ body, lf ∉ body ∧ s = body ++ [lf]

theorem IsLine.append {s : Str} (h : IsLine s) {a : Str} (ha : lf ∉ a) : IsLine (a ++ s) := by
  obtain ⟨body, hbody, rfl⟩ := h
  refine ⟨a ++ body, ?_, by rw [List.append_assoc]⟩
  rw [List.mem_append]
  exact not_or.mpr ⟨ha, hbody⟩

/-- What a session is given ends no line: the identity, and the texts of the hash. -/
structure Plain (settings : Settings) : Prop where
  pid : lf ∉ settings.id.pid
  cid : lf ∉ settings.id.cid
  tiger : ∀ pass salt, lf ∉ settings.tiger pass salt

section

variable {settings : Settings}

theorem isLine_hsup : IsLine (Frame.hsup.wire settings) :=
  ⟨lit "HSUP ADBASE ADTIGR ADOSNR ADKEYP ADADCS ADADC0", by decide, rfl⟩

theorem isLine_hpas {pas : Str} (hpas : lf ∉ pas) : IsLine ((Frame.hpas pas).wire settings) := by
  show IsLine (lit "HPAS " ++ pas ++ lit "\n")
  rw [List.append_assoc]
  exact (IsLine.append ⟨[], List.not_mem_nil, rfl⟩ hpas).append (by decide)

theorem isLine_infCount {sid hubcount : Str} (hsid : lf ∉ sid) (hcount : lf ∉ hubcount) :
    IsLine ((Frame.infCount sid hubcount).wire settings) := by
  show IsLine (lit "BINF " ++ sid ++ lit " " ++ hubcount ++ lit "\n")
  simp only [List.append_assoc]
  have hend : IsLine (lit "\n") := ⟨[], List.not_mem_nil, rfl⟩
  exact (((hend.append hcount).append (by decide)).append hsid).append (by decide)

/-- The frame of an announcement is one line: everything in it that comes from outside is
escaped. -/
theorem isLine_bmsg {sid : Str} (hsid : lf ∉ sid) (command category release : Str) :
    IsLine ((Frame.bmsg sid command category release).wire settings) := by
  show IsLine (lit "BMSG " ++ sid ++ lit " " ++
    escape (command ++ lit " " ++ category ++ lit " " ++ release) ++ lit "\n")
  have hend : IsLine (lit "\n") := ⟨[], List.not_mem_nil, rfl⟩
  have htext := lf_notMem_escape (command ++ lit " " ++ category ++ lit " " ++ release)
  rw [List.append_assoc _ _ (lit "\n"), List.append_assoc _ (lit " "), List.append_assoc _ sid]
  exact (((hend.append htext).append (by decide)).append hsid).append (by decide)

/-- The keep-alive is a line with nothing but the SID in it. -/
theorem isLine_keepAlive {sid : Str} (hsid : lf ∉ sid) :
    IsLine ((Frame.keepAlive sid).wire settings) := by
  show IsLine (clientKeepingAlive sid)
  rw [clientKeepingAlive]
  have hend : IsLine (lit "\n") := ⟨[], List.not_mem_nil, rfl⟩
  simp only [List.append_assoc]
  exact (((((hend.append (lf_notMem_escape version)).append (by decide)).append
    (lf_notMem_escape bottag)).append (by decide)).append hsid).append (by decide)

/-- The first description is one line: every text in it is escaped or base32, and a number
has no line feed. -/
theorem isLine_inf (hplain : Plain settings) {sid : Str} (hsid : lf ∉ sid) :
    IsLine ((Frame.inf sid).wire settings) := by
  show IsLine (clientBinf settings sid)
  have hend : IsLine (lit " I40.0.0.0\n") := ⟨lit " I40.0.0.0", by decide, rfl⟩
  apply hend.append
  have hnick := lf_notMem_escape settings.hub.nick
  have hdesc := lf_notMem_escape settings.cfg.botdesc
  have hshare := (notMem_tostring settings.bshare).2
  have hslots := (notMem_tostring (settings.cfg.botslots.numberOr 0)).2
  have hupload := (notMem_tostring (settings.cfg.botupload.numberOr 0)).2
  have htag := lf_notMem_escape bottag
  have hversion := lf_notMem_escape version
  simp only [List.mem_append, not_or]
  and_intros
  -- the parts of the frame are compared as they stand: unfolding a text is no help here
  all_goals first
    | with_reducible assumption
    | with_reducible exact hplain.pid
    | with_reducible exact hplain.cid
    | decide

end

/-! ## What has gone out -/

/-- The names that are announced in these frames. -/
def announced (frames : List Frame) : List Str :=
  frames.filterMap fun
    | .bmsg _ _ _ release => some release
    | _ => none

/-- The bytes of frames. -/
def bytesOf (settings : Settings) (frames : List Frame) : Str :=
  frames.flatMap (Frame.wire settings)

theorem announced_append (frames frames' : List Frame) :
    announced (frames ++ frames') = announced frames ++ announced frames' :=
  List.filterMap_append

theorem bytesOf_append (settings : Settings) (frames frames' : List Frame) :
    bytesOf settings (frames ++ frames') = bytesOf settings frames ++ bytesOf settings frames' :=
  List.flatMap_append

theorem bytesOf_singleton (settings : Settings) (frame : Frame) :
    bytesOf settings [frame] = frame.wire settings :=
  List.flatMap_singleton _ _

/-- Frames that are lines. -/
def Lines (settings : Settings) (frames : List Frame) : Prop :=
  ∀ frame ∈ frames, IsLine (frame.wire settings)

/-- One more frame that is a line. -/
theorem Lines.concat {settings : Settings} {frames : List Frame} {frame : Frame}
    (h : Lines settings frames) (hframe : IsLine (frame.wire settings)) :
    Lines settings (frames ++ [frame]) := by
  intro f hf
  rcases List.mem_append.mp hf with hold | hnew
  · exact h f hold
  · rw [List.mem_singleton] at hnew
    rw [hnew]
    exact hframe

/-- Every frame has gone out whole, and every `BMSG` is logged.  This is the state between
two effects of a session whose sends have all succeeded. -/
structure Whole (settings : Settings) (w : Wire) : Prop where
  bytes : w.outbound = bytesOf settings w.trace.sent
  lines : Lines settings w.trace.sent
  released : announced w.trace.sent = w.released
  noticed : w.unnoticed = false

/-- The last frame has been cut off, and the session has been told: the hub has the frames
before it and a part of the last, which is not logged. -/
def Cut (settings : Settings) (w : Wire) : Prop :=
  ∃ done frame part left, w.trace.sent = done ++ [frame] ∧ Lines settings w.trace.sent ∧
    w.outbound = bytesOf settings done ++ part ∧ frame.wire settings = part ++ left ∧ left ≠ [] ∧
    announced done = w.released ∧ w.unnoticed = false

/-- The last frame is a `BMSG` that is not logged yet.  The session logs it next, before
it sends anything else. -/
def Unlogged (settings : Settings) (w : Wire) : Prop :=
  ∃ release, w.outbound = bytesOf settings w.trace.sent ∧ Lines settings w.trace.sent ∧
    announced w.trace.sent = w.released ++ [release] ∧ w.unnoticed = false

/-- A frame has been cut off and the session has not been told: whatever it has sent since,
the release of that frame is among the logged ones. -/
def Misled (settings : Settings) (w : Wire) (logged : List Str) : Prop :=
  w.unnoticed = true ∧ ∃ done frame part left rest more,
    w.trace.sent = done ++ frame :: rest ∧ Lines settings (done ++ [frame]) ∧
    w.outbound = bytesOf settings done ++ part ++ more ∧
    frame.wire settings = part ++ left ∧ left ≠ [] ∧ announced (done ++ [frame]) <+: logged

/-- A session that has been told of no failure: none has happened, or it was one without a
text. -/
def Going (settings : Settings) (w : Wire) : Prop :=
  Whole settings w ∨ Misled settings w w.released

/-- The `BMSG` that has just been sent is logged next. -/
def Pending (settings : Settings) (w : Wire) : Prop :=
  Unlogged settings w ∨ ∃ release, Misled settings w (w.released ++ [release])

/-- The frames that log nothing. -/
def Unannounced (settings : Settings) (frame : Frame) : Prop :=
  IsLine (frame.wire settings) ∧ announced [frame] = []

theorem whole_start (settings : Settings) : Whole settings {} := ⟨rfl, nofun, rfl, rfl⟩

section

variable {settings : Settings} {texts : Texts} {w w' : Wire}

/-- A step that sends nothing and logs nothing keeps the account. -/
theorem Whole.keep (h : Whole settings w) (hsent : w'.trace.sent = w.trace.sent)
    (hout : w'.outbound = w.outbound) (hreleased : w'.released = w.released)
    (hunnoticed : w'.unnoticed = w.unnoticed) : Whole settings w' where
  bytes := by rw [hout, hsent, h.bytes]
  lines := by
    rw [hsent]
    exact h.lines
  released := by rw [hsent, hreleased, h.released]
  noticed := by rw [hunnoticed, h.noticed]

/-- A read changes nothing that has gone out or been logged. -/
theorem same_of_received {reply : Except (Option Str) Str} (h : Received texts w reply w') :
    w'.trace.sent = w.trace.sent ∧ w'.outbound = w.outbound ∧ w'.released = w.released ∧
      w'.unnoticed = w.unnoticed := by
  obtain ⟨calls, conn, -, rfl⟩ := h
  refine ⟨?_, rfl, rfl, rfl⟩
  cases reply with
  | error err =>
      cases err with
      | none => rfl
      | some err => rfl
  | ok line =>
      show (w.trace.read line).sent = w.trace.sent
      rw [Trace.read]
      split
      · rfl
      · rfl

/-- A frame the session takes for sent: all of it has gone out, or an error without a text
has kept some of it back. -/
theorem sent_ok {frame : Frame} (hsent : Sent settings texts w frame (.ok ()) w') :
    w'.trace.sent = w.trace.sent ++ [frame] ∧ w'.released = w.released ∧
      ((w'.outbound = w.outbound ++ frame.wire settings ∧ w'.unnoticed = w.unnoticed) ∨
        ∃ part left, frame.wire settings = part ++ left ∧ left ≠ [] ∧
          w'.outbound = w.outbound ++ part ∧ w'.unnoticed = true) := by
  obtain ⟨taken, left, answer, hwire, hiff, hseen, -, heq⟩ := sent_spec hsent
  rw [heq]
  refine ⟨rfl, rfl, ?_⟩
  cases answer with
  | ok u =>
      rw [hiff.mp rfl, List.append_nil] at hwire
      exact Or.inl ⟨by rw [hwire], Bool.or_false _⟩
  | error err =>
      have hleft : left ≠ [] := fun hnil => by cases hiff.mpr hnil
      cases err with
      | some err => cases hseen
      | none => exact Or.inr ⟨taken, left, hwire, hleft, rfl, Bool.or_true _⟩

/-- A frame that has failed with a text. -/
theorem Whole.cut {frame : Frame} {err : Str} (h : Whole settings w)
    (hline : IsLine (frame.wire settings))
    (hsent : Sent settings texts w frame (.error err) w') : Cut settings w' := by
  obtain ⟨taken, left, answer, hwire, hiff, hseen, -, heq⟩ := sent_spec hsent
  cases answer with
  | ok u => cases hseen
  | error reason =>
      have hleft : left ≠ [] := fun hnil => by cases hiff.mpr hnil
      cases reason with
      | none => cases hseen
      | some reason =>
          refine ⟨w.trace.sent, frame, taken, left, by rw [heq], ?_, ?_, hwire, hleft, ?_, ?_⟩
          · rw [heq]
            exact h.lines.concat hline
          · rw [heq, ← h.bytes]
          · rw [heq]
            exact h.released
          · rw [heq, h.noticed]
            rfl

/-- A frame that was taken for sent, whole or not. -/
theorem Whole.sent {frame : Frame} {logged : List Str} (h : Whole settings w)
    (hline : IsLine (frame.wire settings))
    (hlogged : announced (w.trace.sent ++ [frame]) = logged)
    (hsent : Sent settings texts w frame (.ok ()) w') :
    (w'.outbound = bytesOf settings w'.trace.sent ∧ Lines settings w'.trace.sent ∧
      announced w'.trace.sent = logged ∧ w'.unnoticed = false) ∨ Misled settings w' logged := by
  obtain ⟨htrace, -, hall | ⟨part, left, hwire, hleft, hout, hunnoticed⟩⟩ := sent_ok hsent
  · obtain ⟨hout, hunnoticed⟩ := hall
    refine Or.inl ⟨?_, ?_, ?_, ?_⟩
    · rw [hout, htrace, bytesOf_append, bytesOf_singleton, h.bytes]
    · rw [htrace]
      exact h.lines.concat hline
    · rw [htrace, hlogged]
    · rw [hunnoticed, h.noticed]
  · refine Or.inr ⟨hunnoticed, w.trace.sent, frame, part, left, [], [], htrace,
      h.lines.concat hline, ?_, hwire, hleft, ?_⟩
    · rw [hout, h.bytes, List.append_nil]
    · rw [hlogged]

/-! ## A session that does not know -/

theorem Misled.mono {logged logged' : List Str} (h : Misled settings w logged)
    (hlogged : logged <+: logged') : Misled settings w logged' := by
  obtain ⟨hunnoticed, done, frame, part, left, rest, more, hsent, hlines, hout, hwire, hleft,
    hprefix⟩ := h
  exact ⟨hunnoticed, done, frame, part, left, rest, more, hsent, hlines, hout, hwire, hleft,
    hprefix.trans hlogged⟩

/-- What comes behind the cut does not undo it. -/
theorem Misled.grow {logged : List Str} (h : Misled settings w logged)
    (hunnoticed : w'.unnoticed = true) (hsent : ∃ frames, w'.trace.sent = w.trace.sent ++ frames)
    (hout : ∃ bytes, w'.outbound = w.outbound ++ bytes) : Misled settings w' logged := by
  obtain ⟨-, done, frame, part, left, rest, more, htrace, hlines, hbytes, hwire, hleft,
    hprefix⟩ := h
  obtain ⟨frames, hsent⟩ := hsent
  obtain ⟨bytes, hout⟩ := hout
  refine ⟨hunnoticed, done, frame, part, left, rest ++ frames, more ++ bytes, ?_, hlines, ?_, hwire,
    hleft, hprefix⟩
  · rw [hsent, htrace, List.append_assoc, List.cons_append]
  · rw [hout, hbytes, List.append_assoc]

/-- **Nothing tells the session.**  Whatever it performs next, it stays misled. -/
theorem Misled.step {logged : List Str} {e : Eff} {reply : Reply e} (h : Misled settings w logged)
    (hstep : OverTls settings texts w e reply w') : Misled settings w' logged := by
  have hunnoticed := h.1
  cases e with
  | receive =>
      obtain ⟨hsent, hout, -, hsame⟩ := same_of_received hstep
      exact h.grow (by rw [hsame, hunnoticed]) ⟨[], by rw [hsent, List.append_nil]⟩
        ⟨[], by rw [hout, List.append_nil]⟩
  | send frame =>
      obtain ⟨taken, left, answer, -, -, -, -, heq⟩ := sent_spec hstep
      rw [heq]
      exact h.grow (by rw [hunnoticed, Bool.true_or]) ⟨[frame], rfl⟩ ⟨taken, rfl⟩
  | release name =>
      rw [show w' = _ from hstep]
      exact h.grow hunnoticed ⟨[], (List.append_nil _).symm⟩ ⟨[], (List.append_nil _).symm⟩
  | _ =>
      have hsame := same_of_harmless hstep rfl
      exact h.grow (by rw [hsame.unnoticed, hunnoticed])
        ⟨[], by rw [hsame.sent, List.append_nil]⟩ ⟨[], by rw [hsame.outbound, List.append_nil]⟩

/-- The log of releases only grows. -/
theorem released_grows {e : Eff} {reply : Reply e} (hstep : OverTls settings texts w e reply w') :
    w.released <+: w'.released := by
  cases e with
  | receive =>
      obtain ⟨-, -, hreleased, -⟩ := same_of_received hstep
      rw [hreleased]
  | send frame =>
      obtain ⟨taken, left, answer, -, -, -, -, heq⟩ := sent_spec hstep
      rw [heq]
  | release name =>
      rw [show w' = _ from hstep]
      exact List.prefix_append _ _
  | _ =>
      have hsame := same_of_harmless hstep rfl
      rw [hsame.released]

theorem Misled.next {e : Eff} {reply : Reply e} (h : Misled settings w w.released)
    (hstep : OverTls settings texts w e reply w') : Misled settings w' w'.released :=
  (h.step hstep).mono (released_grows hstep)

/-! ## One effect -/

theorem going_harmless {e : Eff} {reply : Reply e} (he : Harmless e) (h : Going settings w)
    (hstep : OverTls settings texts w e reply w') : Going settings w' := by
  rcases h with hwhole | hmisled
  · have hsame := same_of_harmless hstep he
    exact Or.inl (hwhole.keep hsame.sent hsame.outbound hsame.released hsame.unnoticed)
  · exact Or.inr (hmisled.next hstep)

/-- So the account is kept by it. -/
theorem going_received {reply : Except (Option Str) Str} (h : Going settings w)
    (hstep : Received texts w reply w') : Going settings w' := by
  rcases h with hwhole | hmisled
  · obtain ⟨hsent, hout, hreleased, hunnoticed⟩ := same_of_received hstep
    exact Or.inl (hwhole.keep hsent hout hreleased hunnoticed)
  · have hstep : OverTls settings texts w .receive reply w' := hstep
    exact Or.inr (hmisled.next hstep)

/-- A step whose call has not failed keeps the account.  A send that has failed unnoticed is
one of these, and from there on the session is misled. -/
theorem going_good {e : Eff} {reply : Reply e} (he : Allowed (Unannounced settings) e)
    (h : Going settings w) (hstep : OverTls settings texts w e reply w')
    (hgood : ¬ failedCall e reply) : Going settings w' := by
  cases e with
  | receive => exact going_received h hstep
  | send frame =>
      cases reply with
      | error err => exact absurd trivial hgood
      | ok u =>
          rcases h with hwhole | hmisled
          · have hlogged : announced (w.trace.sent ++ [frame]) = w'.released := by
              rw [announced_append, he.2, List.append_nil, hwhole.released, (sent_ok hstep).2.1]
            rcases hwhole.sent he.1 hlogged hstep with ⟨hbytes, hlines, hnames, hnoticed⟩ | hmisled
            · exact Or.inl ⟨hbytes, hlines, hnames, hnoticed⟩
            · exact Or.inr hmisled
          · exact Or.inr (hmisled.next hstep)
  | release name => exact he.elim
  | _ =>
      refine going_harmless ?_ h hstep
      exact rfl

/-- A call that fails with a text either sent nothing, or has cut off the last frame. -/
theorem going_bad {e : Eff} {reply : Reply e} (he : Allowed (Unannounced settings) e)
    (h : Going settings w) (hstep : OverTls settings texts w e reply w')
    (hbad : failedCall e reply) : Going settings w' ∨ Cut settings w' := by
  cases e with
  | receive => exact Or.inl (going_received h hstep)
  | send frame =>
      cases reply with
      | ok u => exact hbad.elim
      | error err =>
          rcases h with hwhole | hmisled
          · exact Or.inr (hwhole.cut he.1 hstep)
          · exact Or.inl (Or.inr (hmisled.next hstep))
  | _ => exact hbad.elim

/-- Behind a cut frame nothing more is sent. -/
theorem Cut.same (h : Cut settings w) (hsame : Same w w') : Cut settings w' := by
  obtain ⟨done, frame, part, left, hsent, hlines, hout, hwire, hleft, hreleased, hnoticed⟩ := h
  refine ⟨done, frame, part, left, ?_, ?_, ?_, hwire, hleft, ?_, ?_⟩
  · rw [hsame.sent, hsent]
  · rw [hsame.sent]
    exact hlines
  · rw [hsame.outbound, hout]
  · rw [hsame.released, hreleased]
  · rw [hsame.unnoticed, hnoticed]

/-! ## The stages of a session -/

/-- The end of a session. -/
def Ended (settings : Settings) (w : Wire) : Prop := Going settings w ∨ Cut settings w

theorem ended_harmless {e : Eff} {reply : Reply e} (he : Harmless e) (h : Ended settings w)
    (hstep : OverTls settings texts w e reply w') : Ended settings w' :=
  h.imp (fun hgoing => going_harmless he hgoing hstep)
    fun hcut => hcut.same (same_of_harmless hstep he)

variable {α β : Type}

/-- A stage of a session. -/
def Stage (settings : Settings) (o : Outcome LuaError Bool α) (w : Wire) : Prop :=
  Kept (Going settings) (Ended settings) (Pending settings) o w

/-- A piece of the session that stops when it is told of a failure keeps the account to its
end. -/
theorem stage_of_careful {p : Act α} (hp : Careful (Unannounced settings) p)
    (h : Going settings w) : Ensures (OverTls settings texts) p w (Stage settings) := by
  refine ensures_stopsOn ?_ ?_ ?_ hp w h
  · intro w e reply w' he hw hstep hgood
    exact going_good he hw hstep hgood
  · intro w e reply w' he hw hstep hbad
    exact going_bad he hw hstep hbad
  · intro w e reply w' he hw hstep
    exact ended_harmless he hw hstep

theorem stage_of_uses {p : Act α} (hp : p.Uses Harmless) (h : Going settings w) :
    Ensures (OverTls settings texts) p w (Stage settings) :=
  stage_of_careful (careful_of_uses hp) h

theorem stage_bind {p : Act α} {f : α → Act β}
    (hp : Ensures (OverTls settings texts) p w (Stage settings))
    (hf : ∀ a w', Going settings w' → Ensures (OverTls settings texts) (f a) w' (Stage settings)) :
    Ensures (OverTls settings texts) (Prog.bind p f) w (Stage settings) :=
  kept_bind hp hf

theorem stage_ret {a : α} (h : Going settings w) :
    Ensures (OverTls settings texts) (.ret a : Act α) w (Stage settings) :=
  ensures_ret.mpr ⟨Or.inl h, h⟩

theorem stage_ofExcept {result : Except LuaError α} (h : Going settings w) :
    Ensures (OverTls settings texts) (Prog.ofExcept result) w (Stage settings) := by
  cases result with
  | ok a => exact stage_ret h
  | error err => exact ensures_raise.mpr ⟨Or.inl h, Or.inl h⟩

/-- Behind a frame that has failed. -/
theorem stage_failed {p : Act α} (hp : Stops Harmless p) (h : Ended settings w) :
    Ensures (OverTls settings texts) p w (Stage settings) := by
  refine ensures_stops ?_ hp w h
  intro w e reply w' he hw hstep
  exact ended_harmless he hw hstep

theorem notMem_hubCount (buf : Str) : lf ∉ hubCount buf := by
  unfold hubCount
  split
  · decide
  · decide

/-- The login behind the SID is such a piece.  None of its frames announces anything. -/
theorem careful_afterSid (hplain : Plain settings) {sid : Str} (hsid : lf ∉ sid) (run : Bool) :
    Careful (Unannounced settings) (Prog.bind (hubInf settings run sid) fun _ =>
      Prog.bind (password settings run) fun _ =>
        Prog.bind (loginReply run sid) fun _ => .ret sid) := by
  refine (careful_hubInf ⟨isLine_inf hplain hsid, rfl⟩ run).bind fun _ => ?_
  refine (careful_password (fun pass salt => ⟨isLine_hpas (hplain.tiger pass salt), rfl⟩) run).bind
    fun _ => ?_
  exact (careful_loginReply (fun buf => ⟨isLine_infCount hsid (notMem_hubCount buf), rfl⟩) run).bind
    fun _ => trivial

/-- The login as a whole: in front of the SID there is one frame, and behind it every frame
has the SID in it. -/
theorem stage_login (hplain : Plain settings) (h : Going settings w) (run : Bool) :
    Ensures (OverTls settings texts) (login settings run) w (Stage settings) := by
  refine stage_bind (stage_of_careful (careful_hubSupport run) h) fun _ w₁ h₁ => ?_
  have hsid : Ensures (OverTls settings texts) (hubSid run) w₁ fun o _ =>
      ∀ sid, o = .ret sid → lf ∉ sid := ensures_yields lineReply_of_overTls (yields_hubSid run) w₁
  apply ensures_bind
  refine ((stage_of_careful (careful_hubSid run) h₁).and hsid).mono ?_
  rintro o w₂ ⟨hstage, hline⟩
  refine hstage.andThen fun sid heq h₂ => ?_
  exact stage_of_careful (careful_afterSid hplain (hline sid heq) run) h₂

/-- The session id of a login ends no line. -/
theorem yields_login (settings : Settings) (run : Bool) :
    Yields lineReply (fun sid => lf ∉ sid) (login settings run) := by
  refine (yields_true lineReply _).bind fun _ _ => (yields_hubSid run).bind fun sid hsid => ?_
  exact (yields_true lineReply _).bind fun _ _ => (yields_true lineReply _).bind fun _ _ =>
    (yields_true lineReply _).bind fun _ _ => hsid

/-- **One release**: its frame goes out, and then it is logged. -/
theorem stage_announceOne {sid : Str} (hsid : lf ∉ sid) (h : Going settings w) (c : Nat)
    (entry : Str × Rule) :
    Ensures (OverTls settings texts) (announceOne sid c entry) w (Stage settings) := by
  refine stage_bind (stage_ofExcept h) fun command w₁ h₁ => ?_
  split
  case h_2 =>
    exact stage_bind (stage_of_uses (uses_effect rfl) h₁) fun _ _ h₂ => stage_ret h₂
  case h_1 category command hcategory =>
    have hline : IsLine ((Frame.bmsg sid command category entry.1).wire settings) :=
      isLine_bmsg hsid command category entry.1
    refine ensures_effect_bind.mpr ⟨Or.inl h₁, fun reply w₂ hsent => ?_⟩
    cases reply with
    | error err =>
        refine stage_failed (stops_bind (uses_effect rfl) fun _ => trivial) ?_
        exact h₁.elim (fun hwhole => Or.inr (hwhole.cut hline hsent))
          fun hmisled => Or.inl (Or.inr (hmisled.next hsent))
    | ok u =>
        rcases h₁ with hwhole | hmisled
        · -- the frame is out, and its release is not logged yet
          have hlogged : announced (w₁.trace.sent ++
              [.bmsg sid command category entry.1]) = w₂.released ++ [entry.1] := by
            rw [announced_append, hwhole.released, (sent_ok hsent).2.1]
            rfl
          have hsent₂ := hwhole.sent hline hlogged hsent
          have hpending : Pending settings w₂ :=
            hsent₂.imp (fun hall => ⟨entry.1, hall⟩) fun hmisled => ⟨entry.1, hmisled⟩
          refine ensures_effect_bind.mpr ⟨Or.inr (Or.inr hpending), fun _ w₃ hrelease => ?_⟩
          have hw₃ : w₃ = { w₂ with released := w₂.released ++ [entry.1] } := hrelease
          apply stage_ret
          rcases hsent₂ with ⟨hbytes, hlines, hnames, hnoticed⟩ | hmisled
          · rw [hw₃]
            exact Or.inl ⟨hbytes, hlines, hnames, hnoticed⟩
          · have hmisled₃ := hmisled.step hrelease
            rw [hw₃] at hmisled₃ ⊢
            exact Or.inr hmisled₃
        · have hmisled₂ := hmisled.next hsent
          refine ensures_effect_bind.mpr ⟨Or.inl (Or.inr hmisled₂), fun _ w₃ hrelease => ?_⟩
          exact stage_ret (Or.inr (hmisled₂.next hrelease))

/-- A round of announcements.  Between a frame and its line in the log there is the one
moment at which the two do not agree. -/
theorem stage_announceRound {sid : Str} (hsid : lf ∉ sid) (h : Going settings w) :
    Ensures (OverTls settings texts) (announceRound settings sid) w (Stage settings) := by
  refine stage_bind (stage_of_uses (uses_effect rfl) h) fun _ w₁ h₁ => ?_
  refine stage_bind (stage_of_uses (uses_effect rfl) h₁) fun found w₂ h₂ => ?_
  refine stage_bind (stage_ofExcept h₂) fun found w₃ h₃ => ?_
  refine stage_bind (stage_of_uses (uses_effect rfl) h₃) fun _ w₄ h₄ => ?_
  have hloop : Ensures (OverTls settings texts) (found.foldlM (announceOne sid) 0) w₄
      (Stage settings) := by
    refine ensures_foldlM (I := fun _ _ w => Going settings w) ?_ ?_ ?_ found 0 w₄ h₄
    · exact fun _ _ _ hw => Or.inl hw
    · exact fun _ _ hw => hw
    · intro entry rest c w' hw
      exact (stage_announceOne hsid hw c entry).mono fun o w'' hs => hs.andThen fun _ _ hw => hw
  refine stage_bind hloop fun c w₅ h₅ => ?_
  refine stage_bind (stage_of_uses (uses_effect rfl) h₅) fun _ w₆ h₆ => ?_
  apply stage_of_careful _ h₆
  apply careful_send ⟨isLine_keepAlive hsid, rfl⟩
  · exact fun err => stops_bind (uses_effect rfl) fun _ => trivial
  · trivial

/-- The poll sends nothing. -/
theorem stage_poll (h : Going settings w) :
    Ensures (OverTls settings texts) poll w (Stage settings) := by
  refine stage_bind (stage_of_uses (uses_effect rfl) h) fun _ w₁ h₁ => ?_
  refine ensures_effect_bind.mpr ⟨Or.inl h₁, fun reply w₂ hreceived => ?_⟩
  have h₂ : Going settings w₂ := going_received h₁ hreceived
  cases reply with
  | ok line => exact stage_ret h₂
  | error err =>
      cases err with
      | none => exact stage_ret h₂
      | some err =>
          simp only
          split
          case isTrue => exact stage_ret h₂
          case isFalse =>
            exact stage_of_uses ((uses_effect rfl).bind fun _ => (uses_effect rfl).bind fun _ =>
              trivial) h₂

/-- One turn of the main loop. -/
theorem stage_mainBody {sid : Str} (hsid : lf ∉ sid) (h : Going settings w)
    (nextAnnounce : LuaNum) :
    Ensures (OverTls settings texts) (mainBody settings sid nextAnnounce) w (Stage settings) := by
  refine stage_bind (stage_of_uses (uses_effect rfl) h) fun now w₁ h₁ => ?_
  split
  case isTrue =>
    refine stage_bind (stage_announceRound hsid h₁) fun _ w₂ h₂ => ?_
    refine stage_bind (stage_of_uses (uses_effect rfl) h₂) fun now' w₃ h₃ => ?_
    exact stage_bind (stage_poll h₃) fun _ _ h₄ => stage_ret h₄
  case isFalse => exact stage_bind (stage_poll h₁) fun _ _ h₂ => stage_ret h₂

/-- The whole session, from the connecting on. -/
theorem loop_stage (hplain : Plain settings) (fuel : Nat) :
    Ensures (OverTls settings texts) (loop settings fuel) {} (Stage settings) := by
  refine stage_bind (stage_of_uses (uses_openSocket settings fuel) (Or.inl (whole_start settings)))
    fun connected w₁ h₁ => ?_
  cases connected with
  | none => exact stage_ret h₁
  | some run =>
      refine stage_bind (stage_of_uses (uses_secure settings run) h₁) fun _ w₂ h₂ => ?_
      refine stage_bind (stage_of_careful (careful_sendSupport ⟨isLine_hsup, rfl⟩ run) h₂)
        fun _ w₃ h₃ => ?_
      apply ensures_bind
      refine ((stage_login hplain h₃ run).and
        (ensures_yields lineReply_of_overTls (yields_login settings run) w₃)).mono ?_
      rintro o w₄ ⟨hstage, hline⟩
      refine hstage.andThen fun sid heq h₄ => ?_
      refine stage_bind (stage_of_uses (uses_settle settings) h₄) fun _ w₅ h₅ => ?_
      have hmain : Ensures (OverTls settings texts)
          (Prog.iterate (mainBody settings sid) fuel (LuaNum.int 0)) w₅ (Stage settings) := by
        refine ensures_iterate (I := fun _ w => Going settings w) ?_ ?_ ?_ fuel (LuaNum.int 0) w₅ h₅
        · exact fun _ _ hw => Or.inl hw
        · exact fun _ _ hw => hw
        · intro next w' hw
          exact (stage_mainBody (hline sid heq) hw next).mono fun o w'' hs =>
            hs.andThen fun _ _ hw => hw
      exact stage_bind hmain fun _ _ h₆ => stage_ret h₆

end

/-! ## What the hub reads -/

/-- Frames that are lines are split where they end. -/
theorem splitOn_bytesOf {settings : Settings} {frames : List Frame} (h : Lines settings frames)
    {part : Str} (hpart : lf ∉ part) :
    (bytesOf settings frames ++ part).splitOn lf =
      frames.map (fun frame => (frame.wire settings).dropLast) ++ [part] := by
  induction frames with
  | nil => exact List.splitOn_eq_singleton hpart
  | cons frame frames ih =>
      obtain ⟨body, hbody, hwire⟩ := h frame (by simp)
      have hrest : Lines settings frames := fun f hf => h f (by simp [hf])
      have hsplit : bytesOf settings (frame :: frames) ++ part =
          body ++ lf :: (bytesOf settings frames ++ part) := by
        rw [bytesOf, List.flatMap_cons, hwire]
        simp [bytesOf]
      rw [hsplit, List.splitOn_append_cons_self_of_not_mem hbody, ih hrest, List.map_cons, hwire,
        List.dropLast_concat, List.cons_append]

/-- The beginning of a line that is not all of it. -/
theorem notMem_part {s part left : Str} (h : IsLine s) (hsplit : s = part ++ left)
    (hleft : left ≠ []) : lf ∉ part := by
  obtain ⟨body, hbody, hs⟩ := h
  have hdrop : body = part ++ left.dropLast := by
    rw [← List.dropLast_append_of_ne_nil hleft, ← hsplit, hs, List.dropLast_concat]
  intro hmem
  apply hbody
  rw [hdrop]
  exact List.mem_append_left _ hmem

/-- What the hub has been sent, split at `\n`: the frames of the session, and nothing or
the beginning of one more.  What is logged are the releases of the whole frames; during
the run one of them may be logged next. -/
def Delivers (settings : Settings) (o : Outcome LuaError Bool Unit) (w : Wire) : Prop :=
  ∃ done part,
    w.outbound.splitOn lf = done.map (fun frame => (frame.wire settings).dropLast) ++ [part] ∧
    ((w.trace.sent = done ∧ part = []) ∨ ∃ frame left, w.trace.sent = done ++ [frame] ∧
      frame.wire settings = part ++ left ∧ left ≠ []) ∧
    (announced done = w.released ∨
      (o = .running ∧ ∃ release, announced done = w.released ++ [release]))

/-- Where every frame has gone out whole, the bytes split into these frames and nothing
else. -/
theorem splitOn_whole {settings : Settings} {w : Wire}
    (hbytes : w.outbound = bytesOf settings w.trace.sent) (hlines : Lines settings w.trace.sent) :
    w.outbound.splitOn lf =
      w.trace.sent.map (fun frame => (frame.wire settings).dropLast) ++ [[]] := by
  have hsplit := splitOn_bytesOf hlines List.not_mem_nil
  rw [List.append_nil] at hsplit
  rw [hbytes]
  exact hsplit

/-- What an error without a text comes to.  The session has taken a frame for sent of which
the hub has the beginning only, and the release of that frame is logged like those of the
frames before it. -/
def Misleads (settings : Settings) (o : Outcome LuaError Bool Unit) (w : Wire) : Prop :=
  ∃ done frame part left rest more,
    w.trace.sent = done ++ frame :: rest ∧ w.outbound = bytesOf settings done ++ part ++ more ∧
    (bytesOf settings done ++ part).splitOn lf =
      done.map (fun frame => (frame.wire settings).dropLast) ++ [part] ∧
    frame.wire settings = part ++ left ∧ left ≠ [] ∧
    (announced (done ++ [frame]) <+: w.released ∨
      (o = .running ∧ ∃ release, announced (done ++ [frame]) <+: w.released ++ [release]))

/-- What has been delivered at a moment of a session: `Delivers`, or `Misleads` if a frame
was cut off unnoticed. -/
def Accounts (settings : Settings) (o : Outcome LuaError Bool Unit) (w : Wire) : Prop :=
  (w.unnoticed = false → Delivers settings o w) ∧ (w.unnoticed = true → Misleads settings o w)

section

variable {settings : Settings} {w : Wire}

theorem accounts_of_delivers {o : Outcome LuaError Bool Unit} (hnoticed : w.unnoticed = false)
    (h : Delivers settings o w) : Accounts settings o w := by
  refine ⟨fun _ => h, fun hunnoticed => ?_⟩
  rw [hnoticed] at hunnoticed
  cases hunnoticed

theorem Whole.accounts (h : Whole settings w) (o : Outcome LuaError Bool Unit) :
    Accounts settings o w :=
  accounts_of_delivers h.noticed
    ⟨w.trace.sent, [], splitOn_whole h.bytes h.lines, Or.inl ⟨rfl, rfl⟩, Or.inl h.released⟩

/-- A whole number of frames and a beginning, split at `\n`. -/
theorem splitOn_cut {done : List Frame} {frame : Frame} {part left : Str}
    (hlines : Lines settings (done ++ [frame])) (hwire : frame.wire settings = part ++ left)
    (hleft : left ≠ []) :
    (bytesOf settings done ++ part).splitOn lf =
      done.map (fun frame => (frame.wire settings).dropLast) ++ [part] := by
  have hframe : IsLine (frame.wire settings) := hlines frame (by simp)
  have hdone : Lines settings done := fun f hf => hlines f (by simp [hf])
  exact splitOn_bytesOf hdone (notMem_part hframe hwire hleft)

/-- A frame that was cut off stands last, as the beginning of one more. -/
theorem Cut.accounts (h : Cut settings w) (o : Outcome LuaError Bool Unit) :
    Accounts settings o w := by
  obtain ⟨done, frame, part, left, hsent, hlines, hout, hwire, hleft, hreleased, hnoticed⟩ := h
  rw [hsent] at hlines
  refine accounts_of_delivers hnoticed
    ⟨done, part, ?_, Or.inr ⟨frame, left, hsent, hwire, hleft⟩, Or.inl hreleased⟩
  rw [hout]
  exact splitOn_cut hlines hwire hleft

/-- A session that was misled has logged the release of the frame that was cut, or is about
to. -/
theorem Misled.accounts {logged : List Str} {o : Outcome LuaError Bool Unit}
    (h : Misled settings w logged)
    (hlogged : logged = w.released ∨ (o = .running ∧ ∃ release, logged = w.released ++ [release])) :
    Accounts settings o w := by
  obtain ⟨hunnoticed, done, frame, part, left, rest, more, hsent, hlines, hout, hwire, hleft,
    hprefix⟩ := h
  refine ⟨fun hnoticed => ?_, fun _ => ⟨done, frame, part, left, rest, more, hsent, hout,
    splitOn_cut hlines hwire hleft, hwire, hleft, ?_⟩⟩
  · rw [hunnoticed] at hnoticed
    cases hnoticed
  · rcases hlogged with rfl | ⟨ho, release, rfl⟩
    · exact Or.inl hprefix
    · exact Or.inr ⟨ho, release, hprefix⟩

theorem Going.accounts (h : Going settings w) (o : Outcome LuaError Bool Unit) :
    Accounts settings o w := by
  rcases h with hwhole | hmisled
  · exact hwhole.accounts o
  · exact hmisled.accounts (Or.inl rfl)

theorem Ended.accounts (h : Ended settings w) (o : Outcome LuaError Bool Unit) :
    Accounts settings o w := by
  rcases h with hgoing | hcut
  · exact hgoing.accounts o
  · exact hcut.accounts o

theorem Pending.accounts (h : Pending settings w) : Accounts settings .running w := by
  rcases h with ⟨release, hbytes, hlines, hnames, hnoticed⟩ | ⟨release, hmisled⟩
  · exact accounts_of_delivers hnoticed
      ⟨w.trace.sent, [], splitOn_whole hbytes hlines, Or.inl ⟨rfl, rfl⟩,
        Or.inr ⟨rfl, release, hnames⟩⟩
  · exact hmisled.accounts (Or.inr ⟨rfl, release, rfl⟩)

end

/-- **What goes out is what is logged.**  At every moment of a session, whatever the hub
sends, whatever OpenSSL takes at once and wherever the connection fails: as long as every
failure has a text, the hub has been sent whole frames and at most a beginning, and the
releases that are logged are those of the whole `BMSG` frames.  After a failure without a
text the log holds a release whose frame was cut. -/
theorem loop_delivers (settings : Settings) (texts : Texts) (fuel : Nat)
    (hplain : Plain settings) :
    Ensures (OverTls settings texts) (loop settings fuel) {} (Accounts settings) := by
  refine (loop_stage hplain fuel).mono ?_
  intro o w h
  cases o with
  | ret a => exact Going.accounts h _
  | exit b => exact h.elim (fun hw => hw.accounts _) fun hw => hw.accounts _
  | raise err => exact h.elim (fun hw => hw.accounts _) fun hw => hw.accounts _
  | running =>
      rcases h with hw | hw | hw
      · exact hw.accounts _
      · exact hw.accounts _
      · exact hw.accounts

/-- The settings of a first start, with the hash of `adclib`. -/
def hashedSettings : Settings := { NetLogin.defaultSettings with tiger := Adclib.Hash.pas }

/-- The identity of a first start, and the hash of `adclib`, which answers base32. -/
theorem plain_hashedSettings : Plain hashedSettings where
  pid := by decide
  cid := by decide
  tiger := by
    intro pass salt hmem
    have hdigit := Adclib.Hash.text_digits _ lf hmem
    revert hdigit
    decide

/-- With the hash of `adclib`, whose texts end no line, the condition on the settings is
met. -/
theorem loop_delivers_hashed : Ensures (OverTls hashedSettings ⟨none, fun _ => []⟩)
    (loop hashedSettings 1) {} (Accounts hashedSettings) :=
  loop_delivers hashedSettings ⟨none, fun _ => []⟩ 1 plain_hashedSettings

end LuadchAnnouncer.Core.NetDelivers
