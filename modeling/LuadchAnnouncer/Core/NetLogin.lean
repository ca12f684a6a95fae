import LuadchAnnouncer.Core.NetTrace

/-!
# The login, stage by stage

`At settings k s` is the state of a login that has read its first `k` frames
and all of them were the expected ones.  Each stage of `net.loop` takes `At k`
to `At (k + 1)` or leaves the function, and `Stage` says what is true whenever
it is left: it returns `true` exactly at something terminal, and it raises
exactly at a salt that does not fit or a read that fails without a text.  The
main loop keeps `Online`, from which the order of the frames is read off.

## Main results

* `loginReply_ensures`, `login_ensures` — one lemma for each stage of the login, and the
  login as a whole.
* `alive_bind`, `mainLoop_alive` — the main loop keeps `Online`, whatever the hub says
  to it.
* `loop_safe` — in every session the frames are in order, and none goes to a hub with
  the wrong keyprint.
* `login_raises_iff` — the only lines that make the login raise.
-/

namespace LuadchAnnouncer.Core.NetLogin

open LuadchAnnouncer.Verified.Bytes
open LuadchAnnouncer.Verified.LuaValue
open LuadchAnnouncer.Verified.Program
open LuadchAnnouncer.Adclib
open LuadchAnnouncer.Core.Net
open LuadchAnnouncer.Core.NetTrace
open LuadchAnnouncer.Core.Announce (Rule)

/-! ## Where a login has got to -/

/-- The login has read `k` lines that decided something, each of them the frame
it was waiting for. -/
structure At (settings : Settings) (k : Nat) (s : Trace) : Prop where
  passed : Passed k s.deciding
  length : s.deciding.length = k
  keyprint : settings.hub.keyp = [] ∨ s.fingerprint = some settings.hub.keyp
  salt : ∀ buf, s.deciding[3]? = some buf → saltFits buf = true
  texts : s.textless = false

def Trace.push (s : Trace) (buf : Str) : Trace := { s with deciding := s.deciding ++ [buf] }

/-- Without a pinned keyprint, or with the one the certificate has, there is no mismatch. -/
theorem not_mismatch {settings : Settings} {s : Trace}
    (h : settings.hub.keyp = [] ∨ s.fingerprint = some settings.hub.keyp) :
    ¬ Mismatch settings s := by
  rintro ⟨hne, fp, hfp, hdiff⟩
  rcases h with hempty | hsame
  · exact hne hempty
  · rw [hfp, Option.some.injEq] at hsame
    exact hdiff hsame

namespace At

variable {settings : Settings} {k : Nat} {s : Trace} {buf : Str}

/-- Behind a step of the login the hub has said nothing that ends it for good. -/
theorem not_terminal (h : At settings k s) : ¬ Terminal settings s := by
  rintro (hmis | ⟨i, -, -, line, hline, hfatal⟩)
  · exact not_mismatch h.keyprint hmis
  · have hlt := (List.getElem?_eq_some_iff.mp hline).1
    rw [h.length] at hlt
    obtain ⟨line', hline', hanswers⟩ := h.passed i hlt
    rw [hline, Option.some.injEq] at hline'
    subst hline'
    exact not_fatal_of_answers hanswers hfatal

theorem not_badSalt (h : At settings k s) : ¬ BadSalt s := by
  rintro ⟨-, line, hline, hfits⟩
  rw [h.salt line hline] at hfits
  cases hfits

theorem not_crashes (h : At settings k s) : ¬ Crashes s := by
  rintro (hbad | htextless)
  · exact h.not_badSalt hbad
  · rw [h.texts] at htextless
    cases htextless

theorem getElem?_push (h : At settings k s) : (Trace.push s buf).deciding[k]? = some buf := by
  simp [Trace.push, ← h.length]

theorem push_terminal (h : At settings k s) (hk : k < 5) (hbuf : Fatal k buf) :
    Terminal settings (Trace.push s buf) :=
  Or.inr ⟨k, hk, h.passed.append [buf], buf, h.getElem?_push, hbuf⟩

/-- Nor has it when the next line is not one of these. -/
theorem push_not_terminal (h : At settings k s) (hbuf : ¬ Fatal k buf) :
    ¬ Terminal settings (Trace.push s buf) := by
  rintro (hmis | ⟨i, -, -, line, hline, hfatal⟩)
  · exact not_mismatch h.keyprint hmis
  · have hlt := (List.getElem?_eq_some_iff.mp hline).1
    simp only [Trace.push, List.length_append, List.length_singleton, h.length] at hlt
    by_cases hi : i = k
    · subst hi
      rw [h.getElem?_push, Option.some.injEq] at hline
      subst hline
      exact hbuf hfatal
    · obtain ⟨line', hline', hanswers⟩ := (h.passed.append [buf]) i (by omega)
      rw [Trace.push] at hline
      rw [hline, Option.some.injEq] at hline'
      subst hline'
      exact not_fatal_of_answers hanswers hfatal

/-- A line is a bad salt exactly as the answer to the description, when what it carries does
not fit the buffer of the hash. -/
theorem push_badSalt_iff (h : At settings k s) :
    BadSalt (Trace.push s buf) ↔ k = 3 ∧ Answers 3 buf ∧ saltFits buf = false := by
  constructor
  · rintro ⟨hpassed, line, hline, hfits⟩
    have hk : k = 3 := by
      by_contra hne
      have hlen := hpassed.length_le
      simp only [Trace.push, List.length_append, List.length_singleton, h.length] at hlen
      have hlt : 3 < s.deciding.length := by
        rw [h.length]
        omega
      have hold : (Trace.push s buf).deciding[3]? = s.deciding[3]? :=
        List.getElem?_append_left hlt
      rw [hold] at hline
      rw [h.salt line hline] at hfits
      cases hfits
    subst hk
    rw [h.getElem?_push, Option.some.injEq] at hline
    subst hline
    obtain ⟨line, hline, hanswers⟩ := hpassed 3 (by omega)
    rw [h.getElem?_push, Option.some.injEq] at hline
    subst hline
    exact ⟨rfl, hanswers, hfits⟩
  · rintro ⟨rfl, hanswers, hfits⟩
    exact ⟨h.passed.snoc h.length hanswers, buf, h.getElem?_push, hfits⟩

/-- A line that is no bad request does not make the login raise. -/
theorem push_not_crashes (h : At settings k s) (hbuf : ¬ BadSalt (Trace.push s buf)) :
    ¬ Crashes (Trace.push s buf) := by
  rintro (hbad | htextless)
  · exact hbuf hbad
  · rw [Trace.push, h.texts] at htextless
    cases htextless

/-- The line that a step has waited for takes the login one step on. -/
theorem push (h : At settings k s) (hbuf : Answers k buf)
    (hsalt : k = 3 → saltFits buf = true) : At settings (k + 1) (Trace.push s buf) where
  passed := h.passed.snoc h.length hbuf
  length := by simp [Trace.push, h.length]
  keyprint := h.keyprint
  salt := by
    intro line hline
    by_cases hk : k = 3
    · subst hk
      rw [h.getElem?_push, Option.some.injEq] at hline
      subst hline
      exact hsalt rfl
    · by_cases hlt : 3 < k
      · have hold : (Trace.push s buf).deciding[3]? = s.deciding[3]? :=
          List.getElem?_append_left (by rw [h.length]; exact hlt)
        rw [hold] at hline
        exact h.salt line hline
      · exfalso
        have hlen := (List.getElem?_eq_some_iff.mp hline).1
        simp only [Trace.push, List.length_append, List.length_singleton, h.length] at hlen
        omega
  texts := h.texts

/-- Sending does not move a login. -/
theorem send (h : At settings k s) (frame : Frame) (reply : Except Str Unit) :
    At settings k (s.observe (.send frame) reply) :=
  ⟨h.passed, h.length, h.keyprint, h.salt, h.texts⟩

/-- What has been sent at a step of the login is in order, since each frame waits for its
line. -/
theorem safe (h : At settings k s) (horder : FrameOrder s.sent)
    (hinf : 2 ≤ s.sent.length → 3 ≤ k) (hpas : 3 ≤ s.sent.length → 4 ≤ k)
    (hcount : 4 ≤ s.sent.length → 5 ≤ k) : Safe settings s where
  order := horder
  keyprint := fun _ => h.keyprint
  inf := fun hlen => h.passed.mono (hinf hlen)
  hpas := fun hlen => h.passed.mono (hpas hlen)
  infCount := fun hlen => h.passed.mono (hcount hlen)

end At

/-- A line that has been read sends nothing. -/
theorem Safe.push {settings : Settings} {s : Trace} (h : Safe settings s) (buf : Str) :
    Safe settings (Trace.push s buf) where
  order := h.order
  keyprint := h.keyprint
  inf := fun hlen => (h.inf hlen).append [buf]
  hpas := fun hlen => (h.hpas hlen).append [buf]
  infCount := fun hlen => (h.infCount hlen).append [buf]

/-! ## One read -/

/-- How a login read ends that returns, with the trace it leaves. -/
inductive Read (s : Trace) : Except (Disp × Str) Str → Trace → Prop where
  | frame (buf : Str) (hcode : istaCode buf = none) : Read s (.ok buf) (Trace.push s buf)
  | error (err : Str) : Read s (.error (.error, err)) s
  | retry (buf code : Str) (hcode : istaCode buf = some code)
      (hinfo : informational code = false) (hretry : retryIsta code = true) :
      Read s (.error (.retry, buf)) (Trace.push s buf)
  | terminal (buf code : Str) (hcode : istaCode buf = some code)
      (hinfo : informational code = false) (hretry : retryIsta code = false) :
      Read s (.error (.terminal, buf)) (Trace.push s buf)
  | many (msg : Str) : Read s (.error (.retry, msg)) s

/-- Reading a line of the login: status frames are skipped, up to their number, and what is
returned is the line it stopped at.  The induction is on what is left of that number. -/
theorem recvLoginFrom_ensures {settings : Settings} {s : Trace} (hsafe : Safe settings s) :
    ∀ n, Ensures AnyHub (recvLoginFrom n) s fun o s' => Safe settings s' ∧
      (o = .running ∨ (∃ result, o = .ret result ∧ Read s result s') ∨
        (o = .raise .index ∧ s'.textless = true)) := by
  intro n
  induction n with
  | zero => exact ensures_ret.mpr ⟨⟨hsafe, Or.inl rfl⟩, hsafe, Or.inr (Or.inl ⟨_, rfl, .many _⟩)⟩
  | succ n ih =>
      rw [recvLoginFrom]
      refine ensures_effect.mpr ⟨⟨hsafe, Or.inl rfl⟩, fun reply => ?_⟩
      cases reply with
      | error err =>
          cases err with
          | none =>
              exact ensures_raise.mpr ⟨⟨hsafe.textless, Or.inl rfl⟩, hsafe.textless,
                Or.inr (Or.inr ⟨rfl, rfl⟩)⟩
          | some err =>
              exact ensures_ret.mpr ⟨⟨hsafe, Or.inl rfl⟩, hsafe,
                Or.inr (Or.inl ⟨_, rfl, .error _⟩)⟩
      | ok buf =>
          change Ensures AnyHub _ (s.read buf) _
          have hread := Safe.read hsafe buf
          cases hcode : istaCode buf with
          | none =>
              have hpush : s.read buf = Trace.push s buf := by
                simp [Trace.read, skipped, hcode, Trace.push]
              rw [hpush] at hread ⊢
              simp only [hcode]
              exact ensures_ret.mpr
                ⟨⟨hread, Or.inl rfl⟩, hread, Or.inr (Or.inl ⟨_, rfl, .frame buf hcode⟩)⟩
          | some code =>
              simp only [hcode]
              by_cases hinfo : informational code = true
              · have hskip : s.read buf = s := by
                  simp [Trace.read, skipped, hcode, hinfo]
                rw [hskip, if_pos hinfo]
                refine (silent_log _).before ⟨hsafe, Or.inl rfl⟩ ?_
                exact ih
              · have hpush : s.read buf = Trace.push s buf := by
                  simp [Trace.read, skipped, hcode, hinfo, Trace.push]
                rw [hpush] at hread ⊢
                rw [Bool.not_eq_true] at hinfo
                simp only [hinfo, Bool.false_eq_true, if_false]
                by_cases hretry : retryIsta code = true
                · rw [if_pos hretry]
                  exact ensures_ret.mpr ⟨⟨hread, Or.inl rfl⟩, hread,
                    Or.inr (Or.inl ⟨_, rfl, .retry buf code hcode hinfo hretry⟩)⟩
                · rw [if_neg hretry]
                  rw [Bool.not_eq_true] at hretry
                  exact ensures_ret.mpr ⟨⟨hread, Or.inl rfl⟩, hread,
                    Or.inr (Or.inl ⟨_, rfl, .terminal buf code hcode hinfo hretry⟩)⟩

/-! ## What a stage guarantees -/

/-- A stage of the login has ended, or is under way: it goes on with `post`,
or the function is left in one of the two ways that are allowed. -/
def Stage {α : Type} (settings : Settings) (post : α → Trace → Prop) :
    Outcome LuaError Bool α → Trace → Prop
  | .running, s => Safe settings s
  | .ret a, s => Safe settings s ∧ post a s
  | .exit b, s => Safe settings s ∧ (b = true ↔ Terminal settings s) ∧ ¬ Crashes s
  | .raise _, s => Safe settings s ∧ Crashes s

section

variable {settings : Settings} {α β : Type} {s : Trace}

/-- Two steps of the login, where the first hands on what it has established. -/
theorem stage_bind {p : Act α} {f : α → Act β} {mid : α → Trace → Prop}
    {post : β → Trace → Prop} (hp : Ensures AnyHub p s (Stage settings mid))
    (hf : ∀ a s', Safe settings s' → mid a s' → Ensures AnyHub (f a) s' (Stage settings post)) :
    Ensures AnyHub (Prog.bind p f) s (Stage settings post) := by
  refine ensures_bind (hp.mono ?_)
  intro o s' h
  cases o with
  | ret a => exact hf a s' h.1 h.2
  | exit b => exact h
  | raise err => exact h
  | running => exact h

theorem stage_ret {post : α → Trace → Prop} {a : α} (hsafe : Safe settings s)
    (hpost : post a s) : Ensures AnyHub (.ret a) s (Stage settings post) :=
  ensures_ret.mpr ⟨hsafe, hsafe, hpost⟩

theorem stage_leave {post : α → Trace → Prop} {b : Bool} (hsafe : Safe settings s)
    (hterminal : b = true ↔ Terminal settings s) (hcalm : ¬ Crashes s) :
    Ensures AnyHub (leave b) s (Stage settings post) :=
  ensures_exit.mpr ⟨hsafe, hsafe, hterminal, hcalm⟩

/-- Leaving the login answers `true` for a rejection that is for good, and `false`
otherwise. -/
theorem stage_loginBail {post : α → Trace → Prop} {statuskey : StatusKey} {disp : Disp}
    {msg : Str} (hsafe : Safe settings s)
    (hterminal : (disp == .terminal) = true ↔ Terminal settings s) (hcalm : ¬ Crashes s) :
    Ensures AnyHub (loginBail statuskey disp msg : Act α) s (Stage settings post) := by
  have hend : Ensures AnyHub (Prog.bind close fun _ => (leave (disp == .terminal) : Act α)) s
      (Stage settings post) :=
    silent_close.before hsafe (stage_leave hsafe hterminal hcalm)
  cases disp with
  | retry =>
      refine (silent_log _).before hsafe ?_
      refine (silent_emit _ _).before hsafe ?_
      exact hend
  | terminal =>
      refine (silent_log _).before hsafe ?_
      refine (silent_emit _ _).before hsafe ?_
      exact hend
  | error =>
      refine (silent_log _).before hsafe ?_
      refine (silent_emit _ _).before hsafe ?_
      exact hend

/-- **A login read.**  It yields a frame and the stage goes on, or the function
is left, with `true` exactly at a fatal rejection. -/
theorem stage_readLogin {k : Nat} {statuskey : StatusKey} (hat : At settings k s) (hk : k < 5)
    (hsafe : Safe settings s) :
    Ensures AnyHub (readLogin statuskey) s (Stage settings fun buf s' =>
      istaCode buf = none ∧ s' = Trace.push s buf) := by
  refine ensures_bind ((recvLoginFrom_ensures hsafe maxLoginStatus).mono ?_)
  rintro o s' ⟨hsafe', rfl | ⟨result, rfl, hread⟩ | ⟨rfl, htextless⟩⟩
  · exact hsafe'
  · have hcalm : ∀ {buf code}, istaCode buf = some code → ¬ Crashes (Trace.push s buf) := by
      intro buf code hcode
      refine hat.push_not_crashes fun hbad => ?_
      obtain ⟨-, ⟨hnone, -⟩, -⟩ := hat.push_badSalt_iff.mp hbad
      rw [hcode] at hnone
      cases hnone
    cases hread with
    | frame buf hcode =>
        refine (silent_logFrame _).before hsafe' ?_
        exact stage_ret hsafe' ⟨hcode, rfl⟩
    | error err =>
        have hgoOn : (Disp.error == .terminal) = true ↔ Terminal settings s :=
          iff_of_false (by decide) hat.not_terminal
        exact stage_loginBail hsafe' hgoOn hat.not_crashes
    | many msg =>
        have hgoOn : (Disp.retry == .terminal) = true ↔ Terminal settings s :=
          iff_of_false (by decide) hat.not_terminal
        exact stage_loginBail hsafe' hgoOn hat.not_crashes
    | retry buf code hcode hinfo hretry =>
        have hfatal : ¬ Fatal k buf := by
          rintro (⟨code', hcode', -, hretry'⟩ | ⟨hnone, -⟩)
          · rw [hcode, Option.some.injEq] at hcode'
            subst hcode'
            rw [hretry] at hretry'
            cases hretry'
          · rw [hcode] at hnone
            cases hnone
        have hgoOn : (Disp.retry == .terminal) = true ↔ Terminal settings (Trace.push s buf) :=
          iff_of_false (by decide) (hat.push_not_terminal hfatal)
        exact stage_loginBail hsafe' hgoOn (hcalm hcode)
    | terminal buf code hcode hinfo hretry =>
        have hfatal : Fatal k buf := Or.inl ⟨code, hcode, hinfo, hretry⟩
        have hgiveUp : (Disp.terminal == .terminal) = true ↔
            Terminal settings (Trace.push s buf) :=
          iff_of_true (by decide) (hat.push_terminal hk hfatal)
        exact stage_loginBail hsafe' hgiveUp (hcalm hcode)
  · exact ⟨hsafe', Or.inr htextless⟩

end

/-! ## The stages -/

theorem frameOrder_login {frames : List Frame} (sid pas : Str) {hubcount : Str}
    (hcount : hubcount = lit "HR1" ∨ hubcount = lit "HO1")
    (h : frames <+: loginFrames sid pas hubcount) : FrameOrder frames :=
  ⟨sid, pas, hubcount, [], hcount, by simp, by simpa using h⟩

section

variable {settings : Settings} {s : Trace}

/-- A frame that is not the expected one ends the session for good. -/
theorem stage_giveUp {α : Type} {post : α → Trace → Prop} {k : Nat} {buf : Str}
    (hat : At settings k s) (hk : k < 5) (hsafe : Safe settings s)
    (hcode : istaCode buf = none) (hfind : find buf (marker k) = false) :
    Ensures AnyHub (leave true : Act α) (Trace.push s buf) (Stage settings post) := by
  have hfatal : Fatal k buf := Or.inr ⟨hcode, hfind⟩
  have hterminal : Terminal settings (Trace.push s buf) := hat.push_terminal hk hfatal
  have hcalm : ¬ Crashes (Trace.push s buf) := by
    refine hat.push_not_crashes fun hbad => ?_
    obtain ⟨rfl, ⟨-, hanswers⟩, -⟩ := hat.push_badSalt_iff.mp hbad
    rw [hfind] at hanswers
    cases hanswers
  exact stage_leave (Safe.push hsafe buf) (iff_of_true rfl hterminal) hcalm

/-- The first step waits for `ISUP`, and sends nothing. -/
theorem hubSupport_ensures {run : Bool} (hat : At settings 0 s) (hsafe : Safe settings s) :
    Ensures AnyHub (hubSupport run) s (Stage settings fun _ s' =>
      At settings 1 s' ∧ s'.sent = s.sent) := by
  refine stage_bind (stage_readLogin hat (by omega) hsafe) ?_
  rintro buf s' hsafe' ⟨hcode, rfl⟩
  refine (silent_log _).before hsafe' ?_
  refine (silent_emitIf _ _ _).before hsafe' ?_
  by_cases hfind : find buf (lit "ADOSNR") = true
  · rw [if_pos hfind]
    have hdone := hat.push ⟨hcode, hfind⟩ (by omega)
    refine (silent_log _).before hsafe' ?_
    exact (silent_emitIf _ _ _).last hsafe' ⟨hsafe', hdone, rfl⟩
  · rw [if_neg hfind]
    rw [Bool.not_eq_true] at hfind
    refine (silent_log _).before hsafe' ?_
    refine (silent_emit _ _).before hsafe' ?_
    refine silent_close.before hsafe' ?_
    exact stage_giveUp hat (by omega) hsafe hcode hfind

/-- The second waits for `ISID`. -/
theorem hubSid_ensures {run : Bool} (hat : At settings 1 s) (hsafe : Safe settings s) :
    Ensures AnyHub (hubSid run) s (Stage settings fun _ s' =>
      At settings 2 s' ∧ s'.sent = s.sent) := by
  refine stage_bind (stage_readLogin hat (by omega) hsafe) ?_
  rintro buf s' hsafe' ⟨hcode, rfl⟩
  by_cases hfind : find buf (lit "ISID") = true
  · rw [if_pos hfind]
    have hdone := hat.push ⟨hcode, hfind⟩ (by omega)
    refine (silent_log _).before hsafe' ?_
    refine (silent_emitIf _ _ _).before hsafe' ?_
    exact stage_ret hsafe' ⟨hdone, rfl⟩
  · rw [if_neg hfind]
    rw [Bool.not_eq_true] at hfind
    refine (silent_log _).before hsafe' ?_
    refine silent_close.before hsafe' ?_
    exact stage_giveUp hat (by omega) hsafe hcode hfind

/-- A send that fails in the login: the function is left for another try. -/
theorem stage_sendFailed {α : Type} {post : α → Trace → Prop} {k : Nat} (hat : At settings k s)
    (hsafe : Safe settings s) :
    Ensures AnyHub (leave false : Act α) s (Stage settings post) :=
  stage_leave hsafe (iff_of_false (by decide) hat.not_terminal) hat.not_crashes

/-- The third sends the description and waits for `IINF`. -/
theorem hubInf_ensures {run : Bool} {sid : Str} (hat : At settings 2 s)
    (hsafe : Safe settings s) (hsent : s.sent = [.hsup]) :
    Ensures AnyHub (hubInf settings run sid) s (Stage settings fun _ s' =>
      At settings 3 s' ∧ s'.sent = [.hsup, .inf sid]) := by
  refine (silent_log _).before hsafe ?_
  refine stage_bind (stage_readLogin hat (by omega) hsafe) ?_
  rintro buf s' hsafe' ⟨hcode, rfl⟩
  by_cases hfind : find buf (lit "IINF") = true
  · rw [if_pos hfind]
    refine (silent_log _).before hsafe' ?_
    refine (silent_emitIf _ _ _).before hsafe' ?_
    refine ensures_effect.mpr ⟨hsafe', fun reply => ?_⟩
    have hdone := (hat.push ⟨hcode, hfind⟩ (by omega)).send (.inf sid) reply
    have hframes : ((Trace.push s buf).observe (.send (.inf sid)) reply).sent =
        [.hsup, .inf sid] := by
      simp [Trace.observe, Trace.push, hsent]
    have hsafe'' := hdone.safe (by
      rw [hframes]
      exact frameOrder_login sid [] (Or.inl rfl) ⟨_, rfl⟩)
      (by omega) (by simp [hframes]) (by simp [hframes])
    cases reply with
    | error err =>
        refine (silent_log _).before hsafe'' ?_
        refine (silent_emit _ _).before hsafe'' ?_
        exact stage_sendFailed hdone hsafe''
    | ok _ =>
        refine (silent_logFrame _).before hsafe'' ?_
        refine (silent_log _).before hsafe'' ?_
        exact (silent_emitIf _ _ _).last hsafe'' ⟨hsafe'', hdone, hframes⟩
  · rw [if_neg hfind]
    rw [Bool.not_eq_true] at hfind
    refine (silent_log _).before hsafe' ?_
    refine silent_close.before hsafe' ?_
    exact stage_giveUp hat (by omega) hsafe hcode hfind

/-- The fourth waits for the password request and answers it, where the salt can be hashed.
Where it cannot, this is the step that raises. -/
theorem password_ensures {run : Bool} {sid : Str} (hat : At settings 3 s)
    (hsafe : Safe settings s) (hsent : s.sent = [.hsup, .inf sid]) :
    Ensures AnyHub (password settings run) s (Stage settings fun _ s' =>
      At settings 4 s' ∧ ∃ pas, s'.sent = [.hsup, .inf sid, .hpas pas]) := by
  refine stage_bind (stage_readLogin hat (by omega) hsafe) ?_
  rintro buf s' hsafe' ⟨hcode, rfl⟩
  by_cases hfind : find buf (lit "GPA") = true
  · rw [if_pos hfind]
    refine (silent_log _).before hsafe' ?_
    refine (silent_emitIf _ _ _).before hsafe' ?_
    have hiff := hashPas_ok_iff settings.tiger settings.hub.pass buf
    cases hpas : hashPas settings.tiger settings.hub.pass (saltOf buf) with
    | error err =>
        -- the hash raises, and nothing up to the frontend catches it
        refine ensures_raise.mpr
          ⟨hsafe', hsafe', Or.inl (hat.push_badSalt_iff.mpr ⟨rfl, ⟨hcode, hfind⟩, ?_⟩)⟩
        rw [hpas] at hiff
        simpa using hiff
    | ok pas =>
        have hfits : saltFits buf = true := hiff.mp ⟨pas, hpas⟩
        refine ensures_effect.mpr ⟨hsafe', fun reply => ?_⟩
        have hdone := (hat.push ⟨hcode, hfind⟩ fun _ => hfits).send (.hpas pas) reply
        have hframes : ((Trace.push s buf).observe (.send (.hpas pas)) reply).sent =
            [.hsup, .inf sid, .hpas pas] := by
          simp [Trace.observe, Trace.push, hsent]
        have hsafe'' := hdone.safe (by
          rw [hframes]
          exact frameOrder_login sid pas (Or.inl rfl) ⟨_, rfl⟩)
          (by omega) (by omega) (by simp [hframes])
        cases reply with
        | error err =>
            refine (silent_log _).before hsafe'' ?_
            refine (silent_emit _ _).before hsafe'' ?_
            refine silent_close.before hsafe'' ?_
            exact stage_sendFailed hdone hsafe''
        | ok _ =>
            refine (silent_logFrame _).before hsafe'' ?_
            refine (silent_log _).before hsafe'' ?_
            exact (silent_emitIf _ _ _).last hsafe'' ⟨hsafe'', hdone, pas, hframes⟩
  · rw [if_neg hfind]
    rw [Bool.not_eq_true] at hfind
    refine (silent_log _).before hsafe' ?_
    refine (silent_emit _ _).before hsafe' ?_
    refine silent_close.before hsafe' ?_
    exact stage_giveUp hat (by omega) hsafe hcode hfind

theorem hubCount_cases (buf : Str) : hubCount buf = lit "HR1" ∨ hubCount buf = lit "HO1" := by
  unfold hubCount
  split
  case isTrue => exact Or.inr rfl
  case isFalse => exact Or.inl rfl

/-- The last waits for the answer to the password, and sends the description with the hub
count. -/
theorem loginReply_ensures {run : Bool} {sid pas : Str} (hat : At settings 4 s)
    (hsafe : Safe settings s) (hsent : s.sent = [.hsup, .inf sid, .hpas pas]) :
    Ensures AnyHub (loginReply run sid) s (Stage settings fun _ s' =>
      At settings 5 s' ∧ ∃ hubcount, (hubcount = lit "HR1" ∨ hubcount = lit "HO1") ∧
        s'.sent = loginFrames sid pas hubcount) := by
  refine stage_bind (stage_readLogin hat (by omega) hsafe) ?_
  rintro buf s' hsafe' ⟨hcode, rfl⟩
  by_cases hfind : find buf (lit "BINF") = true
  · rw [if_pos hfind]
    refine ensures_effect.mpr ⟨hsafe', fun reply => ?_⟩
    have hdone := (hat.push ⟨hcode, hfind⟩ (by omega)).send (.infCount sid (hubCount buf)) reply
    have hframes : ((Trace.push s buf).observe (.send (.infCount sid (hubCount buf)))
        reply).sent = loginFrames sid pas (hubCount buf) := by
      simp [Trace.observe, Trace.push, hsent, loginFrames]
    have hsafe'' := hdone.safe (by
      rw [hframes]
      exact frameOrder_login sid pas (hubCount_cases buf) (List.prefix_refl _))
      (by omega) (by omega) (by omega)
    cases reply with
    | error err =>
        refine (silent_log _).before hsafe'' ?_
        refine silent_close.before hsafe'' ?_
        exact stage_sendFailed hdone hsafe''
    | ok _ =>
        refine (silent_logFrame _).before hsafe'' ?_
        refine (silent_log _).before hsafe'' ?_
        have hpost := hubCount_cases buf
        exact (silent_emitIf _ _ _).last hsafe'' ⟨hsafe'', hdone, hubCount buf, hpost, hframes⟩
  · rw [if_neg hfind]
    rw [Bool.not_eq_true] at hfind
    refine (silent_log _).before hsafe' ?_
    refine (silent_emit _ _).before hsafe' ?_
    refine silent_close.before hsafe' ?_
    exact stage_giveUp hat (by omega) hsafe hcode hfind

/-- The login as a whole. -/
theorem login_ensures {run : Bool} (hat : At settings 0 s) (hsafe : Safe settings s)
    (hsent : s.sent = [.hsup]) :
    Ensures AnyHub (login settings run) s (Stage settings fun sid s' =>
      At settings 5 s' ∧ ∃ pas hubcount, (hubcount = lit "HR1" ∨ hubcount = lit "HO1") ∧
        s'.sent = loginFrames sid pas hubcount) := by
  refine stage_bind (hubSupport_ensures hat hsafe) ?_
  rintro - s₁ hsafe₁ ⟨hat₁, hsent₁⟩
  refine stage_bind (hubSid_ensures hat₁ hsafe₁) ?_
  rintro sid s₂ hsafe₂ ⟨hat₂, hsent₂⟩
  refine stage_bind (hubInf_ensures hat₂ hsafe₂ (by rw [hsent₂, hsent₁, hsent])) ?_
  rintro - s₃ hsafe₃ ⟨hat₃, hsent₃⟩
  refine stage_bind (password_ensures hat₃ hsafe₃ hsent₃) ?_
  rintro - s₄ hsafe₄ ⟨hat₄, pas, hsent₄⟩
  refine stage_bind (loginReply_ensures hat₄ hsafe₄ hsent₄) ?_
  rintro - s₅ hsafe₅ ⟨hat₅, hubcount, hcount, hsent₅⟩
  exact stage_ret hsafe₅ ⟨hat₅, pas, hubcount, hcount, hsent₅⟩

end

/-! ## The main loop -/

/-- A session that has logged in: it has sent the frames of the login, some
complete rounds, and the first frames of another one. -/
structure Online (settings : Settings) (sid : Str) (s : Trace) : Prop where
  passed : Passed 5 s.deciding
  keyprint : settings.hub.keyp = [] ∨ s.fingerprint = some settings.hub.keyp
  sent : ∃ (pas hubcount : Str) (rounds : List (List Frame)) (bmsgs : List Frame),
    (hubcount = lit "HR1" ∨ hubcount = lit "HO1") ∧
    (∀ round ∈ rounds, Round sid round) ∧
    (∀ frame ∈ bmsgs, ∃ command category release,
      frame = .bmsg sid command category release) ∧
    s.sent = loginFrames sid pas hubcount ++ rounds.flatten ++ bmsgs

namespace Online

variable {settings : Settings} {sid : Str} {s : Trace}

/-- What has been sent by a session that is online is in order. -/
theorem safe (h : Online settings sid s) : Safe settings s where
  order := by
    obtain ⟨pas, hubcount, rounds, bmsgs, hcount, hrounds, hbmsgs, hsent⟩ := h.sent
    -- the frames of the round that has begun are a prefix of the finished one
    refine ⟨sid, pas, hubcount, rounds ++ [bmsgs ++ [.keepAlive sid]], hcount, ?_,
      [.keepAlive sid], ?_⟩
    · intro round hround
      rcases List.mem_append.mp hround with hold | hnew
      · exact hrounds round hold
      · rw [List.mem_singleton] at hnew
        exact ⟨bmsgs, hnew, hbmsgs⟩
    · rw [hsent]
      simp
  keyprint := fun _ => h.keyprint
  inf := fun _ => h.passed.mono (by omega)
  hpas := fun _ => h.passed.mono (by omega)
  infCount := fun _ => h.passed

/-- Nothing it has been told ends it for good. -/
theorem not_terminal (h : Online settings sid s) : ¬ Terminal settings s := by
  rintro (hmis | ⟨i, hi, -, line, hline, hfatal⟩)
  · exact not_mismatch h.keyprint hmis
  · obtain ⟨line', hline', hanswers⟩ := h.passed i hi
    rw [hline, Option.some.injEq] at hline'
    subst hline'
    exact not_fatal_of_answers hanswers hfatal

theorem textless (h : Online settings sid s) : Online settings sid { s with textless := true } :=
  ⟨h.passed, h.keyprint, h.sent⟩

theorem read (h : Online settings sid s) (buf : Str) : Online settings sid (s.read buf) := by
  unfold Trace.read
  split
  case isTrue => exact h
  case isFalse => exact ⟨h.passed.append [buf], h.keyprint, h.sent⟩

/-- It stays online with one more announcement. -/
theorem bmsg (h : Online settings sid s) (command category release : Str)
    (reply : Except Str Unit) :
    Online settings sid (s.observe (.send (.bmsg sid command category release)) reply) where
  passed := h.passed
  keyprint := h.keyprint
  sent := by
    obtain ⟨pas, hubcount, rounds, bmsgs, hcount, hrounds, hbmsgs, hsent⟩ := h.sent
    refine ⟨pas, hubcount, rounds, bmsgs ++ [.bmsg sid command category release], hcount,
      hrounds, ?_, ?_⟩
    · intro frame hframe
      rcases List.mem_append.mp hframe with hold | hnew
      · exact hbmsgs frame hold
      · exact ⟨command, category, release, List.mem_singleton.mp hnew⟩
    · simp [Trace.observe, hsent]

/-- It stays online with one more keep-alive. -/
theorem keepAlive (h : Online settings sid s) (reply : Except Str Unit) :
    Online settings sid (s.observe (.send (.keepAlive sid)) reply) where
  passed := h.passed
  keyprint := h.keyprint
  sent := by
    obtain ⟨pas, hubcount, rounds, bmsgs, hcount, hrounds, hbmsgs, hsent⟩ := h.sent
    refine ⟨pas, hubcount, rounds ++ [bmsgs ++ [.keepAlive sid]], [], hcount, ?_, by simp, ?_⟩
    · intro round hround
      rcases List.mem_append.mp hround with hold | hnew
      · exact hrounds round hold
      · rw [List.mem_singleton] at hnew
        exact ⟨bmsgs, hnew, hbmsgs⟩
    · simp [Trace.observe, hsent]

end Online

/-- The main loop goes on, or is left for another try.  It never returns `true`: nothing
the hub says behind the login is terminal. -/
def Alive {α : Type} (settings : Settings) (sid : Str) (o : Outcome LuaError Bool α)
    (s : Trace) : Prop :=
  Online settings sid s ∧ ∀ b, o = .exit b → b = false

section

variable {settings : Settings} {sid : Str} {α β : Type} {s : Trace}

theorem alive_running (h : Online settings sid s) :
    Alive settings sid (.running : Outcome LuaError Bool α) s :=
  ⟨h, by simp⟩

theorem alive_ret {a : α} (h : Online settings sid s) :
    Ensures AnyHub (.ret a) s (Alive settings sid) :=
  ensures_ret.mpr ⟨alive_running h, h, by simp⟩

theorem alive_leave (h : Online settings sid s) :
    Ensures AnyHub (leave false : Act α) s (Alive settings sid) :=
  ensures_exit.mpr ⟨alive_running h, h, by simp⟩

/-- What is left to show of the code behind a piece that keeps the session
going. -/
theorem Alive.andThen {o : Outcome LuaError Bool α} {next : α → Trace → Prop}
    (h : Alive settings sid o s) (hnext : ∀ a, Online settings sid s → next a s) :
    Outcome.andThen (Alive (α := β) settings sid) next o s := by
  obtain ⟨honline, hexit⟩ := h
  cases o with
  | ret a => exact hnext a honline
  | exit b =>
      have hb : b = false := hexit b rfl
      exact ⟨honline, by simp [hb]⟩
  | raise err => exact ⟨honline, by simp⟩
  | running => exact ⟨honline, by simp⟩

/-- Two pieces of a session that is online. -/
theorem alive_bind {p : Act α} {f : α → Act β} (hp : Ensures AnyHub p s (Alive settings sid))
    (hf : ∀ a s', Online settings sid s' → Ensures AnyHub (f a) s' (Alive settings sid)) :
    Ensures AnyHub (Prog.bind p f) s (Alive settings sid) := by
  apply ensures_bind
  refine hp.mono ?_
  intro o s' h
  exact h.andThen fun a => hf a s'

theorem alive_ofExcept {result : Except LuaError α} (h : Online settings sid s) :
    Ensures AnyHub (Prog.ofExcept result) s (Alive settings sid) := by
  cases result with
  | ok a => exact alive_ret h
  | error err => exact ensures_raise.mpr ⟨alive_running h, h, by simp⟩

/-- The wait in front of the first scan. -/
theorem settle_alive (h : Online settings sid s) :
    Ensures AnyHub (settle settings) s (Alive settings sid) := by
  have hrun : Alive settings sid (.running : Outcome LuaError Bool Unit) s := alive_running h
  refine ensures_effect.mpr ⟨hrun, fun reply => ?_⟩
  have hrest : Ensures AnyHub (Prog.bind (log (lit "Waiting " ++ settings.sleep.tostring ++
      lit " seconds before starting the announcer...")) fun _ =>
      Prog.bind (sleep settings.sleep) fun _ => keepalive) s (Alive settings sid) :=
    (silent_log _).before hrun ((silent_sleep _).before hrun
      (silent_keepalive.last hrun ⟨h, by simp⟩))
  cases reply with
  | none => exact hrest
  | some cipher =>
      refine (silent_log _).before hrun ?_
      refine (silent_log _).before hrun ?_
      refine (silent_log _).before hrun ?_
      refine (silent_emit _ _).before hrun ?_
      exact hrest

/-- One announcement.  Its words may not concatenate, and then the session ends by raising. -/
theorem announceOne_alive {c : Nat} {entry : Str × Rule} (h : Online settings sid s) :
    Ensures AnyHub (announceOne sid c entry) s (Alive settings sid) := by
  refine alive_bind (alive_ofExcept h) ?_
  intro command s' h'
  have hrun : Alive settings sid (.running : Outcome LuaError Bool Nat) s' := alive_running h'
  split
  case h_1 category command hcategory =>
    refine ensures_effect.mpr ⟨hrun, fun reply => ?_⟩
    have hsent := h'.bmsg command category entry.1 reply
    cases reply with
    | error err =>
        refine (silent_log _).before (alive_running hsent) ?_
        exact alive_leave hsent
    | ok _ =>
        refine (silent_logRelease _).before (alive_running hsent) ?_
        exact alive_ret hsent
  case h_2 =>
      refine (silent_log _).before hrun ?_
      exact alive_ret h'

/-- A round of them, over whatever the scan has found. -/
theorem announceRound_alive (h : Online settings sid s) :
    Ensures AnyHub (announceRound settings sid) s (Alive settings sid) := by
  have hrun : Alive settings sid (.running : Outcome LuaError Bool Unit) s := alive_running h
  refine (silent_settimeout _).before hrun ?_
  refine ensures_effect.mpr ⟨hrun, fun reply => ?_⟩
  refine alive_bind (alive_ofExcept h) ?_
  intro found s₁ h₁
  refine (silent_log _).before (alive_running h₁) ?_
  have hloop : Ensures AnyHub (found.foldlM (announceOne sid) 0) s₁ (Alive settings sid) := by
    refine ensures_foldlM (I := fun _ _ s => Online settings sid s)
      (fun _ _ _ => alive_running) (fun _ _ h => ⟨h, by simp⟩) ?_ found 0 s₁ h₁
    intro entry rest c s' h'
    exact (announceOne_alive h').mono fun _ _ hs => hs.andThen fun _ honline => honline
  refine alive_bind hloop ?_
  intro c s₂ h₂
  refine (silent_log _).before (alive_running h₂) ?_
  refine ensures_effect.mpr ⟨alive_running h₂, fun reply => ?_⟩
  have hsent := h₂.keepAlive reply
  cases reply with
  | error err =>
      refine (silent_log _).before (alive_running hsent) ?_
      exact alive_leave hsent
  | ok _ => exact alive_ret hsent

/-- The poll, which may find that the hub has gone. -/
theorem poll_alive (h : Online settings sid s) :
    Ensures AnyHub poll s (Alive settings sid) := by
  have hrun : Alive settings sid (.running : Outcome LuaError Bool Unit) s := alive_running h
  refine (silent_settimeout _).before hrun ?_
  refine ensures_effect.mpr ⟨hrun, fun reply => ?_⟩
  cases reply with
  | ok buf => exact alive_ret (h.read buf)
  | error err =>
      cases err with
      | none => exact alive_ret h.textless
      | some err =>
          simp only
          split
          case isTrue => exact alive_ret h
          case isFalse =>
            refine (silent_log _).before hrun ?_
            refine (silent_emit _ _).before hrun ?_
            exact alive_leave h

/-- One turn of the main loop, with the round when it is due. -/
theorem mainBody_alive {nextAnnounce : LuaNum} (h : Online settings sid s) :
    Ensures AnyHub (mainBody settings sid nextAnnounce) s (Alive settings sid) := by
  refine ensures_effect.mpr ⟨alive_running h, fun now => ?_⟩
  split
  case isTrue =>
    refine alive_bind (announceRound_alive h) ?_
    intro _ s₁ h₁
    refine ensures_effect.mpr ⟨alive_running h₁, fun now' => ?_⟩
    refine alive_bind (poll_alive h₁) ?_
    intro _ s₂ h₂
    exact alive_ret h₂
  case isFalse =>
    refine alive_bind (poll_alive h) ?_
    intro _ s₁ h₁
    exact alive_ret h₁

/-- Any number of turns. -/
theorem mainLoop_alive (h : Online settings sid s) (fuel : Nat) (nextAnnounce : LuaNum) :
    Ensures AnyHub (Prog.iterate (mainBody settings sid) fuel nextAnnounce) s
      (Alive settings sid) := by
  refine ensures_iterate (I := fun _ s => Online settings sid s) (fun _ _ => alive_running)
    (fun _ _ h => ⟨h, by simp⟩) ?_ fuel nextAnnounce s h
  intro next s' h'
  exact (mainBody_alive h').mono fun _ _ hs => hs.andThen fun _ honline => honline

end

/-! ## The whole function -/

/-- A piece of `net.loop` has ended, or is under way.  An error may have many
causes here. -/
def Whole {α : Type} (settings : Settings) (post : α → Trace → Prop) :
    Outcome LuaError Bool α → Trace → Prop
  | .running, s => Safe settings s
  | .ret a, s => Safe settings s ∧ post a s
  | .exit b, s => Safe settings s ∧ (b = true ↔ Terminal settings s)
  | .raise _, s => Safe settings s

section

variable {settings : Settings} {sid : Str} {α β : Type} {s : Trace}

/-- What a step of the login establishes, among the ends of the whole session. -/
theorem Stage.whole {p : Act α} {post : α → Trace → Prop}
    (h : Ensures AnyHub p s (Stage settings post)) :
    Ensures AnyHub p s (Whole settings post) := by
  refine h.mono ?_
  intro o s' h'
  cases o with
  | ret a => exact h'
  | exit b => exact ⟨h'.1, h'.2.1⟩
  | raise err => exact h'.1
  | running => exact h'

/-- What a piece that is online establishes, there. -/
theorem Alive.whole {p : Act α} (h : Ensures AnyHub p s (Alive settings sid)) :
    Ensures AnyHub p s (Whole settings fun _ s' => Online settings sid s') := by
  refine h.mono ?_
  rintro o s' ⟨honline, hexit⟩
  cases o with
  | ret a => exact ⟨honline.safe, honline⟩
  | exit b =>
      have hb := hexit b rfl
      subst hb
      exact ⟨honline.safe, iff_of_false (by decide) honline.not_terminal⟩
  | raise err => exact honline.safe
  | running => exact honline.safe

/-- Two pieces of the session. -/
theorem whole_bind {p : Act α} {f : α → Act β} {mid : α → Trace → Prop}
    {post : β → Trace → Prop} (hp : Ensures AnyHub p s (Whole settings mid))
    (hf : ∀ a s', Safe settings s' → mid a s' → Ensures AnyHub (f a) s' (Whole settings post)) :
    Ensures AnyHub (Prog.bind p f) s (Whole settings post) := by
  refine ensures_bind (hp.mono ?_)
  intro o s' h
  cases o with
  | ret a => exact hf a s' h.1 h.2
  | exit b => exact h
  | raise err => exact h
  | running => exact h

theorem whole_ret {post : α → Trace → Prop} {a : α} (hsafe : Safe settings s)
    (hpost : post a s) : Ensures AnyHub (.ret a) s (Whole settings post) :=
  ensures_ret.mpr ⟨hsafe, hsafe, hpost⟩

theorem whole_leave {post : α → Trace → Prop} {b : Bool} (hsafe : Safe settings s)
    (hterminal : b = true ↔ Terminal settings s) :
    Ensures AnyHub (leave b : Act α) s (Whole settings post) :=
  ensures_exit.mpr ⟨hsafe, hsafe, hterminal⟩

theorem whole_raise {post : α → Trace → Prop} {err : LuaError} (hsafe : Safe settings s) :
    Ensures AnyHub (.raise err : Act α) s (Whole settings post) :=
  ensures_raise.mpr ⟨hsafe, hsafe⟩

/-- Before anything is sent. -/
theorem safe_nil (h : s.sent = []) : Safe settings s where
  order := by
    rw [h]
    exact frameOrder_login [] [] (Or.inl rfl) List.nil_prefix
  keyprint := fun hne => absurd h hne
  inf := by simp [h]
  hpas := by simp [h]
  infCount := by simp [h]

/-- The trace a session starts with. -/
def start : Trace := {}

theorem start_not_terminal : ¬ Terminal settings start := by
  rintro (⟨-, fp, hfp, -⟩ | ⟨i, -, -, buf, hbuf, -⟩)
  · cases hfp
  · simp [start] at hbuf

/-- Connecting sends nothing, and waits between two tries. -/
theorem connectLoop_whole (fuel : Nat) :
    Ensures AnyHub (connectLoop settings fuel) start (Whole settings fun _ s' => s' = start) := by
  have hsafe : Safe settings start := safe_nil rfl
  induction fuel with
  | zero => exact whole_ret hsafe rfl
  | succ fuel ih =>
      refine ensures_effect.mpr ⟨hsafe, fun reply => ?_⟩
      cases reply with
      | ok _ => exact whole_ret hsafe rfl
      | error err =>
          refine (silent_log _).before hsafe ?_
          refine (silent_log _).before hsafe ?_
          refine (silent_emit _ _).before hsafe ?_
          refine (silent_sleep _).before hsafe ?_
          exact ih

/-- Neither does opening the socket. -/
theorem openSocket_whole (fuel : Nat) :
    Ensures AnyHub (openSocket settings fuel) start (Whole settings fun _ s' => s' = start) := by
  have hsafe : Safe settings start := safe_nil rfl
  refine ensures_effect.mpr ⟨hsafe, fun reply => ?_⟩
  cases reply with
  | error err => exact whole_raise hsafe
  | ok _ =>
      refine (silent_log _).before hsafe ?_
      refine (silent_settimeout _).before hsafe ?_
      exact connectLoop_whole fuel

/-- The handshake and the comparison of the keyprints, behind which the login begins. -/
theorem secure_whole (run : Bool) :
    Ensures AnyHub (secure settings run) start (Whole settings fun _ s' =>
      At settings 0 s' ∧ s'.sent = []) := by
  have hsafe : Safe settings start := safe_nil rfl
  refine (silent_log _).before hsafe ?_
  refine (silent_emitIf _ _ _).before hsafe ?_
  refine ensures_effect.mpr ⟨hsafe, fun reply => ?_⟩
  cases reply with
  | error err => exact whole_raise hsafe
  | ok _ =>
      refine (silent_settimeout _).before hsafe ?_
      refine ensures_effect.mpr ⟨hsafe, fun reply => ?_⟩
      cases reply with
      | error err =>
          refine (silent_log _).before hsafe ?_
          refine (silent_emit _ _).before hsafe ?_
          exact whole_leave hsafe (iff_of_false (by decide) start_not_terminal)
      | ok _ =>
          refine (silent_log _).before hsafe ?_
          refine (silent_emitIf _ _ _).before hsafe ?_
          refine ensures_effect.mpr ⟨hsafe, fun reply => ?_⟩
          have hsafe' : Safe settings (start.observe .fingerprint reply) := safe_nil rfl
          cases reply with
          | none => exact whole_raise hsafe'
          | some fp =>
              have hdone : settings.hub.keyp = [] ∨ fp = settings.hub.keyp →
                  At settings 0 (start.observe .fingerprint (some fp)) := by
                intro hkeyp
                exact ⟨passed_zero _, rfl, hkeyp.imp_right (congrArg some), by simp [start,
                  Trace.observe], rfl⟩
              by_cases hempty : settings.hub.keyp = []
              · simp only [hempty, ne_eq, not_true_eq_false, if_false]
                refine (silent_log _).before hsafe' ?_
                exact (silent_emit _ _).last hsafe' ⟨hsafe', hdone (Or.inl hempty), rfl⟩
              · simp only [hempty, ne_eq, not_false_eq_true, if_true]
                by_cases hsame : fp = settings.hub.keyp
                · simp only [hsame, not_true_eq_false, if_false]
                  rw [hsame] at hsafe' hdone
                  refine (silent_log _).before hsafe' ?_
                  exact (silent_emit _ _).last hsafe' ⟨hsafe', hdone (Or.inr rfl), rfl⟩
                · simp only [hsame, not_false_eq_true, if_true]
                  refine (silent_log _).before hsafe' ?_
                  refine (silent_emit _ _).before hsafe' ?_
                  refine silent_close.before hsafe' ?_
                  exact whole_leave hsafe' (iff_of_true rfl (Or.inl ⟨hempty, fp, rfl, hsame⟩))

/-- The first frame. -/
theorem sendSupport_whole {run : Bool} (hat : At settings 0 s) (hsent : s.sent = []) :
    Ensures AnyHub (sendSupport run) s (Whole settings fun _ s' =>
      At settings 0 s' ∧ s'.sent = [.hsup]) := by
  have hsafe : Safe settings s := safe_nil hsent
  refine (silent_log _).before hsafe ?_
  refine (silent_emitIf _ _ _).before hsafe ?_
  refine (silent_log _).before hsafe ?_
  refine ensures_effect.mpr ⟨hsafe, fun reply => ?_⟩
  have hdone := hat.send .hsup reply
  have hframes : (s.observe (.send .hsup) reply).sent = [.hsup] := by
    simp [Trace.observe, hsent]
  have hsafe' : Safe settings (s.observe (.send .hsup) reply) := hdone.safe (by
    rw [hframes]
    exact frameOrder_login [] [] (Or.inl rfl) ⟨_, rfl⟩)
    (by simp [hframes]) (by simp [hframes]) (by simp [hframes])
  cases reply with
  | error err =>
      refine (silent_log _).before hsafe' ?_
      refine (silent_emit _ _).before hsafe' ?_
      exact whole_leave hsafe' (iff_of_false (by decide) hdone.not_terminal)
  | ok _ =>
      refine (silent_logFrame _).before hsafe' ?_
      refine (silent_log _).before hsafe' ?_
      exact (silent_emitIf _ _ _).last hsafe' ⟨hsafe', hdone, hframes⟩

/-- **Every moment of a session** keeps to the protocol, and the session
returns `true` exactly when it has met something terminal. -/
theorem loop_whole (settings : Settings) (fuel : Nat) :
    Ensures AnyHub (loop settings fuel) start (Whole settings fun _ _ => True) := by
  refine whole_bind (openSocket_whole fuel) ?_
  rintro connected _ hsafe rfl
  cases connected with
  | none => exact whole_ret hsafe trivial
  | some run =>
      refine whole_bind (secure_whole run) ?_
      rintro - s₁ - ⟨hat₁, hsent₁⟩
      refine whole_bind (sendSupport_whole hat₁ hsent₁) ?_
      rintro - s₂ hsafe₂ ⟨hat₂, hsent₂⟩
      refine whole_bind (Stage.whole (login_ensures hat₂ hsafe₂ hsent₂)) ?_
      rintro sid s₃ - ⟨hat₃, pas, hubcount, hcount, hsent₃⟩
      have honline : Online settings sid s₃ := ⟨hat₃.passed, hat₃.keyprint, pas, hubcount, [], [],
        hcount, by simp, by simp, by simp [hsent₃]⟩
      refine whole_bind (Alive.whole (settle_alive honline)) ?_
      rintro - s₄ - honline₄
      refine whole_bind (Alive.whole (mainLoop_alive honline₄ fuel (.int 0))) ?_
      rintro - s₅ hsafe₅ -
      exact whole_ret hsafe₅ trivial

end

/-! ## Order, safety, and errors -/

/-- **Login ordering and keyprint safety.**  Whatever the hub and the network
do, at every moment of a session the frames are in order, each sent after the
frames it answers, and none to a hub whose keyprint is wrong. -/
theorem loop_safe (settings : Settings) (fuel : Nat) :
    Ensures AnyHub (loop settings fuel) start fun _ s => Safe settings s := by
  refine (loop_whole settings fuel).mono ?_
  intro o s h
  cases o with
  | ret a => exact h.1
  | exit b => exact h.1
  | raise err => exact h
  | running => exact h

/-- The trace a login starts with. -/
def atLogin (settings : Settings) : Trace :=
  { sent := [.hsup], fingerprint := some settings.hub.keyp }

/-- **When the login raises.**  Whatever the hub sends, a login that has come
to an end has raised exactly if the hub asked for the password with a salt that
does not fit, or a read failed without a text. -/
theorem login_raises_iff (settings : Settings) (run : Bool) :
    Ensures AnyHub (login settings run) (atLogin settings) fun o s =>
      o ≠ .running → ((∃ err, o = .raise err) ↔ BadSalt s ∨ s.textless = true) := by
  have hat : At settings 0 (atLogin settings) :=
    ⟨passed_zero _, rfl, Or.inr rfl, by simp [atLogin], rfl⟩
  have hsafe : Safe settings (atLogin settings) :=
    hat.safe (frameOrder_login [] [] (Or.inl rfl) ⟨_, rfl⟩)
      (by simp [atLogin]) (by simp [atLogin]) (by simp [atLogin])
  refine (login_ensures hat hsafe rfl).mono ?_
  intro o s h hend
  cases o with
  | ret sid => exact iff_of_false (by simp) h.2.1.not_crashes
  | exit b => exact iff_of_false (by simp) h.2.2
  | raise err => exact iff_of_true ⟨err, rfl⟩ h.2
  | running => exact absurd rfl hend

/-- A hub that sends the given lines and takes whatever it is sent, up to the
main loop. -/
def willingHub : List Str → (e : Eff) → Option (Reply e × List Str)
  | line :: rest, .receive => some (.ok line, rest)
  | [], .receive => none
  | lines, .event _ => some ((), lines)
  | lines, .status _ _ => some ((), lines)
  | lines, .tcp => some (.ok (), lines)
  | lines, .settimeout _ => some ((), lines)
  | lines, .connect => some (.ok (), lines)
  | lines, .sleep _ => some ((), lines)
  | lines, .wrap => some (.ok (), lines)
  | lines, .dohandshake => some (.ok (), lines)
  | lines, .fingerprint => some (some [], lines)
  | lines, .send _ => some (.ok (), lines)
  | lines, .close => some ((), lines)
  | lines, .info => some (some (lit "TLS_AES_256_GCM_SHA384"), lines)
  | lines, .keepalive => some ((), lines)
  | _, .gettime => none
  | _, .update => none
  | _, .release _ => none

/-- The settings of a first start. -/
def defaultSettings : Settings where
  hub := {
    addr := lit "127.0.0.1"
    keyp := []
    name := lit "Luadch Testhub"
    nick := lit "Announcer"
    pass := lit "test"
    port := lit "5001" }
  cfg := {
    announceinterval := .num (.int 300)
    botdesc := lit "Announcer Client"
    botshare := .num (.int 0)
    botslots := .num (.int 0)
    botupload := .num (.int 0)
    sleeptime := .num (.int 10)
    sockettimeout := .int 60 }
  id := { pid := lit "PID", cid := lit "CID" }
  tiger := fun pass salt => pass ++ salt

/-- A password request without a salt ends the process. -/
theorem login_emptySalt_raises :
    ¬ ∀ (settings : Settings) (run : Bool),
      Ensures AnyHub (login settings run) (atLogin settings) fun o _ =>
        ∀ err, o ≠ .raise err := by
  intro hall
  have hrun : ((login defaultSettings true).run willingHub
      [lit "ISUP ADOSNR", lit "ISID AAAA", lit "IINF CT32", lit "IGPA "]).1 =
      .raise .call := by decide
  obtain ⟨t, hexec⟩ := anyHub_run willingHub (login defaultSettings true)
    [lit "ISUP ADOSNR", lit "ISID AAAA", lit "IINF CT32", lit "IGPA "]
    (atLogin defaultSettings)
  rw [hrun] at hexec
  exact hall defaultSettings true _ t hexec .call rfl

end LuadchAnnouncer.Core.NetLogin
