import LuadchAnnouncer.Core.Net

/-!
# What a session has sent and read

A session runs against any hub at all: `AnyHub` lets every effect have every
reply, and records in a `Trace` what the statements about a session speak of,
the frames it has sent, the lines it has read that decided something, and the
fingerprint it has computed.

A frame counts as sent from the moment `client:send` is called, whether or not
that succeeds.  A line that is a status frame of severity 0 or 1 decides
nothing.
-/

namespace LuadchAnnouncer.Core.NetTrace

open LuadchAnnouncer.Verified.Bytes
open LuadchAnnouncer.Verified.LuaValue
open LuadchAnnouncer.Verified.Program
open LuadchAnnouncer.Adclib
open LuadchAnnouncer.Core.Net

/-- What the statements about a session speak of: the frames it has sent, the lines it has
read that decided something, and the fingerprint it has computed. -/
structure Trace where
  sent : List Frame := []
  deciding : List Str := []
  fingerprint : Option Str := none
  /-- a read has failed without a text -/
  textless : Bool := false

/-- A status frame the login skips. -/
def skipped (buf : Str) : Bool :=
  match istaCode buf with
  | none => false
  | some code => informational code

def Trace.read (s : Trace) (buf : Str) : Trace :=
  if skipped buf then s else { s with deciding := s.deciding ++ [buf] }

def Trace.observe (s : Trace) : (e : Eff) → Reply e → Trace
  | .fingerprint, reply => { s with fingerprint := reply }
  | .send frame, _ => { s with sent := s.sent ++ [frame] }
  | .receive, .ok buf => s.read buf
  | .receive, .error none => { s with textless := true }
  | _, _ => s

/-- Any hub, any network, any file system. -/
def AnyHub (s : Trace) (e : Eff) (reply : Reply e) (s' : Trace) : Prop :=
  s' = s.observe e reply

/-- Every script is one of the hubs a session may meet. -/
theorem anyHub_run {α σ : Type} (h : σ → (e : Eff) → Option (Reply e × σ)) (p : Act α) :
    ∀ (s : σ) (t : Trace), ∃ t', Exec AnyHub p t (p.run h s).1 t' := by
  induction p with
  | ret a => intro s t; exact ⟨t, .ret a t⟩
  | exit b => intro s t; exact ⟨t, .exit b t⟩
  | raise err => intro s t; exact ⟨t, .raise err t⟩
  | perform e k ih =>
      intro s t
      cases hs : h s e with
      | none =>
          simp only [Prog.run, hs]
          exact ⟨t, .stop _ _⟩
      | some reply =>
          obtain ⟨r, s₁⟩ := reply
          simp only [Prog.run, hs]
          obtain ⟨t', ht'⟩ := ih r s₁ (t.observe e r)
          exact ⟨t', .perform rfl ht'⟩

/-! ## One effect at a time -/

section

variable {α : Type} {s : Trace} {Q : Outcome LuaError Bool α → Trace → Prop}

/-- An effect against any hub: every answer has to be reckoned with. -/
theorem ensures_effect {e : Eff} {k : Reply e → Act α} :
    Ensures AnyHub (Prog.bind (Prog.effect e) k) s Q ↔
      Q .running s ∧ ∀ reply, Ensures AnyHub (k reply) (s.observe e reply) Q := by
  rw [Prog.effect_bind, ensures_perform]
  refine and_congr_right fun _ => ?_
  constructor
  · intro h reply
    exact h reply _ rfl
  · rintro h reply _ rfl
    exact h reply

/-- A program that leaves no trace and goes on, so that it can be passed over in a proof
about the trace. -/
def Silent (p : Act Unit) : Prop :=
  ∀ (α : Type) (k : Unit → Act α) (s : Trace) (Q : Outcome LuaError Bool α → Trace → Prop),
    Q .running s → Ensures AnyHub (k ()) s Q → Ensures AnyHub (Prog.bind p k) s Q

/-- Two silent programs, one after the other. -/
theorem Silent.bind {p q : Act Unit} (hp : Silent p) (hq : Silent q) :
    Silent (Prog.bind p fun _ => q) := by
  intro α k s Q hrun h
  rw [Prog.bind_assoc]
  exact hp _ _ s Q hrun (hq _ k s Q hrun h)

/-- A silent program before another one. -/
theorem Silent.before {p : Act Unit} {k : Unit → Act α} (hp : Silent p) (hrun : Q .running s)
    (h : Ensures AnyHub (k ()) s Q) : Ensures AnyHub (Prog.bind p k) s Q :=
  hp α k s Q hrun h

/-- A silent program at the end of another one. -/
theorem Silent.last {p : Act Unit} {s : Trace} {Q : Outcome LuaError Bool Unit → Trace → Prop}
    (hp : Silent p) (hrun : Q .running s) (hret : Q (.ret ()) s) : Ensures AnyHub p s Q := by
  rw [← Prog.bind_ret p]
  exact hp _ _ s Q hrun (ensures_ret.mpr ⟨hrun, hret⟩)

theorem silent_pure : Silent (pure ()) := by
  intro α k s Q _ h
  exact h

theorem silent_log (buf : Str) : Silent (log buf) := by
  intro α k s Q hrun h
  exact ensures_effect.mpr ⟨hrun, fun _ => h⟩

theorem silent_emit (key : StatusKey) (value : Str) : Silent (emit key value) := by
  intro α k s Q hrun h
  exact ensures_effect.mpr ⟨hrun, fun _ => h⟩

theorem silent_emitIf (run : Bool) (key : StatusKey) (value : Str) :
    Silent (emitIf run key value) := by
  unfold emitIf
  cases run with
  | true => exact silent_emit key value
  | false => exact silent_pure

theorem silent_logFrame (text : Str) : Silent (logFrame text) :=
  (silent_log ruler).bind (silent_log text)

theorem silent_settimeout (seconds : LuaNum) : Silent (settimeout seconds) := by
  intro α k s Q hrun h
  exact ensures_effect.mpr ⟨hrun, fun _ => h⟩

theorem silent_sleep (seconds : LuaNum) : Silent (sleep seconds) := by
  intro α k s Q hrun h
  exact ensures_effect.mpr ⟨hrun, fun _ => h⟩

theorem silent_close : Silent close := by
  intro α k s Q hrun h
  exact ensures_effect.mpr ⟨hrun, fun _ => h⟩

theorem silent_keepalive : Silent keepalive := by
  intro α k s Q hrun h
  exact ensures_effect.mpr ⟨hrun, fun _ => h⟩

theorem silent_logRelease (name : Str) : Silent (logRelease name) := by
  intro α k s Q hrun h
  exact ensures_effect.mpr ⟨hrun, fun _ => h⟩

end

/-! ## The five login reads -/

/-- What the deciding line of each login read has to contain. -/
def marker : Nat → Str
  | 0 => lit "ADOSNR"
  | 1 => lit "ISID"
  | 2 => lit "IINF"
  | 3 => lit "GPA"
  | _ => lit "BINF"

/-- The frame the login waits for at the `i`-th read. -/
def Answers (i : Nat) (buf : Str) : Prop := istaCode buf = none ∧ find buf (marker i) = true

/-- A line the login gives up on for good at the `i`-th read: a rejection that
is not one of the transient ones, or another frame than the one expected. -/
def Fatal (i : Nat) (buf : Str) : Prop :=
  (∃ code, istaCode buf = some code ∧ informational code = false ∧ retryIsta code = false) ∨
    (istaCode buf = none ∧ find buf (marker i) = false)

/-- The first `k` deciding lines are the frames the login waits for, each at its place. -/
def Passed (k : Nat) (deciding : List Str) : Prop :=
  ∀ i < k, ∃ buf, deciding[i]? = some buf ∧ Answers i buf

theorem passed_zero (deciding : List Str) : Passed 0 deciding := by
  intro i hi
  omega

/-- A login that has passed some stages has passed fewer. -/
theorem Passed.mono {k k' : Nat} {deciding : List Str} (h : Passed k deciding)
    (hk : k' ≤ k) : Passed k' deciding := by
  intro i hi
  exact h i (by omega)

/-- What is read later does not change what was passed. -/
theorem Passed.append {k : Nat} {deciding : List Str} (h : Passed k deciding)
    (more : List Str) : Passed k (deciding ++ more) := by
  intro i hi
  obtain ⟨buf, hbuf, hanswers⟩ := h i hi
  have hlt := (List.getElem?_eq_some_iff.mp hbuf).1
  exact ⟨buf, by rw [List.getElem?_append_left hlt, hbuf], hanswers⟩

/-- One more line that answers its step. -/
theorem Passed.snoc {k : Nat} {deciding : List Str} {buf : Str} (h : Passed k deciding)
    (hlen : deciding.length = k) (hbuf : Answers k buf) : Passed (k + 1) (deciding ++ [buf]) := by
  intro i hi
  by_cases hlast : i = k
  · subst hlast
    exact ⟨buf, by simp [← hlen], hbuf⟩
  · exact (h.append [buf]) i (by omega)

/-- As many steps have been passed as lines have been decided on, at most. -/
theorem Passed.length_le {k : Nat} {deciding : List Str} (h : Passed k deciding) :
    k ≤ deciding.length := by
  cases k with
  | zero => exact Nat.zero_le _
  | succ k =>
      obtain ⟨buf, hbuf, -⟩ := h k (by omega)
      have hlt := (List.getElem?_eq_some_iff.mp hbuf).1
      omega

/-- A line that answers a step does not end the login. -/
theorem not_fatal_of_answers {i : Nat} {buf : Str} (h : Answers i buf) : ¬ Fatal i buf := by
  obtain ⟨hcode, hfind⟩ := h
  rintro (⟨code, hcode', -, -⟩ | ⟨-, hfind'⟩)
  · rw [hcode] at hcode'
    cases hcode'
  · rw [hfind] at hfind'
    cases hfind'

/-- The keyprint check fails: there is a keyprint in the settings, and the fingerprint of
the hub is another one. -/
def Mismatch (settings : Settings) (s : Trace) : Prop :=
  settings.hub.keyp ≠ [] ∧ ∃ fp, s.fingerprint = some fp ∧ fp ≠ settings.hub.keyp

/-- The session meets something that will not change by trying again: a wrong keyprint, or
a line at one of the five reads that refuses the login for good. -/
def Terminal (settings : Settings) (s : Trace) : Prop :=
  Mismatch settings s ∨
    ∃ i < 5, Passed i s.deciding ∧ ∃ buf, s.deciding[i]? = some buf ∧ Fatal i buf

/-- The salt of a password request is one `hashpas` takes. -/
def saltFits (buf : Str) : Bool :=
  match saltOf buf with
  | none => false
  | some salt => saltBytes salt != 0 && saltBytes salt ≤ maxSaltBytes

/-- The hub has asked for the password with a salt that does not fit. -/
def BadSalt (s : Trace) : Prop :=
  Passed 4 s.deciding ∧ ∃ buf, s.deciding[3]? = some buf ∧ saltFits buf = false

/-- The login raises: on a salt that does not fit, or on a read that leaves it
without a line and without an error. -/
def Crashes (s : Trace) : Prop := BadSalt s ∨ s.textless = true

/-- The answer to a password request can be computed exactly if the salt in it fits. -/
theorem hashPas_ok_iff (tiger : Str → Str → Str) (pass buf : Str) :
    (∃ pas, hashPas tiger pass (saltOf buf) = .ok pas) ↔ saltFits buf = true := by
  unfold hashPas saltFits
  cases saltOf buf with
  | none => simp
  | some salt =>
      by_cases hbad : saltBytes salt = 0 ∨ maxSaltBytes < saltBytes salt
      · simp only [hbad, if_true, reduceCtorEq, exists_false, Bool.and_eq_true, bne_iff_ne,
          decide_eq_true_eq, false_iff, not_and]
        omega
      · simp only [hbad, if_false, Except.ok.injEq, exists_eq', Bool.and_eq_true, bne_iff_ne,
          decide_eq_true_eq, true_iff]
        omega

/-! ## The frames of a session -/

/-- One round of announcing: any number of `BMSG` and the keep-alive. -/
def Round (sid : Str) (round : List Frame) : Prop :=
  ∃ bmsgs, round = bmsgs ++ [.keepAlive sid] ∧
    ∀ frame ∈ bmsgs, ∃ command category release, frame = .bmsg sid command category release

/-- The frames of the login. -/
def loginFrames (sid pas hubcount : Str) : List Frame :=
  [.hsup, .inf sid, .hpas pas, .infCount sid hubcount]

/-- The frames come in the order of the protocol: those of the login, then rounds, and the
session may end anywhere in between. -/
def FrameOrder (frames : List Frame) : Prop :=
  ∃ (sid pas hubcount : Str) (rounds : List (List Frame)),
    (hubcount = lit "HR1" ∨ hubcount = lit "HO1") ∧
    (∀ round ∈ rounds, Round sid round) ∧
    frames <+: loginFrames sid pas hubcount ++ rounds.flatten

/-- **What a session keeps to.**  The frames are in order, none is sent to a
hub whose keyprint is wrong, and each of the later ones is sent only after the
frames of the hub it answers. -/
structure Safe (settings : Settings) (s : Trace) : Prop where
  order : FrameOrder s.sent
  keyprint : s.sent ≠ [] → settings.hub.keyp = [] ∨ s.fingerprint = some settings.hub.keyp
  inf : 2 ≤ s.sent.length → Passed 3 s.deciding
  hpas : 3 ≤ s.sent.length → Passed 4 s.deciding
  infCount : 4 ≤ s.sent.length → Passed 5 s.deciding

/-- Reading a line keeps what has been sent in order. -/
theorem Safe.read {settings : Settings} {s : Trace} (h : Safe settings s) (buf : Str) :
    Safe settings (s.read buf) := by
  unfold Trace.read
  split
  case isTrue => exact h
  case isFalse =>
    exact {
      order := h.order
      keyprint := h.keyprint
      inf := fun hlen => (h.inf hlen).append [buf]
      hpas := fun hlen => (h.hpas hlen).append [buf]
      infCount := fun hlen => (h.infCount hlen).append [buf] }

/-- So does a read that fails without a text. -/
theorem Safe.textless {settings : Settings} {s : Trace} (h : Safe settings s) :
    Safe settings { s with textless := true } :=
  ⟨h.order, h.keyprint, h.inf, h.hpas, h.infCount⟩

end LuadchAnnouncer.Core.NetTrace
