import LuadchAnnouncer.Core.NetLogin

/-!
# Status frames between the lines of a login

Two runs of a session are compared: one against a script, and one against the
same script with informational status frames put before the lines the login
decides on.  The rest of the world answers both runs alike, as it does not hear
of what is logged.

`Tracks k m p` says that the two runs of `p` agree when `k` padded reads lie
ahead, and leave `m` of them.  Only a login read takes one away; every other
effect keeps the two queues as they are.
-/

namespace LuadchAnnouncer.Core.NetScript

open LuadchAnnouncer.Verified.Bytes
open LuadchAnnouncer.Verified.LuaValue
open LuadchAnnouncer.Verified.Program
open LuadchAnnouncer.Adclib
open LuadchAnnouncer.Core.Net
open LuadchAnnouncer.Core.NetTrace
open LuadchAnnouncer.Core.NetLogin

/-! ## Scripts -/

/-- A world that is played from a script: what the socket is going to deliver,
and a state for all the rest.  `sent` records the frames. -/
structure Play (τ : Type) where
  rest : τ
  queue : List (Except (Option Str) Str)
  sent : List Frame

/-- How the rest of the world answers. -/
abbrev World (τ : Type) := τ → (e : Eff) → Option (Reply e × τ)

/-- The replies of a script.  Where it has none the run stands still. -/
def play {τ : Type} (world : World τ) (s : Play τ) : (e : Eff) → Option (Reply e × Play τ)
  | .event _ => some ((), s)
  | .receive =>
      match s.queue with
      | [] => none
      | reply :: queue => some (reply, { s with queue := queue })
  | .send frame =>
      (world s.rest (.send frame)).map fun (reply, rest) =>
        (reply, { s with rest := rest, sent := s.sent ++ [frame] })
  | e => (world s.rest e).map fun (reply, rest) => (reply, { s with rest := rest })

/-- A line the login skips, as the socket delivers it. -/
def skippedReply : Except (Option Str) Str → Bool
  | .ok buf => skipped buf
  | .error _ => false

/-- `q'` is `q` with up to seven informational frames before each of its first
`k` entries, none of which is informational itself. -/
inductive Padded :
    Nat → List (Except (Option Str) Str) → List (Except (Option Str) Str) → Prop where
  | done (q : List (Except (Option Str) Str)) : Padded 0 q q
  | nil (k : Nat) : Padded k [] []
  | pad {k : Nat} {q q' : List (Except (Option Str) Str)} (infos : List (Except (Option Str) Str))
      (reply : Except (Option Str) Str) (hlen : infos.length ≤ 7)
      (hinfos : ∀ info ∈ infos, skippedReply info = true) (hreply : skippedReply reply = false)
      (hrest : Padded k q q') : Padded (k + 1) (reply :: q) (infos ++ reply :: q')

/-! ## Two runs of one program -/

section

variable {τ : Type} {α β : Type} {world : World τ}

/-- The two states differ in the padding of the queue only: in the second there may be some
informational frames before each of the next `k` replies. -/
structure Pads (k : Nat) (s s' : Play τ) : Prop where
  rest : s'.rest = s.rest
  sent : s'.sent = s.sent
  queue : Padded k s.queue s'.queue

/-- The two runs have come to the same end, having sent the same. -/
structure Agree (m : Nat) (r r' : Outcome LuaError Bool α × Play τ) : Prop where
  outcome : r'.1 = r.1
  rest : r'.2.rest = r.2.rest
  sent : r'.2.sent = r.2.sent
  queue : ∀ a, r.1 = .ret a → Padded m r.2.queue r'.2.queue

/-- From states that differ in their padding the program comes to the same end in both,
having sent the same, and leaves states that differ in their padding. -/
def Tracks (world : World τ) (k m : Nat) (p : Act α) : Prop :=
  ∀ s s' : Play τ, Pads k s s' → Agree m (p.run (play world) s) (p.run (play world) s')

theorem tracks_ret (k : Nat) (a : α) : Tracks world k k (.ret a) := by
  intro s s' h
  exact ⟨rfl, h.rest, h.sent, fun _ _ => h.queue⟩

theorem tracks_leave (k m : Nat) (b : Bool) : Tracks world k m (leave b : Act α) := by
  intro s s' h
  exact ⟨rfl, h.rest, h.sent, fun _ hret => by cases hret⟩

theorem tracks_raise (k m : Nat) (err : LuaError) :
    Tracks world k m (.raise err : Act α) := by
  intro s s' h
  exact ⟨rfl, h.rest, h.sent, fun _ hret => by cases hret⟩

/-- With nothing padded ahead the two runs are one. -/
theorem tracks_zero (p : Act α) : Tracks world 0 0 p := by
  rintro ⟨rest, queue, sent⟩ ⟨rest', queue', sent'⟩ ⟨hrest, hsent, hqueue⟩
  have hsame : queue' = queue := by
    cases hqueue with
    | done => rfl
    | nil => rfl
  simp only at hrest hsent
  subst hrest hsent hsame
  exact ⟨rfl, rfl, rfl, fun _ _ => .done _⟩

/-- Two pieces that keep two runs together, one after the other.  The first leaves the second
as many lines as it needs. -/
theorem tracks_bind {k m n : Nat} {p : Act α} {f : α → Act β} (hp : Tracks world k m p)
    (hf : ∀ a, Tracks world m n (f a)) : Tracks world k n (Prog.bind p f) := by
  intro s s' h
  have hpr := hp s s' h
  rw [run_bind, run_bind]
  cases hrun : p.run (play world) s with
  | mk o t =>
      cases hrun' : p.run (play world) s' with
      | mk o' t' =>
          rw [hrun, hrun'] at hpr
          obtain ⟨houtcome, hrest, hsent, hqueue⟩ := hpr
          simp only at houtcome hrest hsent hqueue
          subst houtcome
          cases o' with
          | ret a => exact hf a t t' ⟨hrest, hsent, hqueue a rfl⟩
          | exit b => exact ⟨rfl, hrest, hsent, fun _ hret => by cases hret⟩
          | raise err => exact ⟨rfl, hrest, hsent, fun _ hret => by cases hret⟩
          | running => exact ⟨rfl, hrest, hsent, fun _ hret => by cases hret⟩

/-- An effect that does not read keeps the two runs together. -/
theorem tracks_effect {k : Nat} {e : Eff} (he : e ≠ .receive) :
    Tracks world k k (Prog.effect e) := by
  intro s s' h
  obtain ⟨hrest, hsent, hqueue⟩ := h
  have hstep : (play world s e = none ∧ play world s' e = none) ∨
      ∃ reply t t', play world s e = some (reply, t) ∧ play world s' e = some (reply, t') ∧
        t'.rest = t.rest ∧ t'.sent = t.sent ∧ t.queue = s.queue ∧ t'.queue = s'.queue := by
    cases e with
    | receive => exact absurd rfl he
    | event buf => exact Or.inr ⟨(), s, s', rfl, rfl, hrest, hsent, rfl, rfl⟩
    | send frame =>
        simp only [play, hrest]
        cases world s.rest (.send frame) with
        | none => exact Or.inl ⟨rfl, rfl⟩
        | some reply =>
            exact Or.inr ⟨reply.1, _, _, rfl, rfl, rfl, by simp [hsent], rfl, rfl⟩
    | _ =>
        simp only [play, hrest]
        cases world s.rest _ with
        | none => exact Or.inl ⟨rfl, rfl⟩
        | some reply => exact Or.inr ⟨reply.1, _, _, rfl, rfl, rfl, hsent, rfl, rfl⟩
  rcases hstep with ⟨hnone, hnone'⟩ | ⟨reply, t, t', hs, hs', hrest', hsent', hq, hq'⟩
  · simp only [Prog.effect, Prog.run, hnone, hnone']
    exact ⟨rfl, hrest, hsent, fun _ hret => by cases hret⟩
  · simp only [Prog.effect, Prog.run, hs, hs']
    refine ⟨rfl, hrest', hsent', fun _ _ => ?_⟩
    simp only [hq, hq']
    exact hqueue

theorem tracks_ofExcept (k : Nat) (result : Except LuaError α) :
    Tracks world k k (Prog.ofExcept result) := by
  cases result with
  | ok a => exact tracks_ret k a
  | error err => exact tracks_raise k k err

theorem tracks_log (k : Nat) (buf : Str) : Tracks world k k (log buf) :=
  tracks_effect (by simp)

theorem tracks_emit (k : Nat) (key : StatusKey) (value : Str) :
    Tracks world k k (emit key value) :=
  tracks_effect (by simp)

theorem tracks_emitIf (k : Nat) (run : Bool) (key : StatusKey) (value : Str) :
    Tracks world k k (emitIf run key value) := by
  unfold emitIf
  cases run with
  | true => exact tracks_emit k key value
  | false => exact tracks_ret k ()

theorem tracks_logFrame (k : Nat) (text : Str) : Tracks world k k (logFrame text) :=
  tracks_bind (tracks_log k ruler) fun _ => tracks_log k text

theorem tracks_close (k : Nat) : Tracks world k k close := tracks_effect (by simp)

/-! ## A padded read -/

/-- What `recv_login` makes of a line it does not skip. -/
def decided : Except (Option Str) Str → Outcome LuaError Bool (Except (Disp × Str) Str)
  | .error none => .raise .index
  | .error (some err) => .ret (.error (.error, err))
  | .ok buf =>
      match istaCode buf with
      | none => .ret (.ok buf)
      | some code =>
          .ret (if retryIsta code then .error (.retry, buf) else .error (.terminal, buf))

/-- A line that is not skipped is what the read returns, and takes one line from the queue. -/
theorem run_recvLogin_decided {n : Nat} {rest : τ} {sent : List Frame}
    {q : List (Except (Option Str) Str)} {reply : Except (Option Str) Str}
    (hreply : skippedReply reply = false) :
    (recvLoginFrom (n + 1)).run (play world) ⟨rest, reply :: q, sent⟩ =
      (decided reply, ⟨rest, q, sent⟩) := by
  cases reply with
  | error err =>
      cases err with
      | none => rfl
      | some err => rfl
  | ok buf =>
      rw [recvLoginFrom]
      change (Prog.run (play world) (match istaCode buf with
        | none => _
        | some code => _) _) = _
      cases hcode : istaCode buf with
      | none =>
          simp only [decided, hcode]
          rfl
      | some code =>
          have hinfo : informational code = false := by
            simpa [skippedReply, skipped, hcode] using hreply
          simp only [decided, hcode, hinfo, Bool.false_eq_true, if_false]
          split
          case isTrue => rfl
          case isFalse => rfl

/-- A line that is skipped costs one of the tries. -/
theorem run_recvLogin_skipped {n : Nat} {rest : τ} {sent : List Frame}
    {q : List (Except (Option Str) Str)} {info : Except (Option Str) Str}
    (hinfo : skippedReply info = true) :
    (recvLoginFrom (n + 1)).run (play world) ⟨rest, info :: q, sent⟩ =
      (recvLoginFrom n).run (play world) ⟨rest, q, sent⟩ := by
  cases info with
  | error err => cases hinfo
  | ok buf =>
      rw [recvLoginFrom]
      change (Prog.run (play world) (match istaCode buf with
        | none => _
        | some code => _) _) = _
      cases hcode : istaCode buf with
      | none => simp [skippedReply, skipped, hcode] at hinfo
      | some code =>
          have hinfo' : informational code = true := by
            simpa [skippedReply, skipped, hcode] using hinfo
          simp only [hinfo', if_true]
          rfl

/-- Any number of these, as long as there are tries left. -/
theorem run_recvLogin_infos {rest : τ} {sent : List Frame}
    {q : List (Except (Option Str) Str)} :
    ∀ (infos : List (Except (Option Str) Str)) (n : Nat),
      (∀ info ∈ infos, skippedReply info = true) →
      (recvLoginFrom (n + infos.length)).run (play world) ⟨rest, infos ++ q, sent⟩ =
        (recvLoginFrom n).run (play world) ⟨rest, q, sent⟩ := by
  intro infos
  induction infos with
  | nil =>
      intro n _
      rfl
  | cons info infos ih =>
      intro n hinfos
      obtain ⟨hinfo, hrest⟩ := List.forall_mem_cons.mp hinfos
      rw [List.length_cons, ← Nat.add_assoc, List.cons_append, run_recvLogin_skipped hinfo]
      exact ih n hrest

/-- A login read takes the padding of one line away. -/
theorem tracks_recvLogin (k : Nat) : Tracks world (k + 1) k recvLogin := by
  rintro ⟨rest, queue, sent⟩ ⟨rest', queue', sent'⟩ ⟨hrest, hsent, hqueue⟩
  simp only at hrest hsent hqueue
  subst hrest hsent
  cases hqueue with
  | nil => exact ⟨rfl, rfl, rfl, fun _ hret => by cases hret⟩
  | @pad _ q q' infos reply hlen hinfos hreply hpadded =>
      have hone : recvLogin.run (play world) ⟨rest', reply :: q, sent'⟩ =
          (decided reply, ⟨rest', q, sent'⟩) :=
        run_recvLogin_decided (n := 7) hreply
      have hfuel : maxLoginStatus = (7 - infos.length + 1) + infos.length := by
        simp only [maxLoginStatus]
        omega
      have hmany : recvLogin.run (play world) ⟨rest', infos ++ reply :: q', sent'⟩ =
          (decided reply, ⟨rest', q', sent'⟩) := by
        rw [recvLogin, hfuel, run_recvLogin_infos infos _ hinfos, run_recvLogin_decided hreply]
      rw [hone, hmany]
      exact ⟨rfl, rfl, rfl, fun _ _ => hpadded⟩

/-- Leaving the login reads nothing. -/
theorem tracks_loginBail (k m : Nat) (statuskey : StatusKey) (disp : Disp) (msg : Str) :
    Tracks world k m (loginBail statuskey disp msg : Act α) := by
  have hend : Tracks world k m (Prog.bind close fun _ => (leave (disp == .terminal) : Act α)) :=
    tracks_bind (tracks_close k) fun _ => tracks_leave k m _
  cases disp with
  | retry =>
      exact tracks_bind (tracks_log k _) fun _ => tracks_bind (tracks_emit k _ _) fun _ => hend
  | terminal =>
      exact tracks_bind (tracks_log k _) fun _ => tracks_bind (tracks_emit k _ _) fun _ => hend
  | error =>
      exact tracks_bind (tracks_log k _) fun _ => tracks_bind (tracks_emit k _ _) fun _ => hend

theorem tracks_readLogin (k : Nat) (statuskey : StatusKey) :
    Tracks world (k + 1) k (readLogin statuskey) := by
  refine tracks_bind (tracks_recvLogin k) fun result => ?_
  cases result with
  | error rejected => exact tracks_loginBail k k statuskey rejected.1 rejected.2
  | ok buf => exact tracks_bind (tracks_logFrame k _) fun _ => tracks_ret k buf

end

/-! ## The stages -/

section

variable {τ : Type} {world : World τ} {settings : Settings}

/-- Nor does connecting. -/
theorem tracks_connectLoop (k fuel : Nat) :
    Tracks world k k (connectLoop settings fuel) := by
  induction fuel with
  | zero => exact tracks_ret k none
  | succ fuel ih =>
      refine tracks_bind (tracks_effect (by simp)) fun reply => ?_
      cases reply with
      | ok _ => exact tracks_ret k (some true)
      | error err =>
          exact tracks_bind (tracks_log k _) fun _ => tracks_bind (tracks_log k _) fun _ =>
            tracks_bind (tracks_emit k _ _) fun _ => tracks_bind (tracks_effect (by simp))
              fun _ => ih

/-- Nor does opening the socket. -/
theorem tracks_openSocket (k fuel : Nat) :
    Tracks world k k (openSocket settings fuel) := by
  refine tracks_bind (tracks_effect (by simp)) fun reply => ?_
  cases reply with
  | error err => exact tracks_raise k k _
  | ok _ =>
      exact tracks_bind (tracks_log k _) fun _ => tracks_bind (tracks_effect (by simp))
        fun _ => tracks_connectLoop k fuel

/-- Nor does the handshake. -/
theorem tracks_secure (k : Nat) (run : Bool) : Tracks world k k (secure settings run) := by
  refine tracks_bind (tracks_log k _) fun _ => tracks_bind (tracks_emitIf k _ _ _) fun _ =>
    tracks_bind (tracks_effect (by simp)) fun reply => ?_
  cases reply with
  | error err => exact tracks_raise k k _
  | ok _ =>
      refine tracks_bind (tracks_effect (by simp)) fun _ =>
        tracks_bind (tracks_effect (by simp)) fun reply => ?_
      cases reply with
      | error err =>
          exact tracks_bind (tracks_log k _) fun _ => tracks_bind (tracks_emit k _ _)
            fun _ => tracks_leave k k _
      | ok _ =>
          refine tracks_bind (tracks_log k _) fun _ => tracks_bind (tracks_emitIf k _ _ _)
            fun _ => tracks_bind (tracks_effect (by simp)) fun reply => ?_
          cases reply with
          | none => exact tracks_raise k k _
          | some fp =>
              simp only
              split
              case isTrue =>
                split
                case isTrue =>
                  exact tracks_bind (tracks_log k _) fun _ => tracks_bind (tracks_emit k _ _)
                    fun _ => tracks_bind (tracks_close k) fun _ => tracks_leave k k _
                case isFalse =>
                  exact tracks_bind (tracks_log k _) fun _ => tracks_emit k _ _
              case isFalse => exact tracks_bind (tracks_log k _) fun _ => tracks_emit k _ _

/-- Nor does sending the first frame. -/
theorem tracks_sendSupport (k : Nat) (run : Bool) : Tracks world k k (sendSupport run) := by
  refine tracks_bind (tracks_log k _) fun _ => tracks_bind (tracks_emitIf k _ _ _) fun _ =>
    tracks_bind (tracks_log k _) fun _ => tracks_bind (tracks_effect (by simp)) fun reply => ?_
  cases reply with
  | error err =>
      exact tracks_bind (tracks_log k _) fun _ => tracks_bind (tracks_emit k _ _)
        fun _ => tracks_leave k k _
  | ok _ =>
      exact tracks_bind (tracks_logFrame k _) fun _ => tracks_bind (tracks_log k _)
        fun _ => tracks_emitIf k _ _ _

/-- Each of the next steps takes one line of either run, with the padding in front of it. -/
theorem tracks_hubSupport (k : Nat) (run : Bool) :
    Tracks world (k + 1) k (hubSupport run) := by
  refine tracks_bind (tracks_readLogin k _) fun buf => tracks_bind (tracks_log k _) fun _ =>
    tracks_bind (tracks_emitIf k _ _ _) fun _ => ?_
  split
  case isTrue => exact tracks_bind (tracks_log k _) fun _ => tracks_emitIf k _ _ _
  case isFalse =>
    exact tracks_bind (tracks_log k _) fun _ => tracks_bind (tracks_emit k _ _) fun _ =>
      tracks_bind (tracks_close k) fun _ => tracks_leave k k _

theorem tracks_hubSid (k : Nat) (run : Bool) : Tracks world (k + 1) k (hubSid run) := by
  refine tracks_bind (tracks_readLogin k _) fun buf => ?_
  split
  case isTrue =>
    exact tracks_bind (tracks_log k _) fun _ => tracks_bind (tracks_emitIf k _ _ _)
      fun _ => tracks_ret k _
  case isFalse =>
    exact tracks_bind (tracks_log k _) fun _ => tracks_bind (tracks_close k)
      fun _ => tracks_leave k k _

/-- The description, which is sent between two of them. -/
theorem tracks_hubInf (k : Nat) (run : Bool) (sid : Str) :
    Tracks world (k + 1) k (hubInf settings run sid) := by
  refine tracks_bind (tracks_log _ _) fun _ => tracks_bind (tracks_readLogin k _) fun buf => ?_
  split
  case isTrue =>
    refine tracks_bind (tracks_log k _) fun _ => tracks_bind (tracks_emitIf k _ _ _)
      fun _ => tracks_bind (tracks_effect (by simp)) fun reply => ?_
    cases reply with
    | error err =>
        exact tracks_bind (tracks_log k _) fun _ => tracks_bind (tracks_emit k _ _)
          fun _ => tracks_leave k k _
    | ok _ =>
        exact tracks_bind (tracks_logFrame k _) fun _ => tracks_bind (tracks_log k _)
          fun _ => tracks_emitIf k _ _ _
  case isFalse =>
    exact tracks_bind (tracks_log k _) fun _ => tracks_bind (tracks_close k)
      fun _ => tracks_leave k k _

/-- The password request, with the same salt in both runs, so that the answers are the same. -/
theorem tracks_password (k : Nat) (run : Bool) :
    Tracks world (k + 1) k (password settings run) := by
  refine tracks_bind (tracks_readLogin k _) fun buf => ?_
  split
  case isTrue =>
    refine tracks_bind (tracks_log k _) fun _ => tracks_bind (tracks_emitIf k _ _ _) fun _ =>
      tracks_bind (tracks_ofExcept k _) fun pas =>
        tracks_bind (tracks_effect (by simp)) fun reply => ?_
    cases reply with
    | error err =>
        exact tracks_bind (tracks_log k _) fun _ => tracks_bind (tracks_emit k _ _)
          fun _ => tracks_bind (tracks_close k) fun _ => tracks_leave k k _
    | ok _ =>
        exact tracks_bind (tracks_logFrame k _) fun _ => tracks_bind (tracks_log k _)
          fun _ => tracks_emitIf k _ _ _
  case isFalse =>
    exact tracks_bind (tracks_log k _) fun _ => tracks_bind (tracks_emit k _ _)
      fun _ => tracks_bind (tracks_close k) fun _ => tracks_leave k k _

/-- The last line of the login. -/
theorem tracks_loginReply (k : Nat) (run : Bool) (sid : Str) :
    Tracks world (k + 1) k (loginReply run sid) := by
  refine tracks_bind (tracks_readLogin k _) fun buf => ?_
  split
  case isTrue =>
    refine tracks_bind (tracks_effect (by simp)) fun reply => ?_
    cases reply with
    | error err =>
        exact tracks_bind (tracks_log k _) fun _ => tracks_bind (tracks_close k)
          fun _ => tracks_leave k k _
    | ok _ =>
        exact tracks_bind (tracks_logFrame k _) fun _ => tracks_bind (tracks_log k _)
          fun _ => tracks_emitIf k _ _ _
  case isFalse =>
    exact tracks_bind (tracks_log k _) fun _ => tracks_bind (tracks_emit k _ _)
      fun _ => tracks_bind (tracks_close k) fun _ => tracks_leave k k _

theorem tracks_login (run : Bool) : Tracks world 5 0 (login settings run) :=
  tracks_bind (tracks_hubSupport 4 run) fun _ => tracks_bind (tracks_hubSid 3 run) fun sid =>
    tracks_bind (tracks_hubInf 2 run sid) fun _ => tracks_bind (tracks_password 1 run) fun _ =>
      tracks_bind (tracks_loginReply 0 run sid) fun _ => tracks_ret 0 sid

end

/-! ## The two runs of a session -/

/-- The two runs come to the same end and send the same frames. -/
def SameEnd {τ α : Type} (world : World τ) (p : Act α) (s s' : Play τ) : Prop :=
  (p.run (play world) s').1 = (p.run (play world) s).1 ∧
    (p.run (play world) s').2.sent = (p.run (play world) s).2.sent

theorem Tracks.sameEnd {τ α : Type} {world : World τ} {k m : Nat} {p : Act α}
    {s s' : Play τ} (hp : Tracks world k m p) (h : Pads k s s') : SameEnd world p s s' :=
  ⟨(hp s s' h).outcome, (hp s s' h).sent⟩

/-- Where one piece keeps two runs together, they end alike if the rest does. -/
theorem sameEnd_bind {τ α β : Type} {world : World τ} {k m : Nat} {p : Act α}
    {f : α → Act β} {s s' : Play τ} (hp : Tracks world k m p) (h : Pads k s s')
    (hf : ∀ a t t', Pads m t t' → SameEnd world (f a) t t') :
    SameEnd world (Prog.bind p f) s s' := by
  obtain ⟨houtcome, hrest, hsent, hqueue⟩ := hp s s' h
  unfold SameEnd
  rw [run_bind, run_bind]
  cases hrun : p.run (play world) s with
  | mk o t =>
      cases hrun' : p.run (play world) s' with
      | mk o' t' =>
          rw [hrun, hrun'] at houtcome hrest hsent hqueue
          simp only at houtcome hrest hsent hqueue
          subst houtcome
          cases o' with
          | ret a => exact hf a t t' ⟨hrest, hsent, hqueue a rfl⟩
          | exit b => exact ⟨rfl, hsent⟩
          | raise err => exact ⟨rfl, hsent⟩
          | running => exact ⟨rfl, hsent⟩

/-- The whole session: five lines of the login, and then whatever the main loop does. -/
theorem loop_sameEnd {τ : Type} (world : World τ) (settings : Settings) (fuel : Nat)
    {s s' : Play τ} (h : Pads 5 s s') : SameEnd world (loop settings fuel) s s' := by
  refine sameEnd_bind (tracks_openSocket 5 fuel) h fun connected t t' ht => ?_
  cases connected with
  | none => exact (tracks_ret 5 ()).sameEnd ht
  | some run =>
      refine sameEnd_bind (tracks_secure 5 run) ht fun _ t₁ t₁' h₁ => ?_
      refine sameEnd_bind (tracks_sendSupport 5 run) h₁ fun _ t₂ t₂' h₂ => ?_
      refine sameEnd_bind (tracks_login run) h₂ fun sid t₃ t₃' h₃ => ?_
      -- once the login is over nothing is padded any more
      exact (tracks_zero _).sameEnd h₃

/-- **Terminal or transient, and deaf to status frames.**  In every run a
session that returns has returned `true` exactly if it met something terminal.
And when up to seven informational status frames are put before each of the
lines the login decides on, the same frames are sent and the session ends in
the same way. -/
theorem loop_returns (settings : Settings) (fuel : Nat) :
    (Ensures AnyHub (loop settings fuel) start fun o s =>
      ∀ b, o = .exit b → (b = true ↔ Terminal settings s)) ∧
    ∀ (τ : Type) (world : World τ) (rest : τ) (q q' : List (Except (Option Str) Str)),
      Padded 5 q q' → SameEnd world (loop settings fuel) ⟨rest, q, []⟩ ⟨rest, q', []⟩ := by
  constructor
  · refine (loop_whole settings fuel).mono ?_
    rintro o s h b rfl
    exact h.2
  · intro τ world rest q q' hpadded
    exact loop_sameEnd world settings fuel ⟨rfl, rfl, hpadded⟩

end LuadchAnnouncer.Core.NetScript
