import LuadchAnnouncer.Verified.Bytes

/-!
# `luasec`: sending and receiving

`buffer.c` reads lines and sends strings through `ssl_recv` and `ssl_send`, which
retry `SSL_read` and `SSL_write` until these are done or have failed.  What OpenSSL
answers to these calls is given as a list, one after the other; `none` is a call that
has not returned when the list is used up.

The lines are those of the bytes that OpenSSL has delivered, in whatever pieces it has
delivered them (`recvline_done`), and of a string that is sent with an error something
at its end has not been taken (`sendraw_failed`).

## Main results

* `sslStep_result`, `sslLoop_split` — one call to OpenSSL, and the loop around it.
* `recvline_round`, `recvline_spec` — a line, whatever pieces it comes in.
* `sendraw_round`, `sendraw_spec` — a string, whatever is taken at once.
-/

namespace LuadchAnnouncer.Luasec.Buffer

open LuadchAnnouncer.Verified.Bytes

/-! ## The transport -/

/-- `ssl->error`, from `SSL_get_error`. -/
inductive SslError where
  | none
  | zeroReturn
  | wantRead
  | wantWrite
  | wantConnect
  | wantAccept
  | wantX509Lookup
  | syscall
  | ssl
  | unknown
  deriving DecidableEq, Repr

def ioDone : Int := 0

def ioTimeout : Int := -1

def ioClosed : Int := -2

/-- `LSEC_IO_SSL` -/
def lsecIoSsl : Int := -100

/-- What a call of `SSL_read` or `SSL_write` comes to, with what is looked at behind it. -/
inductive SslCall (α : Type) where
  /-- `SSL_ERROR_NONE`: the bytes that were read, or the number of those written -/
  | done (a : α)
  | zeroReturn
  /-- `SSL_ERROR_WANT_READ` or `SSL_ERROR_WANT_WRITE`, and what `socket_waitfd` returns -/
  | want (write : Bool) (wait : Int)
  /-- `SSL_ERROR_SYSCALL`: whether an error is queued, what the call returned, `errno` -/
  | syscall (queued : Bool) (err errno : Int)
  /-- `default:` -/
  | failed (error : SslError)
  deriving DecidableEq, Repr

/-- What `ssl_recv` or `ssl_send` returns, with `ssl->error` behind it and the result. -/
structure Io (α : Type) where
  err : Int
  error : SslError
  result : Option α
  deriving DecidableEq, Repr

variable {α : Type}

/-- The body of the loop in `ssl_recv` and in `ssl_send`, which have different cases for
`SSL_ERROR_ZERO_RETURN`; `none` goes round again. -/
def sslStep (zeroReturn : Int) : SslCall α → Option (Io α)
  | .done a => some ⟨ioDone, .none, some a⟩
  | .zeroReturn => some ⟨zeroReturn, .zeroReturn, none⟩
  | .want write wait =>
      let error := if write then SslError.wantWrite else SslError.wantRead
      if wait = ioTimeout then some ⟨lsecIoSsl, error, none⟩
      else if wait ≠ ioDone then some ⟨wait, error, none⟩
      else none
  | .syscall queued err errno =>
      if queued then some ⟨lsecIoSsl, .ssl, none⟩
      else if err = 0 then some ⟨ioClosed, .syscall, none⟩
      else some ⟨errno, .syscall, none⟩
  | .failed error => some ⟨lsecIoSsl, error, none⟩

/-- The loop, with the calls that are left behind it. -/
def sslLoop (zeroReturn : Int) : List (SslCall α) → Option (Io α × List (SslCall α))
  | [] => none
  | call :: calls =>
      match sslStep zeroReturn call with
      | some io => some (io, calls)
      | none => sslLoop zeroReturn calls

/-- `ssl_recv`, of a connection whose `ssl->error` is `error`. -/
def sslRecv (connected : Bool) (error : SslError) (calls : List (SslCall Str)) :
    Option (Io Str × List (SslCall Str)) :=
  if connected then sslLoop ioClosed calls else some (⟨ioClosed, error, none⟩, calls)

/-- `ssl_send`, where `default:` takes `SSL_ERROR_ZERO_RETURN` too. -/
def sslSend (connected : Bool) (error : SslError) (calls : List (SslCall Nat)) :
    Option (Io Nat × List (SslCall Nat)) :=
  if connected then sslLoop lsecIoSsl calls else some (⟨ioClosed, error, none⟩, calls)

/-- The texts that are not in this repository: those of OpenSSL and of the system. -/
structure Texts where
  reason : Option Str
  strerror : Int → Str

/-- `socket_strerror`, with `io_strerror`. -/
def socketStrerror (texts : Texts) (err : Int) : Option Str :=
  if err ≤ 0 then
    if err = ioDone then none
    else if err = ioClosed then some (lit "closed")
    else if err = ioTimeout then some (lit "timeout")
    else some (lit "unknown error")
  else if err = 98 then some (lit "address already in use")
  else if err = 106 then some (lit "already connected")
  else if err = 13 then some (lit "permission denied")
  else if err = 111 then some (lit "connection refused")
  else if err = 103 then some (lit "closed")
  else if err = 104 then some (lit "closed")
  else if err = 110 then some (lit "timeout")
  else some (texts.strerror err)

/-- `ssl_ioerror`, where `none` is `nil`. -/
def sslIoerror (texts : Texts) (err : Int) (error : SslError) : Option Str :=
  if err = lsecIoSsl then
    match error with
    | .none => some (lit "No error")
    | .zeroReturn => some (lit "closed")
    | .wantRead => some (lit "wantread")
    | .wantWrite => some (lit "wantwrite")
    | .wantConnect => some (lit "'connect' not completed")
    | .wantAccept => some (lit "'accept' not completed")
    | .wantX509Lookup => some (lit "Waiting for callback")
    | .syscall => some (lit "System error")
    | .ssl => texts.reason
    | .unknown => some (lit "Unknown SSL error")
  else socketStrerror texts err

/-! ## What a call of the transport uses up -/

/-- What was read or written. -/
def SslCall.result : SslCall α → Option α
  | .done a => some a
  | _ => none

/-- One call of the SSL library, and what its answer gives. -/
theorem sslStep_result (zeroReturn : Int) (call : SslCall α) :
    (sslStep zeroReturn call).bind Io.result = call.result := by
  cases call with
  | done a => rfl
  | zeroReturn => rfl
  | want write wait =>
      simp only [sslStep, SslCall.result]
      split
      · rfl
      · split <;> rfl
  | syscall queued err errno =>
      simp only [sslStep, SslCall.result]
      split
      · rfl
      · split <;> rfl
  | failed error => rfl

/-- A call that has failed has moved no bytes. -/
theorem sslStep_failed {zeroReturn : Int} {call : SslCall α} {io : Io α}
    (h : sslStep zeroReturn call = some io) (herr : io.err ≠ ioDone) : io.result = none := by
  have hresult := sslStep_result zeroReturn call
  rw [h] at hresult
  cases call with
  | done a =>
      injection h with h
      rw [← h] at herr
      exact absurd rfl herr
  | zeroReturn => exact hresult
  | want write wait => exact hresult
  | syscall queued err errno => exact hresult
  | failed error => exact hresult

/-- Waiting comes to nothing, and the last call to what the loop returns. -/
theorem sslLoop_split {zeroReturn : Int} {calls rest : List (SslCall α)} {io : Io α}
    (h : sslLoop zeroReturn calls = some (io, rest)) :
    ∃ waits call, calls = waits ++ call :: rest ∧ (∀ c ∈ waits, c.result = none) ∧
      call.result = io.result ∧ (io.err ≠ ioDone → io.result = none) := by
  induction calls with
  | nil => cases h
  | cons call calls ih =>
      have hresult := sslStep_result zeroReturn call
      rw [sslLoop] at h
      cases hstep : sslStep zeroReturn call with
      | none =>
          rw [hstep] at h hresult
          obtain ⟨waits, last, rfl, hwaits, hlast⟩ := ih h
          refine ⟨call :: waits, last, rfl, ?_, hlast⟩
          intro c hc
          rcases List.mem_cons.mp hc with rfl | hmem
          · exact hresult.symm
          · exact hwaits c hmem
      | some first =>
          rw [hstep] at h hresult
          injection h with h
          obtain ⟨rfl, rfl⟩ := Prod.mk.inj h
          exact ⟨[], call, rfl, nofun, hresult.symm, sslStep_failed hstep⟩

/-- The bytes that `SSL_read` has delivered in these calls. -/
def bytesOf (calls : List (SslCall Str)) : Str := calls.flatMap fun call => call.result.getD []

theorem bytesOf_waits {waits : List (SslCall Str)} (h : ∀ c ∈ waits, c.result = none) :
    bytesOf waits = [] := by
  apply List.flatMap_eq_nil_iff.mpr
  intro c hc
  rw [h c hc]
  rfl

/-- **`ssl_recv`** delivers what OpenSSL has delivered, and nothing with an error. -/
theorem sslRecv_bytes {connected : Bool} {error : SslError} {calls rest : List (SslCall Str)}
    {io : Io Str} (h : sslRecv connected error calls = some (io, rest)) :
    bytesOf calls = io.result.getD [] ++ bytesOf rest ∧
      (io.err ≠ ioDone → io.result = none) ∧ (rest.length < calls.length ∨ io.err = ioClosed) := by
  rw [sslRecv] at h
  split at h
  case isTrue =>
    obtain ⟨waits, call, rfl, hwaits, hcall, hfailed⟩ := sslLoop_split h
    refine ⟨?_, hfailed, Or.inl ?_⟩
    · rw [bytesOf, List.flatMap_append, List.flatMap_cons, hcall, ← bytesOf, ← bytesOf,
        bytesOf_waits hwaits, List.nil_append]
    · rw [List.length_append, List.length_cons]
      omega
  case isFalse =>
    injection h with h
    obtain ⟨rfl, rfl⟩ := Prod.mk.inj h
    exact ⟨rfl, fun _ => rfl, Or.inr rfl⟩

/-! ## Receiving -/

/-- A connection, with what is in `buf->data` between `first` and `last`. -/
structure Connection where
  connected : Bool := false
  error : SslError := .none
  pending : Str := []

/-- `buffer_get`, with the bytes it gives to its caller. -/
def bufferGet (c : Connection) (calls : List (SslCall Str)) :
    Option (Int × Str × Connection × List (SslCall Str)) :=
  if c.pending = [] then
    match sslRecv c.connected c.error calls with
    | none => none
    | some (io, calls) =>
        let got := io.result.getD []
        some (io.err, got, { c with error := io.error, pending := got }, calls)
  else some (ioDone, c.pending, c, calls)

/-- Filling the buffer: what it gives is the beginning of the stream, from the buffer and
from the calls that were made. -/
theorem bufferGet_spec {c c' : Connection} {calls rest : List (SslCall Str)} {err : Int}
    {data : Str} (h : bufferGet c calls = some (err, data, c', rest)) :
    c.pending ++ bytesOf calls = data ++ bytesOf rest ∧ c'.pending = data ∧
      c'.connected = c.connected ∧ (err ≠ ioDone → data = []) ∧
      (err = ioDone → rest.length < calls.length ∨ (rest = calls ∧ c.pending ≠ [])) := by
  rw [bufferGet] at h
  split at h
  case isTrue hempty =>
    cases hrecv : sslRecv c.connected c.error calls with
    | none =>
        rw [hrecv] at h
        cases h
    | some answer =>
        obtain ⟨io, after⟩ := answer
        obtain ⟨hbytes, hfailed, hless⟩ := sslRecv_bytes hrecv
        rw [hrecv] at h
        simp only [Option.some.injEq, Prod.mk.injEq] at h
        obtain ⟨rfl, rfl, rfl, rfl⟩ := h
        refine ⟨by rw [hempty, hbytes, List.nil_append], rfl, rfl, ?_, ?_⟩
        · intro herr
          rw [hfailed herr]
          rfl
        · intro herr
          rcases hless with hlt | hclosed
          · exact Or.inl hlt
          · rw [herr] at hclosed
            cases hclosed
  case isFalse hne =>
    simp only [Option.some.injEq, Prod.mk.injEq] at h
    obtain ⟨rfl, rfl, rfl, rfl⟩ := h
    exact ⟨rfl, rfl, rfl, fun herr => absurd rfl herr, fun _ => Or.inr ⟨rfl, hne⟩⟩

def cr : UInt8 := 13

/-- What is added to the line: every `\r` is ignored. -/
def strip (s : Str) : Str := s.filter (· != cr)

/-- The inner loop of `recvline`: what it adds to the line, and what stands behind the
`\n` if there is one. -/
def takeLine : Str → Str × Option Str
  | [] => ([], none)
  | c :: data =>
      if c = lf then ([], some data)
      else ((if c = cr then [] else [c]) ++ (takeLine data).1, (takeLine data).2)

/-- A line is what stands in front of the first line feed, without carriage returns; what
stands behind it stays in the buffer. -/
theorem takeLine_spec (data : Str) : ∃ raw, lf ∉ raw ∧ (takeLine data).1 = strip raw ∧
    data = raw ++ (match (takeLine data).2 with | none => [] | some after => lf :: after) := by
  induction data with
  | nil => exact ⟨[], List.not_mem_nil, rfl, rfl⟩
  | cons c data ih =>
      obtain ⟨raw, hraw, hline, hdata⟩ := ih
      rw [takeLine]
      by_cases hlf : c = lf
      · rw [if_pos hlf, hlf]
        exact ⟨[], List.not_mem_nil, rfl, rfl⟩
      · rw [if_neg hlf]
        refine ⟨c :: raw, ?_, ?_, ?_⟩
        · intro hmem
          rcases List.mem_cons.mp hmem with heq | htail
          · exact hlf heq.symm
          · exact hraw htail
        · show _ ++ (takeLine data).1 = _
          rw [hline, strip, strip, List.filter_cons]
          by_cases hcr : c = cr
          · simp [hcr]
          · simp [hcr]
        · rw [List.cons_append]
          exact congrArg (c :: ·) hdata

/-- `recvline`, from the line `b` on. -/
def recvline (c : Connection) (calls : List (SslCall Str)) (b : Str) :
    Option (Int × Str × Connection × List (SslCall Str)) :=
  match _get : bufferGet c calls with
  | none => none
  | some (err, data, c', rest) =>
      match (takeLine data).2 with
      | some after => some (err, b ++ (takeLine data).1, { c' with pending := after }, rest)
      | none =>
          if _done : err = ioDone then
            recvline { c' with pending := [] } rest (b ++ (takeLine data).1)
          else some (err, b ++ (takeLine data).1, { c' with pending := [] }, rest)
termination_by (calls.length, c.pending.length)
decreasing_by
  obtain ⟨-, -, -, -, hless⟩ := bufferGet_spec _get
  rcases hless _done with hlt | ⟨hrest, hne⟩
  · exact Prod.Lex.left _ _ hlt
  · rw [hrest]
    exact Prod.Lex.right _ (List.length_pos_iff.mpr hne)

/-- One round of `recvline`. -/
theorem recvline_round {c c' : Connection} {calls rest : List (SslCall Str)} {err : Int}
    {data : Str} (hget : bufferGet c calls = some (err, data, c', rest)) (b : Str) :
    recvline c calls b =
      match (takeLine data).2 with
      | some after => some (err, b ++ (takeLine data).1, { c' with pending := after }, rest)
      | none =>
          if err = ioDone then recvline { c' with pending := [] } rest (b ++ (takeLine data).1)
          else some (err, b ++ (takeLine data).1, { c' with pending := [] }, rest) := by
  rw [recvline]
  split
  case h_1 hnone =>
    rw [hget] at hnone
    cases hnone
  case h_2 err' data' c₁ rest' hsome =>
    rw [hget] at hsome
    simp only [Option.some.injEq, Prod.mk.injEq] at hsome
    obtain ⟨rfl, rfl, rfl, rfl⟩ := hsome
    rfl

/-- **A line is one of the bytes that OpenSSL has delivered**, however it has cut them. -/
theorem recvline_spec {c c' : Connection} {calls rest : List (SslCall Str)} {b line : Str}
    {err : Int} (h : recvline c calls b = some (err, line, c', rest)) :
    ∃ raw, lf ∉ raw ∧ line = b ++ strip raw ∧ c'.connected = c.connected ∧
      ((err = ioDone ∧ c.pending ++ bytesOf calls = raw ++ lf :: (c'.pending ++ bytesOf rest)) ∨
        (err ≠ ioDone ∧ c'.pending = [] ∧ c.pending ++ bytesOf calls = raw ++ bytesOf rest)) := by
  induction c, calls, b using recvline.induct generalizing c' rest line err with
  | case1 c calls b hget =>
      rw [recvline] at h
      split at h
      case h_1 => cases h
      case h_2 hsome =>
        rw [hget] at hsome
        cases hsome
  | case2 c calls b err₁ data c₁ rest₁ hget after hafter =>
      obtain ⟨hbytes, -, hconnected, hempty, -⟩ := bufferGet_spec hget
      obtain ⟨raw, hraw, hline, hdata⟩ := takeLine_spec data
      rw [recvline_round hget, hafter] at h
      simp only [Option.some.injEq, Prod.mk.injEq] at h
      obtain ⟨rfl, rfl, rfl, rfl⟩ := h
      rw [hafter] at hdata
      refine ⟨raw, hraw, by rw [hline], hconnected, Or.inl ⟨?_, ?_⟩⟩
      · by_contra herr
        rw [hempty herr] at hdata
        simp at hdata
      · rw [hbytes, hdata, List.append_assoc]
        rfl
  | case3 c calls b data c₁ rest₁ hnone hget ih =>
      obtain ⟨hbytes, -, hconnected, -, -⟩ := bufferGet_spec hget
      obtain ⟨raw, hraw, hline, hdata⟩ := takeLine_spec data
      rw [recvline_round hget, hnone] at h
      simp only [if_true] at h
      obtain ⟨more, hmore, hlong, hsame, hend⟩ := ih h
      rw [hnone, List.append_nil] at hdata
      refine ⟨raw ++ more, ?_, ?_, hsame.trans hconnected, ?_⟩
      · rw [List.mem_append]
        exact not_or.mpr ⟨hraw, hmore⟩
      · rw [hlong, hline, strip, strip, strip, List.filter_append, List.append_assoc]
      · rw [hbytes, hdata]
        simp only [List.append_assoc]
        rcases hend with ⟨herr, heq⟩ | ⟨herr, hpending, heq⟩
        · rw [List.nil_append] at heq
          exact Or.inl ⟨herr, by rw [heq]⟩
        · rw [List.nil_append] at heq
          exact Or.inr ⟨herr, hpending, by rw [heq]⟩
  | case4 c calls b err₁ data c₁ rest₁ hget hnone herr =>
      obtain ⟨hbytes, -, hconnected, hempty, -⟩ := bufferGet_spec hget
      rw [recvline_round hget, hnone] at h
      simp only [herr, if_false, Option.some.injEq, Prod.mk.injEq] at h
      obtain ⟨rfl, rfl, rfl, rfl⟩ := h
      rw [hempty herr] at hbytes ⊢
      exact ⟨[], List.not_mem_nil, rfl, hconnected, Or.inr ⟨herr, rfl, hbytes⟩⟩

/-- `buffer_meth_receive` with the pattern `*l`: the line, or the text of the error, which
may be `nil`.  What has been read of a line is not kept. -/
def receive (texts : Texts) (c : Connection) (calls : List (SslCall Str)) :
    Option (Except (Option Str) Str × Connection × List (SslCall Str)) :=
  match recvline c calls [] with
  | none => none
  | some (err, line, c', rest) =>
      if err = ioDone then some (.ok line, c', rest)
      else some (.error (sslIoerror texts err c'.error), c', rest)

/-- A call of `receive` that returns a line has taken it from the stream, and left all that
stands behind it. -/
theorem receive_ok {texts : Texts} {c c' : Connection} {calls rest : List (SslCall Str)}
    {line : Str} (h : receive texts c calls = some (.ok line, c', rest)) :
    ∃ raw, lf ∉ raw ∧ line = strip raw ∧
      c.pending ++ bytesOf calls = raw ++ lf :: (c'.pending ++ bytesOf rest) := by
  rw [receive] at h
  cases hline : recvline c calls [] with
  | none =>
      rw [hline] at h
      cases h
  | some answer =>
      obtain ⟨err, text, c₁, rest₁⟩ := answer
      obtain ⟨raw, hraw, htext, -, hend⟩ := recvline_spec hline
      rw [hline] at h
      by_cases herr : err = ioDone
      · simp only [herr, if_true, Option.some.injEq, Prod.mk.injEq, Except.ok.injEq] at h
        obtain ⟨rfl, rfl, rfl⟩ := h
        rcases hend with ⟨-, hbytes⟩ | ⟨hne, -, -⟩
        · exact ⟨raw, hraw, htext, hbytes⟩
        · exact absurd herr hne
      · simp [herr] at h

/-! ## Sending -/

/-- `STEPSIZE` -/
def stepSize : Nat := 8192

/-- A call of `SSL_write` uses up an answer, or the connection is closed. -/
theorem sslSend_lt {connected : Bool} {error : SslError} {calls rest : List (SslCall Nat)}
    {io : Io Nat} (h : sslSend connected error calls = some (io, rest)) :
    (rest.length < calls.length ∨ io.err = ioClosed) ∧ (io.err ≠ ioDone → io.result = none) := by
  rw [sslSend] at h
  split at h
  case isTrue =>
    obtain ⟨waits, call, rfl, -, -, hfailed⟩ := sslLoop_split h
    refine ⟨Or.inl ?_, hfailed⟩
    rw [List.length_append, List.length_cons]
    omega
  case isFalse =>
    injection h with h
    obtain ⟨rfl, rfl⟩ := Prod.mk.inj h
    exact ⟨Or.inr rfl, fun _ => rfl⟩

/-- `sendraw`, with what is left of the data; `SSL_write` writes no more than it is given. -/
def sendraw (connected : Bool) (error : SslError) (calls : List (SslCall Nat)) (data : Str) :
    Option (Int × SslError × Str × List (SslCall Nat)) :=
  if data = [] then some (ioDone, error, [], calls)
  else
    match _send : sslSend connected error calls with
    | none => none
    | some (io, rest) =>
        if _done : io.err = ioDone then
          sendraw connected io.error rest (data.drop (min stepSize (io.result.getD 0)))
        else some (io.err, io.error, data.drop (min stepSize (io.result.getD 0)), rest)
termination_by calls.length
decreasing_by
  rcases (sslSend_lt _send).1 with hlt | hclosed
  · exact hlt
  · rw [_done] at hclosed
    cases hclosed

/-- One round of `sendraw`. -/
theorem sendraw_round {connected : Bool} {error : SslError} {calls rest : List (SslCall Nat)}
    {data : Str} {io : Io Nat} (hdata : data ≠ [])
    (hsend : sslSend connected error calls = some (io, rest)) :
    sendraw connected error calls data =
      if io.err = ioDone then
        sendraw connected io.error rest (data.drop (min stepSize (io.result.getD 0)))
      else some (io.err, io.error, data.drop (min stepSize (io.result.getD 0)), rest) := by
  rw [sendraw, if_neg hdata]
  split
  case h_1 hnone =>
    rw [hsend] at hnone
    cases hnone
  case h_2 io' rest' hsome =>
    rw [hsend] at hsome
    simp only [Option.some.injEq, Prod.mk.injEq] at hsome
    obtain ⟨rfl, rfl⟩ := hsome
    rfl

/-- **What is left is the end of the string**, and with an error it is not empty. -/
theorem sendraw_spec {connected : Bool} {error error' : SslError} {calls rest : List (SslCall Nat)}
    {data left : Str} {err : Int}
    (h : sendraw connected error calls data = some (err, error', left, rest)) :
    left <:+ data ∧ (err = ioDone ↔ left = []) := by
  induction error, calls, data using sendraw.induct connected with
  | case1 error calls =>
      rw [sendraw, if_pos rfl] at h
      simp only [Option.some.injEq, Prod.mk.injEq] at h
      obtain ⟨rfl, -, rfl, -⟩ := h
      exact ⟨List.suffix_refl [], iff_of_true rfl rfl⟩
  | case2 error calls data hdata hsend =>
      rw [sendraw, if_neg hdata] at h
      split at h
      case h_1 => cases h
      case h_2 hsome =>
        rw [hsend] at hsome
        cases hsome
  | case3 error calls data hdata io rest₁ hsend hdone ih =>
      rw [sendraw_round hdata hsend, if_pos hdone] at h
      obtain ⟨hleft, hiff⟩ := ih h
      exact ⟨hleft.trans (List.drop_suffix _ data), hiff⟩
  | case4 error calls data hdata io rest₁ hsend herr =>
      have hnone := (sslSend_lt hsend).2 herr
      rw [sendraw_round hdata hsend, if_neg herr, hnone] at h
      simp only [Option.getD_none, Nat.min_zero, List.drop_zero, Option.some.injEq,
        Prod.mk.injEq] at h
      obtain ⟨rfl, -, rfl, -⟩ := h
      exact ⟨List.suffix_refl data, iff_of_false herr hdata⟩

/-- `buffer_meth_send` of a whole string: the text of the error, which may be `nil`, and
what has not been taken. -/
def send (texts : Texts) (c : Connection) (calls : List (SslCall Nat)) (data : Str) :
    Option (Except (Option Str) Unit × Str × Connection × List (SslCall Nat)) :=
  match sendraw c.connected c.error calls data with
  | none => none
  | some (err, error, left, rest) =>
      let c := { c with error := error }
      if err = ioDone then some (.ok (), left, c, rest)
      else some (.error (sslIoerror texts err error), left, c, rest)

/-- `send` answers well exactly if nothing is left of the data.  It touches nothing of what
comes in. -/
theorem send_spec {texts : Texts} {c c' : Connection} {calls rest : List (SslCall Nat)}
    {data left : Str} {answer : Except (Option Str) Unit}
    (h : send texts c calls data = some (answer, left, c', rest)) :
    (answer = .ok () ↔ left = []) ∧ c'.pending = c.pending := by
  rw [send] at h
  cases hraw : sendraw c.connected c.error calls data with
  | none =>
      rw [hraw] at h
      cases h
  | some result =>
      obtain ⟨err, error, left₁, rest₁⟩ := result
      obtain ⟨-, hiff⟩ := sendraw_spec hraw
      rw [hraw] at h
      by_cases herr : err = ioDone
      · simp only [herr, if_true, Option.some.injEq, Prod.mk.injEq] at h
        obtain ⟨rfl, rfl, rfl, -⟩ := h
        exact ⟨iff_of_true rfl (hiff.mp herr), rfl⟩
      · simp only [herr, if_false, Option.some.injEq, Prod.mk.injEq] at h
        obtain ⟨rfl, rfl, rfl, -⟩ := h
        exact ⟨iff_of_false nofun (fun hleft => herr (hiff.mpr hleft)), rfl⟩

/-! ## Lines -/

/-- The lines of a byte stream, from the line `acc` on; what stands behind the last `\n`
is none. -/
def linesFrom (acc : Str) : Str → List Str
  | [] => []
  | c :: s =>
      if c = lf then acc :: linesFrom [] s
      else linesFrom (acc ++ if c = cr then [] else [c]) s

def linesOf (s : Str) : List Str := linesFrom [] s

/-- The lines of a stream, one after the other. -/
theorem linesFrom_line {raw : Str} (hraw : lf ∉ raw) (acc s : Str) :
    linesFrom acc (raw ++ lf :: s) = (acc ++ strip raw) :: linesOf s := by
  induction raw generalizing acc with
  | nil =>
      rw [List.nil_append, linesFrom, if_pos rfl, strip, List.filter_nil, List.append_nil]
      rfl
  | cons c raw ih =>
      have hc : c ≠ lf := fun h => hraw (by simp [h])
      have hrest : lf ∉ raw := fun h => hraw (List.mem_cons_of_mem c h)
      rw [List.cons_append, linesFrom, if_neg hc, ih hrest, strip, strip, List.filter_cons,
        List.append_assoc]
      by_cases hcr : c = cr
      · simp [hcr]
      · simp [hcr]

/-- More bytes are more lines. -/
theorem linesFrom_grows (acc s t : Str) : linesFrom acc s <+: linesFrom acc (s ++ t) := by
  induction s generalizing acc with
  | nil => exact List.nil_prefix
  | cons c s ih =>
      rw [List.cons_append, linesFrom, linesFrom]
      split
      · exact (List.prefix_cons_inj _).mpr (ih [])
      · exact ih _

end LuadchAnnouncer.Luasec.Buffer
