import Mathlib.Logic.Function.Basic
import LuadchAnnouncer.Verified.LuaPattern
import LuadchAnnouncer.Verified.LuaValue
import LuadchAnnouncer.Verified.Program

/-!
# `core/cert_autogen.lua`

`ensure` runs five `openssl` commands when one of the two configured files is
missing.  The signing request is written to the file the certificate is to be
in, and the next call looks no further than whether there are two files: so a
chain that stops behind the request, or behind a new key beside an old
certificate, is taken for a finished one.

What is in a file is told apart by the key it belongs to.  A command that
succeeds has read what it needs and writes what it makes; one that fails leaves
its file alone.

## Main results

* `stage_step`, `stage_runSteps` — what one command leaves, and so what the chain does.
* `ensure_ensures` — one call: what it returns and what is in the two files then.
* `ensure_vouches` — any history of calls: behind one that returns `true` the pair is in
  place.
* `ensure_signFails_vouches` — a history in which it is not.
-/

namespace LuadchAnnouncer.Core.CertAutogen

open LuadchAnnouncer.Verified.Bytes
open LuadchAnnouncer.Verified.LuaValue
open LuadchAnnouncer.Verified.LuaPattern (Item any noneOf char capture matchAnchored)
open LuadchAnnouncer.Verified.Program

/-! ## The commands -/

/-- The five commands, with the files they are given.  Their texts are those of the
source; what is kept here is which files they read and write. -/
inductive Command where
  /-- `openssl ecparam -out "%s" -name prime256v1 -genkey`, for the CA -/
  | caKey (out : Str)
  /-- `openssl req -new -x509 ..` -/
  | caCert (key out subj : Str)
  /-- `openssl ecparam -out "%s" -name prime256v1 -genkey`, for the server -/
  | serverKey (out : Str)
  /-- `openssl req -new ..` -/
  | request (key out subj : Str)
  /-- `openssl x509 -req ..` -/
  | sign (input ca cakey out : Str)
  deriving DecidableEq, Repr

def quoted (path : Str) : Str := lit "\"" ++ path ++ lit "\""

/-- The text of a command. -/
def Command.text : Command → Str
  | .caKey out => lit "openssl ecparam -out " ++ quoted out ++ lit " -name prime256v1 -genkey"
  | .caCert key out subj =>
      lit "openssl req -new -x509 -days 3650 -key " ++ quoted key ++ lit " -out " ++ quoted out ++
        lit " -subj " ++ subj
  | .serverKey out =>
      lit "openssl ecparam -out " ++ quoted out ++ lit " -name prime256v1 -genkey"
  | .request key out subj =>
      lit "openssl req -new -key " ++ quoted key ++ lit " -out " ++ quoted out ++ lit " -subj " ++
        subj
  | .sign input ca cakey out =>
      lit "openssl x509 -req -days 3650 -in " ++ quoted input ++ lit " -CA " ++ quoted ca ++
        lit " -CAkey " ++ quoted cakey ++ lit " -set_serial 01 -out " ++ quoted out

/-! ## Effects -/

inductive CertEff where
  /-- `io.open( path, "r" )`, and the file closed again -/
  | exists (path : Str)
  /-- `os.execute( line )` of the probe for `openssl` -/
  | probe (line : Str)
  /-- the first line of `io.popen( "openssl rand -hex 16" )`; the outer `none`
  is a `popen` that fails -/
  | rand
  /-- `os.execute( line )` of a command -/
  | execute (command : Command) (line : Str)
  /-- `os.remove( path )` -/
  | remove (path : Str)
  deriving DecidableEq, Repr

abbrev CertReply : CertEff → Type
  | .exists _ => Bool
  | .probe _ => Bool
  | .rand => Option (Option Str)
  | .execute _ _ => Bool
  | .remove _ => Unit

/-- A piece of `ensure`, which returns `true`, or `false` and a text. -/
abbrev Act (α : Type) := Prog CertEff CertReply LuaError (Except Str Unit) α

def leave {α : Type} (result : Except Str Unit) : Act α := .exit result

/-- `file_exists` -/
def fileExists (path : Str) : Act Bool := Prog.effect (CertEff.exists path)

def execute (command : Command) (line : Str) : Act Bool :=
  Prog.effect (CertEff.execute command line)

def remove (path : Str) : Act Unit := Prog.effect (CertEff.remove path)

/-! ## `ensure` -/

/-- `null_redirect( )` -/
def nullRedirect (windows : Bool) : Str :=
  if windows then lit ">nul 2>&1" else lit ">/dev/null 2>&1"

/-- `openssl_available( )` -/
def opensslAvailable (windows : Bool) : Act Bool :=
  Prog.effect (CertEff.probe
    ((if windows then lit "where openssl " else lit "which openssl ") ++ nullRedirect windows))

/-- `"^(.+)[/\\][^/\\]+$"` -/
def dirPattern : List Item :=
  [.openCapture, .plus any, .closeCapture, .one fun c => char '/' c || char '\\' c,
    .plus (noneOf ['/', '\\']), .atEnd]

/-- `cert_dir_from( path )` -/
def certDirFrom (path : Str) : Str := (capture (matchAnchored dirPattern path)).getD (lit "certs")

/-- `random_cn( )` -/
def randomCn : Act (Except Str Str) := do
  match ← Prog.effect CertEff.rand with
  | none => return .error (lit "io.popen openssl rand failed")
  | some none => return .error (lit "openssl rand returned short / empty output")
  | some (some cn) =>
      if cn.length < 32 then return .error (lit "openssl rand returned short / empty output")
      else return .ok cn

def cakey (certPath : Str) : Str := certDirFrom certPath ++ lit "/cakey.pem"

def cacert (certPath : Str) : Str := certDirFrom certPath ++ lit "/cacert.pem"

def skey (certPath : Str) : Str := certDirFrom certPath ++ lit "/serverkey.pem"

def scert (certPath : Str) : Str := certDirFrom certPath ++ lit "/servercert.pem"

/-- `steps` -/
def steps (certPath subj : Str) : List Command :=
  [.caKey (cakey certPath),
    .caCert (cakey certPath) (cacert certPath) subj,
    .serverKey (skey certPath),
    .request (skey certPath) (scert certPath) subj,
    .sign (scert certPath) (cacert certPath) (cakey certPath) (scert certPath)]

def stepFailed (i : Nat) : Str :=
  lit "openssl step " ++ LuaNum.natText i ++
    lit " failed; check that OpenSSL is functional and the certs/ directory is writable"

/-- The loop over `steps`, from the step number `i` on. -/
def runSteps (windows : Bool) : Nat → List Command → Act Unit
  | _, [] => pure ()
  | i, command :: rest => do
      if ← execute command (command.text ++ lit " " ++ nullRedirect windows) then
        runSteps windows (i + 1) rest
      else leave (.error (stepFailed i))

def notOnPath (windows : Bool) : Str :=
  lit "openssl not on PATH; install OpenSSL or run " ++
    (if windows then lit "certs/make_cert.bat" else lit "certs/make_cert.sh") ++
    lit " manually before connecting"

/-- `file_exists( cert_path ) and file_exists( key_path )` -/
def filesExist (certPath keyPath : Str) : Act Bool := do
  if ← fileExists certPath then fileExists keyPath else return false

/-- The chain, and what follows it. -/
def generate (windows : Bool) (certPath cn : Str) : Act Unit := do
  runSteps windows 1 (steps certPath (lit "/CN=" ++ cn))
  remove (cakey certPath)
  remove (cacert certPath)
  leave (.ok ())

/-- `cert_autogen.ensure( cert_path, key_path )` -/
def ensure (windows : Bool) (certPath keyPath : Str) : Act Unit := do
  if ← filesExist certPath keyPath then leave (.ok ())
  else
    if ← opensslAvailable windows then
      match ← randomCn with
      | .error err => leave (.error err)
      | .ok cn => generate windows certPath cn
    else leave (.error (notOnPath windows))

/-! ## The files -/

/-- What may be in a file, by the key it belongs to.  A request and a certificate are told
apart, although the chain puts both into one file. -/
inductive Content where
  | key (k : Nat)
  | caCert (k : Nat)
  | request (k : Nat)
  | cert (k : Nat)
  | other
  deriving DecidableEq, Repr

/-- What has become of the last chain.  This is an account beside the files, so that a
call can be held to what it says. -/
inductive Chain where
  | never
  | unfinished
  | completed
  deriving DecidableEq, Repr

structure Store (File : Type) where
  files : File → Option Content
  /-- an account of the chains that have been run -/
  chain : Chain

section

variable {File : Type} [DecidableEq File] (resolve : Str → File)

/-- What a command makes of what it finds in its files.  One that does not find what it
needs makes nothing, and cannot succeed. -/
inductive Makes (files : File → Option Content) : Command → Content → Prop where
  | caKey (out : Str) (k : Nat) : Makes files (.caKey out) (.key k)
  | caCert {key out subj : Str} {k : Nat} (hkey : files (resolve key) = some (.key k)) :
      Makes files (.caCert key out subj) (.caCert k)
  | serverKey (out : Str) (k : Nat) : Makes files (.serverKey out) (.key k)
  | request {key out subj : Str} {k : Nat} (hkey : files (resolve key) = some (.key k)) :
      Makes files (.request key out subj) (.request k)
  | sign {input ca cakey out : Str} {k c : Nat}
      (hinput : files (resolve input) = some (.request k))
      (hca : files (resolve ca) = some (.caCert c))
      (hcakey : files (resolve cakey) = some (.key c)) :
      Makes files (.sign input ca cakey out) (.cert k)

/-- The file behind `-out`. -/
def Command.out : Command → Str
  | .caKey out => out
  | .caCert _ out _ => out
  | .serverKey out => out
  | .request _ out _ => out
  | .sign _ _ _ out => out

theorem Command.out_request (key out subj : Str) : (Command.request key out subj).out = out := rfl

theorem Command.out_sign (input ca cakey out : Str) :
    (Command.sign input ca cakey out).out = out := rfl

/-- A chain is under way from its first command on, and completed with its
last. -/
def Chain.after (chain : Chain) (ok : Bool) : Command → Chain
  | .caKey _ => .unfinished
  | .sign _ _ _ _ => if ok then .completed else chain
  | _ => chain

/-- What an effect does, and what it may be answered. -/
def Acts (s : Store File) : (e : CertEff) → CertReply e → Store File → Prop
  | .exists path, there, s' => there = (s.files (resolve path)).isSome ∧ s' = s
  | .probe _, _, s' => s' = s
  | .rand, _, s' => s' = s
  | .execute command _, ok, s' =>
      (ok = false ∧ s' = { s with chain := s.chain.after false command }) ∨
        (ok = true ∧ ∃ content, Makes resolve s.files command content ∧
          s' = { files := Function.update s.files (resolve command.out) (some content)
                 chain := s.chain.after true command })
  | .remove path, _, s' =>
      s' = s ∨ s' = { s with files := Function.update s.files (resolve path) none }

/-- The configured paths name the two files the chain makes, and its four files
are four. -/
structure Aligned (certPath keyPath : Str) : Prop where
  cert : resolve certPath = resolve (scert certPath)
  key : resolve keyPath = resolve (skey certPath)
  distinct : ([cakey certPath, cacert certPath, skey certPath, scert certPath].map resolve).Nodup

/-- The steps that leave nothing behind that looks finished: a chain is begun
on its own files only, the request does not fail where there already is a file
for the certificate, and the signature does not fail. -/
def Tidy (certPath keyPath : Str) (s : Store File) : (e : CertEff) → CertReply e → Prop
  | .execute (.caKey _) _, _ => Aligned resolve certPath keyPath
  | .execute (.request _ out _) _, ok => ok = true ∨ s.files (resolve out) = none
  | .execute (.sign _ _ _ _) _, ok => ok = true
  | _, _ => True

/-- Every step may fail. -/
def Anyhow (_ : Store File) (e : CertEff) (_ : CertReply e) : Prop := True

def Within (c : Store File → (e : CertEff) → CertReply e → Prop) (s : Store File)
    (e : CertEff) (reply : CertReply e) (s' : Store File) : Prop :=
  Acts resolve s e reply s' ∧ c s e reply

/-- What any number of calls may have made of the files there were.  Each call starts
where the one before has left them, whether that one returned or raised. -/
inductive Called (c : Store File → (e : CertEff) → CertReply e → Prop) (windows : Bool)
    (certPath keyPath : Str) (files : File → Option Content) : Store File → Prop where
  | start : Called c windows certPath keyPath files ⟨files, .never⟩
  | call {s s' : Store File} {o : Outcome LuaError (Except Str Unit) Unit}
      (h : Called c windows certPath keyPath files s)
      (hexec : Exec (Within resolve c) (ensure windows certPath keyPath) s o s')
      (hdone : o ≠ .running) : Called c windows certPath keyPath files s'

/-- There is a signed certificate, and the private key it was issued for. -/
def Paired (certPath keyPath : Str) (s : Store File) : Prop :=
  ∃ k, s.files (resolve certPath) = some (.cert k) ∧ s.files (resolve keyPath) = some (.key k)

end

/-! ## What is between two calls -/

section

variable {File : Type} {resolve : Str → File} {certPath keyPath : Str} {s : Store File} {k : Nat}

/-- A chain has to be run. -/
def Missing (resolve : Str → File) (certPath keyPath : Str) (s : Store File) : Prop :=
  s.files (resolve certPath) = none ∨ s.files (resolve keyPath) = none

/-- What holds between two calls: no chain was begun, or one has to be run still, or it
was completed and the pair is in place. -/
def Sound (resolve : Str → File) (certPath keyPath : Str) (s : Store File) : Prop :=
  s.chain = .never ∨ Missing resolve certPath keyPath s ∨
    (s.chain = .completed ∧ Paired resolve certPath keyPath s)

theorem Missing.sound (h : Missing resolve certPath keyPath s) :
    Sound resolve certPath keyPath s := Or.inr (Or.inl h)

/-- The server key has been made. -/
def Keyed (resolve : Str → File) (certPath : Str) (k : Nat) (s : Store File) : Prop :=
  s.files (resolve (skey certPath)) = some (.key k)

def Signed (resolve : Str → File) (certPath : Str) (k : Nat) (s : Store File) : Prop :=
  s.chain = .completed ∧ Keyed resolve certPath k s ∧
    s.files (resolve (scert certPath)) = some (.cert k)

/-- The four files are told apart. -/
theorem Aligned.ne (h : Aligned resolve certPath keyPath) :
    resolve (scert certPath) ≠ resolve (skey certPath) ∧
    resolve (scert certPath) ≠ resolve (cakey certPath) ∧
    resolve (scert certPath) ≠ resolve (cacert certPath) ∧
    resolve (skey certPath) ≠ resolve (cakey certPath) ∧
    resolve (skey certPath) ≠ resolve (cacert certPath) := by
  have hdistinct := h.distinct
  simp only [List.map_cons, List.map_nil, List.nodup_cons, List.mem_cons, List.not_mem_nil,
    or_false, not_or] at hdistinct
  obtain ⟨⟨-, hcakey_skey, hcakey_scert⟩, ⟨hcacert_skey, hcacert_scert⟩, hskey_scert, -⟩ :=
    hdistinct
  exact ⟨Ne.symm hskey_scert, Ne.symm hcakey_scert, Ne.symm hcacert_scert,
    Ne.symm hcakey_skey, Ne.symm hcacert_skey⟩

/-- Where the two paths name the files of the chain, a signed certificate stands beside its
own key. -/
theorem Signed.paired (haligned : Aligned resolve certPath keyPath)
    (h : Signed resolve certPath k s) :
    s.chain = .completed ∧ Paired resolve certPath keyPath s := by
  obtain ⟨hchain, hkeyed, hcert⟩ := h
  refine ⟨hchain, k, ?_, ?_⟩
  · rw [haligned.cert]
    exact hcert
  · rw [haligned.key]
    exact hkeyed

end

/-! ## One call -/

section

variable {File : Type} [DecidableEq File] {resolve : Str → File} {windows : Bool}
  {certPath keyPath : Str}

/-- What a call has to come to: it leaves things sound, and if it returns `true` and a
chain was ever begun, then it was completed and the pair is there. -/
def Vouches (resolve : Str → File) (certPath keyPath : Str)
    (o : Outcome LuaError (Except Str Unit) Unit) (s : Store File) : Prop :=
  Sound resolve certPath keyPath s ∧ (o = .exit (.ok ()) → s.chain ≠ .never →
    s.chain = .completed ∧ Paired resolve certPath keyPath s)

abbrev Tidily (resolve : Str → File) (certPath keyPath : Str) :
    Store File → (e : CertEff) → CertReply e → Store File → Prop :=
  Within resolve (Tidy resolve certPath keyPath)

abbrev Stage {α : Type} (resolve : Str → File) (certPath keyPath : Str)
    (Next : α → Store File → Prop) : Outcome LuaError (Except Str Unit) α → Store File → Prop :=
  Outcome.andThen (AtEnd (Vouches resolve certPath keyPath)) Next

/-- An effect, with what it may have done. -/
theorem stage_effect {e : CertEff} {s : Store File} {Next : CertReply e → Store File → Prop}
    (h : ∀ reply s', Acts resolve s e reply s' → Tidy resolve certPath keyPath s e reply →
      Next reply s') :
    Ensures (Tidily resolve certPath keyPath) (Prog.effect e) s
      (Stage resolve certPath keyPath Next) := by
  refine ensures_perform.mpr ⟨atEnd_running s, ?_⟩
  rintro reply s' ⟨hacts, htidy⟩
  exact ensures_stage_ret (atEnd_running s') (h reply s' hacts htidy)

/-- An answer that is not `true`. -/
theorem stage_refuse {α : Type} {msg : Str} {s : Store File} {Next : α → Store File → Prop}
    (h : Sound resolve certPath keyPath s) :
    Ensures (Tidily resolve certPath keyPath) (leave (.error msg) : Act α) s
      (Stage resolve certPath keyPath Next) := by
  refine ensures_exit.mpr ⟨atEnd_running s, fun _ => ⟨h, ?_⟩⟩
  intro hok
  cases hok

/-- A call may return true where the chain was never begun, or has come to its end with the
pair in place. -/
theorem stage_vouch {α : Type} {s : Store File} {Next : α → Store File → Prop}
    (h : s.chain = .never ∨ (s.chain = .completed ∧ Paired resolve certPath keyPath s)) :
    Ensures (Tidily resolve certPath keyPath) (leave (.ok ()) : Act α) s
      (Stage resolve certPath keyPath Next) := by
  refine ensures_exit.mpr ⟨atEnd_running s, fun _ => ⟨?_, ?_⟩⟩
  · rcases h with hnever | hpaired
    · exact Or.inl hnever
    · exact Or.inr (Or.inr hpaired)
  · intro _ hchain
    exact h.resolve_left hchain

/-- The test opens the file and closes it: it changes nothing and tells whether there is
one. -/
theorem stage_fileExists {path : Str} {s : Store File} :
    Ensures (Tidily resolve certPath keyPath) (fileExists path) s
      (Stage resolve certPath keyPath fun there s' =>
        s' = s ∧ (there = false → s.files (resolve path) = none) ∧
          (there = true → s.files (resolve path) ≠ none)) := by
  refine stage_effect ?_
  rintro there s' ⟨rfl, rfl⟩ -
  cases s'.files (resolve path) with
  | none => simp
  | some content => simp

/-- Both files are asked for, one after the other. -/
theorem stage_filesExist {s : Store File} :
    Ensures (Tidily resolve certPath keyPath) (filesExist certPath keyPath) s
      (Stage resolve certPath keyPath fun there s' =>
        s' = s ∧ (if there then ¬ Missing resolve certPath keyPath s
          else Missing resolve certPath keyPath s)) := by
  refine ensures_stage_bind stage_fileExists ?_
  rintro there s' ⟨rfl, hnone, hsome⟩
  cases there with
  | false => exact ensures_stage_ret (atEnd_running _) ⟨rfl, Or.inl (hnone rfl)⟩
  | true =>
      refine ensures_stage_mono stage_fileExists ?_
      rintro there s'' ⟨rfl, hnone', hsome'⟩
      refine ⟨rfl, ?_⟩
      cases there with
      | false => exact Or.inr (hnone' rfl)
      | true =>
          rintro (hcert | hkey)
          · exact hsome rfl hcert
          · exact hsome' rfl hkey

/-! ### The chain

Each of the five lemmas is about the commands from one on. -/

theorem Keyed.update {s : Store File} {k : Nat} (h : Keyed resolve certPath k s) {f : File}
    (hne : resolve (skey certPath) ≠ f) (content : Option Content) (chain : Chain) :
    Keyed resolve certPath k ⟨Function.update s.files f content, chain⟩ := by
  show Function.update s.files f content (resolve (skey certPath)) = some (.key k)
  rw [Function.update_of_ne hne]
  exact h

/-- A file is still missing when another one has been written. -/
theorem Missing.update {s : Store File} (h : Missing resolve certPath keyPath s) {f : File}
    (hcert : resolve certPath ≠ f) (hkey : resolve keyPath ≠ f) (content : Option Content)
    (chain : Chain) :
    Missing resolve certPath keyPath ⟨Function.update s.files f content, chain⟩ := by
  have hsame : ∀ path, resolve path ≠ f →
      Function.update s.files f content (resolve path) = s.files (resolve path) :=
    fun path hne => Function.update_of_ne hne content s.files
  exact h.imp (hsame certPath hcert).trans (hsame keyPath hkey).trans

/-- A command, and those behind it. -/
theorem stage_step {i : Nat} {command : Command} {rest : List Command} {s : Store File}
    {Next : Unit → Store File → Prop}
    (hfail : Tidy resolve certPath keyPath s (.execute command
        (command.text ++ lit " " ++ nullRedirect windows)) false →
      Sound resolve certPath keyPath ⟨s.files, s.chain.after false command⟩)
    (hok : ∀ content, Makes resolve s.files command content →
      Ensures (Tidily resolve certPath keyPath) (runSteps windows (i + 1) rest)
        ⟨Function.update s.files (resolve command.out) (some content),
          s.chain.after true command⟩ (Stage resolve certPath keyPath Next)) :
    Ensures (Tidily resolve certPath keyPath) (runSteps windows i (command :: rest)) s
      (Stage resolve certPath keyPath Next) := by
  refine ensures_effect_bind.mpr ⟨atEnd_running s, ?_⟩
  rintro ok s' ⟨⟨rfl, rfl⟩ | ⟨rfl, content, hmakes, rfl⟩, htidy⟩
  · exact stage_refuse (hfail htidy)
  · exact hok content hmakes

section

variable {subj : Str} {s : Store File} {k : Nat}

/-- Step 5 signs the request that step 4 has put at the certificate's place. -/
theorem stage_sign (haligned : Aligned resolve certPath keyPath)
    (hkeyed : Keyed resolve certPath k s)
    (hrequest : s.files (resolve (scert certPath)) = some (.request k)) :
    Ensures (Tidily resolve certPath keyPath)
      (runSteps windows 5
        [.sign (scert certPath) (cacert certPath) (cakey certPath) (scert certPath)]) s
      (Stage resolve certPath keyPath fun _ s' => ∃ k, Signed resolve certPath k s') := by
  obtain ⟨hscert_skey, -⟩ := haligned.ne
  refine stage_step (fun htidy => by cases htidy) ?_
  intro content hmakes
  cases hmakes with
  | @sign _ _ _ _ k' c hinput hca hcakey =>
      rw [hrequest] at hinput
      cases hinput
      rw [Command.out_sign]
      refine ensures_stage_ret (atEnd_running _) ⟨k, rfl, ?_, ?_⟩
      · exact hkeyed.update (Ne.symm hscert_skey) _ _
      · exact Function.update_self _ _ _

/-- Step 4 writes that request, for the key of step 3, and step 5 follows. -/
theorem stage_request (haligned : Aligned resolve certPath keyPath)
    (hkeyed : Keyed resolve certPath k s) :
    Ensures (Tidily resolve certPath keyPath) (runSteps windows 4 ((steps certPath subj).drop 3)) s
      (Stage resolve certPath keyPath fun _ s' => ∃ k, Signed resolve certPath k s') := by
  obtain ⟨hscert_skey, -⟩ := haligned.ne
  refine stage_step ?_ ?_
  · intro htidy
    -- a request that fails leaves no certificate, so the next call runs the chain again
    have hnone : s.files (resolve (scert certPath)) = none := htidy.resolve_left (by simp)
    rw [← haligned.cert] at hnone
    exact Missing.sound (Or.inl hnone)
  · intro content hmakes
    cases hmakes with
    | @request _ _ _ k' hkey =>
        unfold Keyed at hkeyed
        rw [hkeyed] at hkey
        cases hkey
        rw [Command.out_request]
        refine stage_sign haligned ?_ (Function.update_self _ _ _)
        exact Keyed.update hkeyed (Ne.symm hscert_skey) _ _

/-- Step 3 writes a key of its own, whatever was there, and the other steps follow. -/
theorem stage_serverKey (haligned : Aligned resolve certPath keyPath)
    (h : Missing resolve certPath keyPath s) :
    Ensures (Tidily resolve certPath keyPath) (runSteps windows 3 ((steps certPath subj).drop 2)) s
      (Stage resolve certPath keyPath fun _ s' => ∃ k, Signed resolve certPath k s') := by
  refine stage_step (fun _ => Missing.sound h) ?_
  intro content hmakes
  cases hmakes with
  | serverKey _ k => exact stage_request haligned (Function.update_self _ _ _)

/-- Step 2 is about the CA only, and the other steps follow. -/
theorem stage_caCert (haligned : Aligned resolve certPath keyPath)
    (h : Missing resolve certPath keyPath s) :
    Ensures (Tidily resolve certPath keyPath) (runSteps windows 2 ((steps certPath subj).drop 1)) s
      (Stage resolve certPath keyPath fun _ s' => ∃ k, Signed resolve certPath k s') := by
  obtain ⟨-, -, hscert_cacert, -, hskey_cacert⟩ := haligned.ne
  refine stage_step (fun _ => Missing.sound h) ?_
  intro content _
  have hcert : resolve certPath ≠ resolve (cacert certPath) := haligned.cert ▸ hscert_cacert
  have hkey : resolve keyPath ≠ resolve (cacert certPath) := haligned.key ▸ hskey_cacert
  exact stage_serverKey haligned (h.update hcert hkey _ _)

/-- **The chain** either leaves one of the files missing, or it comes to its
end with a pair that belongs together. -/
theorem stage_runSteps (h : Missing resolve certPath keyPath s) :
    Ensures (Tidily resolve certPath keyPath) (runSteps windows 1 (steps certPath subj)) s
      (Stage resolve certPath keyPath fun _ s' =>
        Aligned resolve certPath keyPath ∧ ∃ k, Signed resolve certPath k s') := by
  by_cases haligned : Aligned resolve certPath keyPath
  · obtain ⟨-, hscert_cakey, -, hskey_cakey, -⟩ := haligned.ne
    refine stage_step (fun _ => Missing.sound h) ?_
    intro content _
    have hcert : resolve certPath ≠ resolve (cakey certPath) := haligned.cert ▸ hscert_cakey
    have hkey : resolve keyPath ≠ resolve (cakey certPath) := haligned.key ▸ hskey_cakey
    refine ensures_stage_mono (stage_caCert haligned (h.update hcert hkey _ _)) ?_
    intro _ s' hs'
    exact ⟨haligned, hs'⟩
  · -- such a chain is not begun in these runs
    refine ensures_effect_bind.mpr ⟨atEnd_running s, ?_⟩
    rintro ok s' ⟨-, htidy⟩
    exact absurd htidy haligned

/-- Removing the files of the CA. -/
theorem stage_remove {path : Str} (haligned : Aligned resolve certPath keyPath)
    (hpath : path = cakey certPath ∨ path = cacert certPath) (h : Signed resolve certPath k s) :
    Ensures (Tidily resolve certPath keyPath) (remove path) s
      (Stage resolve certPath keyPath fun _ s' => Signed resolve certPath k s') := by
  obtain ⟨-, hscert_cakey, hscert_cacert, hskey_cakey, hskey_cacert⟩ := haligned.ne
  have hscert : resolve (scert certPath) ≠ resolve path := by
    rcases hpath with rfl | rfl
    · exact hscert_cakey
    · exact hscert_cacert
  have hskey : resolve (skey certPath) ≠ resolve path := by
    rcases hpath with rfl | rfl
    · exact hskey_cakey
    · exact hskey_cacert
  refine stage_effect ?_
  rintro _ s' (rfl | rfl) -
  · exact h
  · obtain ⟨hchain, hkeyed, hcert⟩ := h
    refine ⟨hchain, ?_, ?_⟩
    · exact (Function.update_of_ne hskey _ _).trans hkeyed
    · exact (Function.update_of_ne hscert _ _).trans hcert

/-- The chain, from its first step: a run of it either raises the error of a step, and
leaves the call, or signs the certificate of the key it has made. -/
theorem stage_generate {cn : Str} (h : Missing resolve certPath keyPath s) :
    Ensures (Tidily resolve certPath keyPath) (generate windows certPath cn) s
      (Stage resolve certPath keyPath fun _ _ => False) := by
  refine ensures_stage_bind (stage_runSteps h) ?_
  rintro _ s₁ ⟨haligned, k, h₁⟩
  refine ensures_stage_bind (stage_remove haligned (Or.inl rfl) h₁) fun _ s₂ h₂ => ?_
  refine ensures_stage_bind (stage_remove haligned (Or.inr rfl) h₂) fun _ s₃ h₃ => ?_
  exact stage_vouch (Or.inr (h₃.paired haligned))

/-- An effect that leaves the files alone. -/
theorem stage_ask {e : CertEff} (he : ∀ reply s', Acts resolve s e reply s' → s' = s) :
    Ensures (Tidily resolve certPath keyPath) (Prog.effect e) s
      (Stage resolve certPath keyPath fun _ s' => s' = s) :=
  stage_effect fun reply s' hacts _ => he reply s' hacts

/-- A name for the certificate is read from the clock and a counter, and no file is touched. -/
theorem stage_randomCn :
    Ensures (Tidily resolve certPath keyPath) randomCn s
      (Stage resolve certPath keyPath fun _ s' => s' = s) := by
  refine ensures_stage_bind (stage_ask fun _ _ h => h) ?_
  rintro (_ | _ | cn) s' rfl
  · exact ensures_stage_ret (atEnd_running _) rfl
  · exact ensures_stage_ret (atEnd_running _) rfl
  · simp only
    split
    case isTrue => exact ensures_stage_ret (atEnd_running _) rfl
    case isFalse => exact ensures_stage_ret (atEnd_running _) rfl

/-- **One call.** -/
theorem ensure_ensures (h : Sound resolve certPath keyPath s) :
    Ensures (Tidily resolve certPath keyPath) (ensure windows certPath keyPath) s
      (AtEnd (Vouches resolve certPath keyPath)) := by
  have hstage : Ensures (Tidily resolve certPath keyPath) (ensure windows certPath keyPath) s
      (Stage resolve certPath keyPath fun _ _ => False) := by
    refine ensures_stage_bind stage_filesExist ?_
    rintro there s₁ ⟨rfl, hthere⟩
    cases there with
    | true =>
        have hpresent : ¬ Missing resolve certPath keyPath s₁ := hthere
        refine stage_vouch ?_
        rcases h with hnever | hmissing | hpaired
        · exact Or.inl hnever
        · exact absurd hmissing hpresent
        · exact Or.inr hpaired
    | false =>
        have hmissing : Missing resolve certPath keyPath s₁ := hthere
        refine ensures_stage_bind (stage_ask fun _ _ h => h) ?_
        rintro available s₂ rfl
        cases available with
        | false => exact stage_refuse hmissing.sound
        | true =>
            refine ensures_stage_bind stage_randomCn ?_
            rintro (err | cn) s₃ rfl
            · exact stage_refuse hmissing.sound
            · exact stage_generate hmissing
  exact ensures_of_stage hstage fun _ _ hfalse => hfalse.elim

end

/-! ## Every history -/

theorem sound_called {files : File → Option Content} {s : Store File}
    (h : Called resolve (Tidy resolve certPath keyPath) windows certPath keyPath files s) :
    Sound resolve certPath keyPath s := by
  induction h with
  | start => exact Or.inl rfl
  | call _ hexec hdone ih => exact (ensure_ensures ih _ _ hexec hdone).1

/-- **What `ensure` vouches for.**  In every history of calls in which a chain
is begun on its own files only, no signature fails, and no request fails beside
an older certificate: a call that returns `true` after a chain has been run, by
itself or before, leaves a signed certificate and the private key it was issued
for, and that chain has been completed. -/
theorem ensure_vouches {files : File → Option Content} {s s' : Store File}
    (h : Called resolve (Tidy resolve certPath keyPath) windows certPath keyPath files s)
    (hexec : Exec (Within resolve (Tidy resolve certPath keyPath))
      (ensure windows certPath keyPath) s (.exit (.ok ())) s')
    (hchain : s'.chain ≠ .never) :
    s'.chain = .completed ∧ Paired resolve certPath keyPath s' :=
  (ensure_ensures (sound_called h) _ _ hexec (by simp)).2 rfl hchain

end

/-! ## Two histories -/

def certPem : Str := lit "certs/servercert.pem"

def keyPem : Str := lit "certs/serverkey.pem"

/-- What a command makes where the CA has the key 1 and the server the key 2. -/
def made (files : Str → Option Content) : Command → Option Content
  | .caKey _ => some (.key 1)
  | .caCert key _ _ => if files key = some (.key 1) then some (.caCert 1) else none
  | .serverKey _ => some (.key 2)
  | .request key _ _ => if files key = some (.key 2) then some (.request 2) else none
  | .sign input ca cakey _ =>
      if files input = some (.request 2) ∧ files ca = some (.caCert 1) ∧
          files cakey = some (.key 1) then some (.cert 2)
      else none

/-- What the shell of the examples writes is what the command is said to make. -/
theorem makes_made {files : Str → Option Content} {command : Command} {content : Content}
    (h : made files command = some content) : Makes id files command content := by
  cases command with
  | caKey out =>
      cases h
      exact .caKey out 1
  | caCert key out subj =>
      simp only [made, Option.ite_none_right_eq_some, Option.some.injEq] at h
      obtain ⟨hkey, rfl⟩ := h
      exact .caCert hkey
  | serverKey out =>
      cases h
      exact .serverKey out 2
  | request key out subj =>
      simp only [made, Option.ite_none_right_eq_some, Option.some.injEq] at h
      obtain ⟨hkey, rfl⟩ := h
      exact .request hkey
  | sign input ca cakey out =>
      simp only [made, Option.ite_none_right_eq_some, Option.some.injEq] at h
      obtain ⟨⟨hinput, hca, hcakey⟩, rfl⟩ := h
      exact .sign hinput hca hcakey

/-- A system on which a command ends as `works` says, or not at all. -/
def shell (works : Store Str → Command → Option Bool) (s : Store Str) :
    (e : CertEff) → Option (CertReply e × Store Str)
  | .exists path => some ((s.files path).isSome, s)
  | .probe _ => some (true, s)
  | .rand => some (some (some (lit "0123456789abcdef0123456789abcdef")), s)
  | .execute command _ =>
      match works s command with
      | none => none
      | some false => some (false, ⟨s.files, s.chain.after false command⟩)
      | some true =>
          (made s.files command).map fun content =>
            (true, ⟨Function.update s.files command.out (some content), s.chain.after true command⟩)
  | .remove path => some ((), ⟨Function.update s.files path none, s.chain⟩)

/-- The call of `ensure`, on such a system. -/
def call (works : Store Str → Command → Option Bool) (s : Store Str) :
    Outcome LuaError (Except Str Unit) Unit × Store Str :=
  (ensure false certPem keyPem).run (shell works) s

/-- A call against that shell is a run, if each of its answers is allowed there. -/
theorem exec_call {works : Store Str → Command → Option Bool}
    {c : Store Str → (e : CertEff) → CertReply e → Prop} (s : Store Str)
    (hc : ∀ s e reply s', shell works s e = some (reply, s') → c s e reply) :
    Exec (Within id c) (ensure false certPem keyPem) s (call works s).1 (call works s).2 := by
  refine exec_run_view (shell works) id ?_ _ s
  intro s e reply s' h
  refine ⟨?_, hc s e reply s' h⟩
  cases e with
  | execute command line =>
      simp only [shell] at h
      split at h
      case h_1 => cases h
      case h_2 =>
        cases h
        exact Or.inl ⟨rfl, rfl⟩
      case h_3 =>
        rw [Option.map_eq_some_iff] at h
        obtain ⟨content, hmade, hpair⟩ := h
        cases hpair
        exact Or.inr ⟨rfl, content, makes_made hmade, rfl⟩
  | remove path =>
      cases h
      exact Or.inr rfl
  | «exists» path =>
      cases h
      exact ⟨rfl, rfl⟩
  | _ =>
      cases h
      rfl

/-- Everything works. -/
def healthy (_ : Store Str) (_ : Command) : Option Bool := some true

/-- The request fails, where nothing is in the place of the certificate. -/
def requestFails (s : Store Str) : Command → Option Bool
  | .request _ out _ => if s.files out = none then some false else none
  | _ => some true

def signFails (_ : Store Str) : Command → Option Bool
  | .sign _ _ _ _ => some false
  | _ => some true

theorem aligned_certs : Aligned id certPem keyPem where
  cert := by decide
  key := by decide
  distinct := by decide

/-- Its answers are, where step 4 does not fail beside an old certificate and step 5 does
not fail. -/
theorem tidy_shell {works : Store Str → Command → Option Bool}
    (hrequest : ∀ s key out subj, works s (.request key out subj) = some false →
      s.files out = none)
    (hsign : ∀ s input ca cakey out, works s (.sign input ca cakey out) ≠ some false)
    (s : Store Str) (e : CertEff) (reply : CertReply e) (s' : Store Str)
    (h : shell works s e = some (reply, s')) : Tidy id certPem keyPem s e reply := by
  cases e with
  | execute command line =>
      have hok : works s command = some reply := by
        simp only [shell] at h
        split at h
        case h_1 => cases h
        case h_2 hworks =>
          cases h
          exact hworks
        case h_3 hworks =>
          rw [Option.map_eq_some_iff] at h
          obtain ⟨content, -, hpair⟩ := h
          cases hpair
          exact hworks
      cases command with
      | caKey out => exact aligned_certs
      | request key out subj =>
          cases reply with
          | true => exact Or.inl rfl
          | false => exact Or.inr (hrequest s key out subj hok)
      | sign input ca cakey out =>
          cases reply with
          | true => exact rfl
          | false => exact absurd hok (hsign s input ca cakey out)
      | _ => trivial
  | _ => trivial

/-- On an empty directory, a first call whose step 4 fails, and a second one that
returns `true`: it has completed the chain. -/
theorem ensure_vouches_retry : ∃ s₁ s₂ : Store Str,
    Exec (Within id (Tidy id certPem keyPem)) (ensure false certPem keyPem)
      ⟨fun _ => none, .never⟩ (.exit (.error (stepFailed 4))) s₁ ∧
    Exec (Within id (Tidy id certPem keyPem)) (ensure false certPem keyPem)
      s₁ (.exit (.ok ())) s₂ ∧
    s₂.chain = .completed ∧ Paired id certPem keyPem s₂ := by
  let s₁ := call requestFails ⟨fun _ => none, .never⟩
  let s₂ := call healthy s₁.2
  have hfirst : s₁.1 = .exit (.error (stepFailed 4)) := by decide
  have hsecond : s₂.1 = .exit (.ok ()) ∧ s₂.2.chain = .completed := by decide
  have hexec₁ : Exec (Within id (Tidy id certPem keyPem)) (ensure false certPem keyPem)
      ⟨fun _ => none, .never⟩ s₁.1 s₁.2 := by
    refine exec_call _ (tidy_shell ?_ ?_)
    · intro s key out subj h
      simpa [requestFails] using h
    · intro s input ca cakey out h
      cases h
  have hexec₂ : Exec (Within id (Tidy id certPem keyPem)) (ensure false certPem keyPem)
      s₁.2 s₂.1 s₂.2 := by
    refine exec_call _ (tidy_shell ?_ ?_)
    · intro s key out subj h
      cases h
    · intro s input ca cakey out h
      cases h
  have hcalled : Called id (Tidy id certPem keyPem) false certPem keyPem (fun _ => none) s₁.2 :=
    .call .start hexec₁ (by rw [hfirst]; simp)
  rw [hfirst] at hexec₁
  rw [hsecond.1] at hexec₂
  have hchain : s₂.2.chain ≠ .never := by
    rw [hsecond.2]
    simp
  exact ⟨s₁.2, s₂.2, hexec₁, hexec₂, ensure_vouches hcalled hexec₂ hchain⟩

/-- A first call whose signature fails, and a second one: it finds the request
in the place of the certificate, and returns `true`. -/
theorem ensure_signFails_vouches :
    ¬ ∀ (File : Type) [DecidableEq File] (resolve : Str → File) (windows : Bool)
      (certPath keyPath : Str) (files : File → Option Content) (s s' : Store File),
      Called resolve Anyhow windows certPath keyPath files s →
      Exec (Within resolve Anyhow) (ensure windows certPath keyPath) s (.exit (.ok ())) s' →
      s'.chain ≠ .never → s'.chain = .completed ∧ Paired resolve certPath keyPath s' := by
  intro hall
  let s₁ := call signFails ⟨fun _ => none, .never⟩
  let s₂ := call signFails s₁.2
  have hfirst : s₁.1 = .exit (.error (stepFailed 5)) := by decide
  have hsecond : s₂.1 = .exit (.ok ()) ∧ s₂.2.chain = .unfinished := by decide
  have hany : ∀ s e reply s', shell signFails s e = some (reply, s') → Anyhow s e reply :=
    fun _ _ _ _ _ => trivial
  have hexec₁ := exec_call ⟨fun _ => none, .never⟩ hany
  have hexec₂ := exec_call s₁.2 hany
  have hcalled : Called id Anyhow false certPem keyPem (fun _ => none) s₁.2 := by
    refine .call .start hexec₁ ?_
    have hdone : s₁.1 ≠ .running := by
      rw [hfirst]
      simp
    exact hdone
  have hresult : (call signFails s₁.2).1 = .exit (.ok ()) := hsecond.1
  rw [hresult] at hexec₂
  have hchain : s₂.2.chain ≠ .never := by
    rw [hsecond.2]
    simp
  have hcompleted := (hall Str id false certPem keyPem (fun _ => none) s₁.2 s₂.2 hcalled hexec₂
    hchain).1
  rw [hsecond.2] at hcompleted
  cases hcompleted

end LuadchAnnouncer.Core.CertAutogen
