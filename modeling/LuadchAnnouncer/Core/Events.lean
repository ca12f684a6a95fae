import Mathlib.Logic.Function.Basic
import LuadchAnnouncer.Verified.LuaValue

/-!
# `core/events.lua`

The core tells its frontends what happens by events: `events.emit` calls the handlers
that `events.on` has registered under the name, each under a `pcall`.  A handler is a
program of its own, and it may register and clear handlers or emit events while the
list that it stands in is gone through.

So the lists are objects here: the registry holds addresses of lists, registering
appends to the list at an address, clearing forgets addresses, and an emit that is under
way keeps the one it has read.  `emit` takes what runs a handler as a parameter, and
`exec` runs handlers with the emits in them.

## Main results

* `exec_emit_iff`, `exec_pcall_iff` — the two constructs of a handler that matter.
* `dispatch_of_loop`, `pass_of_texts` — the loop over the handlers, and how far it
  comes.
* `emit_iff` — which handlers are called, and when the emit returns.
* `emit_textless` — an error that has no text.
-/

namespace LuadchAnnouncer.Core.Events

open LuadchAnnouncer.Verified.Bytes
open LuadchAnnouncer.Verified.LuaValue

/-! ## Handlers -/

/-- What becomes of a call: it returns, with a text where it is `tostring` that is called,
or it raises an error, which is a value in `ε`. -/
inductive Outcome (ε : Type) where
  | returned (text : Str)
  | raised (err : ε)

/-- What a piece of Lua code does, one step after the other, where names of events are in
`ν`, their arguments in `α`, and everything outside of this module is in `σ`. -/
inductive Code (ν α ε σ : Type) where
  | done (text : Str)
  | raise (err : ε)
  | read (k : σ → Code ν α ε σ)
  | write (outside : σ) (k : Code ν α ε σ)
  /-- `events.on( name, handler )` -/
  | on (name : ν) (handler : α → Code ν α ε σ) (k : Code ν α ε σ)
  /-- `events.clear( name )`, or `events.clear( )` -/
  | clear (name : Option ν) (k : Code ν α ε σ)
  /-- `events.emit( name, ... )` -/
  | emit (name : ν) (args : α) (k : Code ν α ε σ)
  | pcall (body : Code ν α ε σ) (k : Outcome ε → Code ν α ε σ)

abbrev Handler (ν α ε σ : Type) := α → Code ν α ε σ

section

variable {ν α ε σ : Type}

/-! ## The registry -/

/-- A handler is registered, or the handlers for one name or for all are cleared. -/
inductive Edit (ν α ε σ : Type) where
  | on (name : ν) (handler : Handler ν α ε σ)
  | clear (name : Option ν)

/-- What is left for a name, and what is new. -/
def Edit.apply [DecidableEq ν] (name : ν) (l : List (Handler ν α ε σ)) :
    Edit ν α ε σ → List (Handler ν α ε σ)
  | .on name' handler => if name = name' then l ++ [handler] else l
  | .clear none => []
  | .clear (some name') => if name = name' then [] else l

/-- The lists there are, by address, the local table `handlers`, and the rest of the
world.  No two names have the same list. -/
structure State (ν α ε σ : Type) where
  lists : List (List (Handler ν α ε σ))
  handlers : ν → Option Nat
  outside : σ
  bound : ∀ name a, handlers name = some a → a < lists.length
  apart : ∀ name name' a, handlers name = some a → handlers name' = some a → name = name'

namespace State

/-- What there is when the module has been loaded. -/
def start (outside : σ) : State ν α ε σ where
  lists := []
  handlers := fun _ => none
  outside := outside
  bound := by
    intro name a h
    cases h
  apart := by
    intro name name' a h
    cases h

/-- The list at an address. -/
def list (s : State ν α ε σ) (a : Nat) : List (Handler ν α ε σ) := (s.lists[a]?).getD []

/-- The handlers registered for a name. -/
def registered (s : State ν α ε σ) (name : ν) : List (Handler ν α ε σ) :=
  match s.handlers name with
  | none => []
  | some a => s.list a

variable [DecidableEq ν]

/-- `events.on` -/
def on (s : State ν α ε σ) (name : ν) (handler : Handler ν α ε σ) : State ν α ε σ :=
  match s.handlers name with
  | some a =>
      { s with
        lists := s.lists.modify a (· ++ [handler])
        bound := by
          intro name' a' h'
          rw [List.length_modify]
          exact s.bound name' a' h' }
  | none =>
      { s with
        lists := s.lists ++ [[handler]]
        handlers := Function.update s.handlers name (some s.lists.length)
        bound := by
          intro name' a' h'
          rw [List.length_append, List.length_singleton]
          by_cases heq : name' = name
          · rw [heq, Function.update_self, Option.some.injEq] at h'
            omega
          · rw [Function.update_of_ne heq] at h'
            have hlt := s.bound name' a' h'
            omega
        apart := by
          intro name₁ name₂ a' h₁ h₂
          by_cases heq₁ : name₁ = name
          · rw [heq₁, Function.update_self, Option.some.injEq] at h₁
            by_contra hne
            rw [Function.update_of_ne fun heq₂ => hne (heq₁.trans heq₂.symm)] at h₂
            have hlt := s.bound name₂ a' h₂
            omega
          · rw [Function.update_of_ne heq₁] at h₁
            have hlt := s.bound name₁ a' h₁
            by_cases heq₂ : name₂ = name
            · rw [heq₂, Function.update_self, Option.some.injEq] at h₂
              omega
            · rw [Function.update_of_ne heq₂] at h₂
              exact s.apart name₁ name₂ a' h₁ h₂ }

/-- `events.clear` -/
def clear (s : State ν α ε σ) (name : Option ν) : State ν α ε σ :=
  match name with
  | some name =>
      { s with
        handlers := Function.update s.handlers name none
        bound := by
          intro name' a' h'
          by_cases heq : name' = name
          · rw [heq, Function.update_self] at h'
            cases h'
          · rw [Function.update_of_ne heq] at h'
            exact s.bound name' a' h'
        apart := by
          intro name₁ name₂ a' h₁ h₂
          by_cases heq₁ : name₁ = name
          · rw [heq₁, Function.update_self] at h₁
            cases h₁
          · by_cases heq₂ : name₂ = name
            · rw [heq₂, Function.update_self] at h₂
              cases h₂
            · rw [Function.update_of_ne heq₁] at h₁
              rw [Function.update_of_ne heq₂] at h₂
              exact s.apart name₁ name₂ a' h₁ h₂ }
  | none =>
      { s with
        handlers := fun _ => none
        bound := by
          intro name' a' h'
          cases h'
        apart := by
          intro name₁ name₂ a' h₁
          cases h₁ }

/-- A handler goes behind the ones there are. -/
theorem registered_on_self (s : State ν α ε σ) (name : ν) (handler : Handler ν α ε σ) :
    (s.on name handler).registered name = s.registered name ++ [handler] := by
  unfold on
  split
  case h_1 a ha =>
    have hlt := s.bound name a ha
    simp only [registered, ha, list, List.getElem?_modify, if_true,
      List.getElem?_eq_getElem hlt, Option.map_eq_map, Option.map_some, Option.getD_some]
  case h_2 hnone =>
    simp only [registered, hnone, list, Function.update_self, List.getElem?_concat_length,
      Option.getD_some, List.nil_append]

/-- The other names keep theirs. -/
theorem registered_on_of_ne (s : State ν α ε σ) {name name' : ν} (hne : name' ≠ name)
    (handler : Handler ν α ε σ) : (s.on name handler).registered name' = s.registered name' := by
  unfold on
  split
  case h_1 a ha =>
    unfold registered
    cases ha' : s.handlers name' with
    | none => rfl
    | some a' =>
        have ha'' : a ≠ a' := by
          intro heq
          rw [← heq] at ha'
          exact hne (s.apart name' name a ha' ha)
        simp only [list, List.getElem?_modify, if_neg ha'', Option.map_eq_map, Option.map_id']
  case h_2 =>
    simp only [registered, Function.update_of_ne hne]
    cases ha' : s.handlers name' with
    | none => rfl
    | some a' =>
        simp only [list, List.getElem?_append_left (s.bound name' a' ha')]

/-- What has been registered for one name is forgotten, and for the others kept. -/
theorem registered_clear (s : State ν α ε σ) (name name' : ν) :
    (s.clear (some name)).registered name' = if name' = name then [] else s.registered name' := by
  unfold clear registered
  by_cases heq : name' = name
  · rw [heq, if_pos rfl]
    simp only [Function.update_self]
  · rw [if_neg heq]
    simp only [Function.update_of_ne heq]
    rfl

/-- `events.on` and `events.clear`, as steps of a run. -/
def edit (s : State ν α ε σ) : Edit ν α ε σ → State ν α ε σ
  | .on name handler => s.on name handler
  | .clear name => s.clear name

/-- What is registered for a name is what has been since it was last cleared, in this
order. -/
theorem registered_foldl_edit (edits : List (Edit ν α ε σ)) (s : State ν α ε σ) (name : ν) :
    (edits.foldl edit s).registered name = edits.foldl (Edit.apply name) (s.registered name) := by
  induction edits generalizing s with
  | nil => rfl
  | cons e edits ih =>
      rw [List.foldl_cons, List.foldl_cons, ih]
      congr 1
      cases e with
      | on name' handler =>
          show (s.on name' handler).registered name =
            if name = name' then s.registered name ++ [handler] else s.registered name
          by_cases heq : name = name'
          · rw [heq, registered_on_self, if_pos rfl]
          · rw [registered_on_of_ne s heq, if_neg heq]
      | clear cleared =>
          cases cleared with
          | none => rfl
          | some name' => exact registered_clear s name' name

end State

/-! ## `events.emit` -/

/-- What `tostring` does with names and with errors, the error that calling `nil` raises,
and the log: `log.event( msg )`, which returns. -/
structure Host (ν α ε σ : Type) where
  nameText : ν → Code ν α ε σ
  errText : ε → Code ν α ε σ
  calledNil : ε
  log : Str → σ → σ

/-- What runs a piece of code, if it comes to an end. -/
abbrev Runner (ν α ε σ : Type) := Code ν α ε σ → State ν α ε σ → Option (Outcome ε × State ν α ε σ)

/-- An emit that has come to an end: the error it has raised, if any, and the calls it has
made. -/
structure Emission (ν α ε σ : Type) where
  error : Option ε
  state : State ν α ε σ
  calls : List (Handler ν α ε σ × α)

/-- `"events.emit('" .. tostring( name ) .. "'): handler #" .. i .. " error: " ..
tostring( err )` -/
def message (name : Str) (i : Nat) (err : Str) : Str :=
  lit "events.emit('" ++ name ++ lit "'): handler #" ++ LuaNum.natText i ++ lit " error: " ++ err

/-- What `pcall( list[ i ], ... )` runs. -/
def called (host : Host ν α ε σ) (handler : Option (Handler ν α ε σ)) (args : α) :
    Code ν α ε σ :=
  match handler with
  | none => .raise host.calledNil
  | some handler => handler args

/-- The message about an error is put together, and logged: again the error that was
raised, if one was. -/
def report (host : Host ν α ε σ) (run : Runner ν α ε σ) (name : ν) (i : Nat) (err : ε)
    (s : State ν α ε σ) : Option (Option ε × State ν α ε σ) :=
  match run (host.nameText name) s with
  | none => none
  | some (.raised err, s) => some (some err, s)
  | some (.returned nameText, s) =>
      match run (host.errText err) s with
      | none => none
      | some (.raised err, s) => some (some err, s)
      | some (.returned text, s) =>
          some (none, { s with outside := host.log (message nameText i text) s.outside })

/-- One round of the loop: the error that was raised out of it, if one was. -/
def round (host : Host ν α ε σ) (run : Runner ν α ε σ) (name : ν) (i : Nat) (call : Code ν α ε σ)
    (s : State ν α ε σ) : Option (Option ε × State ν α ε σ) :=
  match run call s with
  | none => none
  | some (.returned _, s) => some (none, s)
  | some (.raised err, s) => report host run name i err s

/-- The loop over the list at `a`, with these places still to go. -/
def loop (host : Host ν α ε σ) (run : Runner ν α ε σ) (name : ν) (args : α) (a : Nat) :
    List Nat → State ν α ε σ → Option (Emission ν α ε σ)
  | [], s => some { error := none, state := s, calls := [] }
  | i :: rest, s =>
      let handler := (s.list a)[i]?
      let call := handler.toList.map fun handler => (handler, args)
      match round host run name (i + 1) (called host handler args) s with
      | none => none
      | some (some err, s) => some { error := some err, state := s, calls := call }
      | some (none, s) =>
          (loop host run name args a rest s).map fun e => { e with calls := call ++ e.calls }

/-- `events.emit( name, ... )` -/
def emit (host : Host ν α ε σ) (run : Runner ν α ε σ) (name : ν) (args : α) (s : State ν α ε σ) :
    Option (Emission ν α ε σ) :=
  match s.handlers name with
  | none => some { error := none, state := s, calls := [] }
  | some a => loop host run name args a (List.range (s.list a).length) s

/-! ## What a round and a loop do -/

/-- One round of the loop, where `R` is what becomes of a piece of code. -/
inductive Round (host : Host ν α ε σ)
    (R : Code ν α ε σ → State ν α ε σ → Outcome ε → State ν α ε σ → Prop)
    (name : ν) (i : Nat) (call : Code ν α ε σ) (s : State ν α ε σ) :
    Option ε → State ν α ε σ → Prop where
  | returned {text : Str} {s' : State ν α ε σ} (h : R call s (.returned text) s') :
      Round host R name i call s none s'
  | logged {err : ε} {nameText text : Str} {s₁ s₂ s₃ : State ν α ε σ}
      (h : R call s (.raised err) s₁) (hname : R (host.nameText name) s₁ (.returned nameText) s₂)
      (htext : R (host.errText err) s₂ (.returned text) s₃) :
      Round host R name i call s none
        { s₃ with outside := host.log (message nameText i text) s₃.outside }
  | nameRaised {err err' : ε} {s₁ s₂ : State ν α ε σ} (h : R call s (.raised err) s₁)
      (hname : R (host.nameText name) s₁ (.raised err') s₂) :
      Round host R name i call s (some err') s₂
  | textRaised {err err' : ε} {nameText : Str} {s₁ s₂ s₃ : State ν α ε σ}
      (h : R call s (.raised err) s₁) (hname : R (host.nameText name) s₁ (.returned nameText) s₂)
      (htext : R (host.errText err) s₂ (.raised err') s₃) :
      Round host R name i call s (some err') s₃

/-- What a runner makes of a piece of code: the outcome and the state it ends in.  `none`
is a run that has used up its fuel. -/
def Runner.Gives (run : Runner ν α ε σ) (c : Code ν α ε σ) (s : State ν α ε σ) (o : Outcome ε)
    (s' : State ν α ε σ) : Prop :=
  run c s = some (o, s')

section

variable {host : Host ν α ε σ} {run : Runner ν α ε σ} {name : ν}
variable {i : Nat} {call : Code ν α ε σ} {s s' : State ν α ε σ} {o : Option ε}

/-- A round is what its runs make it. -/
theorem round_of_gives (h : Round host run.Gives name i call s o s') :
    round host run name i call s = some (o, s') := by
  cases h with
  | returned h =>
      unfold round
      rw [show run call s = _ from h]
  | logged h hname htext =>
      unfold round report
      rw [show run call s = _ from h]
      simp only
      rw [show run (host.nameText name) _ = _ from hname]
      simp only
      rw [show run _ _ = _ from htext]
  | nameRaised h hname =>
      unfold round report
      rw [show run call s = _ from h]
      simp only
      rw [show run (host.nameText name) _ = _ from hname]
  | textRaised h hname htext =>
      unfold round report
      rw [show run call s = _ from h]
      simp only
      rw [show run (host.nameText name) _ = _ from hname]
      simp only
      rw [show run _ _ = _ from htext]

/-- A turn of the loop that comes to its end is one of the four of `Round`: the handler
returns, or raises an error, and then its texts are asked for in this order. -/
theorem gives_of_round (h : round host run name i call s = some (o, s')) :
    Round host run.Gives name i call s o s' := by
  unfold round at h
  cases hcall : run call s with
  | none =>
      rw [hcall] at h
      cases h
  | some r =>
      rw [hcall] at h
      match r, hcall, h with
      | (.returned _, _), hcall, rfl => exact Round.returned hcall
      | (.raised err, s₁), hcall, h =>
          simp only [report] at h
          cases hname : run (host.nameText name) s₁ with
          | none =>
              rw [hname] at h
              cases h
          | some r =>
              rw [hname] at h
              match r, hname, h with
              | (.raised _, _), hname, rfl => exact Round.nameRaised hcall hname
              | (.returned nameText, s₂), hname, h =>
                  simp only at h
                  cases htext : run (host.errText err) s₂ with
                  | none =>
                      rw [htext] at h
                      cases h
                  | some r =>
                      rw [htext] at h
                      match r, htext, h with
                      | (.raised _, _), htext, rfl => exact Round.textRaised hcall hname htext
                      | (.returned _, _), htext, rfl => exact Round.logged hcall hname htext

/-- A turn stays one when more calls come to their end. -/
theorem Round.mono {R R' : Code ν α ε σ → State ν α ε σ → Outcome ε → State ν α ε σ → Prop}
    (hR : ∀ c s o s', R c s o s' → R' c s o s') (h : Round host R name i call s o s') :
    Round host R' name i call s o s' := by
  cases h with
  | returned h => exact Round.returned (hR _ _ _ _ h)
  | logged h hname htext => exact Round.logged (hR _ _ _ _ h) (hR _ _ _ _ hname) (hR _ _ _ _ htext)
  | nameRaised h hname => exact Round.nameRaised (hR _ _ _ _ h) (hR _ _ _ _ hname)
  | textRaised h hname htext =>
      exact Round.textRaised (hR _ _ _ _ h) (hR _ _ _ _ hname) (hR _ _ _ _ htext)

end

/-! ## Lists only grow -/

/-- No list has lost a handler, or had one put in between: each is a beginning of what it
is now.  Clearing a name forgets an address and touches no list. -/
def Grows (s s' : State ν α ε σ) : Prop := ∀ a, s.list a <+: s'.list a

theorem Grows.refl (s : State ν α ε σ) : Grows s s := fun _ => List.prefix_rfl

theorem Grows.trans {s s' s'' : State ν α ε σ} (h : Grows s s') (h' : Grows s' s'') :
    Grows s s'' := fun a => (h a).trans (h' a)

/-- Whatever is run, lists only grow. -/
def KeepsLists (run : Runner ν α ε σ) : Prop :=
  ∀ c s o s', run.Gives c s o s' → Grows s s'

/-- A turn keeps the lists that are there and appends to them at most. -/
theorem Round.grows {host : Host ν α ε σ} {run : Runner ν α ε σ} {name : ν} {i : Nat}
    {call : Code ν α ε σ} {s s' : State ν α ε σ} {o : Option ε} (hrun : KeepsLists run)
    (h : Round host run.Gives name i call s o s') : Grows s s' := by
  cases h with
  | returned h => exact hrun _ _ _ _ h
  | logged h hname htext =>
      have hbefore := ((hrun _ _ _ _ h).trans (hrun _ _ _ _ hname)).trans (hrun _ _ _ _ htext)
      exact fun a => hbefore a
  | nameRaised h hname => exact (hrun _ _ _ _ h).trans (hrun _ _ _ _ hname)
  | textRaised h hname htext =>
      exact ((hrun _ _ _ _ h).trans (hrun _ _ _ _ hname)).trans (hrun _ _ _ _ htext)

/-! ## A list that is fixed beforehand -/

/-- The handlers of a list are called one after the other, from number `i + 1` on. -/
inductive Dispatch (host : Host ν α ε σ)
    (R : Code ν α ε σ → State ν α ε σ → Outcome ε → State ν α ε σ → Prop) (name : ν) (args : α) :
    Nat → List (Handler ν α ε σ) → State ν α ε σ → Emission ν α ε σ → Prop where
  | nil (i : Nat) (s : State ν α ε σ) :
      Dispatch host R name args i [] s { error := none, state := s, calls := [] }
  | stop {i : Nat} {handler : Handler ν α ε σ} {rest : List (Handler ν α ε σ)}
      {s s' : State ν α ε σ} {err : ε}
      (h : Round host R name (i + 1) (handler args) s (some err) s') :
      Dispatch host R name args i (handler :: rest) s
        { error := some err, state := s', calls := [(handler, args)] }
  | next {i : Nat} {handler : Handler ν α ε σ} {rest : List (Handler ν α ε σ)}
      {s s' : State ν α ε σ} {e : Emission ν α ε σ}
      (h : Round host R name (i + 1) (handler args) s none s')
      (hrest : Dispatch host R name args (i + 1) rest s' e) :
      Dispatch host R name args i (handler :: rest) s
        { e with calls := (handler, args) :: e.calls }

section

variable {host : Host ν α ε σ} {name : ν} {args : α} {i : Nat} {l : List (Handler ν α ε σ)}
variable {s : State ν α ε σ} {e : Emission ν α ε σ}
variable {R R' : Code ν α ε σ → State ν α ε σ → Outcome ε → State ν α ε σ → Prop}

theorem Dispatch.mono (hR : ∀ c s o s', R c s o s' → R' c s o s')
    (h : Dispatch host R name args i l s e) : Dispatch host R' name args i l s e := by
  induction h with
  | nil i s => exact Dispatch.nil i s
  | stop h => exact Dispatch.stop (h.mono hR)
  | next h _ ih => exact Dispatch.next (h.mono hR) ih

/-- The calls that have been made are the first ones of the list. -/
theorem Dispatch.calls_initial (h : Dispatch host R name args i l s e) :
    e.calls <+: l.map fun handler => (handler, args) := by
  induction h with
  | nil => exact List.prefix_rfl
  | stop => exact List.prefix_append [_] _
  | next _ _ ih => exact (List.prefix_cons_inj _).mpr ih

theorem Dispatch.calls_eq (h : Dispatch host R name args i l s e) (herror : e.error = none) :
    e.calls = l.map fun handler => (handler, args) := by
  induction h with
  | nil => rfl
  | stop => cases herror
  | next _ _ ih => rw [List.map_cons, ih herror]

theorem Dispatch.grows {run : Runner ν α ε σ} (hrun : KeepsLists run)
    (h : Dispatch host run.Gives name args i l s e) : Grows s e.state := by
  induction h with
  | nil => exact Grows.refl _
  | stop h => exact h.grows hrun
  | next h _ ih => exact (h.grows hrun).trans ih

end

/-! ## The list that is there -/

section

variable {host : Host ν α ε σ} {run : Runner ν α ε σ} {name : ν} {args : α} {a : Nat}

/-- What is in the list at a place stays there. -/
theorem Grows.drop {s s' : State ν α ε σ} (h : Grows s s') {i : Nat} {l : List (Handler ν α ε σ)}
    (hat : l <+: (s.list a).drop i) : l <+: (s'.list a).drop i := by
  obtain ⟨rest, hrest⟩ := h a
  obtain ⟨more, hmore⟩ := hat
  apply List.IsPrefix.trans ⟨more, hmore⟩
  rw [← hrest]
  exact (List.prefix_append _ _).drop i

/-- What the loop reads at its index, and what is left for the next one. -/
theorem getElem?_of_prefix_drop {β : Type} {l rest : List β} {i : Nat} {x : β}
    (h : x :: rest <+: l.drop i) : l[i]? = some x ∧ rest <+: l.drop (i + 1) := by
  obtain ⟨more, hmore⟩ := h
  constructor
  · rw [← List.head?_drop, ← hmore]
    rfl
  · rw [← List.tail_drop, ← hmore]
    exact List.prefix_append rest more

/-- The loop goes through what stood in the list from its place on. -/
theorem loop_of_dispatch (hrun : KeepsLists run) {i : Nat} {l : List (Handler ν α ε σ)}
    {s : State ν α ε σ} {e : Emission ν α ε σ} (h : Dispatch host run.Gives name args i l s e)
    (hat : l <+: (s.list a).drop i) :
    loop host run name args a (List.range' i l.length) s = some e := by
  induction h with
  | nil => rfl
  | stop h =>
      obtain ⟨hhead, -⟩ := getElem?_of_prefix_drop hat
      simp only [List.length_cons, List.range'_succ, loop, hhead, called, round_of_gives h,
        Option.toList_some, List.map_cons, List.map_nil]
  | next h hrest ih =>
      obtain ⟨hhead, htail⟩ := getElem?_of_prefix_drop hat
      have hloop := ih ((h.grows hrun).drop htail)
      simp only [List.length_cons, List.range'_succ, loop, hhead, called, round_of_gives h,
        Option.toList_some, List.map_cons, List.map_nil, hloop, Option.map_some,
        List.singleton_append]

/-- The loop over the indices goes through the handlers that were in the list when it
started: what is appended in the meantime stands behind them. -/
theorem dispatch_of_loop (hrun : KeepsLists run) {l : List (Handler ν α ε σ)} :
    ∀ {i : Nat} {s : State ν α ε σ} {e : Emission ν α ε σ}, l <+: (s.list a).drop i →
      loop host run name args a (List.range' i l.length) s = some e →
      Dispatch host run.Gives name args i l s e := by
  induction l with
  | nil =>
      intro i s e _ hloop
      obtain rfl := Option.some.inj hloop
      exact Dispatch.nil i s
  | cons handler rest ih =>
      intro i s e hat hloop
      obtain ⟨hhead, htail⟩ := getElem?_of_prefix_drop hat
      simp only [List.length_cons, List.range'_succ, loop, hhead, called, Option.toList_some,
        List.map_cons, List.map_nil] at hloop
      cases hround : round host run name (i + 1) (handler args) s with
      | none =>
          rw [hround] at hloop
          cases hloop
      | some r =>
          obtain ⟨o, s'⟩ := r
          have h := gives_of_round hround
          rw [hround] at hloop
          cases o with
          | some err =>
              obtain rfl := Option.some.inj hloop
              exact Dispatch.stop h
          | none =>
              obtain ⟨e', he', rfl⟩ := Option.map_eq_some_iff.mp hloop
              exact Dispatch.next h (ih ((h.grows hrun).drop htail) he')

/-- An emit goes through the handlers that were registered when it started. -/
theorem emit_eq_some_iff (hrun : KeepsLists run) (s : State ν α ε σ) (e : Emission ν α ε σ) :
    emit host run name args s = some e ↔
      Dispatch host run.Gives name args 0 (s.registered name) s e := by
  unfold emit State.registered
  cases s.handlers name with
  | none =>
      constructor
      · intro h
        obtain rfl := Option.some.inj h
        exact Dispatch.nil 0 s
      · intro h
        cases h
        rfl
  | some a =>
      simp only [List.range_eq_range']
      exact ⟨dispatch_of_loop hrun List.prefix_rfl,
        fun h => loop_of_dispatch hrun h List.prefix_rfl⟩

end

/-! ## Handlers with emits in them -/

variable [DecidableEq ν]

/-- A piece of code with the emits in it, as far as the fuel goes. -/
def exec (host : Host ν α ε σ) : Nat → Runner ν α ε σ
  | 0, _, _ => none
  | n + 1, c, s =>
      match c with
      | .done text => some (.returned text, s)
      | .raise err => some (.raised err, s)
      | .read k => exec host n (k s.outside) s
      | .write outside k => exec host n k { s with outside := outside }
      | .on name handler k => exec host n k (s.on name handler)
      | .clear name k => exec host n k (s.clear name)
      | .emit name args k =>
          match emit host (exec host n) name args s with
          | none => none
          | some e =>
              match e.error with
              | some err => some (.raised err, e.state)
              | none => exec host n k e.state
      | .pcall body k =>
          match exec host n body s with
          | none => none
          | some (o, s) => exec host n (k o) s

/-- What an emit in a piece of code does: it ends the code, or the code goes on. -/
theorem exec_emit_iff {host : Host ν α ε σ} {n : Nat} {name : ν} {args : α} {k : Code ν α ε σ}
    {s s' : State ν α ε σ} {o : Outcome ε} :
    (exec host (n + 1)).Gives (.emit name args k) s o s' ↔
      ∃ e, emit host (exec host n) name args s = some e ∧
        ((∃ err, e.error = some err ∧ o = .raised err ∧ s' = e.state) ∨
          e.error = none ∧ (exec host n).Gives k e.state o s') := by
  unfold Runner.Gives
  rw [exec]
  cases emit host (exec host n) name args s with
  | none => simp
  | some e =>
      cases herror : e.error with
      | none => simp [herror]
      | some err => simp [herror, eq_comm]

/-- A `pcall` runs its body and goes on with what has become of it. -/
theorem exec_pcall_iff {host : Host ν α ε σ} {n : Nat} {body : Code ν α ε σ}
    {k : Outcome ε → Code ν α ε σ} {s s' : State ν α ε σ} {o : Outcome ε} :
    (exec host (n + 1)).Gives (.pcall body k) s o s' ↔
      ∃ o₁ s₁, (exec host n).Gives body s o₁ s₁ ∧ (exec host n).Gives (k o₁) s₁ o s' := by
  unfold Runner.Gives
  rw [exec]
  cases exec host n body s with
  | none => simp
  | some r =>
      obtain ⟨o₁, s₁⟩ := r
      simp

/-- Registering appends to one list, or makes a new one. -/
theorem grows_on (s : State ν α ε σ) (name : ν) (handler : Handler ν α ε σ) :
    Grows s (s.on name handler) := by
  intro a
  unfold State.on State.list
  split
  case h_1 a' _ =>
    rw [List.getElem?_modify]
    cases s.lists[a]? with
    | none => exact List.prefix_rfl
    | some l =>
        show l <+: (if a' = a then l ++ [handler] else l)
        split
        · exact List.prefix_append l [handler]
        · exact List.prefix_rfl
  case h_2 =>
    cases hlist : s.lists[a]? with
    | none => exact List.nil_prefix
    | some l =>
        have hlt := (List.getElem?_eq_some_iff.mp hlist).1
        show l <+: ((s.lists ++ [[handler]])[a]?).getD []
        rw [List.getElem?_append_left hlt, hlist]
        exact List.prefix_rfl

theorem grows_clear (s : State ν α ε σ) (name : Option ν) : Grows s (s.clear name) := by
  intro a
  cases name with
  | none => exact List.prefix_rfl
  | some name => exact List.prefix_rfl

/-- A handler registers, clears and emits, and all the lists there are only grow. -/
theorem exec_keepsLists (host : Host ν α ε σ) (n : Nat) : KeepsLists (exec host n) := by
  induction n with
  | zero =>
      intro c s o s' h
      cases h
  | succ n ih =>
      intro c s o s' h
      unfold Runner.Gives at h
      cases c with
      | done text =>
          obtain ⟨-, rfl⟩ := Prod.mk.inj (Option.some.inj h)
          exact Grows.refl s
      | raise err =>
          obtain ⟨-, rfl⟩ := Prod.mk.inj (Option.some.inj h)
          exact Grows.refl s
      | read k => exact ih _ _ _ _ h
      | write outside k =>
          have hgrows := ih k { s with outside := outside } o s' h
          exact fun a => hgrows a
      | on name handler k => exact (grows_on s name handler).trans (ih _ _ _ _ h)
      | clear name k => exact (grows_clear s name).trans (ih _ _ _ _ h)
      | emit name args k =>
          obtain ⟨e, hemit, hend⟩ := exec_emit_iff.mp h
          have hgrows := ((emit_eq_some_iff ih s e).mp hemit).grows ih
          apply hend.elim
          · intro hraised
            obtain ⟨err, -, -, rfl⟩ := hraised
            exact hgrows
          · intro hgoes
            exact hgrows.trans (ih _ _ _ _ hgoes.2)
      | pcall body k =>
          obtain ⟨o₁, s₁, hbody, hrest⟩ := exec_pcall_iff.mp h
          exact (ih _ _ _ _ hbody).trans (ih _ _ _ _ hrest)

/-- More fuel changes nothing. -/
theorem exec_succ (host : Host ν α ε σ) (n : Nat) :
    ∀ c s o s', (exec host n).Gives c s o s' → (exec host (n + 1)).Gives c s o s' := by
  induction n with
  | zero =>
      intro c s o s' h
      cases h
  | succ n ih =>
      intro c s o s' h
      cases c with
      | done text => exact h
      | raise err => exact h
      | read k => exact ih (k s.outside) s o s' h
      | write outside k => exact ih k { s with outside := outside } o s' h
      | on name handler k => exact ih k (s.on name handler) o s' h
      | clear name k => exact ih k (s.clear name) o s' h
      | emit name args k =>
          obtain ⟨e, hemit, hend⟩ := exec_emit_iff.mp h
          rw [emit_eq_some_iff (exec_keepsLists host n)] at hemit
          have hemit' := (emit_eq_some_iff (exec_keepsLists host (n + 1)) s e).mpr (hemit.mono ih)
          exact exec_emit_iff.mpr
            ⟨e, hemit', hend.imp_right fun hgoes => ⟨hgoes.1, ih _ _ _ _ hgoes.2⟩⟩
      | pcall body k =>
          obtain ⟨o₁, s₁, hbody, hrest⟩ := exec_pcall_iff.mp h
          exact exec_pcall_iff.mpr ⟨o₁, s₁, ih _ _ _ _ hbody, ih _ _ _ _ hrest⟩

theorem exec_le (host : Host ν α ε σ) {n m : Nat} (hle : n ≤ m) :
    ∀ c s o s', (exec host n).Gives c s o s' → (exec host m).Gives c s o s' := by
  induction hle with
  | refl => exact fun _ _ _ _ h => h
  | step _ ih => exact fun c s o s' h => exec_succ host _ c s o s' (ih c s o s' h)

/-- What becomes of a piece of code, however long it takes.  The fuel is only a means to
define it by. -/
def Ends (host : Host ν α ε σ) (c : Code ν α ε σ) (s : State ν α ε σ) (o : Outcome ε)
    (s' : State ν α ε σ) : Prop :=
  ∃ n, (exec host n).Gives c s o s'

/-- If each call of a turn comes to its end, the turn does, with fuel for the longest of
them. -/
theorem Round.ends {host : Host ν α ε σ} {name : ν} {i : Nat} {call : Code ν α ε σ}
    {s s' : State ν α ε σ} {o : Option ε}
    (h : Round host (Ends host) name i call s o s') :
    ∃ n, Round host (exec host n).Gives name i call s o s' := by
  cases h with
  | returned h =>
      obtain ⟨n, h⟩ := h
      exact ⟨n, Round.returned h⟩
  | logged h hname htext =>
      obtain ⟨n₁, h⟩ := h
      obtain ⟨n₂, hname⟩ := hname
      obtain ⟨n₃, htext⟩ := htext
      exact ⟨max n₁ (max n₂ n₃), Round.logged (exec_le host (by omega) _ _ _ _ h)
        (exec_le host (by omega) _ _ _ _ hname) (exec_le host (by omega) _ _ _ _ htext)⟩
  | nameRaised h hname =>
      obtain ⟨n₁, h⟩ := h
      obtain ⟨n₂, hname⟩ := hname
      exact ⟨max n₁ n₂, Round.nameRaised (exec_le host (by omega) _ _ _ _ h)
        (exec_le host (by omega) _ _ _ _ hname)⟩
  | textRaised h hname htext =>
      obtain ⟨n₁, h⟩ := h
      obtain ⟨n₂, hname⟩ := hname
      obtain ⟨n₃, htext⟩ := htext
      exact ⟨max n₁ (max n₂ n₃), Round.textRaised (exec_le host (by omega) _ _ _ _ h)
        (exec_le host (by omega) _ _ _ _ hname) (exec_le host (by omega) _ _ _ _ htext)⟩

/-! ## What an event is for -/

/-- An emit comes back, and has called every handler that was registered when it started,
in the order in which they were registered. -/
def Dispatches (host : Host ν α ε σ) (name : ν) (args : α) (s : State ν α ε σ) : Prop :=
  ∃ n e, emit host (exec host n) name args s = some e ∧ e.error = none ∧
    e.calls = (s.registered name).map fun handler => (handler, args)

/-- The handlers, called one after the other, each return or raise an error that has a
text. -/
inductive Pass (host : Host ν α ε σ) (name : ν) (args : α) :
    Nat → List (Handler ν α ε σ) → State ν α ε σ → Prop where
  | nil (i : Nat) (s : State ν α ε σ) : Pass host name args i [] s
  | cons {i : Nat} {handler : Handler ν α ε σ} {rest : List (Handler ν α ε σ)}
      {s s' : State ν α ε σ}
      (h : Round host (Ends host) name (i + 1) (handler args) s none s')
      (hrest : Pass host name args (i + 1) rest s') : Pass host name args i (handler :: rest) s

section

variable {host : Host ν α ε σ} {name : ν} {args : α} {i : Nat} {l : List (Handler ν α ε σ)}
variable {s : State ν α ε σ}

/-- Handlers that all pass are all called, with fuel for the longest turn. -/
theorem Pass.dispatch (h : Pass host name args i l s) :
    ∃ n e, Dispatch host (exec host n).Gives name args i l s e ∧ e.error = none := by
  induction h with
  | nil i s => exact ⟨0, _, Dispatch.nil i s, rfl⟩
  | cons h _ ih =>
      obtain ⟨n₁, h⟩ := h.ends
      obtain ⟨n₂, e, hrest, herror⟩ := ih
      have hround := h.mono (exec_le host (Nat.le_max_left n₁ n₂))
      have htail := hrest.mono (exec_le host (Nat.le_max_right n₁ n₂))
      exact ⟨max n₁ n₂, _, Dispatch.next hround htail, herror⟩

theorem Pass.dispatches (h : Pass host name args 0 (s.registered name) s) :
    Dispatches host name args s := by
  obtain ⟨n, e, hdispatch, herror⟩ := h.dispatch
  exact ⟨n, e, (emit_eq_some_iff (exec_keepsLists host n) s e).mpr hdispatch, herror,
    hdispatch.calls_eq herror⟩

/-- And where the emit returns, all of them have passed. -/
theorem Dispatch.pass {n : Nat} {e : Emission ν α ε σ}
    (h : Dispatch host (exec host n).Gives name args i l s e) (herror : e.error = none) :
    Pass host name args i l s := by
  induction h with
  | nil i s => exact Pass.nil i s
  | stop => cases herror
  | next h _ ih => exact Pass.cons (h.mono fun _ _ _ _ hgives => ⟨n, hgives⟩) (ih herror)

/-- With names and errors that have texts, handlers only have to come to an end. -/
theorem pass_of_texts (hname : ∀ s, ∃ text s', Ends host (host.nameText name) s (.returned text) s')
    (htext : ∀ err s, ∃ text s', Ends host (host.errText err) s (.returned text) s')
    (hends : ∀ handler ∈ l, ∀ s, ∃ o s', Ends host (handler args) s o s') :
    Pass host name args i l s := by
  induction l generalizing i s with
  | nil => exact Pass.nil i s
  | cons handler rest ih =>
      have hrest {s' : State ν α ε σ} : Pass host name args (i + 1) rest s' :=
        ih fun handler' hmem => hends handler' (List.mem_cons_of_mem handler hmem)
      obtain ⟨o, s₁, h⟩ := hends handler List.mem_cons_self s
      cases o with
      | returned text => exact Pass.cons (Round.returned h) hrest
      | raised err =>
          obtain ⟨nameText, s₂, hname⟩ := hname s₁
          obtain ⟨text, s₃, htext⟩ := htext err s₂
          exact Pass.cons (Round.logged h hname htext) hrest

/-- One handler that raises errors does not keep an event from the others, as long as the
errors have texts. -/
theorem dispatches_of_texts
    (hname : ∀ s, ∃ text s', Ends host (host.nameText name) s (.returned text) s')
    (htext : ∀ err s, ∃ text s', Ends host (host.errText err) s (.returned text) s')
    (hends : ∀ handler ∈ s.registered name, ∀ s', ∃ o s'', Ends host (handler args) s' o s'') :
    Dispatches host name args s :=
  (pass_of_texts hname htext hends).dispatches

end

/-- An emit calls all of its handlers and returns just if they return or raise errors that
have a text; and the calls it has made, whether it returns or not, are the first of these. -/
theorem emit_iff (host : Host ν α ε σ) (name : ν) (args : α) (s : State ν α ε σ) :
    (Dispatches host name args s ↔ Pass host name args 0 (s.registered name) s) ∧
      ∀ n e, emit host (exec host n) name args s = some e →
        e.calls <+: (s.registered name).map fun handler => (handler, args) := by
  constructor
  · constructor
    · intro h
      obtain ⟨n, e, hemit, herror, -⟩ := h
      exact ((emit_eq_some_iff (exec_keepsLists host n) s e).mp hemit).pass herror
    · exact Pass.dispatches
  · intro n e hemit
    exact ((emit_eq_some_iff (exec_keepsLists host n) s e).mp hemit).calls_initial

/-- A handler that raises ends with this error, however much fuel it is given. -/
theorem ends_raise {host : Host ν α ε σ} {err : ε} {s s' : State ν α ε σ} {o : Outcome ε}
    (h : Ends host (.raise err) s o s') : o = .raised err := by
  obtain ⟨n, h⟩ := h
  cases n with
  | zero => cases h
  | succ n =>
      cases h
      rfl

end

/-- Errors that raise another one when `tostring` is applied to them. -/
def textless : Host Str Unit Unit Unit where
  nameText := .done
  errText := fun _ => .raise ()
  calledNil := ()
  log := fun _ outside => outside

/-- Two handlers are registered, and the first one raises an error. -/
def twoHandlers : State Str Unit Unit Unit :=
  ((State.start ()).on (lit "status") fun _ => .raise ()).on (lit "status") fun _ => .done []

theorem registered_twoHandlers :
    twoHandlers.registered (lit "status") = [fun _ => .raise (), fun _ => .done []] := by
  have hedits : twoHandlers = ([.on (lit "status") fun _ => .raise (),
      .on (lit "status") fun _ => .done []] : List (Edit Str Unit Unit Unit)).foldl State.edit
        (State.start ()) := rfl
  rw [hedits, State.registered_foldl_edit]
  rfl

/-- Both handlers come to an end whenever they are called, and the second one is not called:
`emit` itself raises an error when it asks for the text of the first one's. -/
theorem emit_textless :
    (∀ handler ∈ twoHandlers.registered (lit "status"), ∀ args s,
      ∃ o s', Ends textless (handler args) s o s') ∧
    ¬ Dispatches textless (lit "status") () twoHandlers := by
  constructor
  · intro handler hmem args s
    rw [registered_twoHandlers, List.mem_pair] at hmem
    apply hmem.elim
    · intro h
      rw [h]
      exact ⟨.raised (), s, 1, rfl⟩
    · intro h
      rw [h]
      exact ⟨.returned [], s, 1, rfl⟩
  · intro h
    obtain ⟨n, e, hemit, herror, -⟩ := h
    have hpass := ((emit_eq_some_iff (exec_keepsLists textless n) _ e).mp hemit).pass herror
    rw [registered_twoHandlers] at hpass
    cases hpass with
    | cons h _ =>
        cases h with
        | returned h => cases ends_raise h
        | logged _ _ htext => cases ends_raise htext

end LuadchAnnouncer.Core.Events
