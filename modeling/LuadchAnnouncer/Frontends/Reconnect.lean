import Mathlib.Logic.Relation
import LuadchAnnouncer.Core.Net

/-!
# The reconnect loop

`frontends/cli/main.lua` and `frontends/gui/spawned_worker.lua` end in the same
loop: `net.loop` is called again and again, with a pause of `cfg.sleeptime`
seconds between two sessions, until it returns `true`.  An error it raises ends
the process.

The loop is given as a transition system, one step an effect, so that a worker
can be run beside the GUI that watches it.  `σ` is whatever a step acts on, and
`back` is what happens to it when a session is over.
-/

namespace LuadchAnnouncer.Frontends.Reconnect

open LuadchAnnouncer.Verified.Program
open LuadchAnnouncer.Verified.LuaValue
open LuadchAnnouncer.Core.Net

/-- Where a worker stands: in a session, with what is left of it; between two
sessions; or at its end. -/
inductive Phase where
  | session (rest : Act Unit)
  | pause
  | gone

def Phase.isGone : Phase → Bool
  | .gone => true
  | _ => false

/-- What others can see of a step. -/
inductive Label where
  | did (e : Eff)
  | back

section

variable {σ : Type}

/-- One step of a worker.  A session gets the fuel the environment likes. -/
inductive Moves (env : σ → (e : Eff) → Reply e → σ → Prop) (back : σ → σ)
    (settings : Settings) : Phase × σ → Label → Phase × σ → Prop where
  | perform {e : Eff} {k : Reply e → Act Unit} {s s' : σ} {reply : Reply e}
      (h : env s e reply s') :
      Moves env back settings (.session (.perform e k), s) (.did e) (.session (k reply), s')
  | failed (s : σ) : Moves env back settings (.session (.exit false), s) .back (.pause, back s)
  | terminated (s : σ) :
      Moves env back settings (.session (.exit true), s) .back (.gone, back s)
  | raised (err : LuaError) (s : σ) :
      Moves env back settings (.session (.raise err), s) .back (.gone, back s)
  | again {s s' : σ} {reply : Reply (.sleep settings.sleep)} (fuel : Nat)
      (h : env s (.sleep settings.sleep) reply s') :
      Moves env back settings (.pause, s) (.did (.sleep settings.sleep))
        (.session (loop settings fuel), s')

/-- Any number of steps. -/
def Runs (env : σ → (e : Eff) → Reply e → σ → Prop) (back : σ → σ) (settings : Settings) :
    Phase × σ → Phase × σ → Prop :=
  Relation.ReflTransGen fun w w' => ∃ label, Moves env back settings w label w'

/-- What a program can do, a session with that program left can do. -/
theorem runs_of_exec {env : σ → (e : Eff) → Reply e → σ → Prop} {back : σ → σ}
    {settings : Settings} {p : Act Unit} {s s' : σ} {o : Outcome LuaError Bool Unit}
    (h : Exec env p s o s') :
    ∃ rest, Runs env back settings (.session p, s) (.session rest, s') := by
  induction h with
  | stop p s => exact ⟨p, .refl⟩
  | ret a s => exact ⟨_, .refl⟩
  | exit b s => exact ⟨_, .refl⟩
  | raise err s => exact ⟨_, .refl⟩
  | perform reply _ ih =>
      obtain ⟨rest, hrest⟩ := ih
      exact ⟨rest, .head ⟨_, .perform reply⟩ hrest⟩

/-- What is to be shown of a session so that `Between` holds whenever no
session is going on and `Always` at every moment. -/
structure Contract (env : σ → (e : Eff) → Reply e → σ → Prop) (back : σ → σ)
    (settings : Settings) (Between Always : σ → Prop) : Prop where
  session : ∀ fuel s, Between s →
    Ensures env (loop settings fuel) s fun o s' => Always s' ∧
      ((∃ b, o = .exit b) → Between (back s'))
  raised : ∀ s, Always s → Always (back s)
  pause : ∀ s reply s', Between s → env s (.sleep settings.sleep) reply s' → Between s'
  always : ∀ s, Between s → Always s

variable {env : σ → (e : Eff) → Reply e → σ → Prop} {back : σ → σ} {settings : Settings}
  {Between Always : σ → Prop}

/-- A worker that is within its contract. -/
def Within (env : σ → (e : Eff) → Reply e → σ → Prop) (back : σ → σ)
    (Between Always : σ → Prop) : Phase × σ → Prop
  | (.session rest, s) =>
      Ensures env rest s fun o s' => Always s' ∧ ((∃ b, o = .exit b) → Between (back s'))
  | (.pause, s) => Between s
  | (.gone, s) => Always s

namespace Contract

variable (h : Contract env back settings Between Always)

include h

/-- What holds between two sessions holds at every moment, too. -/
theorem always_of_within {w : Phase × σ} (hw : Within env back Between Always w) :
    Always w.2 := by
  obtain ⟨phase, s⟩ := w
  cases phase with
  | session rest => exact (Ensures.running hw).1
  | pause => exact h.always s hw
  | gone => exact hw

/-- A step of a worker keeps it within its contract, and so whole runs do. -/
theorem step {w w' : Phase × σ} {label : Label} (hw : Within env back Between Always w)
    (hmove : Moves env back settings w label w') : Within env back Between Always w' := by
  cases hmove with
  | perform hreply => exact (ensures_perform.mp hw).2 _ _ hreply
  | failed s => exact (ensures_exit.mp hw).2.2 ⟨false, rfl⟩
  | terminated s => exact h.always _ ((ensures_exit.mp hw).2.2 ⟨true, rfl⟩)
  | raised err s => exact h.raised _ (ensures_raise.mp hw).2.1
  | again fuel hreply => exact h.session fuel _ (h.pause _ _ _ hw hreply)

/-- **The reconnect loop keeps the contract**, over any number of sessions. -/
theorem runs {w w' : Phase × σ} (hw : Within env back Between Always w)
    (hrun : Runs env back settings w w') : Within env back Between Always w' := by
  induction hrun with
  | refl => exact hw
  | tail _ hstep ih =>
      obtain ⟨label, hmove⟩ := hstep
      exact h.step ih hmove

end Contract

end

end LuadchAnnouncer.Frontends.Reconnect
