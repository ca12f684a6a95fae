import LuadchAnnouncer.Verified.Program

/-!
# Programs that stop when a reply is bad

Much of what a program guarantees about a peer rests on one habit: after an error
it performs nothing that counts any more.  `StopsOn` says so of a tree.  What then
holds while the replies are good is an invariant, and what holds behind the one bad
reply is the end of the run (`ensures_stopsOn`).

## Main results

* `ensures_stops` — a program that stops performs nothing else on its way.
* `ensures_stopsOn` — after a bad answer nothing but `P` is performed.
* `ensures_yields` — what a program yields along good answers.
* `kept_bind` — invariants of sequences.
-/

namespace LuadchAnnouncer.Verified.FailStop

open LuadchAnnouncer.Verified.Program

variable {E : Type} {R : E → Type} {ε β α γ σ : Type}

/-- The program never returns a value, and performs nothing but `P` until it ends. -/
def Stops (P : E → Prop) : Prog E R ε β α → Prop
  | .ret _ => False
  | .exit _ => True
  | .raise _ => True
  | .perform e k => P e ∧ ∀ r, Stops P (k r)

/-- Every effect satisfies `A`, and behind a bad reply the program stops, with nothing
but `P` on its way. -/
def StopsOn (A P : E → Prop) (bad : (e : E) → R e → Prop) : Prog E R ε β α → Prop
  | .ret _ => True
  | .exit _ => True
  | .raise _ => True
  | .perform e k =>
      A e ∧ ∀ r, (bad e r → Stops P (k r)) ∧ (¬ bad e r → StopsOn A P bad (k r))

variable {A P : E → Prop} {bad : (e : E) → R e → Prop}

/-- If the first part stops, the whole does: nothing of the second is reached. -/
theorem Stops.bind {p : Prog E R ε β α} (hp : Stops P p) (f : α → Prog E R ε β γ) :
    Stops P (Prog.bind p f) := by
  induction p with
  | ret a => exact hp.elim
  | exit b => trivial
  | raise err => trivial
  | perform e k ih => exact ⟨hp.1, fun r => ih r (hp.2 r)⟩

/-- Something harmless in front of a program that stops. -/
theorem stops_bind {p : Prog E R ε β α} {f : α → Prog E R ε β γ} (hp : p.Uses P)
    (hf : ∀ a, Stops P (f a)) : Stops P (Prog.bind p f) := by
  induction p with
  | ret a => exact hf a
  | exit b => trivial
  | raise err => trivial
  | perform e k ih => exact ⟨hp.1, fun r => ih r (hp.2 r)⟩

theorem Stops.uses {p : Prog E R ε β α} (hp : Stops P p) : p.Uses P := by
  induction p with
  | ret a => trivial
  | exit b => trivial
  | raise err => trivial
  | perform e k ih => exact ⟨hp.1, fun r => ih r (hp.2 r)⟩

/-- A bad answer stops the program, in whichever part it comes. -/
theorem StopsOn.bind {p : Prog E R ε β α} {f : α → Prog E R ε β γ} (hp : StopsOn A P bad p)
    (hf : ∀ a, StopsOn A P bad (f a)) : StopsOn A P bad (Prog.bind p f) := by
  induction p with
  | ret a => exact hf a
  | exit b => trivial
  | raise err => trivial
  | perform e k ih =>
      refine ⟨hp.1, fun r => ⟨fun hbad => ?_, fun hgood => ?_⟩⟩
      · exact ((hp.2 r).1 hbad).bind f
      · exact ih r ((hp.2 r).2 hgood)

/-- A program none of whose replies is bad. -/
theorem stopsOn_of_uses {A' : E → Prop} (himp : ∀ e, A' e → A e ∧ ∀ r, ¬ bad e r)
    {p : Prog E R ε β α} (hp : p.Uses A') : StopsOn A P bad p := by
  induction p with
  | ret a => trivial
  | exit b => trivial
  | raise err => trivial
  | perform e k ih =>
      have hgood := (himp e hp.1).2
      exact ⟨(himp e hp.1).1, fun r => ⟨fun hbad => absurd hbad (hgood r), fun _ => ih r (hp.2 r)⟩⟩

/-- Whatever the program returns satisfies `Q`, as long as the replies are `good`. -/
def Yields (good : (e : E) → R e → Prop) (Q : α → Prop) : Prog E R ε β α → Prop
  | .ret a => Q a
  | .exit _ => True
  | .raise _ => True
  | .perform e k => ∀ r, good e r → Yields good Q (k r)

/-- Along good answers, what the first part yields is what the second starts from. -/
theorem Yields.bind {good : (e : E) → R e → Prop} {Q : α → Prop} {Q' : γ → Prop}
    {p : Prog E R ε β α} {f : α → Prog E R ε β γ} (hp : Yields good Q p)
    (hf : ∀ a, Q a → Yields good Q' (f a)) : Yields good Q' (Prog.bind p f) := by
  induction p with
  | ret a => exact hf a hp
  | exit b => trivial
  | raise err => trivial
  | perform e k ih => exact fun r hr => ih r (hp r hr)

/-- Of a value about which nothing is said, nothing is to be shown. -/
theorem yields_true (good : (e : E) → R e → Prop) (p : Prog E R ε β α) :
    Yields good (fun _ => True) p := by
  induction p with
  | ret a => trivial
  | exit b => trivial
  | raise err => trivial
  | perform e k ih => exact fun r _ => ih r

/-- A program that returns as soon as it returns a value. -/
theorem Yields.of_stops {good : (e : E) → R e → Prop} {Q : α → Prop} {p : Prog E R ε β α}
    (hp : Stops P p) : Yields good Q p := by
  induction p with
  | ret a => exact hp.elim
  | exit b => trivial
  | raise err => trivial
  | perform e k ih => exact fun r _ => ih r (hp.2 r)

/-! ## What a run keeps -/

variable {env : σ → (e : E) → R e → σ → Prop} {I J M : σ → Prop}

/-- Where the environment gives good answers only, what a program returns is what it yields
along them. -/
theorem ensures_yields {good : (e : E) → R e → Prop} {Q : α → Prop}
    (henv : ∀ s e r s', env s e r s' → good e r) {p : Prog E R ε β α} (hp : Yields good Q p) :
    ∀ s, Ensures env p s fun o _ => ∀ a, o = .ret a → Q a := by
  induction p with
  | ret a =>
      intro s
      refine ensures_ret.mpr ⟨nofun, fun a' heq => ?_⟩
      injection heq with heq
      rw [← heq]
      exact hp
  | exit b => exact fun s => ensures_exit.mpr ⟨nofun, nofun⟩
  | raise err => exact fun s => ensures_raise.mpr ⟨nofun, nofun⟩
  | perform e k ih =>
      intro s
      exact ensures_perform.mpr ⟨nofun, fun r s₁ hr => ih r (hp r (henv s e r s₁ hr)) s₁⟩

/-- What a run has come to: the invariant `I`, or the end `J` behind a bad reply, where
the program returns nothing any more; `M` holds in between two effects that belong
together. -/
def Kept (I J M : σ → Prop) : Outcome ε β α → σ → Prop
  | .ret _, s => I s
  | .exit _, s => I s ∨ J s
  | .raise _, s => I s ∨ J s
  | .running, s => I s ∨ J s ∨ M s

/-- A program that stops keeps what its effects keep. -/
theorem ensures_stops (hkeep : ∀ s e r s', P e → J s → env s e r s' → J s')
    {p : Prog E R ε β α} (hp : Stops P p) : ∀ s, J s → Ensures env p s (Kept I J M) := by
  induction p with
  | ret a => exact hp.elim
  | exit b => exact fun s hs => ensures_exit.mpr ⟨Or.inr (Or.inl hs), Or.inr hs⟩
  | raise err => exact fun s hs => ensures_raise.mpr ⟨Or.inr (Or.inl hs), Or.inr hs⟩
  | perform e k ih =>
      intro s hs
      refine ensures_perform.mpr ⟨Or.inr (Or.inl hs), fun r s₁ hr => ?_⟩
      exact ih r (hp.2 r) s₁ (hkeep s e r s₁ hp.1 hs hr)

/-- **The rule of the habit.** -/
theorem ensures_stopsOn
    (hgood : ∀ s e r s', A e → I s → env s e r s' → ¬ bad e r → I s')
    (hbad : ∀ s e r s', A e → I s → env s e r s' → bad e r → J s')
    (hstop : ∀ s e r s', P e → J s → env s e r s' → J s')
    {p : Prog E R ε β α} (hp : StopsOn A P bad p) :
    ∀ s, I s → Ensures env p s (Kept I J M) := by
  induction p with
  | ret a => exact fun s hs => ensures_ret.mpr ⟨Or.inl hs, hs⟩
  | exit b => exact fun s hs => ensures_exit.mpr ⟨Or.inl hs, Or.inl hs⟩
  | raise err => exact fun s hs => ensures_raise.mpr ⟨Or.inl hs, Or.inl hs⟩
  | perform e k ih =>
      intro s hs
      refine ensures_perform.mpr ⟨Or.inl hs, fun r s₁ hr => ?_⟩
      by_cases h : bad e r
      · exact ensures_stops hstop ((hp.2 r).1 h) s₁ (hbad s e r s₁ hp.1 hs hr h)
      · exact ih r ((hp.2 r).2 h) s₁ (hgood s e r s₁ hp.1 hs hr h)

/-- What stands behind is only reached with the invariant. -/
theorem Kept.andThen {o : Outcome ε β α} {s : σ} {next : α → σ → Prop}
    (h : Kept I J M o s) (hnext : ∀ a, o = .ret a → I s → next a s) :
    Outcome.andThen (Kept (ε := ε) (β := β) (α := γ) I J M) next o s := by
  cases o with
  | ret a => exact hnext a rfl h
  | exit b => exact h
  | raise err => exact h
  | running => exact h

/-- An invariant that both parts keep is kept by the whole. -/
theorem kept_bind {p : Prog E R ε β α} {f : α → Prog E R ε β γ} {s : σ}
    (hp : Ensures env p s (Kept I J M))
    (hf : ∀ a s', I s' → Ensures env (f a) s' (Kept I J M)) :
    Ensures env (Prog.bind p f) s (Kept I J M) := by
  apply ensures_bind
  refine hp.mono ?_
  intro o s' h
  exact h.andThen fun a _ => hf a s'

end LuadchAnnouncer.Verified.FailStop
