/-!
# Effectful programs and the environments they run in

A program of this package is a tree: it performs an *effect*, is given a
*reply*, and goes on with what the reply selects, until it returns a value,
leaves its enclosing function early, or raises an error.  Nothing is said
here about what an effect does; that is the business of the environment the
tree is run in.

Two kinds of environment are used.

* A relation `env s e r s'` ("in state `s` the effect `e` may be answered by
  `r`, and the state is `s'` afterwards") covers every behaviour of a peer,
  a file system or a concurrent process at once.  `Exec` runs a tree in it,
  and may stop at any point: a property of every `Exec` is a property of
  every moment of every run.
* A partial function `h s e` is a scripted environment, in which a tree is
  simply evaluated by `run`.

`Ensures` is the judgment the proofs use.  Its rules follow the constructors
of the tree, `ensures_bind` cuts a program at a named stage, and
`ensures_iterate` and `ensures_foldlM` are the invariant rules for the two
kinds of loop.
-/

namespace LuadchAnnouncer.Verified.Program

/-- A program over the effects `E`, where the effect `e` is answered by an
`R e`.  `ret` is the value of the program as an expression, `exit` leaves the
function the program is the body of, `raise` is an error nobody has caught. -/
inductive Prog (E : Type) (R : E → Type) (ε β α : Type) where
  | ret (a : α)
  | exit (b : β)
  | raise (err : ε)
  | perform (e : E) (k : R e → Prog E R ε β α)

section

variable {E : Type} {R : E → Type} {ε β α γ σ : Type}

namespace Prog

/-- Sequencing: early exits and errors skip the rest. -/
def bind : Prog E R ε β α → (α → Prog E R ε β γ) → Prog E R ε β γ
  | .ret a, f => f a
  | .exit b, _ => .exit b
  | .raise err, _ => .raise err
  | .perform e k, f => .perform e (fun r => bind (k r) f)

instance : Monad (Prog E R ε β) where
  pure := .ret
  bind := bind

/-- Perform one effect and return its reply. -/
def effect (e : E) : Prog E R ε β (R e) := .perform e .ret

/-- Lift a pure computation that may raise. -/
def ofExcept : Except ε α → Prog E R ε β α
  | .ok a => .ret a
  | .error err => .raise err

/-- Repeat `body`, carrying its loop variables, `n` times.  A `while true`
loop is `iterate body n` for every `n`: the loop itself only ends through
`exit` or `raise`. -/
def iterate (body : α → Prog E R ε β α) : Nat → α → Prog E R ε β α
  | 0, a => .ret a
  | n + 1, a => bind (body a) (iterate body n)

@[simp] theorem pure_eq (a : α) :
    (pure a : Prog E R ε β α) = .ret a := rfl

@[simp] theorem bind_eq (p : Prog E R ε β α) (f : α → Prog E R ε β γ) :
    p >>= f = bind p f := rfl

@[simp] theorem ret_bind (a : α) (f : α → Prog E R ε β γ) :
    bind (.ret a) f = f a := rfl

@[simp] theorem exit_bind (b : β) (f : α → Prog E R ε β γ) :
    bind (.exit b : Prog E R ε β α) f = .exit b := rfl

@[simp] theorem raise_bind (err : ε) (f : α → Prog E R ε β γ) :
    bind (.raise err : Prog E R ε β α) f = .raise err := rfl

@[simp] theorem effect_bind (e : E) (f : R e → Prog E R ε β γ) :
    bind (effect e) f = .perform e f := rfl

@[simp] theorem perform_bind (e : E) (k : R e → Prog E R ε β α)
    (f : α → Prog E R ε β γ) :
    bind (.perform e k) f = .perform e (fun r => bind (k r) f) := rfl

theorem bind_ret (p : Prog E R ε β α) : bind p .ret = p := by
  induction p with
  | ret a => rfl
  | exit b => rfl
  | raise err => rfl
  | perform e k ih => exact congrArg (Prog.perform e) (funext ih)

/-- Sequencing is associative. -/
theorem bind_assoc {δ : Type} (p : Prog E R ε β α) (f : α → Prog E R ε β γ)
    (g : γ → Prog E R ε β δ) : bind (bind p f) g = bind p fun a => bind (f a) g := by
  induction p with
  | ret a => rfl
  | exit b => rfl
  | raise err => rfl
  | perform e k ih => exact congrArg (Prog.perform e) (funext ih)

end Prog

/-! ## Executions -/

/-- How far an execution got.  `running` is an execution observed before the
program has come to its end. -/
inductive Outcome (ε β α : Type) where
  | ret (a : α)
  | exit (b : β)
  | raise (err : ε)
  | running
  deriving DecidableEq, Repr

/-- `Exec env p s o s'`: in `env`, the program `p` started in `s` can get to
`s'` with outcome `o`.  The rule `stop` makes every moment of a run the end
of an execution. -/
inductive Exec (env : σ → (e : E) → R e → σ → Prop) :
    Prog E R ε β α → σ → Outcome ε β α → σ → Prop where
  | stop (p : Prog E R ε β α) (s : σ) : Exec env p s .running s
  | ret (a : α) (s : σ) : Exec env (.ret a) s (.ret a) s
  | exit (b : β) (s : σ) : Exec env (.exit b) s (.exit b) s
  | raise (err : ε) (s : σ) : Exec env (.raise err) s (.raise err) s
  | perform {e : E} {k : R e → Prog E R ε β α} {s s₁ s' : σ} {r : R e}
      {o : Outcome ε β α} (reply : env s e r s₁) (rest : Exec env (k r) s₁ o s') :
      Exec env (.perform e k) s o s'

/-- Every execution of `p` from `s` ends with an outcome and a state that
satisfy `Q`.  At `Outcome.running`, `Q` is an invariant of the run. -/
def Ensures (env : σ → (e : E) → R e → σ → Prop) (p : Prog E R ε β α) (s : σ)
    (Q : Outcome ε β α → σ → Prop) : Prop :=
  ∀ o s', Exec env p s o s' → Q o s'

variable {env : σ → (e : E) → R e → σ → Prop}

/-- What a returned value has to meet, before and at the return. -/
theorem ensures_ret {a : α} {s : σ} {Q : Outcome ε β α → σ → Prop} :
    Ensures env (.ret a) s Q ↔ Q .running s ∧ Q (.ret a) s := by
  constructor
  · intro h
    exact ⟨h _ _ (.stop _ _), h _ _ (.ret _ _)⟩
  · rintro ⟨hrun, hret⟩ o s' (_ | _ | _ | _ | _)
    · exact hrun
    · exact hret

/-- So it is with a `break` or an early return. -/
theorem ensures_exit {b : β} {s : σ} {Q : Outcome ε β α → σ → Prop} :
    Ensures env (.exit b) s Q ↔ Q .running s ∧ Q (.exit b) s := by
  constructor
  · intro h
    exact ⟨h _ _ (.stop _ _), h _ _ (.exit _ _)⟩
  · rintro ⟨hrun, hexit⟩ o s' (_ | _ | _ | _ | _)
    · exact hrun
    · exact hexit

/-- And with an error. -/
theorem ensures_raise {err : ε} {s : σ} {Q : Outcome ε β α → σ → Prop} :
    Ensures env (.raise err) s Q ↔ Q .running s ∧ Q (.raise err) s := by
  constructor
  · intro h
    exact ⟨h _ _ (.stop _ _), h _ _ (.raise _ _)⟩
  · rintro ⟨hrun, hraise⟩ o s' (_ | _ | _ | _ | _)
    · exact hrun
    · exact hraise

/-- The step rule: whatever the environment answers to the effect, the rest has to meet the
postcondition from there. -/
theorem ensures_perform {e : E} {k : R e → Prog E R ε β α} {s : σ}
    {Q : Outcome ε β α → σ → Prop} :
    Ensures env (.perform e k) s Q ↔
      Q .running s ∧ ∀ r s₁, env s e r s₁ → Ensures env (k r) s₁ Q := by
  constructor
  · intro h
    exact ⟨h _ _ (.stop _ _), fun r s₁ hr o s' hrest => h _ _ (.perform hr hrest)⟩
  · rintro ⟨hrun, hk⟩ o s' hexec
    cases hexec with
    | stop => exact hrun
    | perform reply rest => exact hk _ _ reply _ _ rest

theorem ensures_effect_bind {e : E} {k : R e → Prog E R ε β α} {s : σ}
    {Q : Outcome ε β α → σ → Prop} :
    Ensures env (Prog.bind (Prog.effect e) k) s Q ↔
      Q .running s ∧ ∀ r s₁, env s e r s₁ → Ensures env (k r) s₁ Q := by
  rw [Prog.effect_bind]
  exact ensures_perform

/-- An execution may always be observed where it stands. -/
theorem Ensures.running {p : Prog E R ε β α} {s : σ}
    {Q : Outcome ε β α → σ → Prop} (h : Ensures env p s Q) : Q .running s :=
  h _ _ (.stop _ _)

theorem Ensures.mono {p : Prog E R ε β α} {s : σ}
    {Q Q' : Outcome ε β α → σ → Prop} (h : Ensures env p s Q)
    (himp : ∀ o s', Q o s' → Q' o s') : Ensures env p s Q' :=
  fun o s' hexec => himp o s' (h o s' hexec)

theorem Ensures.and {p : Prog E R ε β α} {s : σ}
    {Q Q' : Outcome ε β α → σ → Prop} (h : Ensures env p s Q)
    (h' : Ensures env p s Q') : Ensures env p s (fun o s' => Q o s' ∧ Q' o s') :=
  fun o s' hexec => ⟨h o s' hexec, h' o s' hexec⟩

/-- What is left to ensure once the first half of a sequence has come to an
outcome. -/
def Outcome.andThen (Q : Outcome ε β γ → σ → Prop) (next : α → σ → Prop) :
    Outcome ε β α → σ → Prop
  | .ret a, s => next a s
  | .exit b, s => Q (.exit b) s
  | .raise err, s => Q (.raise err) s
  | .running, s => Q .running s

@[simp] theorem Outcome.andThen_ret (Q : Outcome ε β γ → σ → Prop)
    (next : α → σ → Prop) (a : α) (s : σ) :
    Outcome.andThen Q next (.ret a) s = next a s := rfl

@[simp] theorem Outcome.andThen_exit (Q : Outcome ε β γ → σ → Prop)
    (next : α → σ → Prop) (b : β) (s : σ) :
    Outcome.andThen Q next (.exit b) s = Q (.exit b) s := rfl

@[simp] theorem Outcome.andThen_raise (Q : Outcome ε β γ → σ → Prop)
    (next : α → σ → Prop) (err : ε) (s : σ) :
    Outcome.andThen Q next (.raise err) s = Q (.raise err) s := rfl

@[simp] theorem Outcome.andThen_running (Q : Outcome ε β γ → σ → Prop)
    (next : α → σ → Prop) (s : σ) :
    Outcome.andThen Q next .running s = Q .running s := rfl

/-- **The sequencing rule.**  A sequence is verified by verifying its first
half against what its second half needs. -/
theorem ensures_bind {p : Prog E R ε β α} {f : α → Prog E R ε β γ} {s : σ}
    {Q : Outcome ε β γ → σ → Prop}
    (h : Ensures env p s (Outcome.andThen Q fun a s₁ => Ensures env (f a) s₁ Q)) :
    Ensures env (Prog.bind p f) s Q := by
  induction p generalizing s with
  | ret a => exact (ensures_ret.mp h).2
  | exit b =>
      obtain ⟨hrun, hexit⟩ := ensures_exit.mp h
      exact ensures_exit.mpr ⟨hrun, hexit⟩
  | raise err =>
      obtain ⟨hrun, hraise⟩ := ensures_raise.mp h
      exact ensures_raise.mpr ⟨hrun, hraise⟩
  | perform e k ih =>
      obtain ⟨hrun, hk⟩ := ensures_perform.mp h
      exact ensures_perform.mpr ⟨hrun, fun r s₁ hr => ih r (hk r s₁ hr)⟩

/-- The invariant rule for a `while true` loop. -/
theorem ensures_iterate {body : α → Prog E R ε β α} {I : α → σ → Prop}
    {Q : Outcome ε β α → σ → Prop} (hrun : ∀ a s, I a s → Q .running s)
    (hret : ∀ a s, I a s → Q (.ret a) s)
    (hbody : ∀ a s, I a s → Ensures env (body a) s (Outcome.andThen Q I)) :
    ∀ (n : Nat) (a : α) (s : σ), I a s → Ensures env (Prog.iterate body n a) s Q := by
  intro n
  induction n with
  | zero =>
      intro a s hI
      exact ensures_ret.mpr ⟨hrun a s hI, hret a s hI⟩
  | succ n ih =>
      intro a s hI
      refine ensures_bind ((hbody a s hI).mono ?_)
      rintro (a' | b | err | _) s' h
      · exact ih a' s' h
      · exact h
      · exact h
      · exact h

/-- The invariant rule for a loop over a list, with the loop's accumulator in
the invariant. -/
theorem ensures_foldlM {ι : Type} {body : α → ι → Prog E R ε β α}
    {I : List ι → α → σ → Prop} {Q : Outcome ε β α → σ → Prop}
    (hrun : ∀ xs a s, I xs a s → Q .running s)
    (hret : ∀ a s, I [] a s → Q (.ret a) s)
    (hbody : ∀ x xs a s, I (x :: xs) a s →
      Ensures env (body a x) s (Outcome.andThen Q (I xs))) :
    ∀ (xs : List ι) (a : α) (s : σ), I xs a s →
      Ensures env (xs.foldlM body a) s Q := by
  intro xs
  induction xs with
  | nil =>
      intro a s hI
      exact ensures_ret.mpr ⟨hrun [] a s hI, hret a s hI⟩
  | cons x xs ih =>
      intro a s hI
      rw [List.foldlM_cons]
      refine ensures_bind ((hbody x xs a s hI).mono ?_)
      rintro (a' | b | err | _) s' h
      · exact ih a' s' h
      · exact h
      · exact h
      · exact h

/-! ## The effects a program uses -/

namespace Prog

/-- Every effect the program may perform satisfies `P`. -/
def Uses (P : E → Prop) : Prog E R ε β α → Prop
  | .ret _ => True
  | .exit _ => True
  | .raise _ => True
  | .perform e k => P e ∧ ∀ r, Uses P (k r)

theorem uses_effect {P : E → Prop} {e : E} (h : P e) :
    Uses P (effect e : Prog E R ε β (R e)) := ⟨h, fun _ => trivial⟩

/-- Both parts use what they use. -/
theorem Uses.bind {P : E → Prop} {p : Prog E R ε β α} {f : α → Prog E R ε β γ}
    (hp : Uses P p) (hf : ∀ a, Uses P (f a)) : Uses P (Prog.bind p f) := by
  induction p with
  | ret a => exact hf a
  | exit b => trivial
  | raise err => trivial
  | perform e k ih => exact ⟨hp.1, fun r => ih r (hp.2 r)⟩

/-- A program that uses little uses no more than that. -/
theorem Uses.mono {P P' : E → Prop} (himp : ∀ e, P e → P' e) {p : Prog E R ε β α}
    (h : Uses P p) : Uses P' p := by
  induction p with
  | ret a => trivial
  | exit b => trivial
  | raise err => trivial
  | perform e k ih => exact ⟨himp e h.1, fun r => ih r (h.2 r)⟩

/-- A loop uses what its body uses, by induction on the list. -/
theorem uses_foldlM {ι : Type} {P : E → Prop} {body : α → ι → Prog E R ε β α}
    (hbody : ∀ a x, Uses P (body a x)) :
    ∀ (xs : List ι) (a : α), Uses P (xs.foldlM body a) := by
  intro xs
  induction xs with
  | nil => exact fun a => trivial
  | cons x xs ih =>
      intro a
      rw [List.foldlM_cons]
      exact (hbody a x).bind ih

theorem uses_true (p : Prog E R ε β α) : Uses (fun _ => True) p := by
  induction p with
  | ret a => trivial
  | exit b => trivial
  | raise err => trivial
  | perform e k ih => exact ⟨trivial, ih⟩

theorem uses_ofExcept (P : E → Prop) (x : Except ε α) :
    Uses P (ofExcept x : Prog E R ε β α) := by
  cases x with
  | ok a => trivial
  | error err => trivial

/-- The program neither leaves the function it is a part of nor raises. -/
def Straight : Prog E R ε β α → Prop
  | .ret _ => True
  | .exit _ => False
  | .raise _ => False
  | .perform _ k => ∀ r, Straight (k r)

theorem straight_effect (e : E) : Straight (effect e : Prog E R ε β (R e)) := fun _ => trivial

/-- Two parts that run through run through one after the other. -/
theorem Straight.bind {p : Prog E R ε β α} {f : α → Prog E R ε β γ} (hp : Straight p)
    (hf : ∀ a, Straight (f a)) : Straight (Prog.bind p f) := by
  induction p with
  | ret a => exact hf a
  | exit b => exact hp.elim
  | raise err => exact hp.elim
  | perform e k ih => exact fun r => ih r (hp r)

end Prog

/-- **The frame rule.**  What the effects of a program keep, the program
keeps, at every moment and whatever its outcome. -/
theorem ensures_uses {P : E → Prop} {I : σ → Prop}
    (hkeep : ∀ s e r s', P e → I s → env s e r s' → I s') {p : Prog E R ε β α}
    (hp : p.Uses P) : ∀ s, I s → Ensures env p s fun _ s' => I s' := by
  induction p with
  | ret a => exact fun s hs => ensures_ret.mpr ⟨hs, hs⟩
  | exit b => exact fun s hs => ensures_exit.mpr ⟨hs, hs⟩
  | raise err => exact fun s hs => ensures_raise.mpr ⟨hs, hs⟩
  | perform e k ih =>
      intro s hs
      refine ensures_perform.mpr ⟨hs, fun r s₁ hr => ?_⟩
      exact ih r (hp.2 r) s₁ (hkeep s e r s₁ hp.1 hs hr)

/-! ## Stages

A longer program is verified stage by stage: `Outcome.andThen Q Next` asks of a
stage that it leaves `Next` to what stands behind it, and that whatever ends
the whole program in it satisfies `Q`. -/

section

variable {δ : Type} {Q : Outcome ε β δ → σ → Prop}

/-- A stage that has come to its outcome, as a part of a longer stage. -/
theorem Outcome.andThen_stage {o : Outcome ε β α} {s : σ} {Middle Middle' : α → σ → Prop}
    {Next : γ → σ → Prop} (h : Outcome.andThen Q Middle o s)
    (himp : ∀ a, Middle a s → Middle' a s) :
    Outcome.andThen (Outcome.andThen Q Next) Middle' o s := by
  cases o with
  | ret a => exact himp a h
  | exit b => exact h
  | raise err => exact h
  | running => exact h

/-- The rule of sequencing: the first part ends in `Middle`, and from there the second in
`Next`. -/
theorem ensures_stage_bind {p : Prog E R ε β α} {f : α → Prog E R ε β γ} {s : σ}
    {Middle : α → σ → Prop} {Next : γ → σ → Prop}
    (hp : Ensures env p s (Outcome.andThen Q Middle))
    (hf : ∀ a s', Middle a s' → Ensures env (f a) s' (Outcome.andThen Q Next)) :
    Ensures env (Prog.bind p f) s (Outcome.andThen Q Next) := by
  apply ensures_bind
  refine hp.mono ?_
  intro o s' h
  exact Outcome.andThen_stage h fun a => hf a s'

theorem ensures_stage_ret {a : α} {s : σ} {Next : α → σ → Prop} (hrun : Q .running s)
    (h : Next a s) : Ensures env (.ret a : Prog E R ε β α) s (Outcome.andThen Q Next) :=
  ensures_ret.mpr ⟨hrun, h⟩

/-- A stage of effects that keep `I`, which is all that is asked for on the
way. -/
theorem ensures_stage_uses {P : E → Prop} {I : σ → Prop}
    (hkeep : ∀ s e r s', P e → I s → env s e r s' → I s') (hQ : ∀ o s, I s → Q o s)
    {p : Prog E R ε β α} (hp : p.Uses P) {s : σ} (h : I s) :
    Ensures env p s (Outcome.andThen Q fun _ => I) := by
  have hall : Ensures env p s fun _ s' => I s' := ensures_uses hkeep hp s h
  refine hall.mono ?_
  intro o s' hs'
  cases o with
  | ret a => exact hs'
  | exit b => exact hQ _ s' hs'
  | raise err => exact hQ _ s' hs'
  | running => exact hQ _ s' hs'

/-- A straight stage of such effects asks nothing of what holds where the
function is left. -/
theorem ensures_stage_straight {P : E → Prop} {I : σ → Prop}
    (hkeep : ∀ s e r s', P e → I s → env s e r s' → I s') (hrun : ∀ s, I s → Q .running s)
    {p : Prog E R ε β α} (hp : p.Uses P) (hstraight : p.Straight) :
    ∀ s, I s → Ensures env p s (Outcome.andThen Q fun _ => I) := by
  induction p with
  | ret a => exact fun s hs => ensures_ret.mpr ⟨hrun s hs, hs⟩
  | exit b => exact hstraight.elim
  | raise err => exact hstraight.elim
  | perform e k ih =>
      intro s hs
      refine ensures_perform.mpr ⟨hrun s hs, ?_⟩
      intro r s₁ hr
      exact ih r (hp.2 r) (hstraight r) s₁ (hkeep s e r s₁ hp.1 hs hr)

/-- A loop whose body is a stage that keeps `I`. -/
theorem ensures_stage_iterate {body : α → Prog E R ε β α} {I : α → σ → Prop}
    (hrun : ∀ a s, I a s → Q .running s)
    (hbody : ∀ a s, I a s → Ensures env (body a) s (Outcome.andThen Q I)) (n : Nat) (a : α)
    {s : σ} (h : I a s) : Ensures env (Prog.iterate body n a) s (Outcome.andThen Q I) := by
  have hstep : ∀ a s, I a s →
      Ensures env (body a) s (Outcome.andThen (Outcome.andThen Q I) I) := by
    intro a' s' hI
    exact (hbody a' s' hI).mono fun _ _ hs => Outcome.andThen_stage hs fun _ ha => ha
  exact ensures_iterate hrun (fun _ _ hI => hI) hstep n a s h

/-- The rule of a loop over a list, with an invariant about what is left of the list. -/
theorem ensures_stage_foldlM {ι : Type} {body : α → ι → Prog E R ε β α}
    {I : List ι → α → σ → Prop} (hrun : ∀ xs a s, I xs a s → Q .running s)
    (hbody : ∀ x xs a s, I (x :: xs) a s →
      Ensures env (body a x) s (Outcome.andThen Q (I xs))) {xs : List ι} {a : α} {s : σ}
    (h : I xs a s) : Ensures env (xs.foldlM body a) s (Outcome.andThen Q (I [])) := by
  have hstep : ∀ x xs a s, I (x :: xs) a s →
      Ensures env (body a x) s (Outcome.andThen (Outcome.andThen Q (I [])) (I xs)) := by
    intro x xs' a' s' hI
    exact (hbody x xs' a' s' hI).mono fun _ _ hs => Outcome.andThen_stage hs fun _ ha => ha
  exact ensures_foldlM hrun (fun _ _ hI => hI) hstep xs a s h

/-- The rule of consequence. -/
theorem ensures_stage_mono {p : Prog E R ε β α} {s : σ} {Next Next' : α → σ → Prop}
    (h : Ensures env p s (Outcome.andThen Q Next)) (himp : ∀ a s, Next a s → Next' a s) :
    Ensures env p s (Outcome.andThen Q Next') := by
  refine h.mono ?_
  intro o s' hs'
  cases o with
  | ret a => exact himp a s' hs'
  | exit b => exact hs'
  | raise err => exact hs'
  | running => exact hs'

/-- The last stage ends the program. -/
theorem ensures_of_stage {p : Prog E R ε β δ} {s : σ} {Next : δ → σ → Prop}
    (h : Ensures env p s (Outcome.andThen Q Next)) (hret : ∀ a s, Next a s → Q (.ret a) s) :
    Ensures env p s Q := by
  refine h.mono ?_
  intro o s' hs'
  cases o with
  | ret a => exact hret a s' hs'
  | exit b => exact hs'
  | raise err => exact hs'
  | running => exact hs'

end

/-! ## Accounts

An environment may do nothing but keep an account of the effects and their
replies, where any reply will do that satisfies `ok`. -/

section

variable {observe : σ → (e : E) → R e → σ} {ok : (e : E) → R e → Prop} {δ : Type}
  {P : Outcome ε β δ → σ → Prop} {s : σ}

def Observed (observe : σ → (e : E) → R e → σ) (ok : (e : E) → R e → Prop) (s : σ) (e : E)
    (r : R e) (s' : σ) : Prop := ok e r ∧ s' = observe s e r

/-- `P`, once the program has come to its end. -/
def AtEnd (P : Outcome ε β δ → σ → Prop) (o : Outcome ε β δ) (s : σ) : Prop :=
  o ≠ .running → P o s

theorem atEnd_running (s : σ) : AtEnd P .running s := fun h => absurd rfl h

theorem observed_ret {a : α} {Next : α → σ → Prop} (h : Next a s) :
    Ensures (Observed observe ok) (.ret a) s (Outcome.andThen (AtEnd P) Next) :=
  ensures_stage_ret (atEnd_running s) h

theorem observed_exit {b : β} {Next : α → σ → Prop} (h : P (.exit b) s) :
    Ensures (Observed observe ok) (.exit b) s (Outcome.andThen (AtEnd P) Next) :=
  ensures_exit.mpr ⟨atEnd_running s, fun _ => h⟩

theorem observed_raise {err : ε} {Next : α → σ → Prop} (h : P (.raise err) s) :
    Ensures (Observed observe ok) (.raise err) s (Outcome.andThen (AtEnd P) Next) :=
  ensures_raise.mpr ⟨atEnd_running s, fun _ => h⟩

/-- An effect is performed, and its reply goes into the account. -/
theorem observed_effect {e : E} {k : R e → Prog E R ε β α} {Next : α → σ → Prop}
    (h : ∀ r, ok e r → Ensures (Observed observe ok) (k r) (observe s e r)
      (Outcome.andThen (AtEnd P) Next)) :
    Ensures (Observed observe ok) (Prog.bind (Prog.effect e) k) s
      (Outcome.andThen (AtEnd P) Next) := by
  refine ensures_effect_bind.mpr ⟨atEnd_running s, ?_⟩
  rintro r _ ⟨hok, rfl⟩
  exact h r hok

/-- The same at the end of a stage. -/
theorem observed_last {e : E} {Next : R e → σ → Prop}
    (h : ∀ r, ok e r → Next r (observe s e r)) :
    Ensures (Observed observe ok) (Prog.effect e : Prog E R ε β (R e)) s
      (Outcome.andThen (AtEnd P) Next) := by
  refine ensures_perform.mpr ⟨atEnd_running s, ?_⟩
  rintro r _ ⟨hok, rfl⟩
  exact observed_ret (h r hok)

/-- One stage behind another, when the first leaves a known account. -/
theorem observed_bind {p : Prog E R ε β α} {k : α → Prog E R ε β γ} {t : σ}
    {Next : γ → σ → Prop}
    (hp : Ensures (Observed observe ok) p s (Outcome.andThen (AtEnd P) fun _ s' => s' = t))
    (hk : ∀ a, Ensures (Observed observe ok) (k a) t (Outcome.andThen (AtEnd P) Next)) :
    Ensures (Observed observe ok) (Prog.bind p k) s (Outcome.andThen (AtEnd P) Next) := by
  refine ensures_stage_bind hp ?_
  rintro a s' rfl
  exact hk a

/-- An effect that does not show in the account. -/
def Unseen (observe : σ → (e : E) → R e → σ) (e : E) : Prop := ∀ s r, observe s e r = s

/-- A program that does not show in the account and goes straight on. -/
structure Plain (observe : σ → (e : E) → R e → σ) (p : Prog E R ε β α) : Prop where
  uses : p.Uses (Unseen observe)
  straight : p.Straight

theorem plain_ret (a : α) : Plain observe (.ret a : Prog E R ε β α) := ⟨trivial, trivial⟩

theorem plain_effect {e : E} (he : Unseen observe e) :
    Plain observe (Prog.effect e : Prog E R ε β (R e)) :=
  ⟨Prog.uses_effect he, Prog.straight_effect e⟩

namespace Plain

theorem bind {p : Prog E R ε β α} {f : α → Prog E R ε β γ} (hp : Plain observe p)
    (hf : ∀ a, Plain observe (f a)) : Plain observe (Prog.bind p f) where
  uses := hp.uses.bind fun a => (hf a).uses
  straight := hp.straight.bind fun a => (hf a).straight

/-- A plain program leaves the account as it is. -/
theorem stage {p : Prog E R ε β α} (hp : Plain observe p) :
    Ensures (Observed observe ok) p s (Outcome.andThen (AtEnd P) fun _ s' => s' = s) := by
  have hkeep : ∀ (s₁ : σ) (e : E) (r : R e) (s₂ : σ), Unseen observe e → s₁ = s →
      Observed observe ok s₁ e r s₂ → s₂ = s := by
    rintro s₁ e r s₂ he rfl ⟨-, rfl⟩
    exact he s₁ r
  exact ensures_stage_straight hkeep (fun s _ => atEnd_running s) hp.uses hp.straight s rfl

/-- A plain program before the rest of a stage. -/
theorem before {p : Prog E R ε β α} {k : α → Prog E R ε β γ} {Next : γ → σ → Prop}
    (hp : Plain observe p)
    (hk : ∀ a, Ensures (Observed observe ok) (k a) s (Outcome.andThen (AtEnd P) Next)) :
    Ensures (Observed observe ok) (Prog.bind p k) s (Outcome.andThen (AtEnd P) Next) :=
  observed_bind hp.stage hk

end Plain

end

/-- An execution, seen by an environment that sees less. -/
theorem Exec.view {τ : Type} (view : σ → τ) {env' : τ → (e : E) → R e → τ → Prop}
    (hview : ∀ s e r s', env s e r s' → env' (view s) e r (view s')) {p : Prog E R ε β α}
    {s s' : σ} {o : Outcome ε β α} (h : Exec env p s o s') :
    Exec env' p (view s) o (view s') := by
  induction h with
  | stop p s => exact .stop p _
  | ret a s => exact .ret a _
  | exit b s => exact .exit b _
  | raise err s => exact .raise err _
  | perform reply _ ih => exact .perform (hview _ _ _ _ reply) ih

/-! ## Scripted environments -/

/-- Evaluate a program against a script.  Where the script has no answer the
program is left running. -/
def Prog.run (h : σ → (e : E) → Option (R e × σ)) :
    Prog E R ε β α → σ → Outcome ε β α × σ
  | .ret a, s => (.ret a, s)
  | .exit b, s => (.exit b, s)
  | .raise err, s => (.raise err, s)
  | .perform e k, s =>
      match h s e with
      | none => (.running, s)
      | some (r, s') => Prog.run h (k r) s'

/-- The program that is left, and the state, where the script has no answer. -/
def Prog.advance (h : σ → (e : E) → Option (R e × σ)) :
    Prog E R ε β α → σ → Prog E R ε β α × σ
  | .perform e k, s =>
      match h s e with
      | none => (.perform e k, s)
      | some (r, s') => Prog.advance h (k r) s'
  | p, s => (p, s)

/-- Running against a script is an execution in every environment that allows
what the script does, seen through `view`. -/
theorem exec_run_view {τ : Type} (h : σ → (e : E) → Option (R e × σ)) (view : σ → τ)
    {env : τ → (e : E) → R e → τ → Prop}
    (hallowed : ∀ s e r s', h s e = some (r, s') → env (view s) e r (view s'))
    (p : Prog E R ε β α) :
    ∀ s : σ, Exec env p (view s) (p.run h s).1 (view (p.run h s).2) := by
  induction p with
  | ret a => exact fun s => .ret a _
  | exit b => exact fun s => .exit b _
  | raise err => exact fun s => .raise err _
  | perform e k ih =>
      intro s
      cases hs : h s e with
      | none =>
          simp only [Prog.run, hs]
          exact .stop _ _
      | some reply =>
          obtain ⟨r, s₁⟩ := reply
          simp only [Prog.run, hs]
          exact .perform (hallowed s e r s₁ hs) (ih r s₁)

/-- An evaluation goes through the first part and then through the second, where there is
one. -/
theorem run_bind (h : σ → (e : E) → Option (R e × σ)) (p : Prog E R ε β α)
    (f : α → Prog E R ε β γ) : ∀ s : σ,
    (Prog.bind p f).run h s =
      match p.run h s with
      | (.ret a, s') => (f a).run h s'
      | (.exit b, s') => (.exit b, s')
      | (.raise err, s') => (.raise err, s')
      | (.running, s') => (.running, s') := by
  induction p with
  | ret a => intro s; rfl
  | exit b => intro s; rfl
  | raise err => intro s; rfl
  | perform e k ih =>
      intro s
      rw [Prog.perform_bind]
      simp only [Prog.run]
      cases hs : h s e with
      | none => rfl
      | some reply => exact ih reply.1 reply.2

end

end LuadchAnnouncer.Verified.Program
