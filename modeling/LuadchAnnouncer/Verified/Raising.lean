import Mathlib.Data.List.Basic

/-!
# Computations that may raise

`Except ε α` is a value or an error nobody has caught yet.  Two questions are
asked about such a computation: what is true of its value *when* it returns,
and *whether* it returns.  The lemmas below take the first one through a
sequence, and the second one through a sequence and through a loop whose
steps fail independently of what the loop has accumulated.
-/

namespace LuadchAnnouncer.Verified.Raising

variable {ε α β ι : Type}

/-- A sequence returns when both halves do. -/
theorem bind_eq_ok {x : Except ε α} {f : α → Except ε β} {b : β} :
    x >>= f = .ok b ↔ ∃ a, x = .ok a ∧ f a = .ok b := by
  cases x with
  | error err => simp [bind, Except.bind]
  | ok a => simp [bind, Except.bind]

/-- A function of the value changes the value only. -/
theorem map_eq_ok {x : Except ε α} {f : α → β} {b : β} :
    f <$> x = .ok b ↔ ∃ a, x = .ok a ∧ f a = b := by
  cases x with
  | error err => simp [Functor.map, Except.map]
  | ok a => simp [Functor.map, Except.map]

@[simp] theorem pure_eq_ok {a b : α} : (pure a : Except ε α) = .ok b ↔ a = b := by
  simp [pure, Except.pure]

/-- The computation returns. -/
def Returns (x : Except ε α) : Prop := ∃ a, x = .ok a

@[simp] theorem returns_ok (a : α) : Returns (.ok a : Except ε α) := ⟨a, rfl⟩

@[simp] theorem not_returns_error (err : ε) : ¬ Returns (.error err : Except ε α) := by
  rintro ⟨a, ⟨⟩⟩

/-- A computation in two parts returns if the first does, and the second from its value. -/
theorem returns_bind_iff {x : Except ε α} {f : α → Except ε β} :
    Returns (x >>= f) ↔ ∃ a, x = .ok a ∧ Returns (f a) := by
  constructor
  · rintro ⟨b, h⟩
    obtain ⟨a, ha, hb⟩ := bind_eq_ok.mp h
    exact ⟨a, ha, b, hb⟩
  · rintro ⟨a, ha, b, hb⟩
    exact ⟨b, bind_eq_ok.mpr ⟨a, ha, hb⟩⟩

/-- Where it is known, from the first half, what the second half needs. -/
theorem returns_bind_iff_and {x : Except ε α} {f : α → Except ε β} {P : Prop}
    (h : ∀ a, x = .ok a → (Returns (f a) ↔ P)) : Returns (x >>= f) ↔ Returns x ∧ P := by
  rw [returns_bind_iff]
  constructor
  · rintro ⟨a, ha, hf⟩
    exact ⟨⟨a, ha⟩, (h a ha).mp hf⟩
  · rintro ⟨⟨a, ha⟩, hP⟩
    exact ⟨a, ha, (h a ha).mpr hP⟩

/-- A second half that never fails adds nothing. -/
theorem returns_bind_iff_left {x : Except ε α} {f : α → Except ε β}
    (h : ∀ a, Returns (f a)) : Returns (x >>= f) ↔ Returns x := by
  rw [returns_bind_iff_and fun a _ => iff_true_intro (h a), and_true]

theorem returns_map_iff {x : Except ε α} {f : α → β} : Returns (f <$> x) ↔ Returns x := by
  cases x with
  | error err => simp [Functor.map, Except.map]
  | ok a => simp [Functor.map, Except.map]

/-- Whether a loop returns, when each step fails or not whatever has been
accumulated before it. -/
theorem returns_foldlM_iff (body : α → ι → Except ε α) {P : ι → Prop}
    (hbody : ∀ x a, Returns (body a x) ↔ P x) :
    ∀ (xs : List ι) (a : α), Returns (xs.foldlM body a) ↔ ∀ x ∈ xs, P x := by
  intro xs
  induction xs with
  | nil =>
      intro a
      simp only [List.foldlM_nil, List.not_mem_nil, false_imp_iff, implies_true, iff_true]
      exact returns_ok a
  | cons x xs ih =>
      intro a
      rw [List.foldlM_cons, returns_bind_iff, List.forall_mem_cons, ← hbody x a]
      constructor
      · rintro ⟨a', ha', hrest⟩
        exact ⟨⟨a', ha'⟩, (ih a').mp hrest⟩
      · rintro ⟨⟨a', ha'⟩, hrest⟩
        exact ⟨a', ha', (ih a').mpr hrest⟩

end LuadchAnnouncer.Verified.Raising
