/-!
# Runs of a transition relation

A run is the list of its steps, each an operation with the state behind it.
`IsRun.invariant` is the induction over a run, and `IsRun.forall_iff` is what it
gives where one knows of a step exactly when it keeps a property: the property
holds throughout a run if and only if every step of it was one of these.
-/

namespace LuadchAnnouncer.Verified.Runs

section

variable {σ ι : Type} {step : σ → ι → σ → Prop}

/-- These operations lead from the state through the states behind them. -/
def IsRun (step : σ → ι → σ → Prop) : σ → List (ι × σ) → Prop
  | _, [] => True
  | s, (i, s') :: rest => step s i s' ∧ IsRun step s' rest

/-- The operations of a run, each with the state before it. -/
def sources : σ → List (ι × σ) → List (σ × ι)
  | _, [] => []
  | s, (i, s') :: rest => (s, i) :: sources s' rest

/-- What every step keeps holds throughout. -/
theorem IsRun.invariant {I : σ → Prop} (hstep : ∀ s i s', I s → step s i s' → I s')
    {run : List (ι × σ)} : ∀ {s : σ}, IsRun step s run → I s → ∀ e ∈ run, I e.2 := by
  induction run with
  | nil => exact fun _ _ e he => absurd he List.not_mem_nil
  | cons e rest ih =>
      intro s hrun hs e' he'
      have hnext : I e.2 := hstep s e.1 e.2 hs hrun.1
      rcases List.mem_cons.mp he' with rfl | he'
      · exact hnext
      · exact ih hrun.2 hnext e' he'

/-- What holds of all the states behind the steps can be had with the steps. -/
theorem IsRun.and_target {P : σ → Prop} {run : List (ι × σ)} :
    ∀ {s : σ}, IsRun step s run → (∀ e ∈ run, P e.2) →
      IsRun (fun s i s' => step s i s' ∧ P s') s run := by
  induction run with
  | nil => exact fun _ _ => trivial
  | cons e rest ih =>
      intro s hrun hP
      rw [List.forall_mem_cons] at hP
      exact ⟨⟨hrun.1, hP.1⟩, ih hrun.2 hP.2⟩

/-- **Throughout a run, exactly.**  Where `I` is kept by every step and `P` by
those that meet `C`, and by no other, `P` holds throughout a run if and only if
all of its steps meet `C`. -/
theorem IsRun.forall_iff {I P : σ → Prop} {C : σ → ι → Prop}
    (hkeep : ∀ s i s', I s → step s i s' → I s')
    (hstep : ∀ s i s', I s → P s → step s i s' → (P s' ↔ C s i)) {run : List (ι × σ)} :
    ∀ {s : σ}, IsRun step s run → I s → P s →
      ((∀ e ∈ run, P e.2) ↔ ∀ e ∈ sources s run, C e.1 e.2) := by
  induction run with
  | nil =>
      intro s _ _ _
      exact ⟨fun _ e he => absurd he List.not_mem_nil, fun _ e he => absurd he List.not_mem_nil⟩
  | cons e rest ih =>
      intro s hrun hI hP
      have hnext : P e.2 ↔ C s e.1 := hstep s e.1 e.2 hI hP hrun.1
      have hI' : I e.2 := hkeep s e.1 e.2 hI hrun.1
      show _ ↔ ∀ e' ∈ (s, e.1) :: sources e.2 rest, C e'.1 e'.2
      rw [List.forall_mem_cons, List.forall_mem_cons]
      constructor
      · intro h
        exact ⟨hnext.mp h.1, (ih hrun.2 hI' h.1).mp h.2⟩
      · intro h
        have hP' : P e.2 := hnext.mpr h.1
        exact ⟨hP', (ih hrun.2 hI' hP').mpr h.2⟩

end

end LuadchAnnouncer.Verified.Runs
