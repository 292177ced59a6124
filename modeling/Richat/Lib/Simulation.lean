import Richat.Lib.Machine

/-!
# Simulations between machines

A step of one machine may be several steps of another one, or none, with the same outputs. `run_simulates` carries
this over to runs: what the first machine puts out the second one can put out as well. The steps need to be matched
only as long as the outputs are good, which may speak about all outputs so far.
-/

namespace Richat.Lib

variable {σ σ' ι ι' ω ε ε' : Type*} {step : Step σ ι ω ε} {step' : Step σ' ι' ω ε'} {s₀ : σ} {t₀ : σ'}

/-- **Simulation.** -/
theorem run_simulates {R : σ → σ' → Prop} {P : List ω → Prop} (nil : R s₀ t₀)
    (of_append : ∀ tr out, P (tr ++ out) → P tr)
    (sim : ∀ s t tr js i s' out, R s t → run step' t₀ js = .ok (t, tr) → P (tr ++ out) →
      step s i = .ok (s', out) → ∃ js' t', run step' t js' = .ok (t', out) ∧ R s' t')
    {is : List ι} {s : σ} {tr : List ω} (h : run step s₀ is = .ok (s, tr)) (hgood : P tr) :
    ∃ js t, run step' t₀ js = .ok (t, tr) ∧ R s t := by
  revert hgood
  refine run_induction (P := fun _ s tr => P tr → ∃ js t, run step' t₀ js = .ok (t, tr) ∧ R s t)
    (fun _ => ⟨[], t₀, rfl, nil⟩) ?_ h
  intro is s tr i s' out _ ih hstep hgood
  obtain ⟨js, t, hrun, hrel⟩ := ih (of_append tr out hgood)
  obtain ⟨js', t', hrun', hrel'⟩ := sim s t tr js i s' out hrel hrun hgood hstep
  exact ⟨js ++ js', t', run_append.mpr ⟨t, tr, out, hrun, hrun', rfl⟩, hrel'⟩

end Richat.Lib
