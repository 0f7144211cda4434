import There.Concurrent.Runs

/-!
# One system in terms of another

A system is explained by another one if it starts in a state that a state of the other
explains, and if every step it takes is explained by a run of the other, which may be
empty. Then every state that it reaches is explained by one that the other reaches.
-/

namespace Concurrent

variable {σ α σ' α' : Type}

/-- A relation that every step keeps between states that are reached. -/
structure Simulates (step : σ → α → Option σ) (admits : σ → α → Prop) (start : σ)
    (step' : σ' → α' → Option σ') (admits' : σ' → α' → Prop) (start' : σ')
    (explains : σ → σ' → Prop) : Prop where
  start : explains start start'
  step : ∀ {s t : σ} {a : α} {s' : σ'}, Reachable step' admits' start' s' → explains s s' →
    admits s a → step s a = some t → ∃ t', Reachable step' admits' s' t' ∧ explains t t'

namespace Simulates

variable {step : σ → α → Option σ} {admits : σ → α → Prop} {start : σ}
variable {step' : σ' → α' → Option σ'} {admits' : σ' → α' → Prop} {start' : σ'}
variable {explains : σ → σ' → Prop}

/-- Every state that is reached is explained by one that the other system reaches. -/
theorem reaches (h : Simulates step admits start step' admits' start' explains) {s : σ}
    (run : Reachable step admits start s) :
    ∃ s', Reachable step' admits' start' s' ∧ explains s s' := by
  induction run with
  | start => exact ⟨start', .start, h.start⟩
  | step _ admitted stepped ih =>
      obtain ⟨s', run', explained⟩ := ih
      obtain ⟨t', more, explained'⟩ := h.step run' explained admitted stepped
      exact ⟨t', run'.trans more, explained'⟩

end Simulates

end Concurrent
