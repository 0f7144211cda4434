import There.Concurrent.Runs

/-!
# A part of a system by itself

A part of a system has a state and steps of its own. It is isolated if the system moves
it by these steps only, and never keeps it from one of them while it is live. Seen from
the part, a run of the system is then a run of the part by itself; and from any state of
the system, whatever has become of the rest, the part can go on as it could alone.
-/

namespace Concurrent

variable {σ α χ β : Type}

/-- `view` is the state of the part, as long as there is one, `own` are its steps, and
`act` gives for each of them an action of the system that takes it. -/
structure Isolated (step : σ → α → Option σ) (inv : σ → Prop) (view : σ → Option χ)
    (own : χ → β → Option χ) (act : β → α) (initial live : χ → Prop) : Prop where
  kept : ∀ {s t a}, inv s → step s a = some t → inv t
  appears : ∀ {s t a c}, inv s → step s a = some t → view s = none → view t = some c → initial c
  moves : ∀ {s t a c}, inv s → step s a = some t → view s = some c →
    view t = some c ∨ ∃ b c', own c b = some c' ∧ view t = some c'
  free : ∀ {s c c' b}, inv s → view s = some c → live c → own c b = some c' →
    ∃ t, step s (act b) = some t ∧ view t = some c'

namespace Isolated

variable {step : σ → α → Option σ} {inv : σ → Prop} {view : σ → Option χ}
variable {own : χ → β → Option χ} {act : β → α} {initial live : χ → Prop}
variable {s t : σ} {c c' : χ}

/-- What a run of the system makes of the part, the part can make of itself. -/
theorem run_alone (isolated : Isolated step inv view own act initial live) (start : inv s)
    (run : Reachable step (fun _ _ => True) s t) (absent : view s = none) (here : view t = some c) :
    ∃ c₀, initial c₀ ∧ Reachable own (fun _ _ => True) c₀ c := by
  have always : inv t ∧ ∀ c, view t = some c →
      ∃ c₀, initial c₀ ∧ Reachable own (fun _ _ => True) c₀ c := by
    refine run.invariant (I := fun t => inv t ∧ ∀ c, view t = some c →
      ∃ c₀, initial c₀ ∧ Reachable own (fun _ _ => True) c₀ c)
      ⟨start, by simp [absent]⟩ ?_
    rintro s a t - stepped ⟨holds, before⟩
    refine ⟨isolated.kept holds stepped, fun c after => ?_⟩
    cases seen : view s with
    | none => exact ⟨c, isolated.appears holds stepped seen after, .start⟩
    | some d =>
        obtain ⟨c₀, first, alone⟩ := before d seen
        rcases isolated.moves holds stepped seen with same | ⟨b, d', moved, now⟩
        · obtain rfl := Option.some.inj (same.symm.trans after)
          exact ⟨c₀, first, alone⟩
        · obtain rfl := Option.some.inj (now.symm.trans after)
          exact ⟨c₀, first, alone.step trivial moved⟩
  exact always.2 c here

/-- What the part can make of itself while it is live, it can make of itself in the
system, while everything else stands still. -/
theorem goes_on (isolated : Isolated step inv view own act initial live) (holds : inv s)
    (here : view s = some c) (alone : Reachable own (fun c _ => live c) c c') :
    ∃ t, Reachable step (fun _ a => ∃ b, a = act b) s t ∧ view t = some c' := by
  have kept : ∃ t, Reachable step (fun _ a => ∃ b, a = act b) s t ∧ inv t ∧ view t = some c' := by
    induction alone with
    | start => exact ⟨s, .start, holds, here⟩
    | @step d d' b _ alive moved ih =>
        obtain ⟨t, run, holds, now⟩ := ih
        obtain ⟨u, stepped, next⟩ := isolated.free holds now alive moved
        exact ⟨u, run.step ⟨b, rfl⟩ stepped, isolated.kept holds stepped, next⟩
  obtain ⟨t, run, -, now⟩ := kept
  exact ⟨t, run, now⟩

end Isolated

end Concurrent
