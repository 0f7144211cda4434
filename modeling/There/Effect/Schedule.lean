import Mathlib.Data.List.Infix
import There.Effect.WP

/-!
# Computations that follow a schedule

A computation that leaves a trace in its state may stop at any point with an error.
What it has done by then is the beginning of a list of steps that is known in advance,
and no step is taken whose guard does not hold. A computation that returns a value has
taken every step.

The rules compose schedules by concatenation. Whatever fails, wherever it fails, needs
no rule of its own.
-/

namespace Effect

/-- An event, and the condition under which it may happen. -/
structure Step (κ : Type) where
  event : κ
  guard : Prop

variable {ε σ α β κ : Type}

/-- The first steps of a schedule, each of them allowed. -/
structure Taken (schedule taken : List (Step κ)) : Prop where
  first : taken <+: schedule
  guards : ∀ step ∈ taken, step.guard

namespace Taken

variable {schedule schedule' taken taken' : List (Step κ)} {step : Step κ}

theorem nil (schedule : List (Step κ)) : Taken schedule [] :=
  ⟨List.nil_prefix, fun _ h => absurd h List.not_mem_nil⟩

theorem single (h : step.guard) : Taken [step] [step] :=
  ⟨List.prefix_rfl, fun _ hs => List.mem_singleton.mp hs ▸ h⟩

/-- A schedule that stops early is also the beginning of a longer one. -/
theorem append_right (h : Taken schedule taken) (more : List (Step κ)) :
    Taken (schedule ++ more) taken :=
  ⟨h.first.trans (List.prefix_append _ _), h.guards⟩

theorem append (h : Taken schedule schedule) (h' : Taken schedule' taken') :
    Taken (schedule ++ schedule') (schedule ++ taken') where
  first := (List.prefix_append_right_inj schedule).mpr h'.first
  guards := fun step hs => (List.mem_append.mp hs).elim (h.guards step) (h'.guards step)

/-- What is taken of two schedules ends within the first, or is all of the first and
something of the second. -/
theorem append_cases (h : Taken (schedule ++ schedule') taken) :
    Taken schedule taken ∨ ∃ taken', taken = schedule ++ taken' ∧ Taken schedule' taken' := by
  rcases List.prefix_or_prefix_of_prefix h.first (List.prefix_append schedule schedule') with
    within | ⟨taken', rfl⟩
  · exact .inl ⟨within, h.guards⟩
  · exact .inr ⟨taken', rfl, (List.prefix_append_right_inj schedule).mp h.first,
      fun step hs => h.guards step (List.mem_append_right schedule hs)⟩

theorem cons_cases (h : Taken (step :: schedule) taken) :
    taken = [] ∨ step.guard ∧ ∃ taken', taken = step :: taken' ∧ Taken schedule taken' := by
  rcases List.prefix_cons_iff.mp h.first with rfl | ⟨taken', rfl, first⟩
  · exact .inl rfl
  · exact .inr ⟨h.guards step List.mem_cons_self, taken', rfl, first,
      fun s hs => h.guards s (List.mem_cons_of_mem step hs)⟩

end Taken

/-- The computation keeps `inv` and follows the schedule; a value that it returns
satisfies `value`. -/
def Follows (trace : σ → List κ) (inv : σ → Prop) (p : EStateM ε σ α)
    (schedule : List (Step κ)) (value : α → Prop) : Prop :=
  ∀ s, inv s → WP p (fun r t => inv t ∧ ∃ taken, Taken schedule taken ∧
    trace t = trace s ++ taken.map Step.event ∧
      ∀ a, r = .ok a → taken = schedule ∧ value a) s

namespace Follows

variable {trace : σ → List κ} {inv : σ → Prop} {p : EStateM ε σ α}
variable {schedule schedule' : List (Step κ)} {value : α → Prop} {step : Step κ}

theorem pure {a : α} (h : value a) :
    Follows trace inv (pure a : EStateM ε σ α) [] value := by
  intro s hs
  refine ⟨hs, [], .nil [], (List.append_nil _).symm, ?_⟩
  rintro _ ⟨⟩
  exact ⟨rfl, h⟩

/-- An early return may stand before any schedule. -/
theorem throw {e : ε} (schedule : List (Step κ)) :
    Follows trace inv (throw e : EStateM ε σ α) schedule value := by
  intro s hs
  refine ⟨hs, [], .nil schedule, (List.append_nil _).symm, ?_⟩
  rintro _ ⟨⟩

/-- A computation that leaves no trace. -/
theorem silent (h : ∀ s, inv s → WP p (fun r t => inv t ∧ trace t = trace s ∧
    ∀ a, r = .ok a → value a) s) : Follows trace inv p [] value := by
  intro s hs
  refine (h s hs).mono ?_
  rintro r t ⟨ht, same, hv⟩
  exact ⟨ht, [], .nil [], by simpa using same, fun a ha => ⟨rfl, hv a ha⟩⟩

/-- A computation that takes one step and cannot fail. -/
theorem act {p : EStateM ε σ PUnit} (guard : step.guard)
    (h : ∀ s, inv s → inv (finalState (p s)) ∧
      trace (finalState (p s)) = trace s ++ [step.event]) :
    Follows trace inv p [step] fun _ => True := by
  intro s hs
  obtain ⟨kept, grown⟩ := h s hs
  exact ⟨kept, [step], .single guard, grown, fun _ _ => ⟨rfl, trivial⟩⟩

theorem bind {f : α → EStateM ε σ β} {value' : β → Prop}
    (first : Follows trace inv p schedule value)
    (rest : ∀ a, value a → Follows trace inv (f a) schedule' value') :
    Follows trace inv (p >>= f) (schedule ++ schedule') value' := by
  intro s hs
  refine (first s hs).bind ?_ ?_
  · rintro a t ⟨ht, taken, took, grown, ok⟩
    obtain ⟨rfl, hv⟩ := ok a rfl
    refine (rest a hv t ht).mono ?_
    rintro r u ⟨hu, taken', took', grown', ok'⟩
    refine ⟨hu, taken ++ taken', took.append took', ?_, fun b hb => ?_⟩
    · rw [grown', grown, List.map_append, List.append_assoc]
    · obtain ⟨rfl, hv'⟩ := ok' b hb
      exact ⟨rfl, hv'⟩
  · rintro e t ⟨ht, taken, took, grown, -⟩
    refine ⟨ht, taken, took.append_right schedule', grown, ?_⟩
    rintro _ ⟨⟩

/-- A part without a trace in front. -/
theorem silent_bind {f : α → EStateM ε σ β} {value' : β → Prop}
    (first : Follows trace inv p [] value)
    (rest : ∀ a, value a → Follows trace inv (f a) schedule value') :
    Follows trace inv (p >>= f) schedule value' := by
  simpa using first.bind rest

/-- A part without a trace behind. -/
theorem bind_silent {f : α → EStateM ε σ β} {value' : β → Prop}
    (first : Follows trace inv p schedule value)
    (rest : ∀ a, value a → Follows trace inv (f a) [] value') :
    Follows trace inv (p >>= f) schedule value' := by
  simpa using first.bind rest

/-- A step in front. -/
theorem act_bind {p : EStateM ε σ PUnit} {f : PUnit → EStateM ε σ β} {value' : β → Prop}
    (first : Follows trace inv p [step] fun _ => True)
    (rest : Follows trace inv (f ⟨⟩) schedule value') :
    Follows trace inv (p >>= f) (step :: schedule) value' :=
  first.bind fun _ _ => rest

theorem mono {value' : α → Prop} (h : Follows trace inv p schedule value)
    (imp : ∀ a, value a → value' a) : Follows trace inv p schedule value' := by
  intro s hs
  refine (h s hs).mono ?_
  rintro r t ⟨ht, taken, took, grown, ok⟩
  exact ⟨ht, taken, took, grown, fun a ha => ⟨(ok a ha).1, imp a (ok a ha).2⟩⟩

end Follows

end Effect
