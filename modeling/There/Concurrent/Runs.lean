import Mathlib.Logic.Basic

/-!
# Runs of a system that takes one action at a time

A system is a partial step function on its states: an action that the current state
does not allow has no result. Interleaving of several parties is nothing more than
the choice of the next action.

Assumptions about a run are put on its steps. `admits` is such an assumption, on the
action taken and on the state before it, and `Reachable` collects the states that
are reached by admitted steps only.
-/

namespace Concurrent

variable {σ α : Type}

/-- The states that runs from `start` reach by admitted steps. -/
inductive Reachable (step : σ → α → Option σ) (admits : σ → α → Prop) (start : σ) : σ → Prop where
  | start : Reachable step admits start start
  | step {s t : σ} {a : α} : Reachable step admits start s → admits s a → step s a = some t →
      Reachable step admits start t

namespace Reachable

variable {step : σ → α → Option σ} {admits : σ → α → Prop} {start s t : σ}

/-- What holds at the start and is kept by every admitted step holds in every state
that is reached. -/
theorem invariant {I : σ → Prop} (initially : I start)
    (preserved : ∀ s a t, admits s a → step s a = some t → I s → I t)
    (h : Reachable step admits start s) : I s := by
  induction h with
  | start => exact initially
  | step _ ha hs ih => exact preserved _ _ _ ha hs ih

/-- What no step changes is what it was at the start. -/
theorem constant {β : Type} (f : σ → β)
    (kept : ∀ s a t, admits s a → step s a = some t → f t = f s)
    (h : Reachable step admits start s) : f s = f start :=
  h.invariant (I := fun s => f s = f start) rfl fun s a t ha hs => (kept s a t ha hs).trans

theorem trans (h : Reachable step admits start s) (h' : Reachable step admits s t) :
    Reachable step admits start t := by
  induction h' with
  | start => exact h
  | step _ ha hs ih => exact ih.step ha hs

/-- Fewer assumptions admit more runs. -/
theorem mono {admits' : σ → α → Prop} (h : Reachable step admits start s)
    (weaker : ∀ s a, admits s a → admits' s a) : Reachable step admits' start s := by
  induction h with
  | start => exact .start
  | step _ ha hs ih => exact ih.step (weaker _ _ ha) hs

/-- A goal is reached if from every state that falls short of it some step gets nearer. -/
theorem of_measure {goal inv : σ → Prop} (measure : σ → Nat)
    (nearer : ∀ s, inv s → ¬ goal s →
      ∃ a t, admits s a ∧ step s a = some t ∧ inv t ∧ measure t < measure s)
    (h : inv s) : ∃ t, Reachable step admits s t ∧ inv t ∧ goal t := by
  induction n : measure s using Nat.strongRecOn generalizing s with
  | _ n ih =>
      by_cases reached : goal s
      · exact ⟨s, .start, h, reached⟩
      · obtain ⟨a, u, admitted, stepped, kept, less⟩ := nearer s h reached
        obtain ⟨t, run, rest⟩ := ih _ (n ▸ less) kept rfl
        exact ⟨t, (Reachable.start.step admitted stepped).trans run, rest⟩

/-- Run a list of actions. -/
def run (step : σ → α → Option σ) : σ → List α → Option σ
  | s, [] => some s
  | s, a :: as => (step s a).bind (run step · as)

/-- A list of actions that are admitted in any state leads to reachable states. -/
theorem run_of_forall {as : List α} (h : Reachable step admits start s)
    (always : ∀ a ∈ as, ∀ s, admits s a) (hr : run step s as = some t) :
    Reachable step admits start t := by
  induction as generalizing s with
  | nil =>
      obtain rfl : s = t := by simpa [run] using hr
      exact h
  | cons a as ih =>
      obtain ⟨u, hu, hr⟩ := Option.bind_eq_some_iff.mp hr
      have next := h.step (always a List.mem_cons_self s) hu
      exact ih next (fun b hb => always b (List.mem_cons_of_mem a hb)) hr

theorem run_concat (s : σ) (as : List α) (a : α) :
    run step s (as ++ [a]) = (run step s as).bind (step · a) := by
  induction as generalizing s with
  | nil => simp [run]
  | cons b as ih =>
      rw [List.cons_append, run, run, Option.bind_assoc]
      exact congrArg _ (funext ih)

/-- A state is reached by the list of the actions that lead to it. -/
theorem exists_run (h : Reachable step admits start s) : ∃ as, run step start as = some s := by
  induction h with
  | start => exact ⟨[], rfl⟩
  | @step s t a _ _ hs ih =>
      obtain ⟨as, ran⟩ := ih
      exact ⟨as ++ [a], by rw [run_concat, ran, Option.bind_some, hs]⟩

/-- Every step of the run is admitted. -/
def Along (step : σ → α → Option σ) (admits : σ → α → Prop) : σ → List α → Prop
  | _, [] => True
  | s, a :: as => admits s a ∧ ∀ t ∈ step s a, Along step admits t as

/-- What a step keeps exactly if it is admitted, and never brings back, holds after a run
exactly if it held before and every step of the run was admitted. -/
theorem iff_along {P : σ → Prop} {as : List α}
    (kept : ∀ s a t, step s a = some t → (P t ↔ P s ∧ admits s a)) (hr : run step s as = some t) :
    P t ↔ P s ∧ Along step admits s as := by
  induction as generalizing s with
  | nil =>
      obtain rfl : s = t := by simpa [run] using hr
      exact (and_iff_left trivial).symm
  | cons a as ih =>
      obtain ⟨u, hu, hr⟩ := Option.bind_eq_some_iff.mp hr
      have rest : (∀ t ∈ step s a, Along step admits t as) ↔ Along step admits u as := by
        simp [hu]
      rw [ih hr, kept s a u hu, Along, rest, and_assoc]

end Reachable

end Concurrent
