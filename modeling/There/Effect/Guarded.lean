import Mathlib.Data.List.Basic

/-!
# Programs of guarded commands

A program is a list of steps. A step tests its guards and starts its command, in a state
that the steps before it have left, and the program stops at the first step that cannot be
taken. What a guard means and what a command does are given by a machine, and one program
can be run on several.

A program can be applied again when none of its steps undoes what another has achieved.
-/

namespace Guarded

structure Step (γ κ : Type) where
  guards : List γ
  command : κ

structure Machine (σ γ κ : Type) where
  holds : γ → σ → Bool
  /-- The state that a command leaves, none if it cannot be started. -/
  start : κ → σ → Option σ

namespace Machine

variable {σ γ κ : Type}

/-- The state after a step, none if a guard fails or the command cannot be started. -/
def take (m : Machine σ γ κ) (p : Step γ κ) (s : σ) : Option σ :=
  if p.guards.all (m.holds · s) then m.start p.command s else none

/-- How many steps are taken, and the state that they lead to. -/
def apply (m : Machine σ γ κ) : List (Step γ κ) → σ → Nat × σ
  | [], s => (0, s)
  | p :: ps, s =>
      match m.take p s with
      | some t => ((m.apply ps t).1 + 1, (m.apply ps t).2)
      | none => (0, s)

/-- The state after commands that are started one after the other. -/
def after (m : Machine σ γ κ) (commands : List κ) (s : σ) : σ :=
  commands.foldl (fun s command => (m.start command s).getD s) s

/-- Every step is taken. -/
def Completes (m : Machine σ γ κ) (ps : List (Step γ κ)) (s : σ) : Prop :=
  (m.apply ps s).1 = ps.length

variable {m m' : Machine σ γ κ} {p : Step γ κ} {ps qs : List (Step γ κ)} {s t : σ}

@[simp] theorem apply_nil (s : σ) : m.apply [] s = (0, s) := rfl

theorem apply_cons_of_some (h : m.take p s = some t) :
    m.apply (p :: ps) s = ((m.apply ps t).1 + 1, (m.apply ps t).2) := by
  rw [apply, h]

theorem apply_cons_of_none (h : m.take p s = none) : m.apply (p :: ps) s = (0, s) := by
  rw [apply, h]

theorem apply_fst_le (ps : List (Step γ κ)) (s : σ) : (m.apply ps s).1 ≤ ps.length := by
  induction ps generalizing s with
  | nil => exact Nat.le_refl 0
  | cons p ps ih =>
      cases taken : m.take p s with
      | none => simp [apply_cons_of_none taken]
      | some t => simpa [apply_cons_of_some taken] using ih t

/-- The state is what the commands of the steps that are taken have left. -/
theorem after_apply (ps : List (Step γ κ)) (s : σ) :
    m.after ((ps.take (m.apply ps s).1).map Step.command) s = (m.apply ps s).2 := by
  induction ps generalizing s with
  | nil => rfl
  | cons p ps ih =>
      cases taken : m.take p s with
      | none => simp [apply_cons_of_none taken, after]
      | some t =>
          have started : m.start p.command s = some t := by
            rw [take] at taken
            split at taken
            · exact taken
            · cases taken
          rw [apply_cons_of_some taken, List.take_succ_cons, List.map_cons, after, List.foldl_cons,
            started]
          exact ih t

theorem completes_cons : m.Completes (p :: ps) s ↔ ∃ t, m.take p s = some t ∧ m.Completes ps t := by
  cases taken : m.take p s with
  | none => simp [Completes, apply_cons_of_none taken]
  | some t => simp [Completes, apply_cons_of_some taken]

/-- A program in two parts goes on with the second if the first has been completed. -/
theorem apply_append (ps qs : List (Step γ κ)) (s : σ) :
    m.apply (ps ++ qs) s =
      if (m.apply ps s).1 = ps.length then
        (ps.length + (m.apply qs (m.apply ps s).2).1, (m.apply qs (m.apply ps s).2).2)
      else
        m.apply ps s := by
  induction ps generalizing s with
  | nil => simp
  | cons p ps ih =>
      rw [List.cons_append]
      cases taken : m.take p s with
      | none => simp [apply_cons_of_none taken]
      | some t =>
          rw [apply_cons_of_some taken, apply_cons_of_some taken, ih t]
          by_cases all : (m.apply ps t).1 = ps.length
          · simp only [List.length_cons, all, if_true, Prod.mk.injEq, and_true]
            omega
          · simp [all]

/-- What every step keeps, the program keeps. -/
theorem apply_invariant {I : σ → Prop}
    (kept : ∀ p ∈ ps, ∀ s t, I s → m.take p s = some t → I t) (h : I s) : I (m.apply ps s).2 := by
  induction ps generalizing s with
  | nil => exact h
  | cons p ps ih =>
      obtain ⟨first, rest⟩ := List.forall_mem_cons.mp kept
      cases taken : m.take p s with
      | none => rwa [apply_cons_of_none taken]
      | some t =>
          rw [apply_cons_of_some taken]
          exact ih rest (first s t h taken)

/-- Machines on which the steps do the same apply the program alike. -/
theorem apply_congr (same : ∀ p ∈ ps, ∀ s, m.take p s = m'.take p s) (s : σ) :
    m.apply ps s = m'.apply ps s := by
  induction ps generalizing s with
  | nil => rfl
  | cons p ps ih =>
      obtain ⟨first, rest⟩ := List.forall_mem_cons.mp same
      rw [apply, apply, first s]
      cases m'.take p s with
      | none => rfl
      | some t => simp only [ih rest t]

section Again

variable {α : Type} {observe : σ → α} {settled : Step γ κ → σ → Prop}

/-- A program of settled steps is completed, and nothing is seen to change. -/
theorem apply_of_settled
    (again : ∀ p ∈ ps, ∀ s, settled p s → ∃ t, m.take p s = some t ∧ observe t = observe s)
    (kept : ∀ p ∈ ps, ∀ q ∈ ps, ∀ s t, settled p s → m.take q s = some t → settled p t)
    (h : ∀ p ∈ ps, settled p s) :
    m.Completes ps s ∧ observe (m.apply ps s).2 = observe s := by
  have whole : ∀ qs : List (Step γ κ), (∀ q ∈ qs, q ∈ ps) → ∀ s, (∀ p ∈ ps, settled p s) →
      m.Completes qs s ∧ observe (m.apply qs s).2 = observe s := by
    intro qs among
    induction qs with
    | nil => exact fun s _ => ⟨rfl, rfl⟩
    | cons q qs ih =>
        intro s h
        obtain ⟨here, rest⟩ := List.forall_mem_cons.mp among
        obtain ⟨t, taken, same⟩ := again q here s (h q here)
        obtain ⟨completes, unchanged⟩ :=
          ih rest t fun p member => kept p member q here s t (h p member) taken
        refine ⟨completes_cons.mpr ⟨t, taken, completes⟩, ?_⟩
        rw [apply_cons_of_some taken]
        exact unchanged.trans same
  exact whole ps (fun _ member => member) s h

/-- When a program has been completed, all its steps are settled, if none unsettles another. -/
theorem apply_settles
    (settles : ∀ p ∈ ps, ∀ s t, m.take p s = some t → settled p t)
    (kept : ∀ p ∈ ps, ∀ q ∈ ps, ∀ s t, settled p s → m.take q s = some t → settled p t)
    (completes : m.Completes ps s) : ∀ p ∈ ps, settled p (m.apply ps s).2 := by
  have later : ∀ qs : List (Step γ κ), (∀ q ∈ qs, q ∈ ps) → ∀ s, m.Completes qs s →
      ∀ p ∈ qs, settled p (m.apply qs s).2 := by
    intro qs among
    induction qs with
    | nil => exact fun s _ p member => absurd member List.not_mem_nil
    | cons q qs ih =>
        intro s completes
        obtain ⟨here, rest⟩ := List.forall_mem_cons.mp among
        obtain ⟨t, taken, completes⟩ := completes_cons.mp completes
        rw [apply_cons_of_some taken]
        refine List.forall_mem_cons.mpr ⟨?_, ih rest t completes⟩
        exact apply_invariant (fun p member s t => kept q here p (rest p member) s t)
          (settles q here s t taken)
  exact later ps (fun _ member => member) s completes

/-- A program that has been completed, and whose steps settle what they are about without
unsettling what the others are about, can be applied again and changes nothing. -/
theorem apply_again
    (settles : ∀ p ∈ ps, ∀ s t, m.take p s = some t → settled p t)
    (again : ∀ p ∈ ps, ∀ s, settled p s → ∃ t, m.take p s = some t ∧ observe t = observe s)
    (kept : ∀ p ∈ ps, ∀ q ∈ ps, ∀ s t, settled p s → m.take q s = some t → settled p t)
    (completes : m.Completes ps s) :
    m.Completes ps (m.apply ps s).2 ∧
      observe (m.apply ps (m.apply ps s).2).2 = observe (m.apply ps s).2 :=
  apply_of_settled again kept (apply_settles settles kept completes)

end Again

end Machine

end Guarded
