import There.Cli.Apply
import There.Concurrent.Isolation
import There.Dispatch.Drain

/-!
# A run of the CLI without a controller

`subcommand_apply` plans its task set, runs the dispatch loop and drains the futures that
it has pushed. All of them are driven by the one task of the CLI, and when it returns or
panics the process ends, and every reader with it.
-/

namespace There

namespace Cli

open Concurrent

/-- How far `subcommand_apply` has come. -/
inductive RunStage where
  | planned
  | draining
  | returned (result : Except Report Unit)
  | panicked (site : String)
deriving DecidableEq

structure Run where
  plan : Plan
  hosts : HostConfig
  /-- What the world does to each future, by its position in the dispatch loop. -/
  world : Nat → World
  stage : RunStage := .planned
  applies : List Apply := []
  /-- The results that the drain loop has taken, in order. -/
  results : List ApplyResult := []
  /-- What the readers have printed, each line after the name of its host. -/
  printed : List (String × String) := []

namespace Run

/-- The futures that the dispatch loop pushes. -/
def pushed (r : Run) : List Apply :=
  (dispatch r.plan r.hosts).pushes.mapIdx fun i d => { dispatch := d, world := r.world i }

inductive Action where
  /-- The dispatch loop runs. -/
  | begin
  | apply (i : Nat) (act : Apply.Action)
  /-- The reader of a future polls its channel and prints what it finds. -/
  | source (i : Nat)
  /-- The drain loop takes the result of a future. -/
  | collect (i : Nat)
  /-- The drain loop ends. -/
  | conclude

/-- A step of the process, as long as there is one. -/
def step (r : Run) : Action → Option Run
  | .begin =>
      if r.stage = .planned then
        match Effect.outcome (dispatch r.plan r.hosts []) with
        | .error e => some { r with stage := .returned (.error e) }
        | .ok _ => some { r with stage := .draining, applies := r.pushed }
      else
        none
  | .apply i act =>
      match r.stage, r.applies[i]? with
      | .draining, some a =>
          match a.step act with
          | some (.ok a') => some { r with applies := r.applies.set i a' }
          | some (.error site) => some { r with stage := .panicked site }
          | none => none
      | _, _ => none
  | .source i =>
      match r.stage, r.applies[i]? with
      | .draining, some a => a.source.map fun (logs, a') =>
          { r with
            applies := r.applies.set i a'
            printed := r.printed ++ logs.map fun log => (a.dispatch.hostname, log) }
      | _, _ => none
  | .collect i =>
      match r.stage, r.applies[i]? with
      | .draining, some a => a.collect.map fun (result, a') =>
          { r with applies := r.applies.set i a', results := r.results ++ [result] }
      | _, _ => none
  | .conclude =>
      if r.stage = .draining ∧ ∀ a ∈ r.applies, a.stage = .collected then
        some { r with stage := .returned (drain r.plan r.results).returns }
      else
        none

/-- The future number `i`. -/
def future (i : Nat) (r : Run) : Option Apply := r.applies[i]?

/-- The action that takes a step of this future. -/
def Action.of (i : Nat) : Apply.Own → Action
  | .act act => .apply i act
  | .source => .source i
  | .collect => .collect i

variable {r r' : Run} {i : Nat} {a a' : Apply}

/-- What the steps can do, each with the guard it has passed. -/
inductive Moves (r : Run) : Action → Run → Prop where
  | fails {e : Report} : r.stage = .planned →
      Moves r .begin { r with stage := .returned (.error e) }
  | begins : r.stage = .planned →
      Moves r .begin { r with stage := .draining, applies := r.pushed }
  | future {i : Nat} {b : Apply.Own} {a a' : Apply} {results : List ApplyResult}
      {printed : List (String × String)} : r.stage = .draining → r.applies[i]? = some a →
      a.own b = some a' →
      Moves r (.of i b) { r with applies := r.applies.set i a', results, printed }
  | panics {i : Nat} {act : Apply.Action} {a : Apply} {site : String} : r.stage = .draining →
      r.applies[i]? = some a → a.step act = some (.error site) →
      Moves r (.apply i act) { r with stage := .panicked site }
  | concludes : r.stage = .draining → (∀ a ∈ r.applies, a.stage = .collected) →
      Moves r .conclude { r with stage := .returned (drain r.plan r.results).returns }

theorem step_moves {act : Action} (h : r.step act = some r') : r.Moves act r' := by
  cases act with
  | begin =>
      simp only [step] at h
      split at h
      · split at h <;> cases h
        · exact .fails ‹_›
        · exact .begins ‹_›
      · cases h
  | apply i act =>
      simp only [step] at h
      split at h
      · split at h <;> cases h
        · rename_i stepped
          exact .future (b := .act act) ‹_› ‹_› (by simp [Apply.own, stepped, Except.toOption])
        · exact .panics ‹_› ‹_› ‹_›
      · cases h
  | source i =>
      simp only [step] at h
      split at h
      · obtain ⟨⟨logs, a'⟩, read, rfl⟩ := Option.map_eq_some_iff.mp h
        exact .future (b := .source) ‹_› ‹_› (by simp [Apply.own, read])
      · cases h
  | collect i =>
      simp only [step] at h
      split at h
      · obtain ⟨⟨result, a'⟩, taken, rfl⟩ := Option.map_eq_some_iff.mp h
        exact .future (b := .collect) ‹_› ‹_› (by simp [Apply.own, taken])
      · cases h
  | conclude =>
      simp only [step] at h
      split at h <;> cases h
      rename_i guard
      exact .concludes guard.1 guard.2

theorem step_same {act : Action} (h : r.step act = some r') :
    r'.plan = r.plan ∧ r'.hosts = r.hosts ∧ r'.world = r.world := by
  cases step_moves h <;> exact ⟨rfl, rfl, rfl⟩

/-- The invariant of a run of a plan whose commands have at least one word. -/
structure Sound (r : Run) : Prop where
  worded : ∀ task ∈ r.plan.blueprint, task.command ≠ []
  idle : r.stage = .planned → r.applies = []
  /-- Every future was pushed by the dispatch loop. -/
  origin : ∀ i, ∀ a ∈ r.applies[i]?,
    a.world = r.world i ∧ a.dispatch ∈ (dispatch r.plan r.hosts).pushes
  draining : ∀ a ∈ r.applies, a.stage ≠ .collected → r.stage = .draining

theorem sound_new (plan : Plan) (hosts : HostConfig) (world : Nat → World)
    (worded : ∀ task ∈ plan.blueprint, task.command ≠ []) : Sound { plan, hosts, world } where
  worded := worded
  idle := fun _ => rfl
  origin := by simp
  draining := by simp

/-- The plan of a future has tasks of the whole plan only. -/
theorem Sound.apply_worded (sound : r.Sound) (here : r.applies[i]? = some a) : a.Worded := by
  obtain ⟨-, pushed⟩ := sound.origin i a here
  rw [dispatch_eq] at pushed
  obtain ⟨-, plan, -⟩ := mem_pushes pushed
  intro task member
  rw [plan] at member
  exact sound.worded task (Plan.mem_planForHost.mp member).1

/-- A future may be replaced by one with the same arguments. -/
theorem Sound.set (sound : r.Sound) (here : r.applies[i]? = some a)
    (same : a'.dispatch = a.dispatch ∧ a'.world = a.world) :
    ∀ k, ∀ b ∈ (r.applies.set i a')[k]?,
      b.world = r.world k ∧ b.dispatch ∈ (dispatch r.plan r.hosts).pushes := by
  intro k b hb
  rw [Option.mem_def, List.getElem?_set] at hb
  split at hb
  · rename_i at'
    subst at'
    split at hb
    · obtain rfl := Option.some.inj hb
      rw [same.1, same.2]
      exact sound.origin i a here
    · cases hb
  · exact sound.origin k b hb

theorem Sound.step {act : Action} (sound : r.Sound) (h : r.step act = some r') : r'.Sound := by
  cases step_moves h with
  | fails planned =>
      refine ⟨sound.worded, by simp, sound.origin, fun a member => ?_⟩
      rw [show r.applies = [] from sound.idle planned] at member
      exact absurd member List.not_mem_nil
  | begins =>
      refine ⟨sound.worded, by simp, fun i a here => ?_, fun _ _ _ => rfl⟩
      simp only [pushed, List.getElem?_mapIdx, Option.mem_def, Option.map_eq_some_iff] at here
      obtain ⟨d, listed, rfl⟩ := here
      exact ⟨rfl, List.mem_of_getElem? listed⟩
  | future draining here moved =>
      have busy : r.stage ≠ .planned := by simp [draining]
      exact ⟨sound.worded, fun planned => absurd planned busy,
        sound.set here (Apply.own_same moved), fun _ _ _ => draining⟩
  | panics draining here panicked =>
      exact absurd panicked ((sound.apply_worded here).step _ _)
  | concludes draining collected =>
      exact ⟨sound.worded, by simp, sound.origin,
        fun a member running => absurd (collected a member) running⟩

/-- A future that a step adds is fresh. -/
theorem step_fresh {act : Action} (h : r.step act = some r') (absent : r.future i = none)
    (here : r'.future i = some a) : a = { dispatch := a.dispatch, world := a.world } := by
  cases step_moves h with
  | begins =>
      simp only [Run.future, pushed, List.getElem?_mapIdx, Option.map_eq_some_iff] at here
      obtain ⟨d, -, rfl⟩ := here
      rfl
  | @future k _ _ a' =>
      have still : (r.applies.set k a')[i]? = none := by
        simpa [Run.future] using absent
      cases still.symm.trans here
  | _ => cases absent.symm.trans here

/-- A step leaves a future alone, or is a step of this future. -/
theorem step_future {act : Action} (sound : r.Sound) (h : r.step act = some r')
    (here : r.future i = some a) :
    r'.future i = some a ∨ ∃ b a', a.own b = some a' ∧ r'.future i = some a' := by
  have lt : i < r.applies.length := (List.getElem?_eq_some_iff.mp here).1
  cases step_moves h with
  | fails planned | begins planned =>
      rw [Run.future, sound.idle planned] at here
      cases here
  | @future k b c c' _ _ draining there moved =>
      by_cases same : k = i
      · subst same
        obtain rfl := Option.some.inj (here.symm.trans there)
        exact .inr ⟨b, c', moved, List.getElem?_set_self lt⟩
      · exact .inl ((List.getElem?_set_ne same).trans here)
  | panics | concludes => exact .inl here

/-- Nothing that has become of the other futures keeps a future from its next step, as
long as its result has not been taken. -/
theorem step_free {b : Apply.Own} (sound : r.Sound) (here : r.future i = some a)
    (running : a.stage ≠ .collected) (moved : a.own b = some a') :
    ∃ r', r.step (Action.of i b) = some r' ∧ r'.future i = some a' := by
  have lt : i < r.applies.length := (List.getElem?_eq_some_iff.mp here).1
  have listed : r.applies[i]? = some a := here
  have draining := sound.draining a (List.mem_of_getElem? here) running
  cases b with
  | act act =>
      obtain ⟨x, stepped, ok⟩ := Option.bind_eq_some_iff.mp moved
      cases x with
      | error site => cases ok
      | ok c =>
          cases ok
          refine ⟨{ r with applies := r.applies.set i a' }, ?_, List.getElem?_set_self lt⟩
          simp only [step, Action.of, draining, listed, stepped]
  | source =>
      obtain ⟨⟨logs, _⟩, read, rfl⟩ := Option.map_eq_some_iff.mp moved
      simp only [step, Action.of, draining, listed, read, Option.map_some]
      exact ⟨_, rfl, List.getElem?_set_self lt⟩
  | collect =>
      obtain ⟨⟨result, _⟩, taken, rfl⟩ := Option.map_eq_some_iff.mp moved
      simp only [step, Action.of, draining, listed, taken, Option.map_some]
      exact ⟨_, rfl, List.getElem?_set_self lt⟩

/-- A future is a part of the run that is isolated from the rest. -/
theorem isolated (i : Nat) :
    Isolated step Sound (future i) Apply.own (Action.of i)
      (fun a => a = { dispatch := a.dispatch, world := a.world })
      fun a => a.stage ≠ .collected where
  kept := Sound.step
  appears := fun _ h absent here => step_fresh h absent here
  moves := step_future
  free := step_free

end Run

end Cli

end There
