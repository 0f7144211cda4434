import There.Controller.Client
import There.Controller.Reader

/-!
# One job of the controller

The task that `run_plan` spawns for a job: it runs the dispatch loop, drains the
futures it has pushed, and comes to a result that is still to be recorded. The
futures, their readers and the client that follows the job belong to it; only the
stored state of the job does not.

A step of a job is a step of one of these parties that needs no server state.
-/

namespace There

/-- How far the spawned task has come. -/
inductive JobStage where
  | spawned
  | draining
  /-- `apply_plan` has returned. -/
  | concluded (result : Except Report Unit)
  | recorded (status : JobStatus)
deriving DecidableEq

structure Job where
  plan : Plan
  hosts : HostConfig
  /-- What the world does to each future, by its position in the dispatch loop. -/
  world : Nat → World
  stage : JobStage := .spawned
  applies : List Apply := []
  /-- The results that the drain loop has taken, in order. -/
  results : List ApplyResult := []
  client : Client := {}

namespace Job

/-- The futures that the dispatch loop pushes. -/
def pushed (job : Job) : List Apply :=
  (Controller.dispatch job.plan job.hosts).pushes.mapIdx fun i d =>
    { dispatch := d, world := job.world i }

inductive Action where
  /-- The task runs the dispatch loop. -/
  | begin
  | apply (i : Nat) (act : Apply.Action)
  /-- The drain loop takes the result of a future. -/
  | collect (i : Nat)
  /-- The drain loop ends. -/
  | conclude
  | print (order : List (Sigma fun _ : String => List LogEntry))

def step (job : Job) : Action → Option Job
  | .begin =>
      if job.stage = .spawned then
        match Effect.outcome (Controller.dispatch job.plan job.hosts []) with
        | .error e => some { job with stage := .concluded (.error e) }
        | .ok _ => some { job with stage := .draining, applies := job.pushed }
      else
        none
  | .apply i act =>
      match job.applies[i]? with
      | some a => (a.step act).map fun a' => { job with applies := job.applies.set i a' }
      | none => none
  | .collect i =>
      if job.stage = .draining then
        match job.applies[i]? with
        | some a => a.collect.map fun (result, a') =>
            { job with applies := job.applies.set i a', results := job.results ++ [result] }
        | none => none
      else
        none
  | .conclude =>
      if job.stage = .draining ∧ ∀ a ∈ job.applies, a.stage = .collected then
        some { job with stage := .concluded (drain job.plan job.results).returns }
      else
        none
  | .print order => (job.client.print order).map fun client => { job with client }

/-- What the steps can do, each with the guard it has passed. -/
inductive Moves (job : Job) : Job → Prop where
  | fails {e : Report} : job.stage = .spawned →
      Effect.outcome (Controller.dispatch job.plan job.hosts []) = .error e →
      Moves job { job with stage := .concluded (.error e) }
  | begins : job.stage = .spawned → (Controller.dispatch job.plan job.hosts).Succeeds →
      Moves job { job with stage := .draining, applies := job.pushed }
  | apply {i : Nat} {a a' : Apply} : job.applies[i]? = some a → a.Moves a' →
      Moves job { job with applies := job.applies.set i a' }
  | collect {i : Nat} {a a' : Apply} {result : ApplyResult} : job.stage = .draining →
      job.applies[i]? = some a → a.collect = some (result, a') →
      Moves job { job with
        applies := job.applies.set i a', results := job.results ++ [result] }
  | concludes : job.stage = .draining → (∀ a ∈ job.applies, a.stage = .collected) →
      Moves job { job with stage := .concluded (.ok ⟨⟩) }
  | print {order : List (Sigma fun _ : String => List LogEntry)} {client : Client} :
      job.client.print order = some client → Moves job { job with client }

theorem step_moves {job job' : Job} {act : Action} (h : job.step act = some job') :
    job.Moves job' := by
  cases act with
  | begin =>
      simp only [step] at h
      split at h
      · split at h <;> obtain rfl := Option.some.inj h
        · exact .fails ‹_› ‹_›
        · exact .begins ‹_› ‹_›
      · cases h
  | apply i act =>
      simp only [step] at h
      split at h
      · obtain ⟨a', moved, rfl⟩ := Option.map_eq_some_iff.mp h
        exact .apply ‹_› (Apply.step_moves moved)
      · cases h
  | collect i =>
      simp only [step] at h
      split at h
      · split at h
        · obtain ⟨⟨result, a'⟩, taken, rfl⟩ := Option.map_eq_some_iff.mp h
          exact .collect ‹_› ‹_› taken
        · cases h
      · cases h
  | conclude =>
      simp only [step] at h
      split at h
      · rename_i guard
        obtain rfl := Option.some.inj h
        rw [Reporting.returns, drain_returns]
        exact .concludes guard.1 guard.2
      · cases h
  | print order =>
      obtain ⟨client, printed, rfl⟩ := Option.map_eq_some_iff.mp h
      exact .print printed

end Job

/-- `apply_plan` has returned `Ok`. -/
def JobStage.success : JobStage → Bool
  | concluded (.ok _) => true
  | recorded .completed => true
  | _ => false

/-- The futures have been pushed, and the dispatch loop has not failed. -/
def JobStage.begun : JobStage → Bool
  | draining => true
  | s => s.success

namespace Job

structure Inv (job : Job) : Prop where
  applies : ∀ a ∈ job.applies, a.Inv
  /-- Every future was pushed by the dispatch loop. -/
  origin : ∀ i, ∀ a ∈ job.applies[i]?, a.world = job.world i ∧
    (Controller.dispatch job.plan job.hosts).pushes[i]? = some a.dispatch
  begun : job.stage.begun →
    job.applies.length = (Controller.dispatch job.plan job.hosts).pushes.length
  settled : job.stage.success → ∀ a ∈ job.applies, a.stage = .collected

theorem inv_new (plan : Plan) (hosts : HostConfig) (world : Nat → World) :
    Inv { plan, hosts, world } where
  applies := by simp
  origin := by simp
  begun := by simp [JobStage.begun, JobStage.success]
  settled := by simp

/-- A future may be replaced by one with the same arguments that keeps the invariant. -/
theorem Inv.set {job : Job} (inv : job.Inv) {i : Nat} {a a' : Apply}
    (here : job.applies[i]? = some a) (same : a'.dispatch = a.dispatch ∧ a'.world = a.world)
    (keeps : a'.Inv) (settled : a.stage = .collected → a'.stage = .collected) :
    Inv { job with applies := job.applies.set i a' } where
  applies := by
    intro b hb
    rcases List.mem_or_eq_of_mem_set hb with old | rfl
    · exact inv.applies b old
    · exact keeps
  origin := by
    intro k b hb
    rw [Option.mem_def, List.getElem?_set] at hb
    split at hb
    · rename_i at'
      subst at'
      split at hb
      · obtain rfl := Option.some.inj hb
        rw [same.1, same.2]
        exact inv.origin i a here
      · cases hb
    · exact inv.origin k b hb
  begun := by
    rw [List.length_set]
    exact inv.begun
  settled := by
    intro success b hb
    rcases List.mem_or_eq_of_mem_set hb with old | rfl
    · exact inv.settled success b old
    · exact settled (inv.settled success a (List.mem_of_getElem? here))

theorem Inv.moves {job job' : Job} (inv : job.Inv) (h : job.Moves job') : job'.Inv := by
  cases h with
  | fails spawned failed =>
      exact ⟨inv.applies, inv.origin, by simp [JobStage.begun, JobStage.success],
        by simp [JobStage.success]⟩
  | begins spawned succeeded =>
      refine ⟨fun a ha => ?_, fun i a ha => ?_, fun _ => ?_, by simp [JobStage.success]⟩
      · obtain ⟨i, hi, rfl⟩ := List.mem_mapIdx.mp ha
        exact Apply.inv_new _ _
      · simp only [pushed, List.getElem?_mapIdx, Option.mem_def, Option.map_eq_some_iff] at ha
        obtain ⟨d, hd, rfl⟩ := ha
        exact ⟨rfl, hd⟩
      · simp [pushed]
  | @apply i a a' here moved =>
      exact inv.set here moved.same ((inv.applies a (List.mem_of_getElem? here)).moves moved)
        moved.collected
  | @collect i a a' result draining here taken =>
      obtain ⟨dispatch, world, stage⟩ := Apply.collect_same taken
      have keeps := (inv.applies a (List.mem_of_getElem? here)).collect taken
      have set := inv.set here ⟨dispatch, world⟩ keeps fun _ => stage
      exact ⟨set.applies, set.origin, set.begun, set.settled⟩
  | concludes draining collected =>
      exact ⟨inv.applies, inv.origin, fun _ => inv.begun (by rw [draining]; rfl),
        fun _ => collected⟩
  | print printed => exact ⟨inv.applies, inv.origin, inv.begun, inv.settled⟩

/-- A step of a job does not change what was requested. -/
theorem Moves.same {job job' : Job} (h : job.Moves job') :
    job'.plan = job.plan ∧ job'.hosts = job.hosts ∧ job'.world = job.world := by
  cases h <;> exact ⟨rfl, rfl, rfl⟩

end Job

end There
