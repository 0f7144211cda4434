import There.Executor.Tasks
import There.Executor.Text

/-!
# The local executor

The host side of a run is again data: what the file system and the search path
answer to each ensure, and how each child process runs. `turns` are the rounds of
the wait loop, each begun because `try_wait` found the child still running; the
loop also ends after the last of them, when `try_wait` no longer does. A wait that
never comes to an end is not a run.

The exit code of the child is part of the data although the executor never looks
at it.
-/

namespace There

/-- What `fs::metadata` finds at a path. -/
inductive FileType where
  | dir
  | file
  | other
deriving Repr, DecidableEq

/-- The answers to the queries of one ensure. Metadata may be asked for twice. -/
structure Probe where
  metadata : Except Report FileType
  metadataAgain : Except Report FileType
  which : Except Report Unit

/-- What `select!` finds in one round: a chunk or a read error of one of the two
streams, or that both are exhausted. -/
inductive Turn where
  | stdout (next : Except Report ByteArray)
  | stderr (next : Except Report ByteArray)
  | exhausted

structure ChildRun where
  spawn : Except Report Unit
  turns : List Turn
  /-- The exit code, or nothing for a child that a signal ends. -/
  exitCode : Option Nat

/-- What the machine does while one task runs. -/
structure LocalTask where
  probe : Nat → Probe
  child : ChildRun

/-- What the machine does during a run; `task k` is its part in task number `k`. -/
structure LocalHost where
  task : Nat → LocalTask

/-- Whether an ensure passes. The second query of a path is the only one whose
failure is an error. -/
def Ensure.query (probe : Probe) : Ensure → Except Report Bool
  | .directoryDoesntExist _ => .ok !probe.metadata.isOk
  | .directoryExists _ =>
      if probe.metadata.isOk then probe.metadataAgain.map (· == .dir) else .ok false
  | .fileDoesntExist _ => .ok !probe.metadata.isOk
  | .fileExists _ =>
      if probe.metadata.isOk then probe.metadataAgain.map (· == .file) else .ok false
  | .exeExists _ => .ok probe.which.isOk

namespace SimpleExecutor

/-- The ensures of a task from number `i` on; returns those that failed. -/
def ensureTask (probe : Nat → Probe) : Nat → List Ensure → Exec (List Ensure)
  | _, [] => pure []
  | i, ensure :: ensures => do
      let _ ← sinkOne ("ensuring " ++ ensure.debug)
      Exec.emit (.query ensure)
      let pass ← Exec.ofExcept (ensure.query (probe i))
      let failures ← ensureTask probe (i + 1) ensures
      pure (if pass then failures else ensure :: failures)

/-- A chunk of output is logged. An error of the sink is reported and passed over. -/
def sinkOutput (next : Except Report ByteArray) : Exec PUnit :=
  match next with
  | .error _ => pure ⟨⟩
  | .ok bytes => fun s =>
      match sink (.next [textOrDebug bytes]) s with
      | .ok _ t => .ok ⟨⟩ t
      | .error _ t => .ok ⟨⟩ t

/-- The loop that reads the output of a child until it has exited, or until both
of its streams are exhausted. -/
def waitTurns : List Turn → Exec PUnit
  | [] => pure ⟨⟩
  | .stdout next :: turns => do
      sinkOutput next
      waitTurns turns
  | .stderr next :: turns => do
      sinkOutput next
      waitTurns turns
  | .exhausted :: _ => pure ⟨⟩

def executeTask (task : PlannedTask) (host : LocalTask) : Exec PUnit := do
  -- "** executing task" is not logged: the future of this first `sink_one` is
  -- dropped without having been polled.
  let failedEnsures ← ensureTask host.probe 0 task.ensures
  if failedEnsures.isEmpty then
    match task.command with
    | [] => throw (.panic "execute_task: command()[0]")
    | cmd :: args => do
        Exec.ofExcept host.child.spawn
        Exec.emit (.spawn cmd args)
        waitTurns host.child.turns
        let _ ← sink (.next [""])
        Exec.count
  else
    let _ ← sinkOne ("ensures failed: " ++ debugEnsures failedEnsures)
    throw (.error (.msg ("ensures failed: " ++ debugEnsures failedEnsures)))

/-- `execute` of a fresh executor. -/
def execute (plan : Plan) (behaviour : LocalHost) : Exec PUnit := do
  let _ ← sinkOne s!"* applying plan: {plan.name}"
  let _ ← sinkOne s!"* steps: {plan.blueprint.length}"
  runTasks (fun k task => executeTask task (behaviour.task k)) 0 plan.blueprint
  let s ← get
  let _ ← sinkOne
    s!"*** finished applying plan: {plan.name} ({s.tasksCompleted}/{plan.blueprint.length})"
  let _ ← sink .«end»
  pure ⟨⟩

end SimpleExecutor

namespace LocalTask

variable (host : LocalTask) (task : PlannedTask)

/-- Every ensure is answered, and lets the task pass. -/
def EnsuresPass : Prop :=
  ∀ i, ∀ ensure ∈ task.ensures[i]?, Ensure.query (host.probe i) ensure = .ok true

/-- The process of the task's command is started. -/
structure Reaches : Prop where
  ensured : host.EnsuresPass task
  command : task.command ≠ []
  spawn : host.child.spawn = .ok ⟨⟩

instance : Decidable (host.EnsuresPass task) :=
  decidable_of_iff (∀ i, (h : i < task.ensures.length) →
      Ensure.query (host.probe i) task.ensures[i] = .ok true)
    (forall_congr' fun i => by simp [Option.mem_def, List.getElem?_eq_some_iff])

instance : Decidable (host.Reaches task) :=
  decidable_of_iff (host.EnsuresPass task ∧ task.command ≠ [] ∧ host.child.spawn = .ok ⟨⟩)
    ⟨fun ⟨ensured, command, spawn⟩ => ⟨ensured, command, spawn⟩,
      fun ⟨ensured, command, spawn⟩ => ⟨ensured, command, spawn⟩⟩

end LocalTask

namespace SimpleExecutor

theorem ensureTask_emits (probe : Nat → Probe) (i : Nat) (ensures : List Ensure) :
    Emits (ensureTask probe i ensures) fun r es => Quiet es ∧ (r = .ok [] ↔
      ∀ j, ∀ ensure ∈ ensures[j]?, Ensure.query (probe (i + j)) ensure = .ok true) := by
  induction ensures generalizing i with
  | nil => exact Emits.pure ⟨Quiet.nil, by simp⟩
  | cons ensure ensures ih =>
      rw [forall_numbered_cons fun j (e : Ensure) => e.query (probe j) = .ok true]
      refine Emits.sink_bind (Emits.emit_bind (by simp) (Emits.ofExcept_bind ?_ ?_))
      · intro pass answer
        rw [answer]
        refine Emits.bind (ih (i + 1)) ?_ ?_
        · rintro failures es ⟨quiet, rest⟩
          refine Emits.pure ⟨((quiet.append Quiet.nil).cons rfl).cons rfl, ?_⟩
          rw [← rest]
          cases pass <;> simp
        · rintro e es ⟨quiet, rest⟩
          exact ⟨(quiet.cons rfl).cons rfl, by simpa using fun _ => rest⟩
      · intro e answer
        exact ⟨(Quiet.nil.cons rfl).cons rfl, by simp [answer]⟩

theorem sinkOutput_emits (next : Except Report ByteArray) :
    Emits (sinkOutput next) fun r es => r = .ok ⟨⟩ ∧ Quiet es := by
  cases next with
  | error e => exact Emits.pure ⟨rfl, Quiet.nil⟩
  | ok bytes =>
      intro s hs
      have run : sinkOutput (.ok bytes) s = .ok ⟨⟩
          { s with
            events := s.events ++ [.sunk (.next [textOrDebug bytes])], receiver := none } := by
        simp [sinkOutput, sink, hs]
      rw [Effect.WP, run]
      exact ⟨rfl, _, rfl, rfl, rfl, Quiet.sunk _⟩

theorem waitTurns_emits (turns : List Turn) :
    Emits (waitTurns turns) fun r es => r = .ok ⟨⟩ ∧ Quiet es := by
  have round : ∀ (next : Except Report ByteArray) (turns : List Turn),
      Emits (waitTurns turns) (fun r es => r = .ok ⟨⟩ ∧ Quiet es) →
      Emits (sinkOutput next >>= fun _ => waitTurns turns)
        (fun r es => r = .ok ⟨⟩ ∧ Quiet es) := by
    intro next turns rest
    refine Emits.bind (sinkOutput_emits next) ?_ ?_
    · rintro _ es ⟨-, quiet⟩
      exact rest.mono fun r es' h => ⟨h.1, quiet.append h.2⟩
    · rintro e es ⟨⟨⟩, -⟩
  induction turns with
  | nil => exact Emits.pure ⟨rfl, Quiet.nil⟩
  | cons turn turns ih =>
      cases turn with
      | stdout next => exact round next turns ih
      | stderr next => exact round next turns ih
      | exhausted => exact Emits.pure ⟨rfl, Quiet.nil⟩

/-- A task is done as soon as its process has been started. -/
theorem executeTask_emits (task : PlannedTask) (host : LocalTask) :
    Emits (executeTask task host) (TaskSpec (host.Reaches task) (host.Reaches task) task) := by
  have early : ∀ (e : Abort) (es : List Event), Quiet es → ¬ host.Reaches task →
      TaskSpec (host.Reaches task) (host.Reaches task) task (.error e) es := by
    intro e es quiet no
    have attempt : Attempt (host.Reaches task) (host.Reaches task) (.exec (.command task))
        (.error e) es := Attempt.early quiet no id
    exact attempt.failed rfl
  refine Emits.bind (ensureTask_emits host.probe 0 task.ensures) ?_ ?_
  · rintro failures pre ⟨quiet, ensured⟩
    simp only [Nat.zero_add, Except.ok.injEq] at ensured
    cases failures with
    | nil =>
        have pass : host.EnsuresPass task := ensured.mp rfl
        have silent : Quiet (pre ++ []) := quiet.append Quiet.nil
        change Emits (match task.command with | [] => _ | cmd :: args => _) _
        cases command : task.command with
        | nil => exact Emits.throw (early _ _ silent fun h => h.command command)
        | cons cmd args =>
            refine Emits.ofExcept_bind (fun _ spawn => ?_) fun e spawn => ?_
            · have reaches : host.Reaches task := ⟨pass, by simp [command], spawn⟩
              refine Emits.emit_bind (by simp) (Emits.bind (waitTurns_emits _) ?_ ?_)
              · rintro _ output ⟨-, quiet'⟩
                refine Emits.sink_bind (Emits.count ?_)
                have attempt : Attempt (host.Reaches task) (host.Reaches task) (.spawn cmd args)
                    (.ok ⟨⟩) (pre ++ .spawn cmd args :: (output ++ [.sunk (.next [""])])) :=
                  ⟨fun _ => ⟨pre, _, quiet, quiet'.append (Quiet.sunk _), rfl⟩,
                    fun no => absurd reaches no, iff_of_true rfl reaches⟩
                simpa using attempt.counted (congrArg some command.symm)
              · rintro e output ⟨⟨⟩, -⟩
            · refine early _ _ silent fun h => ?_
              simp [h.spawn] at spawn
    | cons failure failures =>
        have fails : ¬ host.EnsuresPass task := fun h => by cases ensured.mpr h
        exact Emits.sink_bind (Emits.throw (early _ _ (quiet.append (Quiet.sunk _))
          fun h => fails h.ensured))
  · rintro e pre ⟨quiet, ensured⟩
    have fails : ¬ host.EnsuresPass task := fun h => by
      cases ensured.mpr (by simpa [LocalTask.EnsuresPass] using h)
    exact early e _ quiet fun h => fails h.ensured

end SimpleExecutor

/-- The run can start the process of task number `k`, which is all that it takes
for the task to count as executed. -/
def LocalHost.Reaches (host : LocalHost) (k : Nat) (task : PlannedTask) : Prop :=
  (host.task k).Reaches task

instance (host : LocalHost) (k : Nat) (task : PlannedTask) : Decidable (host.Reaches k task) :=
  inferInstanceAs (Decidable ((host.task k).Reaches task))

namespace SimpleExecutor

theorem execute_emits (plan : Plan) (behaviour : LocalHost) :
    Emits (execute plan behaviour) fun r es => ∃ n m,
      Applied True False behaviour.Reaches behaviour.Reaches plan.blueprint r es n m := by
  refine Emits.sink_bind (Emits.sink_bind (Emits.bind (runTasks_emits
    (fun k task => executeTask_emits task (behaviour.task k)) (fun _ _ h => h) 0
    plan.blueprint) ?_ ?_))
  · rintro ⟨⟩ es ⟨quiet, n, m, progress, ok⟩
    refine Emits.get_bind fun s => Emits.sink_bind (Emits.sink_bind (Emits.pure
      ⟨n, m, progress.congr (by simp) (by simp), ?_, fun _ => ?_, by simp⟩))
    · simpa using ok
    · exact endsStream_next (endsStream_next (endsStream_append quiet))
  · rintro e es ⟨quiet, n, m, progress, ok⟩
    refine ⟨n, m, progress.congr (by simp) (by simp), ?_, by simp, fun _ => by simpa using quiet⟩
    simpa using ok

end SimpleExecutor

end There
