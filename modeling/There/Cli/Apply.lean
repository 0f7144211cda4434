import There.Controller.Course
import There.Executor.Panics

/-!
# One `do_apply` of the CLI

The future starts a local or an SSH executor, as its host entry says, and a reader that
prints what it finds in the log channel. An error of the local executor is returned at
once and leaves the reader to itself; an error of the SSH executor waits for the reader.

A panic is not caught and ends the process.
-/

namespace There

namespace Cli

open Concurrent

/-- What the world does to one `do_apply`: whether the key of the SSH executor can be had,
how the host behaves, and how the local machine does. -/
structure World where
  key : Except Report Unit
  server : SshHost
  machine : LocalHost

structure Apply where
  dispatch : Dispatch
  world : World
  stage : Stage := .pushed
  /-- How many messages the channel has accepted. -/
  sent : Nat := 0
  log : SimpleLogSource := { rx := { capacity := 1024 } }
  /-- The reader has not left its loop. -/
  reading : Bool := true

namespace Apply

/-- The run of the executor. -/
def run (a : Apply) (receiver : Option Nat) : EStateM.Result Abort Record Unit :=
  match a.dispatch.executorType with
  | .local => SimpleExecutor.execute a.dispatch.plan a.world.machine (.fresh receiver)
  | .ssh => SshExecutor.execute a.dispatch.host a.dispatch.hostname a.dispatch.plan a.world.server
      (.fresh receiver)

/-- The messages that the executor sends while its receiver is kept. -/
def script (a : Apply) : List PartialLogStream := messages (Effect.finalState (a.run none)).events

/-- What an error of the executor is wrapped in. -/
def failure (a : Apply) (kind : String) (tasksCompleted : Nat) (err : Report) : Report :=
  .msg (s!"{kind} executor failed to apply plan {a.dispatch.plan.name} to host " ++
    s!"{a.dispatch.hostname}: {tasksCompleted}/{a.dispatch.plan.blueprint.length} " ++
    "tasks finished:\n\n" ++ err.text)

/-- The result of `do_apply` after its reader has been joined. -/
def joined (a : Apply) : Except Report Nat → ApplyResult
  | .ok tasksCompleted => .ok (a.dispatch.hostname, tasksCompleted)
  | .error e => .error (.msg ("failed to apply plan: " ++ e.text))

/-- Where `do_apply` goes on when `execute` has come to an end, or the site of a panic. -/
def executed (a : Apply) (receiver : Option Nat) : Except String Stage :=
  let tasksCompleted := (Effect.finalState (a.run receiver)).tasksCompleted
  match Effect.outcome (a.run receiver), a.dispatch.executorType with
  | .ok _, _ => .ok (.joining (.ok tasksCompleted))
  | .error (.error err), .local => .ok (.returned (.error (a.failure "local" tasksCompleted err)))
  | .error (.error err), .ssh => .ok (.joining (.error
      (.planApplyFailed a.dispatch.hostname tasksCompleted (a.failure "ssh" tasksCompleted err))))
  | .error (.panic site), _ => .error site

/-- Enter a stage. A future that has returned has dropped its sender. -/
def enter (a : Apply) : Stage → Apply
  | .returned result => { a with
      stage := .returned result, log := { a.log with rx := a.log.rx.dropSender } }
  | stage => { a with stage }

inductive Action where
  | start
  | loadKey
  | send
  | sendFails
  | finishExecute
  | join
deriving Repr, DecidableEq

/-- A step of the future itself. -/
def step (a : Apply) : Action → Option (Except String Apply)
  | .start =>
      match a.stage, a.dispatch.executorType with
      | .pushed, .local => some (.ok { a with stage := .executing })
      | .pushed, .ssh => some (.ok { a with stage := .preparing })
      | _, _ => none
  | .loadKey =>
      match a.stage, a.world.key with
      | .preparing, .ok _ => some (.ok { a with stage := .executing })
      | .preparing, .error e => some (.ok (a.enter (.returned (.error e))))
      | _, _ => none
  | .send =>
      match a.stage, a.script[a.sent]? with
      | .executing, some m => (a.log.rx.send m).map fun rx =>
          .ok { a with sent := a.sent + 1, log := { a.log with rx } }
      | _, _ => none
  | .sendFails =>
      match a.stage, a.script[a.sent]? with
      | .executing, some _ =>
          if a.log.rx.receiver then none else some ((a.executed (some a.sent)).map a.enter)
      | _, _ => none
  | .finishExecute =>
      match a.stage, a.script[a.sent]? with
      | .executing, none => some ((a.executed none).map a.enter)
      | _, _ => none
  | .join =>
      match a.stage, a.reading with
      | .joining result, false => some (.ok (a.enter (.returned (a.joined result))))
      | _, _ => none

/-- The reader calls `source`: the lines that it prints, and its next state. -/
def source (a : Apply) : Option (Logs × Apply) :=
  if a.stage = .pushed ∨ a.reading = false then none
  else
    match a.log.source with
    | (.ok (.next logs), log) => some (logs, { a with log })
    | (.ok .«end», log) => some ([], { a with
        log := { log with rx := log.rx.dropReceiver }, reading := false })
    | (.error _, log) => some ([], { a with
        log := { log with rx := log.rx.dropReceiver }, reading := false })

/-- The drain loop takes the result. -/
def collect (a : Apply) : Option (ApplyResult × Apply) :=
  match a.stage with
  | .returned result => some (result, { a with stage := .collected })
  | _ => none

/-- The steps of the future, its reader's and the collection of its result among them. -/
inductive Own where
  | act (act : Action)
  | source
  | collect

def own (a : Apply) : Own → Option Apply
  | .act act => (a.step act).bind Except.toOption
  | .source => a.source.map (·.2)
  | .collect => a.collect.map (·.2)

/-- Whether the executor can be started. -/
def loaded (a : Apply) : Except Report Unit :=
  match a.dispatch.executorType with
  | .local => .ok ⟨⟩
  | .ssh => a.world.key

variable {a a' : Apply}

theorem collect_eq_some {result : ApplyResult} (h : a.collect = some (result, a')) :
    a.stage = .returned result ∧ a' = { a with stage := .collected } := by
  rw [collect] at h
  split at h
  · simp only [Option.some.injEq, Prod.mk.injEq] at h
    obtain ⟨rfl, rfl⟩ := h
    exact ⟨‹_›, rfl⟩
  · cases h

/-- What the steps can do, each with the guard it has passed. -/
inductive Moves (a : Apply) : Except String Apply → Prop where
  | startLocal : a.stage = .pushed → a.dispatch.executorType = .local →
      Moves a (.ok { a with stage := .executing })
  | startSsh : a.stage = .pushed → a.dispatch.executorType = .ssh →
      Moves a (.ok { a with stage := .preparing })
  | keyLoaded {u : Unit} : a.stage = .preparing → a.world.key = .ok u →
      Moves a (.ok { a with stage := .executing })
  | keyMissing {e : Report} : a.stage = .preparing → a.world.key = .error e →
      Moves a (.ok (a.enter (.returned (.error e))))
  | send {m : PartialLogStream} {rx : Channel PartialLogStream} : a.stage = .executing →
      a.script[a.sent]? = some m → a.log.rx.send m = some rx →
      Moves a (.ok { a with sent := a.sent + 1, log := { a.log with rx } })
  | sendFails {m : PartialLogStream} : a.stage = .executing → a.script[a.sent]? = some m →
      a.log.rx.receiver = false → Moves a ((a.executed (some a.sent)).map a.enter)
  | finishExecute : a.stage = .executing → a.script[a.sent]? = none →
      Moves a ((a.executed none).map a.enter)
  | join {result : Except Report Nat} : a.stage = .joining result → a.reading = false →
      Moves a (.ok (a.enter (.returned (a.joined result))))

theorem step_moves {act : Action} {x : Except String Apply} (h : a.step act = some x) :
    a.Moves x := by
  cases act with
  | start =>
      simp only [step] at h
      split at h <;> cases h
      · exact .startLocal ‹_› ‹_›
      · exact .startSsh ‹_› ‹_›
  | loadKey =>
      simp only [step] at h
      split at h <;> cases h
      · exact .keyLoaded ‹_› ‹_›
      · exact .keyMissing ‹_› ‹_›
  | send =>
      simp only [step] at h
      split at h
      · obtain ⟨rx, accepted, rfl⟩ := Option.map_eq_some_iff.mp h
        exact .send ‹_› ‹_› accepted
      · cases h
  | sendFails =>
      simp only [step] at h
      split at h
      · split at h <;> cases h
        exact .sendFails ‹_› ‹_› (by simpa using ‹¬ a.log.rx.receiver = true›)
      · cases h
  | finishExecute =>
      simp only [step] at h
      split at h <;> cases h
      exact .finishExecute ‹_› ‹_›
  | join =>
      simp only [step] at h
      split at h <;> cases h
      exact .join ‹_› ‹_›

/-- The executor comes to its end without a panic, and the future enters another stage. -/
theorem map_enter_eq_ok {x : Except String Stage} (h : x.map a.enter = .ok a') :
    ∃ stage, x = .ok stage ∧ a' = a.enter stage := by
  cases x with
  | error site => cases h
  | ok stage => exact ⟨stage, rfl, (Except.ok.inj h).symm⟩

theorem enter_same (a : Apply) (stage : Stage) :
    (a.enter stage).dispatch = a.dispatch ∧ (a.enter stage).world = a.world := by
  cases stage <;> exact ⟨rfl, rfl⟩

/-- A step changes neither the arguments of the future nor its world. -/
theorem Moves.same {x : Except String Apply} (h : a.Moves x) (ok : x = .ok a') :
    a'.dispatch = a.dispatch ∧ a'.world = a.world := by
  cases h with
  | sendFails | finishExecute =>
      obtain ⟨stage, -, rfl⟩ := map_enter_eq_ok ok
      exact enter_same a stage
  | _ =>
      cases ok
      exact ⟨rfl, rfl⟩

theorem source_same {logs : Logs} (h : a.source = some (logs, a')) :
    a'.dispatch = a.dispatch ∧ a'.world = a.world := by
  rw [Apply.source] at h
  split at h
  · cases h
  · split at h <;> cases h <;> exact ⟨rfl, rfl⟩

/-- A step of the future's own, if it does not panic. -/
theorem own_act_eq_some {act : Action} (h : a.own (.act act) = some a') :
    a.step act = some (.ok a') := by
  obtain ⟨x, stepped, ok⟩ := Option.bind_eq_some_iff.mp h
  cases x with
  | error site => cases ok
  | ok b =>
      cases ok
      exact stepped

theorem own_same {b : Own} (h : a.own b = some a') :
    a'.dispatch = a.dispatch ∧ a'.world = a.world := by
  cases b with
  | act act => exact (step_moves (own_act_eq_some h)).same rfl
  | source =>
      obtain ⟨⟨logs, _⟩, read, rfl⟩ := Option.map_eq_some_iff.mp h
      exact source_same read
  | collect =>
      obtain ⟨⟨result, _⟩, taken, rfl⟩ := Option.map_eq_some_iff.mp h
      obtain ⟨-, rfl⟩ := collect_eq_some taken
      exact ⟨rfl, rfl⟩

/-- The commands that the plan of the future runs have at least one word. -/
def Worded (a : Apply) : Prop := ∀ task ∈ a.dispatch.plan.blueprint, task.command ≠ []

/-- Then the executor comes to its end without a panic. -/
theorem Worded.executed (worded : a.Worded) (receiver : Option Nat) (site : String) :
    a.executed receiver ≠ .error site := by
  have panicFree : Effect.outcome (a.run receiver) ≠ .error (.panic site) := by
    rw [run]
    split
    · exact SimpleExecutor.execute_panicFree worded a.world.machine _ site
    · exact SshExecutor.execute_panicFree _ _ _ _ _ site
  intro panics
  simp only [Apply.executed] at panics
  split at panics
  · cases panics
  · cases panics
  · cases panics
  · rename_i outcome
    cases panics
    exact panicFree outcome

theorem Worded.enters (worded : a.Worded) (receiver : Option Nat) (site : String) :
    (a.executed receiver).map a.enter ≠ .error site := by
  cases ended : a.executed receiver with
  | error site' => exact absurd ended (worded.executed receiver site')
  | ok stage => exact fun h => by cases h

theorem Worded.step (worded : a.Worded) (act : Action) (site : String) :
    a.step act ≠ some (.error site) := by
  intro h
  generalize panics : Except.error site = x at h
  cases step_moves h with
  | sendFails | finishExecute => exact worded.enters _ site panics.symm
  | _ => cases panics

end Apply

end Cli

end There
