import There.Dispatch.Drain
import There.Executor.Failures
import There.Executor.Source

/-!
# One `do_apply` of the controller

A `do_apply` is two parties around one log channel: the future itself, which runs
the SSH executor and then waits for its reader, and the detached reader, which polls
the channel and appends what it finds to the job. Each step below is what one of the
two does between two points where it can be interrupted.

The executor's side of the channel is the run of `SshExecutor.execute`: the messages
it sends, in order, are those of the run with its receiver kept, and a send that
finds the receiver gone turns the run into the one whose receiver takes no more
messages than it has taken. The sender lives as long as the future does.
-/

namespace There

open Concurrent

/-- The display form of a report. -/
def Report.text : Report → String
  | msg text => text
  | planApplyFailed host tasksCompleted source =>
      s!"failed to apply plan to host: {host} ({tasksCompleted} tasks complete): " ++ source.text

/-- The debug form of an error, without the locations that the report handler adds. -/
def Abort.text : Abort → String
  | error report => report.text
  | panic site => site

/-- What the world does to one `do_apply`: whether the executor's key pair can be
loaded, and how the host behaves. -/
structure World where
  key : Except Report Unit
  server : SshHost

/-- How far the future has come. -/
inductive Stage where
  /-- Not polled yet: there is no channel and no reader. -/
  | pushed
  /-- The reader is started, the key pair is being loaded. -/
  | preparing
  | executing
  /-- The executor has returned, the future awaits its reader. -/
  | joining (result : Except Report Nat)
  | returned (result : ApplyResult)
  /-- The drain loop has taken the result. -/
  | collected
deriving DecidableEq

inductive Reader where
  /-- About to poll the channel. -/
  | idle
  /-- Waiting for the server state, to append a batch. -/
  | holding (logs : Logs)
  | finished
deriving DecidableEq

structure Apply where
  dispatch : Dispatch
  world : World
  stage : Stage := .pushed
  /-- How many messages the channel has accepted. -/
  sent : Nat := 0
  log : SimpleLogSource := { rx := { capacity := 1024 } }
  reader : Reader := .idle

namespace Apply

/-- The run of the executor. -/
def run (a : Apply) (receiver : Option Nat) : EStateM.Result Abort Record Unit :=
  SshExecutor.execute a.dispatch.host a.dispatch.hostname a.dispatch.plan a.world.server
    (.fresh receiver)

/-- The messages that the executor sends while its receiver is kept. -/
def script (a : Apply) : List PartialLogStream := messages (Effect.finalState (a.run none)).events

/-- The result of `execute`, mapped as `do_apply` maps it. -/
def executed (a : Apply) (receiver : Option Nat) : Except Report Nat :=
  let tasksCompleted := (Effect.finalState (a.run receiver)).tasksCompleted
  let plan := a.dispatch.plan
  match Effect.outcome (a.run receiver) with
  | .ok _ => .ok tasksCompleted
  | .error err => .error (.planApplyFailed a.dispatch.hostname tasksCompleted (.msg
      (s!"ssh executor failed to apply plan {plan.name} to host {a.dispatch.hostname}: " ++
        s!"{tasksCompleted}/{plan.blueprint.length} tasks finished:\n\n" ++ err.text)))

/-- The result of `do_apply` after its reader has been joined. -/
def joined (a : Apply) : Except Report Nat → ApplyResult
  | .ok tasksCompleted => .ok (a.dispatch.hostname, tasksCompleted)
  | .error e => .error (.msg ("failed to apply plan: " ++ e.text))

inductive Action where
  | start
  | loadKey
  | send
  | sendFails
  | finishExecute
  /-- The reader calls `source`. -/
  | source
  | join
deriving Repr, DecidableEq

def step (a : Apply) : Action → Option Apply
  | .start =>
      match a.stage with
      | .pushed => some { a with stage := .preparing }
      | _ => none
  | .loadKey =>
      match a.stage with
      | .preparing =>
          match a.world.key with
          | .ok _ => some { a with stage := .executing }
          -- The early return drops the sender and leaves the reader alone.
          | .error e => some { a with
              stage := .returned (.error e), log := { a.log with rx := a.log.rx.dropSender } }
      | _ => none
  | .send =>
      match a.stage, a.script[a.sent]? with
      | .executing, some m =>
          (a.log.rx.send m).map fun rx => { a with sent := a.sent + 1, log := { a.log with rx } }
      | _, _ => none
  | .sendFails =>
      match a.stage, a.script[a.sent]? with
      | .executing, some _ =>
          if a.log.rx.receiver then none
          else some { a with stage := .joining (a.executed (some a.sent)) }
      | _, _ => none
  | .finishExecute =>
      match a.stage, a.script[a.sent]? with
      | .executing, none => some { a with stage := .joining (a.executed none) }
      | _, _ => none
  | .source =>
      if a.stage = .pushed then none
      else
        match a.reader with
        | .idle =>
            match a.log.source with
            | (.ok (.next logs), log) => some { a with log, reader := .holding logs }
            | (.ok .«end», log) => some { a with
                log := { log with rx := log.rx.dropReceiver }, reader := .finished }
            | (.error _, log) => some { a with
                log := { log with rx := log.rx.dropReceiver }, reader := .finished }
        | _ => none
  | .join =>
      match a.stage, a.reader with
      | .joining result, .finished => some { a with
          stage := .returned (a.joined result), log := { a.log with rx := a.log.rx.dropSender } }
      | _, _ => none

/-- The reader has got the server state: the batch it appends, and its next state. -/
def append (a : Apply) : Option (Logs × Apply) :=
  match a.reader with
  | .holding logs => some (logs, { a with reader := .idle })
  | _ => none

/-- The drain loop takes the result. -/
def collect (a : Apply) : Option (ApplyResult × Apply) :=
  match a.stage with
  | .returned result => some (result, { a with stage := .collected })
  | _ => none

/-- What the steps can do, each with the guard it has passed. -/
inductive Moves (a : Apply) : Apply → Prop where
  | start : a.stage = .pushed → Moves a { a with stage := .preparing }
  | keyLoaded {u : Unit} : a.stage = .preparing → a.world.key = .ok u →
      Moves a { a with stage := .executing }
  | keyMissing {e : Report} : a.stage = .preparing → a.world.key = .error e →
      Moves a { a with
        stage := .returned (.error e), log := { a.log with rx := a.log.rx.dropSender } }
  | send {m : PartialLogStream} {rx : Channel PartialLogStream} : a.stage = .executing →
      a.script[a.sent]? = some m → a.log.rx.send m = some rx →
      Moves a { a with sent := a.sent + 1, log := { a.log with rx } }
  | sendFails {m : PartialLogStream} : a.stage = .executing → a.script[a.sent]? = some m →
      a.log.rx.receiver = false →
      Moves a { a with stage := .joining (a.executed (some a.sent)) }
  | finishExecute : a.stage = .executing → a.script[a.sent]? = none →
      Moves a { a with stage := .joining (a.executed none) }
  | next {logs : Logs} {log : SimpleLogSource} : a.stage ≠ .pushed → a.reader = .idle →
      a.log.source = (.ok (.next logs), log) → Moves a { a with log, reader := .holding logs }
  | ended {log : SimpleLogSource} : a.stage ≠ .pushed → a.reader = .idle →
      a.log.source = (.ok .«end», log) →
      Moves a { a with log := { log with rx := log.rx.dropReceiver }, reader := .finished }
  | lost {e : Report} {log : SimpleLogSource} : a.stage ≠ .pushed → a.reader = .idle →
      a.log.source = (.error e, log) →
      Moves a { a with log := { log with rx := log.rx.dropReceiver }, reader := .finished }
  | join {result : Except Report Nat} : a.stage = .joining result → a.reader = .finished →
      Moves a { a with
        stage := .returned (a.joined result), log := { a.log with rx := a.log.rx.dropSender } }

/-- A step changes neither the arguments of the future nor its world. -/
theorem Moves.same {a a' : Apply} (h : a.Moves a') :
    a'.dispatch = a.dispatch ∧ a'.world = a.world := by
  cases h <;> exact ⟨rfl, rfl⟩

/-- Once its result has been taken, only the reader is left to move. -/
theorem Moves.collected {a a' : Apply} (h : a.Moves a') (collected : a.stage = .collected) :
    a'.stage = .collected := by
  cases h <;> first | assumption | simp_all

theorem append_eq_some {a a' : Apply} {logs : Logs} (h : a.append = some (logs, a')) :
    a.reader = .holding logs ∧ a' = { a with reader := .idle } := by
  rw [append] at h
  split at h
  · simp only [Option.some.injEq, Prod.mk.injEq] at h
    obtain ⟨rfl, rfl⟩ := h
    exact ⟨‹_›, rfl⟩
  · cases h

theorem collect_eq_some {a a' : Apply} {result : ApplyResult} (h : a.collect = some (result, a')) :
    a.stage = .returned result ∧ a' = { a with stage := .collected } := by
  rw [collect] at h
  split at h
  · simp only [Option.some.injEq, Prod.mk.injEq] at h
    obtain ⟨rfl, rfl⟩ := h
    exact ⟨‹_›, rfl⟩
  · cases h

theorem append_same {a a' : Apply} {logs : Logs} (h : a.append = some (logs, a')) :
    a'.dispatch = a.dispatch ∧ a'.world = a.world ∧ a'.stage = a.stage := by
  obtain ⟨-, rfl⟩ := append_eq_some h
  exact ⟨rfl, rfl, rfl⟩

theorem collect_same {a a' : Apply} {result : ApplyResult} (h : a.collect = some (result, a')) :
    a'.dispatch = a.dispatch ∧ a'.world = a.world ∧ a'.stage = .collected := by
  obtain ⟨-, rfl⟩ := collect_eq_some h
  exact ⟨rfl, rfl, rfl⟩

theorem step_moves {a a' : Apply} {act : Action} (h : a.step act = some a') : a.Moves a' := by
  cases act with
  | start =>
      simp only [step] at h
      split at h
      · obtain rfl := Option.some.inj h
        exact .start ‹_›
      · cases h
  | loadKey =>
      simp only [step] at h
      split at h
      · split at h <;> obtain rfl := Option.some.inj h
        · exact .keyLoaded ‹_› ‹_›
        · exact .keyMissing ‹_› ‹_›
      · cases h
  | send =>
      simp only [step] at h
      split at h
      · obtain ⟨rx, sent, rfl⟩ := Option.map_eq_some_iff.mp h
        exact .send ‹_› ‹_› sent
      · cases h
  | sendFails =>
      simp only [step] at h
      split at h
      · split at h
        · cases h
        · obtain rfl := Option.some.inj h
          exact .sendFails ‹_› ‹_› (by simpa using ‹¬ a.log.rx.receiver = true›)
      · cases h
  | finishExecute =>
      simp only [step] at h
      split at h
      · obtain rfl := Option.some.inj h
        exact .finishExecute ‹_› ‹_›
      · cases h
  | source =>
      simp only [step] at h
      split at h
      · cases h
      · split at h
        · split at h <;> obtain rfl := Option.some.inj h
          · exact .next ‹_› ‹_› ‹_›
          · exact .ended ‹_› ‹_› ‹_›
          · exact .lost ‹_› ‹_› ‹_›
        · cases h
  | join =>
      simp only [step] at h
      split at h
      · obtain rfl := Option.some.inj h
        exact .join ‹_› ‹_›
      · cases h

/-- What is returned for a host whose server refuses the key. -/
theorem joined_of_refuses {a : Apply} (refuses : a.world.server.Refuses) :
    a.joined (a.executed none) = .error (a.dispatch.failure 0 "ssh authentication failed!") := by
  obtain ⟨⟨outcome, counted⟩, tasksCompleted⟩ := (SshExecutor.execute_refused a.dispatch.host
    a.dispatch.hostname a.dispatch.plan refuses).fresh
  rw [counted] at tasksCompleted
  simp only [executed, run, outcome, tasksCompleted]
  rfl

end Apply

/-- Every result in `OneHost.refused` is one that `do_apply` returns. -/
theorem OneHost.joined_refused {pushes : List Dispatch} {result : Dispatch × ApplyResult}
    (listed : result ∈ (refused pushes).order) {a : Apply} (dispatch : a.dispatch = result.1)
    (refuses : a.world.server.Refuses) : a.joined (a.executed none) = result.2 := by
  obtain ⟨d, -, rfl⟩ := List.mem_map.mp listed
  rw [Apply.joined_of_refuses refuses, dispatch]

end There
