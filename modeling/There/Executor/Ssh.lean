import There.Executor.Tasks
import There.Executor.Text

/-!
# The SSH executor

The host side of a run is given as data: whether the connection and the
authentication succeed, and for every command line what its channel does, that is
whether it opens, whether the request is sent, and which frames arrive before the
channel ends. The executor is a function of this data. What a host answers may
depend on everything that was done to it before, so a run against any host is a
run against some such data.

The predicates on the host data say when the executor's own functions succeed.
They are written without the executor's functions and are then proved to describe
them.
-/

namespace There

/-- Bytes are compared as core compares them, whatever else is imported. -/
local instance instDecidableEqByteArray : DecidableEq ByteArray := ByteArray.instDecidableEq

/-- A frame of an SSH channel. -/
inductive ChannelMsg where
  | data (data : ByteArray)
  | extendedData (data : ByteArray) (ext : Nat)
  | eof
  | close
  | xonXoff (clientCanDo : Bool)
  | exitStatus (exitStatus : Nat)
  | exitSignal
  | windowAdjusted (newSize : Nat)
  | success
deriving DecidableEq

/-- The channel of one command line. After the last frame the channel has ended. -/
structure ChannelRun where
  opened : Except Report Unit
  exec : Except Report Unit
  frames : List ChannelMsg

/-- What a host does while one task runs: the channel of each ensure, by its
position in the task, and the channel of the command. -/
structure SshTask where
  check : Nat → ChannelRun
  command : ChannelRun

/-- What a host does during a run; `task k` is its part in task number `k`. -/
structure SshHost where
  connect : Except Report Unit
  authenticate : Except Report Bool
  task : Nat → SshTask

/-- The line that checks an ensure. -/
def Ensure.checkLine : Ensure → String
  | .directoryDoesntExist path => "test -d \"" ++ path ++ "\""
  | .directoryExists path => "test -d \"" ++ path ++ "\""
  | .fileDoesntExist path => "test -f \"" ++ path ++ "\""
  | .fileExists path => "test -f \"" ++ path ++ "\""
  | .exeExists exe => "which \"" ++ exe ++ "\""

/-- The answer that lets an ensure pass. -/
def Ensure.passes (status : Nat) : Ensure → Bool
  | .directoryDoesntExist _ => status != 0
  | .directoryExists _ => status == 0
  | .fileDoesntExist _ => status != 0
  | .fileExists _ => status == 0
  | .exeExists _ => status == 0

/-- The string that is handed to the remote shell. -/
def Request.line : Request → String
  | .check ensure => ensure.checkLine
  | .command task => " ".intercalate task.command

namespace SshExecutor

/-- The frame loop of `execute_command`. -/
def waitFrames : List ChannelMsg → Exec Nat
  | [] => pure 511
  | .data data :: frames =>
      match String.fromUTF8? data with
      | none => throw (.error (.msg (Utf8Error.of data).display))
      | some text => do
          let _ ← sink (.next (splitLines text))
          waitFrames frames
  | .extendedData data _ :: frames =>
      match String.fromUTF8? data with
      | none => throw (.error (.msg (Utf8Error.of data).display))
      | some text => do
          let _ ← sink (.next (splitLines text))
          waitFrames frames
  | .eof :: frames => waitFrames frames
  | .close :: _ => pure 511
  | .xonXoff _ :: frames => waitFrames frames
  | .exitStatus exitStatus :: _ => if exitStatus = 0 then pure 0 else pure exitStatus
  | .exitSignal :: frames => waitFrames frames
  | .windowAdjusted _ :: frames => waitFrames frames
  | .success :: frames => waitFrames frames

def executeCommand (request : Request) (channel : ChannelRun) : Exec Nat := do
  Exec.ofExcept channel.opened
  Exec.ofExcept channel.exec
  Exec.emit (.exec request)
  waitFrames channel.frames

/-- The ensures of a task from number `i` on; returns those that failed. -/
def ensureTask (check : Nat → ChannelRun) : Nat → List Ensure → Exec (List Ensure)
  | _, [] => pure []
  | i, ensure :: ensures => do
      let _ ← sinkOne ("* ensuring " ++ ensure.debug)
      let status ← executeCommand (.check ensure) (check i)
      let failures ← ensureTask check (i + 1) ensures
      pure (if ensure.passes status then failures else ensure :: failures)

def executeTask (task : PlannedTask) (host : SshTask) : Exec PUnit := do
  let _ ← sinkOne ("** executing task: " ++ task.name)
  let failedEnsures ← ensureTask host.check 0 task.ensures
  if failedEnsures.isEmpty then
    let _ ← sinkOne ("* executing task: " ++ task.name)
    -- The exit status is dropped here.
    let _ ← executeCommand (.command task) host.command
    let _ ← sinkOne ""
    pure ⟨⟩
  else
    let _ ← sinkOne ("ensures failed: " ++ debugEnsures failedEnsures)
    throw (.error (.msg ("ensures failed: " ++ debugEnsures failedEnsures)))

/-- `execute` of a fresh executor for `host`, which is called `hostname`. -/
def execute (host : Host) (hostname : String) (plan : Plan) (behaviour : SshHost) : Exec PUnit := do
  let _ ← sinkOne s!"* steps: {plan.blueprint.length}"
  Exec.emit (.connect s!"{host.host}:{host.port}")
  Exec.ofExcept behaviour.connect
  Exec.emit (.authenticate host.realRemoteUser)
  let authenticated ← Exec.ofExcept behaviour.authenticate
  if authenticated then
    runTasks (fun k task => do
      executeTask task (behaviour.task k)
      Exec.count) 0 plan.blueprint
    let s ← get
    let _ ← sinkOne (s!"*** finished applying plan: {plan.name} -> {hostname} " ++
      s!"({s.tasksCompleted}/{plan.blueprint.length})")
    let _ ← sink .«end»
    pure ⟨⟩
  else
    let _ ← sinkOne "ssh authentication failed!"
    let _ ← sink .«end»
    throw (.error (.msg "ssh authentication failed!"))

end SshExecutor

/-- The frame that ends the loop of `execute_command`. -/
def ChannelMsg.ends : ChannelMsg → Bool
  | close => true
  | exitStatus _ => true
  | _ => false

/-- The output that a frame carries. -/
def ChannelMsg.output : ChannelMsg → Option ByteArray
  | data bytes => some bytes
  | extendedData bytes _ => some bytes
  | _ => none

/-- Every frame of output before the end of the loop is text. -/
def Decodes (frames : List ChannelMsg) : Prop :=
  ∀ m ∈ frames.takeWhile (!·.ends), ∀ data ∈ m.output, (String.fromUTF8? data).isSome

/-- The exit status that the server reports, if it reports one before it closes. -/
def reportedStatus (frames : List ChannelMsg) : Option Nat :=
  match frames.find? ChannelMsg.ends with
  | some (.exitStatus exitStatus) => some exitStatus
  | _ => none

section Frames

variable {m : ChannelMsg} {frames : List ChannelMsg}

theorem decodes_cons_of_ends (h : m.ends) : Decodes (m :: frames) := by
  simp [Decodes, h]

theorem decodes_cons (h : m.ends = false) :
    Decodes (m :: frames) ↔
      (∀ data ∈ m.output, (String.fromUTF8? data).isSome) ∧ Decodes frames := by
  rw [Decodes, List.takeWhile_cons_of_pos (by simpa using h), List.forall_mem_cons]
  exact Iff.rfl

theorem reportedStatus_cons (h : m.ends = false) :
    reportedStatus (m :: frames) = reportedStatus frames := by
  rw [reportedStatus, List.find?_cons_of_neg (by simpa using h)]
  rfl

/-- The loop passes over a frame without output. -/
theorem decodes_cons_of_silent (h : m.ends = false) (silent : m.output = none) :
    Decodes (m :: frames) ↔ Decodes frames := by
  simp [decodes_cons h, silent]

end Frames

namespace ChannelRun

/-- The server accepts the command line. -/
structure Accepted (c : ChannelRun) : Prop where
  opened : c.opened = .ok ⟨⟩
  exec : c.exec = .ok ⟨⟩

/-- The command line is accepted and `execute_command` returns `status`. -/
structure Answers (c : ChannelRun) (status : Nat) : Prop where
  accepted : c.Accepted
  decodes : Decodes c.frames
  status : status = (reportedStatus c.frames).getD 511

end ChannelRun

namespace SshTask

variable (host : SshTask) (task : PlannedTask)

/-- Every ensure is answered, and with the status that lets it pass. -/
def EnsuresPass : Prop :=
  ∀ i, ∀ ensure ∈ task.ensures[i]?, ∃ status, (host.check i).Answers status ∧ ensure.passes status

/-- The server is handed the task's command. -/
structure Reaches : Prop where
  ensured : host.EnsuresPass task
  accepted : host.command.Accepted

/-- The task is executed without an error. Its exit status plays no part. -/
structure Done : Prop where
  reaches : host.Reaches task
  decodes : Decodes host.command.frames

end SshTask

namespace SshExecutor

/-- A loop that returns `a` answers `a`. -/
theorem ok_iff {a status : Nat} {decodes : Prop} (h : decodes) :
    (.ok a : Except Abort Nat) = .ok status ↔ decodes ∧ status = a := by
  rw [and_iff_right h, Except.ok.injEq, eq_comm]

/-- What a round of the frame loop does: it ends the loop, passes over the frame, or
decodes its output, which fails or is sunk. -/
theorem waitFrames_cons (m : ChannelMsg) (frames : List ChannelMsg) :
    (m.ends = true ∧
      waitFrames (m :: frames) = pure ((reportedStatus (m :: frames)).getD 511)) ∨
    (m.ends = false ∧ m.output = none ∧ waitFrames (m :: frames) = waitFrames frames) ∨
    (m.ends = false ∧ ∃ bytes, m.output = some bytes ∧
      ((String.fromUTF8? bytes = none ∧ waitFrames (m :: frames) =
          throw (.error (.msg (Utf8Error.of bytes).display))) ∨
        ∃ text, String.fromUTF8? bytes = some text ∧ waitFrames (m :: frames) =
          sink (.next (splitLines text)) >>= fun _ => waitFrames frames)) := by
  cases m with
  | data bytes | extendedData bytes ext =>
      refine .inr (.inr ⟨rfl, bytes, rfl, ?_⟩)
      rw [waitFrames]
      cases String.fromUTF8? bytes with
      | none => exact .inl ⟨rfl, rfl⟩
      | some text => exact .inr ⟨text, rfl, rfl⟩
  | close => exact .inl ⟨rfl, rfl⟩
  | exitStatus exitStatus =>
      refine .inl ⟨rfl, ?_⟩
      rw [waitFrames]
      split
      · subst exitStatus
        rfl
      · rfl
  | _ => exact .inr (.inl ⟨rfl, rfl, rfl⟩)

theorem waitFrames_emits (frames : List ChannelMsg) :
    Emits (waitFrames frames) fun r es => Quiet es ∧ ∀ status, r = .ok status ↔
      Decodes frames ∧ status = (reportedStatus frames).getD 511 := by
  induction frames with
  | nil => exact Emits.pure ⟨Quiet.nil, fun _ => ok_iff (by simp [Decodes])⟩
  | cons m frames ih =>
      obtain ⟨ends, run⟩ | ⟨goesOn, silent, run⟩ | ⟨goesOn, bytes, carries, round⟩ :=
        waitFrames_cons m frames
      · rw [run]
        exact Emits.pure ⟨Quiet.nil, fun _ => ok_iff (decodes_cons_of_ends ends)⟩
      · rw [run, decodes_cons_of_silent goesOn silent, reportedStatus_cons goesOn]
        exact ih
      · simp only [decodes_cons goesOn, reportedStatus_cons goesOn, carries, Option.mem_def,
          Option.some.injEq, forall_eq']
        obtain ⟨invalid, run⟩ | ⟨text, valid, run⟩ := round
        · rw [run, invalid]
          exact Emits.throw ⟨Quiet.nil, by simp⟩
        · rw [run, valid]
          refine Emits.sink_bind (ih.mono ?_)
          rintro r es ⟨quiet, answer⟩
          exact ⟨quiet.cons rfl, by simpa using answer⟩

theorem executeCommand_emits (request : Request) (channel : ChannelRun) :
    Emits (executeCommand request channel) fun r es =>
      (channel.Accepted → ∃ output, Quiet output ∧ es = .exec request :: output) ∧
      (¬ channel.Accepted → es = []) ∧ ∀ status, r = .ok status ↔ channel.Answers status := by
  have refused : ∀ e : Report, ¬ channel.Accepted →
      (channel.Accepted → ∃ output, Quiet output ∧ ([] : List Event) = .exec request :: output) ∧
      (¬ channel.Accepted → ([] : List Event) = []) ∧
      ∀ status, (.error (.error e) : Except Abort Nat) = .ok status ↔ channel.Answers status :=
    fun e no => ⟨fun h => absurd h no, fun _ => rfl, fun status => by
      simpa using fun h : channel.Answers status => no h.accepted⟩
  refine Emits.ofExcept_bind (fun _ opened => Emits.ofExcept_bind (fun _ sent => ?_) ?_) ?_
  · have accepted : channel.Accepted := ⟨opened, sent⟩
    refine Emits.emit_bind (by simp) ((waitFrames_emits channel.frames).mono ?_)
    rintro r es ⟨quiet, answer⟩
    refine ⟨fun _ => ⟨es, quiet, rfl⟩, fun h => absurd accepted h, fun status => ?_⟩
    rw [answer]
    exact ⟨fun h => ⟨accepted, h.1, h.2⟩, fun h => ⟨h.decodes, h.status⟩⟩
  · intro e he
    exact refused e fun h => by simp [h.exec] at he
  · intro e he
    exact refused e fun h => by simp [h.opened] at he

/-- The line of a check is preliminary work, whatever the server does with it. -/
theorem executeCommand_check (ensure : Ensure) (channel : ChannelRun) :
    Emits (executeCommand (.check ensure) channel) fun r es => Quiet es ∧
      ∀ status, r = .ok status ↔ channel.Answers status := by
  refine (executeCommand_emits _ channel).mono ?_
  rintro r es ⟨accepted, refused, answer⟩
  refine ⟨?_, answer⟩
  by_cases h : channel.Accepted
  · obtain ⟨output, quiet, rfl⟩ := accepted h
    exact quiet.cons rfl
  · rw [refused h]
    exact Quiet.nil

/-- No ensure is returned exactly when every one passes. -/
theorem ensureTask_emits (check : Nat → ChannelRun) (i : Nat) (ensures : List Ensure) :
    Emits (ensureTask check i ensures) fun r es => Quiet es ∧ (r = .ok [] ↔
      ∀ j, ∀ ensure ∈ ensures[j]?,
        ∃ status, (check (i + j)).Answers status ∧ ensure.passes status) := by
  induction ensures generalizing i with
  | nil => exact Emits.pure ⟨Quiet.nil, by simp⟩
  | cons ensure ensures ih =>
      rw [forall_numbered_cons fun j (e : Ensure) =>
        ∃ status, (check j).Answers status ∧ e.passes status]
      refine Emits.sink_bind (Emits.bind (executeCommand_check ensure (check i)) ?_ ?_)
      · rintro status es ⟨quiet, answer⟩
        have answers : (check i).Answers status := (answer status).mp rfl
        have passes : (∃ status, (check i).Answers status ∧ ensure.passes status) ↔
            ensure.passes status := by
          refine ⟨?_, fun h => ⟨status, answers, h⟩⟩
          rintro ⟨status', h, pass⟩
          rwa [answers.status, ← h.status]
        rw [passes]
        refine Emits.bind (ih (i + 1)) ?_ ?_
        · rintro failures es' ⟨quiet', rest⟩
          refine Emits.pure ⟨(quiet.append (quiet'.append Quiet.nil)).cons rfl, ?_⟩
          rw [← rest]
          cases ensure.passes status <;> simp
        · rintro e es' ⟨quiet', rest⟩
          exact ⟨(quiet.append quiet').cons rfl, by simpa using fun _ => rest⟩
      · rintro e es ⟨quiet, answer⟩
        refine ⟨quiet.cons rfl, ?_⟩
        simp only [reduceCtorEq, false_iff]
        rintro ⟨⟨status, h, -⟩, -⟩
        cases (answer status).mpr h

theorem executeTask_emits (task : PlannedTask) (host : SshTask) :
    Emits (executeTask task host)
      (Attempt (host.Reaches task) (host.Done task) (.exec (.command task))) := by
  have imp : host.Done task → host.Reaches task := fun h => h.reaches
  refine Emits.sink_bind (Emits.bind (ensureTask_emits host.check 0 task.ensures) ?_ ?_)
  · rintro failures pre ⟨quiet, ensured⟩
    simp only [Nat.zero_add, Except.ok.injEq] at ensured
    cases failures with
    | nil =>
        have pass : host.EnsuresPass task := ensured.mp rfl
        have quiet := quiet.cons (e := .sunk (.next ["** executing task: " ++ task.name])) rfl
        refine Emits.sink_bind (Emits.bind (executeCommand_emits _ host.command) ?_ ?_)
        · rintro status es ⟨accepted, -, answer⟩
          have answers := (answer status).mp rfl
          obtain ⟨output, quiet', rfl⟩ := accepted answers.accepted
          have reaches : host.Reaches task := ⟨pass, answers.accepted⟩
          refine Emits.sink_bind (Emits.pure ⟨fun _ => ?_, fun no => absurd reaches no, ?_⟩)
          · exact ⟨_, _, quiet.append (Quiet.sunk ["* executing task: " ++ task.name]),
              quiet'.append (Quiet.sunk [""]), by simp⟩
          · exact ⟨fun _ => ⟨reaches, answers.decodes⟩, fun _ => rfl⟩
        · rintro e es ⟨accepted, refused, answer⟩
          by_cases h : host.command.Accepted
          · obtain ⟨output, quiet', rfl⟩ := accepted h
            have reaches : host.Reaches task := ⟨pass, h⟩
            refine ⟨fun _ => ?_, fun no => absurd reaches no, ?_⟩
            · exact ⟨_, _, quiet.append (Quiet.sunk ["* executing task: " ++ task.name]), quiet',
                by simp⟩
            · simp only [reduceCtorEq, false_iff]
              intro hd
              cases (answer _).mpr ⟨h, hd.decodes, rfl⟩
          · rw [refused h]
            exact Attempt.early (quiet.append (Quiet.sunk _)) (fun hr => h hr.accepted) imp
    | cons failure failures =>
        have fails : ¬ host.EnsuresPass task := fun h => by cases ensured.mpr h
        exact Emits.sink_bind (Emits.throw (Attempt.early
          ((quiet.append (Quiet.sunk _)).cons rfl) (fun h => fails h.ensured) imp))
  · rintro e pre ⟨quiet, ensured⟩
    have fails : ¬ host.EnsuresPass task := fun h => by
      cases ensured.mpr (by simpa [SshTask.EnsuresPass] using h)
    exact Attempt.early (quiet.cons rfl) (fun h => fails h.ensured) imp

end SshExecutor

namespace SshHost

variable (host : SshHost)

/-- The connection is up and the key is accepted. -/
structure Connected : Prop where
  connect : host.connect = .ok ⟨⟩
  authenticate : host.authenticate = .ok true

/-- The server is up and refuses the key. -/
structure Refuses : Prop where
  connect : host.connect = .ok ⟨⟩
  authenticate : host.authenticate = .ok false

/-- The run can hand task number `k` to the server. -/
structure Reaches (k : Nat) (task : PlannedTask) : Prop where
  connected : host.Connected
  reaches : (host.task k).Reaches task

/-- The run can execute task number `k` without an error. -/
structure Done (k : Nat) (task : PlannedTask) : Prop where
  connected : host.Connected
  isDone : (host.task k).Done task

theorem Done.reaches {host : SshHost} {k : Nat} {task : PlannedTask} (h : host.Done k task) :
    host.Reaches k task := ⟨h.connected, h.isDone.reaches⟩

end SshHost

namespace SshExecutor

/-- One round of the loop of `execute`, on a session that is up. -/
theorem task_emits {behaviour : SshHost} (h : behaviour.Connected) (k : Nat)
    (task : PlannedTask) :
    Emits (executeTask task (behaviour.task k) >>= fun _ => Exec.count)
      (TaskSpec (behaviour.Reaches k task) (behaviour.Done k task) task) := by
  have reaches : (behaviour.task k).Reaches task ↔ behaviour.Reaches k task :=
    ⟨fun hr => ⟨h, hr⟩, fun hr => hr.reaches⟩
  have done : (behaviour.task k).Done task ↔ behaviour.Done k task :=
    ⟨fun hd => ⟨h, hd⟩, fun hd => hd.isDone⟩
  have spec := taskSpec_of_attempt (executeTask_emits task (behaviour.task k)) rfl
  rwa [propext reaches, propext done] at spec

theorem execute_emits (host : Host) (hostname : String) (plan : Plan) (behaviour : SshHost) :
    Emits (execute host hostname plan behaviour) fun r es => ∃ n m,
      Applied behaviour.Connected behaviour.Refuses behaviour.Reaches behaviour.Done
        plan.blueprint r es n m := by
  have imp : ∀ k task, behaviour.Done k task → behaviour.Reaches k task :=
    fun k task h => h.reaches
  -- Without a session no task is started.
  have blocked : ∀ {es : List Event} {e : Abort}, ¬ behaviour.Connected → commands es = [] →
      es.count .counted = 0 → (behaviour.Refuses → EndsStream es) →
      (¬ behaviour.Refuses → .«end» ∉ messages es) →
      Applied behaviour.Connected behaviour.Refuses behaviour.Reaches behaviour.Done
        plan.blueprint (.error e) es 0 0 := fun no silent uncounted ended unended =>
    ⟨Progress.none silent uncounted (fun _ _ h => no h.connected) imp, by simp [no],
      by simpa using ended, by simpa using unended⟩
  refine Emits.sink_bind (Emits.emit_bind (by simp) (Emits.ofExcept_bind ?_ ?_))
  · intro _ connect
    refine Emits.emit_bind (by simp) (Emits.ofExcept_bind ?_ ?_)
    · intro authenticated auth
      cases authenticated with
      | true =>
          have connected : behaviour.Connected := ⟨connect, auth⟩
          have notRefused : ¬ behaviour.Refuses := fun h => by simp [h.authenticate] at auth
          refine Emits.bind (runTasks_emits (task_emits connected) imp 0 plan.blueprint) ?_ ?_
          · rintro ⟨⟩ es ⟨quiet, n, m, progress, ok⟩
            refine Emits.get_bind fun s => Emits.sink_bind (Emits.sink_bind (Emits.pure
              ⟨n, m, progress.congr (by simp) (by simp), ?_, fun _ => ?_, by simp⟩))
            · simpa [connected] using ok
            · exact endsStream_next (endsStream_append quiet)
          · rintro e es ⟨quiet, n, m, progress, ok⟩
            refine ⟨n, m, progress.congr (by simp) (by simp), ?_, by simp [notRefused],
              fun _ => by simpa using quiet⟩
            simpa [connected] using ok
      | false =>
          have refuses : behaviour.Refuses := ⟨connect, auth⟩
          refine Emits.sink_bind (Emits.sink_bind (Emits.throw ⟨0, 0, blocked ?_ rfl rfl
            (fun _ => ?_) (fun no => absurd refuses no)⟩))
          · intro h
            simp [h.authenticate] at auth
          · exact endsStream_next (@endsStream_append [_, _] _ (by simp))
    · intro e auth
      refine ⟨0, 0, blocked (fun h => ?_) rfl rfl (fun h => ?_) (fun _ => by simp)⟩
      · simp [h.authenticate] at auth
      · simp [h.authenticate] at auth
  · intro e connect
    refine ⟨0, 0, blocked (fun h => ?_) rfl rfl (fun h => ?_) (fun _ => by simp)⟩
    · simp [h.connect] at connect
    · simp [h.connect] at connect

/-- The error of a run whose key is refused, before any task. -/
theorem execute_refused (host : Host) (hostname : String) (plan : Plan) {behaviour : SshHost}
    (refuses : behaviour.Refuses) : Emits (execute host hostname plan behaviour) fun r es =>
      r = .error (.error (.msg "ssh authentication failed!")) ∧ es.count .counted = 0 := by
  refine Emits.sink_bind (Emits.emit_bind (by simp) (Emits.ofExcept_bind ?_ ?_))
  · intro _ _
    refine Emits.emit_bind (by simp) (Emits.ofExcept_bind ?_ ?_)
    · intro accepted authenticated
      obtain rfl : accepted = false := by
        rw [refuses.authenticate] at authenticated
        exact (Except.ok.inj authenticated).symm
      exact Emits.sink_bind (Emits.sink_bind (Emits.throw ⟨rfl, by simp⟩))
    · intro e failed
      rw [refuses.authenticate] at failed
      cases failed
  · intro e failed
    rw [refuses.connect] at failed
    cases failed

end SshExecutor

end There
