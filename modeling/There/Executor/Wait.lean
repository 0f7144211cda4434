import There.Concurrent.Runs
import There.Executor.Chunking
import There.Posix.Process

/-!
# The wait loop while the child runs

The rounds of the wait loop and the steps of the child, in any order. A round begins with
`try_wait`. If the child still runs, `select!` asks both streams for their next chunk and
takes one that is there; it leaves the loop if neither has one. A stream has none at its
end, and once after an error.

What the rounds make of the log is what the loop of the executor makes of the same rounds.
-/

namespace There

open Concurrent Posix Text

namespace LocalStream

/-- The round in which a read of the stream fails. -/
def failure : LocalStream → Report → Turn
  | stdout, e => .stdout (.error e)
  | stderr, e => .stderr (.error e)

end LocalStream

/-- The chunk that is read in a round. -/
def Turn.piece : Turn → Option (LocalStream × ByteArray)
  | stdout (.ok bytes) => some (.stdout, bytes)
  | stderr (.ok bytes) => some (.stderr, bytes)
  | _ => none

inductive WaitPhase where
  /-- About to ask `try_wait`. -/
  | polling
  /-- In `select!`, where these streams have had no next chunk. -/
  | selecting (disabled : List LocalStream)
  /-- Out of the loop. -/
  | left
deriving Repr, DecidableEq

/-- A child and the loop that waits for it. -/
structure Wait where
  child : Process LocalStream := {}
  phase : WaitPhase := .polling
  /-- The streams whose last read has failed: their `FramedRead` ends once. -/
  failed : List LocalStream := []
  turns : List Turn := []

namespace Wait

inductive Action where
  /-- The child takes a step. -/
  | child (act : Process.Action LocalStream)
  | tryWait
  | tryWaitFails
  /-- `next` of the stream returns a chunk of `n` bytes, an error, or nothing. -/
  | next (stream : LocalStream) (n : Nat)
  | nextFails (stream : LocalStream) (e : Report)
  | nextNone (stream : LocalStream)
  /-- The `else` branch of `select!`. -/
  | exhausted

def step (s : Wait) : Action → Option Wait
  | .child act => (s.child.step act).map fun child => { s with child }
  | .tryWait =>
      match s.phase with
      | .polling =>
          if s.child.exited then some { s with phase := .left }
          else some { s with phase := .selecting [] }
      | _ => none
  | .tryWaitFails =>
      match s.phase with
      | .polling => some { s with phase := .left }
      | _ => none
  | .next stream n =>
      match s.phase with
      | .selecting disabled =>
          if stream ∈ disabled ∨ stream ∈ s.failed then none
          else (s.child.read stream n).map fun (bytes, child) =>
            { s with child, phase := .polling, turns := s.turns ++ [stream.turn bytes] }
      | _ => none
  | .nextFails stream e =>
      match s.phase with
      | .selecting disabled =>
          if stream ∈ disabled ∨ stream ∈ s.failed then none
          else some { s with
            phase := .polling
            failed := stream :: s.failed
            turns := s.turns ++ [stream.failure e] }
      | _ => none
  | .nextNone stream =>
      match s.phase with
      | .selecting disabled =>
          if stream ∈ disabled then none
          else if stream ∈ s.failed then some { s with
            phase := .selecting (stream :: disabled)
            failed := s.failed.filter (· ≠ stream) }
          else if (s.child.pipe stream).atEnd then
            some { s with phase := .selecting (stream :: disabled) }
          else none
      | _ => none
  | .exhausted =>
      match s.phase with
      | .selecting disabled =>
          if .stdout ∈ disabled ∧ .stderr ∈ disabled then
            some { s with phase := .left, turns := s.turns ++ [.exhausted] }
          else none
      | _ => none

/-- The chunks that were read, in order. -/
def pieces (s : Wait) : List (LocalStream × ByteArray) := s.turns.filterMap Turn.piece

/-- The loop is left only when nothing is unread, and the child writes nothing after that. -/
def InTime (s : Wait) : Action → Prop
  | .tryWait => s.child.exited → s.child.Drained
  | .tryWaitFails => s.child.Drained
  | .exhausted => s.child.Drained
  | .child act => s.phase = .left → act.Silent
  | _ => True

variable {s t : Wait}

/-- What the steps do: the child goes on, `try_wait` starts a round, a round is over, or
the loop is left. -/
inductive Moves (s : Wait) : Action → Wait → Prop where
  | child {act : Process.Action LocalStream} {child : Process LocalStream} :
      s.child.step act = some child → Moves s (.child act) { s with child }
  | waits : s.phase = .polling → s.child.exited = false →
      Moves s .tryWait { s with phase := .selecting [] }
  | exits : s.phase = .polling → s.child.exited = true →
      Moves s .tryWait { s with phase := .left }
  | fails : s.phase = .polling → Moves s .tryWaitFails { s with phase := .left }
  | reads {disabled : List LocalStream} {stream : LocalStream} {n : Nat} {bytes : ByteArray}
      {child : Process LocalStream} : s.phase = .selecting disabled →
      s.child.read stream n = some (bytes, child) → Moves s (.next stream n)
        { s with child, phase := .polling, turns := s.turns ++ [stream.turn bytes] }
  | readFails {disabled : List LocalStream} {stream : LocalStream} {e : Report} :
      s.phase = .selecting disabled → Moves s (.nextFails stream e)
        { s with
          phase := .polling
          failed := stream :: s.failed
          turns := s.turns ++ [stream.failure e] }
  | none {disabled : List LocalStream} {stream : LocalStream} {failed : List LocalStream} :
      s.phase = .selecting disabled →
      Moves s (.nextNone stream) { s with phase := .selecting (stream :: disabled), failed }
  | exhausted {disabled : List LocalStream} : s.phase = .selecting disabled →
      Moves s .exhausted { s with phase := .left, turns := s.turns ++ [.exhausted] }

theorem step_moves {act : Action} (h : s.step act = some t) : s.Moves act t := by
  cases act with
  | child act =>
      obtain ⟨child, stepped, rfl⟩ := Option.map_eq_some_iff.mp h
      exact .child stepped
  | tryWait =>
      simp only [step] at h
      split at h
      · split at h <;> cases h
        · exact .exits ‹_› ‹_›
        · exact .waits ‹_› (by simpa using ‹¬ s.child.exited = true›)
      · cases h
  | tryWaitFails =>
      simp only [step] at h
      split at h <;> cases h
      exact .fails ‹_›
  | next stream n =>
      simp only [step] at h
      split at h
      · split at h
        · cases h
        · obtain ⟨⟨bytes, child⟩, read, rfl⟩ := Option.map_eq_some_iff.mp h
          exact .reads ‹_› read
      · cases h
  | nextFails stream e =>
      simp only [step] at h
      split at h
      · split at h <;> cases h
        exact .readFails ‹_›
      · cases h
  | nextNone stream =>
      simp only [step] at h
      split at h
      · split at h
        · cases h
        · split at h
          · cases h
            exact .none ‹_›
          · split at h <;> cases h
            exact .none ‹_›
      · cases h
  | exhausted =>
      simp only [step] at h
      split at h
      · split at h <;> cases h
        exact .exhausted ‹_›
      · cases h

/-- Nothing was lost so far: outside the loop nothing is left unread. -/
def Kept (s : Wait) : Prop := s.phase = .left → s.child.Drained

/-- Output is lost by leaving the loop too early or writing too late, and once it is lost
nobody reads it any more. -/
theorem kept_step {act : Action} (h : s.step act = some t) : t.Kept ↔ s.Kept ∧ s.InTime act := by
  cases step_moves h with
  | child stepped =>
      have drained := Process.drained_step stepped
      by_cases left : s.phase = .left
      · simp [Kept, InTime, left, drained]
      · simp [Kept, InTime, left]
  | waits polling running => simp [Kept, InTime, polling, running]
  | exits polling exited => simp [Kept, InTime, polling, exited]
  | fails polling => simp [Kept, InTime, polling]
  | reads selecting | readFails selecting | none selecting | exhausted selecting =>
      simp [Kept, InTime, selecting]

/-- The chunks read are accounted for, and the loop is left with the last round. -/
structure Inv (s : Wait) : Prop where
  accounts : ∀ stream, (s.child.pipe stream).Accounts (ofStream stream s.pieces)
  rounds : ∃ body : List Turn, (∀ turn ∈ body, turn.isExhausted = false) ∧
    (s.turns = body ∨ s.phase = .left ∧ s.turns = body ++ [.exhausted])

theorem ofStream_append {τ : Type} [DecidableEq τ] (stream : τ)
    (pieces pieces' : List (τ × ByteArray)) :
    ofStream stream (pieces ++ pieces') = ofStream stream pieces ++ ofStream stream pieces' :=
  List.filterMap_append

/-- A round that is over and does not leave the loop. -/
theorem Inv.round {child : Process LocalStream} {failed : List LocalStream} {turn : Turn}
    (inv : s.Inv) (going : s.phase ≠ .left) (reads : turn.isExhausted = false)
    (accounts : ∀ stream, (child.pipe stream).Accounts
      (ofStream stream s.pieces ++ ofStream stream turn.piece.toList)) :
    Inv { child, phase := .polling, failed, turns := s.turns ++ [turn] } where
  accounts stream := by
    have pieces : pieces { child, phase := .polling, failed, turns := s.turns ++ [turn] } =
        s.pieces ++ turn.piece.toList := by
      rw [Wait.pieces, List.filterMap_append, Wait.pieces, List.filterMap_cons, List.filterMap_nil]
      cases turn.piece <;> rfl
    rw [pieces, ofStream_append]
    exact accounts stream
  rounds := by
    obtain ⟨body, goes, same | ⟨left, -⟩⟩ := inv.rounds
    · refine ⟨body ++ [turn], ?_, .inl (by rw [same])⟩
      simpa [or_imp, forall_and, reads] using goes
    · exact absurd left going

/-- A phase that does not go back into the loop. -/
theorem Inv.moved {phase : WaitPhase} {failed : List LocalStream} (inv : s.Inv)
    (going : s.phase ≠ .left) : Inv { s with phase, failed } where
  accounts := inv.accounts
  rounds := by
    obtain ⟨body, goes, same | ⟨left, -⟩⟩ := inv.rounds
    · exact ⟨body, goes, .inl same⟩
    · exact absurd left going

theorem Inv.step {act : Action} (inv : s.Inv) (h : s.step act = some t) : t.Inv := by
  cases step_moves h with
  | child stepped => exact ⟨Process.accounts_step stepped inv.accounts, inv.rounds⟩
  | waits polling | exits polling | fails polling => exact inv.moved (by simp [polling])
  | none selecting => exact inv.moved (by simp [selecting])
  | @reads disabled stream n bytes child selecting read =>
      refine inv.round (by simp [selecting]) (by cases stream <;> rfl) fun other => ?_
      have accounts := Process.accounts_read read inv.accounts other
      by_cases same : stream = other
      · subst same
        cases stream <;> simpa [LocalStream.turn, Turn.piece, ofStream] using accounts
      · cases stream <;> simpa [LocalStream.turn, Turn.piece, ofStream, same] using accounts
  | @readFails disabled stream e selecting =>
      refine inv.round (by simp [selecting]) (by cases stream <;> rfl) fun other => ?_
      cases stream <;> simpa [LocalStream.failure, Turn.piece, ofStream] using inv.accounts other
  | exhausted selecting =>
      refine ⟨fun stream => ?_, ?_⟩
      · have pieces : pieces { s with phase := .left, turns := s.turns ++ [.exhausted] } =
            s.pieces := by
          rw [Wait.pieces, List.filterMap_append]
          exact List.append_nil _
        rw [pieces]
        exact inv.accounts stream
      · obtain ⟨body, goes, same | ⟨left, -⟩⟩ := inv.rounds
        · exact ⟨body, goes, .inr ⟨rfl, by rw [same]⟩⟩
        · exact absurd left (by simp [selecting])

theorem inv_new : Inv {} where
  accounts _ := rfl
  rounds := ⟨[], by simp, .inl rfl⟩

theorem inv_of_run {trace : List Action} (ran : Reachable.run step {} trace = some s) : s.Inv := by
  have reached : Reachable step (fun _ _ => True) {} s :=
    Reachable.start.run_of_forall (fun _ _ _ => trivial) ran
  exact reached.invariant inv_new fun _ _ _ _ stepped inv => inv.step stepped

/-- The rounds are logged as the chunks that they read. -/
theorem Inv.batches (inv : s.Inv) : (s.turns.takeWhile (!·.isExhausted)).filterMap Turn.batch =
    s.pieces.map fun piece => .next [textOrDebug piece.2] := by
  have each : ∀ turn : Turn, turn.batch =
      turn.piece.map fun piece => PartialLogStream.next [textOrDebug piece.2] := by
    rintro ((_ | _) | (_ | _) | _) <;> rfl
  obtain ⟨body, goes, same⟩ := inv.rounds
  have whole : body.takeWhile (!·.isExhausted) = body := by
    rw [List.takeWhile_eq_self_iff]
    simpa using goes
  have rounds : s.turns.takeWhile (!·.isExhausted) = body := by
    obtain same | ⟨-, same⟩ := same
    · rw [same, whole]
    · rw [same, List.takeWhile_append_of_pos (by simpa using goes)]
      exact List.append_nil body
  have read : s.pieces = body.filterMap Turn.piece := by
    obtain same | ⟨-, same⟩ := same
    · rw [pieces, same]
    · rw [pieces, same, List.filterMap_append]
      exact List.append_nil _
  rw [rounds, read, List.map_filterMap]
  exact List.filterMap_congr fun turn _ => each turn

end Wait

namespace SimpleExecutor

/-- The ensures of a task that may run, as they are announced. -/
def announced (task : PlannedTask) : List PartialLogStream :=
  task.ensures.map fun ensure => .next ["ensuring " ++ ensure.debug]

theorem ensureTask_messages (probe : Nat → Probe) (i : Nat) (ensures : List Ensure) :
    Emits (ensureTask probe i ensures) fun r es => (∃ failures, r = .ok failures) →
      messages es = ensures.map fun ensure => .next ["ensuring " ++ ensure.debug] := by
  induction ensures generalizing i with
  | nil => exact Emits.pure fun _ => rfl
  | cons ensure ensures ih =>
      refine Emits.sink_bind (Emits.emit_bind (by simp) (Emits.ofExcept_bind ?_ ?_))
      · intro pass _
        refine Emits.bind (ih (i + 1)) ?_ ?_
        · intro failures es sunk
          exact Emits.pure fun _ => by simpa using sunk ⟨failures, rfl⟩
        · rintro e es - ⟨_, ⟨⟩⟩
      · rintro e _ ⟨_, ⟨⟩⟩

theorem executeTask_messages (task : PlannedTask) (host : LocalTask) :
    Emits (executeTask task host) fun r es => r = .ok ⟨⟩ → messages es = announced task ++
      (host.child.turns.takeWhile (!·.isExhausted)).filterMap Turn.batch ++ [.next [""]] := by
  refine Emits.bind (ensureTask_messages host.probe 0 task.ensures) ?_ ?_
  · intro failures pre announces
    have pre_messages := announces ⟨failures, rfl⟩
    cases failures with
    | nil =>
        rw [List.isEmpty_nil, if_pos rfl]
        cases command : task.command with
        | nil => exact Emits.throw (by simp)
        | cons cmd args =>
            refine Emits.ofExcept_bind (fun _ _ => ?_) fun e _ => by simp
            refine Emits.emit_bind (by simp) (Emits.bind (waitTurns_messages _) ?_ ?_)
            · intro _ output sunk
              refine Emits.sink_bind (Emits.count fun _ => ?_)
              simp [announced, pre_messages, sunk]
            · simp
    | cons failure failures => exact Emits.sink_bind (Emits.throw (by simp))
  · simp

end SimpleExecutor

namespace Wait

variable {s : Wait}

/-- What is expected of the log of a task: after its ensures an entry for each chunk that
was read, and the chunks of each stream are everything that was written to it. -/
structure Sunk (task : PlannedTask) (s : Wait) (ms : List PartialLogStream) : Prop where
  entries : ms = SimpleExecutor.announced task ++
    (s.pieces.map fun piece => .next [textOrDebug piece.2]) ++ [.next [""]]
  complete : ∀ stream, joined (ofStream stream s.pieces) = (s.child.pipe stream).written

/-- No output is lost exactly if the loop is left in time, and the child stops writing. -/
theorem sunk_iff {task : PlannedTask} {host : LocalTask} {record : Record}
    {trace : List Action} (receiver : record.receiver = none)
    (ran : Reachable.run step {} trace = some s) (left : s.phase = .left)
    (turns : host.child.turns = s.turns)
    (returned : Effect.outcome (SimpleExecutor.executeTask task host record) = .ok ⟨⟩) :
    s.Sunk task (logged (SimpleExecutor.executeTask task host) record) ↔
      Reachable.Along step InTime {} trace := by
  have inv := inv_of_run ran
  obtain ⟨-, es, events, -, sunk⟩ := SimpleExecutor.executeTask_messages task host record receiver
  have entries := sunk returned
  rw [turns, inv.batches] at entries
  have kept : s.Kept ↔ Reachable.Along step InTime {} trace := by
    rw [Reachable.iff_along (fun _ _ _ => kept_step) ran]
    exact and_iff_right nofun
  rw [← kept]
  constructor
  · intro sunk _ stream
    exact (inv.accounts stream).joined_eq_written_iff.mp (sunk.complete stream)
  · intro kept
    refine ⟨by rw [logged_eq events, entries], fun stream => ?_⟩
    exact (inv.accounts stream).joined_eq_written_iff.mpr (kept left stream)

/-- A run of the loop that is over. -/
theorem exists_of_run (trace : List Action)
    (h : (Reachable.run step {} trace).any fun s => s.phase = .left) :
    ∃ s, Reachable.run step {} trace = some s ∧ s.phase = .left := by
  obtain ⟨s, ran, left⟩ := (Option.any_eq_true _ _).mp h
  exact ⟨s, ran, of_decide_eq_true left⟩

namespace Echo

def task : PlannedTask := ⟨"test", ["echo", "hello"], [.exeExists "echo"], ["localhost"]⟩

def hello : ByteArray := ⟨#[104, 101, 108, 108, 111, 10]⟩

/-- The executable is found, and the child goes through these rounds. -/
def host (turns : List Turn) : LocalTask where
  probe _ := ⟨.ok .file, .ok .file, .ok ⟨⟩⟩
  child := ⟨.ok ⟨⟩, turns, some 0⟩

/-- The output is read before the child exits. -/
def read : List Action :=
  [.tryWait, .child (.write .stdout hello), .next .stdout 6, .child .exit, .tryWait]

/-- The child has exited before it is asked for the first time. -/
def unread : List Action := [.child (.write .stdout hello), .child .exit, .tryWait]

theorem outcome_executeTask (turns : List Turn) :
    Effect.outcome (SimpleExecutor.executeTask task (host turns) (.fresh none)) = .ok ⟨⟩ := by
  have reaches : (host turns).Reaches task := by
    refine ⟨?_, by decide, rfl⟩
    rintro (_ | i) ensure listed
    · obtain rfl := Option.some.inj listed
      rfl
    · cases listed
  obtain ⟨-, _, -, -, spec⟩ :=
    SimpleExecutor.executeTask_emits task (host turns) (.fresh none) rfl
  exact spec.ok.mpr reaches

theorem sunk_read : ∃ s, Reachable.run step {} read = some s ∧ s.phase = .left ∧
    s.Sunk task (logged (SimpleExecutor.executeTask task (host s.turns)) (.fresh none)) := by
  obtain ⟨s, ran, left⟩ := exists_of_run read (by decide +kernel)
  have kept : s.Kept := by
    obtain rfl : _ = s := Option.some.inj ran
    rintro - (_ | _) <;> decide +kernel
  have inTime := ((Reachable.iff_along (fun _ _ _ => kept_step) ran).mp kept).2
  exact ⟨s, ran, left, (sunk_iff rfl ran left rfl (outcome_executeTask s.turns)).mpr inTime⟩

theorem not_sunk_unread : ¬ ∀ task host record trace s, record.receiver = none →
    Reachable.run step {} trace = some s → s.phase = .left → host.child.turns = s.turns →
    Effect.outcome (SimpleExecutor.executeTask task host record) = .ok ⟨⟩ →
    s.Sunk task (logged (SimpleExecutor.executeTask task host) record) := by
  intro sunk
  obtain ⟨s, ran, left⟩ := exists_of_run unread (by decide +kernel)
  have complete := (sunk task (host s.turns) (.fresh none) unread s rfl ran left rfl
    (outcome_executeTask s.turns)).complete .stdout
  obtain rfl : _ = s := Option.some.inj ran
  exact absurd complete (by decide +kernel)

end Echo

end Wait

end There
