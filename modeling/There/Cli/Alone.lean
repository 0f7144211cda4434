import There.Cli.Apply
import There.Concurrent.Runs

/-!
# A future of the CLI by itself

What a `do_apply` of the CLI issues to its host and what it returns are determined by its
arguments and by how its own key, host and machine behave. Unless it panics it gets to its
end by steps of its own, and the order of these steps does not decide which end it is.
-/

namespace There

namespace Cli

open Concurrent

namespace Apply

/-- Everything that the executor will ever do. -/
def events (a : Apply) : List Event :=
  match a.loaded with
  | .ok _ => (Effect.finalState (a.run none)).events
  | .error _ => []

/-- What the future returns, if it does. -/
def final (a : Apply) : Option ApplyResult :=
  match a.loaded, a.executed none with
  | .error e, _ => some (.error e)
  | .ok _, .ok (.joining result) => some (a.joined result)
  | .ok _, .ok (.returned result) => some result
  | .ok _, _ => none

/-- What the future may have issued by now. -/
def Issued (a : Apply) : List Event → Prop := There.Issued a.events a.sent a.stage

/-- Whether the future returns at all: an executor that is started has to end its stream,
unless its error is returned at once. -/
def Returns (a : Apply) : Prop :=
  a.loaded.isOk → (∃ r, a.executed none = .ok (.returned r)) ∨ .«end» ∈ messages a.events

/-- The channel is accounted for, and the results on the way are those of a run whose
receiver is kept. -/
structure Settled (a : Apply) : Prop where
  feeds : Feeds (messages a.events) a.sent a.log a.reading
  room : 0 < a.log.rx.capacity
  sender : a.log.rx.sender = false → a.stage.gone
  stops : a.reading = false ∨ a.stage.gone → a.Returns
  unsent : a.stage.early → a.sent = 0
  preparing : a.stage = .preparing → a.dispatch.executorType = .ssh
  loaded : a.stage.underway → a.loaded.isOk
  ran : a.stage.ran → (messages a.events).take a.sent = messages a.events
  joining : ∀ r, a.stage = .joining r → a.executed none = .ok (.joining r)
  returned : ∀ r, a.stage = .returned r → a.final = some r

theorem settled_new (d : Dispatch) (w : World) : Settled { dispatch := d, world := w } where
  feeds := .new _
  room := Nat.zero_lt_succ _
  sender := by simp
  stops := by simp [Stage.gone]
  unsent := fun _ => rfl
  preparing := by simp
  loaded := by simp [Stage.underway]
  ran := by simp [Stage.ran]
  joining := by simp
  returned := by simp

variable {a a' : Apply}

/-- Neither executor sends anything after the end of the stream. -/
theorem end_last (a : Apply) {before after : List PartialLogStream}
    (h : messages a.events = before ++ .«end» :: after) : after = [] := by
  rw [events] at h
  cases loaded : a.loaded with
  | error e => simp [loaded] at h
  | ok u =>
      simp only [loaded, run] at h
      cases kind : a.dispatch.executorType with
      | «local» =>
          obtain ⟨⟨n, m, applied⟩, -⟩ :=
            (SimpleExecutor.execute_emits a.dispatch.plan a.world.machine).fresh
          rw [kind] at h
          exact applied.end_last h
      | ssh =>
          obtain ⟨⟨n, m, applied⟩, -⟩ := (SshExecutor.execute_emits a.dispatch.host
            a.dispatch.hostname a.dispatch.plan a.world.server).fresh
          rw [kind] at h
          exact applied.end_last h

theorem script_eq (loaded : a.loaded.isOk) : messages a.events = a.script := by
  rw [events, script]
  cases h : a.loaded with
  | ok u => rfl
  | error e => rw [h] at loaded; cases loaded

/-- An executor that comes to an end leaves the future waiting or returned. -/
theorem executed_eq_ok {receiver : Option Nat} {stage : Stage}
    (h : a.executed receiver = .ok stage) :
    (∃ result, stage = .joining result) ∨ ∃ result, stage = .returned result := by
  simp only [executed] at h
  split at h
  · exact .inl ⟨_, (Except.ok.inj h).symm⟩
  · exact .inr ⟨_, (Except.ok.inj h).symm⟩
  · exact .inl ⟨_, (Except.ok.inj h).symm⟩
  · cases h

theorem final_of_executed {stage : Stage} (loaded : a.loaded.isOk)
    (h : a.executed none = .ok stage) :
    (∀ r, stage = .joining r → a.final = some (a.joined r)) ∧
      ∀ r, stage = .returned r → a.final = some r := by
  rw [final, h]
  cases key : a.loaded with
  | error e => rw [key] at loaded; cases loaded
  | ok u =>
      constructor
      · rintro r rfl
        rfl
      · rintro r rfl
        rfl

/-- A future that has not returned keeps its sender. -/
theorem Settled.alive (settled : a.Settled) (here : a.stage.gone = false) :
    a.log.rx.sender = true := by
  by_contra dropped
  have gone := settled.sender (by simpa using dropped)
  rw [here] at gone
  cases gone

/-- The executor can be started, and is. -/
theorem Settled.execute (settled : a.Settled) (here : a.stage.gone = false)
    (loaded : a.loaded.isOk) : Settled { a with stage := .executing } where
  feeds := settled.feeds
  room := settled.room
  sender := by simp [settled.alive here]
  stops := fun h => settled.stops (.inl (h.resolve_right (by simp [Stage.gone])))
  unsent := by simp [Stage.early]
  preparing := by simp
  loaded := fun _ => loaded
  ran := by simp [Stage.ran]
  joining := by simp
  returned := by simp

/-- The future waits for its reader now. -/
theorem Settled.wait {r : Except Report Nat} (settled : a.Settled) (here : a.stage.gone = false)
    (loaded : a.loaded.isOk) (all : (messages a.events).take a.sent = messages a.events)
    (h : a.executed none = .ok (.joining r)) : Settled { a with stage := .joining r } where
  feeds := settled.feeds
  room := settled.room
  sender := by simp [settled.alive here]
  stops := fun h => settled.stops (.inl (h.resolve_right (by simp [Stage.gone])))
  unsent := by simp [Stage.early]
  preparing := by simp
  loaded := fun _ => loaded
  ran := fun _ => all
  joining := by
    rintro _ ⟨⟩
    exact h
  returned := by simp

/-- The future returns, and has nothing more to send. -/
theorem Settled.return {r : ApplyResult} (settled : a.Settled)
    (all : (messages a.events).take a.sent = messages a.events) (h : a.final = some r)
    (returns : a.Returns) : Settled (a.enter (.returned r)) where
  feeds := settled.feeds.dropSender all
  room := settled.room
  sender := fun _ => rfl
  stops := fun _ => returns
  unsent := by simp [enter, Stage.early]
  preparing := by simp [enter]
  loaded := by simp [enter, Stage.underway]
  ran := fun _ => all
  joining := by simp [enter]
  returned := by
    rintro _ ⟨⟩
    exact h

/-- An executor that has sent everything comes to its end. -/
theorem Settled.finish {stage : Stage} (settled : a.Settled) (executing : a.stage = .executing)
    (stop : a.script[a.sent]? = none) (h : a.executed none = .ok stage) :
    Settled (a.enter stage) := by
  have loaded : a.loaded.isOk := settled.loaded (by rw [executing]; rfl)
  have all : (messages a.events).take a.sent = messages a.events := by
    rw [script_eq loaded]
    exact List.take_of_length_le (List.getElem?_eq_none_iff.mp stop)
  rcases executed_eq_ok h with ⟨r, rfl⟩ | ⟨r, rfl⟩
  · exact settled.wait (by rw [executing]; rfl) loaded all h
  · exact settled.return all ((final_of_executed loaded h).2 r rfl) fun _ => .inl ⟨r, h⟩

theorem Settled.moves {x : Except String Apply} (settled : a.Settled) (h : a.Moves x)
    (ok : x = .ok a') : a'.Settled := by
  cases h with
  | startLocal pushed kind =>
      cases ok
      have loaded : a.loaded.isOk := by
        rw [Apply.loaded, kind]
        rfl
      exact settled.execute (by rw [pushed]; rfl) loaded
  | startSsh pushed kind =>
      cases ok
      have unsent : a.sent = 0 := settled.unsent (by rw [pushed]; rfl)
      have alive := settled.alive (by rw [pushed]; rfl)
      exact ⟨settled.feeds, settled.room, by simp [alive],
        fun h => settled.stops (.inl (h.resolve_right (by simp [Stage.gone]))), fun _ => unsent,
        fun _ => kind, by simp [Stage.underway], by simp [Stage.ran], by simp, by simp⟩
  | keyLoaded preparing key =>
      cases ok
      have loaded : a.loaded.isOk := by
        rw [Apply.loaded, settled.preparing preparing, key]
        rfl
      exact settled.execute (by rw [preparing]; rfl) loaded
  | @keyMissing e preparing key =>
      cases ok
      have missing : a.loaded = .error e := by
        rw [Apply.loaded, settled.preparing preparing, key]
      have never : a.Returns := by
        intro loaded
        rw [missing] at loaded
        cases loaded
      refine settled.return ?_ (by rw [final, missing]) never
      simp [events, missing]
  | send executing next accepted =>
      cases ok
      have loaded : a.loaded.isOk := settled.loaded (by rw [executing]; rfl)
      rw [← script_eq loaded] at next
      have feeds := settled.feeds.send next accepted
      obtain ⟨-, rfl⟩ := Channel.send_eq_some accepted
      exact ⟨feeds, settled.room, settled.sender, settled.stops,
        by simp [executing, Stage.early], settled.preparing, settled.loaded,
        by simp [executing, Stage.ran], settled.joining, settled.returned⟩
  | sendFails executing next refused =>
      have loaded : a.loaded.isOk := settled.loaded (by rw [executing]; rfl)
      rw [← script_eq loaded] at next
      have reading := settled.feeds.reading_of_next next
      rw [settled.feeds.receiver refused] at reading
      cases reading
  | finishExecute executing stop =>
      obtain ⟨stage, ended, rfl⟩ := map_enter_eq_ok ok
      exact settled.finish executing stop ended
  | @join result joining stopped =>
      cases ok
      have loaded : a.loaded.isOk := settled.loaded (by rw [joining]; rfl)
      have ended := settled.joining result joining
      exact settled.return (settled.ran (by rw [joining]; rfl))
        ((final_of_executed loaded ended).1 result rfl) (settled.stops (.inl stopped))

/-- The end of the stream is one of the messages that the executor sends. -/
theorem Settled.end_mem {log : SimpleLogSource} (settled : a.Settled)
    (read : a.log.source = (.ok .«end», log)) : .«end» ∈ messages a.events := by
  obtain ⟨-, taking⟩ := SimpleLogSource.source_end read
  obtain ⟨taken, accounts, -⟩ := settled.feeds.queue
  exact accounts.mem_of_tryRecv taking

/-- The reader has read, and has stopped only if the future is one that returns. -/
theorem Settled.reads {r : Except Report PartialLogStream} {log : SimpleLogSource} {reading : Bool}
    {rx : Channel PartialLogStream} (settled : a.Settled) (read : a.log.source = (r, log))
    (same : rx.capacity = log.rx.capacity ∧ rx.sender = log.rx.sender)
    (feeds : Feeds (messages a.events) a.sent { log with rx } reading)
    (stops : reading = false → a.Returns) : Settled { a with log := { log with rx }, reading } where
  feeds := feeds
  room := by
    rw [same.1, SimpleLogSource.source_rx read]
    exact settled.room
  sender := by
    rw [same.2, SimpleLogSource.source_rx read]
    exact settled.sender
  stops := fun h => h.elim stops fun gone => settled.stops (.inr gone)
  unsent := settled.unsent
  preparing := settled.preparing
  loaded := settled.loaded
  ran := settled.ran
  joining := settled.joining
  returned := settled.returned

theorem Settled.source {logs : Logs} (settled : a.Settled) (h : a.source = some (logs, a')) :
    a'.Settled := by
  rw [Apply.source] at h
  split at h
  · cases h
  · rename_i guard
    have reading : a.reading = true := by simpa using (not_or.mp guard).2
    have feeds := settled.feeds
    rw [reading] at feeds
    split at h <;> cases h
    · rename_i read
      refine settled.reads read ⟨rfl, rfl⟩ (reading ▸ feeds.next read) fun h => ?_
      exact settled.stops (.inl h)
    · rename_i read
      exact settled.reads read ⟨rfl, rfl⟩ (feeds.endOfStream (fun _ _ => a.end_last) read)
        fun _ _ => .inr (settled.end_mem read)
    · rename_i read
      refine settled.reads read ⟨rfl, rfl⟩ (feeds.lost read) fun _ => ?_
      obtain ⟨rfl, ended | ⟨-, dropped⟩⟩ := SimpleLogSource.source_error read
      · cases feeds.ended ended
      · exact settled.stops (.inr (settled.sender dropped))

theorem Settled.collect {result : ApplyResult} (settled : a.Settled)
    (h : a.collect = some (result, a')) : a'.Settled := by
  obtain ⟨returned, rfl⟩ := collect_eq_some h
  have gone : a.stage.gone := by rw [returned]; rfl
  exact ⟨settled.feeds, settled.room, fun _ => rfl, fun _ => settled.stops (.inr gone),
    by simp [Stage.early], by simp, by simp [Stage.underway],
    fun _ => settled.ran (Stage.ran_of_gone gone), by simp, by simp⟩

theorem Settled.own {b : Own} (settled : a.Settled) (h : a.own b = some a') : a'.Settled := by
  cases b with
  | act act => exact settled.moves (step_moves (own_act_eq_some h)) rfl
  | source =>
      obtain ⟨⟨logs, _⟩, read, rfl⟩ := Option.map_eq_some_iff.mp h
      exact settled.source read
  | collect =>
      obtain ⟨⟨result, _⟩, taken, rfl⟩ := Option.map_eq_some_iff.mp h
      exact settled.collect taken

theorem Settled.result (settled : a.Settled) :
    ∀ r, a.stage.result = some r → a.final = some r := by
  intro r h
  exact settled.returned r (Stage.result_eq_some.mp h)

theorem Settled.exists_issued (settled : a.Settled) : ∃ es, a.Issued es :=
  Issued.exists settled.unsent settled.ran

/-- The future waits for a reader that can only find an empty channel with a living
sender from now on. -/
structure Stuck (a : Apply) : Prop where
  joining : ∃ result, a.stage = .joining result
  empty : a.log.rx.buffer = []
  reading : a.reading = true

/-- A future that returns is never stuck. -/
theorem Settled.not_stuck (settled : a.Settled) (returns : a.Returns) : ¬ a.Stuck := by
  rintro ⟨⟨result, joining⟩, empty, reading⟩
  rcases returns (settled.loaded (by rw [joining]; rfl)) with ⟨r, returned⟩ | ends
  · cases (settled.joining result joining).symm.trans returned
  · obtain ⟨taken, accounts, stops⟩ := settled.feeds.queue
    rw [settled.ran (by rw [joining]; rfl)] at accounts
    rw [stops (accounts.drained empty ▸ ends)] at reading
    cases reading

/-- How far a future is from its end: its messages have to be sent and read. -/
def distance (a : Apply) : Nat :=
  2 * (a.script.length - a.sent) + a.log.rx.buffer.length + a.stage.left

/-- The future has returned, or waits for its reader for ever. -/
def Over (a : Apply) : Prop := (∃ r, a.stage = .returned r) ∨ a.Stuck

/-- A reader that has something to read gets on. -/
theorem Settled.drains (settled : a.Settled) (started : a.stage ≠ .pushed)
    (reading : a.reading = true) (queued : a.log.rx.buffer ≠ []) :
    ∃ b a', a.own b = some a' ∧ a'.stage = a.stage ∧ a'.distance < a.distance := by
  obtain ⟨m, rest, buffer⟩ := List.exists_cons_of_ne_nil queued
  have going : a.log.ended = false := by
    by_contra ended
    rw [settled.feeds.ended (by simpa using ended)] at reading
    cases reading
  obtain ⟨log, read, rx⟩ := SimpleLogSource.source_of_buffer going buffer
  cases m with
  | next logs =>
      refine ⟨.source, { a with log }, ?_, rfl, ?_⟩
      · simp [Apply.own, Apply.source, started, reading, read]
      · simp only [distance, script, run, rx, buffer, List.length_cons]
        omega
  | «end» =>
      refine ⟨.source, { a with
        log := { log with rx := log.rx.dropReceiver }, reading := false }, ?_, rfl, ?_⟩
      · simp [Apply.own, Apply.source, started, reading, read]
      · simp only [distance, script, run, Channel.dropReceiver_buffer, rx, buffer,
          List.length_cons]
        omega

/-- An executor that has come to an end leaves less to do. -/
theorem distance_enter {stage : Stage} (executing : a.stage = .executing)
    (h : a.executed none = .ok stage) :
    (a.enter stage).stage ≠ .collected ∧ (a.enter stage).distance < a.distance := by
  rcases executed_eq_ok h with ⟨r, rfl⟩ | ⟨r, rfl⟩
  · refine ⟨by simp [enter], ?_⟩
    simp [distance, enter, script, run, executing, Stage.left]
  · refine ⟨by simp [enter], ?_⟩
    simp [distance, enter, script, run, executing, Stage.left, Channel.dropSender]

/-- A message that waits to be sent is sent, or waits for a reader that gets on. -/
theorem Settled.sends {m : PartialLogStream} (settled : a.Settled)
    (executing : a.stage = .executing) (next : a.script[a.sent]? = some m) :
    ∃ b a', a.own b = some a' ∧ a'.stage = a.stage ∧ a'.distance < a.distance := by
  have loaded : a.loaded.isOk := settled.loaded (by rw [executing]; rfl)
  have reading := settled.feeds.reading_of_next (script_eq loaded ▸ next)
  have receiver : a.log.rx.receiver = true := by
    by_contra dropped
    rw [settled.feeds.receiver (by simpa using dropped)] at reading
    cases reading
  by_cases room : a.log.rx.buffer.length < a.log.rx.capacity
  · refine ⟨.act .send, { a with
      sent := a.sent + 1
      log := { a.log with rx := { a.log.rx with buffer := a.log.rx.buffer ++ [m] } } },
      ?_, rfl, ?_⟩
    · simp [Apply.own, Apply.step, executing, next, Channel.send, receiver, room, Except.toOption]
    · have same : ∀ log n, Apply.script { a with sent := n, log } = a.script := fun _ _ => rfl
      have lt : a.sent < a.script.length := (List.getElem?_eq_some_iff.mp next).1
      simp only [distance, same, List.length_append, List.length_singleton]
      omega
  · refine settled.drains (by simp [executing]) reading fun empty => room ?_
    rw [empty]
    exact settled.room

/-- A future that is not over takes some step of its own. -/
theorem Settled.nearer (settled : a.Settled) (worded : a.Worded) (running : a.stage ≠ .collected)
    (short : ¬ a.Over) :
    ∃ b a', a.own b = some a' ∧ a'.stage ≠ .collected ∧ a'.distance < a.distance := by
  have onward : (∃ b a', a.own b = some a' ∧ a'.stage = a.stage ∧ a'.distance < a.distance) →
      ∃ b a', a.own b = some a' ∧ a'.stage ≠ .collected ∧ a'.distance < a.distance := by
    rintro ⟨b, a', moved, stage, less⟩
    exact ⟨b, a', moved, stage ▸ running, less⟩
  cases stage : a.stage with
  | pushed =>
      cases kind : a.dispatch.executorType with
      | «local» =>
          refine ⟨.act .start, { a with stage := .executing }, ?_, by simp, ?_⟩
          · simp [Apply.own, Apply.step, stage, kind, Except.toOption]
          · simp [distance, script, run, stage, Stage.left]
      | ssh =>
          refine ⟨.act .start, { a with stage := .preparing }, ?_, by simp, ?_⟩
          · simp [Apply.own, Apply.step, stage, kind, Except.toOption]
          · simp [distance, script, run, stage, Stage.left]
  | preparing =>
      cases key : a.world.key with
      | ok u =>
          refine ⟨.act .loadKey, { a with stage := .executing }, ?_, by simp, ?_⟩
          · simp [Apply.own, Apply.step, stage, key, Except.toOption]
          · simp [distance, script, run, stage, Stage.left]
      | error e =>
          refine ⟨.act .loadKey, a.enter (.returned (.error e)), ?_, by simp [enter], ?_⟩
          · simp [Apply.own, Apply.step, stage, key, Except.toOption]
          · simp [distance, enter, script, run, stage, Stage.left, Channel.dropSender]
  | executing =>
      cases next : a.script[a.sent]? with
      | none =>
          cases ended : a.executed none with
          | error site => exact absurd ended (worded.executed none site)
          | ok result =>
              refine ⟨.act .finishExecute, a.enter result, ?_, distance_enter stage ended⟩
              simp [Apply.own, Apply.step, stage, next, ended, Except.map, Except.toOption]
      | some m => exact onward (settled.sends stage next)
  | joining result =>
      cases reading : a.reading with
      | false =>
          refine ⟨.act .join, a.enter (.returned (a.joined result)), ?_, by simp [enter], ?_⟩
          · simp [Apply.own, Apply.step, stage, reading, Except.toOption]
          · simp [distance, enter, script, run, stage, Stage.left, Channel.dropSender]
      | true =>
          exact onward (settled.drains (by simp [stage]) reading fun empty =>
            short (.inr ⟨⟨result, stage⟩, empty, reading⟩))
  | returned result => exact absurd (.inl ⟨result, stage⟩) short
  | collected => exact absurd stage running

theorem alone_same {admits : Apply → Own → Prop} (alone : Reachable Apply.own admits a a') :
    a'.dispatch = a.dispatch ∧ a'.world = a.world :=
  ⟨alone.constant Apply.dispatch fun _ _ _ _ moved => (own_same moved).1,
    alone.constant Apply.world fun _ _ _ _ moved => (own_same moved).2⟩

/-- By its own steps the future comes to its end. -/
theorem Settled.finishes (settled : a.Settled) (worded : a.Worded)
    (running : a.stage ≠ .collected) :
    ∃ a', Reachable Apply.own (fun b _ => b.stage ≠ .collected) a a' ∧ a'.Settled ∧ a'.Over := by
  have nearer : ∀ b : Apply, b.Settled ∧ b.Worded ∧ b.stage ≠ .collected → ¬ b.Over →
      ∃ o b', b.stage ≠ .collected ∧ b.own o = some b' ∧
        (b'.Settled ∧ b'.Worded ∧ b'.stage ≠ .collected) ∧ b'.distance < b.distance := by
    rintro b ⟨settled, worded, running⟩ short
    obtain ⟨o, b', moved, running', less⟩ := settled.nearer worded running short
    have worded' : b'.Worded := by
      rw [Worded, (own_same moved).1]
      exact worded
    exact ⟨o, b', running, moved, ⟨settled.own moved, worded', running'⟩, less⟩
  obtain ⟨a', alone, ⟨settled', -⟩, halted⟩ :=
    Reachable.of_measure distance nearer ⟨settled, worded, running⟩
  exact ⟨a', alone, settled', halted⟩

theorem events_eq (dispatch : a'.dispatch = a.dispatch) (world : a'.world = a.world) :
    a'.events = a.events := by
  simp only [Apply.events, Apply.loaded, run, dispatch, world]

theorem executed_eq (dispatch : a'.dispatch = a.dispatch) (world : a'.world = a.world) :
    a'.executed = a.executed := by
  funext receiver
  simp only [executed, failure, run, dispatch, world]

theorem final_eq (dispatch : a'.dispatch = a.dispatch) (world : a'.world = a.world) :
    a'.final = a.final := by
  simp only [Apply.final, Apply.loaded, joined, executed_eq dispatch world, dispatch, world]

/-- A future that is over is as far as any other with the same arguments that meets the
same world. -/
theorem Settled.ahead (settled : a.Settled) (halted : a.Over) (settled' : a'.Settled)
    (dispatch : a'.dispatch = a.dispatch) (world : a'.world = a.world) :
    Ahead a.Issued a'.Issued a.stage.result a'.stage.result := by
  have events := events_eq dispatch world
  rw [Issued, Issued, events]
  refine Issued.ahead ?_ fun r h => ?_
  · rcases halted with ⟨r, stage⟩ | ⟨⟨r, stage⟩, -, -⟩ <;> rw [stage] <;> rfl
  · have returned' := Stage.result_eq_some.mp h
    rcases halted with ⟨r', returned⟩ | stuck
    · rw [returned, Stage.result, ← settled.returned r' returned, ← final_eq dispatch world,
        settled'.returned r returned']
    · have returns := settled'.stops (.inr (by rw [returned']; rfl))
      rw [Returns, Apply.loaded, executed_eq dispatch world, events, dispatch, world] at returns
      exact absurd stuck (settled.not_stuck returns)

/-- Two futures with the same arguments that meet the same world agree, however far each
of them has come. -/
theorem Settled.agree (settled : a.Settled) (settled' : a'.Settled)
    (dispatch : a'.dispatch = a.dispatch) (world : a'.world = a.world) :
    Agree a.Issued a'.Issued a.stage.result a'.stage.result := by
  have final := final_eq dispatch world
  have events := events_eq dispatch world
  have issues := settled'.exists_issued
  rw [Issued, events] at issues
  rw [Issued, Issued, events]
  exact There.Issued.agree settled.exists_issued issues settled.result (final ▸ settled'.result)

end Apply

end Cli

end There
