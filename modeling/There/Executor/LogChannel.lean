import There.Concurrent.Runs
import There.Executor.Source
import Mathlib.Data.List.Infix

/-!
# The log channel as a whole

One `SimpleLogSink` and the `SimpleLogSource` at the other end, with calls of both in
any order. A message is `sunk` when the channel accepts it. `results` are the results
of the calls of `source`, which say less than what was taken from the channel: a poll
of an empty channel looks like an empty batch.
-/

namespace There

open Concurrent

namespace SimpleLogSink

/-- Nothing while the channel is full; an error once the receiver is gone. -/
def sink (tx : Channel PartialLogStream) (logs : PartialLogStream) :
    Option (Except Report Nat × Channel PartialLogStream) :=
  if tx.receiver then (tx.send logs).map fun tx => (.ok logs.count, tx)
  else some (.error (.msg "channel closed"), tx)

def sinkOne (tx : Channel PartialLogStream) (log : String) :
    Option (Except Report Nat × Channel PartialLogStream) :=
  sink tx (.next [log])

end SimpleLogSink

/-- The messages among the results of `source`. -/
def returned (results : List (Except Report PartialLogStream)) : List PartialLogStream :=
  results.filterMap Except.toOption

/-- The messages that are not empty batches. -/
def content (ms : List PartialLogStream) : List PartialLogStream :=
  ms.filter fun m => m ≠ .next []

@[simp] theorem returned_append (rs rs' : List (Except Report PartialLogStream)) :
    returned (rs ++ rs') = returned rs ++ returned rs' := List.filterMap_append

@[simp] theorem returned_ok (m : PartialLogStream) : returned [.ok m] = [m] := rfl

@[simp] theorem returned_error (e : Report) : returned [.error e] = [] := rfl

theorem end_mem_returned {rs : List (Except Report PartialLogStream)} :
    .«end» ∈ returned rs ↔ .ok .«end» ∈ rs := by
  rw [returned, List.mem_filterMap]
  constructor
  · rintro ⟨r, mem, eq⟩
    cases r <;> simp_all [Except.toOption]
  · exact fun mem => ⟨_, mem, rfl⟩

@[simp] theorem content_append (ms ms' : List PartialLogStream) :
    content (ms ++ ms') = content ms ++ content ms' := List.filter_append ..

@[simp] theorem content_poll : content [.next []] = [] := rfl

theorem end_mem_content {ms : List PartialLogStream} : .«end» ∈ content ms ↔ .«end» ∈ ms := by
  simp [content]

/-- Leaving out the empty batches leaves out no line. -/
theorem logLines_content (ms : List PartialLogStream) : logLines (content ms) = logLines ms := by
  induction ms with
  | nil => rfl
  | cons m ms ih =>
      by_cases empty : m = .next []
      · subst empty
        exact ih
      · rw [content, List.filter_cons_of_pos (by simpa using empty), ← List.singleton_append,
          logLines_append, ← content, ih, ← logLines_append, List.singleton_append]

/-- What a call of `source` does: nothing after the end, else take a message, else poll
in vain. -/
theorem SimpleLogSource.source_cases (log : SimpleLogSource) :
    (log.ended = true ∧ log.source = (.error (.msg "log source already ended"), log)) ∨
    (log.ended = false ∧ ∃ m rx, log.rx.tryRecv = .ok (m, rx) ∧
      log.source = (.ok m, { rx, ended := decide (m = .«end») })) ∨
    (log.ended = false ∧ log.rx.buffer = [] ∧ (log.source = (.ok (.next []), log) ∨
      log.rx.sender = false ∧ log.source = (.error (.msg "sink lost"), log))) := by
  obtain ⟨rx, ended⟩ := log
  cases ended with
  | true => exact .inl ⟨rfl, rfl⟩
  | false =>
      cases received : rx.tryRecv with
      | ok taken =>
          obtain ⟨m, rx'⟩ := taken
          refine .inr (.inl ⟨rfl, m, rx', rfl, ?_⟩)
          cases m <;> simp [source, received]
      | error e =>
          obtain ⟨empty, lost⟩ := Channel.tryRecv_eq_error received
          refine .inr (.inr ⟨rfl, empty, ?_⟩)
          cases e with
          | empty => exact .inl (by simp [source, received])
          | disconnected => exact .inr ⟨lost.mp rfl, by simp [source, received]⟩

structure LogChannel where
  log : SimpleLogSource
  sunk : List PartialLogStream := []
  results : List (Except Report PartialLogStream) := []

namespace LogChannel

/-- A call that returns, or one of the two ends going away. -/
inductive Action where
  | sink (logs : PartialLogStream)
  | sinkOne (log : String)
  | source
  | dropSender
  | dropSource
deriving Repr, DecidableEq

def new (capacity : Nat) : LogChannel := { log := { rx := { capacity } } }

/-- The sink's call of the channel with the message `logs` has returned. -/
def sent (s : LogChannel) (logs : PartialLogStream) :
    Except Report Nat × Channel PartialLogStream → LogChannel
  | (.ok _, rx) => { s with log := { s.log with rx }, sunk := s.sunk ++ [logs] }
  | (.error _, rx) => { s with log := { s.log with rx } }

def step (s : LogChannel) : Action → Option LogChannel
  | .sink logs =>
      if s.log.rx.sender then (SimpleLogSink.sink s.log.rx logs).map (s.sent logs) else none
  | .sinkOne log =>
      if s.log.rx.sender then (SimpleLogSink.sinkOne s.log.rx log).map (s.sent (.next [log]))
      else none
  | .source =>
      if s.log.rx.receiver then
        some { s with log := s.log.source.2, results := s.results ++ [s.log.source.1] }
      else none
  | .dropSender =>
      if s.log.rx.sender then some { s with log := { s.log with rx := s.log.rx.dropSender } }
      else none
  | .dropSource =>
      if s.log.rx.receiver then some { s with log := { s.log with rx := s.log.rx.dropReceiver } }
      else none

/-- The states that some interleaving of calls leads to. -/
abbrev Reached (capacity : Nat) : LogChannel → Prop :=
  Reachable step (fun _ _ => True) (new capacity)

variable {s t : LogChannel}

theorem sink_cases {logs : PartialLogStream} (alive : s.log.rx.sender)
    (h : (SimpleLogSink.sink s.log.rx logs).map (s.sent logs) = some t) :
    t = s ∨ ∃ rx, s.log.rx.sender ∧ s.log.rx.send logs = some rx ∧
      t = { s with log := { s.log with rx }, sunk := s.sunk ++ [logs] } := by
  rw [SimpleLogSink.sink] at h
  split at h
  · rw [Option.map_map, Option.map_eq_some_iff] at h
    obtain ⟨rx, accepted, rfl⟩ := h
    exact .inr ⟨rx, alive, accepted, rfl⟩
  · exact .inl (Option.some.inj h).symm

/-- What a step can do: nothing, queue a message, read, or drop one of the ends. -/
theorem step_cases {a : Action} (h : step s a = some t) :
    (t = s ∨ ∃ logs rx, s.log.rx.sender ∧ s.log.rx.send logs = some rx ∧
      t = { s with log := { s.log with rx }, sunk := s.sunk ++ [logs] }) ∨
    t = { s with log := s.log.source.2, results := s.results ++ [s.log.source.1] } ∨
    t = { s with log := { s.log with rx := s.log.rx.dropSender } } ∨
    t = { s with log := { s.log with rx := s.log.rx.dropReceiver } } := by
  cases a with
  | sink logs =>
      obtain ⟨alive, h⟩ := Option.ite_none_right_eq_some.mp h
      exact .inl ((sink_cases alive h).imp_right fun found => ⟨logs, found⟩)
  | sinkOne log =>
      obtain ⟨alive, h⟩ := Option.ite_none_right_eq_some.mp h
      exact .inl ((sink_cases alive h).imp_right fun found => ⟨.next [log], found⟩)
  | source =>
      obtain ⟨-, h⟩ := Option.ite_none_right_eq_some.mp h
      exact .inr (.inl (Option.some.inj h).symm)
  | dropSender =>
      obtain ⟨-, h⟩ := Option.ite_none_right_eq_some.mp h
      exact .inr (.inr (.inl (Option.some.inj h).symm))
  | dropSource =>
      obtain ⟨-, h⟩ := Option.ite_none_right_eq_some.mp h
      exact .inr (.inr (.inr (Option.some.inj h).symm))

/-- The results of the calls of `source` against what they took from the channel. A
poll in vain adds an empty batch to the results, so both sides leave these out. -/
structure Inv (s : LogChannel) (taken : List PartialLogStream) : Prop where
  queue : s.log.rx.Accounts s.sunk taken
  carried : content (returned s.results) = content taken
  going : s.log.ended = false → .«end» ∉ taken
  ended : s.log.ended = true → ∃ before after rest, s.results = before ++ .ok .«end» :: after ∧
    taken = rest ++ [.«end»] ∧ .«end» ∉ rest ∧
    content (returned before) = content rest ∧
    ∀ r ∈ after, r = .error (.msg "log source already ended")
  lost : ∀ before after, s.results = before ++ .error (.msg "sink lost") :: after →
    s.log.rx.sender = false ∧ content (returned before) = content s.sunk

/-- The last result is the one in question, or it comes after it. -/
theorem concat_eq_append_cons {α : Type} {l before after : List α} {a b : α}
    (h : l ++ [a] = before ++ b :: after) :
    (a = b ∧ l = before) ∨ ∃ rest, l = before ++ b :: rest := by
  rcases List.eq_nil_or_concat' after with rfl | ⟨rest, c, rfl⟩
  · obtain ⟨eq, last⟩ := List.append_inj' h rfl
    exact .inl ⟨by simpa using last, eq⟩
  · rw [← List.cons_append, ← List.append_assoc] at h
    exact .inr ⟨rest, (List.append_inj' h rfl).1⟩

namespace Inv

variable {taken : List PartialLogStream}

theorem new (capacity : Nat) : (new capacity).Inv [] where
  queue := rfl
  carried := rfl
  going _ := List.not_mem_nil
  ended h := nomatch h
  lost before after h := absurd h (by simp [LogChannel.new])

theorem send {logs : PartialLogStream} {rx : Channel PartialLogStream} (inv : s.Inv taken)
    (alive : s.log.rx.sender) (accepted : s.log.rx.send logs = some rx) :
    Inv { s with log := { s.log with rx }, sunk := s.sunk ++ [logs] } taken where
  queue := inv.queue.send accepted
  carried := inv.carried
  going := inv.going
  ended := inv.ended
  lost before after h := by
    have gone := (inv.lost before after h).1
    simp [alive] at gone

/-- What a channel end that goes away leaves as it was. -/
theorem drop {rx : Channel PartialLogStream} (inv : s.Inv taken)
    (buffer : rx.buffer = s.log.rx.buffer) (sender : s.log.rx.sender = false → rx.sender = false) :
    Inv { s with log := { s.log with rx } } taken where
  queue := by
    have queue := inv.queue
    rw [Channel.Accounts] at queue ⊢
    rw [queue, buffer]
  carried := inv.carried
  going := inv.going
  ended := inv.ended
  lost before after h := (inv.lost before after h).imp_left sender

/-- A result other than the loss of the sink leaves what was said about its loss. -/
theorem lost_concat {r : Except Report PartialLogStream} (inv : s.Inv taken)
    (other : r ≠ .error (.msg "sink lost")) (before after : List (Except Report PartialLogStream))
    (h : s.results ++ [r] = before ++ .error (.msg "sink lost") :: after) :
    s.log.rx.sender = false ∧ content (returned before) = content s.sunk := by
  obtain ⟨eq, -⟩ | ⟨rest, eq⟩ := concat_eq_append_cons h
  · exact absurd eq other
  · exact inv.lost before rest eq

/-- After the end a call fails and consumes nothing. -/
theorem source_ended (inv : s.Inv taken) (ended : s.log.ended = true) :
    Inv { s with results := s.results ++ [.error (.msg "log source already ended")] } taken where
  queue := inv.queue
  carried := by simpa using inv.carried
  going := inv.going
  ended _ := by
    obtain ⟨before, after, rest, results, last, fresh, same, failed⟩ := inv.ended ended
    refine ⟨before, after ++ [.error (.msg "log source already ended")], rest, ?_, last, fresh,
      same, fun r mem => ?_⟩
    · simp [results]
    · rcases List.mem_append.mp mem with mem | mem
      · exact failed r mem
      · exact List.mem_singleton.mp mem
  lost := inv.lost_concat (by simp)

theorem source_taken {m : PartialLogStream} {rx : Channel PartialLogStream} (inv : s.Inv taken)
    (going : s.log.ended = false) (received : s.log.rx.tryRecv = .ok (m, rx)) :
    Inv { s with log := { rx, ended := decide (m = .«end») }, results := s.results ++ [.ok m] }
      (taken ++ [m]) where
  queue := inv.queue.tryRecv received
  carried := by
    rw [returned_append, content_append, content_append, inv.carried, returned_ok]
  going other := by simpa [inv.going going, eq_comm] using other
  ended last := by
    obtain rfl : m = .«end» := by simpa using last
    exact ⟨s.results, [], taken, rfl, rfl, inv.going going, inv.carried, by simp⟩
  lost before after h := by
    rw [(Channel.tryRecv_eq_ok received).2]
    exact inv.lost_concat (by simp) before after h

theorem source_polled (inv : s.Inv taken) (going : s.log.ended = false) :
    Inv { s with results := s.results ++ [.ok (.next [])] } taken where
  queue := inv.queue
  carried := by simpa using inv.carried
  going := inv.going
  ended last := by simp [going] at last
  lost := inv.lost_concat (by simp)

theorem source_lost (inv : s.Inv taken) (going : s.log.ended = false)
    (empty : s.log.rx.buffer = []) (gone : s.log.rx.sender = false) :
    Inv { s with results := s.results ++ [.error (.msg "sink lost")] } taken where
  queue := inv.queue
  carried := by simpa using inv.carried
  going := inv.going
  ended last := by simp [going] at last
  lost before after h := by
    obtain ⟨-, rfl⟩ | ⟨rest, eq⟩ := concat_eq_append_cons h
    · refine ⟨gone, ?_⟩
      rw [inv.carried, inv.queue.drained empty]
    · exact inv.lost before rest eq

theorem source (inv : s.Inv taken) : ∃ taken',
    Inv { s with log := s.log.source.2, results := s.results ++ [s.log.source.1] } taken' := by
  rcases s.log.source_cases with ⟨ended, eq⟩ | ⟨going, m, rx, received, eq⟩ |
    ⟨going, empty, eq | ⟨gone, eq⟩⟩ <;> rw [eq]
  · exact ⟨taken, inv.source_ended ended⟩
  · exact ⟨taken ++ [m], inv.source_taken going received⟩
  · exact ⟨taken, inv.source_polled going⟩
  · exact ⟨taken, inv.source_lost going empty gone⟩

theorem step {a : Action} (inv : s.Inv taken) (h : step s a = some t) : ∃ taken', t.Inv taken' := by
  obtain (rfl | ⟨logs, rx, alive, accepted, rfl⟩) | rfl | rfl | rfl := step_cases h
  · exact ⟨taken, inv⟩
  · exact ⟨taken, inv.send alive accepted⟩
  · exact inv.source
  · exact ⟨taken, inv.drop rfl fun _ => rfl⟩
  · exact ⟨taken, inv.drop rfl id⟩

end Inv

theorem Reached.inv {capacity : Nat} (reached : Reached capacity s) : ∃ taken, s.Inv taken :=
  reached.invariant (I := fun s => ∃ taken, s.Inv taken) ⟨[], Inv.new capacity⟩
    fun _ _ _ _ stepped ⟨_, inv⟩ => inv.step stepped

/-- What is expected of the channel at any moment. `messages` leaves out the polls. -/
structure Exact (s : LogChannel) : Prop where
  lines : logLines (returned s.results) <+: logLines s.sunk
  messages : content (returned s.results) <+: content s.sunk
  once : s.results.count (.ok .«end») ≤ 1
  last : ∀ before after, s.results = before ++ .ok .«end» :: after →
    (∃ earlier later, s.sunk = earlier ++ .«end» :: later ∧ .«end» ∉ earlier ∧
      content (returned before) = content earlier) ∧
    ∀ r ∈ after, r = .error (.msg "log source already ended")
  ended : .ok .«end» ∈ s.results →
    s.log.source = (.error (.msg "log source already ended"), s.log)
  lost : ∀ before after, s.results = before ++ .error (.msg "sink lost") :: after →
    content (returned before) = content s.sunk

namespace Inv

variable {taken : List PartialLogStream}

theorem ended_of_mem (inv : s.Inv taken) (mem : .ok .«end» ∈ s.results) : s.log.ended = true := by
  by_contra going
  refine inv.going (by simpa using going) ?_
  rw [← end_mem_content, ← inv.carried, end_mem_content, end_mem_returned]
  exact mem

/-- Once the end was returned there is one way to see the results. -/
theorem results_of_mem (inv : s.Inv taken) (mem : .ok .«end» ∈ s.results) :
    ∃ before after rest, s.results = before ++ .ok .«end» :: after ∧ .ok .«end» ∉ before ∧
      .ok .«end» ∉ after ∧ taken = rest ++ [.«end»] ∧ .«end» ∉ rest ∧
      content (returned before) = content rest ∧
      ∀ r ∈ after, r = .error (.msg "log source already ended") := by
  obtain ⟨before, after, rest, results, last, fresh, same, failed⟩ :=
    inv.ended (inv.ended_of_mem mem)
  refine ⟨before, after, rest, results, fun mem => fresh ?_, fun mem => ?_, last, fresh,
    same, failed⟩
  · rw [← end_mem_content, ← same, end_mem_content, end_mem_returned]
    exact mem
  · exact nomatch failed _ mem

theorem messages (inv : s.Inv taken) : content (returned s.results) <+: content s.sunk := by
  rw [inv.carried, inv.queue, content_append]
  exact List.prefix_append _ _

theorem exact (inv : s.Inv taken) : s.Exact where
  lines := by
    rw [← logLines_content, ← logLines_content s.sunk]
    exact List.IsPrefix.flatMap inv.messages _
  messages := inv.messages
  once := by
    by_cases mem : .ok .«end» ∈ s.results
    · obtain ⟨before, after, _, results, none, none', -⟩ := inv.results_of_mem mem
      rw [results, List.count_append, List.count_cons_self, List.count_eq_zero.mpr none,
        List.count_eq_zero.mpr none']
    · rw [List.count_eq_zero.mpr mem]
      exact Nat.zero_le 1
  last before after h := by
    have mem : .ok .«end» ∈ s.results := by simp [h]
    obtain ⟨before', after', rest, results, none, none', last, fresh, same, failed⟩ :=
      inv.results_of_mem mem
    obtain ⟨rfl, -, rfl⟩ := (List.append_cons_inj_of_notMem none none').mp (results.symm.trans h)
    refine ⟨⟨rest, s.log.rx.buffer, ?_, fresh, same⟩, failed⟩
    rw [inv.queue, last, List.append_assoc, List.singleton_append]
  ended mem := by
    have ended := inv.ended_of_mem mem
    rw [SimpleLogSource.source, if_pos ended]
  lost before after h := (inv.lost before after h).2

end Inv

/-- In every interleaving of calls of the sink and of the source, for any capacity,
nothing is lost, repeated or reordered, and the end is the end. -/
theorem exact_of_reached {capacity : Nat} (reached : Reached capacity s) : s.Exact :=
  have ⟨_, inv⟩ := reached.inv
  inv.exact

/-- A channel of capacity one, polled before, between and after two messages. -/
theorem exact_of_reached_hello : ∃ s : LogChannel, Reached 1 s ∧ s.Exact ∧
    s.results = [.ok (.next []), .ok (.next ["hello"]), .ok .«end»,
      .error (.msg "log source already ended")] := by
  obtain ⟨s, ran, results⟩ : ∃ s, Reachable.run step (new 1)
      [.source, .sinkOne "hello", .source, .sink .«end», .source, .dropSender, .source] = some s ∧
      s.results = [.ok (.next []), .ok (.next ["hello"]), .ok .«end»,
        .error (.msg "log source already ended")] := ⟨_, rfl, rfl⟩
  have reached : Reached 1 s := Reachable.start.run_of_forall (by simp) ran
  exact ⟨s, reached, exact_of_reached reached, results⟩

end LogChannel

end There
