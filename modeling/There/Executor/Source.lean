import There.Concurrent.Channel
import There.Executor.Log

/-!
# The reading end of the log channel

`SimpleLogSource` polls the channel without waiting. An empty channel whose sender
is alive looks like an empty batch, so a reader that loops on `source` spins until
it gets the end of the stream or the sender is gone.
-/

namespace There

open Concurrent

structure SimpleLogSource where
  rx : Channel PartialLogStream
  ended : Bool := false

namespace SimpleLogSource

def source (s : SimpleLogSource) : Except Report PartialLogStream × SimpleLogSource :=
  if s.ended then
    (.error (.msg "log source already ended"), s)
  else
    match s.rx.tryRecv with
    | .ok (.next logs, rx) => (.ok (.next logs), { s with rx })
    | .ok (.«end», rx) => (.ok .«end», { rx, ended := true })
    | .error .empty => (.ok (.next []), s)
    | .error .disconnected => (.error (.msg "sink lost"), s)

variable {s s' : SimpleLogSource} {logs : Logs} {e : Report}

/-- A batch is the head of the queue, or empty because the queue is. -/
theorem source_next (h : s.source = (.ok (.next logs), s')) :
    s'.ended = s.ended ∧ (s.rx.tryRecv = .ok (.next logs, s'.rx) ∨ logs = [] ∧ s' = s) := by
  simp only [source] at h
  split at h
  · cases h
  · split at h <;> simp only [Prod.mk.injEq, Except.ok.injEq, PartialLogStream.next.injEq,
      reduceCtorEq, false_and] at h
    · rename_i hr
      obtain ⟨rfl, rfl⟩ := h
      exact ⟨rfl, .inl hr⟩
    · obtain ⟨rfl, rfl⟩ := h
      exact ⟨rfl, .inr ⟨rfl, rfl⟩⟩

theorem source_end (h : s.source = (.ok .«end», s')) :
    s'.ended = true ∧ s.rx.tryRecv = .ok (.«end», s'.rx) := by
  rw [source] at h
  split at h
  · cases h
  · split at h <;> simp only [Prod.mk.injEq, Except.ok.injEq, reduceCtorEq, false_and] at h
    rename_i hr
    obtain ⟨-, rfl⟩ := h
    exact ⟨rfl, hr⟩

/-- A read fails after the end, or when nothing is queued and no sender is left. -/
theorem source_error (h : s.source = (.error e, s')) :
    s' = s ∧ (s.ended = true ∨ s.rx.buffer = [] ∧ s.rx.sender = false) := by
  rw [source] at h
  split at h
  · rename_i ended
    simp only [Prod.mk.injEq] at h
    exact ⟨h.2.symm, .inl ended⟩
  · split at h <;> simp only [Prod.mk.injEq, Except.error.injEq, reduceCtorEq, false_and] at h
    rename_i hr
    obtain ⟨empty, lost⟩ := Channel.tryRecv_eq_error hr
    exact ⟨h.2.symm, .inr ⟨empty, lost.mp rfl⟩⟩

/-- A read changes nothing of the channel but what is queued. -/
theorem source_rx {r : Except Report PartialLogStream} (h : s.source = (r, s')) :
    s'.rx = { s.rx with buffer := s'.rx.buffer } := by
  cases r with
  | error e =>
      obtain ⟨rfl, -⟩ := source_error h
      rfl
  | ok m =>
      cases m with
      | next logs =>
          obtain ⟨-, taking | ⟨-, rfl⟩⟩ := source_next h
          · exact (Channel.tryRecv_eq_ok taking).2
          · rfl
      | «end» => exact (Channel.tryRecv_eq_ok (source_end h).2).2

/-- A message that is queued is read. -/
theorem source_of_buffer {m : PartialLogStream} {rest : List PartialLogStream}
    (going : s.ended = false) (queued : s.rx.buffer = m :: rest) :
    ∃ s', s.source = (.ok m, s') ∧ s'.rx = { s.rx with buffer := rest } := by
  have taking : s.rx.tryRecv = .ok (m, { s.rx with buffer := rest }) := by
    rw [Channel.tryRecv, queued]
  cases m with
  | next logs => exact ⟨_, by simp only [source, going, taking]; rfl, rfl⟩
  | «end» => exact ⟨_, by simp only [source, going, taking]; rfl, rfl⟩

end SimpleLogSource

/-- Messages of a fixed sequence on their way to a reader, `sent` of them so far. The
channel loses none of them, and the reader goes on until it has taken the end of the
stream, or until there is no sender left and everything has been sent. -/
structure Feeds (script : List PartialLogStream) (sent : Nat) (log : SimpleLogSource)
    (reading : Bool) : Prop where
  queue : ∃ taken, log.rx.Accounts (script.take sent) taken ∧ (.«end» ∈ taken → reading = false)
  sender : log.rx.sender = false → script.take sent = script
  receiver : log.rx.receiver = false → reading = false
  ended : log.ended = true → reading = false
  finished : reading = false → script.take sent = script

namespace Feeds

variable {script : List PartialLogStream} {sent : Nat} {log log' : SimpleLogSource}
variable {reading : Bool}

theorem new (script : List PartialLogStream) :
    Feeds script 0 { rx := { capacity := 1024 } } true where
  queue := ⟨[], rfl, fun h => absurd h List.not_mem_nil⟩
  sender := by simp
  receiver := by simp
  ended := by simp
  finished := by simp

/-- The reader does not stop while there is a message to be sent. -/
theorem reading_of_next {m : PartialLogStream} (feeds : Feeds script sent log reading)
    (next : script[sent]? = some m) : reading = true := by
  by_contra stopped
  have all : script.take sent = script := feeds.finished (by simpa using stopped)
  have lt : sent < script.length := (List.getElem?_eq_some_iff.mp next).1
  exact absurd ((List.take_eq_self_iff script).mp all) (by omega)

theorem send {m : PartialLogStream} {rx : Channel PartialLogStream}
    (feeds : Feeds script sent log reading) (next : script[sent]? = some m)
    (accepted : log.rx.send m = some rx) : Feeds script (sent + 1) { log with rx } reading := by
  obtain ⟨taken, accounts, stops⟩ := feeds.queue
  have going := feeds.reading_of_next next
  have lt : sent < script.length := (List.getElem?_eq_some_iff.mp next).1
  have now := accounts.send_next next accepted
  obtain ⟨-, rfl⟩ := Channel.send_eq_some accepted
  refine ⟨⟨taken, now, stops⟩, fun dropped => ?_, feeds.receiver, feeds.ended, by simp [going]⟩
  exact absurd ((List.take_eq_self_iff script).mp (feeds.sender dropped)) (by omega)

theorem next {logs : Logs} (feeds : Feeds script sent log true)
    (read : log.source = (.ok (.next logs), log')) : Feeds script sent log' true := by
  obtain ⟨ended, received⟩ := SimpleLogSource.source_next read
  rcases received with taking | ⟨-, rfl⟩
  · obtain ⟨taken, accounts, stops⟩ := feeds.queue
    obtain ⟨-, same⟩ := Channel.tryRecv_eq_ok taking
    refine ⟨⟨taken ++ [.next logs], accounts.tryRecv taking, ?_⟩, ?_, ?_, ?_, by simp⟩
    · simpa using stops
    · rw [same]
      exact feeds.sender
    · rw [same]
      exact feeds.receiver
    · rw [ended]
      exact feeds.ended
  · exact feeds

/-- The end of the stream is the last message, so all of them have been taken. -/
theorem endOfStream (feeds : Feeds script sent log true)
    (last : ∀ before after, script = before ++ .«end» :: after → after = [])
    (read : log.source = (.ok .«end», log')) :
    Feeds script sent { log' with rx := log'.rx.dropReceiver } false := by
  obtain ⟨-, taking⟩ := SimpleLogSource.source_end read
  obtain ⟨taken, accounts, -⟩ := feeds.queue
  obtain ⟨all, -⟩ := accounts.tryRecv_last taking last
  have now : log'.rx.Accounts _ _ := accounts.tryRecv taking
  exact ⟨⟨_, now, fun _ => rfl⟩, fun _ => all, fun _ => rfl, fun _ => rfl, fun _ => all⟩

/-- Nothing is lost with the last sender. -/
theorem lost {e : Report} (feeds : Feeds script sent log true)
    (read : log.source = (.error e, log')) :
    Feeds script sent { log' with rx := log'.rx.dropReceiver } false := by
  obtain ⟨rfl, ended | ⟨-, dropped⟩⟩ := SimpleLogSource.source_error read
  · cases feeds.ended ended
  · obtain ⟨taken, accounts, -⟩ := feeds.queue
    have all := feeds.sender dropped
    exact ⟨⟨taken, accounts, fun _ => rfl⟩, fun _ => all, fun _ => rfl, fun _ => rfl, fun _ => all⟩

theorem dropSender (feeds : Feeds script sent log reading) (all : script.take sent = script) :
    Feeds script sent { log with rx := log.rx.dropSender } reading :=
  ⟨feeds.queue, fun _ => all, feeds.receiver, feeds.ended, feeds.finished⟩

end Feeds

/-- The log lines that a sequence of messages carries. -/
def logLines (ms : List PartialLogStream) : Logs :=
  ms.flatMap fun m => match m with
    | .next logs => logs
    | .«end» => []

@[simp] theorem logLines_nil : logLines [] = [] := rfl

@[simp] theorem logLines_append (ms ms' : List PartialLogStream) :
    logLines (ms ++ ms') = logLines ms ++ logLines ms' := List.flatMap_append

@[simp] theorem logLines_next (logs : Logs) (ms : List PartialLogStream) :
    logLines (.next logs :: ms) = logs ++ logLines ms := rfl

@[simp] theorem logLines_end (ms : List PartialLogStream) :
    logLines (.«end» :: ms) = logLines ms := rfl

end There
