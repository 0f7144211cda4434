import There.Effect.WP
import There.Plan.Basic

/-!
# What an executor does, in order

An executor talks to its log channel and to one host. The record of a run is the
list of events in the order in which they happen: messages the channel accepted,
questions to the host, commands issued, and the increments of `tasks_completed`.
The receiver of the channel may be dropped by its owner after any number of
messages; until then a send waits for room and succeeds.

`Emits` is the specification style of the executors: with the receiver kept open,
what a function returns and which events it adds, whatever happened before it.
-/

namespace There

/-- A set of logs. -/
abbrev Logs : Type := List String

/-- One message of the log channel. -/
inductive PartialLogStream where
  | next (logs : Logs)
  | «end»
deriving Repr, DecidableEq

/-- A command line sent over SSH: the check of an ensure, or the command of a task. -/
inductive Request where
  | check (ensure : Ensure)
  | command (task : PlannedTask)
deriving Repr, DecidableEq

inductive Event where
  /-- The log channel accepted a message. -/
  | sunk (message : PartialLogStream)
  | connect (address : String)
  | authenticate (user : String)
  /-- The server accepted a command line. -/
  | exec (request : Request)
  /-- The local executor evaluates an ensure. -/
  | query (ensure : Ensure)
  /-- A local process was started. -/
  | spawn (cmd : String) (args : List String)
  /-- `tasks_completed` was incremented. -/
  | counted
deriving Repr, DecidableEq

namespace Event

/-- The message that an event puts into the log channel. -/
def message : Event → Option PartialLogStream
  | sunk m => some m
  | _ => none

/-- The argument vector of a task's command that an event issues to the host. -/
def command : Event → Option (List String)
  | exec (.command task) => some task.command
  | spawn cmd args => some (cmd :: args)
  | _ => none

/-- Events of the work before a command and of its output: log batches and ensures. -/
def preliminary : Event → Bool
  | sunk (.next _) => true
  | exec (.check _) => true
  | query _ => true
  | _ => false

end Event

/-- The log messages of a run, in order. -/
def messages (es : List Event) : List PartialLogStream := es.filterMap Event.message

/-- The commands of tasks that a run issued, in order. -/
def commands (es : List Event) : List (List String) := es.filterMap Event.command

@[simp] theorem messages_append (es es' : List Event) :
    messages (es ++ es') = messages es ++ messages es' := List.filterMap_append

@[simp] theorem commands_append (es es' : List Event) :
    commands (es ++ es') = commands es ++ commands es' := List.filterMap_append

section Cons

variable (es : List Event) (m : PartialLogStream) (text : String)

@[simp] theorem messages_sunk : messages (.sunk m :: es) = m :: messages es := rfl

@[simp] theorem messages_connect : messages (.connect text :: es) = messages es := rfl

@[simp] theorem messages_authenticate : messages (.authenticate text :: es) = messages es := rfl

@[simp] theorem messages_query (ensure : Ensure) :
    messages (.query ensure :: es) = messages es := rfl

@[simp] theorem messages_spawn (cmd : String) (args : List String) :
    messages (.spawn cmd args :: es) = messages es := rfl

@[simp] theorem messages_counted : messages (.counted :: es) = messages es := rfl

@[simp] theorem commands_sunk : commands (.sunk m :: es) = commands es := rfl

@[simp] theorem commands_connect : commands (.connect text :: es) = commands es := rfl

@[simp] theorem commands_authenticate : commands (.authenticate text :: es) = commands es := rfl

end Cons

@[simp] theorem messages_nil : messages [] = [] := rfl

@[simp] theorem commands_nil : commands [] = [] := rfl

/-- Nothing but the work before a command, or its output. -/
def Quiet (es : List Event) : Prop := ∀ e ∈ es, e.preliminary

namespace Quiet

variable {es es' : List Event}

theorem nil : Quiet [] := fun _ h => absurd h List.not_mem_nil

theorem cons {e : Event} (h : Quiet es) (he : e.preliminary) : Quiet (e :: es) :=
  List.forall_mem_cons.mpr ⟨he, h⟩

theorem sunk (logs : Logs) : Quiet [.sunk (.next logs)] := nil.cons rfl

theorem append (h : Quiet es) (h' : Quiet es') : Quiet (es ++ es') := by
  intro e he
  exact (List.mem_append.mp he).elim (h e) (h' e)

theorem commands (h : Quiet es) : commands es = [] := by
  rw [There.commands, List.filterMap_eq_nil_iff]
  intro e he
  have := h e he
  cases e with
  | exec request => cases request <;> simp_all [Event.preliminary, Event.command]
  | spawn cmd args => simp [Event.preliminary] at this
  | _ => rfl

theorem uncounted (h : Quiet es) : es.count .counted = 0 := by
  rw [List.count_eq_zero]
  intro he
  exact absurd (h _ he) (by decide)

theorem end_not_mem (h : Quiet es) : .«end» ∉ messages es := by
  intro he
  obtain ⟨e, he, hm⟩ := List.mem_filterMap.mp he
  cases e with
  | sunk m =>
      obtain rfl : m = .«end» := by simpa [Event.message] using hm
      exact absurd (h _ he) (by decide)
  | _ => simp [Event.message] at hm

end Quiet

/-- The state of an executor while it runs. -/
structure Record where
  events : List Event
  tasksCompleted : Nat
  /-- How many more messages the receiver takes before it is dropped, if it ever is. -/
  receiver : Option Nat
deriving Repr, DecidableEq

/-- A fresh executor. -/
def Record.fresh (receiver : Option Nat) : Record := ⟨[], 0, receiver⟩

abbrev Exec (α : Type) : Type := EStateM Abort Record α

namespace Exec

def ofExcept {α : Type} : Except Report α → Exec α
  | .ok a => pure a
  | .error e => throw (.error e)

def emit (e : Event) : Exec PUnit := modify fun s => { s with events := s.events ++ [e] }

/-- `self.tasks_completed += 1`. -/
def count : Exec PUnit :=
  modify fun s => { s with
    events := s.events ++ [.counted], tasksCompleted := s.tasksCompleted + 1 }

end Exec

/-- `PartialLogStream` messages count the logs they carry. -/
def PartialLogStream.count : PartialLogStream → Nat
  | .next logs => logs.length
  | .«end» => 0

/-- `SimpleLogSink::sink`: the number of logs sunk, or an error without a receiver. -/
def sink (message : PartialLogStream) : Exec Nat := fun s =>
  match s.receiver with
  | some 0 => .error (.error (.msg "channel closed")) s
  | receiver => .ok message.count
      { s with events := s.events ++ [Event.sunk message], receiver := receiver.map (· - 1) }

/-- `LogSink::sink_one`. -/
def sinkOne (log : String) : Exec Nat := sink (.next [log])

/-- With the receiver kept open, `p` ends in an outcome and adds events that
satisfy `post`; `tasks_completed` grows by the increments among them. -/
def Emits {α : Type} (p : Exec α) (post : Except Abort α → List Event → Prop) : Prop :=
  ∀ s, s.receiver = none → Effect.WP p (fun r t => t.receiver = none ∧
    ∃ es, t.events = s.events ++ es ∧ t.tasksCompleted = s.tasksCompleted + es.count .counted ∧
      post r es) s

namespace Emits

variable {α β : Type} {p : Exec α} {post post' : Except Abort α → List Event → Prop}

theorem mono (h : Emits p post) (imp : ∀ r es, post r es → post' r es) : Emits p post' := by
  intro s hs
  refine (h s hs).mono ?_
  rintro r t ⟨open', es, he, hc, hp⟩
  exact ⟨open', es, he, hc, imp r es hp⟩

theorem pure {a : α} (h : post (.ok a) []) : Emits (pure a) post :=
  fun s hs => ⟨hs, [], (List.append_nil s.events).symm, rfl, h⟩

theorem throw {e : Abort} (h : post (.error e) []) : Emits (throw e) post :=
  fun s hs => ⟨hs, [], (List.append_nil s.events).symm, rfl, h⟩

theorem emit {e : Event} (he : e ≠ .counted) {post : Except Abort Unit → List Event → Prop}
    (h : post (.ok ⟨⟩) [e]) : Emits (Exec.emit e) post := by
  intro s hs
  have uncounted : [e].count .counted = 0 := by simp [he]
  exact ⟨hs, [e], rfl, by rw [uncounted]; rfl, h⟩

theorem count {post : Except Abort Unit → List Event → Prop} (h : post (.ok ⟨⟩) [.counted]) :
    Emits Exec.count post :=
  fun _ hs => ⟨hs, [.counted], rfl, rfl, h⟩

theorem sink {m : PartialLogStream} {post : Except Abort Nat → List Event → Prop}
    (h : post (.ok m.count) [.sunk m]) : Emits (sink m) post := by
  intro s hs
  have run : There.sink m s = .ok m.count
      { s with events := s.events ++ [Event.sunk m], receiver := none } := by
    simp [There.sink, hs]
  rw [Effect.WP, run]
  exact ⟨rfl, [.sunk m], rfl, rfl, h⟩

/-- The events of the second part follow those of the first. -/
theorem bind {f : α → Exec β} {mid : Except Abort α → List Event → Prop}
    {post : Except Abort β → List Event → Prop} (first : Emits p mid)
    (value : ∀ a es, mid (.ok a) es → Emits (f a) fun r es' => post r (es ++ es'))
    (error : ∀ e es, mid (.error e) es → post (.error e) es) : Emits (p >>= f) post := by
  intro s hs
  refine (first s hs).bind ?_ ?_
  · rintro a t ⟨ht, es, he, hc, hm⟩
    refine (value a es hm t ht).mono ?_
    rintro r u ⟨hu, es', he', hc', hp⟩
    exact ⟨hu, es ++ es', by rw [he', he, List.append_assoc],
      by rw [hc', hc, List.count_append, Nat.add_assoc], hp⟩
  · rintro e t ⟨ht, es, he, hc, hm⟩
    exact ⟨ht, es, he, hc, error e es hm⟩

/-- A message that the channel takes precedes everything after it. -/
theorem sink_bind {m : PartialLogStream} {f : Nat → Exec β}
    {post : Except Abort β → List Event → Prop}
    (rest : Emits (f m.count) fun r es => post r (.sunk m :: es)) :
    Emits (There.sink m >>= f) post := by
  have first : Emits (There.sink m) fun r es => r = .ok m.count ∧ es = [.sunk m] :=
    Emits.sink ⟨rfl, rfl⟩
  refine Emits.bind first ?_ ?_
  · rintro _ _ ⟨⟨⟩, rfl⟩
    exact rest
  · rintro _ _ ⟨⟨⟩, _⟩

theorem emit_bind {e : Event} (he : e ≠ .counted) {f : PUnit → Exec β}
    {post : Except Abort β → List Event → Prop}
    (rest : Emits (f ⟨⟩) fun r es => post r (e :: es)) : Emits (Exec.emit e >>= f) post := by
  have first : Emits (Exec.emit e) fun r es => r = .ok ⟨⟩ ∧ es = [e] :=
    Emits.emit he ⟨rfl, rfl⟩
  refine Emits.bind first ?_ ?_
  · rintro _ _ ⟨-, rfl⟩
    exact rest
  · rintro _ _ ⟨⟨⟩, _⟩

/-- Reading the state has no effect, and nothing is known about what is read. -/
theorem get_bind {f : Record → Exec β} {post : Except Abort β → List Event → Prop}
    (rest : ∀ s, Emits (f s) post) : Emits (MonadState.get >>= f) post := by
  intro s hs
  rw [Effect.WP.bind_iff, Effect.WP.get_iff]
  exact rest s s hs

/-- An early return leaves the events as they are. -/
theorem ofExcept_bind {r : Except Report α} {f : α → Exec β}
    {post : Except Abort β → List Event → Prop} (value : ∀ a, r = .ok a → Emits (f a) post)
    (error : ∀ e, r = .error e → post (.error (.error e)) []) :
    Emits (Exec.ofExcept r >>= f) post := by
  cases r with
  | ok a => exact value a rfl
  | error e => exact Emits.throw (error e rfl)

/-- The run of a fresh executor whose log receiver is kept open. -/
theorem fresh (h : Emits p post) :
    post (Effect.outcome (p (.fresh none))) (Effect.finalState (p (.fresh none))).events ∧
      (Effect.finalState (p (.fresh none))).tasksCompleted =
        (Effect.finalState (p (.fresh none))).events.count .counted := by
  obtain ⟨-, es, events, counted, hp⟩ := h (.fresh none) rfl
  rw [events, counted]
  simpa [Record.fresh] using hp

end Emits

end There
