import There.Ipc.Requests

/-!
# The CLI and the controller as separate processes

Any number of CLIs apply their plans through one controller. A CLI sends a request and waits
for its answer, so at any time there is at most one text between it and the controller. The
controller answers the requests one by one, in any order, between the steps of its jobs. A
connection may break at any time, before the controller has seen the request or after it has
acted on it. Anybody else may send any request.

The CLI takes the body of the answer to its first request for the id of its job, whatever
the status of the answer, and asks for the state of that job until the job has ended.

The clients that the jobs of the controller carry are not used here.
-/

namespace There

open Concurrent Json

/-- What is between a CLI and the controller. -/
inductive Connection where
  | idle
  | asked (r : HttpRequest)
  | answered (r : Response)
  /-- There will be no answer. -/
  | closed

inductive FollowerStage where
  /-- Requesting the job. -/
  | requesting
  | following (jobId : String) (client : Client)
  /-- The request for the job was not answered. -/
  | stopped

/-- A CLI that applies a plan through the controller. -/
structure Follower where
  plan : Plan
  hosts : HostConfig
  stage : FollowerStage := .requesting
  connection : Connection := .idle

namespace Follower

variable (serdeJson : Format 127)

/-- The request that is due. -/
def request (p : Follower) : Option HttpRequest :=
  match p.stage with
  | .requesting =>
      some ⟨.post, runPath, serdeJson.print (JobStartRequest.json p.plan p.hosts)⟩
  | .following jobId client =>
      match client.stage with
      | .polling => some ⟨.get, statusPath jobId, ""⟩
      | _ => none
  | .stopped => none

def send (p : Follower) : Option Follower :=
  match p.connection with
  | .idle => (p.request serdeJson).map fun r => { p with connection := .asked r }
  | _ => none

/-- The loop goes on with the state of the job, if the body is one. -/
def readState (body : String) : ClientStage :=
  match (serdeJson.parse body).bind JobState.deserialize with
  | some state => .holding state
  | none => .failed

/-- What the CLI makes of an answer, or of there being none. -/
def take : FollowerStage → Option Response → FollowerStage
  | .requesting, some r => .following r.body {}
  | .requesting, none => .stopped
  | .following jobId client, some r =>
      .following jobId { client with stage := readState serdeJson r.body }
  | .following jobId client, none => .following jobId { client with stage := .failed }
  | .stopped, _ => .stopped

def receive (p : Follower) : Option Follower :=
  match p.connection with
  | .answered r => some { p with stage := take serdeJson p.stage (some r), connection := .idle }
  | .closed => some { p with stage := take serdeJson p.stage none, connection := .idle }
  | _ => none

/-- The connection breaks. -/
def drop (p : Follower) : Option Follower :=
  match p.connection with
  | .asked _ => some { p with connection := .closed }
  | .answered _ => some { p with connection := .closed }
  | _ => none

/-- The answer is on its way. -/
def answer (p : Follower) : Option Response → Follower
  | some r => { p with connection := .answered r }
  | none => { p with connection := .closed }

def print (p : Follower) (order : List (Sigma fun _ : String => List LogEntry)) :
    Option Follower :=
  match p.stage with
  | .following jobId client =>
      (client.print order).map fun client => { p with stage := .following jobId client }
  | _ => none

/-- The job that the CLI follows, or whose id is on its way to it. -/
def jobId (p : Follower) : Option String :=
  match p.stage, p.connection with
  | .requesting, .answered r => some r.body
  | .following jobId _, _ => some jobId
  | _, _ => none

/-- The lines that the CLI has printed, in their order. -/
def printed (p : Follower) : List LogEntry :=
  match p.stage with
  | .following _ client => client.printed
  | _ => []

/-- The lines that the CLI has printed for a host. -/
def printedFor (p : Follower) (hostname : String) : List LogEntry :=
  match p.stage with
  | .following _ client => client.printedFor hostname
  | _ => []

/-- The CLI has seen the job end with this status. -/
def Left (p : Follower) (status : JobStatus) : Prop :=
  ∃ jobId client, p.stage = .following jobId client ∧ client.stage = .left status

end Follower

/-- The steps of the controller that answer no request and print nothing. -/
def System.Action.isInternal : System.Action → Bool
  | job _ (.print _) => false
  | job _ _ => true
  | append _ _ _ => true
  | record _ _ => true
  | _ => false

structure Wire where
  controller : System
  follower : Nat → Option Follower

namespace Wire

/-- The controller has started, and no CLI yet. -/
def start : Wire where
  controller := System.start
  follower := fun _ => none

def setFollower (w : Wire) (n : Nat) (p : Follower) : Wire :=
  { w with follower := Function.update w.follower n (some p) }

inductive Action where
  | run (n : Nat) (plan : Plan) (hosts : HostConfig)
  | send (n : Nat)
  /-- The controller answers the request of a CLI. -/
  | serve (n : Nat) (chance : Chance)
  | drop (n : Nat)
  | receive (n : Nat)
  | print (n : Nat) (order : List (Sigma fun _ : String => List LogEntry))
  | controller (act : System.Action)
  /-- Somebody else sends a request and does what they like with the answer. -/
  | stranger (r : HttpRequest) (chance : Chance)

variable (serdeJson : Format 127)

/-- A CLI takes a step by itself. -/
def stepFollower (w : Wire) (n : Nat) (f : Follower → Option Follower) : Option Wire :=
  match w.follower n with
  | some p => (f p).map (w.setFollower n)
  | none => none

def step (w : Wire) : Action → Option Wire
  | .run n plan hosts =>
      match w.follower n with
      | some _ => none
      | none => some (w.setFollower n { plan, hosts })
  | .send n => w.stepFollower n (Follower.send serdeJson)
  | .serve n chance =>
      match w.follower n with
      | some p =>
          match p.connection with
          | .asked r => (w.controller.handle serdeJson r chance).map fun (controller, answer) =>
              setFollower { w with controller } n (p.answer answer)
          | _ => none
      | none => none
  | .drop n => w.stepFollower n Follower.drop
  | .receive n => w.stepFollower n (Follower.receive serdeJson)
  | .print n order => w.stepFollower n (Follower.print · order)
  | .controller act =>
      if act.isInternal then
        (w.controller.step act).map fun controller => { w with controller }
      else
        none
  | .stranger r chance =>
      (w.controller.handle serdeJson r chance).map fun (controller, _) => { w with controller }

@[simp] theorem setFollower_follower (w : Wire) (n : Nat) (p : Follower) :
    (w.setFollower n p).follower n = some p := Function.update_self ..

theorem setFollower_follower_ne (w : Wire) {n m : Nat} (p : Follower) (ne : m ≠ n) :
    (w.setFollower n p).follower m = w.follower m := Function.update_of_ne ne _ _

/-- A CLI that is there after one has been replaced is the new one or one of the others. -/
theorem setFollower_cases {w : Wire} {n m : Nat} {p q : Follower}
    (found : (w.setFollower m q).follower n = some p) :
    n = m ∧ q = p ∨ n ≠ m ∧ w.follower n = some p := by
  by_cases here : n = m
  · subst here
    exact .inl ⟨rfl, Option.some.inj ((setFollower_follower ..).symm.trans found)⟩
  · exact .inr ⟨here, (setFollower_follower_ne w q here).symm.trans found⟩

/-- The steps of a CLI that the controller has no part in, and that print nothing. -/
inductive Proceeds (serdeJson : Format 127) (p : Follower) : Follower → Prop where
  | send {r : HttpRequest} : p.connection = .idle → p.request serdeJson = some r →
      Proceeds serdeJson p { p with connection := .asked r }
  | drop : p.connection ≠ .idle → p.connection ≠ .closed →
      Proceeds serdeJson p { p with connection := .closed }
  | answered {r : Response} : p.connection = .answered r →
      Proceeds serdeJson p
        { p with stage := Follower.take serdeJson p.stage (some r), connection := .idle }
  | closed : p.connection = .closed →
      Proceeds serdeJson p
        { p with stage := Follower.take serdeJson p.stage none, connection := .idle }

/-- What the steps can do, each with the guard it has passed. -/
inductive Moves (serdeJson : Format 127) (w : Wire) : Wire → Prop where
  | run {n : Nat} {plan : Plan} {hosts : HostConfig} : w.follower n = none →
      Moves serdeJson w (w.setFollower n { plan, hosts })
  | proceeds {n : Nat} {p p' : Follower} : w.follower n = some p → Proceeds serdeJson p p' →
      Moves serdeJson w (w.setFollower n p')
  | serve {n : Nat} {p : Follower} {r : HttpRequest} {chance : Chance} {controller : System}
      {answer : Option Response} : w.follower n = some p → p.connection = .asked r →
      w.controller.handle serdeJson r chance = some (controller, answer) →
      Moves serdeJson w (setFollower { w with controller } n (p.answer answer))
  | print {n : Nat} {p : Follower} {jobId : String} {client client' : Client}
      {order : List (Sigma fun _ : String => List LogEntry)} : w.follower n = some p →
      p.stage = .following jobId client → client.print order = some client' →
      Moves serdeJson w (w.setFollower n { p with stage := .following jobId client' })
  | controller {act : System.Action} {controller : System} : act.isInternal →
      w.controller.step act = some controller → Moves serdeJson w { w with controller }
  | stranger {r : HttpRequest} {chance : Chance} {controller : System}
      {answer : Option Response} :
      w.controller.handle serdeJson r chance = some (controller, answer) →
      Moves serdeJson w { w with controller }

variable {serdeJson} {w w' : Wire}

theorem stepFollower_eq_some {n : Nat} {f : Follower → Option Follower}
    (h : w.stepFollower n f = some w') :
    ∃ p p', w.follower n = some p ∧ f p = some p' ∧ w' = w.setFollower n p' := by
  rw [stepFollower] at h
  split at h
  · obtain ⟨p', stepped, rfl⟩ := Option.map_eq_some_iff.mp h
    exact ⟨_, p', ‹_›, stepped, rfl⟩
  · cases h

theorem proceeds_send {p p' : Follower} (h : p.send serdeJson = some p') :
    Proceeds serdeJson p p' := by
  rw [Follower.send] at h
  split at h
  · obtain ⟨r, due, rfl⟩ := Option.map_eq_some_iff.mp h
    exact .send ‹_› due
  · cases h

theorem proceeds_drop {p p' : Follower} (h : p.drop = some p') : Proceeds serdeJson p p' := by
  rw [Follower.drop] at h
  split at h
  · obtain rfl := Option.some.inj h
    exact .drop (by simp [*]) (by simp [*])
  · obtain rfl := Option.some.inj h
    exact .drop (by simp [*]) (by simp [*])
  · cases h

theorem proceeds_receive {p p' : Follower} (h : p.receive serdeJson = some p') :
    Proceeds serdeJson p p' := by
  rw [Follower.receive] at h
  split at h
  · obtain rfl := Option.some.inj h
    exact .answered ‹_›
  · obtain rfl := Option.some.inj h
    exact .closed ‹_›
  · cases h

theorem step_moves {act : Action} (h : w.step serdeJson act = some w') : w.Moves serdeJson w' := by
  cases act with
  | run n plan hosts =>
      simp only [step] at h
      split at h
      · cases h
      · obtain rfl := Option.some.inj h
        exact .run ‹_›
  | send n =>
      obtain ⟨p, p', found, stepped, rfl⟩ := stepFollower_eq_some h
      exact .proceeds found (proceeds_send stepped)
  | serve n chance =>
      simp only [step] at h
      split at h
      · split at h
        · obtain ⟨⟨controller, answer⟩, handled, rfl⟩ := Option.map_eq_some_iff.mp h
          exact .serve ‹_› ‹_› handled
        · cases h
      · cases h
  | drop n =>
      obtain ⟨p, p', found, stepped, rfl⟩ := stepFollower_eq_some h
      exact .proceeds found (proceeds_drop stepped)
  | receive n =>
      obtain ⟨p, p', found, stepped, rfl⟩ := stepFollower_eq_some h
      exact .proceeds found (proceeds_receive stepped)
  | print n order =>
      obtain ⟨p, p', found, stepped, rfl⟩ := stepFollower_eq_some h
      rw [Follower.print] at stepped
      split at stepped
      · obtain ⟨client', printed, rfl⟩ := Option.map_eq_some_iff.mp stepped
        exact .print found ‹_› printed
      · cases stepped
  | controller act =>
      simp only [step] at h
      split at h
      · obtain ⟨controller, stepped, rfl⟩ := Option.map_eq_some_iff.mp h
        exact .controller ‹_› stepped
      · cases h
  | stranger r chance =>
      obtain ⟨⟨controller, answer⟩, handled, rfl⟩ := Option.map_eq_some_iff.mp h
      exact .stranger handled

end Wire

end There
