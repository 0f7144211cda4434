import There.Concurrent.Simulation
import There.Controller.StateMachine
import There.Ipc.Wire

/-!
# Following a job over the wire

A CLI that follows a job by texts does what the client of the job does that gets the state
of the job at once: when the controller answers, the client holds what it has answered, and
when the CLI has read the text, it holds the same up to the order of the maps. So every run
of the processes is a run of the controller with its clients, in which each client has come
as far as the CLI that follows its job.

A job is followed by the CLI that has asked for it and by no other. The only id without a job
that a CLI can have is the refusal of a request that is too long.
-/

namespace There

open Concurrent Json

/-- The steps of a job that print nothing do not depend on its client. -/
theorem Job.step_client {job job' : Job} {act : Action} (client : Client)
    (silent : ∀ order, act ≠ .print order) (h : job.step act = some job') :
    Job.step { job with client } act = some { job' with client } := by
  cases act with
  | print order => exact absurd rfl (silent order)
  | begin =>
      simp only [step] at h ⊢
      split at h
      · rename_i spawned
        rw [if_pos spawned]
        cases hr : Effect.outcome (Controller.dispatch job.plan job.hosts []) with
        | error e | ok u =>
            simp only [hr] at h ⊢
            obtain rfl := Option.some.inj h
            rfl
      · cases h
  | apply i act =>
      simp only [step] at h ⊢
      split at h
      · obtain ⟨a', stepped, rfl⟩ := Option.map_eq_some_iff.mp h
        rw [stepped]
        rfl
      · cases h
  | collect i =>
      simp only [step] at h ⊢
      split at h
      · rename_i draining
        rw [if_pos draining]
        split at h
        · obtain ⟨⟨result, a'⟩, taken, rfl⟩ := Option.map_eq_some_iff.mp h
          rw [taken]
          rfl
        · cases h
      · cases h
  | conclude =>
      simp only [step] at h ⊢
      split at h
      · rename_i guard
        rw [if_pos guard]
        obtain rfl := Option.some.inj h
        rfl
      · cases h

namespace System

/-- The jobs with these clients. -/
def withClients (s : System) (clients : String → Client) : System :=
  { s with job := fun id => (s.job id).map fun job => { job with client := clients id } }

variable {s t : System} {clients : String → Client} {id : String} {job : Job}

@[simp] theorem withClients_jobs : (s.withClients clients).jobs = s.jobs := rfl

theorem withClients_job (found : s.job id = some job) :
    (s.withClients clients).job id = some { job with client := clients id } :=
  congrArg (Option.map _) found

theorem withClients_job_none : (s.withClients clients).job id = none ↔ s.job id = none :=
  Option.map_eq_none_iff

theorem withClients_setJob : (s.setJob id job).withClients clients =
    (s.withClients clients).setJob id { job with client := clients id } := by
  rw [setJob, setJob, withClients, withClients]
  congr 1
  funext id'
  by_cases here : id' = id
  · subst here
    simp
  · simp [Function.update_of_ne here]

theorem withClients_modifyJob {f : JobState → JobState} {victims : List String}
    {message : String} : (s.modifyJob id f victims message).withClients clients =
      (s.withClients clients).modifyJob id f victims message := by
  simp only [modifyJob, withClients_jobs]
  split <;> rfl

/-- One client is replaced. -/
theorem withClients_update (found : s.job id = some job) (client : Client) :
    s.withClients (Function.update clients id client) =
      (s.withClients clients).setJob id { job with client } := by
  rw [setJob, withClients, withClients]
  congr 1
  funext id'
  by_cases here : id' = id
  · subst here
    simp [found]
  · simp [Function.update_of_ne here]

/-- What answers no request and prints nothing goes on alike whatever the clients do. -/
theorem step_internal {act : Action} (internal : act.isInternal) (h : s.step act = some t) :
    (s.withClients clients).step act = some (t.withClients clients) := by
  cases act with
  | job id act =>
      have silent : ∀ order, act ≠ .print order := by
        rintro order rfl
        cases internal
      simp only [step] at h
      split at h
      · obtain ⟨job', stepped, rfl⟩ := Option.map_eq_some_iff.mp h
        simp only [step, withClients_job ‹_›, Job.step_client (clients id) silent stepped]
        rw [withClients_setJob]
        rfl
      · cases h
  | append id i victims =>
      simp only [step] at h
      split at h
      · rename_i job found
        split at h
        · rename_i a here
          obtain ⟨⟨logs, a'⟩, appended, rfl⟩ := Option.map_eq_some_iff.mp h
          simp only [step, withClients_job found, here, appended, Option.map_some]
          rw [withClients_setJob, withClients_modifyJob]
        · cases h
      · cases h
  | record id victims =>
      simp only [step] at h
      split at h
      · rename_i job found
        split at h
        · rename_i result concluded
          obtain rfl := Option.some.inj h
          simp only [step, withClients_job found, concluded]
          rw [withClients_setJob, withClients_modifyJob]
        · cases h
      · cases h
  | runPlan _ _ _ _ _ | poll _ | status _ => cases internal

/-- A new job has a new client. -/
theorem step_request {plan : Plan} {hosts : HostConfig} {world : Nat → World}
    {victims : List String} (new : clients id = {})
    (h : s.step (.runPlan id plan hosts world victims) = some t) :
    (s.withClients clients).step (.runPlan id plan hosts world victims) =
      some (t.withClients clients) := by
  simp only [step] at h
  split at h
  · cases h
  · obtain rfl := Option.some.inj h
    have fresh : (s.withClients clients).job id = none :=
      withClients_job_none.mpr ‹s.job id = none›
    simp only [step, fresh, withClients_jobs]
    rw [withClients_setJob, new]
    rfl

/-- A client gets the state of its job when the controller has answered. -/
theorem step_poll (found : s.job id = some job) (polling : (clients id).stage = .polling) :
    (s.withClients clients).step (.poll id) = some (s.withClients (Function.update clients id
      { clients id with stage := match s.jobs.get id with
          | some state => .holding state
          | none => .failed })) := by
  rw [withClients_update found]
  simp only [step, withClients_job found, polling, getJobStatus, withClients_jobs]
  cases s.jobs.get id <;> rfl

theorem step_print {order : List (Sigma fun _ : String => List LogEntry)} {client : Client}
    (found : s.job id = some job) (printed : (clients id).print order = some client) :
    (s.withClients clients).step (.job id (.print order)) =
      some (s.withClients (Function.update clients id client)) := by
  rw [withClients_update found]
  simp only [step, withClients_job found, Job.step, printed, Option.map_some]

/-- A job stays, and what was requested does not change. -/
theorem Moves.keeps {act : Action} (h : s.Moves act t) (found : s.job id = some job) :
    ∃ job', t.job id = some job' ∧ job'.plan = job.plan ∧ job'.hosts = job.hosts := by
  obtain ⟨job', found'⟩ := Option.isSome_iff_exists.mp (h.job_isSome (by rw [found]; rfl))
  refine ⟨job', found', ?_⟩
  cases h.affects found' with
  | nothing here _ | evicted _ here _ =>
      obtain rfl := Option.some.inj (found.symm.trans here)
      exact ⟨rfl, rfl⟩
  | requested requested _ _ =>
      subst requested
      cases h with
      | runPlan fresh => simp [fresh] at found
  | evolved here evolved _ =>
      obtain rfl := Option.some.inj (found.symm.trans here)
      exact ⟨evolved.same.1, evolved.same.2.1⟩

/-- A job was there before, or has just been requested. -/
theorem Moves.known {act : Action} (h : s.Moves act t) (found : t.job id = some job) :
    (∃ job₀, s.job id = some job₀) ∨
      ∃ plan hosts world victims, act = .runPlan id plan hosts world victims := by
  cases h.affects found with
  | nothing here _ | evicted _ here _ => exact .inl ⟨_, here⟩
  | requested requested _ _ => exact .inr ⟨_, _, _, _, requested⟩
  | evolved here _ _ => exact .inl ⟨_, here⟩

end System

variable (serdeJson : Format 127)

/-- What the client of a job has come to, when the loop of its CLI is at this stage. -/
def ClientStage.SeenAs : ClientStage → Connection → ClientStage → Prop
  | .polling, .answered r, client =>
      ∃ state, client = .holding state ∧ r.body = serdeJson.print state.serialize
  | .polling, .closed, _ => True
  | .polling, _, client => client = .polling
  | .holding state', _, client => ∃ state, client = .holding state ∧ state'.Same state
  | .left status, _, client => client = .left status
  | .failed, _, _ => True

namespace Follower

/-- The client of the job that the CLI has asked for. -/
def Views (p : Follower) (client : Client) : Prop :=
  match p.stage with
  | .requesting => client = {}
  | .following _ c => client.printed = c.printed ∧ client.logOffsets = c.logOffsets ∧
      c.stage.SeenAs serdeJson p.connection client.stage
  | .stopped => True

/-- The CLI follows no job: it asks for one that there is not. -/
def Astray (p : Follower) : Prop :=
  match p.stage with
  | .following _ c => c.printed = [] ∧ (c.stage = .polling ∨ c.stage = .failed) ∧
      ∀ r, p.connection ≠ .answered r
  | _ => True

/-- What becomes of a CLI that knows this id. -/
inductive Tracks (controller : System) (clients : String → Client) (p : Follower)
    (id : String) : Prop where
  | refused : id = tooLong → p.Astray → Tracks controller clients p id
  | job {job : Job} : IsJobId id → controller.job id = some job → job.plan = p.plan →
      job.hosts.SameFile p.hosts → p.Views serdeJson (clients id) → Tracks controller clients p id

/-- What holds of a CLI by itself and of the job that it follows. -/
structure Sound (controller : System) (clients : String → Client) (p : Follower) : Prop where
  asked : ∀ r, p.connection = .asked r → p.request serdeJson = some r
  busy : p.connection ≠ .idle → (p.request serdeJson).isSome
  tracks : ∀ id, p.jobId = some id → p.Tracks serdeJson controller clients id

end Follower

/-- The CLIs and the clients of the jobs have come equally far. -/
structure Wire.Agrees (w : Wire) (clients : String → Client) : Prop where
  ids : ∀ id job, w.controller.job id = some job → IsJobId id
  fresh : ∀ id, w.controller.job id = none → clients id = {}
  sound : ∀ n p, w.follower n = some p → p.Sound serdeJson w.controller clients
  /-- No two CLIs follow one job. -/
  alone : ∀ n m p q id, w.follower n = some p → w.follower m = some q → p.jobId = some id →
    q.jobId = some id → id ≠ tooLong → n = m

variable {serdeJson} {controller : System} {clients : String → Client}

namespace Follower

variable {p : Follower} {id : String}

/-- The state of a job is read from the answer up to the order of its maps. -/
theorem readState_print (state : JobState) :
    ∃ state', readState serdeJson (serdeJson.print state.serialize) = .holding state' ∧
      state'.Same state := by
  obtain ⟨state', read, same⟩ := state.reads.parse_print serdeJson (Value.Reorders.refl _)
    (Nat.le_trans state.depth_le (by decide))
  exact ⟨state', by simp only [readState, read], same⟩

theorem Views.send {r : HttpRequest} {client : Client} (views : p.Views serdeJson client)
    (idle : p.connection = .idle) :
    Views serdeJson { p with connection := .asked r } client := by
  rw [Views] at views ⊢
  cases hs : p.stage with
  | requesting => simpa [hs] using views
  | stopped => trivial
  | following id c =>
      simp only [hs, idle] at views ⊢
      refine ⟨views.1, views.2.1, ?_⟩
      cases hc : c.stage with
      | failed => trivial
      | _ => simpa [hc, ClientStage.SeenAs] using views.2.2

theorem Views.close {client : Client} (views : p.Views serdeJson client) :
    Views serdeJson { p with connection := .closed } client := by
  rw [Views] at views ⊢
  cases hs : p.stage with
  | requesting => simpa [hs] using views
  | stopped => trivial
  | following id c =>
      simp only [hs] at views ⊢
      refine ⟨views.1, views.2.1, ?_⟩
      cases hc : c.stage with
      | polling | failed => trivial
      | _ => simpa [hc, ClientStage.SeenAs] using views.2.2

/-- The stages at which a request is due. -/
theorem request_isSome (h : (p.request serdeJson).isSome) :
    p.stage = .requesting ∨ ∃ id c, p.stage = .following id c ∧ c.stage = .polling := by
  rw [request] at h
  split at h
  · exact .inl ‹_›
  · split at h
    · exact .inr ⟨_, _, ‹_›, ‹_›⟩
    · cases h
  · cases h

/-- The answer to the first request is the id; to the others, it is the state of the job. -/
theorem Views.answered {r : Response} {client : Client} (views : p.Views serdeJson client)
    (answered : p.connection = .answered r) (due : (p.request serdeJson).isSome) :
    Views serdeJson { p with stage := take serdeJson p.stage (some r), connection := .idle }
      client := by
  rcases request_isSome due with hs | ⟨id, c, hs, hc⟩
  · simp only [Views, hs] at views
    subst views
    simp only [Views, hs, take]
    exact ⟨trivial, trivial, rfl⟩
  · simp only [Views, hs, hc, answered] at views
    obtain ⟨printed, offsets, state, holding, body⟩ := views
    obtain ⟨state', read, same⟩ := @readState_print serdeJson state
    simp only [Views, hs, take, body, read]
    exact ⟨printed, offsets, state, holding, same⟩

/-- A CLI that gets no answer is told nothing. -/
theorem Views.closed {client : Client} (views : p.Views serdeJson client)
    (due : (p.request serdeJson).isSome) :
    Views serdeJson { p with stage := take serdeJson p.stage none, connection := .idle }
      client := by
  rcases request_isSome due with hs | ⟨id, c, hs, hc⟩
  · simp only [Views, hs, take]
  · simp only [Views, hs] at views
    simp only [Views, hs, take]
    exact ⟨views.1, views.2.1, trivial⟩

variable {p' : Follower}

/-- What a CLI does by itself leaves it with the same job. -/
theorem jobId_proceeds (proceeds : Wire.Proceeds serdeJson p p')
    (busy : p.connection ≠ .idle → (p.request serdeJson).isSome) (knows : p'.jobId = some id) :
    p.jobId = some id := by
  cases proceeds with
  | send _ _ | drop _ _ =>
      cases hs : p.stage <;> simp_all [jobId]
  | answered answered =>
      rcases request_isSome (busy (by simp [answered])) with hs | ⟨_, c, hs, -⟩ <;>
        simpa [jobId, hs, take, answered] using knows
  | closed closed =>
      rcases request_isSome (busy (by simp [closed])) with hs | ⟨_, c, hs, -⟩
      · simp [jobId, hs, take] at knows
      · simpa [jobId, hs, take] using knows

theorem Astray.proceeds (astray : p.Astray) (proceeds : Wire.Proceeds serdeJson p p')
    (busy : p.connection ≠ .idle → (p.request serdeJson).isSome) : p'.Astray := by
  cases proceeds with
  | send _ _ | drop _ _ =>
      cases hs : p.stage with
      | following _ c => simp_all [Astray]
      | _ => simp [Astray]
  | answered answered =>
      rcases request_isSome (busy (by simp [answered])) with hs | ⟨_, c, hs, -⟩
      · simp [Astray, hs, take]
      · simp only [Astray, hs] at astray
        exact absurd answered (astray.2.2 _)
  | closed closed =>
      rcases request_isSome (busy (by simp [closed])) with hs | ⟨_, c, hs, -⟩
      · simp [Astray, hs, take]
      · simp only [Astray, hs] at astray
        simp [Astray, hs, take, astray.1]

theorem Views.proceeds {client : Client} (views : p.Views serdeJson client)
    (proceeds : Wire.Proceeds serdeJson p p')
    (busy : p.connection ≠ .idle → (p.request serdeJson).isSome) :
    p'.Views serdeJson client := by
  cases proceeds with
  | send idle _ => exact views.send idle
  | drop _ _ => exact views.close
  | answered answered => exact views.answered answered (busy (by simp [answered]))
  | closed closed => exact views.closed (busy (by simp [closed]))

/-- What a CLI does by itself needs no step of the controller and its clients. -/
theorem Sound.proceeds (sound : p.Sound serdeJson controller clients)
    (proceeds : Wire.Proceeds serdeJson p p') : p'.Sound serdeJson controller clients where
  asked := by
    cases proceeds with
    | send _ due =>
        rintro r ⟨⟩
        exact due
    | _ => exact fun r asked => by cases asked
  busy := by
    cases proceeds with
    | send _ due => exact fun _ => Option.isSome_iff_exists.mpr ⟨_, due⟩
    | drop busy _ => exact fun _ => sound.busy busy
    | _ => exact fun busy => absurd rfl busy
  tracks := by
    intro id knows
    have same : p'.plan = p.plan ∧ p'.hosts = p.hosts := by
      cases proceeds <;> exact ⟨rfl, rfl⟩
    cases sound.tracks id (jobId_proceeds proceeds sound.busy knows) with
    | refused refused astray => exact .refused refused (astray.proceeds proceeds sound.busy)
    | job made found plan hosts views =>
        refine .job made found (plan.trans same.1.symm) ?_ (views.proceeds proceeds sound.busy)
        rw [same.2]
        exact hosts

/-- The steps of others keep the jobs, and the client of the job that is followed. -/
theorem Sound.others {controller' : System} {clients' : String → Client}
    (sound : p.Sound serdeJson controller clients)
    (keeps : ∀ id job, controller.job id = some job → ∃ job', controller'.job id = some job' ∧
      job'.plan = job.plan ∧ job'.hosts = job.hosts)
    (same : ∀ id, p.jobId = some id → id ≠ tooLong → clients' id = clients id) :
    p.Sound serdeJson controller' clients' where
  asked := sound.asked
  busy := sound.busy
  tracks := by
    intro id knows
    cases sound.tracks id knows with
    | refused refused astray => exact .refused refused astray
    | job made found plan hosts views =>
        obtain ⟨job', found', plan', hosts'⟩ := keeps id _ found
        have other : id ≠ tooLong := fun here => not_isJobId_tooLong (here ▸ made)
        refine .job made found' (plan'.trans plan) (hosts' ▸ hosts) ?_
        rw [same id knows other]
        exact views

end Follower

namespace Wire.Agrees

variable {w : Wire}

theorem start : Agrees serdeJson Wire.start fun _ => {} where
  ids := fun _ _ found => by cases found
  fresh := fun _ _ => rfl
  sound := fun _ _ found => by cases found
  alone := fun _ _ _ _ _ found => by cases found

/-- One CLI has come further, and the client of its job with it. -/
theorem setFollower (agrees : w.Agrees serdeJson clients) {n : Nat} {p : Follower}
    {clients' : String → Client} (sound : p.Sound serdeJson w.controller clients')
    (alone : ∀ m q id, m ≠ n → w.follower m = some q → q.jobId = some id → id ≠ tooLong →
      p.jobId ≠ some id)
    (others : ∀ id, p.jobId ≠ some id → clients' id = clients id)
    (fresh : ∀ id, w.controller.job id = none → clients' id = {}) :
    (w.setFollower n p).Agrees serdeJson clients' where
  ids := agrees.ids
  fresh := fresh
  sound := by
    intro m q found
    rcases setFollower_cases found with ⟨rfl, rfl⟩ | ⟨ne, before⟩
    · exact sound
    · exact (agrees.sound m q before).others (fun _ job found => ⟨job, found, rfl, rfl⟩)
        fun id knows other => others id (alone m q id ne before knows other)
  alone := by
    intro m k q q' id found found' knows knows' other
    rcases setFollower_cases found with ⟨rfl, rfl⟩ | ⟨ne, before⟩ <;>
      rcases setFollower_cases found' with ⟨rfl, rfl⟩ | ⟨ne', before'⟩
    · rfl
    · exact absurd knows (alone k q' id ne' before' knows' other)
    · exact absurd knows' (alone m q id ne before knows other)
    · exact agrees.alone m k q q' id before before' knows knows' other

/-- A CLI has come further with the job that it had, or without one. -/
theorem proceeds (agrees : w.Agrees serdeJson clients) {n : Nat} {p p' : Follower}
    (found : w.follower n = some p) (knows : ∀ id, p'.jobId = some id → p.jobId = some id)
    {clients' : String → Client} (sound : p'.Sound serdeJson w.controller clients')
    (others : ∀ id, p'.jobId ≠ some id → clients' id = clients id)
    (fresh : ∀ id, w.controller.job id = none → clients' id = {}) :
    (w.setFollower n p').Agrees serdeJson clients' := by
  refine agrees.setFollower sound (fun m q id ne there theirs other mine => ne ?_) others fresh
  exact agrees.alone m n q p id there found theirs (knows id mine) other

/-- No job is stored under the answer to a body that is too long. -/
theorem get_tooLong (agrees : w.Agrees serdeJson clients)
    (reached : Reachable System.step (fun _ _ => True) System.start
      (w.controller.withClients clients)) : w.controller.jobs.get tooLong = none := by
  have absent : (w.controller.withClients clients).job tooLong = none :=
    System.withClients_job_none.mpr <| Option.eq_none_iff_forall_ne_some.mpr fun job known =>
      not_isJobId_tooLong (agrees.ids _ job known)
  have missing := System.get_of_fresh reached absent
  rwa [System.withClients_jobs] at missing

/-- The controller goes on, and no CLI takes notice. -/
theorem controller_moves {t : System} {act : System.Action} (agrees : w.Agrees serdeJson clients)
    (moves : w.controller.Moves act t)
    (made : ∀ id plan hosts world victims, act = .runPlan id plan hosts world victims →
      IsJobId id) : Agrees serdeJson { w with controller := t } clients where
  ids := by
    intro id job found
    rcases moves.known found with ⟨_, before⟩ | ⟨_, _, _, _, requested⟩
    · exact agrees.ids id _ before
    · exact made _ _ _ _ _ requested
  fresh := by
    intro id fresh
    refine agrees.fresh id (Option.eq_none_iff_forall_ne_some.mpr fun job found => ?_)
    obtain ⟨job', found', -⟩ := moves.keeps found
    exact absurd found' (by rw [fresh]; exact Option.some_ne_none job' ∘ Eq.symm)
  sound := fun m q found =>
    (agrees.sound m q found).others (fun _ _ => moves.keeps) fun _ _ _ => rfl
  alone := agrees.alone

end Wire.Agrees

/-- A state of the processes and the state of the controller with its clients. -/
def Wire.Explained (serdeJson : Format 127) (w : Wire) (s : System) : Prop :=
  ∃ clients, s = w.controller.withClients clients ∧ w.Agrees serdeJson clients

section Serve

variable {w : Wire} {n : Nat} {p : Follower} {r : HttpRequest} {chance : Chance}
variable {answer : Option Response}

theorem Follower.Sound.answered {controller' : System} {clients' : String → Client}
    (sound : p.Sound serdeJson controller clients) (asked : p.connection = .asked r)
    (tracks : ∀ id, (p.answer answer).jobId = some id →
      (p.answer answer).Tracks serdeJson controller' clients' id) :
    (p.answer answer).Sound serdeJson controller' clients' where
  asked := by
    intro r' asked
    cases answer <;> cases asked
  busy := by
    intro _
    have due : p.request serdeJson = some r := sound.asked r asked
    cases answer <;> exact Option.isSome_iff_exists.mpr ⟨r, due⟩
  tracks := tracks

/-- The job that is started for a CLI is what it has asked for, and nobody else's. -/
theorem Wire.serve_requesting (agrees : w.Agrees serdeJson clients)
    (found : w.follower n = some p) (asked : p.connection = .asked r)
    (requesting : p.stage = .requesting)
    (handled : w.controller.handle serdeJson r chance = some (controller, answer)) :
    ∃ s, Reachable System.step (fun _ _ => True) (w.controller.withClients clients) s ∧
      Explained serdeJson (setFollower { w with controller } n (p.answer answer)) s := by
  have sound := agrees.sound n p found
  have due := sound.asked r asked
  rw [Follower.request, requesting] at due
  obtain rfl := Option.some.inj due
  rcases System.handle_run handled with ⟨rfl, rfl⟩ | ⟨hosts, sameFile, made, stepped, rfl⟩
  · have knows : (p.answer (some ⟨413, tooLong⟩)).jobId = some tooLong := by
      simp [Follower.answer, Follower.jobId, requesting]
    refine ⟨_, .start, clients, rfl, agrees.setFollower ?_ ?_ (fun _ _ => rfl) agrees.fresh⟩
    · refine sound.answered asked fun id mine => .refused ?_ ?_
      · exact Option.some.inj (mine.symm.trans knows)
      · simp [Follower.answer, Follower.Astray, requesting]
    · intro m q id _ _ _ other mine
      exact other (Option.some.inj (mine.symm.trans knows))
  · have moves := System.step_moves stepped
    have fresh : w.controller.job chance.id = none := by
      cases moves with
      | runPlan fresh => exact fresh
    have started : ∃ job, controller.job chance.id = some job ∧ job.plan = p.plan ∧
        job.hosts = hosts := by
      cases moves with
      | runPlan _ => exact ⟨_, System.setJob_job .., rfl, rfl⟩
    obtain ⟨job, started, plan, rfl⟩ := started
    have new : clients chance.id = {} := agrees.fresh _ fresh
    have agrees' : Agrees serdeJson { w with controller } clients :=
      agrees.controller_moves moves (by rintro _ _ _ _ _ ⟨⟩; exact made)
    have knows : (p.answer (some ⟨200, chance.id⟩)).jobId = some chance.id := by
      simp [Follower.answer, Follower.jobId, requesting]
    refine ⟨_, .step .start trivial (System.step_request new stepped), clients, rfl,
      agrees'.setFollower ?_ ?_ (fun _ _ => rfl) agrees'.fresh⟩
    · refine sound.answered asked fun id mine => ?_
      obtain rfl : chance.id = id := Option.some.inj (knows.symm.trans mine)
      refine .job made started plan sameFile ?_
      simp only [Follower.answer, Follower.Views, requesting, new]
    · intro m q id _ there theirs other mine
      obtain rfl : chance.id = id := Option.some.inj (knows.symm.trans mine)
      cases (agrees.sound m q there).tracks _ theirs with
      | refused refused _ => exact other refused
      | job _ known _ _ _ => simp [fresh] at known

theorem Follower.jobId_answer {id : String} {c : Client} (following : p.stage = .following id c) :
    (p.answer answer).jobId = some id := by
  cases answer <;> simp [Follower.answer, Follower.jobId, following]

/-- A CLI that has taken a refusal for a job id is told that there is no such job. -/
theorem Wire.serve_refused (agrees : w.Agrees serdeJson clients)
    (reached : Reachable System.step (fun _ _ => True) System.start
      (w.controller.withClients clients))
    (found : w.follower n = some p) {c : Client} (following : p.stage = .following tooLong c)
    (asked : p.connection = .asked r) (astray : p.Astray)
    (handled : w.controller.handle serdeJson ⟨.get, statusPath tooLong, ""⟩ chance =
      some (controller, answer)) :
    ∃ s, Reachable System.step (fun _ _ => True) (w.controller.withClients clients) s ∧
      Explained serdeJson (setFollower { w with controller } n (p.answer answer)) s := by
  obtain ⟨rfl, rfl⟩ := System.handle_status (by decide) (by decide) handled
  have missing := agrees.get_tooLong reached
  have same := @Follower.jobId_answer _ none _ _ following
  have mine : p.jobId = some tooLong := by simp [Follower.jobId, following]
  rw [missing, Option.map_none]
  refine ⟨_, .start, clients, rfl, agrees.proceeds found ?_ ?_ (fun _ _ => rfl) agrees.fresh⟩
  · intro id knows
    rw [mine, ← same, knows]
  · refine (agrees.sound n p found).answered asked fun id knows => ?_
    refine .refused (Option.some.inj (knows.symm.trans same)) ?_
    simp only [Follower.Astray, following] at astray
    simp [Follower.answer, Follower.Astray, following, astray.1, astray.2.1]

/-- The CLI is told what the client of its job holds from then on. -/
theorem Wire.serve_polling (agrees : w.Agrees serdeJson clients)
    (found : w.follower n = some p) {id : String} {c : Client}
    (following : p.stage = .following id c) (polling : c.stage = .polling)
    (asked : p.connection = .asked r) (made : IsJobId id) {job : Job}
    (known : w.controller.job id = some job) (plan : job.plan = p.plan)
    (hosts : job.hosts.SameFile p.hosts) (views : p.Views serdeJson (clients id))
    (handled : w.controller.handle serdeJson ⟨.get, statusPath id, ""⟩ chance =
      some (controller, answer)) :
    ∃ s, Reachable System.step (fun _ _ => True) (w.controller.withClients clients) s ∧
      Explained serdeJson (setFollower { w with controller } n (p.answer answer)) s := by
  obtain ⟨rfl, rfl⟩ := System.handle_status made.plain.1 made.plain.2 handled
  have same {answer : Option Response} : (p.answer answer).jobId = some id :=
    Follower.jobId_answer following
  have mine : p.jobId = some id := by simp [Follower.jobId, following]
  simp only [Follower.Views, following, polling, asked] at views
  obtain ⟨printed, offsets, stage⟩ := views
  refine ⟨_, .step .start trivial (System.step_poll known stage), _, rfl,
    agrees.proceeds found ?_ ?_ ?_ ?_⟩
  · intro id' knows
    rw [mine, ← same, knows]
  · refine (agrees.sound n p found).answered asked fun id' knows => ?_
    obtain rfl : id = id' := Option.some.inj (same.symm.trans knows)
    cases stored : w.controller.jobs.get id with
    | none =>
        refine .job made known plan hosts ?_
        simp only [Option.map_none, Follower.answer, Follower.Views, following, polling,
          Function.update_self]
        exact ⟨printed, offsets, trivial⟩
    | some state =>
        refine .job made known plan hosts ?_
        simp only [Option.map_some, Follower.answer, Follower.Views, following, polling,
          Function.update_self]
        exact ⟨printed, offsets, state, rfl, rfl⟩
  · intro id' other
    refine Function.update_of_ne ?_ _ _
    rintro rfl
    exact other same
  · intro id' fresh
    rw [Function.update_of_ne (by rintro rfl; simp [fresh] at known)]
    exact agrees.fresh id' fresh

theorem Wire.serve_following (agrees : w.Agrees serdeJson clients)
    (reached : Reachable System.step (fun _ _ => True) System.start
      (w.controller.withClients clients))
    (found : w.follower n = some p) (asked : p.connection = .asked r) {id : String} {c : Client}
    (following : p.stage = .following id c) (polling : c.stage = .polling)
    (handled : w.controller.handle serdeJson r chance = some (controller, answer)) :
    ∃ s, Reachable System.step (fun _ _ => True) (w.controller.withClients clients) s ∧
      Explained serdeJson (setFollower { w with controller } n (p.answer answer)) s := by
  have sound := agrees.sound n p found
  have due := sound.asked r asked
  rw [Follower.request, following] at due
  simp only [polling, Option.some.injEq] at due
  subst due
  cases sound.tracks id (by simp [Follower.jobId, following]) with
  | refused refused astray =>
      subst refused
      exact serve_refused agrees reached found following asked astray handled
  | job made known plan hosts views =>
      exact serve_polling agrees found following polling asked made known plan hosts views handled

end Serve

section Print

variable {w : Wire} {n : Nat} {p : Follower} {id : String} {c c' : Client}
variable {order : List (Sigma fun _ : String => List LogEntry)}

/-- What a round prints depends on what has been printed, not on the stage. -/
theorem Client.foldl_printHost_congr {client : Client} (printed : client.printed = c.printed)
    (offsets : client.logOffsets = c.logOffsets) :
    (order.foldl printHost client).printed = (order.foldl printHost c).printed ∧
      (order.foldl printHost client).logOffsets = (order.foldl printHost c).logOffsets := by
  induction order generalizing client c with
  | nil => exact ⟨printed, offsets⟩
  | cons host rest ih =>
      have offset : client.offset host.1 = c.offset host.1 := by rw [Client.offset, offsets]; rfl
      rw [List.foldl_cons, List.foldl_cons]
      apply ih <;> simp only [printHost, offset] <;> split <;> simp [printed, offsets]

/-- The order of the maps is all that may differ, and it does not matter to the loop. -/
theorem Client.print_same {client : Client} {state state' : JobState}
    (printed : client.printed = c.printed) (offsets : client.logOffsets = c.logOffsets)
    (holding : client.stage = .holding state) (holding' : c.stage = .holding state')
    (same : state'.Same state) (h : c.print order = some c') :
    c'.stage = afterRound state'.status ∧
      ∃ client', client.print order = some client' ∧ client'.printed = c'.printed ∧
        client'.logOffsets = c'.logOffsets ∧ client'.stage = c'.stage := by
  obtain ⟨_, here, perm, rfl⟩ := print_eq_some h
  obtain rfl : state' = _ := ClientStage.holding.inj (holding'.symm.trans here)
  obtain ⟨lines, offsets⟩ := @foldl_printHost_congr c order client printed offsets
  have printed' : client.print order =
      some { order.foldl printHost client with stage := afterRound state.status } := by
    simp only [print, holding]
    exact if_pos (perm.trans same.logs)
  exact ⟨rfl, _, printed', lines, offsets, congrArg afterRound same.status.symm⟩

/-- The CLI prints what the client of its job prints. -/
theorem Wire.print_following (agrees : w.Agrees serdeJson clients)
    (found : w.follower n = some p) (following : p.stage = .following id c)
    (printed : c.print order = some c') :
    ∃ s, Reachable System.step (fun _ _ => True) (w.controller.withClients clients) s ∧
      Explained serdeJson (w.setFollower n { p with stage := .following id c' }) s := by
  have sound := agrees.sound n p found
  have mine : p.jobId = some id := by simp [Follower.jobId, following]
  have same : Follower.jobId { p with stage := .following id c' } = some id := by
    simp [Follower.jobId]
  have keeps : ∀ id', Follower.jobId { p with stage := .following id c' } = some id' →
      p.jobId = some id' := by
    intro id' knows
    rw [mine, ← same, knows]
  obtain ⟨state', holding, -⟩ := Client.print_eq_some printed
  have idle : p.connection = .idle := by
    by_contra busy
    have due := sound.busy busy
    simp [Follower.request, following, holding] at due
  cases sound.tracks id mine with
  | refused _ astray =>
      simp only [Follower.Astray, following, holding] at astray
      simp at astray
  | @job job made known plan hosts views =>
      simp only [Follower.Views, following, holding] at views
      obtain ⟨lines, offsets, state, stage, sameState⟩ := views
      obtain ⟨round, client', printed', lines', offsets', stage'⟩ :=
        Client.print_same lines offsets stage holding sameState printed
      refine ⟨_, .step .start trivial (System.step_print known printed'), _, rfl,
        agrees.proceeds found keeps ⟨?_, ?_, fun id' knows => ?_⟩ ?_ ?_⟩
      · exact fun r asked => by simp [idle] at asked
      · exact fun busy => absurd idle busy
      · obtain rfl : id = id' := Option.some.inj (same.symm.trans knows)
        refine .job made known plan hosts ?_
        simp only [Follower.Views, Function.update_self]
        refine ⟨lines', offsets', ?_⟩
        rw [stage', round, idle]
        cases state'.status <;> rfl
      · intro id' other
        refine Function.update_of_ne ?_ _ _
        rintro rfl
        exact other same
      · intro id' fresh
        rw [Function.update_of_ne (by rintro rfl; simp [fresh] at known)]
        exact agrees.fresh id' fresh

end Print

/-- Every run of the processes is a run of the controller with its clients. -/
theorem Wire.simulates (serdeJson : Format 127) :
    Simulates (step serdeJson) (fun _ _ => True) start System.step (fun _ _ => True) System.start
      (Explained serdeJson) where
  start := ⟨fun _ => {}, rfl, .start⟩
  step := by
    rintro w w' _ _ reached ⟨clients, rfl, agrees⟩ - moved
    cases step_moves moved with
    | run fresh =>
        refine ⟨_, .start, clients, rfl, agrees.setFollower ⟨?_, ?_, ?_⟩ ?_ (fun _ _ => rfl)
          agrees.fresh⟩
        · exact fun r asked => by cases asked
        · exact fun busy => absurd rfl busy
        · exact fun id knows => by cases knows
        · exact fun _ _ _ _ _ _ _ knows => by cases knows
    | proceeds found proceeds =>
        have sound := agrees.sound _ _ found
        exact ⟨_, .start, clients, rfl, agrees.proceeds found
          (fun _ => Follower.jobId_proceeds proceeds sound.busy) (sound.proceeds proceeds)
          (fun _ _ => rfl) agrees.fresh⟩
    | serve found asked handled =>
        have due := (agrees.sound _ _ found).busy (by simp [asked])
        rcases Follower.request_isSome due with requesting | ⟨id, c, following, polling⟩
        · exact serve_requesting agrees found asked requesting handled
        · exact serve_following agrees reached found asked following polling handled
    | print found following printed => exact print_following agrees found following printed
    | @controller act t internal stepped =>
        refine ⟨_, .step .start trivial (System.step_internal internal stepped), clients, rfl,
          agrees.controller_moves (System.step_moves stepped) ?_⟩
        rintro id plan hosts world victims rfl
        cases internal
    | stranger handled =>
        rcases System.handle_cases handled with rfl | ⟨request, -, made, stepped, -⟩
        · exact ⟨_, .start, clients, rfl, agrees⟩
        · have moves := System.step_moves stepped
          have new : clients _ = {} := agrees.fresh _ (by
            cases moves with
            | runPlan fresh => exact fresh)
          refine ⟨_, .step .start trivial (System.step_request new stepped), clients, rfl,
            agrees.controller_moves moves ?_⟩
          rintro _ _ _ _ _ ⟨⟩
          exact made

end There
