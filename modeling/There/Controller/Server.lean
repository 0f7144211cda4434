import Mathlib.Logic.Function.Basic
import There.Concurrent.Cache
import There.Concurrent.Runs
import There.Controller.Job

/-!
# The controller

Any number of jobs share one cache of job states behind a lock. Whoever holds the
lock runs to the next point where it gives it up, so a request handler, an append of
a reader and the recording of a status are single steps. Everything else is a step of
one job by itself, and any step may come next.

`nanoid` is taken at its word: `run_plan` gets an id that no job has. Which entries the
cache evicts is part of each step that inserts one, be it a new job or the state of a
job that is written back.
-/

namespace There

open Concurrent

structure System where
  jobs : Cache String JobState
  job : String → Option Job
  /-- The messages logged with `error!`. -/
  errors : List String

namespace System

/-- `run_server`: no job has been requested. -/
def start : System where
  jobs := Cache.new 1000
  job := fun _ => none
  errors := []

/-- Append a batch to the log of a host. -/
def appendLogs (hostname : String) (logs : Logs) (state : JobState) : JobState :=
  { state with
      logs := state.logs.insert hostname
        (state.entries hostname ++ logs.map fun log => { hostname, log }) }

/-- `get_job_status` of an id. The handler unwraps what it finds. -/
def getJobStatus (s : System) (id : String) : Except Abort JobState :=
  match s.jobs.get id with
  | some state => .ok state
  | none => .error (.panic "get_job_status: unwrap")

/-- Read a job state, modify it and write it back; log `message` if it is missing. -/
def modifyJob (s : System) (id : String) (f : JobState → JobState) (victims : List String)
    (message : String) : System :=
  match s.jobs.get id with
  | some _ => { s with jobs := s.jobs.update id f victims }
  | none => { s with errors := s.errors ++ [message] }

def setJob (s : System) (id : String) (job : Job) : System :=
  { s with job := Function.update s.job id (some job) }

inductive Action where
  | runPlan (id : String) (plan : Plan) (hosts : HostConfig) (world : Nat → World)
      (victims : List String)
  /-- A job takes a step of its own. -/
  | job (id : String) (act : Job.Action)
  /-- The reader of a future gets the lock. -/
  | append (id : String) (i : Nat) (victims : List String)
  /-- The spawned task gets the lock, to record the status. -/
  | record (id : String) (victims : List String)
  /-- The client of a job asks for its state. -/
  | poll (id : String)
  /-- Somebody else asks for the state of a job, or for that of no job. -/
  | status (id : String)

def step (s : System) : Action → Option System
  | .runPlan id plan hosts world victims =>
      match s.job id with
      | some _ => none
      | none => some (setJob { s with jobs := s.jobs.insert id ⟨∅, plan, hosts, .running⟩ victims }
          id { plan, hosts, world })
  | .job id act =>
      match s.job id with
      | some job => (job.step act).map (s.setJob id)
      | none => none
  | .append id i victims =>
      match s.job id with
      | some job =>
          match job.applies[i]? with
          | some a => a.append.map fun (logs, a') =>
              (s.modifyJob id (appendLogs a.dispatch.hostname logs) victims
                s!"missing state for job {id}!?").setJob id
                { job with applies := job.applies.set i a' }
          | none => none
      | none => none
  | .record id victims =>
      match s.job id with
      | some job =>
          match job.stage with
          | .concluded result => some
              ((s.modifyJob id (fun state => { state with status := finalStatus result }) victims
                s!"job {id} disappeared from state").setJob id
                { job with stage := .recorded (finalStatus result) })
          | _ => none
      | none => none
  | .poll id =>
      match s.job id with
      | some job =>
          match job.client.stage with
          | .polling =>
              let stage := match s.getJobStatus id with
                | .ok state => ClientStage.holding state
                | .error _ => .failed
              some (s.setJob id { job with client := { job.client with stage } })
          | _ => none
      | none => none
  | .status _ => some s

@[simp] theorem setJob_jobs (s : System) (id : String) (job : Job) :
    (s.setJob id job).jobs = s.jobs := rfl

@[simp] theorem setJob_job (s : System) (id : String) (job : Job) :
    (s.setJob id job).job id = some job := Function.update_self ..

theorem setJob_job_ne (s : System) {id id' : String} (job : Job) (ne : id' ≠ id) :
    (s.setJob id job).job id' = s.job id' := Function.update_of_ne ne _ _

section Modify

variable {s : System} {id message : String} {f : JobState → JobState} {victims : List String}

@[simp] theorem modifyJob_job : (s.modifyJob id f victims message).job = s.job := by
  rw [modifyJob]
  split <;> rfl

/-- The cache is updated whether or not the job is found. -/
@[simp] theorem modifyJob_jobs :
    (s.modifyJob id f victims message).jobs = s.jobs.update id f victims := by
  rw [modifyJob]
  split
  · rfl
  · exact (Cache.update_eq_self ‹_›).symm

/-- Nothing is logged about a job that is found. -/
theorem modifyJob_errors {state : JobState} (found : s.jobs.get id = some state) :
    (s.modifyJob id f victims message).errors = s.errors := by
  rw [modifyJob, found]

end Modify

/-- What the steps can do, each with the guard it has passed. -/
inductive Moves (s : System) : Action → System → Prop where
  | runPlan {id : String} {plan : Plan} {hosts : HostConfig} {world : Nat → World}
      {victims : List String} : s.job id = none →
      Moves s (.runPlan id plan hosts world victims)
        (setJob { s with jobs := s.jobs.insert id ⟨∅, plan, hosts, .running⟩ victims }
          id { plan, hosts, world })
  | job {id : String} {act : Job.Action} {job job' : Job} : s.job id = some job →
      job.Moves job' → Moves s (.job id act) (s.setJob id job')
  | append {id : String} {i : Nat} {victims : List String} {job : Job} {a a' : Apply}
      {logs : Logs} : s.job id = some job → job.applies[i]? = some a →
      a.append = some (logs, a') →
      Moves s (.append id i victims)
        ((s.modifyJob id (appendLogs a.dispatch.hostname logs) victims
          s!"missing state for job {id}!?").setJob id
          { job with applies := job.applies.set i a' })
  | record {id : String} {victims : List String} {job : Job} {result : Except Report Unit} :
      s.job id = some job → job.stage = .concluded result →
      Moves s (.record id victims)
        ((s.modifyJob id (fun state => { state with status := finalStatus result }) victims
          s!"job {id} disappeared from state").setJob id
          { job with stage := .recorded (finalStatus result) })
  | answer {id : String} {job : Job} {state : JobState} : s.job id = some job →
      job.client.stage = .polling → s.jobs.get id = some state →
      Moves s (.poll id)
        (s.setJob id { job with client := { job.client with stage := .holding state } })
  | panic {id : String} {job : Job} : s.job id = some job → job.client.stage = .polling →
      s.jobs.get id = none →
      Moves s (.poll id) (s.setJob id { job with client := { job.client with stage := .failed } })
  | status {id : String} : Moves s (.status id) s

theorem step_moves {s t : System} {act : Action} (h : s.step act = some t) : s.Moves act t := by
  cases act with
  | runPlan id plan hosts world victims =>
      simp only [step] at h
      split at h
      · cases h
      · obtain rfl := Option.some.inj h
        exact .runPlan ‹_›
  | job id act =>
      simp only [step] at h
      split at h
      · obtain ⟨job', moved, rfl⟩ := Option.map_eq_some_iff.mp h
        exact .job ‹_› (Job.step_moves moved)
      · cases h
  | append id i victims =>
      simp only [step] at h
      split at h
      · split at h
        · obtain ⟨⟨logs, a'⟩, appended, rfl⟩ := Option.map_eq_some_iff.mp h
          exact .append ‹_› ‹_› appended
        · cases h
      · cases h
  | record id victims =>
      simp only [step] at h
      split at h
      · split at h
        · obtain rfl := Option.some.inj h
          exact .record ‹_› ‹_›
        · cases h
      · cases h
  | poll id =>
      simp only [step] at h
      split at h
      · split at h
        · obtain rfl := Option.some.inj h
          rw [getJobStatus]
          cases found : s.jobs.get id with
          | some state => exact .answer ‹_› ‹_› found
          | none => exact .panic ‹_› ‹_› found
        · cases h
      · cases h
  | status id =>
      obtain rfl := Option.some.inj h
      exact .status

/-- The job that an action is about. -/
def Action.jobId : Action → String
  | runPlan id _ _ _ _ => id
  | job id _ => id
  | append id _ _ => id
  | record id _ => id
  | poll id => id
  | status id => id

/-- An action changes no job but the one it is about. -/
theorem Moves.frame {s t : System} {act : Action} {id : String} (h : s.Moves act t)
    (other : id ≠ act.jobId) : t.job id = s.job id := by
  cases h with
  | status => rfl
  | append | record => exact (setJob_job_ne _ _ other).trans (congrFun modifyJob_job id)
  | _ => exact setJob_job_ne _ _ other

end System

/-- What a step of the controller can do to a job whose stored state is `stored`, and
what it writes to that state. -/
inductive Job.Evolves (job : Job) (stored : Option JobState) :
    Job → (JobState → JobState) → Prop where
  | moves {job' : Job} : job.Moves job' → Evolves job stored job' id
  | append {i : Nat} {a a' : Apply} {logs : Logs} : job.applies[i]? = some a →
      a.append = some (logs, a') →
      Evolves job stored { job with applies := job.applies.set i a' }
        (System.appendLogs a.dispatch.hostname logs)
  | record {result : Except Report Unit} : job.stage = .concluded result →
      Evolves job stored { job with stage := .recorded (finalStatus result) }
        fun state => { state with status := finalStatus result }
  | answer {state : JobState} : job.client.stage = .polling → stored = some state →
      Evolves job stored { job with client := { job.client with stage := .holding state } } id
  | panic : job.client.stage = .polling → stored = none →
      Evolves job stored { job with client := { job.client with stage := .failed } } id

namespace Job

variable {job job' : Job} {stored : Option JobState} {write : JobState → JobState}

theorem Evolves.same (h : job.Evolves stored job' write) :
    job'.plan = job.plan ∧ job'.hosts = job.hosts ∧ job'.world = job.world := by
  cases h with
  | moves h => exact h.same
  | _ => exact ⟨rfl, rfl, rfl⟩

theorem Inv.evolves (inv : job.Inv) (h : job.Evolves stored job' write) : job'.Inv := by
  cases h with
  | moves h => exact inv.moves h
  | @append i a a' logs here appended =>
      obtain ⟨dispatch, world, stage⟩ := Apply.append_same appended
      have keeps := (inv.applies a (List.mem_of_getElem? here)).append appended
      exact inv.set here ⟨dispatch, world⟩ keeps fun collected => stage.trans collected
  | @record result concluded =>
      cases result with
      | error e =>
          exact ⟨inv.applies, inv.origin, by simp [JobStage.begun, JobStage.success, finalStatus],
            by simp [JobStage.success, finalStatus]⟩
      | ok u =>
          exact ⟨inv.applies, inv.origin, fun _ => inv.begun (by rw [concluded]; rfl),
            fun _ => inv.settled (by rw [concluded]; rfl)⟩
  | _ => exact ⟨inv.applies, inv.origin, inv.begun, inv.settled⟩

end Job

namespace System

/-- The entries of other jobs that the cache evicts in a step. -/
def evictions (s : System) : Action → List String
  | .runPlan id _ _ _ victims => victims.filter (· ≠ id)
  | .append id _ victims => if (s.jobs.get id).isSome then victims.filter (· ≠ id) else []
  | .record id victims => if (s.jobs.get id).isSome then victims.filter (· ≠ id) else []
  | _ => []

/-- What a step from `s` to `t` means for the job `id`, which is `job'` afterwards. -/
inductive Affects (s : System) (act : Action) (t : System) (id : String) (job' : Job) : Prop where
  | nothing : s.job id = some job' → t.jobs.get id = s.jobs.get id → Affects s act t id job'
  /-- The state of another job is inserted, and the cache evicts this one. -/
  | evicted : id ∈ s.evictions act → s.job id = some job' → t.jobs.get id = none →
      Affects s act t id job'
  | requested {plan : Plan} {hosts : HostConfig} {world : Nat → World} {victims : List String} :
      act = .runPlan id plan hosts world victims → job' = { plan, hosts, world } →
      t.jobs.get id = some ⟨∅, plan, hosts, .running⟩ → Affects s act t id job'
  | evolved {job : Job} {write : JobState → JobState} : s.job id = some job →
      job.Evolves (s.jobs.get id) job' write → t.jobs.get id = (s.jobs.get id).map write →
      Affects s act t id job'

variable {s t : System} {act : Action} {id : String} {job' : Job}

/-- All that can become of the state of another job is that it is evicted. -/
theorem Moves.others (h : s.Moves act t) (ne : id ≠ act.jobId) :
    t.jobs.get id = s.jobs.get id ∨ id ∈ s.evictions act ∧ t.jobs.get id = none := by
  have chosen : ∀ {victims : List String}, id ∈ victims → id ∈ victims.filter (· ≠ act.jobId) :=
    fun member => List.mem_filter.mpr ⟨member, decide_eq_true ne⟩
  cases h with
  | runPlan _ =>
      exact (Cache.get_insert_or ne).imp_right fun ⟨member, gone⟩ => ⟨chosen member, gone⟩
  | append _ _ _ | record _ _ =>
      rw [setJob_jobs, modifyJob_jobs]
      refine (Cache.get_update_or ne).imp_right fun ⟨stored, member, gone⟩ => ⟨?_, gone⟩
      rw [evictions, if_pos]
      · exact chosen member
      · exact stored
  | _ => exact .inl rfl

theorem Moves.evicted (h : s.Moves act t) (chosen : id ∈ s.evictions act) :
    id ≠ act.jobId ∧ t.jobs.get id = none := by
  cases h with
  | runPlan _ =>
      obtain ⟨member, other⟩ := List.mem_filter.mp chosen
      have ne := of_decide_eq_true other
      exact ⟨ne, Cache.get_insert_of_victim ne member⟩
  | append _ _ _ | record _ _ =>
      rw [evictions] at chosen
      split at chosen
      · obtain ⟨member, other⟩ := List.mem_filter.mp chosen
        have ne := of_decide_eq_true other
        rw [setJob_jobs, modifyJob_jobs]
        exact ⟨ne, Cache.get_update_of_victim ne ‹_› member⟩
      · exact absurd chosen List.not_mem_nil
  | _ => exact absurd chosen List.not_mem_nil

theorem Moves.affects (h : s.Moves act t) (after : t.job id = some job') :
    s.Affects act t id job' := by
  by_cases here : id = act.jobId
  swap
  · have before : s.job id = some job' := (h.frame here).symm.trans after
    rcases h.others here with same | ⟨chosen, gone⟩
    · exact .nothing before same
    · exact .evicted chosen before gone
  subst here
  have now : ∀ {u : System} {job₁ : Job}, (u.setJob act.jobId job₁).job act.jobId = some job' →
      job₁ = job' := fun after => Option.some.inj ((setJob_job ..).symm.trans after)
  cases h with
  | runPlan _ => exact .requested rfl (now after).symm Cache.get_insert_self
  | job found moved =>
      exact now after ▸ .evolved found (.moves moved) Option.map_id_apply.symm
  | append found here appended =>
      refine now after ▸ .evolved found (.append here appended) ?_
      rw [setJob_jobs, modifyJob_jobs, Action.jobId, Cache.get_update_self]
  | record found concluded =>
      refine now after ▸ .evolved found (.record concluded) ?_
      rw [setJob_jobs, modifyJob_jobs, Action.jobId, Cache.get_update_self]
  | answer found polling stored =>
      exact now after ▸ .evolved found (.answer polling stored) Option.map_id_apply.symm
  | panic found polling missing =>
      exact now after ▸ .evolved found (.panic polling missing) Option.map_id_apply.symm
  | status => exact .nothing after rfl

/-- An invariant of a job and its stored state holds of every job in every reachable
state if it holds of a new job, is kept as a job evolves, and survives the evictions
that the admitted requests can cause. -/
theorem job_invariant {admits : System → Action → Prop} {J : Job → Option JobState → Prop}
    (initially : ∀ s id plan hosts world victims,
      admits s (.runPlan id plan hosts world victims) →
      J { plan, hosts, world } (some ⟨∅, plan, hosts, .running⟩))
    (evolves : ∀ job stored job' write, job.Evolves stored job' write → J job stored →
      J job' (stored.map write))
    (evicted : ∀ s act id job, admits s act → id ∈ s.evictions act →
      J job (s.jobs.get id) → J job none)
    (h : Reachable step admits start s) :
    ∀ id job, s.job id = some job → J job (s.jobs.get id) := by
  refine h.invariant (I := fun s => ∀ id job, s.job id = some job → J job (s.jobs.get id)) ?_ ?_
  · intro id job found
    cases found
  · intro s act t admitted stepped before id job' after
    cases (step_moves stepped).affects after with
    | nothing found same =>
        rw [same]
        exact before id job' found
    | evicted chosen found gone =>
        rw [gone]
        exact evicted s act id job' admitted chosen (before id job' found)
    | requested requested new stored =>
        subst requested new
        rw [stored]
        exact initially s id _ _ _ _ admitted
    | evolved found evolved written =>
        rw [written]
        exact evolves _ _ job' _ evolved (before id _ found)

/-- A job that nobody has requested is not stored. -/
theorem get_of_fresh {admits : System → Action → Prop} (run : Reachable step admits start s) :
    s.job id = none → s.jobs.get id = none := by
  refine run.invariant (I := fun s => s.job id = none → s.jobs.get id = none) (fun _ => rfl) ?_
  intro s act t _ stepped absent fresh
  have moves := step_moves stepped
  by_cases here : id = act.jobId
  · -- Every step that touches the entry of a job leaves the job known.
    subst here
    cases moves with
    | status => exact absent fresh
    | _ => cases (setJob_job ..).symm.trans fresh
  · rcases moves.others here with same | ⟨-, gone⟩
    · exact same.trans (absent ((moves.frame here).symm.trans fresh))
    · exact gone

theorem inv_of_reachable {admits : System → Action → Prop} (h : Reachable step admits start s) :
    ∀ id job, s.job id = some job → job.Inv :=
  job_invariant (J := fun job _ => job.Inv)
    (fun _ _ plan hosts world _ _ => Job.inv_new plan hosts world)
    (fun _ _ _ _ evolved inv => inv.evolves evolved) (fun _ _ _ _ _ _ inv => inv) h

end System

end There
