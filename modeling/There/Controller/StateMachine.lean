import There.Controller.Delivery

/-!
# The life of a job state

The handlers, the readers and the spawned tasks all write back a whole job state with
one field changed. A job state nevertheless only moves forward: it is requested as a
running job, its logs grow at their ends, its status is recorded once, and from then
on nothing is added to it, although a reader may still come with an empty batch.

The runs are those in which the cache evicts nothing.
-/

namespace There

open Concurrent

/-- What may become of a job state. -/
structure JobState.Advances (state state' : JobState) : Prop where
  plan : state'.plan = state.plan
  hosts : state'.hosts = state.hosts
  grows : ∀ h, state.entries h <+: state'.entries h
  /-- A terminal status is never changed. -/
  settled : state.status ≠ .running → state'.status = state.status
  /-- A state with a terminal status gets no further entries. -/
  closed : state.status ≠ .running → ∀ h, state'.entries h = state.entries h

namespace JobState.Advances

variable {state state' state'' : JobState}

theorem refl (state : JobState) : state.Advances state :=
  ⟨rfl, rfl, fun _ => List.prefix_rfl, fun _ => rfl, fun _ _ => rfl⟩

theorem trans (h : state.Advances state') (h' : state'.Advances state'') :
    state.Advances state'' where
  plan := h'.plan.trans h.plan
  hosts := h'.hosts.trans h.hosts
  grows := fun host => (h.grows host).trans (h'.grows host)
  settled := fun terminal => by
    have same := h.settled terminal
    exact (h'.settled (by rwa [same])).trans same
  closed := fun terminal host => by
    have same := h.settled terminal
    exact (h'.closed (by rwa [same]) host).trans (h.closed terminal host)

end JobState.Advances

/-- The status that is stored while the spawned task is at this stage. -/
def JobStage.status : JobStage → JobStatus
  | recorded status => status
  | _ => .running

namespace Apply

variable {a a' : Apply}

/-- What is not delivered is the last part of what has been sunk. -/
def Accounted (a : Apply) : Prop := a.undelivered <:+ a.sunk

theorem Accounted.moves (accounted : a.Accounted) (h : a.Moves a') : a'.Accounted := by
  obtain ⟨lines, sunk, undelivered⟩ := h.account
  obtain ⟨delivered, parts⟩ := accounted
  refine ⟨delivered, ?_⟩
  rw [sunk, undelivered, ← List.append_assoc, parts]

theorem Accounted.append {logs : Logs} (accounted : a.Accounted)
    (h : a.append = some (logs, a')) : a'.Accounted := by
  obtain ⟨sunk, undelivered⟩ := append_account h
  rw [Accounted, sunk]
  exact List.IsSuffix.trans ⟨logs, undelivered.symm⟩ accounted

theorem Accounted.collect {result : ApplyResult} (accounted : a.Accounted)
    (h : a.collect = some (result, a')) : a'.Accounted := by
  obtain ⟨sunk, undelivered⟩ := collect_account h
  rw [Accounted, sunk, undelivered]
  exact accounted

/-- The reader of a future whose result has been taken holds nothing but an empty batch. -/
theorem Accounted.batch {logs : Logs} (accounted : a.Accounted) (inv : a.Inv)
    (collected : a.stage = .collected) (h : a.append = some (logs, a')) : logs = [] := by
  have left : a.undelivered = [] := by
    rcases (inv.delivered (by rw [collected]; rfl)).2 with none | none
    · exact none
    · rw [Accounted, none] at accounted
      exact List.suffix_nil.mp accounted
  rw [(append_account h).2] at left
  exact (List.append_eq_nil_iff.mp left).1

end Apply

namespace Job

/-- What a job has to do with its stored state, if it has one. -/
structure Recorded (job : Job) (stored : Option JobState) : Prop where
  inv : job.Inv
  status : ∀ state, stored = some state → state.status = job.stage.status
  /-- Without a dispatch loop that ended well there are no futures. -/
  idle : job.stage.begun = false → job.applies = []
  accounted : ∀ a ∈ job.applies, a.Accounted

variable {job job' : Job} {stored : Option JobState} {write : JobState → JobState}
variable {state : JobState}

theorem recorded_new (plan : Plan) (hosts : HostConfig) (world : Nat → World) :
    Recorded { plan, hosts, world } (some ⟨∅, plan, hosts, .running⟩) where
  inv := inv_new plan hosts world
  status := by
    rintro _ ⟨⟩
    rfl
  idle := fun _ => rfl
  accounted := by simp

namespace Recorded

/-- Once a status is recorded, the result of every future has been taken. -/
theorem collected (recorded : job.Recorded stored) {status : JobStatus}
    (stage : job.stage = .recorded status) : ∀ a ∈ job.applies, a.stage = .collected := by
  by_cases success : job.stage.success
  · exact recorded.inv.settled success
  · rw [recorded.idle (by rw [stage] at success ⊢; simpa [JobStage.begun] using success)]
    simp

/-- A future may be replaced by one that is accounted for, if no stage is left. -/
theorem set (recorded : job.Recorded stored) {i : Nat} {a a' : Apply}
    (here : job.applies[i]? = some a) (accounted : a'.Accounted) :
    (job.stage.begun = false → job.applies.set i a' = []) ∧
      ∀ b ∈ job.applies.set i a', b.Accounted := by
  refine ⟨fun early => ?_, fun b hb => ?_⟩
  · rw [recorded.idle early] at here
    cases here
  · rcases List.mem_or_eq_of_mem_set hb with old | rfl
    · exact recorded.accounted b old
    · exact accounted

theorem moves (recorded : job.Recorded stored) (h : job.Moves job') : job'.Recorded stored := by
  have inv := recorded.inv.moves h
  cases h with
  | fails spawned _ =>
      have idle := recorded.idle (by rw [spawned]; rfl)
      refine ⟨inv, fun state found => ?_, fun _ => idle, recorded.accounted⟩
      rw [recorded.status state found, spawned]
      rfl
  | begins spawned _ =>
      refine ⟨inv, fun state found => ?_, by simp [JobStage.begun], fun a ha => ?_⟩
      · rw [recorded.status state found, spawned]
        rfl
      · obtain ⟨i, hi, rfl⟩ := List.mem_mapIdx.mp ha
        exact List.suffix_rfl
  | apply here moved =>
      have accounted := (recorded.accounted _ (List.mem_of_getElem? here)).moves moved
      obtain ⟨idle, all⟩ := recorded.set here accounted
      exact ⟨inv, recorded.status, idle, all⟩
  | collect draining here taken =>
      have accounted := (recorded.accounted _ (List.mem_of_getElem? here)).collect taken
      obtain ⟨idle, all⟩ := recorded.set here accounted
      exact ⟨inv, recorded.status, idle, all⟩
  | concludes draining _ =>
      refine ⟨inv, fun state found => ?_, by simp [JobStage.begun, JobStage.success],
        recorded.accounted⟩
      rw [recorded.status state found, draining]
      rfl
  | print _ => exact ⟨inv, recorded.status, recorded.idle, recorded.accounted⟩

theorem evolves (recorded : job.Recorded stored) (h : job.Evolves stored job' write) :
    job'.Recorded (stored.map write) := by
  have inv := recorded.inv.evolves h
  cases h with
  | moves h => simpa using recorded.moves h
  | append here appended =>
      have accounted := (recorded.accounted _ (List.mem_of_getElem? here)).append appended
      obtain ⟨idle, all⟩ := recorded.set here accounted
      refine ⟨inv, fun state written => ?_, idle, all⟩
      obtain ⟨state, found, rfl⟩ := Option.map_eq_some_iff.mp written
      exact recorded.status state found
  | @record result concluded =>
      refine ⟨inv, fun state written => ?_, fun early => recorded.idle ?_, recorded.accounted⟩
      · obtain ⟨state, found, rfl⟩ := Option.map_eq_some_iff.mp written
        rfl
      · rw [concluded]
        cases result with
        | ok u => cases early
        | error e => rfl
  | answer _ _ =>
      exact ⟨inv, by simpa using recorded.status, recorded.idle, recorded.accounted⟩
  | panic _ _ =>
      exact ⟨inv, by simpa using recorded.status, recorded.idle, recorded.accounted⟩

/-- What is written to the stored state advances it. -/
theorem advances (recorded : job.Recorded (some state))
    (h : job.Evolves (some state) job' write) : state.Advances (write state) := by
  have stage := recorded.status state rfl
  cases h with
  | @append i a a' logs here appended =>
      refine ⟨rfl, rfl, fun h => System.entries_prefix_appendLogs, fun _ => rfl,
        fun terminal h => ?_⟩
      -- The future has come to its end, so the batch is empty.
      obtain ⟨status, recordedStage⟩ : ∃ status, job.stage = .recorded status := by
        rw [stage] at terminal
        cases hs : job.stage with
        | recorded status => exact ⟨status, rfl⟩
        | _ => exact absurd (by rw [hs]; rfl) terminal
      have member := List.mem_of_getElem? here
      have empty := (recorded.accounted a member).batch (recorded.inv.applies a member)
        (recorded.collected recordedStage a member) appended
      by_cases own : h = a.dispatch.hostname
      · rw [own, System.entries_appendLogs, empty, entriesOf_nil, List.append_nil]
      · exact System.entries_appendLogs_ne own
  | record concluded =>
      refine ⟨rfl, rfl, fun _ => List.prefix_rfl, fun terminal => ?_, fun _ _ => rfl⟩
      rw [stage, concluded] at terminal
      exact absurd rfl terminal
  | _ => exact .refl state

end Recorded

end Job

namespace System

/-- The step loses no job state. -/
def EvictsNothing (s : System) (act : Action) : Prop :=
  ∀ t, s.step act = some t → ∀ id, (s.jobs.get id).isSome → (t.jobs.get id).isSome

/-- What one step may do to the stored job states. -/
structure StepLaw (s : System) (act : Action) (t : System) : Prop where
  /-- A job starts as a running one, without logs. -/
  starts : ∀ id plan hosts world victims, act = .runPlan id plan hosts world victims →
    s.jobs.get id = none ∧ t.jobs.get id = some ⟨∅, plan, hosts, .running⟩
  /-- No other step brings a job state into being. -/
  appears : ∀ id, s.jobs.get id = none → t.jobs.get id ≠ none →
    ∃ plan hosts world victims, act = .runPlan id plan hosts world victims
  advances : ∀ id state, s.jobs.get id = some state →
    ∃ state', t.jobs.get id = some state' ∧ state.Advances state'
  /-- The states of other jobs are left alone. -/
  others : ∀ id, id ≠ act.jobId → t.jobs.get id = s.jobs.get id
  /-- A reader changes nothing but the log of its own host. -/
  reader : ∀ id i victims job a state, act = .append id i victims → s.job id = some job →
    job.applies[i]? = some a → s.jobs.get id = some state →
    ∃ state', t.jobs.get id = some state' ∧ state'.status = state.status ∧
      ∀ h, h ≠ a.dispatch.hostname → state'.entries h = state.entries h

variable {s t : System} {act : Action} {id : String} {job : Job} {state : JobState}

theorem recorded_of_reachable {admits : System → Action → Prop}
    (run : Reachable step admits start s) :
    ∀ id job, s.job id = some job → job.Recorded (s.jobs.get id) := by
  refine job_invariant ?_ ?_ ?_ run
  · exact fun _ _ plan hosts world _ _ => Job.recorded_new plan hosts world
  · exact fun _ _ _ _ evolved recorded => recorded.evolves evolved
  · intro _ _ _ _ _ _ recorded
    exact ⟨recorded.inv, by simp, recorded.idle, recorded.accounted⟩

/-- A job that has been requested stays known. -/
theorem Moves.job_isSome (h : s.Moves act t) (known : (s.job id).isSome) :
    (t.job id).isSome := by
  have kept : ∀ {u : System} {id₀ : String} {job₀ : Job}, (u.job id).isSome →
      ((u.setJob id₀ job₀).job id).isSome := by
    intro u id₀ job₀ known
    by_cases here : id = id₀
    · rw [here, setJob_job]
      rfl
    · rwa [setJob_job_ne _ _ here]
  cases h with
  | append _ _ _ => exact kept (by rwa [modifyJob_job])
  | record _ _ => exact kept (by rwa [modifyJob_job])
  | status => exact known
  | _ => exact kept known

/-- What a step does to the cache: it is left alone, the entry of the job is rewritten,
or the job is inserted into it. -/
theorem Moves.jobs (h : s.Moves act t) :
    t.jobs = s.jobs ∨
      (∃ write victims, t.jobs = s.jobs.update act.jobId write victims) ∨
      ∃ plan hosts world victims, act = .runPlan act.jobId plan hosts world victims ∧
        t.jobs = s.jobs.insert act.jobId ⟨∅, plan, hosts, .running⟩ victims := by
  cases h with
  | runPlan _ => exact .inr (.inr ⟨_, _, _, _, rfl, rfl⟩)
  | append _ _ _ => exact .inr (.inl ⟨_, _, modifyJob_jobs⟩)
  | record _ _ => exact .inr (.inl ⟨_, _, modifyJob_jobs⟩)
  | _ => exact .inl rfl

theorem advances_of_step {admits : System → Action → Prop} (run : Reachable step admits start s)
    (evictsNothing : s.EvictsNothing act) (stepped : s.step act = some t)
    (stored : s.jobs.get id = some state) :
    ∃ state', t.jobs.get id = some state' ∧ state.Advances state' := by
  have kept : (t.jobs.get id).isSome := evictsNothing t stepped id (by rw [stored]; rfl)
  have known : s.job id ≠ none := fun fresh => by
    rw [get_of_fresh run fresh] at stored
    cases stored
  obtain ⟨job', found'⟩ := Option.isSome_iff_exists.mp
    ((step_moves stepped).job_isSome (Option.isSome_iff_ne_none.mpr known))
  cases (step_moves stepped).affects found' with
  | nothing _ same => exact ⟨state, same.trans stored, .refl state⟩
  | evicted _ _ gone => simp [gone] at kept
  | requested requested _ _ =>
      subst requested
      cases step_moves stepped with
      | runPlan fresh => exact absurd fresh known
  | evolved found evolved written =>
      have recorded := recorded_of_reachable run id _ found
      rw [stored] at evolved written recorded
      exact ⟨_, written, recorded.advances evolved⟩

theorem stepLaw {admits : System → Action → Prop} (run : Reachable step admits start s)
    (evictsNothing : s.EvictsNothing act) (stepped : s.step act = some t) :
    s.StepLaw act t where
  starts := by
    rintro id plan hosts world victims rfl
    cases step_moves stepped with
    | runPlan fresh => exact ⟨get_of_fresh run fresh, Cache.get_insert_self⟩
  appears := by
    intro id absent appeared
    have concerned : id = act.jobId := by
      by_contra ne
      rcases (step_moves stepped).others ne with same | ⟨-, gone⟩
      · exact appeared (same.trans absent)
      · exact appeared gone
    subst concerned
    obtain same | ⟨write, victims, written⟩ | ⟨_, _, _, _, requested, _⟩ :=
      (step_moves stepped).jobs
    · exact absurd (by rw [same, absent]) appeared
    · exact absurd (by rw [written, Cache.get_update_self, absent]; rfl) appeared
    · exact ⟨_, _, _, _, requested⟩
  advances := fun id state stored => advances_of_step run evictsNothing stepped stored
  others := by
    intro id ne
    rcases (step_moves stepped).others ne with same | ⟨-, gone⟩
    · exact same
    · cases absent : s.jobs.get id with
      | none => exact gone
      | some state =>
          have kept := evictsNothing t stepped id (by rw [absent]; rfl)
          simp [gone] at kept
  reader := by
    rintro id i victims job a state rfl found here stored
    cases step_moves stepped with
    | @append _ _ _ job' a' _ logs found' here' _ =>
        obtain rfl : job = job' := Option.some.inj (found.symm.trans found')
        obtain rfl : a = a' := Option.some.inj (here.symm.trans here')
        refine ⟨appendLogs a.dispatch.hostname logs state, ?_, rfl, fun h ne => ?_⟩
        · rw [setJob_jobs, modifyJob_jobs, Cache.get_update_self, stored]
          rfl
        · exact entries_appendLogs_ne ne

/-- Over any run without evictions a stored job state only advances. -/
theorem advances_of_reachable (run : Reachable step EvictsNothing start s)
    (later : Reachable step EvictsNothing s t) (stored : s.jobs.get id = some state) :
    ∃ state', t.jobs.get id = some state' ∧ state.Advances state' := by
  induction later with
  | start => exact ⟨state, stored, .refl state⟩
  | step before admitted stepped ih =>
      obtain ⟨middle, found, advances⟩ := ih
      obtain ⟨state', found', advances'⟩ :=
        advances_of_step (run.trans before) admitted stepped found
      exact ⟨state', found', advances.trans advances'⟩

/-- In every run without evictions each step obeys the law of job states, and whatever
follows a stored job state advances it: its status changes at most once. -/
theorem jobs_advance (run : Reachable step EvictsNothing start s) :
    (∀ act t, s.EvictsNothing act → s.step act = some t → s.StepLaw act t) ∧
      ∀ t, Reachable step EvictsNothing s t → ∀ id state, s.jobs.get id = some state →
        ∃ state', t.jobs.get id = some state' ∧ state.Advances state' :=
  ⟨fun _ _ evictsNothing stepped => stepLaw run evictsNothing stepped,
    fun _ later _ _ stored => advances_of_reachable run later stored⟩

theorem evictsNothing_of_evictions (spared : s.evictions act = []) : s.EvictsNothing act := by
  intro t stepped id stored
  have moves := step_moves stepped
  by_cases here : id = act.jobId
  · subst here
    obtain same | ⟨write, victims, written⟩ | ⟨_, _, _, _, _, inserted⟩ := moves.jobs
    · rwa [same]
    · rwa [written, Cache.get_update_self, Option.isSome_map]
    · rw [inserted, Cache.get_insert_self]
      rfl
  · rcases moves.others here with same | ⟨chosen, -⟩
    · rwa [same]
    · rw [spared] at chosen
      exact absurd chosen List.not_mem_nil

end System

/-- The laws hold of what follows the request of a job. -/
theorem jobs_advance_echo : ∃ s,
    System.start.step (.runPlan "job" OneHost.plan OneHost.hosts (fun _ => EchoJob.world) []) =
        some s ∧
      (∀ act t, s.EvictsNothing act → s.step act = some t → s.StepLaw act t) ∧
      ∀ t, Reachable System.step System.EvictsNothing s t →
        ∀ id state, s.jobs.get id = some state →
          ∃ state', t.jobs.get id = some state' ∧ state.Advances state' := by
  obtain ⟨s, stepped⟩ : ∃ s, System.start.step
      (.runPlan "job" OneHost.plan OneHost.hosts (fun _ => EchoJob.world) []) = some s := ⟨_, rfl⟩
  exact ⟨s, stepped, System.jobs_advance
    (Reachable.start.step (System.evictsNothing_of_evictions rfl) stepped)⟩

end There
