import There.Controller.Server

/-!
# Jobs that the cache forgets

The job states live in a cache that evicts entries whatever their status. A job that is
evicted while it runs is lost to everybody: the status handler panics, the readers log an
error and drop their batches, and no status is recorded.

No job is forgotten before its time as long as whatever is evicted has finished, and any
eviction of a running job is enough for the contrary. A cache of bounded size has no
choice once there are more running jobs than it can hold.
-/

namespace There

open Concurrent

namespace Job

/-- The terminal status of the job has not been recorded. -/
def Pending (job : Job) : Prop := ∀ status, job.stage ≠ .recorded status

variable {job job' : Job} {stored : Option JobState} {write : JobState → JobState}

/-- A status that has been recorded stays. -/
theorem Evolves.pending (h : job.Evolves stored job' write) (pending : job'.Pending) :
    job.Pending := by
  intro status recorded
  cases h with
  | moves h =>
      cases h with
      | fails spawned _ => simp [recorded] at spawned
      | begins spawned _ => simp [recorded] at spawned
      | concludes draining _ => simp [recorded] at draining
      | _ => exact pending status recorded
  | record concluded => simp [recorded] at concluded
  | _ => exact pending status recorded

/-- Only the recording of the status changes the status that is stored. -/
theorem Evolves.status (h : job.Evolves stored job' write) (pending : job'.Pending)
    (state : JobState) : (write state).status = state.status := by
  cases h with
  | record concluded => exact absurd rfl (pending _)
  | _ => rfl

/-- A stored state that says the job is running says so rightly. -/
def Honest (job : Job) (stored : Option JobState) : Prop :=
  ∀ state, stored = some state → state.status = .running → job.Pending

theorem Honest.evolves (h : job.Honest stored) (evolved : job.Evolves stored job' write) :
    job'.Honest (stored.map write) := by
  intro state' written running
  obtain ⟨state, rfl, rfl⟩ := Option.map_eq_some_iff.mp written
  cases evolved with
  | @record result concluded => cases result <;> cases running
  | moves h' =>
      have pending := h state rfl running
      cases h' with
      | apply _ _ => exact pending
      | collect _ _ _ => exact pending
      | print _ => exact pending
      | _ => exact fun status recorded => by cases recorded
  | _ => exact h state rfl running

end Job

namespace System

/-- No entry that the cache evicts in the step says that its job is running. -/
def SparesRunning (s : System) (act : Action) : Prop :=
  ∀ id ∈ s.evictions act, ∀ state ∈ s.jobs.get id, state.status ≠ .running

/-- Everybody who asks for the job finds it. -/
structure Remembers (s : System) (id : String) (job : Job) : Prop where
  answered : (s.getJobStatus id).isOk
  appended : ∀ i victims t, s.step (.append id i victims) = some t → t.errors = s.errors
  recorded : ∀ result victims t, job.stage = .concluded result →
    s.step (.record id victims) = some t →
    t.errors = s.errors ∧
      ∃ state, t.jobs.get id = some state ∧ state.status = finalStatus result

/-- No job is forgotten before its status has been recorded. -/
def Retains (s : System) : Prop :=
  ∀ id job, s.job id = some job → job.Pending → s.Remembers id job

/-- A pending job is stored, as a running one. -/
def Stores (s : System) : Prop :=
  ∀ id job, s.job id = some job → job.Pending →
    ∃ state, s.jobs.get id = some state ∧ state.status = .running

variable {s t : System} {act : Action} {id : String} {job : Job}

/-- Whoever finds the job leaves it where it is. -/
theorem remembers_of_stored {state : JobState} (found : s.job id = some job)
    (stored : s.jobs.get id = some state) : s.Remembers id job where
  answered := by
    rw [getJobStatus, stored]
    rfl
  appended := by
    intro i victims t stepped
    cases step_moves stepped with
    | append _ _ _ => exact modifyJob_errors stored
  recorded := by
    intro result victims t concluded stepped
    cases step_moves stepped with
    | @record _ _ job' result' found' concluded' =>
        obtain rfl : job = job' := Option.some.inj (found.symm.trans found')
        obtain rfl : result = result' := by simpa [concluded] using concluded'
        refine ⟨modifyJob_errors stored, { state with status := finalStatus result }, ?_, rfl⟩
        simp [stored]

theorem Stores.retains (h : s.Stores) : s.Retains := by
  intro id job found pending
  obtain ⟨state, stored, -⟩ := h id job found pending
  exact remembers_of_stored found stored

/-- A job whose status has not been recorded is stored as a running one. -/
theorem stores_of_sparesRunning (run : Reachable step SparesRunning start s) : s.Stores := by
  refine job_invariant (J := fun job stored =>
    job.Pending → ∃ state, stored = some state ∧ state.status = .running) ?_ ?_ ?_ run
  · intro _ _ _ _ _ _ _ _
    exact ⟨_, rfl, rfl⟩
  · intro job stored job' write evolved stores pending
    obtain ⟨state, rfl, running⟩ := stores (evolved.pending pending)
    exact ⟨write state, rfl, (evolved.status pending state).trans running⟩
  · intro s act id job spares chosen stores pending
    obtain ⟨state, stored, running⟩ := stores pending
    exact absurd running (spares id chosen state stored)

theorem pending_of_running {admits : System → Action → Prop} {state : JobState}
    (run : Reachable step admits start s) (stored : s.jobs.get id = some state)
    (running : state.status = .running) : ∃ job, s.job id = some job ∧ job.Pending := by
  cases found : s.job id with
  | none =>
      rw [get_of_fresh run found] at stored
      cases stored
  | some job =>
      have honest : job.Honest (s.jobs.get id) := by
        refine job_invariant (J := Job.Honest) ?_ ?_ ?_ run id job found
        · intro _ _ _ _ _ _ _ _ _ _ status recorded
          cases recorded
        · exact fun _ _ _ _ evolved honest => honest.evolves evolved
        · intro _ _ _ _ _ _ _ state none
          cases none
      exact ⟨job, rfl, honest state stored running⟩

/-- A job that is not stored is forgotten. -/
theorem not_retains_of_missing (found : s.job id = some job) (pending : job.Pending)
    (missing : s.jobs.get id = none) : ¬ s.Retains := by
  intro retains
  have answered := (retains id job found pending).answered
  rw [getJobStatus, missing] at answered
  cases answered

/-- In every run in which no running job is evicted, no job is forgotten before its status
has been recorded. From the states of these runs, every step in which one is evicted leads
to where it is forgotten. -/
theorem retains_of_sparesRunning (run : Reachable step SparesRunning start s) :
    s.Retains ∧ ∀ act t, s.step act = some t → ¬ s.SparesRunning act → ¬ t.Retains := by
  refine ⟨(stores_of_sparesRunning run).retains, fun act t stepped evicts => ?_⟩
  simp only [SparesRunning, not_forall, not_not] at evicts
  obtain ⟨id, chosen, state, stored, running⟩ := evicts
  obtain ⟨job, found, pending⟩ := pending_of_running run stored running
  have moves := step_moves stepped
  obtain ⟨other, gone⟩ := moves.evicted chosen
  exact not_retains_of_missing ((moves.frame other).trans found) pending gone

/-- More pending jobs than the cache has entries: one of them is forgotten. -/
theorem not_retains_of_crowded {ids : List String} (distinct : ids.Nodup)
    (pending : ∀ id ∈ ids, ∃ job, s.job id = some job ∧ job.Pending)
    (crowded : s.jobs.size < ids.length) : ¬ s.Retains := by
  intro retains
  refine absurd crowded (Nat.not_lt_of_le (Cache.length_le_size distinct fun id member => ?_))
  obtain ⟨job, found, pending⟩ := pending id member
  have answered := (retains id job found pending).answered
  rw [getJobStatus] at answered
  split at answered
  · rw [‹s.jobs.get id = _›]
    rfl
  · cases answered

/-- After the step the cache holds no more entries than its capacity. -/
def KeepsWithin (s : System) (act : Action) : Prop :=
  ∀ t ∈ s.step act, t.jobs.size ≤ t.jobs.capacity

/-- Whatever such a cache evicts, any number of jobs can be requested one after the other
before the first of them has finished. -/
theorem exists_requested {ids : List String} (distinct : ids.Nodup) (plan : Plan)
    (hosts : HostConfig) (world : Nat → World) :
    ∃ s, Reachable step KeepsWithin start s ∧ s.jobs.size ≤ 1000 ∧ s.jobs.capacity = 1000 ∧
      (∀ id ∈ ids, ∃ job, s.job id = some job ∧ job.Pending) ∧ ∀ id ∉ ids, s.job id = none := by
  induction ids with
  | nil =>
      exact ⟨start, .start, Nat.zero_le _, rfl, fun _ h => absurd h List.not_mem_nil,
        fun _ _ => rfl⟩
  | cons id ids ih =>
      obtain ⟨new, distinct⟩ := List.nodup_cons.mp distinct
      obtain ⟨s, run, size, capacity, kept, fresh⟩ := ih distinct
      obtain ⟨victims, within, -⟩ := s.jobs.exists_victims (by omega) (by omega) id
        (⟨∅, plan, hosts, .running⟩ : JobState)
      have stepped : s.step (.runPlan id plan hosts world victims) = some (System.setJob
          { s with jobs := s.jobs.insert id ⟨∅, plan, hosts, .running⟩ victims } id
          { plan, hosts, world }) := by
        simp [step, fresh id new]
      have keeps : s.KeepsWithin (.runPlan id plan hosts world victims) := by
        intro t after
        obtain rfl := Option.some.inj (stepped.symm.trans after)
        exact within
      refine ⟨_, run.step keeps stepped, capacity ▸ within, capacity, fun id' member => ?_,
        fun id' absent => ?_⟩
      · rcases List.mem_cons.mp member with rfl | old
        · exact ⟨_, setJob_job _ _ _, fun status recorded => by cases recorded⟩
        · have ne : id' ≠ id := fun same => new (same ▸ old)
          rw [setJob_job_ne _ _ ne]
          exact kept id' old
      · obtain ⟨ne, absent⟩ : id' ≠ id ∧ id' ∉ ids := by simpa using absent
        rw [setJob_job_ne _ _ ne]
        exact fresh id' absent

end System

namespace ManyJobs

/-- The letters of the job ids. -/
def alphabet : List Char := "6789BCDFGHJKLMNPQRTWbcdfghjkmnpqrtwz".toList

/-- A job id that encodes a number in its first two letters. -/
def jobId (n : Nat) : String :=
  String.ofList (alphabet.getD (n / 36) '6' :: alphabet.getD (n % 36) '6' :: List.replicate 19 '6')

def world (_ : Nat) : World where
  key := .ok ⟨⟩
  server := {
    connect := .ok ⟨⟩
    authenticate := .ok true
    task := fun _ => { check := fun _ => ⟨.ok ⟨⟩, .ok ⟨⟩, []⟩, command := ⟨.ok ⟨⟩, .ok ⟨⟩, []⟩ } }

theorem alphabet_injective :
    ∀ i < 36, ∀ j < 36, alphabet.getD i '6' = alphabet.getD j '6' → i = j := by decide +kernel

theorem jobId_injective {n m : Nat} (hn : n < 1296) (hm : m < 1296) (same : jobId n = jobId m) :
    n = m := by
  simp only [jobId, String.ofList_inj, List.cons.injEq] at same
  have high := alphabet_injective _ (by omega) _ (by omega) same.1
  have low := alphabet_injective _ (by omega) _ (by omega) same.2.1
  omega

/-- The ids of 1001 jobs. -/
def ids : List String := (List.range 1001).map jobId

theorem nodup_ids : ids.Nodup := by
  refine (List.nodup_map_iff_inj_on List.nodup_range).mpr fun n hn m hm same => ?_
  rw [List.mem_range] at hn hm
  exact jobId_injective (by omega) (by omega) same

/-- The first job ends, because there is no key for its only future. -/
def finished : List System.Action :=
  [.runPlan (jobId 0) OneHost.plan OneHost.hosts
      (fun _ => ⟨.error (.msg "no key"), (world 0).server⟩) [],
    .job (jobId 0) .begin, .job (jobId 0) (.apply 0 .start),
    .job (jobId 0) (.apply 0 .loadKey), .job (jobId 0) (.collect 0), .job (jobId 0) .conclude,
    .record (jobId 0) []]

/-- The next job is requested, and the cache evicts the first. -/
def next : System.Action :=
  .runPlan (jobId 1) OneHost.plan OneHost.hosts world [jobId 0]

theorem evictions_next (s : System) : s.evictions next = [jobId 0] := by
  change [jobId 0].filter (· ≠ jobId 1) = [jobId 0]
  decide

end ManyJobs

/-- Of 1001 jobs requested before any has finished, one is forgotten, whichever the cache
has evicted. -/
theorem not_retains : ∃ s, Reachable System.step System.KeepsWithin System.start s ∧
    (∀ id ∈ ManyJobs.ids, ∃ job, s.job id = some job ∧ job.Pending) ∧ ¬ s.Retains := by
  obtain ⟨s, run, size, -, pending, -⟩ := System.exists_requested ManyJobs.nodup_ids OneHost.plan
    OneHost.hosts ManyJobs.world
  have many : ManyJobs.ids.length = 1001 := by simp [ManyJobs.ids]
  exact ⟨s, run, pending, System.not_retains_of_crowded ManyJobs.nodup_ids pending (by omega)⟩

/-- A job that has finished can be evicted for the next one. -/
theorem retains_evicted : ∃ s t, Reachable.run System.step System.start ManyJobs.finished = some s ∧
    s.step ManyJobs.next = some t ∧ t.jobs.get (ManyJobs.jobId 0) = none ∧ t.Retains := by
  have ends : (Reachable.run System.step System.start ManyJobs.finished).any fun s =>
      (s.job (ManyJobs.jobId 1)).isNone && (s.jobs.get (ManyJobs.jobId 0)).all fun state =>
        state.status ≠ .running := by decide +kernel
  obtain ⟨s, ran, ends⟩ := (Option.any_eq_true _ _).mp ends
  obtain ⟨fresh, ended⟩ := Bool.and_eq_true_iff.mp ends
  obtain ⟨t, stepped⟩ : ∃ t, s.step ManyJobs.next = some t := by
    simp [System.step, ManyJobs.next, Option.isNone_iff_eq_none.mp fresh]
  have run : Reachable System.step System.SparesRunning System.start s := by
    refine Reachable.start.run_of_forall ?_ ran
    intro act member s id chosen
    have none : s.evictions act = [] := by
      simp only [ManyJobs.finished, List.mem_cons, List.not_mem_nil, or_false] at member
      rcases member with rfl | rfl | rfl | rfl | rfl | rfl | rfl <;> simp [System.evictions]
    rw [none] at chosen
    exact absurd chosen List.not_mem_nil
  have spares : s.SparesRunning ManyJobs.next := by
    intro id chosen state stored
    rw [ManyJobs.evictions_next, List.mem_singleton] at chosen
    subst chosen
    rw [Option.mem_def.mp stored] at ended
    simpa using ended
  have evicted : ManyJobs.jobId 0 ∈ s.evictions ManyJobs.next := by
    rw [ManyJobs.evictions_next]
    exact List.mem_singleton_self _
  exact ⟨s, t, ran, stepped, ((System.step_moves stepped).evicted evicted).2,
    (System.retains_of_sparesRunning (run.step spares stepped)).1⟩

end There
