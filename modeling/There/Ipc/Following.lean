import There.Ipc.Exchange

/-!
# What a CLI prints of the job that it follows

Whatever the processes do and whichever connections break, the lines that a CLI has printed
for a host are the first lines of one execution: that of its own plan for the host, on the
entry that its own host file has for it. When the CLI has seen its job completed, they are
all of them, for every host that the plan is for.

The lines that have been printed stay when the controller evicts the job, so this is an
invariant of its own beside the one that the stored state takes part in. As there, each host
has to be a member once.
-/

namespace There

open Concurrent Json

/-- What is sunk is the first part of what is to be sunk. -/
theorem Apply.Inv.sunk_isPrefix {a : Apply} (inv : a.Inv) :
    a.sunk <+: a.world.lines a.dispatch := by
  rw [Apply.lines_eq, sunk]
  by_cases keyed : a.world.key.isOk
  · rw [expected_of_isOk keyed]
    obtain ⟨rest, parts⟩ := List.take_prefix a.sent a.script
    exact ⟨logLines rest, by rw [← logLines_append, parts]⟩
  · have unsent : a.sent = 0 := Nat.eq_zero_of_not_pos fun some => keyed (inv.keyed (.inr some))
    rw [unsent]
    exact List.nil_prefix

namespace Job

/-- The log of each host is the first part of what the executor of the host sinks. -/
structure Partial (job : Job) (log : String → List LogEntry) : Prop where
  pushed : ∀ i d, (Controller.dispatch job.plan job.hosts).pushes[i]? = some d →
    log d.hostname <+: entriesOf d.hostname ((job.world i).lines d)
  others : ∀ h, (∀ d ∈ (Controller.dispatch job.plan job.hosts).pushes, d.hostname ≠ h) →
    log h = []

/-- The invariant of a job and its stored state, and what the client knows without it. -/
structure Truthful (job : Job) (stored : Option JobState) : Prop where
  delivery : job.Delivery stored
  began : job.stage.begun → (Controller.dispatch job.plan job.hosts).Succeeds
  snapshot : ∀ snap, job.client.stage = .holding snap → job.Partial snap.entries
  printed : job.Partial job.client.printedFor
  /-- The dispatch of a job that is seen completed has succeeded. -/
  held : ∀ snap, job.client.stage = .holding snap → snap.status = .completed →
    (Controller.dispatch job.plan job.hosts).Succeeds
  left : job.client.stage = .left .completed →
    (Controller.dispatch job.plan job.hosts).Succeeds

variable {job job' : Job} {state : JobState} {stored : Option JobState}
variable {write : JobState → JobState}

/-- No two hosts that are dispatched have one name, if every host is a member once. -/
theorem pushes_unique (once : job.hosts.members.Nodup) {i k : Nat} {d e : Dispatch}
    (here : (Controller.dispatch job.plan job.hosts).pushes[i]? = some d)
    (there : (Controller.dispatch job.plan job.hosts).pushes[k]? = some e)
    (same : d.hostname = e.hostname) : i = k := by
  set names := (Controller.dispatch job.plan job.hosts).pushes.map Dispatch.hostname
  have distinct : names.Nodup := by
    simp only [names]
    rw [Controller.dispatch_eq, pushes_hostname]
    exact once.sublist (List.filter_sublist.trans (List.takeWhile_sublist _))
  have lt : i < names.length := by
    rw [List.length_map]
    exact (List.getElem?_eq_some_iff.mp here).1
  apply (List.getElem?_inj lt distinct).mp
  rw [List.getElem?_map, List.getElem?_map, here, there]
  exact congrArg some same

/-- The stored log is the first part of what is to come. -/
theorem Logged.firstPart (logged : job.Logged state) (inv : job.Inv)
    (once : job.hosts.members.Nodup) : job.Partial state.entries where
  pushed := by
    intro i d pushed
    by_cases dispatched : ∃ a ∈ job.applies, a.dispatch.hostname = d.hostname
    · obtain ⟨a, member, same⟩ := dispatched
      obtain ⟨k, here⟩ := List.getElem?_of_mem member
      obtain ⟨world, origin⟩ := inv.origin k a here
      obtain rfl := pushes_unique once origin pushed same
      obtain rfl : a.dispatch = d := Option.some.inj (origin.symm.trans pushed)
      have appended : state.entries a.dispatch.hostname <+:
          entriesOf a.dispatch.hostname a.sunk :=
        ⟨_, logged.account k a here⟩
      refine appended.trans ?_
      rw [← world]
      exact (inv.applies a member).sunk_isPrefix.map _
    · have none := logged.others d.hostname fun a member same => dispatched ⟨a, member, same⟩
      rw [none]
      exact List.nil_prefix
  others := by
    intro h absent
    refine logged.others h fun a member same => ?_
    obtain ⟨i, here⟩ := List.getElem?_of_mem member
    exact absent a.dispatch (List.mem_of_getElem? (inv.origin i a here).2) same

theorem Partial.same {log : String → List LogEntry} (h : job.Partial log)
    (same : job'.plan = job.plan ∧ job'.hosts = job.hosts ∧ job'.world = job.world) :
    job'.Partial log := by
  obtain ⟨plan, hosts, world⟩ := same
  constructor
  · rw [plan, hosts, world]
    exact h.pushed
  · rw [plan, hosts]
    exact h.others

theorem truthful_new (plan : Plan) (hosts : HostConfig) (world : Nat → World) :
    Truthful { plan, hosts, world } (some ⟨∅, plan, hosts, .running⟩) where
  delivery := delivery_new plan hosts world
  began := fun h => by cases h
  snapshot := fun _ h => by cases h
  printed := ⟨fun _ _ _ => List.nil_prefix, fun _ _ => rfl⟩
  held := fun _ h => by cases h
  left := fun h => by cases h

/-- A step that leaves the client alone leaves it as truthful as it was. -/
theorem Truthful.same (truthful : job.Truthful stored) (delivery : job'.Delivery (stored.map write))
    (same : job'.plan = job.plan ∧ job'.hosts = job.hosts ∧ job'.world = job.world)
    (client : job'.client = job.client)
    (began : job'.stage.begun → (Controller.dispatch job.plan job.hosts).Succeeds) :
    job'.Truthful (stored.map write) where
  delivery := delivery
  began := by
    rw [same.1, same.2.1]
    exact began
  snapshot := by
    rw [client]
    exact fun snap holding => (truthful.snapshot snap holding).same same
  printed := by
    rw [client]
    exact truthful.printed.same same
  held := by
    rw [client, same.1, same.2.1]
    exact truthful.held
  left := by
    rw [client, same.1, same.2.1]
    exact truthful.left

/-- What a round has printed is what was held. -/
theorem Truthful.print (truthful : job.Truthful stored)
    {order : List (Sigma fun _ : String => List LogEntry)} {client : Client}
    (h : job.client.print order = some client)
    (delivery : Delivery { job with client } stored) : Truthful { job with client } stored := by
  obtain ⟨snap, holding, perm, rfl⟩ := Client.print_eq_some h
  have round : ∀ snap', Client.afterRound snap.status ≠ .holding snap' := by
    intro snap'
    cases snap.status <;> simp [Client.afterRound]
  refine ⟨delivery, truthful.began, fun snap' held => absurd held (round snap'), ?_,
    fun snap' held => absurd held (round snap'), fun left => ?_⟩
  · have all : (order.foldl Client.printHost job.client).printedFor = snap.entries :=
      funext fun host => (truthful.delivery.informed.printed holding perm host).1
    have known := truthful.snapshot snap holding
    rw [← all] at known
    exact known.same ⟨rfl, rfl, rfl⟩
  · apply truthful.held snap holding
    revert left
    cases snap.status <;> simp [Client.afterRound]

theorem Truthful.evolves (truthful : job.Truthful stored) (once : job.hosts.members.Nodup)
    (h : job.Evolves stored job' write) : job'.Truthful (stored.map write) := by
  have delivery := truthful.delivery.evolves once h
  have same := h.same
  cases h with
  | moves moved =>
      cases moved with
      | fails spawned _ => exact truthful.same delivery same rfl fun began => by cases began
      | begins _ succeeds => exact truthful.same delivery same rfl fun _ => succeeds
      | concludes draining _ =>
          exact truthful.same delivery same rfl fun _ => truthful.began (by rw [draining]; rfl)
      | apply _ _ | collect _ _ _ => exact truthful.same delivery same rfl truthful.began
      | print printed =>
          rw [Option.map_id] at delivery ⊢
          exact truthful.print printed delivery
  | append _ _ => exact truthful.same delivery same rfl truthful.began
  | @record result concluded =>
      refine truthful.same delivery same rfl fun began => truthful.began ?_
      rw [concluded]
      cases result with
      | ok u => rfl
      | error e => cases began
  | answer polling found =>
      subst found
      have logged := truthful.delivery.logged _ rfl
      refine ⟨delivery, truthful.began, ?_, truthful.printed.same ⟨rfl, rfl, rfl⟩, ?_,
        fun left => by cases left⟩
      · rintro _ ⟨⟩
        exact (logged.firstPart truthful.delivery.inv once).same ⟨rfl, rfl, rfl⟩
      · rintro _ ⟨⟩ completed
        exact truthful.began (by rw [logged.completed completed]; rfl)
  | panic polling missing =>
      refine ⟨delivery, truthful.began, ?_, truthful.printed.same ⟨rfl, rfl, rfl⟩, ?_, ?_⟩
      · exact fun _ held => by cases held
      · exact fun _ held => by cases held
      · exact fun left => by cases left

theorem Truthful.evicted (truthful : job.Truthful stored) : job.Truthful none :=
  { truthful with delivery := truthful.delivery.evicted }

end Job

theorem System.truthful_of_reachable {s : System}
    (run : Reachable step (fun _ _ => True) start s) {id : String} {job : Job}
    (found : s.job id = some job) (once : job.hosts.members.Nodup) :
    job.Truthful (s.jobs.get id) := by
  have truthful : job.hosts.members.Nodup → job.Truthful (s.jobs.get id) := by
    refine job_invariant (J := fun job stored => job.hosts.members.Nodup →
      job.Truthful stored) ?_ ?_ ?_ run id job found
    · exact fun _ _ plan hosts world _ _ _ => Job.truthful_new plan hosts world
    · intro job stored job' write evolved truthful once
      rw [evolved.same.2.1] at once
      exact (truthful once).evolves once evolved
    · exact fun _ _ _ _ _ _ truthful once => (truthful once).evicted
  exact truthful once

/-- What the CLI has printed for the host comes from this execution, and is all of it when
the job has been seen completed. -/
structure Follower.Reports (p : Follower) (d : Dispatch) (world : World) : Prop where
  plan : d.plan = p.plan.planForHost d.hostname p.hosts
  host : p.hosts.hosts.lookup d.hostname = some d.host
  lines : p.printedFor d.hostname <+: entriesOf d.hostname (world.lines d)
  all : p.Left .completed → p.printedFor d.hostname = entriesOf d.hostname (world.lines d)

/-- The job that a CLI is told of as its own. -/
structure Wire.Owns (w : Wire) (n : Nat) (p : Follower) (id : String) (job : Job) : Prop where
  jobId : p.jobId = some id
  found : w.controller.job id = some job
  plan : job.plan = p.plan
  hosts : job.hosts.SameFile p.hosts
  /-- No other CLI has the id. -/
  alone : ∀ m q, w.follower m = some q → q.jobId = some id → m = n

section Following

variable {serdeJson : Format 127} {w : Wire} {n : Nat} {p : Follower}

/-- A CLI that knows the id of a job has come as far as the client of the job. -/
theorem Follower.Sound.follows {controller : System} {clients : String → Client} {id : String}
    {job : Job} (sound : p.Sound serdeJson controller clients) (made : IsJobId id)
    (knows : p.jobId = some id) (known : controller.job id = some job) :
    job.plan = p.plan ∧ job.hosts.SameFile p.hosts ∧ p.printed = (clients id).printed ∧
      ∀ status, p.Left status → (clients id).stage = .left status := by
  cases sound.tracks id knows with
  | refused refused _ => exact absurd made (refused ▸ not_isJobId_tooLong)
  | job _ known' plan hosts views =>
      obtain rfl := Option.some.inj (known'.symm.trans known)
      refine ⟨plan, hosts, ?_⟩
      cases stage : p.stage with
      | requesting =>
          have fresh : clients id = {} := by simpa [Follower.Views, stage] using views
          refine ⟨?_, ?_⟩
          · simp [Follower.printed, stage, fresh]
          · rintro status ⟨_, _, following, -⟩
            cases stage.symm.trans following
      | following id' c =>
          obtain rfl : id' = id := by simpa [Follower.jobId, stage] using knows
          obtain ⟨printed, -, seen⟩ := by simpa [Follower.Views, stage] using views
          refine ⟨?_, ?_⟩
          · simp [Follower.printed, stage, printed]
          · rintro status ⟨_, _, following, left⟩
            obtain ⟨-, rfl⟩ := FollowerStage.following.inj (stage.symm.trans following)
            rwa [left] at seen
      | stopped => simp [Follower.jobId, stage] at knows

/-- What has been printed for a host is part of what has been printed. -/
theorem Follower.printedFor_eq (host : String) :
    p.printedFor host = p.printed.filter (·.hostname = host) := by
  rw [printedFor, printed]
  split <;> rfl

/-- The CLIs and the controller are no more than the controller with a client in each job. For
every state that they come to it gets to one with the same jobs, in which the client of each
job has the plan of its CLI, has printed what the CLI has printed, and has left if it has. -/
theorem Wire.refines_system (run : Reachable (step serdeJson) (fun _ _ => True) start w) :
    ∃ clients : String → Client,
      Reachable System.step (fun _ _ => True) System.start (w.controller.withClients clients) ∧
      ∀ n p id job, w.follower n = some p → p.jobId = some id → w.controller.job id = some job →
        (job.plan = p.plan ∧ job.hosts.SameFile p.hosts ∧
          p.printed = (clients id).printed ∧
          ∀ status, p.Left status → (clients id).stage = .left status) ∧
        ∀ m q, w.follower m = some q → q.jobId = some id → m = n := by
  obtain ⟨_, reached, clients, rfl, agrees⟩ := (simulates serdeJson).reaches run
  refine ⟨clients, reached, fun n p id job found knows known => ?_⟩
  have made := agrees.ids id job known
  refine ⟨(agrees.sound n p found).follows made knows known, fun m q found' knows' => ?_⟩
  exact agrees.alone m n q p id found' found knows' knows fun here =>
    not_isJobId_tooLong (here ▸ made)

/-- A CLI that has printed something or has seen its job completed follows a job that has
a client with the same lines. -/
theorem Wire.owns_of_printed
    (run : Reachable (step serdeJson) (fun _ _ => True) start w) (found : w.follower n = some p)
    (once : p.hosts.members.Nodup)
    (shows : (∃ h, p.printedFor h ≠ []) ∨ p.Left .completed) :
    ∃ id job stored client, w.Owns n p id job ∧ Job.Truthful { job with client } stored ∧
      client.printedFor = p.printedFor ∧ (p.Left .completed → client.stage = .left .completed) := by
  obtain ⟨s, reached, clients, rfl, agrees⟩ := (simulates serdeJson).reaches run
  obtain ⟨id, c, following⟩ : ∃ id c, p.stage = .following id c := by
    rcases shows with ⟨h, printed⟩ | ⟨id, c, following, -⟩
    · rw [Follower.printedFor] at printed
      split at printed
      · exact ⟨_, _, ‹_›⟩
      · exact absurd rfl printed
    · exact ⟨id, c, following⟩
  have mine : p.jobId = some id := by simp [Follower.jobId, following]
  cases (agrees.sound n p found).tracks id mine with
  | refused _ astray =>
      simp only [Follower.Astray, following] at astray
      rcases shows with ⟨h, printed⟩ | ⟨_, _, following', left⟩
      · simp [Follower.printedFor, following, Client.printedFor, astray.1] at printed
      · obtain ⟨rfl, rfl⟩ := FollowerStage.following.inj (following.symm.trans following')
        simp [left] at astray
  | @job job made known _ _ _ =>
      obtain ⟨plan, hosts, printed, left⟩ := (agrees.sound n p found).follows made mine known
      have there : (w.controller.withClients clients).job id =
          some { job with client := clients id } := System.withClients_job known
      have once' : job.hosts.members.Nodup := hosts.members.nodup_iff.mpr once
      refine ⟨id, job, _, clients id, ⟨mine, known, plan, hosts, ?_⟩,
        System.truthful_of_reachable reached there once', ?_, ?_⟩
      · intro m q found' knows
        exact agrees.alone m n q p id found' found knows mine
          fun here => not_isJobId_tooLong (here ▸ made)
      · funext host
        rw [Follower.printedFor_eq, printed]
        rfl
      · exact left _

/-- Whatever a CLI prints for a host is from one execution of its own plan for the host, in
a job that no other CLI follows. When it has seen the job completed, there is such an
execution for every host that the plan is for, and all its lines have been printed. -/
theorem Wire.prints_own_executions
    (run : Reachable (step serdeJson) (fun _ _ => True) start w) (found : w.follower n = some p)
    (once : p.hosts.members.Nodup) (h : String)
    (shows : p.printedFor h ≠ [] ∨ p.Left .completed ∧ Targeted p.plan p.hosts h) :
    ∃ id job i d, w.Owns n p id job ∧
      (Controller.dispatch job.plan job.hosts).pushes[i]? = some d ∧ d.hostname = h ∧
      Targeted p.plan p.hosts h ∧ p.Reports d (job.world i) := by
  obtain ⟨id, job, stored, client, owns, truthful, printed, left⟩ :=
    owns_of_printed run found once (shows.imp (fun some => ⟨h, some⟩) And.left)
  have dispatched : ∃ d ∈ (Controller.dispatch job.plan job.hosts).pushes, d.hostname = h := by
    rcases shows with printed' | ⟨completed, targeted⟩
    · by_contra absent
      push Not at absent
      exact printed' (by rw [← printed]; exact truthful.printed.others h absent)
    · have succeeds := truthful.left (left completed)
      rw [Controller.dispatch_eq] at succeeds ⊢
      refine exists_push succeeds (owns.hosts.members.mem_iff.mpr targeted.member) ?_
      rw [owns.hosts.planForHost, owns.plan]
      exact Plan.planForHost_ne_nil.mpr targeted.task
  obtain ⟨d, member, rfl⟩ := dispatched
  obtain ⟨i, pushed⟩ := List.getElem?_of_mem member
  rw [Controller.dispatch_eq] at member
  obtain ⟨among, plan, nonempty, entry, -⟩ := mem_pushes member
  rw [owns.hosts.planForHost, owns.plan] at plan
  refine ⟨id, job, i, d, owns, pushed, rfl, ⟨owns.hosts.members.mem_iff.mp among, ?_⟩, plan, ?_,
    ?_, fun completed => ?_⟩
  · exact Plan.planForHost_ne_nil.mp (plan ▸ nonempty)
  · rw [← owns.hosts.lookup]
    exact entry
  · rw [← printed]
    exact truthful.printed.pushed i d pushed
  · rw [← printed]
    exact (truthful.delivery.informed.left (left completed)).pushed i d pushed

/-- The CLI has printed all the lines of its job at once, and so has the client of the job. -/
theorem Wire.refines_system_oneRequest :
    ∃ w p id, Reachable (step (compact 127)) (fun _ _ => True) start w ∧ w.follower 0 = some p ∧
      p.jobId = some id ∧ p.Left .completed ∧ p.printed = entriesOf "a" EchoJob.late ∧
      ∃ clients : String → Client,
        Reachable System.step (fun _ _ => True) System.start (w.controller.withClients clients) ∧
        ∀ n p id job, w.follower n = some p → p.jobId = some id → w.controller.job id = some job →
          (job.plan = p.plan ∧ job.hosts.SameFile p.hosts ∧
            p.printed = (clients id).printed ∧
            ∀ status, p.Left status → (clients id).stage = .left status) ∧
          ∀ m q, w.follower m = some q → q.jobId = some id → m = n := by
  obtain ⟨w, c, run, found, left, printed⟩ := OneRequest.reaches_left
  exact ⟨w, _, _, run, found, rfl, ⟨_, c, rfl, left⟩, printed, refines_system run⟩

/-- The lines of the job come from the only execution that it has. -/
theorem Wire.prints_own_executions_oneRequest :
    ∃ w p, Reachable (step (compact 127)) (fun _ _ => True) start w ∧ w.follower 0 = some p ∧
      p.Left .completed ∧ ∃ id job i d, w.Owns 0 p id job ∧
        (Controller.dispatch job.plan job.hosts).pushes[i]? = some d ∧ d.hostname = "a" ∧
        Targeted p.plan p.hosts "a" ∧ p.Reports d (job.world i) := by
  obtain ⟨w, c, run, found, left, -⟩ := OneRequest.reaches_left
  have targeted : Targeted OneHost.plan OneHost.hosts "a" :=
    ⟨by decide, Plan.planForHost_ne_nil.mp (by decide)⟩
  have once : OneHost.hosts.members.Nodup := by decide
  exact ⟨w, _, run, found, ⟨_, c, rfl, left⟩, prints_own_executions run found once "a"
    (.inr ⟨⟨_, c, rfl, left⟩, targeted⟩)⟩

end Following

section Once

variable {serdeJson : Format 127} {w w' : Wire} {n : Nat} {p p' : Follower}

/-- The CLI has not been answered, and may still be. -/
def Follower.Waits (p : Follower) : Prop :=
  p.stage = .requesting ∧ (p.connection = .idle ∨ ∃ r, p.connection = .asked r)

/-- The CLI has not been started, or waits for its first answer. -/
def Wire.Waits (w : Wire) (n : Nat) : Prop := ∀ p, w.follower n = some p → p.Waits

/-- The job that the step starts in answer to the CLI. -/
def Wire.startedJob (n : Nat) (w w' : Wire) : Action → Option String
  | .serve m chance =>
      if m = n ∧ (w.controller.job chance.id).isNone ∧ (w'.controller.job chance.id).isSome then
        some chance.id
      else
        none
  | _ => none

/-- The jobs that a run starts in answer to a CLI. -/
def Wire.jobsStarted (serdeJson : Format 127) (n : Nat) : Wire → List Action → List String
  | _, [] => []
  | w, act :: acts =>
      match w.step serdeJson act with
      | some w' => (w.startedJob n w' act).toList ++ jobsStarted serdeJson n w' acts
      | none => []

theorem Wire.Proceeds.waits (proceeds : Proceeds serdeJson p p') (h : p'.Waits) : p.Waits := by
  obtain ⟨stage, waiting⟩ := h
  cases proceeds with
  | send idle _ => exact ⟨stage, .inl idle⟩
  | drop _ _ => simp at waiting
  | answered _ | closed _ => cases hs : p.stage <;> simp [Follower.take, hs] at stage

/-- A CLI that has been answered does not wait again. -/
theorem Wire.Moves.waits (moves : w.Moves serdeJson w') (h : w'.Waits n) : w.Waits n := by
  intro p found
  have changed : ∀ {v : Wire} {m : Nat} {q q' : Follower}, v.follower = w.follower →
      v.follower m = some q → (v.setFollower m q').Waits n → (q'.Waits → q.Waits) → p.Waits := by
    intro v m q q' same there waits back
    by_cases here : n = m
    · subst here
      rw [same, found] at there
      obtain rfl := Option.some.inj there
      exact back (waits q' (setFollower_follower ..))
    · exact waits p (by rw [setFollower_follower_ne _ _ here, same, found])
  cases moves with
  | @run m plan hosts fresh =>
      have ne : n ≠ m := by
        rintro rfl
        simp [fresh] at found
      exact h p (by rw [setFollower_follower_ne _ _ ne, found])
  | proceeds there proceeds => exact changed rfl there h proceeds.waits
  | @serve m q r chance controller answer there _ _ =>
      refine changed (v := { w with controller }) rfl there h fun waits => ?_
      cases answer <;> simp [Follower.Waits, Follower.answer] at waits
  | print there _ _ => exact changed rfl there h fun waits => by simp [Follower.Waits] at waits
  | controller _ _ | stranger _ => exact h p found

theorem Wire.startedJob_of_controller {act : Action} (same : w'.controller = w.controller) :
    w.startedJob n w' act = none := by
  cases act with
  | serve m chance =>
      rw [startedJob, same, if_neg]
      rintro ⟨-, absent, present⟩
      rw [Option.isNone_iff_eq_none.mp absent] at present
      cases present
  | _ => rfl

/-- A CLI that is answered is told the id of the job that has been started for it, or that
none has been, or nothing that it does not know. -/
inductive Follower.Told (p p' : Follower) : Option String → Prop where
  | job {id : String} : p.Waits → p'.jobId = some id → id ≠ tooLong → Told p p' (some id)
  | refused : p.Waits → p'.jobId = some tooLong → Told p p' none
  | nothing : p'.jobId = p.jobId → Told p p' none

theorem Wire.told {chance : Chance} (run : Reachable (step serdeJson) (fun _ _ => True) start w)
    (stepped : w.step serdeJson (.serve n chance) = some w') :
    ∃ p p', w.follower n = some p ∧ w'.follower n = some p' ∧ ¬ p'.Waits ∧
      p.Told p' (w.startedJob n w' (.serve n chance)) := by
  obtain ⟨s, -, clients, -, agrees⟩ := (simulates serdeJson).reaches run
  simp only [step] at stepped
  split at stepped
  swap
  · cases stepped
  rename_i p found
  split at stepped
  swap
  · cases stepped
  rename_i r asked
  obtain ⟨⟨controller, answer⟩, handled, rfl⟩ := Option.map_eq_some_iff.mp stepped
  have sound := agrees.sound n p found
  have due := sound.asked r asked
  have spent : ¬ (p.answer answer).Waits := by
    cases answer <;> simp [Follower.Waits, Follower.answer]
  refine ⟨p, p.answer answer, found, setFollower_follower .., spent, ?_⟩
  rcases Follower.request_isSome (sound.busy (by simp [asked])) with
    requesting | ⟨id, c, following, polling⟩
  · have waits : p.Waits := ⟨requesting, .inr ⟨r, asked⟩⟩
    rw [Follower.request, requesting] at due
    obtain rfl := Option.some.inj due
    rcases System.handle_run handled with ⟨rfl, rfl⟩ | ⟨hosts, -, made, started, rfl⟩
    · rw [startedJob_of_controller]
      · exact .refused waits (by simp [Follower.answer, Follower.jobId, requesting])
      · rfl
    · have starts : (w.controller.job chance.id).isNone ∧ (controller.job chance.id).isSome := by
        cases System.step_moves started with
        | runPlan fresh => exact ⟨by rw [fresh]; rfl, by rw [System.setJob_job]; rfl⟩
      rw [startedJob, if_pos ⟨rfl, starts⟩]
      exact .job waits (by simp [Follower.answer, Follower.jobId, requesting])
        fun here => not_isJobId_tooLong (here ▸ made)
  · -- The state of a job starts no other.
    rw [Follower.request, following] at due
    simp only [polling, Option.some.injEq] at due
    subst due
    have mine : p.jobId = some id := by simp [Follower.jobId, following]
    have plain : id ≠ "" ∧ '/' ∉ id.toList := by
      cases sound.tracks id mine with
      | refused refused _ => exact refused ▸ (by decide)
      | job made _ _ _ _ => exact made.plain
    obtain ⟨rfl, -⟩ := System.handle_status plain.1 plain.2 handled
    rw [startedJob_of_controller]
    · exact .nothing ((Follower.jobId_answer following).trans mine.symm)
    · rfl

/-- A CLI that is not answered learns of no job. -/
theorem Wire.jobId_step {act : Action} {id : String}
    (run : Reachable (step serdeJson) (fun _ _ => True) start w)
    (stepped : w.step serdeJson act = some w') (unanswered : ∀ chance, act ≠ .serve n chance)
    (found : w'.follower n = some p') (knows : p'.jobId = some id) :
    ∃ p, w.follower n = some p ∧ p.jobId = some id := by
  obtain ⟨s, -, clients, -, agrees⟩ := (simulates serdeJson).reaches run
  have proceeds : ∀ {m : Nat} {q q' : Follower}, w.follower m = some q →
      Proceeds serdeJson q q' → (w.setFollower m q').follower n = some p' →
      ∃ p, w.follower n = some p ∧ p.jobId = some id := by
    intro m q q' there proceeds found
    rcases setFollower_cases found with ⟨rfl, rfl⟩ | ⟨-, before⟩
    · exact ⟨q, there, Follower.jobId_proceeds proceeds (agrees.sound n q there).busy knows⟩
    · exact ⟨p', before, knows⟩
  cases act with
  | run m plan hosts =>
      simp only [step] at stepped
      split at stepped
      · cases stepped
      · obtain rfl := Option.some.inj stepped
        rcases setFollower_cases found with ⟨rfl, rfl⟩ | ⟨-, before⟩
        · cases knows
        · exact ⟨p', before, knows⟩
  | send m =>
      obtain ⟨q, q', there, moved, rfl⟩ := stepFollower_eq_some stepped
      exact proceeds there (proceeds_send moved) found
  | drop m =>
      obtain ⟨q, q', there, moved, rfl⟩ := stepFollower_eq_some stepped
      exact proceeds there (proceeds_drop moved) found
  | receive m =>
      obtain ⟨q, q', there, moved, rfl⟩ := stepFollower_eq_some stepped
      exact proceeds there (proceeds_receive moved) found
  | serve m chance =>
      simp only [step] at stepped
      split at stepped
      · split at stepped
        · obtain ⟨⟨controller, answer⟩, -, rfl⟩ := Option.map_eq_some_iff.mp stepped
          rcases setFollower_cases found with ⟨rfl, -⟩ | ⟨-, before⟩
          · exact absurd rfl (unanswered chance)
          · exact ⟨p', before, knows⟩
        · cases stepped
      · cases stepped
  | print m order =>
      obtain ⟨q, q', there, moved, rfl⟩ := stepFollower_eq_some stepped
      rcases setFollower_cases found with ⟨rfl, rfl⟩ | ⟨-, before⟩
      · refine ⟨q, there, ?_⟩
        rw [Follower.print] at moved
        split at moved
        · rename_i following
          obtain ⟨c, -, rfl⟩ := Option.map_eq_some_iff.mp moved
          simpa [Follower.jobId, following] using knows
        · cases moved
      · exact ⟨p', before, knows⟩
  | controller act =>
      simp only [step] at stepped
      split at stepped
      · obtain ⟨controller, -, rfl⟩ := Option.map_eq_some_iff.mp stepped
        exact ⟨p', found, knows⟩
      · cases stepped
  | stranger r chance =>
      obtain ⟨⟨controller, answer⟩, -, rfl⟩ := Option.map_eq_some_iff.mp stepped
      exact ⟨p', found, knows⟩

/-- What has been started for a CLI is the job that it knows, and nothing while it waits. -/
structure Wire.Accounts (w : Wire) (n : Nat) (started : List String) : Prop where
  waits : w.Waits n → started = []
  length : started.length ≤ 1
  knows : ∀ p id, w.follower n = some p → p.jobId = some id →
    started = if id = tooLong then [] else [id]

theorem Wire.Accounts.step {started : List String} {act : Action} (accounts : w.Accounts n started)
    (run : Reachable (Wire.step serdeJson) (fun _ _ => True) start w)
    (stepped : w.step serdeJson act = some w') :
    w'.Accounts n (started ++ (w.startedJob n w' act).toList) := by
  by_cases answered : ∃ chance, act = .serve n chance
  · obtain ⟨chance, rfl⟩ := answered
    obtain ⟨p, p', found, found', spent, told⟩ := Wire.told run stepped
    have spent' : ¬ w'.Waits n := fun waits => spent (waits p' found')
    have only : ∀ {id : String}, p.Waits → p'.jobId = some id → ∀ q id', w'.follower n = some q →
        q.jobId = some id' → started = [] ∧ id = id' := by
      intro id waits knows q id' there knows'
      obtain rfl := Option.some.inj (found'.symm.trans there)
      refine ⟨accounts.waits fun q there => ?_, Option.some.inj (knows.symm.trans knows')⟩
      rwa [← Option.some.inj (found.symm.trans there)]
    revert told
    generalize w.startedJob n w' (.serve n chance) = new
    rintro (⟨waits, knows, other⟩ | ⟨waits, knows⟩ | same)
    · obtain ⟨none, -⟩ := only waits knows p' _ found' knows
      refine ⟨fun waits' => absurd waits' spent', by simp [none], fun q id' there knows' => ?_⟩
      obtain ⟨-, rfl⟩ := only waits knows q id' there knows'
      simp [none, other]
    · refine ⟨fun waits' => absurd waits' spent', by simpa using accounts.length, ?_⟩
      intro q id' there knows'
      obtain ⟨none, rfl⟩ := only waits knows q id' there knows'
      simp [none]
    · refine ⟨fun waits' => absurd waits' spent', by simpa using accounts.length, ?_⟩
      intro q id' there knows'
      obtain rfl := Option.some.inj (found'.symm.trans there)
      simpa using accounts.knows p id' found (same ▸ knows')
  · have unanswered : ∀ chance, act ≠ .serve n chance := fun chance here => answered ⟨chance, here⟩
    have nothing : w.startedJob n w' act = none := by
      cases act with
      | serve m chance =>
          rw [startedJob, if_neg]
          rintro ⟨rfl, -⟩
          exact unanswered chance rfl
      | _ => rfl
    rw [nothing, Option.toList_none, List.append_nil]
    refine ⟨fun waits => accounts.waits ((step_moves stepped).waits waits), accounts.length, ?_⟩
    intro p' id found knows
    obtain ⟨p, there, knew⟩ := jobId_step run stepped unanswered found knows
    exact accounts.knows p id there knew

theorem Wire.Accounts.run {started : List String} (accounts : w.Accounts n started)
    (reached : Reachable (Wire.step serdeJson) (fun _ _ => True) start w) (acts : List Action) :
    (started ++ jobsStarted serdeJson n w acts).length ≤ 1 ∧
      ∀ v, Reachable.run (Wire.step serdeJson) w acts = some v →
        v.Accounts n (started ++ jobsStarted serdeJson n w acts) := by
  induction acts generalizing w started with
  | nil =>
      rw [jobsStarted, List.append_nil]
      refine ⟨accounts.length, fun v ran => ?_⟩
      obtain rfl : w = v := by simpa [Reachable.run] using ran
      exact accounts
  | cons act acts ih =>
      rw [jobsStarted, Reachable.run]
      cases stepped : w.step serdeJson act with
      | none => exact ⟨by simpa using accounts.length, fun v ran => by cases ran⟩
      | some w' =>
          have next := ih (accounts.step reached stepped) (reached.step trivial stepped)
          rwa [List.append_assoc] at next

/-- In no run is more than one job started for a CLI, whichever connections break. A CLI that
has been told the id of a job has been told the id of the one that was started for it. -/
theorem Wire.jobsStarted_le_one (serdeJson : Format 127) (n : Nat) (acts : List Action) :
    (jobsStarted serdeJson n start acts).length ≤ 1 ∧
      ∀ w p id, Reachable.run (step serdeJson) start acts = some w → w.follower n = some p →
        p.jobId = some id →
        jobsStarted serdeJson n start acts = if id = tooLong then [] else [id] := by
  have initially : start.Accounts n [] :=
    ⟨fun _ => rfl, Nat.zero_le 1, fun _ _ found => by cases found⟩
  obtain ⟨one, accounts⟩ := initially.run .start acts
  exact ⟨one, fun w p id ran found knows => (accounts w ran).knows p id found knows⟩

/-- A run in which the CLI is told of its job. -/
theorem Wire.jobsStarted_le_one_oneRequest :
    ∃ acts, jobsStarted (compact 127) 0 start acts = [OneRequest.chance.id] := by
  obtain ⟨w, c, run, found, -, -⟩ := OneRequest.reaches_left
  obtain ⟨acts, ran⟩ := run.exists_run
  refine ⟨acts, ?_⟩
  rw [(jobsStarted_le_one (compact 127) 0 acts).2 w _ _ ran found rfl]
  decide

end Once

end There
