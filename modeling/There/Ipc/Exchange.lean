import There.Ipc.Refinement

/-!
# What a CLI can get done

When nothing breaks, a request that is not too long starts the job that it asks for, and a
CLI that asks for the state of a stored job gets it. So a CLI never hangs on a job that has
ended: as long as the job is stored and the connection is up, it prints what is new and
leaves if its own requests are answered, whatever else does not go on.
-/

namespace There

open Concurrent Json

namespace Wire

variable {serdeJson : Format 127} {w : Wire} {n : Nat} {p : Follower} {chance : Chance}

/-- A request of the CLI, the answer to it, or what the CLI makes of the answer. -/
inductive Action.Own (n : Nat) : Action → Prop where
  | send : Own n (.send n)
  | serve {chance : Chance} : Own n (.serve n chance)
  | receive : Own n (.receive n)
  | print {order : List (Sigma fun _ : String => List LogEntry)} : Own n (.print n order)

/-- By requests and answers of its own the CLI gets to this state, and the controller to that. -/
def Leads (serdeJson : Format 127) (w : Wire) (n : Nat) (p : Follower) (controller : System) :
    Prop :=
  ∃ w', Reachable (step serdeJson) (fun _ act => act.Own n) w w' ∧ w'.follower n = some p ∧
    w'.controller = controller

theorem Leads.refl (found : w.follower n = some p) : w.Leads serdeJson n p w.controller :=
  ⟨w, .start, found, rfl⟩

theorem Leads.trans {p' : Follower} {t t' : System} (h : w.Leads serdeJson n p t)
    (next : ∀ v : Wire, v.follower n = some p → v.controller = t → v.Leads serdeJson n p' t') :
    w.Leads serdeJson n p' t' := by
  obtain ⟨v, run, found, same⟩ := h
  obtain ⟨v', run', rest⟩ := next v found same
  exact ⟨v', run.trans run', rest⟩

/-- The CLI takes a step by itself. -/
theorem leads_stepFollower {act : Action} (own : act.Own n) {f : Follower → Option Follower}
    {p' : Follower} (found : w.follower n = some p)
    (isStep : w.step serdeJson act = w.stepFollower n f)
    (stepped : f p = some p') : w.Leads serdeJson n p' w.controller := by
  have taken : w.step serdeJson act = some (w.setFollower n p') := by
    rw [isStep]
    simp only [stepFollower, found, stepped, Option.map_some]
  exact ⟨_, .step .start own taken, setFollower_follower .., rfl⟩

/-- The controller goes on with its jobs, and no CLI takes part. -/
theorem reaches_controller {acts : List System.Action} {t : System}
    (internal : ∀ act ∈ acts, act.isInternal)
    (ran : Reachable.run System.step w.controller acts = some t) :
    Reachable (step serdeJson) (fun _ _ => True) w { w with controller := t } := by
  induction acts generalizing w with
  | nil =>
      obtain rfl : w.controller = t := by simpa [Reachable.run] using ran
      exact .start
  | cons act acts ih =>
      obtain ⟨u, stepped, ran⟩ := Option.bind_eq_some_iff.mp ran
      have taken : w.step serdeJson (.controller act) = some { w with controller := u } := by
        simp only [step, internal act List.mem_cons_self, if_true, stepped, Option.map_some]
      refine (Reachable.start.step trivial taken).trans ?_
      exact ih (w := { w with controller := u })
        (fun act member => internal act (List.mem_cons_of_mem _ member)) ran

/-- The request of the CLI is answered, and the CLI reads the answer. -/
theorem leads_answered {r : HttpRequest} {t : System} {answer : Response}
    (found : w.follower n = some p) (asked : p.connection = .asked r)
    (handled : w.controller.handle serdeJson r chance = some (t, some answer)) :
    w.Leads serdeJson n { p with
      stage := Follower.take serdeJson p.stage (some answer), connection := .idle } t := by
  have served : w.step serdeJson (.serve n chance) = some
      (setFollower { w with controller := t } n { p with connection := .answered answer }) := by
    simp only [step, found, asked, handled, Option.map_some, Follower.answer]
  refine Leads.trans ⟨_, .step .start .serve served, setFollower_follower .., rfl⟩ ?_
  rintro v found rfl
  exact leads_stepFollower .receive found rfl rfl

/-- The CLI sends its request and reads the answer. -/
theorem leads_exchange {r : HttpRequest} {t : System} {answer : Response}
    (found : w.follower n = some p) (idle : p.connection = .idle)
    (due : p.request serdeJson = some r)
    (handled : w.controller.handle serdeJson r chance = some (t, some answer)) :
    w.Leads serdeJson n { p with
      stage := Follower.take serdeJson p.stage (some answer), connection := .idle } t := by
  have sent : p.send serdeJson = some { p with connection := .asked r } := by
    simp only [Follower.send, idle, due, Option.map_some]
  refine (leads_stepFollower .send found rfl sent).trans ?_
  rintro v found same
  exact leads_answered (p := { p with connection := .asked r }) found rfl (same ▸ handled)

/-- A CLI that has its plan's job accepted. -/
theorem leads_job {plan : Plan} {hosts : HostConfig}
    (found : w.follower n = some { plan, hosts }) (made : IsJobId chance.id)
    (short : (serdeJson.print (JobStartRequest.json plan hosts)).utf8ByteSize ≤ bodyLimit) :
    ∃ hosts' : HostConfig, hosts'.SameFile hosts ∧ ∀ t,
      w.controller.step (.runPlan chance.id plan hosts' chance.world chance.victims) = some t →
        w.Leads serdeJson n { plan, hosts, stage := .following chance.id {} } t := by
  rcases @JobStartRequest.extract_json serdeJson plan hosts with
    refused | ⟨request, read, rfl, sameFile⟩
  · rw [JobStartRequest.extract, if_neg (Nat.not_lt_of_le short)] at refused
    split at refused
    · cases refused
    · split at refused <;> cases refused
  · refine ⟨request.hosts, sameFile, fun t stepped => ?_⟩
    have handled : w.controller.handle serdeJson
        ⟨.post, runPath, serdeJson.print (JobStartRequest.json request.plan hosts)⟩ chance =
          some (t, some ⟨200, chance.id⟩) := by
      simp only [System.handle, endpoint_run, read, made, if_true, stepped, Option.map_some]
    exact leads_exchange found rfl rfl handled

/-- The controller answers with the state of a stored job. -/
theorem handle_stored {s : System} {id : String} {state : JobState}
    (plain : id ≠ "" ∧ '/' ∉ id.toList) (stored : s.jobs.get id = some state) (chance : Chance) :
    s.handle serdeJson ⟨.get, statusPath id, ""⟩ chance =
      some (s, some ⟨200, serdeJson.print state.serialize⟩) := by
  simp only [System.handle, endpoint_status plain.1 plain.2, System.getJobStatus, stored]

/-- A CLI that asks for a stored job holds its state. -/
theorem leads_state {id : String} {c : Client} {state : JobState} (found : w.follower n = some p)
    (plain : id ≠ "" ∧ '/' ∉ id.toList) (idle : p.connection = .idle)
    (following : p.stage = .following id c) (polling : c.stage = .polling)
    (stored : w.controller.jobs.get id = some state) :
    ∃ state', state'.Same state ∧ w.Leads serdeJson n
      { p with stage := .following id { c with stage := .holding state' } } w.controller := by
  obtain ⟨state', read, same⟩ := @Follower.readState_print serdeJson state
  have due : p.request serdeJson = some ⟨.get, statusPath id, ""⟩ := by
    simp only [Follower.request, following, polling]
  have leads := leads_exchange found idle due
    (handle_stored plain stored ⟨"", fun _ => EchoJob.world, [], none⟩)
  simp only [Follower.take, following, read] at leads
  exact ⟨state', same, idle ▸ leads⟩

/-- A CLI that holds the state of a job that has ended leaves. -/
theorem leads_left {id : String} {c : Client} {state : JobState} (found : w.follower n = some p)
    (following : p.stage = .following id c) (holding : c.stage = .holding state) :
    ∃ c', c.print state.logs.entries = some c' ∧ c'.stage = Client.afterRound state.status ∧
      w.Leads serdeJson n { p with stage := .following id c' } w.controller := by
  obtain ⟨c', printed, round⟩ : ∃ c', c.print state.logs.entries = some c' ∧
      c'.stage = Client.afterRound state.status := by
    simp only [Client.print, holding]
    exact ⟨_, if_pos (List.Perm.refl _), rfl⟩
  have leaves : p.print state.logs.entries = some { p with stage := .following id c' } := by
    simp only [Follower.print, following, printed, Option.map_some]
  exact ⟨c', printed, round, leads_stepFollower .print found rfl leaves⟩

/-- The CLI can see the job end by requests and answers of its own. -/
def CanLeave (serdeJson : Format 127) (w : Wire) (n : Nat) : Prop :=
  ∃ p status, p.Left status ∧ status ≠ .running ∧ w.Leads serdeJson n p w.controller

theorem CanLeave.of_leads {p' : Follower} (h : w.Leads serdeJson n p' w.controller)
    (next : ∀ v : Wire, v.follower n = some p' → v.controller = w.controller →
      v.CanLeave serdeJson n) : w.CanLeave serdeJson n := by
  obtain ⟨v, run, found, same⟩ := h
  obtain ⟨q, status, left, terminal, v', run', found', same'⟩ := next v found same
  exact ⟨q, status, left, terminal, v', run.trans run', found', same'.trans same⟩

section Ended

variable {id : String} {c : Client} {state : JobState} {controller : System}
variable {clients : String → Client}

theorem canLeave_of_polling (found : w.follower n = some p) (plain : id ≠ "" ∧ '/' ∉ id.toList)
    (idle : p.connection = .idle) (following : p.stage = .following id c)
    (polling : c.stage = .polling) (stored : w.controller.jobs.get id = some state)
    (ended : state.status ≠ .running) : w.CanLeave serdeJson n := by
  obtain ⟨state', same, leads⟩ := leads_state found plain idle following polling stored
  refine .of_leads leads fun v found' controller => ?_
  obtain ⟨c', -, round, leads'⟩ := leads_left found' rfl rfl
  rw [same.status] at round
  refine ⟨_, state.status, ⟨id, c', rfl, ?_⟩, ended, leads'⟩
  rw [round]
  cases status : state.status with
  | running => exact absurd status ended
  | _ => rfl

/-- A CLI that holds an older state asks once more. -/
theorem canLeave_of_holding (found : w.follower n = some p) (plain : id ≠ "" ∧ '/' ∉ id.toList)
    (idle : p.connection = .idle) (following : p.stage = .following id c) {held : JobState}
    (holding : c.stage = .holding held) (stored : w.controller.jobs.get id = some state)
    (ended : state.status ≠ .running) : w.CanLeave serdeJson n := by
  obtain ⟨c', -, round, leads⟩ := @leads_left serdeJson _ _ _ _ _ _ found following holding
  cases status : held.status with
  | running =>
      refine .of_leads leads fun v found' same => ?_
      exact canLeave_of_polling found' plain idle rfl (round.trans (by rw [status]; rfl))
        (same ▸ stored) ended
  | completed =>
      exact ⟨_, .completed, ⟨id, c', rfl, by rw [round, status]; rfl⟩, nofun, leads⟩
  | failed => exact ⟨_, .failed, ⟨id, c', rfl, by rw [round, status]; rfl⟩, nofun, leads⟩

theorem canLeave_of_asked (found : w.follower n = some p) (plain : id ≠ "" ∧ '/' ∉ id.toList)
    (following : p.stage = .following id c)
    (asked : p.connection = .asked ⟨.get, statusPath id, ""⟩)
    (stored : w.controller.jobs.get id = some state) (ended : state.status ≠ .running) :
    w.CanLeave serdeJson n := by
  obtain ⟨state', read, -⟩ := @Follower.readState_print serdeJson state
  refine .of_leads (leads_answered found asked
    (handle_stored plain stored ⟨"", fun _ => EchoJob.world, [], none⟩)) fun v found' same => ?_
  simp only [following, Follower.take, read] at found'
  exact canLeave_of_holding found' plain rfl rfl rfl (same ▸ stored) ended

/-- Whatever state the answer on its way to a CLI shows. -/
theorem canLeave_of_answered (found : w.follower n = some p) (plain : id ≠ "" ∧ '/' ∉ id.toList)
    (following : p.stage = .following id c) {answer : Response}
    (answered : p.connection = .answered answer) {held : JobState}
    (shows : answer.body = serdeJson.print held.serialize)
    (stored : w.controller.jobs.get id = some state) (ended : state.status ≠ .running) :
    w.CanLeave serdeJson n := by
  obtain ⟨held', read, -⟩ := @Follower.readState_print serdeJson held
  have received : p.receive serdeJson = some { p with
      stage := Follower.take serdeJson p.stage (some answer), connection := .idle } := by
    simp only [Follower.receive, answered]
  refine .of_leads (leads_stepFollower .receive found rfl received) fun v found' same => ?_
  simp only [following, Follower.take, shows, read] at found'
  exact canLeave_of_holding found' plain rfl rfl rfl (same ▸ stored) ended

/-- A CLI whose request to start the job has been answered reads the id first. -/
theorem canLeave_of_accepted (found : w.follower n = some p)
    (requesting : p.stage = .requesting) {answer : Response}
    (answered : p.connection = .answered answer)
    (plain : answer.body ≠ "" ∧ '/' ∉ answer.body.toList)
    (stored : w.controller.jobs.get answer.body = some state) (ended : state.status ≠ .running) :
    w.CanLeave serdeJson n := by
  have received : p.receive serdeJson =
      some { p with stage := .following answer.body {}, connection := .idle } := by
    simp only [Follower.receive, answered, requesting, Follower.take]
  refine .of_leads (leads_stepFollower .receive found rfl received) fun v found' same => ?_
  exact canLeave_of_polling found' plain rfl rfl rfl (same ▸ stored) ended

/-- A CLI that follows a job that has ended, whatever it is in the middle of. -/
theorem canLeave_of_following {client : Client} (found : w.follower n = some p)
    (plain : id ≠ "" ∧ '/' ∉ id.toList) (following : p.stage = .following id c)
    (sound : p.Sound serdeJson controller clients) (views : p.Views serdeJson client)
    (up : p.connection ≠ .closed) (alive : c.stage ≠ .failed)
    (terminal : ∀ status, client.stage = .left status → status ≠ .running)
    (stored : w.controller.jobs.get id = some state) (ended : state.status ≠ .running) :
    w.CanLeave serdeJson n := by
  simp only [Follower.Views, following] at views
  obtain ⟨-, -, seen⟩ := views
  -- Only a CLI that polls waits for an answer.
  have idle : c.stage ≠ .polling → p.connection = .idle := by
    intro notPolling
    by_contra busy
    rcases Follower.request_isSome (sound.busy busy) with requesting | ⟨_, c', hs, polling⟩
    · simp [following] at requesting
    · obtain ⟨rfl, rfl⟩ := FollowerStage.following.inj (following.symm.trans hs)
      exact notPolling polling
  cases stage : c.stage with
  | failed => exact absurd stage alive
  | left status =>
      rw [stage] at seen
      exact ⟨p, status, ⟨id, c, following, stage⟩, terminal status seen, .refl found⟩
  | holding held =>
      exact canLeave_of_holding found plain (idle (by simp [stage])) following stage stored ended
  | polling =>
      cases hc : p.connection with
      | closed => exact absurd hc up
      | idle => exact canLeave_of_polling found plain hc following stage stored ended
      | asked r =>
          have due := sound.asked r hc
          simp only [Follower.request, following, stage, Option.some.injEq] at due
          subst due
          exact canLeave_of_asked found plain following hc stored ended
      | answered answer =>
          simp only [stage, hc, ClientStage.SeenAs] at seen
          obtain ⟨held, -, shows⟩ := seen
          exact canLeave_of_answered found plain following hc shows stored ended

/-- A client that has left has seen a terminal status. -/
theorem System.left_ne_running {s : System}
    (reached : Reachable System.step (fun _ _ => True) System.start s) {job : Job}
    (found : s.job id = some job) {status : JobStatus} (left : job.client.stage = .left status) :
    status ≠ .running := by
  refine System.job_invariant (J := fun job _ => ∀ status, job.client.stage = .left status →
    status ≠ .running) (fun _ _ _ _ _ _ _ => nofun) ?_ (fun _ _ _ _ _ _ kept => kept) reached
    id job found status left
  intro job stored job' write evolved kept
  cases evolved with
  | moves moved =>
      cases moved with
      | print printed =>
          obtain ⟨snap, -, -, rfl⟩ := Client.print_eq_some printed
          intro status left
          obtain ⟨rfl, ended⟩ := Client.afterRound_left left
          exact ended
      | _ => exact kept
  | append _ _ | record _ => exact kept
  | answer _ _ | panic _ _ => exact nofun

/-- A CLI that knows its job can see it end, as long as the job is stored with a terminal
status and the connection is up. -/
theorem canLeave_of_ended (run : Reachable (step serdeJson) (fun _ _ => True) start w)
    (found : w.follower n = some p) (knows : p.jobId = some id) (up : p.connection ≠ .closed)
    (alive : ∀ c, p.stage = .following id c → c.stage ≠ .failed)
    (stored : w.controller.jobs.get id = some state) (ended : state.status ≠ .running) :
    w.CanLeave serdeJson n := by
  obtain ⟨s, reached, clients, rfl, agrees⟩ := (simulates serdeJson).reaches run
  have sound := agrees.sound n p found
  cases sound.tracks id knows with
  | refused refused _ =>
      subst refused
      rw [agrees.get_tooLong reached] at stored
      cases stored
  | @job job made known _ _ views =>
      have there : (w.controller.withClients clients).job id =
          some { job with client := clients id } := System.withClients_job known
      have terminal : ∀ status, (clients id).stage = .left status → status ≠ .running :=
        fun _ left => System.left_ne_running reached there left
      cases hs : p.stage with
      | requesting =>
          cases hc : p.connection with
          | answered answer =>
              simp only [Follower.jobId, hs, hc, Option.some.injEq] at knows
              subst knows
              exact canLeave_of_accepted found hs hc made.plain stored ended
          | _ => simp [Follower.jobId, hs, hc] at knows
      | stopped => simp [Follower.jobId, hs] at knows
      | following id' c =>
          obtain rfl : id' = id := by simpa [Follower.jobId, hs] using knows
          exact canLeave_of_following found made.plain hs sound views up (alive c hs) terminal
            stored ended

end Ended

end Wire

namespace OneRequest

def chance : Chance := ⟨"6789BCDFGHJKLMNPQRTWb", fun _ => EchoJob.world, [], none⟩

/-- The job from its first step to its last. -/
def course : List System.Action :=
  [.job chance.id .begin, .job chance.id (.apply 0 .start), .job chance.id (.apply 0 .loadKey)] ++
  List.replicate 8 (.job chance.id (.apply 0 .send)) ++
  [.job chance.id (.apply 0 .finishExecute)] ++
  (List.replicate 7 [.job chance.id (.apply 0 .source), .append chance.id 0 []]).flatten ++
  [.job chance.id (.apply 0 .source), .job chance.id (.apply 0 .join),
    .job chance.id (.collect 0), .job chance.id .conclude, .record chance.id []]

def accepted : Option System :=
  System.start.step (.runPlan chance.id OneHost.plan OneHost.hosts chance.world chance.victims)

def after : Option System := accepted.bind (Reachable.run System.step · course)

/-- A text has at most four bytes for each character. -/
theorem utf8ByteSize_ofList_le (cs : List Char) :
    (String.ofList cs).utf8ByteSize ≤ 4 * cs.length := by
  induction cs with
  | nil => simp
  | cons c cs ih =>
      have fits := Char.utf8Size_le_four c
      have size : (String.singleton c).utf8ByteSize = c.utf8Size := by simp
      rw [String.ofList_cons, String.utf8ByteSize_append, List.length_cons]
      omega

theorem short : ((compact 127).print
    (JobStartRequest.json OneHost.plan OneHost.hosts)).utf8ByteSize ≤ bodyLimit := by
  have length : (JobStartRequest.json OneHost.plan OneHost.hosts).print.length ≤ 1000 := by
    decide +kernel
  exact Nat.le_trans (utf8ByteSize_ofList_le _)
    (Nat.le_trans (Nat.mul_le_mul_left 4 length) (by decide))

theorem hosts_of_sameFile {hosts : HostConfig} (same : hosts.SameFile OneHost.hosts) :
    hosts = OneHost.hosts := by
  have hostMap : hosts.hosts = OneHost.hosts.hosts :=
    AList.ext (List.perm_singleton.mp same.hostMap)
  have groupMap : hosts.groups = OneHost.hosts.groups :=
    AList.ext (List.perm_singleton.mp same.groupMap)
  cases hosts
  cases hostMap
  cases groupMap
  rfl

def follower : Follower where
  plan := OneHost.plan
  hosts := OneHost.hosts
  stage := .following chance.id {}

/-- The job can be accepted, and end before the CLI asks for its state. -/
theorem reaches_after : ∃ w state,
    Reachable (Wire.step (compact 127)) (fun _ _ => True) Wire.start w ∧
      w.follower 0 = some follower ∧ w.controller.jobs.get chance.id = some state ∧
      state.status = .completed ∧ state.logs.entries = [⟨"a", entriesOf "a" EchoJob.late⟩] := by
  have ends : after.any fun s => (s.jobs.get chance.id).any fun state =>
      state.status = .completed ∧ state.logs.entries = [⟨"a", entriesOf "a" EchoJob.late⟩] := by
    decide +kernel
  obtain ⟨s, ran, ends⟩ := (Option.any_eq_true _ _).mp ends
  obtain ⟨state, stored, ended⟩ := (Option.any_eq_true _ _).mp ends
  obtain ⟨t, isAccepted, ran⟩ := Option.bind_eq_some_iff.mp ran
  have begun : Wire.start.step (compact 127) (.run 0 OneHost.plan OneHost.hosts) =
      some (Wire.start.setFollower 0 { plan := OneHost.plan, hosts := OneHost.hosts }) := rfl
  have made : IsJobId chance.id := by decide
  obtain ⟨hosts', same, leads⟩ := Wire.leads_job
    (Wire.setFollower_follower Wire.start 0 { plan := OneHost.plan, hosts := OneHost.hosts })
    made short
  obtain rfl := hosts_of_sameFile same
  obtain ⟨v, run, found, rfl⟩ := leads t isAccepted
  have reached : Reachable (Wire.step (compact 127)) (fun _ _ => True) Wire.start v :=
    (Reachable.start.step trivial begun).trans (run.mono fun _ _ _ => trivial)
  exact ⟨{ v with controller := s }, state, reached.trans (Wire.reaches_controller (by decide) ran),
    found, stored, decide_eq_true_eq.mp ended⟩

/-- Then the CLI can print all the lines of the job at once, and leave. -/
theorem reaches_left : ∃ w c,
    Reachable (Wire.step (compact 127)) (fun _ _ => True) Wire.start w ∧
      w.follower 0 = some { follower with stage := .following chance.id c } ∧
      c.stage = .left .completed ∧ c.printed = entriesOf "a" EchoJob.late := by
  obtain ⟨w, state, run, found, stored, completed, logs⟩ := reaches_after
  obtain ⟨state', same, v, polled, found, -⟩ :=
    Wire.leads_state found (by decide) rfl rfl rfl stored
  obtain ⟨c, printed, round, u, left, found, -⟩ := Wire.leads_left found rfl rfl
  refine ⟨u, c, run.trans ((polled.trans left).mono fun _ _ _ => trivial), found, ?_, ?_⟩
  · rw [round, same.status, completed]
    rfl
  · have order : state'.logs.entries = [⟨"a", entriesOf "a" EchoJob.late⟩] :=
      List.perm_singleton.mp (logs ▸ same.logs)
    obtain ⟨_, -, -, rfl⟩ := Client.print_eq_some printed
    rw [order]
    rfl

end OneRequest

/-- A job that has ended before its CLI looks does not keep the CLI waiting. -/
theorem Wire.canLeave_of_ended_oneRequest :
    ∃ w, Reachable (step (compact 127)) (fun _ _ => True) start w ∧ w.CanLeave (compact 127) 0 := by
  obtain ⟨w, state, run, found, stored, completed, -⟩ := OneRequest.reaches_after
  refine ⟨w, run, canLeave_of_ended run found rfl ?_ ?_ stored ?_⟩
  · exact fun closed => by cases closed
  · rintro c following
    obtain rfl := (FollowerStage.following.inj following).2
    exact fun failed => by cases failed
  · rw [completed]
    exact fun running => by cases running

end There
