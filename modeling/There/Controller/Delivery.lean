import There.Controller.Server

/-!
# End-to-end delivery of logs

A log line goes from the executor through a bounded channel to a reader, from there
into the stored state of the job, with the next snapshot to the client, and to the
terminal. At every moment the lines an executor has sunk are those stored for its
host, followed by those its reader holds, followed by those still queued; and the
lines the client has printed are the first of those stored.

A job is completed only when all its futures have returned, so by then nothing is
held or queued. The snapshot with which the client leaves its loop is taken later
still, and the same round prints what is new in it.

Each host has to be dispatched once: two futures of one host would append to the
same list.
-/

namespace There

open Concurrent

/-- Log lines as the entries of a host. -/
def entriesOf (hostname : String) (logs : Logs) : List LogEntry :=
  logs.map fun log => { hostname, log }

@[simp] theorem entriesOf_nil (hostname : String) : entriesOf hostname [] = [] := rfl

@[simp] theorem entriesOf_append (hostname : String) (logs logs' : Logs) :
    entriesOf hostname (logs ++ logs') = entriesOf hostname logs ++ entriesOf hostname logs' :=
  List.map_append

theorem hostname_of_mem_entriesOf {hostname : String} {logs : Logs} {e : LogEntry}
    (h : e ∈ entriesOf hostname logs) : e.hostname = hostname := by
  obtain ⟨log, -, rfl⟩ := List.mem_map.mp h
  rfl

/-- The log lines that an executor sinks before it ends its stream; none if there is
no key pair to build it with. -/
def World.lines (w : World) (d : Dispatch) : Logs :=
  match w.key with
  | .ok _ => logLines (messages (Effect.finalState
      (SshExecutor.execute d.host d.hostname d.plan w.server (.fresh none))).events)
  | .error _ => []

theorem Apply.lines_eq (a : Apply) : a.world.lines a.dispatch = logLines a.expected := by
  rw [World.lines, expected]
  cases a.world.key <;> rfl

/-- A future that has returned has left nothing undelivered, unless it never had
anything to deliver. -/
theorem Apply.Inv.delivered {a : Apply} (inv : a.Inv) (gone : a.stage.gone) :
    a.sunk = a.world.lines a.dispatch ∧ (a.undelivered = [] ∨ a.sunk = []) := by
  have all : a.sunk = logLines a.expected := by
    rw [sunk, inv.ran (Stage.ran_of_gone gone)]
  refine ⟨by rw [all, lines_eq], ?_⟩
  rcases inv.gone gone with stopped | none
  · left
    obtain ⟨-, drained⟩ := inv.finished stopped
    simp [undelivered, stopped, drained]
  · right
    rw [all, none, logLines_nil]

namespace System

variable {hostname hostname' : String} {logs : Logs} {state : JobState}

theorem entries_appendLogs : (appendLogs hostname logs state).entries hostname =
    state.entries hostname ++ entriesOf hostname logs := by
  rw [JobState.entries, appendLogs, AList.lookup_insert]
  rfl

theorem entries_appendLogs_ne (ne : hostname' ≠ hostname) :
    (appendLogs hostname logs state).entries hostname' = state.entries hostname' := by
  rw [JobState.entries, appendLogs, AList.lookup_insert_ne ne]
  rfl

/-- A log only grows. -/
theorem entries_prefix_appendLogs :
    state.entries hostname' <+: (appendLogs hostname logs state).entries hostname' := by
  by_cases here : hostname' = hostname
  · subst here
    rw [entries_appendLogs]
    exact List.prefix_append _ _
  · rw [entries_appendLogs_ne here]

end System

namespace Job

/-- The log of each host is complete: for a host that was dispatched it is what the
executor has sunk, each line once and in order, and for any other host it is empty. -/
structure LogComplete (job : Job) (log : String → List LogEntry) : Prop where
  pushed : ∀ i d, (Controller.dispatch job.plan job.hosts).pushes[i]? = some d →
    log d.hostname = entriesOf d.hostname ((job.world i).lines d)
  others : ∀ h, (∀ d ∈ (Controller.dispatch job.plan job.hosts).pushes, d.hostname ≠ h) →
    log h = []

/-- What the stored state has to do with the futures of the job. -/
structure Logged (job : Job) (state : JobState) : Prop where
  /-- What is sunk has been appended, or is still to be. -/
  account : ∀ (i : Nat) (a : Apply), job.applies[i]? = some a →
    state.entries a.dispatch.hostname ++ entriesOf a.dispatch.hostname a.undelivered =
      entriesOf a.dispatch.hostname a.sunk
  others : ∀ h, (∀ a : Apply, a ∈ job.applies → a.dispatch.hostname ≠ h) → state.entries h = []
  completed : state.status = .completed → job.stage = .recorded .completed

/-- What the client has to do with the stored state. -/
structure Follows (job : Job) (state : JobState) : Prop where
  shows : ∀ h, job.client.Shows h (state.entries h)
  /-- A snapshot is a state that the job had. -/
  snapshot : ∀ snap, job.client.stage = .holding snap → ∀ h, snap.entries h <+: state.entries h

/-- What the client knows by itself. -/
structure Informed (job : Job) : Prop where
  own : ∀ snap, job.client.stage = .holding snap →
    ∀ h, ∀ e ∈ snap.entries h, e.hostname = h
  shows : ∀ snap, job.client.stage = .holding snap → ∀ h, job.client.Shows h (snap.entries h)
  completed : ∀ snap, job.client.stage = .holding snap → snap.status = .completed →
    job.LogComplete snap.entries
  left : job.client.stage = .left .completed → job.LogComplete job.client.printedFor

/-- The invariant of a job and of its stored state, if it has one. -/
structure Delivery (job : Job) (stored : Option JobState) : Prop where
  inv : job.Inv
  idle : job.stage = .spawned → job.applies = []
  informed : job.Informed
  logged : ∀ state, stored = some state → job.Logged state
  follows : ∀ state, stored = some state → job.Follows state

variable {job job' : Job} {state : JobState}

/-- If every host is a member once, no two futures are of one host. -/
theorem Inv.index_unique (inv : job.Inv) (once : job.hosts.members.Nodup) {i k : Nat}
    {a b : Apply} (here : job.applies[i]? = some a) (there : job.applies[k]? = some b)
    (same : a.dispatch.hostname = b.dispatch.hostname) : i = k := by
  set names := (Controller.dispatch job.plan job.hosts).pushes.map Dispatch.hostname
  have distinct : names.Nodup := by
    simp only [names]
    rw [Controller.dispatch_eq, pushes_hostname]
    exact once.sublist (List.filter_sublist.trans (List.takeWhile_sublist _))
  have hi := (inv.origin i a here).2
  have hk := (inv.origin k b there).2
  have lt : i < names.length := by
    rw [List.length_map]
    exact (List.getElem?_eq_some_iff.mp hi).1
  apply (List.getElem?_inj lt distinct).mp
  rw [List.getElem?_map, List.getElem?_map, hi, hk]
  exact congrArg some same

/-- A stored entry belongs to the host it is stored for. -/
theorem Logged.own (logged : job.Logged state) (h : String) :
    ∀ e ∈ state.entries h, e.hostname = h := by
  intro e member
  by_cases dispatched : ∃ a ∈ job.applies, a.dispatch.hostname = h
  · obtain ⟨a, ha, rfl⟩ := dispatched
    obtain ⟨i, here⟩ := List.getElem?_of_mem ha
    have sunk : e ∈ entriesOf a.dispatch.hostname a.sunk := by
      rw [← logged.account i a here]
      exact List.mem_append_left _ member
    exact hostname_of_mem_entriesOf sunk
  · have none := logged.others h fun a ha same => dispatched ⟨a, ha, same⟩
    rw [none] at member
    cases member

/-- The stored log of a completed job is complete. -/
theorem Logged.complete (logged : job.Logged state) (inv : job.Inv)
    (completed : job.stage = .recorded .completed) : job.LogComplete state.entries where
  pushed := by
    intro i d pushed
    have begun := inv.begun (by rw [completed]; rfl)
    have lt : i < job.applies.length := by
      rw [begun]
      exact (List.getElem?_eq_some_iff.mp pushed).1
    have here : job.applies[i]? = some job.applies[i] := List.getElem?_eq_getElem lt
    obtain ⟨world, dispatch⟩ := inv.origin i _ here
    obtain rfl : d = job.applies[i].dispatch := Option.some.inj (pushed.symm.trans dispatch)
    have member : job.applies[i] ∈ job.applies := List.getElem_mem lt
    have gone : job.applies[i].stage.gone := by
      rw [inv.settled (by rw [completed]; rfl) _ member]
      rfl
    obtain ⟨all, nothing | none⟩ := (inv.applies _ member).delivered gone
    · rw [← world, ← all, ← logged.account i _ here, nothing, entriesOf_nil, List.append_nil]
    · have account := logged.account i _ here
      rw [none, entriesOf_nil, List.append_eq_nil_iff] at account
      rw [← world, ← all, none, entriesOf_nil, account.1]
  others := by
    intro h absent
    refine logged.others h fun a ha same => ?_
    obtain ⟨i, here⟩ := List.getElem?_of_mem ha
    exact absent a.dispatch (List.mem_of_getElem? (inv.origin i a here).2) same

/-- The lines that a future sinks, and those that are appended for it, keep the account
of its host and do not touch any other. -/
theorem Logged.set {state' : JobState} (logged : job.Logged state) (inv : job.Inv)
    (once : job.hosts.members.Nodup) {i : Nat} {a a' : Apply} (here : job.applies[i]? = some a)
    (same : a'.dispatch = a.dispatch) {lines appended : Logs} (sunk : a'.sunk = a.sunk ++ lines)
    (left : a.undelivered ++ lines = appended ++ a'.undelivered)
    (grown : state'.entries a.dispatch.hostname =
      state.entries a.dispatch.hostname ++ entriesOf a.dispatch.hostname appended)
    (others : ∀ h, h ≠ a.dispatch.hostname → state'.entries h = state.entries h)
    (status : state'.status = state.status) :
    Logged { job with applies := job.applies.set i a' } state' where
  account := by
    intro k b there
    rw [List.getElem?_set] at there
    split at there
    · rename_i at'
      subst at'
      obtain rfl : a' = b := by
        split at there
        · exact Option.some.inj there
        · cases there
      rw [same]
      calc state'.entries a.dispatch.hostname ++ entriesOf a.dispatch.hostname a'.undelivered
          = state.entries a.dispatch.hostname ++
              entriesOf a.dispatch.hostname (a.undelivered ++ lines) := by
            rw [grown, left, entriesOf_append, List.append_assoc]
        _ = entriesOf a.dispatch.hostname a.sunk ++ entriesOf a.dispatch.hostname lines := by
            rw [entriesOf_append, ← List.append_assoc, logged.account i a here]
        _ = entriesOf a.dispatch.hostname a'.sunk := by rw [sunk, entriesOf_append]
    · rename_i elsewhere
      have ne : b.dispatch.hostname ≠ a.dispatch.hostname := fun collide =>
        elsewhere (inv.index_unique once here there collide.symm)
      rw [others _ ne]
      exact logged.account k b there
  others := by
    intro h absent
    have known : ∀ b ∈ job.applies, b.dispatch.hostname ≠ h := by
      intro b hb
      obtain ⟨k, there⟩ := List.getElem?_of_mem hb
      by_cases at' : k = i
      · subst at'
        obtain rfl : a = b := Option.some.inj (here.symm.trans there)
        rw [← same]
        exact absent a' (List.mem_set (List.getElem?_eq_some_iff.mp here).1 a')
      · apply absent b
        apply List.mem_of_getElem?
        rw [List.getElem?_set_ne (Ne.symm at')]
        exact there
    rw [others h (known a (List.mem_of_getElem? here)).symm]
    exact logged.others h known
  completed := fun completed => logged.completed (status.symm.trans completed)

/-- As long as a line is only sunk or held back, the stored state need not change. -/
theorem Logged.sinks (logged : job.Logged state) (inv : job.Inv) (once : job.hosts.members.Nodup)
    {i : Nat} {a a' : Apply} (here : job.applies[i]? = some a) (same : a'.dispatch = a.dispatch)
    {lines : Logs} (sunk : a'.sunk = a.sunk ++ lines)
    (left : a'.undelivered = a.undelivered ++ lines) :
    Logged { job with applies := job.applies.set i a' } state := by
  have left : a.undelivered ++ lines = [] ++ a'.undelivered := left.symm
  exact logged.set inv once here same sunk left (by simp) (fun _ _ => rfl) rfl

/-- An append moves a batch from the reader to the stored state. -/
theorem Logged.append (logged : job.Logged state) (inv : job.Inv) (once : job.hosts.members.Nodup)
    {i : Nat} {a a' : Apply} {logs : Logs} (here : job.applies[i]? = some a)
    (appended : a.append = some (logs, a')) :
    Logged { job with applies := job.applies.set i a' }
      (System.appendLogs a.dispatch.hostname logs state) := by
  obtain ⟨sunk, left⟩ := Apply.append_account appended
  have sunk : a'.sunk = a.sunk ++ [] := by rw [sunk, List.append_nil]
  have left : a.undelivered ++ [] = logs ++ a'.undelivered := by rw [left, List.append_nil]
  exact logged.set inv once here (Apply.append_same appended).1 sunk left System.entries_appendLogs
    (fun _ ne => System.entries_appendLogs_ne ne) rfl

/-- A state that has grown is followed as it was before. -/
theorem Follows.grow {state' : JobState} (follows : job.Follows state)
    (grown : ∀ h, state.entries h <+: state'.entries h) : job.Follows state' where
  shows := by
    intro h
    obtain ⟨more, grown⟩ := grown h
    rw [← grown]
    exact (follows.shows h).append more
  snapshot := fun snap holding h => (follows.snapshot snap holding h).trans (grown h)

theorem LogComplete.same {log : String → List LogEntry} (complete : job.LogComplete log)
    (same : job'.plan = job.plan ∧ job'.hosts = job.hosts ∧ job'.world = job.world) :
    job'.LogComplete log := by
  obtain ⟨plan, hosts, world⟩ := same
  constructor
  · rw [plan, hosts, world]
    exact complete.pushed
  · rw [plan, hosts]
    exact complete.others

/-- Whatever does not touch the client leaves it as informed as it was. -/
theorem Informed.same (informed : job.Informed)
    (same : job'.plan = job.plan ∧ job'.hosts = job.hosts ∧ job'.world = job.world)
    (client : job'.client = job.client) : job'.Informed := by
  constructor
  · rw [client]
    exact informed.own
  · rw [client]
    exact informed.shows
  · rw [client]
    exact fun snap holding completed => (informed.completed snap holding completed).same same
  · rw [client]
    exact fun left => (informed.left left).same same

/-- A client without a snapshot that has not left its loop knows nothing. -/
theorem Informed.of_stage (empty : ∀ snap, job.client.stage ≠ .holding snap)
    (stays : job.client.stage ≠ .left .completed) : job.Informed :=
  ⟨fun snap holding => absurd holding (empty snap), fun snap holding => absurd holding (empty snap),
    fun snap holding => absurd holding (empty snap), fun left => absurd left stays⟩

section Print

variable {order : List (Sigma fun _ : String => List LogEntry)} {client : Client} {snap : JobState}

/-- After a round everything in the snapshot has been printed, and nothing else. -/
theorem Informed.printed (informed : job.Informed) (holding : job.client.stage = .holding snap)
    (perm : order.Perm snap.logs.entries) (h : String) :
    (order.foldl Client.printHost job.client).printedFor h = snap.entries h ∧
      (order.foldl Client.printHost job.client).offset h = (snap.entries h).length :=
  Client.foldl_printHost_complete perm (informed.own snap holding) (informed.shows snap holding) h

theorem Informed.print (informed : job.Informed) (h : job.client.print order = some client) :
    Informed { job with client } := by
  obtain ⟨snap, holding, perm, rfl⟩ := Client.print_eq_some h
  have round : ∀ snap', Client.afterRound snap.status ≠ .holding snap' := by
    intro snap'
    cases snap.status <;> simp [Client.afterRound]
  refine ⟨fun snap' held => absurd held (round snap'), fun snap' held => absurd held (round snap'),
    fun snap' held => absurd held (round snap'), fun left => ?_⟩
  have completed : snap.status = .completed := by
    revert left
    cases snap.status <;> simp [Client.afterRound]
  have all : (order.foldl Client.printHost job.client).printedFor = snap.entries :=
    funext fun host => (informed.printed holding perm host).1
  have complete := informed.completed snap holding completed
  rw [← all] at complete
  exact complete.same ⟨rfl, rfl, rfl⟩

theorem Follows.print (follows : job.Follows state) (informed : job.Informed)
    (h : job.client.print order = some client) : Follows { job with client } state := by
  obtain ⟨snap, holding, perm, rfl⟩ := Client.print_eq_some h
  refine ⟨fun host => ⟨?_, ?_⟩, fun snap' held => ?_⟩
  · show (order.foldl Client.printHost job.client).printedFor host =
      (state.entries host).take ((order.foldl Client.printHost job.client).offset host)
    obtain ⟨printed, offset⟩ := informed.printed holding perm host
    rw [printed, offset]
    exact List.prefix_iff_eq_take.mp (follows.snapshot snap holding host)
  · show (order.foldl Client.printHost job.client).offset host ≤ _
    rw [(informed.printed holding perm host).2]
    exact (follows.snapshot snap holding host).length_le
  · revert held
    show Client.afterRound snap.status = _ → _
    cases snap.status <;> simp [Client.afterRound]

end Print

section Evolves

variable {stored : Option JobState} {write : JobState → JobState}

/-- The stage of a job whose status has not been recorded matters to nobody here. -/
theorem Logged.stage (logged : job.Logged state) {stage : JobStage}
    (pending : job.stage ≠ .recorded .completed) : Logged { job with stage } state :=
  ⟨logged.account, logged.others, fun completed => absurd (logged.completed completed) pending⟩

/-- Nothing has been sunk for the futures that have just been pushed. -/
theorem Logged.begins (logged : job.Logged state) (spawned : job.stage = .spawned)
    (idle : job.applies = []) :
    Logged { job with stage := .draining, applies := job.pushed } state := by
  have nothing : ∀ h, state.entries h = [] := fun h => logged.others h (by simp [idle])
  refine ⟨fun i a there => ?_, fun h _ => nothing h, fun completed => ?_⟩
  · simp only [pushed, List.getElem?_mapIdx, Option.map_eq_some_iff] at there
    obtain ⟨d, -, rfl⟩ := there
    rw [nothing]
    rfl
  · have := logged.completed completed
    simp [spawned] at this

/-- Whatever touches neither the client nor the stored state leaves one following the
other. -/
theorem Follows.same (follows : job.Follows state) (client : job'.client = job.client) :
    job'.Follows state := by
  constructor
  · rw [client]
    exact follows.shows
  · rw [client]
    exact follows.snapshot

/-- A step that leaves the client alone and lets the stored logs grow at most. -/
theorem Delivery.writes (delivery : job.Delivery stored) (inv : job'.Inv)
    (same : job'.plan = job.plan ∧ job'.hosts = job.hosts ∧ job'.world = job.world)
    (client : job'.client = job.client) (idle : job'.stage = .spawned → job'.applies = [])
    (grown : ∀ state h, state.entries h <+: (write state).entries h)
    (logged : ∀ state, job.Logged state → job'.Logged (write state)) :
    job'.Delivery (stored.map write) where
  inv := inv
  idle := idle
  informed := delivery.informed.same same client
  logged := by
    intro state' written
    obtain ⟨state, found, rfl⟩ := Option.map_eq_some_iff.mp written
    exact logged state (delivery.logged state found)
  follows := by
    intro state' written
    obtain ⟨state, found, rfl⟩ := Option.map_eq_some_iff.mp written
    exact ((delivery.follows state found).grow (grown state)).same client

theorem Delivery.moves (delivery : job.Delivery stored) (once : job.hosts.members.Nodup)
    (h : job.Moves job') : job'.Delivery (stored.map fun state => state) := by
  have inv := delivery.inv.moves h
  have same := h.same
  have still : ∀ (state : JobState) h, state.entries h <+: state.entries h :=
    fun _ _ => List.prefix_rfl
  cases h with
  | fails spawned _ =>
      refine delivery.writes inv same rfl ?_ still ?_
      · exact fun h => by cases h
      · exact fun _ logged => logged.stage (by simp [spawned])
  | begins spawned _ =>
      refine delivery.writes inv same rfl ?_ still ?_
      · exact fun h => by cases h
      · exact fun _ logged => logged.begins spawned (delivery.idle spawned)
  | @apply i a a' here moved =>
      obtain ⟨lines, sunk, left⟩ := moved.account
      refine delivery.writes inv same rfl ?_ still ?_
      · exact fun spawned => by simp [delivery.idle spawned] at here
      · exact fun _ logged => logged.sinks delivery.inv once here moved.same.1 sunk left
  | @collect i a a' result draining here taken =>
      obtain ⟨sunk, left⟩ := Apply.collect_account taken
      refine delivery.writes inv same rfl ?_ still ?_
      · exact fun spawned => by simp [draining] at spawned
      · intro _ logged
        have set : Logged { job with applies := job.applies.set i a' } _ :=
          logged.sinks delivery.inv once here (Apply.collect_same taken).1
            (sunk.trans (List.append_nil _).symm) (left.trans (List.append_nil _).symm)
        exact ⟨set.account, set.others, set.completed⟩
  | concludes draining _ =>
      refine delivery.writes inv same rfl ?_ still ?_
      · exact fun h => by cases h
      · exact fun _ logged => logged.stage (by simp [draining])
  | print printed =>
      rw [Option.map_id_fun']
      refine ⟨inv, delivery.idle, delivery.informed.print printed, fun state here => ?_,
        fun state here => (delivery.follows state here).print delivery.informed printed⟩
      have logged := delivery.logged state here
      exact ⟨logged.account, logged.others, logged.completed⟩

/-- A snapshot is followed like the state it is of, and that of a completed job holds the
complete log. -/
theorem Delivery.answer (delivery : job.Delivery (some state))
    (inv : Inv { job with client := { job.client with stage := .holding state } }) :
    Delivery { job with client := { job.client with stage := .holding state } } (some state) := by
  have logged := delivery.logged state rfl
  have shows := (delivery.follows state rfl).shows
  refine ⟨inv, delivery.idle, ⟨?_, ?_, ?_, fun left => by cases left⟩, ?_, ?_⟩
  · rintro _ ⟨⟩
    exact logged.own
  · rintro _ ⟨⟩ h
    exact ⟨(shows h).printed, (shows h).offset_le⟩
  · rintro _ ⟨⟩ completed
    exact (logged.complete delivery.inv (logged.completed completed)).same ⟨rfl, rfl, rfl⟩
  · rintro _ ⟨⟩
    exact ⟨logged.account, logged.others, logged.completed⟩
  · rintro _ ⟨⟩
    refine ⟨fun h => ⟨(shows h).printed, (shows h).offset_le⟩, ?_⟩
    rintro _ ⟨⟩ h
    exact List.prefix_rfl

/-- Whatever happens to a job, its log lines are accounted for. -/
theorem Delivery.evolves (delivery : job.Delivery stored) (once : job.hosts.members.Nodup)
    (h : job.Evolves stored job' write) : job'.Delivery (stored.map write) := by
  have inv := delivery.inv.evolves h
  have same := h.same
  cases h with
  | moves moved => exact delivery.moves once moved
  | append here appended =>
      apply delivery.writes inv same rfl
      · exact fun spawned => by simp [delivery.idle spawned] at here
      · exact fun _ _ => System.entries_prefix_appendLogs
      · exact fun _ logged => logged.append delivery.inv once here appended
  | record _ =>
      apply delivery.writes inv same rfl
      · exact fun h => by cases h
      · exact fun _ _ => List.prefix_rfl
      · exact fun _ logged =>
          ⟨logged.account, logged.others, fun completed => congrArg JobStage.recorded completed⟩
  | answer polling found =>
      subst found
      exact delivery.answer inv
  | panic polling missing =>
      subst missing
      have informed : Informed { job with client := { job.client with stage := .failed } } :=
        .of_stage (fun _ h => by cases h) fun h => by cases h
      exact ⟨inv, delivery.idle, informed, fun _ h => (by cases h), fun _ h => (by cases h)⟩

theorem delivery_new (plan : Plan) (hosts : HostConfig) (world : Nat → World) :
    Delivery { plan, hosts, world } (some ⟨∅, plan, hosts, .running⟩) where
  inv := inv_new plan hosts world
  idle := fun _ => rfl
  informed := .of_stage (fun _ h => by cases h) fun h => by cases h
  logged := by
    intro state here
    obtain rfl := Option.some.inj here
    exact ⟨by simp, fun _ _ => rfl, fun h => by cases h⟩
  follows := by
    intro state here
    obtain rfl := Option.some.inj here
    exact ⟨fun h => ⟨rfl, Nat.le_refl 0⟩, fun _ h => by cases h⟩

/-- The client knows what it knows also when the job is evicted. -/
theorem Delivery.evicted (delivery : job.Delivery stored) : job.Delivery none where
  inv := delivery.inv
  idle := delivery.idle
  informed := delivery.informed
  logged := fun _ h => by cases h
  follows := fun _ h => by cases h

end Evolves

end Job

/-- In every run, when the client of a job has seen the status `Completed` and has left
its loop, it has printed for each host the lines that the executor of the host has
sunk, each once and in order, provided that no host is a member twice. -/
theorem printed_of_completed {s : System}
    (run : Reachable System.step (fun _ _ => True) System.start s) (id : String) (job : Job)
    (found : s.job id = some job) (once : job.hosts.members.Nodup)
    (left : job.client.stage = .left .completed) : job.LogComplete job.client.printedFor := by
  have delivery : job.hosts.members.Nodup → job.Delivery (s.jobs.get id) := by
    refine System.job_invariant (J := fun job stored => job.hosts.members.Nodup →
      job.Delivery stored) ?_ ?_ ?_ run id job found
    · exact fun _ _ plan hosts world _ _ _ => Job.delivery_new plan hosts world
    · intro job stored job' write evolved delivery once
      rw [evolved.same.2.1] at once
      exact (delivery once).evolves once evolved
    · exact fun _ _ _ _ _ _ delivery once => (delivery once).evicted
  exact (delivery once).informed.left left

namespace EchoJob

/-- A host that has the executable and runs the command. -/
def world : World where
  key := .ok ⟨⟩
  server := {
    connect := .ok ⟨⟩
    authenticate := .ok true
    task := fun _ => {
      check := fun _ => ⟨.ok ⟨⟩, .ok ⟨⟩, [.exitStatus 0]⟩
      command := ⟨.ok ⟨⟩, .ok ⟨⟩, [.data "hi\n".toUTF8, .exitStatus 0]⟩ } }

def early : Logs := ["* steps: 1", "** executing task: test command"]

def late : Logs := early ++
  ["* ensuring ExeExists \x7b exe: \"echo\" \x7d", "* executing task: test command", "hi", "", "",
    "*** finished applying plan: test plan -> a (1/1)"]

/-- A round of the client, which sees the log of the only host. -/
def round (logs : Logs) : List System.Action :=
  [.poll "job", .job "job" (.print [⟨"a", entriesOf "a" logs⟩])]

def sends (n : Nat) : List System.Action := List.replicate n (.job "job" (.apply 0 .send))

def reads (n : Nat) : List System.Action :=
  (List.replicate n [.job "job" (.apply 0 .source), .append "job" 0 []]).flatten

/-- The client polls while the job runs and after it has finished. -/
def actions : List System.Action :=
  [.runPlan "job" OneHost.plan OneHost.hosts (fun _ => world) [], .job "job" .begin,
    .job "job" (.apply 0 .start), .job "job" (.apply 0 .loadKey)] ++
  sends 3 ++ reads 2 ++ round early ++ sends 5 ++ [.job "job" (.apply 0 .finishExecute)] ++
  reads 5 ++ [.job "job" (.apply 0 .source), .job "job" (.apply 0 .join),
    .job "job" (.collect 0), .job "job" .conclude, .record "job" []] ++ round late

def after : Option System := Reachable.run System.step System.start actions

/-- The client has left its loop with the final status. -/
def leftCompleted : ClientStage → Bool
  | .left .completed => true
  | _ => false

theorem leftCompleted_iff {stage : ClientStage} :
    leftCompleted stage ↔ stage = .left .completed := by
  cases stage with
  | left status => cases status <;> simp [leftCompleted]
  | _ => simp [leftCompleted]

end EchoJob

/-- The client of a job that has run leaves its loop with the complete log. -/
theorem printed_of_completed_echo : ∃ s job, EchoJob.after = some s ∧ s.job "job" = some job ∧
    job.client.printed ≠ [] ∧ job.LogComplete job.client.printedFor := by
  have leaves : EchoJob.after.any fun s => (s.job "job").any fun job =>
      EchoJob.leftCompleted job.client.stage && job.client.printed ≠ [] &&
        job.hosts.members.Nodup := by decide +kernel
  obtain ⟨s, ran, leaves⟩ := (Option.any_eq_true _ _).mp leaves
  obtain ⟨job, found, leaves⟩ := (Option.any_eq_true _ _).mp leaves
  rw [Bool.and_eq_true, Bool.and_eq_true, decide_eq_true_eq, decide_eq_true_eq] at leaves
  obtain ⟨⟨left, printed⟩, once⟩ := leaves
  have stage := EchoJob.leftCompleted_iff.mp left
  have run := Reachable.start.run_of_forall (fun _ _ _ => trivial) ran
  exact ⟨s, job, ran, found, printed, printed_of_completed run "job" job found once stage⟩

end There
