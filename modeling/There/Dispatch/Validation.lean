import There.Dispatch.Agreement
import There.Plan.Visitor

/-!
# What validation says about application

`plan validate` and `plan apply --dry` plan the task set and look up every member of
every group. The dispatch loop of `plan apply` looks up fewer members, and asks more
of them: its executor name must be known. Neither check looks at the name.
-/

namespace There

/-- The state of the CLI is what it has printed so far. -/
abbrev Printing (α : Type) : Type := EStateM Abort (List String) α

namespace Cli

def println (text : String) : Printing PUnit := modify (· ++ [text])

def planTasks (split : ShellSplit) (tasks : TaskSet) : Printing Plan :=
  match tasks.plan split with
  | .ok plan => pure plan
  | .error e => throw e

def inspectHostGroup (hosts : HashMap String Host) (groupName : String)
    (groupHosts : List String) : Printing PUnit := do
  println s!"*** group: {groupName}"
  forM groupHosts fun hostname =>
    match hosts.lookup hostname with
    | none => throw (.error (.msg s!"host not found: {hostname}"))
    | some host => println s!"**** {hostname}: {host.host}:{host.port} ({host.executor})"

/-- `subcommand_validate` on the parsed files. -/
def subcommandValidate (split : ShellSplit) (tasks : TaskSet) (hosts : HostConfig) :
    Printing PUnit := do
  let _ ← planTasks split tasks
  println "* plan is valid."
  println "** hosts:"
  forM hosts.groups.entries fun group => inspectHostGroup hosts.hosts group.1 group.2

/-- `subcommand_apply` with `--dry` on the parsed files. -/
def subcommandApplyDry (split : ShellSplit) (tasks : TaskSet) (hosts : HostConfig) :
    Printing PUnit := do
  let plan ← planTasks split tasks
  println s!"*** plan: {plan.name} ***\n"
  println "* metadata"
  println "** hosts:"
  forM hosts.groups.entries fun group => inspectHostGroup hosts.hosts group.1 group.2
  forM plan.blueprint fun task => do
    println (s!"** {task.name}: " ++ " ".intercalate task.command)
    forM task.ensures fun ensure => println ("*** " ++ ensure.debug)

end Cli

/-- The command returns `Ok`. -/
def Printing.Accepts (p : Printing PUnit) : Prop := (Effect.outcome (p [])).isOk

/-- Planning succeeds, and so does the dispatch loop of `plan apply`. -/
def Cli.ApplyStarts (split : ShellSplit) (tasks : TaskSet) (hosts : HostConfig) : Prop :=
  ∃ plan, tasks.plan split = .ok plan ∧ (Cli.dispatch plan hosts).Succeeds

/-- What either check accepts can be applied, whatever the order of the groups when
the host file is read again. -/
def ValidationCovers (split : ShellSplit) (tasks : TaskSet) (hosts hosts' : HostConfig) : Prop :=
  (Cli.subcommandValidate split tasks hosts).Accepts ∨
      (Cli.subcommandApplyDry split tasks hosts).Accepts →
    Cli.ApplyStarts split tasks hosts'

/-- A task applies to a host when it names the host itself or a group that lists it. -/
def Task.AppliesTo (task : Task) (host : String) (hosts : HostConfig) : Prop :=
  host ∈ task.hosts ∨ ∃ g ∈ hosts.groups.entries, g.1 ∈ task.hosts ∧ host ∈ g.2

/-- Every task can be planned, and every member of a group has a host entry. -/
structure Inspected (split : ShellSplit) (tasks : TaskSet) (hosts : HostConfig) : Prop where
  planned : ∀ t ∈ tasks.tasks, ¬ t.Panics split ∧ ¬ t.Rejected split
  listed : ∀ h ∈ hosts.members, h ∈ hosts.hosts

/-- The entry of every member that some task applies to names a known executor. -/
def ExecutorsKnown (tasks : TaskSet) (hosts : HostConfig) : Prop :=
  ∀ h ∈ hosts.members, (∃ t ∈ tasks.tasks, t.AppliesTo h hosts) →
    ∀ host ∈ hosts.hosts.lookup h, host.executor ∈ ["simple", "local", "ssh"]

section General

variable {split : ShellSplit} {tasks : TaskSet} {hosts hosts' : HostConfig}

theorem planTasks_succeedsIff :
    Effect.SucceedsIff (Cli.planTasks split tasks) (tasks.plan split).isOk := by
  rw [Cli.planTasks]
  cases tasks.plan split with
  | ok plan => simpa using Effect.SucceedsIff.pure plan
  | error e => simpa using Effect.SucceedsIff.throw e

theorem println_succeedsIff (text : String) : Effect.SucceedsIff (Cli.println text) True :=
  Effect.SucceedsIff.modify _

/-- A line that is printed first decides nothing. -/
theorem println_bind {α : Type} {text : String} {p : Printing α} {good : Prop}
    (rest : Effect.SucceedsIff p good) :
    Effect.SucceedsIff (Cli.println text >>= fun _ => p) good :=
  ((println_succeedsIff text).bind fun _ => rest).congr (iff_of_eq (true_and _))

theorem inspectHostGroup_succeedsIff (map : HashMap String Host) (groupName : String)
    (groupHosts : List String) :
    Effect.SucceedsIff (Cli.inspectHostGroup map groupName groupHosts)
      (∀ h ∈ groupHosts, h ∈ map) := by
  refine println_bind (.forM fun hostname => ?_)
  cases entry : map.lookup hostname with
  | none =>
      rw [eq_false (AList.lookup_eq_none.mp entry)]
      exact .throw _
  | some host =>
      rw [eq_true (AList.lookup_isSome.mp (by rw [entry]; rfl))]
      exact println_succeedsIff _

/-- The loop over the groups finds a host that has no entry, if there is one. -/
theorem inspectHostGroups_succeedsIff :
    Effect.SucceedsIff (forM hosts.groups.entries fun group =>
        Cli.inspectHostGroup hosts.hosts group.1 group.2)
      (∀ h ∈ hosts.members, h ∈ hosts.hosts) := by
  have each : ∀ group : (_ : String) × List String, Effect.SucceedsIff
      (Cli.inspectHostGroup hosts.hosts group.1 group.2) (∀ h ∈ group.2, h ∈ hosts.hosts) :=
    fun group => inspectHostGroup_succeedsIff hosts.hosts group.1 group.2
  refine (Effect.SucceedsIff.forM each).congr ?_
  simp only [HostConfig.members, List.mem_flatMap]
  constructor
  · rintro all h ⟨g, hg, hh⟩
    exact all g hg h hh
  · exact fun all g hg h hh => all h ⟨g, hg, hh⟩

/-- Printing the tasks of a plan cannot fail. -/
theorem printTasks_succeedsIff (plan : Plan) :
    Effect.SucceedsIff (forM plan.blueprint fun task => do
        Cli.println (s!"** {task.name}: " ++ " ".intercalate task.command)
        forM task.ensures fun ensure => Cli.println ("*** " ++ ensure.debug)) True := by
  have lines : ∀ ensures : List Ensure, Effect.SucceedsIff
      (forM ensures fun ensure => Cli.println ("*** " ++ ensure.debug)) True := fun ensures =>
    (Effect.SucceedsIff.forM fun ensure => println_succeedsIff _).congr (by simp)
  have each : ∀ task : PlannedTask, Effect.SucceedsIff (do
      Cli.println (s!"** {task.name}: " ++ " ".intercalate task.command)
      forM task.ensures fun ensure => Cli.println ("*** " ++ ensure.debug)) True :=
    fun task => println_bind (lines task.ensures)
  exact (Effect.SucceedsIff.forM each).congr (by simp)

theorem inspected_iff :
    Inspected split tasks hosts ↔
      (tasks.plan split).isOk ∧ ∀ h ∈ hosts.members, h ∈ hosts.hosts := by
  rw [TaskSet.plan_isOk]
  simp only [Task.planned_isOk]
  exact ⟨fun h => ⟨h.planned, h.listed⟩, fun h => ⟨h.1, h.2⟩⟩

/-- Both checks accept the same files. -/
theorem validate_accepts_iff :
    (Cli.subcommandValidate split tasks hosts).Accepts ↔ Inspected split tasks hosts := by
  rw [inspected_iff]
  exact planTasks_succeedsIff.bind
    (fun _ => println_bind (println_bind inspectHostGroups_succeedsIff)) []

theorem applyDry_accepts_iff :
    (Cli.subcommandApplyDry split tasks hosts).Accepts ↔ Inspected split tasks hosts := by
  rw [inspected_iff]
  have inspection : ∀ plan : Plan, Effect.SucceedsIff (do
      forM hosts.groups.entries fun group => Cli.inspectHostGroup hosts.hosts group.1 group.2
      forM plan.blueprint fun task => do
        Cli.println (s!"** {task.name}: " ++ " ".intercalate task.command)
        forM task.ensures fun ensure => Cli.println ("*** " ++ ensure.debug))
      (∀ h ∈ hosts.members, h ∈ hosts.hosts) := fun plan =>
    (inspectHostGroups_succeedsIff.bind fun _ => printTasks_succeedsIff plan).congr
      (iff_of_eq (and_true _))
  exact planTasks_succeedsIff.bind
    (fun plan => println_bind (println_bind (println_bind (inspection plan)))) []

/-- The tasks that apply to a host are those whose planned tasks do. -/
theorem exists_appliesTo_iff {plan : Plan} (planned : tasks.plan split = .ok plan) (h : String) :
    (∃ task ∈ plan.blueprint, task.AppliesTo h hosts) ↔
      ∃ t ∈ tasks.tasks, t.AppliesTo h hosts := by
  have blueprint := (TaskSet.plan_blueprint planned).2
  have alike : ∀ {t : Task} {task : PlannedTask}, t.planned split = .ok task →
      (task.AppliesTo h hosts ↔ t.AppliesTo h hosts) := fun ht => by
    rw [PlannedTask.AppliesTo, Task.AppliesTo, (Task.planned_eq_ok ht).1]
  constructor
  · rintro ⟨task, ht, applies⟩
    have listed : Except.ok task ∈ tasks.tasks.map (Task.planned split) := by
      rw [← blueprint]
      exact List.mem_map_of_mem ht
    obtain ⟨t, ht, ok⟩ := List.mem_map.mp listed
    exact ⟨t, ht, (alike ok).mp applies⟩
  · rintro ⟨t, ht, applies⟩
    have listed : t.planned split ∈ plan.blueprint.map .ok := by
      rw [blueprint]
      exact List.mem_map_of_mem ht
    obtain ⟨task, ht, ok⟩ := List.mem_map.mp listed
    exact ⟨task, ht, (alike ok.symm).mpr applies⟩

theorem namedBy_iff {executor : String} :
    (∃ kind : ExecutorType, kind.NamedBy executor) ↔ executor ∈ ["simple", "local", "ssh"] := by
  simp only [List.mem_cons, List.not_mem_nil, or_false]
  constructor
  · rintro ⟨kind, named⟩
    cases kind with
    | «local» => exact named.elim .inl (.inr ∘ .inl)
    | ssh => exact .inr (.inr named)
  · rintro (named | named | named)
    · exact ⟨.local, .inl named⟩
    · exact ⟨.local, .inr named⟩
    · exact ⟨.ssh, named⟩

/-- Files that pass inspection can be applied exactly when the executors are known. -/
theorem applyStarts_iff (same : hosts.SameFile hosts') (inspected : Inspected split tasks hosts) :
    Cli.ApplyStarts split tasks hosts' ↔ ExecutorsKnown tasks hosts := by
  obtain ⟨plan, planned⟩ : ∃ plan, tasks.plan split = .ok plan := by
    have ok := (inspected_iff.mp inspected).1
    cases planned : tasks.plan split with
    | ok plan => exact ⟨plan, rfl⟩
    | error e => simp [planned] at ok
  have starts : Cli.ApplyStarts split tasks hosts' ↔ (Cli.dispatch plan hosts').Succeeds := by
    constructor
    · rintro ⟨_, h, success⟩
      cases planned.symm.trans h
      exact success
    · exact fun success => ⟨plan, planned, success⟩
  rw [starts, Cli.dispatch_eq, ← succeeds_congr same, Cli.succeeds_iff]
  constructor
  · intro all h member applies host entry
    obtain ⟨host', entry', named⟩ := all h ⟨member, (exists_appliesTo_iff planned h).mpr applies⟩
    obtain rfl : host' = host := Option.some.inj (entry'.symm.trans entry)
    exact namedBy_iff.mp named
  · rintro known h ⟨member, applies⟩
    obtain ⟨host, entry⟩ :=
      Option.isSome_iff_exists.mp (AList.lookup_isSome.mpr (inspected.listed h member))
    exact ⟨host, entry, namedBy_iff.mpr
      (known h member ((exists_appliesTo_iff planned h).mp applies) host entry)⟩

end General

/-- Validation covers application exactly when files that pass inspection name only
executors that the dispatch loop knows, for the hosts that have something to do. -/
theorem validationCovers_iff (split : ShellSplit) (tasks : TaskSet) (hosts hosts' : HostConfig)
    (same : hosts.SameFile hosts') :
    ValidationCovers split tasks hosts hosts' ↔
      (Inspected split tasks hosts → ExecutorsKnown tasks hosts) := by
  rw [ValidationCovers, validate_accepts_iff, applyDry_accepts_iff, or_self]
  exact imp_congr_right fun inspected => applyStarts_iff same inspected

namespace MixedExecutors

/-- A task set whose one line is a single word, aimed at two groups. -/
def tasks : TaskSet := ⟨"test plan", [.command "test command" "date" ["web", "db"]]⟩

def oneWord : ShellSplit := fun line => .ok [line]

end MixedExecutors

theorem validationCovers_local :
    ValidationCovers MixedExecutors.oneWord MixedExecutors.tasks
      (MixedExecutors.hosts "ssh" "local") (MixedExecutors.reordered "ssh" "local") := by
  have known : ∀ e ∈ (MixedExecutors.hosts "ssh" "local").hosts.entries,
      e.2.executor ∈ ["simple", "local", "ssh"] := by decide
  refine (validationCovers_iff _ _ _ _ (MixedExecutors.sameFile "ssh" "local")).mpr fun _ => ?_
  intro h _ _ host entry
  exact known ⟨h, host⟩ (AList.mem_lookup_iff.mp entry)

/-- Both checks accept an executor name that the dispatch loop refuses. -/
theorem not_validationCovers :
    ¬ ValidationCovers MixedExecutors.oneWord MixedExecutors.tasks
      (MixedExecutors.hosts "ssh" "docker") (MixedExecutors.hosts "ssh" "docker") := by
  intro covers
  have accepted : (Cli.subcommandValidate MixedExecutors.oneWord MixedExecutors.tasks
      (MixedExecutors.hosts "ssh" "docker")).Accepts := rfl
  obtain ⟨plan, planned, success⟩ := covers (.inl accepted)
  cases planned
  cases success

end There
