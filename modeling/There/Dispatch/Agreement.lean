import There.Dispatch.Coverage
import There.Plan.Selection

/-!
# Two dispatches of one host file

The CLI and the controller each read the host file into hash maps of their own, so
they may visit the groups in different orders. The order decides which futures are
pushed first, and after a failure which ones are pushed at all; it decides nothing
else.

The controller's copy of the loop leaves out the executor name. The two loops start
the same futures exactly when no host with something to do names another executor
than `ssh`, or when a host is missing and both fail.
-/

namespace There

/-- The two maps of a host file, read twice. -/
structure HostConfig.SameFile (hosts hosts' : HostConfig) : Prop where
  hostMap : hosts.hosts.entries.Perm hosts'.hosts.entries
  groupMap : hosts.groups.entries.Perm hosts'.groups.entries

namespace HostConfig.SameFile

variable {hosts hosts' : HostConfig}

theorem lookup (same : hosts.SameFile hosts') (hostname : String) :
    hosts.hosts.lookup hostname = hosts'.hosts.lookup hostname :=
  AList.perm_lookup same.hostMap

theorem members (same : hosts.SameFile hosts') : hosts.members.Perm hosts'.members :=
  List.Perm.flatMap_right _ same.groupMap

/-- The plan of a host does not depend on the order of the groups. -/
theorem planForHost (same : hosts.SameFile hosts') (plan : Plan) (hostname : String) :
    plan.planForHost hostname hosts = plan.planForHost hostname hosts' :=
  Plan.planForHost_perm same.groupMap

theorem select (same : hosts.SameFile hosts') (executorType : Host → Except Report ExecutorType)
    (plan : Plan) (hostname : String) :
    select executorType plan hosts hostname = select executorType plan hosts' hostname := by
  simp only [There.select, same.planForHost plan hostname, same.lookup hostname]

end HostConfig.SameFile

/-- The executor that the executor field of a host entry names. -/
def ExecutorType.NamedBy (executor : String) : ExecutorType → Prop
  | .local => executor = "simple" ∨ executor = "local"
  | .ssh => executor = "ssh"

theorem Cli.executorType_eq_ok {host : Host} {kind : ExecutorType} :
    Cli.executorType host = .ok kind ↔ kind.NamedBy host.executor := by
  rw [executorType]
  split <;> cases kind <;> simp_all [ExecutorType.NamedBy]

/-- A member of a group that some task of the plan applies to. -/
structure Targeted (plan : Plan) (hosts : HostConfig) (hostname : String) : Prop where
  member : hostname ∈ hosts.members
  task : ∃ task ∈ plan.blueprint, task.AppliesTo hostname hosts

/-- Both loops end well and start the same futures, each with the executor that its
host entry names. -/
structure StartAlike (cli controller : Dispatching PUnit) : Prop where
  cliSucceeds : cli.Succeeds
  controllerSucceeds : controller.Succeeds
  perm : cli.pushes.Perm controller.pushes
  kind : ∀ d ∈ controller.pushes, d.executorType.NamedBy d.host.executor

/-- Both dispatchers fail, or both start the same futures. -/
def DispatchAlike (cli controller : Dispatching PUnit) : Prop :=
  ¬ cli.Succeeds ∧ ¬ controller.Succeeds ∨ StartAlike cli controller

section General

variable {executorType : Host → Except Report ExecutorType} {plan : Plan}
variable {hosts hosts' : HostConfig}

/-- A dispatch succeeds when every targeted member has an entry, and an executor is
chosen for the entry. -/
theorem succeeds_iff_targeted :
    (dispatchWith executorType plan hosts).Succeeds ↔
      ∀ h, Targeted plan hosts h →
        ∃ host ∈ hosts.hosts.lookup h, (executorType host).isOk := by
  rw [succeeds_dispatchWith]
  constructor
  · rintro all h ⟨member, task⟩
    exact (all h member).resolve_left (Plan.planForHost_ne_nil.mpr task)
  · intro all h member
    by_cases empty : (plan.planForHost h hosts).blueprint = []
    · exact .inl empty
    · exact .inr (all h ⟨member, Plan.planForHost_ne_nil.mp empty⟩)

/-- A dispatch that succeeds pushes what it selects for every member. -/
theorem pushes_of_succeeds (success : (dispatchWith executorType plan hosts).Succeeds) :
    (dispatchWith executorType plan hosts).pushes =
      hosts.members.filterMap fun h => (select executorType plan hosts h).toOption.join := by
  have all : ∀ h ∈ hosts.members, (select executorType plan hosts h).isOk := fun h hm =>
    select_isOk.mpr (succeeds_dispatchWith.mp success h hm)
  rw [pushes_dispatchWith, Effect.pushed, List.takeWhile_eq_self_iff.mpr all]

/-- The iteration order decides neither whether a dispatch succeeds nor what a
dispatch that succeeds pushes. -/
theorem succeeds_congr (same : hosts.SameFile hosts') :
    (dispatchWith executorType plan hosts).Succeeds ↔
      (dispatchWith executorType plan hosts').Succeeds := by
  rw [succeeds_dispatchWith, succeeds_dispatchWith]
  simp only [Admits, same.planForHost plan, same.lookup, same.members.mem_iff]

theorem pushes_perm (same : hosts.SameFile hosts')
    (success : (dispatchWith executorType plan hosts).Succeeds) :
    (dispatchWith executorType plan hosts).pushes.Perm
      (dispatchWith executorType plan hosts').pushes := by
  rw [pushes_of_succeeds success, pushes_of_succeeds ((succeeds_congr same).mp success)]
  simp only [same.select executorType plan]
  exact same.members.filterMap _

end General

section Dispatchers

variable {plan : Plan} {hosts hosts' : HostConfig}

/-- The controller fails only for want of a host entry. -/
theorem Controller.succeeds_iff :
    (dispatchWith Controller.executorType plan hosts).Succeeds ↔
      ∀ h, Targeted plan hosts h → h ∈ hosts.hosts := by
  rw [succeeds_iff_targeted]
  refine forall_congr' fun h => imp_congr_right fun _ => ?_
  rw [← AList.lookup_isSome, Option.isSome_iff_exists]
  refine exists_congr fun host => ?_
  simp [Controller.executorType]

/-- The CLI also fails for an executor name that it does not know. -/
theorem Cli.succeeds_iff :
    (dispatchWith Cli.executorType plan hosts).Succeeds ↔
      ∀ h, Targeted plan hosts h →
        ∃ host ∈ hosts.hosts.lookup h, ∃ kind : ExecutorType, kind.NamedBy host.executor := by
  rw [succeeds_iff_targeted]
  refine forall_congr' fun h => imp_congr_right fun _ => exists_congr fun host =>
    and_congr_right fun _ => ?_
  simp only [← Cli.executorType_eq_ok]
  cases Cli.executorType host <;> simp

/-- Where every targeted host names `ssh`, the two loops select alike. -/
theorem select_eq_of_ssh
    (ssh : ∀ h, Targeted plan hosts h → ∀ host ∈ hosts.hosts.lookup h, host.executor = "ssh")
    {h : String} (member : h ∈ hosts.members) :
    select Cli.executorType plan hosts h = select Controller.executorType plan hosts h := by
  rw [select, select]
  split
  · rfl
  · rename_i ne
    cases entry : hosts.hosts.lookup h with
    | none => rfl
    | some host =>
        have named : ExecutorType.ssh.NamedBy host.executor :=
          ssh h ⟨member, Plan.planForHost_ne_nil.mp ne⟩ host entry
        simp only [Cli.executorType_eq_ok.mpr named, Controller.executorType]

/-- What is started alike is started over SSH, and its host entry says so. -/
theorem StartAlike.ssh (same : hosts.SameFile hosts')
    (alike : StartAlike (Cli.dispatch plan hosts) (Controller.dispatch plan hosts')) :
    ∀ h, Targeted plan hosts h → ∀ host ∈ hosts.hosts.lookup h, host.executor = "ssh" := by
  intro h targeted host entry
  have success := alike.controllerSucceeds
  rw [Controller.dispatch_eq, ← succeeds_congr same] at success
  obtain ⟨d, pushed, rfl⟩ := exists_push success targeted.member
    (Plan.planForHost_ne_nil.mpr targeted.task)
  obtain ⟨-, -, -, entry', kind⟩ := mem_pushes pushed
  obtain rfl : d.host = host := Option.some.inj (entry'.symm.trans entry)
  have started : d ∈ (Controller.dispatch plan hosts').pushes := by
    rw [Controller.dispatch_eq]
    exact (pushes_perm same success).mem_iff.mp pushed
  have isSsh : d.executorType = .ssh := (Except.ok.inj kind).symm
  have named := alike.kind d started
  rwa [isSsh] at named

theorem startAlike_of_ssh (same : hosts.SameFile hosts')
    (ssh : ∀ h, Targeted plan hosts h → ∀ host ∈ hosts.hosts.lookup h, host.executor = "ssh")
    (all : ∀ h, Targeted plan hosts h → h ∈ hosts.hosts) :
    StartAlike (Cli.dispatch plan hosts) (Controller.dispatch plan hosts') := by
  have cli : (dispatchWith Cli.executorType plan hosts).Succeeds := by
    refine Cli.succeeds_iff.mpr fun h targeted => ?_
    obtain ⟨host, entry⟩ := Option.isSome_iff_exists.mp (AList.lookup_isSome.mpr (all h targeted))
    exact ⟨host, entry, .ssh, ssh h targeted host entry⟩
  have controller : (dispatchWith Controller.executorType plan hosts).Succeeds :=
    Controller.succeeds_iff.mpr all
  have perm : (Cli.dispatch plan hosts).pushes.Perm (Controller.dispatch plan hosts').pushes := by
    rw [Cli.dispatch_eq, Controller.dispatch_eq]
    refine List.Perm.trans (List.Perm.of_eq ?_) (pushes_perm same controller)
    rw [pushes_of_succeeds cli, pushes_of_succeeds controller]
    exact List.filterMap_congr fun h member => by rw [select_eq_of_ssh ssh member]
  refine ⟨by rwa [Cli.dispatch_eq], ?_, perm, fun d pushed => ?_⟩
  · rwa [Controller.dispatch_eq, ← succeeds_congr same]
  · rw [← perm.mem_iff, Cli.dispatch_eq] at pushed
    obtain ⟨-, -, -, -, kind⟩ := mem_pushes pushed
    exact Cli.executorType_eq_ok.mp kind

end Dispatchers

/-- The dispatchers agree exactly when a targeted host has no entry, so that both
fail, or when the entry of every targeted host names the executor `ssh`. -/
theorem dispatchAlike_iff (plan : Plan) (hosts hosts' : HostConfig)
    (same : hosts.SameFile hosts') :
    DispatchAlike (Cli.dispatch plan hosts) (Controller.dispatch plan hosts') ↔
      (∃ h, Targeted plan hosts h ∧ h ∉ hosts.hosts) ∨
        ∀ h, Targeted plan hosts h → ∀ host ∈ hosts.hosts.lookup h, host.executor = "ssh" := by
  have controller : (Controller.dispatch plan hosts').Succeeds ↔
      ∀ h, Targeted plan hosts h → h ∈ hosts.hosts := by
    rw [Controller.dispatch_eq, ← succeeds_congr same, Controller.succeeds_iff]
  have cli : (Cli.dispatch plan hosts).Succeeds →
      ∀ h, Targeted plan hosts h → h ∈ hosts.hosts := by
    rw [Cli.dispatch_eq, Cli.succeeds_iff]
    intro success h targeted
    obtain ⟨host, entry, -⟩ := success h targeted
    exact AList.lookup_isSome.mp (by rw [entry]; rfl)
  have missing : (∃ h, Targeted plan hosts h ∧ h ∉ hosts.hosts) ↔
      ¬ ∀ h, Targeted plan hosts h → h ∈ hosts.hosts := by
    push Not
    exact Iff.rfl
  rw [DispatchAlike, missing, controller]
  constructor
  · exact Or.imp And.right (StartAlike.ssh same)
  · rintro (none | ssh)
    · exact .inl ⟨fun success => none (cli success), none⟩
    · by_cases all : ∀ h, Targeted plan hosts h → h ∈ hosts.hosts
      · exact .inr (startAlike_of_ssh same ssh all)
      · exact .inl ⟨fun success => all (cli success), all⟩

namespace MixedExecutors

/-- One task, aimed at two groups. -/
def plan : Plan :=
  ⟨"test plan", [⟨"test command", ["echo", "hi"], [.exeExists "echo"], ["web", "db"]⟩]⟩

/-- Two hosts with executors of the given names. -/
def hosts (web db : String) : HostConfig where
  hosts := AList.insert "a" { host := "10.0.0.1", executor := web }
    (AList.insert "b" { host := "10.0.0.2", executor := db } ∅)
  groups := AList.insert "web" ["a"] (AList.insert "db" ["b"] ∅)

/-- The same file with its groups in the other order. -/
def reordered (web db : String) : HostConfig where
  hosts := AList.insert "b" { host := "10.0.0.2", executor := db }
    (AList.insert "a" { host := "10.0.0.1", executor := web } ∅)
  groups := AList.insert "db" ["b"] (AList.insert "web" ["a"] ∅)

theorem sameFile (web db : String) : (hosts web db).SameFile (reordered web db) where
  hostMap := List.Perm.swap _ _ _
  groupMap := List.Perm.swap _ _ _

end MixedExecutors

theorem dispatchAlike_ssh :
    DispatchAlike (Cli.dispatch MixedExecutors.plan (MixedExecutors.hosts "ssh" "ssh"))
      (Controller.dispatch MixedExecutors.plan (MixedExecutors.reordered "ssh" "ssh")) := by
  have ssh : ∀ e ∈ (MixedExecutors.hosts "ssh" "ssh").hosts.entries, e.2.executor = "ssh" := by
    decide
  refine (dispatchAlike_iff _ _ _ (MixedExecutors.sameFile "ssh" "ssh")).mpr (.inr ?_)
  intro h _ host entry
  exact ssh ⟨h, host⟩ (AList.mem_lookup_iff.mp entry)

/-- The CLI runs one of two hosts locally, or refuses its executor; the controller
starts both of them over SSH. -/
theorem not_dispatchAlike :
    ¬ DispatchAlike (Cli.dispatch MixedExecutors.plan (MixedExecutors.hosts "ssh" "local"))
        (Controller.dispatch MixedExecutors.plan (MixedExecutors.hosts "ssh" "local")) ∧
      ¬ DispatchAlike (Cli.dispatch MixedExecutors.plan (MixedExecutors.hosts "ssh" "docker"))
        (Controller.dispatch MixedExecutors.plan (MixedExecutors.hosts "ssh" "docker")) := by
  constructor
  · rintro (⟨-, fails⟩ | alike)
    · exact fails rfl
    · exact absurd (alike.perm.map Dispatch.executorType) (by decide)
  · rintro (⟨-, fails⟩ | alike)
    · exact fails rfl
    · cases alike.cliSucceeds

end There
