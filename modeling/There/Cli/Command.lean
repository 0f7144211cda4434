import There.Agent.Loop
import There.Cli.Isolation
import There.Dispatch.Validation

/-!
# What the dry run shows

`plan validate` and `plan apply` read their arguments and two files, each in an order of its
own, and plan the task set. The dry run of `plan apply` goes on to print the plan. What a later
process executes is in what has been printed, although it reads the maps of the host file in
another order, and may leave the execution to a controller.

What clap has found on the command line is data, and so is what serde_yaml makes of a text.
-/

namespace There

open Effect

/-- What follows the name of a subcommand. -/
structure Matches where
  file : Option String
  hosts : Option String
  dry : Bool := false
  controller : Option String := none

inductive CommandErrors where
  | requiredUserInputMissing (id : String)
  | invalidSubcommand (name : String)
  | noSubcommandProvided

def CommandErrors.report : CommandErrors → Report
  | .requiredUserInputMissing id => .msg s!"Required user input `{id}` is missing."
  | .invalidSubcommand name => .msg s!"Invalid subcommand `{name}`."
  | .noSubcommandProvided => .msg "No subcommand provided."

def readArgumentWithValidator (arg : Option String) (id : String)
    (validator : String → Except CommandErrors Unit) : Except Report String :=
  match arg with
  | some arg =>
      match validator arg with
      | .ok _ => .ok arg
      | .error e => .error e.report
  | none => .error (CommandErrors.requiredUserInputMissing id).report

/-- The files that a process finds, and what their texts say. -/
structure Inputs where
  readToString : String → Except Report String
  taskSet : String → Except Report TaskSet
  hostConfig : String → Except Report HostConfig

/-- What another process finds. The maps of a host file have no order. -/
def Inputs.reordered (inputs : Inputs) (reorder : String → HostConfig → HostConfig) : Inputs where
  readToString := inputs.readToString
  taskSet := inputs.taskSet
  hostConfig text := (inputs.hostConfig text).map (reorder text)

/-- How far a command gets by itself. -/
inductive Begun where
  | validated
  | shown
  /-- The plan is to be applied, through the controller if there is one. -/
  | applying (plan : Plan) (hosts : HostConfig) (controller : Option String)

namespace PlanCommand

def readHostsConfig (inputs : Inputs) (path : String) : Except Report HostConfig := do
  let hosts ← inputs.readToString path
  inputs.hostConfig hosts

def subcommandValidate (split : ShellSplit) (inputs : Inputs) (m : Matches) : Printing Begun := do
  let file ← propagate (readArgumentWithValidator m.file "file" fun _ => .ok ⟨⟩)
  let hostsFile ← propagate (readArgumentWithValidator m.hosts "hosts" fun _ => .ok ⟨⟩)
  let hosts ← propagate (readHostsConfig inputs hostsFile)
  let plan ← propagate (inputs.readToString file)
  let taskSet ← propagate (inputs.taskSet plan)
  Cli.subcommandValidate split taskSet hosts
  pure .validated

def subcommandApply (split : ShellSplit) (inputs : Inputs) (m : Matches) : Printing Begun := do
  let file ← propagate (readArgumentWithValidator m.file "file" fun _ => .ok ⟨⟩)
  let plan ← propagate (inputs.readToString file)
  let taskSet ← propagate (inputs.taskSet plan)
  let hostsFile ← propagate (readArgumentWithValidator m.hosts "hosts" fun _ => .ok ⟨⟩)
  let hosts ← propagate (readHostsConfig inputs hostsFile)
  if m.dry then
    Cli.subcommandApplyDry split taskSet hosts
    pure .shown
  else
    let plan ← Cli.planTasks split taskSet
    pure (.applying plan hosts m.controller)

def run (split : ShellSplit) (inputs : Inputs) : Option (String × Matches) → Printing Begun
  | some ("validate", m) => subcommandValidate split inputs m
  | some ("apply", m) => subcommandApply split inputs m
  | some (name, _) => throw (.error (CommandErrors.invalidSubcommand name).report)
  | none => throw (.error CommandErrors.noSubcommandProvided.report)

end PlanCommand

/-- What the arguments lead to. -/
structure Inputs.Loads (inputs : Inputs) (m : Matches) (tasks : TaskSet) (hosts : HostConfig) :
    Prop where
  tasks : ∃ file text, m.file = some file ∧ inputs.readToString file = .ok text ∧
    inputs.taskSet text = .ok tasks
  hosts : ∃ file, m.hosts = some file ∧ PlanCommand.readHostsConfig inputs file = .ok hosts

section Loading

variable {split : ShellSplit} {inputs : Inputs} {m : Matches} {tasks : TaskSet}
variable {reorder : String → HostConfig → HostConfig} {hosts : HostConfig} {α β : Type}
variable {b : Begun} {s : List String}

theorem readArgument_eq_ok {arg : Option String} {id value : String} :
    readArgumentWithValidator arg id (fun _ => .ok ⟨⟩) = .ok value ↔ arg = some value := by
  cases arg <;> simp [readArgumentWithValidator]

theorem readHostsConfig_eq_ok {path : String} :
    PlanCommand.readHostsConfig inputs path = .ok hosts ↔
      ∃ text, inputs.readToString path = .ok text ∧ inputs.hostConfig text = .ok hosts := by
  rw [PlanCommand.readHostsConfig]
  cases inputs.readToString path with
  | error e => exact iff_of_false (fun h => by cases h) (by simp)
  | ok text =>
      change inputs.hostConfig text = .ok hosts ↔ _
      simp

theorem propagate_bind_eq_ok {x : Except Report α} {f : α → Printing β} {b : β} :
    outcome ((propagate x >>= f) s) = .ok b ↔ ∃ a, x = .ok a ∧ outcome (f a s) = .ok b := by
  cases x with
  | ok a =>
      change outcome (f a s) = .ok b ↔ _
      simp
  | error e =>
      change Except.error (Abort.error e) = Except.ok b ↔ _
      simp

@[simp] theorem propagate_ok_bind (a : α) (f : α → Printing β) :
    propagate (.ok a) >>= f = f a := rfl

namespace Inputs.Loads

theorem validate (loads : inputs.Loads m tasks hosts) :
    PlanCommand.subcommandValidate split inputs m =
      Cli.subcommandValidate split tasks hosts >>= fun _ => pure .validated := by
  obtain ⟨⟨file, text, given, read, parsed⟩, hostsFile, given', parsed'⟩ := loads
  simp only [PlanCommand.subcommandValidate, readArgument_eq_ok.mpr given,
    readArgument_eq_ok.mpr given', read, parsed, parsed', propagate_ok_bind]

theorem applyDry (loads : inputs.Loads m tasks hosts) (dry : m.dry = true) :
    PlanCommand.subcommandApply split inputs m =
      Cli.subcommandApplyDry split tasks hosts >>= fun _ => pure .shown := by
  obtain ⟨⟨file, text, given, read, parsed⟩, hostsFile, given', parsed'⟩ := loads
  simp only [PlanCommand.subcommandApply, readArgument_eq_ok.mpr given,
    readArgument_eq_ok.mpr given', read, parsed, parsed', propagate_ok_bind, dry, if_true]

theorem apply (loads : inputs.Loads m tasks hosts) (dry : m.dry = false) :
    PlanCommand.subcommandApply split inputs m =
      Cli.planTasks split tasks >>= fun plan => pure (.applying plan hosts m.controller) := by
  obtain ⟨⟨file, text, given, read, parsed⟩, hostsFile, given', parsed'⟩ := loads
  simp only [PlanCommand.subcommandApply, readArgument_eq_ok.mpr given,
    readArgument_eq_ok.mpr given', read, parsed, parsed', propagate_ok_bind, dry,
    Bool.false_eq_true, if_false]

/-- Another process loads the same. -/
theorem reordered (same : ∀ text, ∀ hosts : HostConfig, hosts.SameFile (reorder text hosts))
    (loads : inputs.Loads m tasks hosts) :
    ∃ hosts', (inputs.reordered reorder).Loads m tasks hosts' ∧ hosts.SameFile hosts' := by
  obtain ⟨given, hostsFile, given', parsed⟩ := loads
  obtain ⟨text, read, parsed⟩ := readHostsConfig_eq_ok.mp parsed
  refine ⟨reorder text hosts, ⟨given, hostsFile, given', ?_⟩, same text hosts⟩
  refine readHostsConfig_eq_ok.mpr ⟨text, read, ?_⟩
  change (inputs.hostConfig text).map (reorder text) = _
  rw [parsed]
  rfl

theorem of_reordered (same : ∀ text, ∀ hosts : HostConfig, hosts.SameFile (reorder text hosts))
    (loads : (inputs.reordered reorder).Loads m tasks hosts) :
    ∃ hosts', inputs.Loads m tasks hosts' ∧ hosts'.SameFile hosts := by
  obtain ⟨given, hostsFile, given', parsed⟩ := loads
  obtain ⟨text, read, parsed⟩ := readHostsConfig_eq_ok.mp parsed
  cases parsed' : inputs.hostConfig text with
  | error e => simp [Inputs.reordered, parsed', Except.map] at parsed
  | ok hosts' =>
      obtain rfl : reorder text hosts' = hosts := by
        simpa [Inputs.reordered, parsed', Except.map] using parsed
      refine ⟨hosts', ⟨given, hostsFile, given', ?_⟩, same text hosts'⟩
      exact readHostsConfig_eq_ok.mpr ⟨text, read, parsed'⟩

end Inputs.Loads

/-- Whatever the order in which a subcommand looks at its inputs, it needs all of them. -/
theorem loads_of_validate (ok : outcome (PlanCommand.subcommandValidate split inputs m s) = .ok b) :
    ∃ tasks hosts, inputs.Loads m tasks hosts := by
  simp only [PlanCommand.subcommandValidate, propagate_bind_eq_ok, readArgument_eq_ok] at ok
  obtain ⟨file, given, hostsFile, given', hosts, parsed', text, read, tasks, parsed, -⟩ := ok
  exact ⟨tasks, hosts, ⟨file, text, given, read, parsed⟩, hostsFile, given', parsed'⟩

theorem loads_of_apply (ok : outcome (PlanCommand.subcommandApply split inputs m s) = .ok b) :
    ∃ tasks hosts, inputs.Loads m tasks hosts := by
  simp only [PlanCommand.subcommandApply, propagate_bind_eq_ok, readArgument_eq_ok] at ok
  obtain ⟨file, given, text, read, tasks, parsed, hostsFile, given', hosts, parsed', -⟩ := ok
  exact ⟨tasks, hosts, ⟨file, text, given, read, parsed⟩, hostsFile, given', parsed'⟩

end Loading

/-- What the dry run prints for a task. -/
def PlannedTask.lines (task : PlannedTask) : List String :=
  (s!"** {task.name}: " ++ " ".intercalate task.command) ::
    task.ensures.map fun ensure => "*** " ++ ensure.debug

section Printing

variable {split : ShellSplit} {tasks : TaskSet} {hosts : HostConfig} {s : List String}

/-- A loop of steps that only print prints what they do. -/
theorem forM_prints {α : Type} {body : α → Printing PUnit} {lines : α → List String}
    (prints : ∀ x s, body x s = .ok ⟨⟩ (s ++ lines x)) (xs : List α) (s : List String) :
    forM xs body s = .ok ⟨⟩ (s ++ xs.flatMap lines) := by
  induction xs generalizing s with
  | nil =>
      rw [List.flatMap_nil, List.append_nil]
      rfl
  | cons x xs ih =>
      rw [List.forM_cons, List.flatMap_cons, ← List.append_assoc]
      change EStateM.bind (body x) (fun _ => forM xs body) s = _
      rw [EStateM.bind, prints]
      exact ih _

theorem forM_println {α : Type} (text : α → String) (xs : List α) (s : List String) :
    forM xs (fun x => Cli.println (text x)) s = .ok ⟨⟩ (s ++ xs.map text) := by
  rw [List.map_eq_flatMap]
  exact forM_prints (fun _ _ => rfl) xs s

theorem PlannedTask.prints (task : PlannedTask) (s : List String) : (do
    Cli.println (s!"** {task.name}: " ++ " ".intercalate task.command)
    forM task.ensures fun ensure => Cli.println ("*** " ++ ensure.debug) : Printing PUnit) s =
      .ok ⟨⟩ (s ++ task.lines) := by
  rw [lines, ← List.singleton_append, ← List.append_assoc]
  exact forM_println _ _ _

theorem planTasks_returns :
    Returns (Cli.planTasks split tasks) (fun plan _ => tasks.plan split = .ok plan) s := by
  rw [Cli.planTasks]
  cases planned : tasks.plan split with
  | ok plan => exact Returns.pure rfl
  | error e => exact Returns.throw e

/-- The dry run ends with the plan. -/
theorem applyDry_returns :
    Returns (Cli.subcommandApplyDry split tasks hosts) (fun _ lines => ∃ plan header,
      tasks.plan split = .ok plan ∧
        lines = header ++ plan.blueprint.flatMap PlannedTask.lines) s := by
  refine Returns.bind planTasks_returns fun plan s planned => ?_
  refine Returns.modify_bind (Returns.modify_bind (Returns.modify_bind ?_))
  have inspection : ∀ s, Returns (forM hosts.groups.entries fun group =>
      Cli.inspectHostGroup hosts.hosts group.1 group.2) (fun _ _ => True) s :=
    fun _ _ _ => trivial
  refine Returns.bind (inspection _) fun _ header _ => ?_
  intro _ _
  rw [forM_prints PlannedTask.prints]
  exact ⟨plan, header, planned, rfl⟩

end Printing

/-- What has been issued to the host are the commands of tasks of the plan that apply to it,
in the order of the plan. -/
def Plan.Shows (plan : Plan) (hosts : HostConfig) (hostname : String) (es : List Event) : Prop :=
  ∃ tasks : List PlannedTask, tasks.Sublist plan.blueprint ∧
    (∀ task ∈ tasks, task.AppliesTo hostname hosts) ∧ commands es = tasks.map PlannedTask.command

/-- Whichever process applies the plan to these hosts, all that it ever issues is shown. -/
structure Plan.ShowsAll (plan : Plan) (hosts : HostConfig) : Prop where
  cli : ∀ hostname world r i a es, Cli.Comes plan hosts hostname world r i a → a.Issued es →
    plan.Shows hosts hostname es
  controller : ∀ hostname world s id i a es, Controller.Comes plan hosts hostname world s id i a →
    a.Issued es → plan.Shows hosts hostname es

section Execution

variable {plan : Plan} {hosts hosts' : HostConfig} {hostname : String} {events es : List Event}

theorem SimpleExecutor.issues_prefix (plan : Plan) (machine : LocalHost) :
    commands (finalState (execute plan machine (.fresh none))).events <+:
      plan.blueprint.map PlannedTask.command := by
  obtain ⟨⟨n, m, applied⟩, -⟩ := (execute_emits plan machine).fresh
  rw [applied.progress.commands]
  exact (List.take_prefix _ _).map _

theorem SshExecutor.issues_prefix (host : Host) (hostname : String) (plan : Plan)
    (server : SshHost) :
    commands (finalState (execute host hostname plan server (.fresh none))).events <+:
      plan.blueprint.map PlannedTask.command := by
  obtain ⟨⟨n, m, applied⟩, -⟩ := (execute_emits host hostname plan server).fresh
  rw [applied.progress.commands]
  exact (List.take_prefix _ _).map _

theorem Plan.shows_of_issued {sent : Nat} {stage : Stage} (issued : Issued events sent stage es)
    (all : commands events <+:
      (plan.planForHost hostname hosts).blueprint.map PlannedTask.command) :
    plan.Shows hosts hostname es := by
  obtain ⟨done', ⟨rest, rfl⟩, -, -, -, rfl⟩ := issued
  rw [commands_append] at all
  have first : commands done' <+:
      (plan.planForHost hostname hosts).blueprint.map PlannedTask.command :=
    (List.prefix_append _ _).trans all
  refine ⟨(plan.planForHost hostname hosts).blueprint.take (commands done').length, ?_, ?_, ?_⟩
  · exact (List.take_sublist _ _).trans Plan.planForHost_sublist
  · exact fun task listed => (Plan.mem_planForHost.mp (List.mem_of_mem_take listed)).2
  · rw [commands_actions, List.map_take]
    exact List.prefix_iff_eq_take.mp first

theorem Plan.showsAll (plan : Plan) (hosts : HostConfig) : plan.ShowsAll hosts where
  cli := by
    intro hostname world r i a es comes issued
    have pushed := comes.settled.2.2
    rw [Cli.dispatch_eq] at pushed
    obtain ⟨-, own, -⟩ := mem_pushes pushed
    rw [comes.hostname] at own
    refine Plan.shows_of_issued issued ?_
    rw [Cli.Apply.events]
    cases a.loaded with
    | error e => exact List.nil_prefix
    | ok u =>
        rw [← own, Cli.Apply.run]
        cases a.dispatch.executorType with
        | «local» => exact SimpleExecutor.issues_prefix _ _
        | ssh => exact SshExecutor.issues_prefix _ _ _ _
  controller := by
    intro hostname world s id i a es comes issued
    have pushed := comes.settled.2.2
    rw [Controller.dispatch_eq] at pushed
    obtain ⟨-, own, -⟩ := mem_pushes pushed
    rw [comes.hostname] at own
    refine Plan.shows_of_issued issued ?_
    rw [World.events]
    cases a.world.key with
    | error e => exact List.nil_prefix
    | ok u =>
        rw [← own]
        exact SshExecutor.issues_prefix _ _ _ _

end Execution

section DryRun

variable {split : ShellSplit} {inputs : Inputs} {m : Matches} {tasks : TaskSet}
variable {reorder : String → HostConfig → HostConfig} {hosts hosts' : HostConfig}

theorem Inspected.congr (same : hosts.SameFile hosts') :
    Inspected split tasks hosts ↔ Inspected split tasks hosts' := by
  have entry : ∀ h, h ∈ hosts.hosts ↔ h ∈ hosts'.hosts := fun h => by
    rw [← AList.lookup_isSome, ← AList.lookup_isSome, same.lookup h]
  simp only [inspected_iff, entry, same.members.mem_iff]

theorem accepts_iff {p : Printing PUnit} {b : Begun} :
    outcome ((p >>= fun _ => pure b) []) = .ok b ↔ p.Accepts := by
  rw [outcome_bind_eq_ok, Printing.Accepts]
  cases outcome (p []) with
  | ok u => exact iff_of_true ⟨u, rfl, rfl⟩ rfl
  | error e => simp

theorem finalState_bind_pure {p : Printing PUnit} {b : Begun} {s : List String} :
    finalState ((p >>= fun _ => pure b) s) = finalState (p s) := by
  change finalState (EStateM.bind p _ s) = _
  rw [EStateM.bind]
  cases p s <;> rfl

theorem validate_ok_iff : outcome (PlanCommand.run split inputs (some ("validate", m)) []) =
    .ok .validated ↔ ∃ tasks hosts, inputs.Loads m tasks hosts ∧ Inspected split tasks hosts := by
  change outcome (PlanCommand.subcommandValidate split inputs m []) = _ ↔ _
  constructor
  · intro ok
    obtain ⟨tasks, hosts, loads⟩ := loads_of_validate ok
    rw [loads.validate, accepts_iff, validate_accepts_iff] at ok
    exact ⟨tasks, hosts, loads, ok⟩
  · rintro ⟨tasks, hosts, loads, inspected⟩
    rwa [loads.validate, accepts_iff, validate_accepts_iff]

theorem dry_ok_iff (dry : m.dry = true) :
    outcome (PlanCommand.run split inputs (some ("apply", m)) []) = .ok .shown ↔
      ∃ tasks hosts, inputs.Loads m tasks hosts ∧ Inspected split tasks hosts := by
  change outcome (PlanCommand.subcommandApply split inputs m []) = _ ↔ _
  constructor
  · intro ok
    obtain ⟨tasks, hosts, loads⟩ := loads_of_apply ok
    rw [loads.applyDry dry, accepts_iff, applyDry_accepts_iff] at ok
    exact ⟨tasks, hosts, loads, ok⟩
  · rintro ⟨tasks, hosts, loads, inspected⟩
    rwa [loads.applyDry dry, accepts_iff, applyDry_accepts_iff]

/-- The dry run accepts what `plan validate` accepts. It ends with the lines of a plan, and a
process that is given the same arguments without `--dry` begins to apply this plan: whether it
does so itself or leaves it to a controller, a host is issued nothing that has not been shown,
and in the order in which it has been shown. -/
theorem dry_run_shows (dry : m.dry = true)
    (same : ∀ text, ∀ hosts : HostConfig, hosts.SameFile (reorder text hosts)) :
    (outcome (PlanCommand.run split inputs (some ("apply", m)) []) = .ok .shown ↔
      outcome (PlanCommand.run split (inputs.reordered reorder) (some ("validate", m)) []) =
        .ok .validated) ∧
    (outcome (PlanCommand.run split inputs (some ("apply", m)) []) = .ok .shown →
      ∃ plan hosts header,
        finalState (PlanCommand.run split inputs (some ("apply", m)) []) =
          header ++ plan.blueprint.flatMap PlannedTask.lines ∧
        outcome (PlanCommand.run split (inputs.reordered reorder)
          (some ("apply", { m with dry := false })) []) = .ok (.applying plan hosts m.controller) ∧
        ∀ hosts', hosts.SameFile hosts' → plan.ShowsAll hosts') := by
  rw [dry_ok_iff dry, validate_ok_iff]
  constructor
  · constructor
    · rintro ⟨tasks, hosts, loads, inspected⟩
      obtain ⟨hosts', loads', sameFile⟩ := loads.reordered same
      exact ⟨tasks, hosts', loads', (Inspected.congr sameFile).mp inspected⟩
    · rintro ⟨tasks, hosts, loads, inspected⟩
      obtain ⟨hosts', loads', sameFile⟩ := loads.of_reordered same
      exact ⟨tasks, hosts', loads', (Inspected.congr sameFile).mpr inspected⟩
  · rintro ⟨tasks, hosts, loads, inspected⟩
    obtain ⟨hosts', loads', -⟩ := loads.reordered same
    have accepts := applyDry_accepts_iff.mpr inspected
    obtain ⟨plan, header, planned, printed⟩ : ∃ plan header, tasks.plan split = .ok plan ∧
        finalState (Cli.subcommandApplyDry split tasks hosts []) =
          header ++ plan.blueprint.flatMap PlannedTask.lines := by
      cases ok : outcome (Cli.subcommandApplyDry split tasks hosts []) with
      | ok u => exact applyDry_returns u ok
      | error e => simp [Printing.Accepts, ok] at accepts
    refine ⟨plan, hosts', header, ?_, ?_, fun hosts'' _ => plan.showsAll hosts''⟩
    · change finalState (PlanCommand.subcommandApply split inputs m []) = _
      rw [loads.applyDry dry, finalState_bind_pure, printed]
    · have undried : (inputs.reordered reorder).Loads { m with dry := false } tasks hosts' :=
        ⟨loads'.tasks, loads'.hosts⟩
      change outcome (PlanCommand.subcommandApply split _ _ []) = _
      rw [undried.apply rfl, Cli.planTasks, planned]
      rfl

end DryRun

/-- Two files, of a plan for one host. -/
def OneHost.inputs : Inputs where
  readToString path := .ok path
  taskSet text :=
    if text = "plan.yml" then .ok ⟨"test plan", [.command "test command" "echo hi" ["web"]]⟩
    else .error (.msg "missing field")
  hostConfig text :=
    if text = "hosts.yml" then .ok OneHost.hosts else .error (.msg "missing field")

theorem dry_run_shows_oneHost :
    ∃ plan hosts header,
      finalState (PlanCommand.run (fun _ => .ok ["echo", "hi"]) OneHost.inputs
        (some ("apply", ⟨some "plan.yml", some "hosts.yml", true, none⟩)) []) =
          header ++ plan.blueprint.flatMap PlannedTask.lines ∧
      outcome (PlanCommand.run (fun _ => .ok ["echo", "hi"])
        (OneHost.inputs.reordered fun _ hosts => hosts)
        (some ("apply", ⟨some "plan.yml", some "hosts.yml", false, none⟩)) []) =
          .ok (.applying plan hosts none) ∧
      ∀ hosts', hosts.SameFile hosts' → plan.ShowsAll hosts' :=
  (dry_run_shows (m := ⟨some "plan.yml", some "hosts.yml", true, none⟩) rfl
    fun _ _ => ⟨.refl _, .refl _⟩).2 (by rfl)

end There
