import There.Plan.Basic

/-!
# Selecting the tasks of a host

`Plan::plan_for_host` reads the host file only through one relation: which groups
list the host. Everything that keeps this relation keeps the selection, and
everything that enlarges it enlarges the selection.
-/

namespace There

/-- The group `name` of the host file lists `host`. -/
def HostConfig.Lists (hosts : HostConfig) (name host : String) : Prop :=
  ∃ members ∈ hosts.groups.lookup name, host ∈ members

/-- The host file with one group replaced, or added. -/
def HostConfig.setGroup (hosts : HostConfig) (name : String) (members : List String) :
    HostConfig :=
  { hosts with groups := hosts.groups.insert name members }

namespace HostConfig

variable {hosts : HostConfig} {name other host : String} {members : List String}

theorem lists_setGroup_self : (hosts.setGroup name members).Lists name host ↔ host ∈ members := by
  simp [Lists, setGroup, AList.lookup_insert]

theorem lists_setGroup_ne (ne : other ≠ name) :
    (hosts.setGroup name members).Lists other host ↔ hosts.Lists other host := by
  simp only [Lists, setGroup, AList.lookup_insert_ne ne]

/-- Replacing a group by one that lists the host takes the host out of no group. -/
theorem Lists.setGroup (listed : hosts.Lists other host) (mem : host ∈ members) :
    (hosts.setGroup name members).Lists other host := by
  by_cases same : other = name
  · subst same
    exact lists_setGroup_self.mpr mem
  · exact (lists_setGroup_ne same).mpr listed

end HostConfig

theorem PlannedTask.appliesTo_iff {task : PlannedTask} {host : String} {hosts : HostConfig} :
    task.AppliesTo host hosts ↔ host ∈ task.hosts ∨ ∃ name ∈ task.hosts, hosts.Lists name host := by
  refine or_congr_right ⟨?_, ?_⟩
  · rintro ⟨⟨name, members⟩, entry, named, listed⟩
    exact ⟨name, named, members, AList.mem_lookup_iff.mpr entry, listed⟩
  · rintro ⟨name, named, members, found, listed⟩
    exact ⟨⟨name, members⟩, AList.mem_lookup_iff.mp found, named, listed⟩

namespace Plan

variable {plan : Plan} {host : String} {hosts hosts' : HostConfig}

theorem planForHost_eq {other : Plan} (name : plan.name = other.name)
    (blueprint : (plan.planForHost host hosts).blueprint = other.blueprint) :
    plan.planForHost host hosts = other :=
  Plan.mk.injEq .. |>.mpr ⟨name, blueprint⟩

/-- The selection depends only on which groups list the host. -/
theorem planForHost_congr (same : ∀ name, hosts.Lists name host ↔ hosts'.Lists name host) :
    plan.planForHost host hosts = plan.planForHost host hosts' := by
  refine planForHost_eq rfl ?_
  rw [planForHost_blueprint, planForHost_blueprint]
  refine List.filter_congr fun task _ => decide_eq_decide.mpr ?_
  simp only [PlannedTask.appliesTo_iff, same]

/-- Nor does it depend on the order of the groups. -/
theorem planForHost_perm (perm : hosts.groups.entries.Perm hosts'.groups.entries) :
    plan.planForHost host hosts = plan.planForHost host hosts' := by
  refine planForHost_congr fun name => ?_
  rw [HostConfig.Lists, HostConfig.Lists, AList.perm_lookup perm]

/-- A host that is listed by more groups keeps every task it had. -/
theorem planForHost_mono (more : ∀ name, hosts.Lists name host → hosts'.Lists name host) :
    (plan.planForHost host hosts).blueprint.Sublist (plan.planForHost host hosts').blueprint := by
  rw [planForHost_blueprint, planForHost_blueprint]
  refine List.monotone_filter_right _ fun task applies => ?_
  rw [decide_eq_true_iff, PlannedTask.appliesTo_iff] at applies ⊢
  exact applies.imp_right fun ⟨name, named, listed⟩ => ⟨name, named, more name listed⟩

/-- Selections for two hosts, from two host files, can be made in either order. -/
theorem planForHost_comm (plan : Plan) (host host' : String) (hosts hosts' : HostConfig) :
    (plan.planForHost host hosts).planForHost host' hosts' =
      (plan.planForHost host' hosts').planForHost host hosts := by
  refine planForHost_eq rfl ?_
  simp only [planForHost_blueprint]
  exact List.filter_comm _ _ _

theorem planForHost_idem (plan : Plan) (host : String) (hosts : HostConfig) :
    (plan.planForHost host hosts).planForHost host hosts = plan.planForHost host hosts := by
  refine planForHost_eq rfl ?_
  simp only [planForHost_blueprint, List.filter_filter, Bool.and_self]

/-- What is expected of a selection. It is the sublist of the tasks that apply, it
depends on nothing but the groups that list the host, and it is stable. -/
structure Selects (plan : Plan) (host : String) (hosts : HostConfig) : Prop where
  name : (plan.planForHost host hosts).name = plan.name
  blueprint : (plan.planForHost host hosts).blueprint = plan.blueprint.filter fun task =>
    decide (host ∈ task.hosts ∨
      ∃ name ∈ task.hosts, ∃ members ∈ hosts.groups.lookup name, host ∈ members)
  order : ∀ hosts' : HostConfig, hosts.groups.entries.Perm hosts'.groups.entries →
    plan.planForHost host hosts' = plan.planForHost host hosts
  others : ∀ hosts' : HostConfig, (∀ name members, host ∈ members →
      (members ∈ hosts.groups.lookup name ↔ members ∈ hosts'.groups.lookup name)) →
    plan.planForHost host hosts' = plan.planForHost host hosts
  again : (plan.planForHost host hosts).planForHost host hosts = plan.planForHost host hosts
  commute : ∀ other, (plan.planForHost host hosts).planForHost other hosts =
    (plan.planForHost other hosts).planForHost host hosts
  /-- The group is new, or `members` takes the place of what it listed before. -/
  joined : ∀ name members, host ∈ members → (plan.planForHost host hosts).blueprint.Sublist
    (plan.planForHost host (hosts.setGroup name members)).blueprint

theorem planForHost_selects (plan : Plan) (host : String) (hosts : HostConfig) :
    plan.Selects host hosts where
  name := rfl
  blueprint := by
    rw [planForHost_blueprint]
    exact List.filter_congr fun task _ => decide_eq_decide.mpr PlannedTask.appliesTo_iff
  order _ perm := planForHost_perm perm.symm
  others hosts' agree := planForHost_congr fun name =>
    exists_congr fun members => and_congr_left fun listed => (agree name members listed).symm
  again := planForHost_idem plan host hosts
  commute other := planForHost_comm plan host other hosts hosts
  joined _ _ mem := planForHost_mono fun _ listed => listed.setGroup mem

end Plan

end There
