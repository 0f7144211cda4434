import There.Concurrent.Runs
import There.Dispatch.Basic

/-!
# The dispatch loop, member by member

A dispatcher visits the members of all groups one after the other. A future that it pushes
is there from then on, and nothing polls it while the loop is under way. An error leaves the
loop at once and drops the futures that have been pushed; a loop that gets to its end hands
them over to whatever follows.

The steps add up to the loop as a function: which futures there are, whether the loop
fails, and with which error.
-/

namespace There

open Concurrent

/-- A dispatcher: what its loop goes by, and what follows the loop. -/
structure Dispatcher (R A Act : Type) where
  executorType : Host → Except Report ExecutorType
  plan : Plan
  hosts : HostConfig
  /-- The future that is pushed at a position. -/
  push : Nat → Dispatch → A
  /-- The dispatcher has returned the error of its loop. -/
  fails : Report → R
  /-- The dispatcher drains these futures. -/
  drains : List A → R
  /-- The steps after the loop. -/
  step : R → Act → Option R

namespace Dispatcher

structure State (R A : Type) where
  /-- The members that are still to be visited. -/
  todo : List String
  /-- The futures that the loop has pushed, until it hands them over. -/
  futures : List A := []
  /-- What has followed the loop. -/
  rest : Option R := none

inductive Action (Act : Type) where
  | visit
  | leave
  | go (act : Act)

variable {R A Act : Type} (d : Dispatcher R A Act)

def next (s : State R A) : Action Act → Option (State R A)
  | .visit =>
      match s.rest, s.todo with
      | none, hostname :: todo =>
          match select d.executorType d.plan d.hosts hostname with
          | .error e => some { s with rest := some (d.fails e) }
          | .ok none => some { s with todo }
          | .ok (some x) =>
              some { s with todo, futures := s.futures ++ [d.push s.futures.length x] }
      | _, _ => none
  | .leave =>
      match s.rest, s.todo with
      | none, [] => some { s with futures := [], rest := some (d.drains s.futures) }
      | _, _ => none
  | .go act =>
      match s.rest with
      | some r => (d.step r act).map fun r' => { s with rest := some r' }
      | none => none

/-- The dispatcher has visited no member yet. -/
def start : State R A := { todo := d.hosts.members }

/-- The loop as a function. -/
def loop : Dispatching PUnit := dispatchWith d.executorType d.plan d.hosts

/-- The futures of the members that have been visited. -/
def pushed (visited : List String) : List A :=
  (Effect.pushed (select d.executorType d.plan d.hosts) visited).mapIdx d.push

/-- No member has been refused. -/
def Passes (visited : List String) : Prop :=
  ∀ hostname ∈ visited, (select d.executorType d.plan d.hosts hostname).isOk

/-- Where a dispatcher can be. -/
inductive Inv : State R A → Prop where
  | looping {visited todo : List String} : d.hosts.members = visited ++ todo → d.Passes visited →
      Inv { todo, futures := d.pushed visited }
  | failed {visited todo : List String} {e : Report} {r : R} :
      Effect.outcome (d.loop []) = .error e →
      Reachable d.step (fun _ _ => True) (d.fails e) r →
      Inv { todo, futures := d.pushed visited, rest := some r }
  | draining {r : R} : d.loop.Succeeds →
      Reachable d.step (fun _ _ => True) (d.drains (d.loop.pushes.mapIdx d.push)) r →
      Inv { todo := [], rest := some r }

variable {d} {s t : State R A}

theorem pushes_loop : d.loop.pushes.mapIdx d.push = d.pushed d.hosts.members := by
  rw [loop, pushes_dispatchWith, pushed]

theorem Passes.concat {visited : List String} {hostname : String} (passes : d.Passes visited)
    (ok : (select d.executorType d.plan d.hosts hostname).isOk) :
    d.Passes (visited ++ [hostname]) := by
  intro m member
  rcases List.mem_append.mp member with old | new
  · exact passes m old
  · obtain rfl := List.mem_singleton.mp new
    exact ok

/-- What a member that passes adds to the futures. -/
theorem pushed_concat {visited : List String} {hostname : String} {r : Option Dispatch}
    (passes : d.Passes visited)
    (selected : select d.executorType d.plan d.hosts hostname = .ok r) :
    d.pushed (visited ++ [hostname]) =
      d.pushed visited ++ (r.map (d.push (d.pushed visited).length)).toList := by
  rw [pushed, pushed, Effect.pushed_append passes, List.length_mapIdx]
  cases r with
  | none => rw [Effect.pushed_cons_none selected, Effect.pushed_nil, List.append_nil,
      Option.map_none, Option.toList_none, List.append_nil]
  | some x => rw [Effect.pushed_cons_some selected, Effect.pushed_nil, List.mapIdx_concat,
      Option.map_some, Option.toList_some]

theorem inv_start : d.Inv d.start := by
  have none : d.Passes [] := fun _ h => absurd h List.not_mem_nil
  exact .looping rfl none

theorem Inv.next {act : Action Act} (inv : d.Inv s) (h : d.next s act = some t) : d.Inv t := by
  cases inv with
  | @looping visited todo split passes =>
      cases act with
      | visit =>
          cases todo with
          | nil => cases h
          | cons hostname todo =>
              simp only [Dispatcher.next] at h
              have on : d.hosts.members = visited ++ [hostname] ++ todo := by simpa using split
              split at h <;> cases h
              · rename_i e refused
                exact .failed ((Effect.forM_push_error _ _ _).mpr
                  ⟨visited, hostname, todo, split, passes, refused⟩) .start
              · rename_i skipped
                have same := pushed_concat passes skipped
                rw [Option.map_none, Option.toList_none, List.append_nil] at same
                rw [← same]
                exact .looping on (passes.concat (by rw [skipped]; rfl))
              · rename_i x selected
                have more := pushed_concat passes selected
                rw [Option.map_some, Option.toList_some] at more
                rw [← more]
                exact .looping on (passes.concat (by rw [selected]; rfl))
      | leave =>
          cases todo with
          | cons hostname todo => cases h
          | nil =>
              cases h
              rw [List.append_nil] at split
              rw [← split, ← pushes_loop]
              exact .draining (succeeds_dispatchWith.mpr fun m member =>
                select_isOk.mp (passes m (split ▸ member))) .start
      | go act => cases h
  | failed failed run =>
      cases act with
      | go act =>
          obtain ⟨r', stepped, rfl⟩ := Option.map_eq_some_iff.mp h
          exact .failed failed (run.step trivial stepped)
      | visit => cases h
      | leave => cases h
  | draining success run =>
      cases act with
      | go act =>
          obtain ⟨r', stepped, rfl⟩ := Option.map_eq_some_iff.mp h
          exact .draining success (run.step trivial stepped)
      | visit => cases h
      | leave => cases h

theorem inv_of_reachable (run : Reachable d.next (fun _ _ => True) d.start s) : d.Inv s :=
  run.invariant inv_start fun _ _ _ _ stepped inv => inv.next stepped

/-- From everywhere in the loop its end is reached. -/
theorem loop_ends : ∃ s, Reachable d.next (fun _ _ => True) d.start s ∧ s.rest.isSome := by
  have nearer : ∀ s : State R A, True → ¬ s.rest.isSome → ∃ act t, True ∧
      d.next s act = some t ∧ True ∧
        t.todo.length + (if t.rest.isSome then 0 else 1) <
          s.todo.length + (if s.rest.isSome then 0 else 1) := by
    rintro ⟨todo, futures, rest⟩ - within
    obtain rfl : rest = none := by simpa using within
    cases todo with
    | nil => exact ⟨.leave, _, trivial, rfl, trivial, by simp⟩
    | cons hostname todo =>
        refine ⟨.visit, ?_⟩
        simp only [Dispatcher.next]
        split
        · exact ⟨_, trivial, rfl, trivial, by simp⟩
        · exact ⟨_, trivial, rfl, trivial, by simp⟩
        · exact ⟨_, trivial, rfl, trivial, by simp⟩
  have reached : ∃ s, Reachable d.next (fun _ _ => True) d.start s ∧ True ∧ s.rest.isSome :=
    Reachable.of_measure _ nearer trivial
  obtain ⟨s, run, -, ended⟩ := reached
  exact ⟨s, run, ended⟩

/-- A caller that takes the loop for a single step gets to the same states. -/
theorem refines {first r : R} (begin : Act)
    (fails : ∀ e, Effect.outcome (d.loop []) = .error e → d.step first begin = some (d.fails e))
    (drains : d.loop.Succeeds →
      d.step first begin = some (d.drains (d.loop.pushes.mapIdx d.push)))
    (run : Reachable d.next (fun _ _ => True) d.start s) (left : s.rest = some r) :
    Reachable d.step (fun _ _ => True) first r := by
  cases inv_of_reachable run with
  | looping => cases left
  | failed failed rest =>
      obtain rfl := Option.some.inj left
      exact (Reachable.start.step trivial (fails _ failed)).trans rest
  | draining success rest =>
      obtain rfl := Option.some.inj left
      exact (Reachable.start.step trivial (drains success)).trans rest

/-- The dispatcher returns an error for its loop only, and then nothing has happened to the
futures that were pushed, nor is anything left of them. -/
structure AllOrNothing (d : Dispatcher R A Act) (result : R → Option (Except Report Unit))
    (left : R → List A) (untouched : A → Prop) : Prop where
  ends : ∃ s, Reachable d.next (fun _ _ => True) d.start s ∧ s.rest.isSome
  fails_iff : ∀ s r e, Reachable d.next (fun _ _ => True) d.start s → s.rest = some r →
    (result r = some (.error e) ↔ Effect.outcome (d.loop []) = .error e)
  nothing : ∀ s r e, Reachable d.next (fun _ _ => True) d.start s → s.rest = some r →
    result r = some (.error e) → left r = [] ∧ ∀ a ∈ s.futures, untouched a

theorem mem_pushed {visited : List String} {a : A} (h : a ∈ d.pushed visited) :
    ∃ i x, a = d.push i x := by
  obtain ⟨i, lt, rfl⟩ := List.mem_mapIdx.mp h
  exact ⟨i, _, rfl⟩

/-- A dispatcher does all or nothing if it keeps the error of its loop, and cannot get to
one while it drains. -/
theorem allOrNothing {result : R → Option (Except Report Unit)} {left : R → List A}
    {untouched : A → Prop} (fresh : ∀ i x, untouched (d.push i x))
    (fails : ∀ e r, Reachable d.step (fun _ _ => True) (d.fails e) r →
      result r = some (.error e) ∧ left r = [])
    (drains : ∀ futures e r, Reachable d.step (fun _ _ => True) (d.drains futures) r →
      result r ≠ some (.error e)) : d.AllOrNothing result left untouched where
  ends := loop_ends
  fails_iff := by
    intro s r e run after
    cases inv_of_reachable run with
    | looping => cases after
    | failed failed rest =>
        obtain rfl := Option.some.inj after
        rw [(fails _ _ rest).1, failed]
        simp
    | draining success rest =>
        obtain rfl := Option.some.inj after
        refine iff_of_false (drains _ e _ rest) fun failed => ?_
        rw [Dispatching.Succeeds, failed] at success
        cases success
  nothing := by
    intro s r e run after failure
    cases inv_of_reachable run with
    | looping => cases after
    | failed failed rest =>
        obtain rfl := Option.some.inj after
        refine ⟨(fails _ _ rest).2, fun a pushed => ?_⟩
        obtain ⟨i, x, rfl⟩ := mem_pushed pushed
        exact fresh i x
    | draining success rest =>
        obtain rfl := Option.some.inj after
        exact absurd failure (drains _ e _ rest)

end Dispatcher

end There
