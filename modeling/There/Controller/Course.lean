import There.Controller.Reader
import There.Executor.Schedule

/-!
# How far a future has come

What a `do_apply` has issued to its host by now is a beginning of the run of its
executor, which ends somewhere between the messages that it has sent and the next one.
Two futures whose executors have the same run can then differ in nothing but how far
they have come.
-/

namespace There

/-- A beginning of a list has any number of the results of a filter. -/
theorem exists_prefix_filterMap {α β : Type} (f : α → Option β) (xs : List α) (n : Nat) :
    ∃ ys, ys <+: xs ∧ ys.filterMap f = (xs.filterMap f).take n := by
  induction xs generalizing n with
  | nil => exact ⟨[], List.nil_prefix, by simp⟩
  | cons x xs ih =>
      cases hx : f x with
      | none =>
          obtain ⟨ys, first, same⟩ := ih n
          exact ⟨x :: ys, (List.prefix_cons_inj x).mpr first, by simpa [hx] using same⟩
      | some y =>
          cases n with
          | zero => exact ⟨[], List.nil_prefix, by simp⟩
          | succ n =>
              obtain ⟨ys, first, same⟩ := ih n
              exact ⟨x :: ys, (List.prefix_cons_inj x).mpr first, by simpa [hx] using same⟩

/-- What an executor may have issued by now: it goes through the events of its run, and
is somewhere between the messages that it has sent and the next one. -/
def Issued (events : List Event) (sent : Nat) (stage : Stage) (es : List Event) : Prop :=
  ∃ done, done <+: events ∧ messages done = (messages events).take sent ∧
    (stage.early → done = []) ∧ (stage.ran → done = events) ∧ es = actions done

/-- What the future has returned, until the drain loop takes it. -/
def Stage.result : Stage → Option ApplyResult
  | returned result => some result
  | _ => none

theorem Stage.result_eq_some {stage : Stage} {r : ApplyResult} :
    stage.result = some r ↔ stage = .returned r := by
  cases stage <;> simp [result]

/-- Two futures agree: what they have issued are beginnings of one list, and if both have
returned, they have issued the same and returned the same. -/
structure Agree (issued issued' : List Event → Prop) (result result' : Option ApplyResult) :
    Prop where
  issues : (∃ es, issued es) ∧ ∃ es, issued' es
  order : ∀ es es', issued es → issued' es' → es <+: es' ∨ es' <+: es
  complete : result.isSome → result'.isSome → ∀ es es', issued es → issued' es' → es = es'
  result : ∀ r r', result = some r → result' = some r' → r = r'

/-- A future is as far as another one: it has issued everything that the other one has,
and has returned what the other one has returned. -/
structure Ahead (issued issued' : List Event → Prop) (result result' : Option ApplyResult) :
    Prop where
  issues : ∀ es es', issued es → issued' es' → es' <+: es
  returns : ∀ r, result' = some r → result = some r

/-- How many stages are ahead of a future. -/
def Stage.left : Stage → Nat
  | pushed => 4
  | preparing => 3
  | executing => 2
  | joining _ => 1
  | returned _ => 0
  | collected => 0

/-- There is always something that an executor may have issued. -/
theorem Issued.exists {events : List Event} {sent : Nat} {stage : Stage}
    (unsent : stage.early → sent = 0)
    (ran : stage.ran → (messages events).take sent = messages events) :
    ∃ es, Issued events sent stage es := by
  by_cases past : stage.ran
  · refine ⟨_, events, List.prefix_rfl, (ran past).symm, fun early => ?_, fun _ => rfl, rfl⟩
    cases stage <;> simp_all [Stage.ran, Stage.early]
  by_cases early : stage.early
  · refine ⟨[], [], List.nil_prefix, ?_, fun _ => rfl, fun h => absurd h past, rfl⟩
    rw [unsent early]
    rfl
  · obtain ⟨done, first, same⟩ := exists_prefix_filterMap Event.message events sent
    exact ⟨_, done, first, same, fun h => absurd h early, fun h => absurd h past, rfl⟩

/-- Futures agree if they go through the same run to the same result. -/
theorem Issued.agree {events : List Event} {sent sent' : Nat} {stage stage' : Stage}
    {final : Option ApplyResult} (issues : ∃ es, Issued events sent stage es)
    (issues' : ∃ es, Issued events sent' stage' es)
    (ends : ∀ r, stage.result = some r → final = some r)
    (ends' : ∀ r, stage'.result = some r → final = some r) :
    Agree (Issued events sent stage) (Issued events sent' stage') stage.result stage'.result where
  issues := ⟨issues, issues'⟩
  order := by
    rintro _ _ ⟨done, first, -, -, -, rfl⟩ ⟨done', first', -, -, -, rfl⟩
    exact List.prefix_or_prefix_of_prefix (first.filter _) (first'.filter _)
  complete := by
    rintro returned returned' _ _ ⟨done, -, -, -, all, rfl⟩ ⟨done', -, -, -, all', rfl⟩
    have ran : ∀ {s : Stage}, s.result.isSome → s.ran := by
      intro s h
      cases s <;> simp_all [Stage.result, Stage.ran]
    rw [all (ran returned), all' (ran returned')]
  result := by
    intro r r' h h'
    exact Option.some.inj ((ends r h).symm.trans (ends' r' h'))

/-- Once the executor has nothing more to do, everything is issued. -/
theorem Issued.ahead {events : List Event} {sent sent' : Nat} {stage stage' : Stage}
    (ran : stage.ran) (returns : ∀ r, stage'.result = some r → stage.result = some r) :
    Ahead (Issued events sent stage) (Issued events sent' stage') stage.result stage'.result where
  issues := by
    rintro _ _ ⟨done, -, -, -, all, rfl⟩ ⟨done', first, -, -, -, rfl⟩
    rw [all ran]
    exact first.filter _
  returns := returns

end There
