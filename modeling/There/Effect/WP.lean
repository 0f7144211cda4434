import Mathlib.Data.List.TakeWhile
import Mathlib.Logic.Basic

/-!
# Weakest preconditions for computations that fail and keep their state

`EStateM` is the shape of an imperative function with an early return: an error
abandons the rest of the body but not what the body has done so far. The
postcondition therefore receives the outcome, value or error, together with the
state that is left behind in either case.

The rules are equivalences, so a body can be executed symbolically by rewriting.
Loops have an invariant rule and no unfolding rule.
-/

namespace Effect

variable {ε σ α β : Type}

/-- The value or the error that a computation ended with. -/
def outcome : EStateM.Result ε σ α → Except ε α
  | .ok a _ => .ok a
  | .error e _ => .error e

/-- The state that a computation left behind, whether it failed or not. -/
def finalState : EStateM.Result ε σ α → σ
  | .ok _ s => s
  | .error _ s => s

@[simp] theorem outcome_ok (a : α) (s : σ) :
    outcome (.ok a s : EStateM.Result ε σ α) = .ok a := rfl

@[simp] theorem outcome_error (e : ε) (s : σ) :
    outcome (.error e s : EStateM.Result ε σ α) = .error e := rfl

@[simp] theorem finalState_ok (a : α) (s : σ) :
    finalState (.ok a s : EStateM.Result ε σ α) = s := rfl

@[simp] theorem finalState_error (e : ε) (s : σ) :
    finalState (.error e s : EStateM.Result ε σ α) = s := rfl

@[simp] theorem isOk_ok (a : α) : (Except.ok a : Except ε α).isOk = true := rfl

@[simp] theorem isOk_error (e : ε) : (Except.error e : Except ε α).isOk = false := rfl

@[simp] theorem throw_run (e : ε) (s : σ) : (throw e : EStateM ε σ α) s = .error e s := rfl

/-- The computation started in `s` ends in an outcome and a state that satisfy `post`. -/
def WP (p : EStateM ε σ α) (post : Except ε α → σ → Prop) (s : σ) : Prop :=
  post (outcome (p s)) (finalState (p s))

theorem outcome_bind_eq_ok {p : EStateM ε σ α} {f : α → EStateM ε σ β} {s : σ} {b : β} :
    outcome ((p >>= f) s) = .ok b ↔
      ∃ a, outcome (p s) = .ok a ∧ outcome (f a (finalState (p s))) = .ok b := by
  change outcome (EStateM.bind p f s) = .ok b ↔ _
  rw [EStateM.bind]
  cases p s <;> simp

namespace WP

variable {p : EStateM ε σ α} {post post' : Except ε α → σ → Prop} {s : σ}

theorem mono (h : WP p post s) (imp : ∀ r t, post r t → post' r t) : WP p post' s :=
  imp _ _ h

@[simp] theorem pure_iff {a : α} : WP (pure a) post s ↔ post (.ok a) s := Iff.rfl

@[simp] theorem throw_iff {e : ε} : WP (throw e) post s ↔ post (.error e) s := Iff.rfl

@[simp] theorem modify_iff {f : σ → σ} {post : Except ε PUnit → σ → Prop} :
    WP (modify f) post s ↔ post (.ok ⟨⟩) (f s) := Iff.rfl

@[simp] theorem get_iff {post : Except ε σ → σ → Prop} :
    WP (MonadState.get : EStateM ε σ σ) post s ↔ post (.ok s) s := Iff.rfl

@[simp] theorem set_iff {t : σ} {post : Except ε PUnit → σ → Prop} :
    WP (set t) post s ↔ post (.ok ⟨⟩) t := Iff.rfl

/-- An early return leaves the state as it is. -/
@[simp] theorem ofExcept_iff {r : Except ε α} : WP (ofExcept r) post s ↔ post r s := by
  cases r <;> exact Iff.rfl

/-- An error of the first part skips the second. -/
theorem bind_iff {f : α → EStateM ε σ β} {post : Except ε β → σ → Prop} :
    WP (p >>= f) post s ↔
      WP p (fun r t => match r with
        | .ok a => WP (f a) post t
        | .error e => post (.error e) t) s := by
  change post (outcome (EStateM.bind p f s)) (finalState (EStateM.bind p f s)) ↔ _
  rw [WP, EStateM.bind]
  cases p s with
  | ok a t => exact Iff.rfl
  | error e t => exact Iff.rfl

/-- Compose a proved specification of the first part with the rest of the body. -/
theorem bind {f : α → EStateM ε σ β} {mid : Except ε α → σ → Prop}
    {post : Except ε β → σ → Prop} (first : WP p mid s)
    (value : ∀ a t, mid (.ok a) t → WP (f a) post t)
    (error : ∀ e t, mid (.error e) t → post (.error e) t) : WP (p >>= f) post s := by
  rw [bind_iff]
  refine first.mono fun r t hm => ?_
  cases r with
  | ok a => exact value a t hm
  | error e => exact error e t hm

/-- A loop keeps an invariant of the elements that are still to come. An
iteration that fails must establish the postcondition at once. -/
theorem forM {xs : List α} {body : α → EStateM ε σ PUnit}
    (inv : List α → σ → Prop) {post : Except ε PUnit → σ → Prop} (start : inv xs s)
    (iteration : ∀ x rest t, inv (x :: rest) t →
      WP (body x) (fun r u => match r with
        | .ok _ => inv rest u
        | .error e => post (.error e) u) t)
    (exit : ∀ t, inv [] t → post (.ok ⟨⟩) t) : WP (ForM.forM xs body) post s := by
  induction xs generalizing s with
  | nil => exact exit s start
  | cons x rest ih =>
      rw [List.forM_cons]
      exact (iteration x rest s start).bind (fun _ t ht => ih ht) (fun _ _ h => h)

end WP

/-- If the computation started in `s` returns a value, it satisfies `post` with the state
that is left. Nothing is said about a computation that fails. -/
def Returns (p : EStateM ε σ α) (post : α → σ → Prop) (s : σ) : Prop :=
  WP p (fun r t => ∀ a, r = .ok a → post a t) s

namespace Returns

variable {p : EStateM ε σ α} {post : α → σ → Prop} {s : σ}

theorem pure {a : α} (h : post a s) : Returns (pure a : EStateM ε σ α) post s := by
  rintro _ ⟨⟩
  exact h

theorem throw (e : ε) : Returns (throw e : EStateM ε σ α) post s := by
  rintro _ ⟨⟩

/-- Only a value of the first part is passed on. -/
theorem bind {f : α → EStateM ε σ β} {mid : α → σ → Prop} {post : β → σ → Prop}
    (first : Returns p mid s) (rest : ∀ a t, mid a t → Returns (f a) post t) :
    Returns (p >>= f) post s :=
  WP.bind first (fun a t h => rest a t (h a rfl)) fun e t _ a h => by cases h

theorem get_bind {f : σ → EStateM ε σ β} {post : β → σ → Prop} (h : Returns (f s) post s) :
    Returns (MonadState.get >>= f) post s :=
  WP.bind_iff.mpr (WP.get_iff.mpr h)

theorem modify_bind {g : σ → σ} {f : PUnit → EStateM ε σ β} {post : β → σ → Prop}
    (h : Returns (f ⟨⟩) post (g s)) : Returns (modify g >>= f) post s :=
  WP.bind_iff.mpr (WP.modify_iff.mpr h)

end Returns

/-- Whether the computation succeeds does not depend on the state. -/
def SucceedsIff (p : EStateM ε σ α) (good : Prop) : Prop :=
  ∀ s, (outcome (p s)).isOk ↔ good

namespace SucceedsIff

variable {p : EStateM ε σ α} {good good' : Prop}

theorem pure (a : α) : SucceedsIff (pure a : EStateM ε σ α) True := fun _ => by
  simp [Pure.pure, EStateM.pure]

theorem throw (e : ε) : SucceedsIff (throw e : EStateM ε σ α) False := fun _ => by
  simp

theorem modify (f : σ → σ) : SucceedsIff (modify f : EStateM ε σ PUnit) True :=
  fun _ => iff_of_true rfl trivial

theorem congr (h : SucceedsIff p good) (iff : good ↔ good') : SucceedsIff p good' :=
  fun s => (h s).trans iff

theorem bind {f : α → EStateM ε σ β} (first : SucceedsIff p good)
    (rest : ∀ a, SucceedsIff (f a) good') : SucceedsIff (p >>= f) (good ∧ good') := by
  intro s
  change (outcome (EStateM.bind p f s)).isOk ↔ _
  rw [EStateM.bind, ← first s]
  cases p s with
  | ok a t => simpa using rest a t
  | error e t => simp

theorem forM {xs : List α} {body : α → EStateM ε σ PUnit} {good : α → Prop}
    (each : ∀ x, SucceedsIff (body x) (good x)) :
    SucceedsIff (forM xs body) (∀ x ∈ xs, good x) := by
  induction xs with
  | nil =>
      rw [List.forM_nil]
      simpa using pure (ε := ε) (σ := σ) PUnit.unit
  | cons x xs ih =>
      rw [List.forM_cons]
      simpa using (each x).bind fun _ => ih

end SucceedsIff

/-- A loop over the items of every group is one loop over all items. -/
theorem forM_forM (groups : List α) (items : α → List β) (body : β → EStateM ε σ PUnit) :
    (forM groups fun g => forM (items g) body) = forM (groups.flatMap items) body := by
  induction groups with
  | nil => rfl
  | cons g groups ih => rw [List.flatMap_cons, List.forM_append, List.forM_cons, ih]

/-- The body of a loop that fails, skips its item, or pushes one result. -/
def push : Except ε (Option β) → EStateM ε (List β) PUnit
  | .error e => throw e
  | .ok none => pure ⟨⟩
  | .ok (some b) => modify (· ++ [b])

/-- What such a loop pushes: the results of the items before the first failure. -/
def pushed (f : α → Except ε (Option β)) (xs : List α) : List β :=
  (xs.takeWhile fun x => (f x).isOk).filterMap fun x => (f x).toOption.join

section Push

variable {f : α → Except ε (Option β)} {x : α} {xs : List α}

@[simp] theorem pushed_nil : pushed f [] = [] := rfl

theorem pushed_cons_error {e : ε} (h : f x = .error e) : pushed f (x :: xs) = [] := by
  simp [pushed, h]

theorem pushed_cons_none (h : f x = .ok none) : pushed f (x :: xs) = pushed f xs := by
  simp [pushed, h, Except.toOption]

theorem pushed_cons_some {b : β} (h : f x = .ok (some b)) :
    pushed f (x :: xs) = b :: pushed f xs := by
  simp [pushed, h, Except.toOption]

/-- Items that do not fail leave what follows them to itself. -/
theorem pushed_append {xs ys : List α} (good : ∀ x ∈ xs, (f x).isOk) :
    pushed f (xs ++ ys) = pushed f xs ++ pushed f ys := by
  rw [pushed, pushed, pushed, List.takeWhile_append_of_pos good, List.filterMap_append,
    List.takeWhile_eq_self_iff.mpr good]

theorem mem_pushed {b : β} (h : b ∈ pushed f xs) : ∃ x ∈ xs, f x = .ok (some b) := by
  obtain ⟨x, hx, hb⟩ := List.mem_filterMap.mp h
  refine ⟨x, (List.takeWhile_sublist _).subset hx, ?_⟩
  cases hf : f x with
  | error e => simp [hf, Except.toOption] at hb
  | ok r => simp_all [Except.toOption]

theorem forM_push (f : α → Except ε (Option β)) (xs : List α) (acc : List β) :
    finalState ((forM xs fun x => push (f x)) acc) = acc ++ pushed f xs ∧
      (outcome ((forM xs fun x => push (f x)) acc) = .ok ⟨⟩ ↔ ∀ x ∈ xs, (f x).isOk) := by
  induction xs generalizing acc with
  | nil => simp [pushed, pure, EStateM.pure]
  | cons x xs ih =>
      rw [List.forM_cons]
      cases hx : f x with
      | error e =>
          refine ⟨(pushed_cons_error hx).symm ▸ (List.append_nil acc).symm, ?_⟩
          simp [push, bind, EStateM.bind, hx]
      | ok r =>
          have head : (f x).isOk = true := by rw [hx]; rfl
          rw [List.forall_mem_cons, and_iff_right head]
          cases r with
          | none =>
              rw [pushed_cons_none hx]
              exact ih acc
          | some b =>
              rw [pushed_cons_some hx, List.append_cons]
              exact ih (acc ++ [b])

/-- The loop fails with the error of the first item that fails. -/
theorem forM_push_error (f : α → Except ε (Option β)) (xs : List α) (acc : List β) {e : ε} :
    outcome ((forM xs fun x => push (f x)) acc) = .error e ↔
      ∃ before x after, xs = before ++ x :: after ∧ (∀ y ∈ before, (f y).isOk) ∧
        f x = .error e := by
  constructor
  · intro failed
    induction xs generalizing acc with
    | nil => cases failed
    | cons x xs ih =>
        rw [List.forM_cons] at failed
        cases hx : f x with
        | error e' =>
            obtain rfl : e' = e := by
              simpa [push, hx, bind, EStateM.bind] using failed
            exact ⟨[], x, xs, rfl, by simp, hx⟩
        | ok r =>
            have rest : ∃ acc', outcome ((forM xs fun x => push (f x)) acc') = .error e := by
              rw [hx] at failed
              cases r with
              | none => exact ⟨acc, failed⟩
              | some b => exact ⟨acc ++ [b], failed⟩
            obtain ⟨acc', h⟩ := rest
            obtain ⟨before, y, after, rfl, good, hy⟩ := ih acc' h
            refine ⟨x :: before, y, after, rfl, List.forall_mem_cons.mpr ⟨?_, good⟩, hy⟩
            rw [hx]
            rfl
  · rintro ⟨before, x, after, rfl, good, hx⟩
    induction before generalizing acc with
    | nil =>
        simp [push, hx, bind, EStateM.bind]
    | cons y before ih =>
        obtain ⟨hy, good⟩ := List.forall_mem_cons.mp good
        rw [List.cons_append, List.forM_cons]
        cases hf : f y with
        | error e' => simp [hf] at hy
        | ok r =>
            cases r with
            | none => exact ih acc good
            | some b => exact ih (acc ++ [b]) good

end Push

end Effect
