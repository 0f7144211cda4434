import Mathlib.Data.List.Forall2
import Mathlib.Data.List.Nodup

/-!
# A collection of futures that is drained

The futures of a collection take steps, and the results of those that are ready are taken
one at a time, in whatever order they come. The order in which they have been taken is a
proof index only: no future knows its place in it.
-/

namespace Concurrent

variable {A β γ : Type}

/-- The results are those of the futures that are marked as taken, one for each of them. -/
def TakenOnce (taken : A → Prop) (gives : A → β → Prop) (futures : List A) (results : List β) :
    Prop :=
  ∃ order : List Nat, order.Nodup ∧ (∀ i, i ∈ order ↔ ∃ a ∈ futures[i]?, taken a) ∧
    List.Forall₂ (fun i b => ∃ a ∈ futures[i]?, gives a b) order results

namespace TakenOnce

variable {taken : A → Prop} {gives : A → β → Prop} {futures : List A} {results : List β}
variable {a a' : A} {b : β} {i : Nat}

theorem nil (fresh : ∀ a ∈ futures, ¬ taken a) : TakenOnce taken gives futures [] := by
  refine ⟨[], List.nodup_nil, fun i => iff_of_false List.not_mem_nil ?_, .nil⟩
  rintro ⟨a, here, done⟩
  exact fresh a (List.mem_of_getElem? here) done

/-- A future goes on. -/
theorem set (h : TakenOnce taken gives futures results) (here : futures[i]? = some a)
    (same : taken a' ↔ taken a) (keeps : ∀ b, gives a b → gives a' b) :
    TakenOnce taken gives (futures.set i a') results := by
  obtain ⟨order, once, marked, given⟩ := h
  have lt : i < futures.length := (List.getElem?_eq_some_iff.mp here).1
  refine ⟨order, once, fun j => ?_, given.imp fun j b => ?_⟩
  · rw [marked]
    by_cases at' : i = j
    · subst at'
      simp only [here, List.getElem?_set_self lt, Option.mem_def, Option.some.injEq,
        exists_eq_left', same]
    · rw [List.getElem?_set_ne at']
  · rintro ⟨c, there, gave⟩
    by_cases at' : i = j
    · subst at'
      obtain rfl := Option.some.inj (here.symm.trans there)
      exact ⟨a', List.getElem?_set_self lt, keeps b gave⟩
    · exact ⟨c, by rwa [List.getElem?_set_ne at'], gave⟩

/-- The result of a future is taken. -/
theorem take (h : TakenOnce taken gives futures results) (here : futures[i]? = some a)
    (before : ¬ taken a) (after : taken a') (keeps : ∀ b, gives a b → gives a' b)
    (gave : gives a' b) : TakenOnce taken gives (futures.set i a') (results ++ [b]) := by
  obtain ⟨order, once, marked, given⟩ := h
  have lt : i < futures.length := (List.getElem?_eq_some_iff.mp here).1
  have new : i ∉ order := by
    rw [marked]
    rintro ⟨c, there, done⟩
    obtain rfl := Option.some.inj (here.symm.trans there)
    exact before done
  refine ⟨order ++ [i], ?_, fun j => ?_, ?_⟩
  · exact List.nodup_append.mpr ⟨once, List.nodup_singleton i, by
      rintro j old k last rfl
      exact new (List.mem_singleton.mp last ▸ old)⟩
  · rw [List.mem_append, List.mem_singleton, marked]
    by_cases at' : i = j
    · subst at'
      simp [lt, after]
    · rw [List.getElem?_set_ne at', or_iff_left (Ne.symm at')]
  · refine List.rel_append (given.imp fun j b => ?_)
      (.cons ⟨a', List.getElem?_set_self lt, gave⟩ .nil)
    rintro ⟨c, there, gave⟩
    by_cases at' : i = j
    · subst at'
      obtain rfl := Option.some.inj (here.symm.trans there)
      exact ⟨a', List.getElem?_set_self lt, keeps b gave⟩
    · exact ⟨c, by rwa [List.getElem?_set_ne at'], gave⟩

/-- Something is made of each result. -/
theorem map {gives' : A → γ → Prop} {f : β → γ} (h : TakenOnce taken gives futures results)
    (imp : ∀ a ∈ futures, taken a → ∀ b, gives a b → gives' a (f b)) :
    TakenOnce taken gives' futures (results.map f) := by
  obtain ⟨order, once, marked, given⟩ := h
  refine ⟨order, once, marked, List.forall₂_map_right_iff.mpr ?_⟩
  refine ((List.forall₂_and_left _ _).mpr ⟨fun i => (marked i).mp, given⟩).imp ?_
  rintro i b ⟨⟨a, here, done⟩, c, there, gave⟩
  obtain rfl := Option.some.inj (here.symm.trans there)
  exact ⟨a, here, imp a (List.mem_of_getElem? here) done b gave⟩

/-- A future that is marked as taken has given one of the results. -/
theorem exists_result (h : TakenOnce taken gives futures results) (here : a ∈ futures)
    (done : taken a) : ∃ b ∈ results, gives a b := by
  obtain ⟨order, once, marked, given⟩ := h
  obtain ⟨i, here⟩ := List.mem_iff_getElem?.mp here
  obtain ⟨k, lt, rfl⟩ := List.mem_iff_getElem.mp ((marked i).mpr ⟨a, here, done⟩)
  have lt' : k < results.length := given.length_eq ▸ lt
  obtain ⟨c, there, gave⟩ := given.get lt lt'
  obtain rfl := Option.some.inj (here.symm.trans there)
  exact ⟨_, List.get_mem _ _, gave⟩

end TakenOnce

end Concurrent
