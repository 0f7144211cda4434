import Mathlib.Data.List.AList
import Mathlib.Data.List.Perm.Subperm

/-!
# Caches

A map that may forget. Whoever inserts a key, a new one or one that is present, gives the
cache the occasion to evict entries of other keys. Which ones is up to the cache and is
given with the insertion, so what is proved here holds whenever a cache evicts, and
whatever it evicts by.

That a cache holds no more entries than its capacity is an assumption on what it evicts,
and is made only where it is used.

Every fact is about what a lookup finds after an insertion, so a user of the library
does not look at the entries.
-/

namespace Concurrent

variable {κ ν : Type} [DecidableEq κ]

structure Cache (κ ν : Type) [DecidableEq κ] where
  capacity : Nat
  entries : AList fun _ : κ => ν

namespace Cache

def new (capacity : Nat) : Cache κ ν := ⟨capacity, ∅⟩

def size (c : Cache κ ν) : Nat := c.entries.keys.length

def get (c : Cache κ ν) (k : κ) : Option ν := c.entries.lookup k

/-- The entries that are left without the victims. -/
def survivors (c : Cache κ ν) (victims : List κ) : AList fun _ : κ => ν :=
  victims.foldl (fun entries w => entries.erase w) c.entries

/-- Insert a key. The victims are evicted, the key itself is not. -/
def insert (c : Cache κ ν) (k : κ) (v : ν) (victims : List κ) : Cache κ ν :=
  { c with entries := (c.survivors victims).insert k v }

/-- Read, modify and insert the value of a key; nothing happens without one. -/
def update (c : Cache κ ν) (k : κ) (f : ν → ν) (victims : List κ) : Cache κ ν :=
  match c.get k with
  | none => c
  | some v => c.insert k (f v) victims

variable {c : Cache κ ν} {k k' : κ} {v : ν} {victims : List κ} {f : ν → ν}

theorem lookup_survivors :
    (c.survivors victims).lookup k = if k ∈ victims then none else c.get k := by
  rw [survivors, get]
  generalize c.entries = entries
  induction victims generalizing entries with
  | nil => rfl
  | cons w victims ih =>
      rw [List.foldl_cons, ih]
      by_cases same : k = w
      · subst same
        simp
      · simp [same, AList.lookup_erase_ne same]

@[simp] theorem get_insert_self : (c.insert k v victims).get k = some v := AList.lookup_insert _

theorem get_insert_ne (ne : k' ≠ k) :
    (c.insert k v victims).get k' = if k' ∈ victims then none else c.get k' :=
  (AList.lookup_insert_ne ne).trans lookup_survivors

/-- Another key keeps its value or is evicted. -/
theorem get_insert_or (ne : k' ≠ k) : (c.insert k v victims).get k' = c.get k' ∨
    k' ∈ victims ∧ (c.insert k v victims).get k' = none := by
  rw [get_insert_ne ne]
  by_cases chosen : k' ∈ victims
  · exact .inr ⟨chosen, if_pos chosen⟩
  · exact .inl (if_neg chosen)

theorem get_insert_of_victim (ne : k' ≠ k) (chosen : k' ∈ victims) :
    (c.insert k v victims).get k' = none := by
  rw [get_insert_ne ne, if_pos chosen]

theorem update_eq_insert (h : c.get k = some v) :
    c.update k f victims = c.insert k (f v) victims := by
  rw [update, h]

theorem update_eq_self (h : c.get k = none) : c.update k f victims = c := by
  rw [update, h]

@[simp] theorem get_update_self : (c.update k f victims).get k = (c.get k).map f := by
  cases h : c.get k with
  | none =>
      rw [update_eq_self h, h]
      rfl
  | some v =>
      rw [update_eq_insert h, get_insert_self]
      rfl

/-- Another key keeps its value, or there is a value to insert and the key is evicted. -/
theorem get_update_or (ne : k' ≠ k) : (c.update k f victims).get k' = c.get k' ∨
    (c.get k).isSome ∧ k' ∈ victims ∧ (c.update k f victims).get k' = none := by
  cases h : c.get k with
  | none => exact .inl (by rw [update_eq_self h])
  | some v =>
      rw [update_eq_insert h]
      exact (get_insert_or ne).imp_right fun evicted => ⟨rfl, evicted⟩

theorem get_update_of_victim (ne : k' ≠ k) (found : (c.get k).isSome) (chosen : k' ∈ victims) :
    (c.update k f victims).get k' = none := by
  obtain ⟨v, found⟩ := Option.isSome_iff_exists.mp found
  rw [update_eq_insert found, get_insert_of_victim ne chosen]

/-- Distinct keys that are found are no more than the entries. -/
theorem length_le_size {ks : List κ} (distinct : ks.Nodup) (found : ∀ k ∈ ks, (c.get k).isSome) :
    ks.length ≤ c.size :=
  (List.subperm_of_subset distinct fun k member =>
    AList.mem_keys.mp (AList.lookup_isSome.mp (found k member))).length_le

/-- An insertion that evicts nothing makes the cache larger by one entry at most. -/
theorem size_insert_nil : (c.insert k v []).size ≤ c.size + 1 := by
  rw [size, insert, survivors, List.foldl_nil, AList.keys_insert, List.length_cons]
  exact Nat.succ_le_succ List.length_erase_le

/-- An insertion that evicts an entry does not make the cache larger. -/
theorem size_insert_singleton (h : (c.get k').isSome) : (c.insert k v [k']).size ≤ c.size := by
  have member : k' ∈ c.entries.keys := AList.mem_keys.mp (AList.lookup_isSome.mp h)
  have pos := List.length_pos_of_mem member
  have less : (c.entries.erase k').keys.length = c.entries.keys.length - 1 := by
    rw [AList.keys_erase, List.length_erase_of_mem member]
  have le := (List.length_erase_le : ((c.entries.erase k').keys.erase k).length ≤ _)
  change ((c.entries.erase k').insert k v).keys.length ≤ c.entries.keys.length
  rw [AList.keys_insert, List.length_cons]
  omega

/-- There is something to evict so that the cache holds no more than its capacity, and
nothing need be evicted while there is room. -/
theorem exists_victims (positive : 0 < c.capacity) (within : c.size ≤ c.capacity) (k : κ) (v : ν) :
    ∃ victims, (c.insert k v victims).size ≤ c.capacity ∧ (c.size < c.capacity → victims = []) := by
  by_cases room : c.size < c.capacity
  · exact ⟨[], Nat.le_trans size_insert_nil room, fun _ => rfl⟩
  · obtain ⟨w, member⟩ := List.exists_mem_of_length_pos (l := c.entries.keys) (by
      change 0 < c.size
      omega)
    have found : (c.get w).isSome := AList.lookup_isSome.mpr (AList.mem_keys.mpr member)
    exact ⟨[w], Nat.le_trans (size_insert_singleton found) within, fun full => absurd full room⟩

end Cache

end Concurrent
