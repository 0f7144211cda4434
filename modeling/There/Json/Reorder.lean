import There.Json.Parse
import Mathlib.Data.List.Sort

/-!
# The order of members

The order of the members of an object has no meaning in JSON. One value reorders another if
it has the same members in every object, in any order. Sorting the members by name is such a
reordering, and so is leaving them as they are.
-/

namespace Json

namespace Value

/-- What holds of scalars, and of arrays and objects of what it holds of, holds of all values. -/
@[elab_as_elim]
theorem induction {P : Value → Prop} (scalar : ∀ v : Value, v.depth = 0 → P v)
    (array : ∀ vs, (∀ v ∈ vs, P v) → P (.array vs))
    (object : ∀ ms, (∀ m ∈ ms, P m.2) → P (.object ms)) (v : Value) : P v := by
  have bounded : ∀ n (v : Value), v.depth ≤ n → P v := by
    intro n
    induction n with
    | zero => exact fun v flat => scalar v (Nat.le_zero.mp flat)
    | succ n ih =>
        intro v shallow
        cases v with
        | array vs =>
            refine array vs fun v member => ih v ?_
            exact Nat.le_trans (depth_le_elements member) (Nat.le_of_succ_le_succ shallow)
        | object ms =>
            refine object ms fun m member => ih m.2 ?_
            exact Nat.le_trans (depth_le_members member) (Nat.le_of_succ_le_succ shallow)
        | _ => exact scalar _ rfl
  exact bounded v.depth v (Nat.le_refl _)

mutual

/-- The first value is the second with the members of its objects in some order. -/
def Reorders : Value → Value → Prop
  | w, array vs => ∃ ws, w = array ws ∧ ReordersElements ws vs
  | w, object ms => ∃ ns ns', w = object ns ∧ ns.Perm ns' ∧ ReordersMembers ns' ms
  | w, v => w = v

def ReordersElements : List Value → List Value → Prop
  | ws, [] => ws = []
  | ws, v :: vs => ∃ w ws', ws = w :: ws' ∧ Reorders w v ∧ ReordersElements ws' vs

def ReordersMembers : List (String × Value) → List (String × Value) → Prop
  | ns, [] => ns = []
  | ns, (name, v) :: ms => ∃ w ns', ns = (name, w) :: ns' ∧ Reorders w v ∧ ReordersMembers ns' ms

end

/-- The same name with a reordered value. -/
def ReordersMember (n m : String × Value) : Prop := n.1 = m.1 ∧ n.2.Reorders m.2

theorem reordersElements_iff {ws vs : List Value} :
    ReordersElements ws vs ↔ List.Forall₂ Reorders ws vs := by
  induction vs generalizing ws with
  | nil => simp [ReordersElements]
  | cons v vs ih =>
      rw [ReordersElements, List.forall₂_cons_right_iff]
      constructor
      · rintro ⟨w, ws', rfl, first, others⟩
        exact ⟨w, ws', first, ih.mp others, rfl⟩
      · rintro ⟨w, ws', first, others, rfl⟩
        exact ⟨w, ws', rfl, first, ih.mpr others⟩

theorem reordersMembers_iff {ns ms : List (String × Value)} :
    ReordersMembers ns ms ↔ List.Forall₂ ReordersMember ns ms := by
  induction ms generalizing ns with
  | nil => simp [ReordersMembers]
  | cons m ms ih =>
      obtain ⟨name, v⟩ := m
      rw [ReordersMembers, List.forall₂_cons_right_iff]
      constructor
      · rintro ⟨w, ns', rfl, first, others⟩
        exact ⟨(name, w), ns', ⟨rfl, first⟩, ih.mp others, rfl⟩
      · rintro ⟨⟨_, w⟩, ns', ⟨rfl, first⟩, others, rfl⟩
        exact ⟨w, ns', rfl, first, ih.mpr others⟩

theorem reorders_array {w : Value} {vs : List Value} :
    w.Reorders (array vs) ↔ ∃ ws, w = array ws ∧ List.Forall₂ Reorders ws vs := by
  simp only [Reorders, reordersElements_iff]

theorem reorders_object {w : Value} {ms : List (String × Value)} :
    w.Reorders (object ms) ↔
      ∃ ns ns', w = object ns ∧ ns.Perm ns' ∧ List.Forall₂ ReordersMember ns' ms := by
  simp only [Reorders, reordersMembers_iff]

theorem reorders_scalar {w v : Value} (flat : v.depth = 0) : w.Reorders v ↔ w = v := by
  cases v with
  | array vs | object ms => exact absurd flat (Nat.succ_ne_zero _)
  | _ => rfl

theorem Reorders.refl (v : Value) : v.Reorders v := by
  induction v using Value.induction with
  | scalar v flat => exact (reorders_scalar flat).mpr rfl
  | array vs ih => exact reorders_array.mpr ⟨vs, rfl, List.forall₂_same.mpr ih⟩
  | object ms ih =>
      exact reorders_object.mpr ⟨ms, ms, rfl, .rfl, List.forall₂_same.mpr fun m member =>
        ⟨rfl, ih m member⟩⟩

theorem depthElements_le {vs : List Value} {n : Nat} :
    depthElements vs ≤ n ↔ ∀ v ∈ vs, v.depth ≤ n := by
  induction vs with
  | nil => simp [depthElements]
  | cons v vs ih => rw [depthElements, Nat.max_le, ih, List.forall_mem_cons]

theorem depthMembers_le {ms : List (String × Value)} {n : Nat} :
    depthMembers ms ≤ n ↔ ∀ m ∈ ms, m.2.depth ≤ n := by
  induction ms with
  | nil => simp [depthMembers]
  | cons m ms ih =>
      obtain ⟨name, v⟩ := m
      rw [depthMembers, Nat.max_le, ih, List.forall_mem_cons]

theorem depth_array_le {vs : List Value} {n : Nat} :
    (array vs).depth ≤ n + 1 ↔ ∀ v ∈ vs, v.depth ≤ n := by
  rw [depth, Nat.succ_le_succ_iff, depthElements_le]

theorem depth_object_le {ms : List (String × Value)} {n : Nat} :
    (object ms).depth ≤ n + 1 ↔ ∀ m ∈ ms, m.2.depth ≤ n := by
  rw [depth, Nat.succ_le_succ_iff, depthMembers_le]

/-- Each member of one list of a pair of related lists has a partner in the other. -/
theorem exists_of_forall₂ {α β : Type} {R : α → β → Prop} {xs : List α} {ys : List β}
    (related : List.Forall₂ R xs ys) {x : α} (member : x ∈ xs) : ∃ y ∈ ys, R x y := by
  induction related with
  | nil => cases member
  | cons first _ ih =>
      rcases List.mem_cons.mp member with rfl | member
      · exact ⟨_, List.mem_cons_self, first⟩
      · obtain ⟨y, there, here⟩ := ih member
        exact ⟨y, List.mem_cons_of_mem _ there, here⟩

/-- A relation may be replaced by what follows from it for the members of one list. -/
theorem imp_of_mem_right {α β : Type} {R S : α → β → Prop} {xs : List α} {ys : List β}
    (related : List.Forall₂ R xs ys) (imp : ∀ y ∈ ys, ∀ x, R x y → S x y) :
    List.Forall₂ S xs ys := by
  induction related with
  | nil => exact .nil
  | cons first _ ih =>
      rw [List.forall_mem_cons] at imp
      exact .cons (imp.1 _ first) (ih imp.2)

/-- A reordering is nested no deeper. -/
theorem Reorders.depth_le {w v : Value} (h : w.Reorders v) : w.depth ≤ v.depth := by
  induction v using Value.induction generalizing w with
  | scalar v flat => rw [(reorders_scalar flat).mp h]
  | array vs ih =>
      obtain ⟨ws, rfl, related⟩ := reorders_array.mp h
      refine depth_array_le.mpr fun w member => ?_
      obtain ⟨v, there, here⟩ := exists_of_forall₂ related member
      exact Nat.le_trans (ih v there here) (depth_le_elements there)
  | object ms ih =>
      obtain ⟨ns, ns', rfl, perm, related⟩ := reorders_object.mp h
      refine depth_object_le.mpr fun n member => ?_
      obtain ⟨m, there, -, here⟩ := exists_of_forall₂ related (perm.mem_iff.mp member)
      exact Nat.le_trans (ih m there here) (depth_le_members there)

/-- Names are compared character by character. -/
def nameLe : List Char → List Char → Bool
  | [], _ => true
  | _ :: _, [] => false
  | c :: cs, d :: ds => if c = d then nameLe cs ds else decide (c.toNat < d.toNat)

mutual

/-- The members of all objects sorted by name. -/
def sorted : Value → Value
  | array vs => array (sortedElements vs)
  | object ms => object
      ((sortedMembers ms).insertionSort fun m m' => nameLe m.1.toList m'.1.toList)
  | v => v

def sortedElements : List Value → List Value
  | [] => []
  | v :: vs => v.sorted :: sortedElements vs

def sortedMembers : List (String × Value) → List (String × Value)
  | [] => []
  | (name, v) :: ms => (name, v.sorted) :: sortedMembers ms

end

theorem forall₂_sortedElements {vs : List Value} (each : ∀ v ∈ vs, v.sorted.Reorders v) :
    List.Forall₂ Reorders (sortedElements vs) vs := by
  induction vs with
  | nil => exact .nil
  | cons v vs ih =>
      rw [List.forall_mem_cons] at each
      exact .cons each.1 (ih each.2)

theorem forall₂_sortedMembers {ms : List (String × Value)}
    (each : ∀ m ∈ ms, m.2.sorted.Reorders m.2) :
    List.Forall₂ ReordersMember (sortedMembers ms) ms := by
  induction ms with
  | nil => exact .nil
  | cons m ms ih =>
      rw [List.forall_mem_cons] at each
      exact .cons ⟨rfl, each.1⟩ (ih each.2)

/-- Sorting the members is a reordering. -/
theorem sorted_reorders (v : Value) : v.sorted.Reorders v := by
  induction v using Value.induction with
  | scalar v flat =>
      refine (reorders_scalar flat).mpr ?_
      cases v with
      | array vs | object ms => exact absurd flat (Nat.succ_ne_zero _)
      | _ => rfl
  | array vs ih => exact reorders_array.mpr ⟨_, rfl, forall₂_sortedElements ih⟩
  | object ms ih =>
      exact reorders_object.mpr
        ⟨_, _, rfl, List.perm_insertionSort _ _, forall₂_sortedMembers ih⟩

end Value

end Json
