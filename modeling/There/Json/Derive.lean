import There.Json.Reorder
import Mathlib.Data.List.AList
import Mathlib.Data.List.Perm.Basic

/-!
# Values as data

How values stand for the data of a program, in the way in which it is usually derived from
the declarations of its types: a record is an object with its fields as members, a map an
object with its keys, and a case of an enumeration an object with one member, or its name if
it carries nothing. A record may also be read from an array of its fields. A name that a
record does not know is passed over, and one that it knows may occur once.

`Reads` says that a decoder makes the right thing of a value, and of every value that has
the members of its objects in another order.
-/

namespace Json

variable {α β : Type}

section Decoders

def readString : Value → Option String
  | .string s => some s
  | _ => none

/-- A number of at most `bound`. -/
def readNat (bound : Nat) : Value → Option Nat
  | .number n => n.toNat?.filter (· ≤ bound)
  | _ => none

def readList (decode : Value → Option α) : Value → Option (List α)
  | .array vs => vs.mapM decode
  | _ => none

/-- A key that occurs again replaces the value it had. -/
def readMap (decode : Value → Option α) : Value → Option (AList fun _ : String => α)
  | .object ms => ms.foldlM (fun map m => (decode m.2).map (map.insert m.1)) ∅
  | _ => none

def readOption (decode : Value → Option α) : Value → Option (Option α)
  | .null => some none
  | v => (decode v).map some

/-- The fields of a record with these names. -/
def readFields (names : List String) : Value → Option (List (String × Value))
  | .object ms => if ∀ name ∈ names, (ms.map Prod.fst).count name ≤ 1 then some ms else none
  | .array vs => if vs.length = names.length then some (names.zip vs) else none
  | _ => none

/-- A field that has to be there. -/
def field (name : String) (decode : Value → Option α) (fields : List (String × Value)) :
    Option α :=
  (fields.lookup name).bind decode

/-- A field that has a value when it is left out. -/
def fieldOr (default : α) (name : String) (decode : Value → Option α)
    (fields : List (String × Value)) : Option α :=
  match fields.lookup name with
  | none => some default
  | some v => decode v

/-- A record with a single field. -/
def readSingle (name : String) (decode : Value → Option α) (v : Value) : Option α :=
  (readFields [name] v).bind (field name decode)

/-- The name of a case that carries nothing. -/
def readUnit : Value → Option String
  | .string name => some name
  | .object [(name, .null)] => some name
  | _ => none

/-- The name of a case and what it carries. -/
def readCase : Value → Option (String × Value)
  | .object [m] => some m
  | _ => none

end Decoders

/-- Whatever the order of the members, what is read is as expected. -/
def Reads (decode : Value → Option α) (v : Value) (expected : α → Prop) : Prop :=
  ∀ w : Value, w.Reorders v → ∃ a, decode w = some a ∧ expected a

namespace Reads

variable {decode : Value → Option α} {v : Value} {expected : α → Prop}

/-- What one value is read as. -/
theorem eq_some {a : α} (h : Reads decode v (· = a)) {w : Value} (reorders : w.Reorders v) :
    decode w = some a := by
  obtain ⟨_, read, rfl⟩ := h w reorders
  exact read

theorem string (s : String) : Reads readString (.string s) (· = s) := by
  intro w reorders
  rw [(Value.reorders_scalar rfl).mp reorders]
  exact ⟨s, rfl, rfl⟩

theorem nat {bound n : Nat} (le : n ≤ bound) :
    Reads (readNat bound) (.number (.ofNat n)) (· = n) := by
  intro w reorders
  rw [(Value.reorders_scalar rfl).mp reorders]
  exact ⟨n, by simp [readNat, le], rfl⟩

theorem mapM_eq_some {ws : List Value} {xs : List α}
    (decoded : List.Forall₂ (fun w x => decode w = some x) ws xs) : ws.mapM decode = some xs := by
  induction decoded with
  | nil => rfl
  | cons first _ ih =>
      rw [List.mapM_cons, first, Option.bind_eq_bind, Option.bind_some, ih]
      rfl

theorem list {encode : α → Value} {xs : List α}
    (each : ∀ x ∈ xs, Reads decode (encode x) (· = x)) :
    Reads (readList decode) (.array (xs.map encode)) (· = xs) := by
  intro w reorders
  obtain ⟨ws, rfl, related⟩ := Value.reorders_array.mp reorders
  have decoded := Value.imp_of_mem_right (List.forall₂_map_right_iff.mp related)
    fun x member w here => (each x member).eq_some here
  exact ⟨xs, mapM_eq_some decoded, rfl⟩

theorem option {encode : α → Value} {x : Option α} (solid : ∀ a, encode a ≠ .null)
    (each : ∀ a ∈ x, Reads decode (encode a) (· = a)) :
    Reads (readOption decode) (x.elim .null encode) (· = x) := by
  intro w reorders
  cases x with
  | none =>
      rw [(Value.reorders_scalar rfl).mp reorders]
      exact ⟨none, rfl, rfl⟩
  | some a =>
      have there : w ≠ .null := by
        rintro rfl
        have reorders : Value.null.Reorders (encode a) := reorders
        cases encoded : encode a with
        | null => exact solid a encoded
        | array vs | object ms => simp [encoded, Value.Reorders] at reorders
        | _ => simp [encoded, Value.Reorders] at reorders
      refine ⟨some a, ?_, rfl⟩
      have read := (each a rfl).eq_some reorders
      cases w with
      | null => exact absurd rfl there
      | _ => exact congrArg (Option.map some) read

/-- A name with a reordered value, whose decoding is the entry. -/
def DecodesTo (decode : Value → Option α) (m : String × Value) (e : Sigma fun _ : String => α) :
    Prop := m.1 = e.1 ∧ decode m.2 = some e.2

/-- Entries with new and distinct keys are added to a map one by one. -/
theorem foldlM_insert {ms : List (String × Value)} {es : List (Sigma fun _ : String => α)}
    (decoded : List.Forall₂ (DecodesTo decode) ms es) (map : AList fun _ : String => α)
    (distinct : (map.entries ++ es).NodupKeys) :
    ∃ map', ms.foldlM (fun map m => (decode m.2).map (map.insert m.1)) map = some map' ∧
      map'.entries.Perm (map.entries ++ es) := by
  induction decoded generalizing map with
  | nil => exact ⟨map, rfl, by rw [List.append_nil]⟩
  | @cons m e ms es first _ ih =>
      obtain ⟨name, value⟩ := first
      obtain ⟨fresh, rest⟩ := List.nodupKeys_cons.mp
        ((List.perm_nodupKeys List.perm_middle).mp distinct)
      have new : e.1 ∉ map := fun member => fresh (by
        rw [List.keys_append]
        exact List.mem_append_left _ member)
      have perm : ((map.insert e.1 e.2).entries ++ es).Perm (map.entries ++ e :: es) := by
        rw [AList.entries_insert_of_notMem new]
        exact List.perm_middle.symm
      obtain ⟨map', folded, entries⟩ := ih (map.insert e.1 e.2)
        ((List.perm_nodupKeys perm).mpr distinct)
      refine ⟨map', ?_, entries.trans perm⟩
      rw [List.foldlM_cons, name, value]
      exact folded

theorem map {encode : α → Value} (m : AList fun _ : String => α)
    (each : ∀ e ∈ m.entries, Reads decode (encode e.2) (· = e.2)) :
    Reads (readMap decode) (.object (m.entries.map fun e => (e.1, encode e.2)))
      (fun m' => m'.entries.Perm m.entries) := by
  intro w reorders
  obtain ⟨ns, ns', rfl, perm, related⟩ := Value.reorders_object.mp reorders
  have decoded : List.Forall₂ (DecodesTo decode) ns' m.entries :=
    Value.imp_of_mem_right (List.forall₂_map_right_iff.mp related) fun e member n here =>
      ⟨here.1, (each e member).eq_some here.2⟩
  obtain ⟨es, decoded, entries⟩ := List.perm_comp_forall₂ perm decoded
  obtain ⟨m', folded, perm'⟩ := foldlM_insert decoded ∅
    ((List.perm_nodupKeys entries).mpr m.nodupKeys)
  exact ⟨m', folded, perm'.trans entries⟩

/-- A name that occurs once is looked up. -/
theorem lookup_of_mem {ns : List (String × Value)} (distinct : (ns.map Prod.fst).Nodup)
    {n : String × Value} (member : n ∈ ns) : ns.lookup n.1 = some n.2 := by
  induction ns with
  | nil => cases member
  | cons n' ns ih =>
      obtain ⟨fresh, distinct⟩ := List.nodup_cons.mp distinct
      rcases List.mem_cons.mp member with rfl | member
      · exact List.lookup_cons_self
      · have other : n.1 ≠ n'.1 := fun same => fresh (same ▸ List.mem_map_of_mem member)
        rw [List.lookup_cons, beq_false_of_ne other]
        exact ih distinct member

/-- What was written for a field is found under its name. -/
def Holds (fs : List (String × Value)) (name : String) (v : Value) : Prop :=
  ∃ u, fs.lookup name = some u ∧ u.Reorders v

/-- Every field of a record is found under its name. -/
theorem fields {w : Value} {ms : List (String × Value)} (reorders : w.Reorders (.object ms))
    (distinct : (ms.map Prod.fst).Nodup) (names : List String) :
    ∃ fs, readFields names w = some fs ∧ ∀ m ∈ ms, Holds fs m.1 m.2 := by
  obtain ⟨ns, ns', rfl, perm, related⟩ := Value.reorders_object.mp reorders
  have same : ns'.map Prod.fst = ms.map Prod.fst := by
    rw [← List.forall₂_eq_eq_eq, List.forall₂_map_left_iff, List.forall₂_map_right_iff]
    exact related.imp fun _ _ here => here.1
  have distinct : (ns.map Prod.fst).Nodup := by
    rw [(perm.map Prod.fst).nodup_iff, same]
    exact distinct
  refine ⟨ns, if_pos fun name _ => List.nodup_iff_count_le_one.mp distinct name, ?_⟩
  intro m member
  obtain ⟨n, there, here⟩ := Value.exists_of_forall₂ related.flip member
  refine ⟨n.2, ?_, here.2⟩
  rw [← here.1]
  exact lookup_of_mem distinct (perm.mem_iff.mpr there)

theorem field {fs : List (String × Value)} {name : String} (h : Reads decode v expected)
    (holds : Holds fs name v) : ∃ a, Json.field name decode fs = some a ∧ expected a := by
  obtain ⟨u, found, reorders⟩ := holds
  obtain ⟨a, read, here⟩ := h u reorders
  exact ⟨a, by rw [Json.field, found, Option.bind_some, read], here⟩

theorem fieldOr {fs : List (String × Value)} {name : String} (h : Reads decode v expected)
    (default : α) (holds : Holds fs name v) :
    ∃ a, Json.fieldOr default name decode fs = some a ∧ expected a := by
  obtain ⟨u, found, reorders⟩ := holds
  obtain ⟨a, read, here⟩ := h u reorders
  exact ⟨a, by simp only [Json.fieldOr, found, read], here⟩

theorem single {name : String} (h : Reads decode v expected) :
    Reads (readSingle name decode) (.object [(name, v)]) expected := by
  intro w reorders
  obtain ⟨fs, read, each⟩ := fields reorders (List.nodup_singleton name) [name]
  obtain ⟨a, found, here⟩ := h.field (each _ List.mem_cons_self)
  exact ⟨a, by rw [readSingle, read, Option.bind_some, found], here⟩

/-- A case of an enumeration is found under its name. -/
theorem case {w v : Value} {name : String} (reorders : w.Reorders (.object [(name, v)])) :
    ∃ u, readCase w = some (name, u) ∧ u.Reorders v := by
  obtain ⟨ns, ns', rfl, perm, related⟩ := Value.reorders_object.mp reorders
  obtain ⟨⟨_, u⟩, rest, ⟨rfl, here⟩, others, rfl⟩ := List.forall₂_cons_right_iff.mp related
  obtain rfl := List.forall₂_nil_right_iff.mp others
  obtain rfl := List.perm_singleton.mp perm
  exact ⟨u, rfl, here⟩

/-- A text that is nested no deeper than is allowed is read as what was written. -/
theorem parse_print {limit : Nat} (format : Format limit) {w : Value}
    (h : Reads decode v expected) (reorders : w.Reorders v) (shallow : v.depth ≤ limit) :
    ∃ a, (format.parse (format.print w)).bind decode = some a ∧ expected a := by
  obtain ⟨a, read, here⟩ := h w reorders
  have shallow : w.depth ≤ limit := Nat.le_trans reorders.depth_le shallow
  exact ⟨a, by rw [format.parse_print w shallow, Option.bind_some, read], here⟩

end Reads

end Json
