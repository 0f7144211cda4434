import Mathlib.Algebra.GroupWithZero.Nat
import Mathlib.Algebra.Order.BigOperators.Group.List
import Mathlib.Algebra.Order.Group.Nat

/-!
# Text that arrives in chunks

A stream of bytes is cut into chunks anywhere. If every chunk is valid UTF-8, then so is
the whole, and its text is the texts of the chunks one after the other. A decoder that
puts something longer in the place of an invalid chunk never arrives at the text of the
whole by accident: the sizes tell.

Splitting every chunk at a separator gives one piece too many for each cut.
-/

namespace Text

/-- The bytes of a stream from its chunks. -/
def joined (chunks : List ByteArray) : ByteArray := chunks.foldr (· ++ ·) ByteArray.empty

@[simp] theorem joined_nil : joined [] = ByteArray.empty := rfl

@[simp] theorem joined_cons (chunk : ByteArray) (chunks : List ByteArray) :
    joined (chunk :: chunks) = chunk ++ joined chunks := rfl

theorem joined_append (chunks chunks' : List ByteArray) :
    joined (chunks ++ chunks') = joined chunks ++ joined chunks' := by
  induction chunks with
  | nil => exact ByteArray.empty_append.symm
  | cons chunk chunks ih =>
      rw [List.cons_append, joined_cons, ih, joined_cons, ByteArray.append_assoc]

theorem size_joined (chunks : List ByteArray) :
    (joined chunks).size = (chunks.map ByteArray.size).sum := by
  induction chunks with
  | nil => rfl
  | cons chunk chunks ih =>
      rw [joined_cons, ByteArray.size_append, ih, List.map_cons, List.sum_cons]

theorem fromUTF8?_eq_some {bytes : ByteArray} {text : String} :
    String.fromUTF8? bytes = some text ↔ text.toByteArray = bytes := by
  rw [String.fromUTF8?]
  split
  · rw [Option.some.injEq, ← String.toByteArray_inj, eq_comm]
    rfl
  · rename_i invalid
    refine iff_of_false nofun ?_
    rintro rfl
    exact invalid text.isValidUTF8

section Decoding

variable {chunks : List ByteArray}

/-- The text of the whole is made of the texts of its chunks. -/
theorem fromUTF8?_joined (valid : ∀ chunk ∈ chunks, (String.fromUTF8? chunk).isSome) :
    String.fromUTF8? (joined chunks) = some (String.join (chunks.filterMap String.fromUTF8?)) := by
  induction chunks with
  | nil => exact fromUTF8?_eq_some.mpr rfl
  | cons chunk chunks ih =>
      obtain ⟨head, rest⟩ := List.forall_mem_cons.mp valid
      obtain ⟨text, decoded⟩ := Option.isSome_iff_exists.mp head
      have tail := fromUTF8?_eq_some.mp (ih rest)
      rw [List.filterMap_cons_some decoded, String.join_cons, fromUTF8?_eq_some,
        String.toByteArray_append, tail, fromUTF8?_eq_some.mp decoded, joined_cons]

theorem utf8ByteSize_join (texts : List String) :
    (String.join texts).utf8ByteSize = (texts.map String.utf8ByteSize).sum := by
  induction texts with
  | nil => rfl
  | cons text texts ih =>
      rw [String.join_cons, String.utf8ByteSize_append, ih, List.map_cons, List.sum_cons]

/-- Chunks that are decoded one by one, each invalid one to something longer than itself,
give the text of the whole exactly when none is invalid. -/
theorem join_decoded_iff (decode : ByteArray → String)
    (faithful : ∀ chunk text, String.fromUTF8? chunk = some text → decode chunk = text)
    (longer : ∀ chunk, String.fromUTF8? chunk = none →
      chunk.size < (decode chunk).utf8ByteSize) :
    String.fromUTF8? (joined chunks) = some (String.join (chunks.map decode)) ↔
      ∀ chunk ∈ chunks, (String.fromUTF8? chunk).isSome := by
  have least : ∀ chunk ∈ chunks, chunk.size ≤ (decode chunk).utf8ByteSize := fun chunk _ => by
    cases decoded : String.fromUTF8? chunk with
    | none => exact (longer chunk decoded).le
    | some text =>
        rw [faithful chunk text decoded, ← String.size_toByteArray, fromUTF8?_eq_some.mp decoded]
  constructor
  · intro whole chunk mem
    by_contra invalid
    have size := congrArg ByteArray.size (fromUTF8?_eq_some.mp whole)
    rw [String.size_toByteArray, utf8ByteSize_join, size_joined, List.map_map] at size
    exact absurd size (List.sum_lt_sum _ _ least
      ⟨chunk, mem, longer chunk (by simpa using invalid)⟩).ne'
  · intro valid
    have texts : chunks.map decode = chunks.filterMap String.fromUTF8? := by
      rw [← List.filterMap_eq_map]
      refine List.filterMap_congr fun chunk mem => ?_
      obtain ⟨text, decoded⟩ := Option.isSome_iff_exists.mp (valid chunk mem)
      rw [decoded, Function.comp_apply, faithful chunk text decoded]
    rw [texts]
    exact fromUTF8?_joined valid

end Decoding

section Sizes

theorem length_toList_loop (bytes : ByteArray) (i : Nat) (r : List UInt8) :
    (ByteArray.toList.loop bytes i r).length = r.length + (bytes.size - i) := by
  fun_induction ByteArray.toList.loop bytes i r with
  | case1 i r more ih =>
      rw [ih, List.length_cons]
      omega
  | case2 i r last =>
      rw [List.length_reverse]
      omega

theorem length_toList (bytes : ByteArray) : bytes.toList.length = bytes.size := by
  rw [ByteArray.toList, length_toList_loop, List.length_nil, Nat.zero_add, Nat.sub_zero]

theorem le_append_left {n : Nat} {s : String} (t : String) (h : n ≤ s.utf8ByteSize) :
    n ≤ (s ++ t).utf8ByteSize := by
  rw [String.utf8ByteSize_append]
  exact Nat.le_add_right_of_le h

theorem le_append_right {n : Nat} {t : String} (s : String) (h : n ≤ t.utf8ByteSize) :
    n ≤ (s ++ t).utf8ByteSize := by
  rw [String.utf8ByteSize_append]
  exact Nat.le_add_left_of_le h

/-- Texts with something in them are not shorter together than they are many. -/
theorem length_le_utf8ByteSize_join {texts : List String} (ne : ∀ text ∈ texts, text ≠ "") :
    texts.length ≤ (String.join texts).utf8ByteSize := by
  induction texts with
  | nil => exact Nat.zero_le _
  | cons text texts ih =>
      obtain ⟨head, rest⟩ := List.forall_mem_cons.mp ne
      have size : text.utf8ByteSize ≠ 0 := fun h => head (String.utf8ByteSize_eq_zero_iff.mp h)
      have := ih rest
      rw [String.join_cons, String.utf8ByteSize_append, List.length_cons]
      omega

end Sizes

section Splitting

variable {α : Type} [DecidableEq α]

theorem length_splitOn (sep : α) (xs : List α) : (xs.splitOn sep).length = xs.count sep + 1 := by
  induction xs with
  | nil => rfl
  | cons x xs ih =>
      rw [List.splitOn, List.splitOnP_cons_eq_if_modifyHead]
      rw [List.splitOn] at ih
      by_cases same : x = sep
      · simp [same, ih]
      · simp [same, ih, List.count_cons_of_ne]

/-- Every piece of text that is split by itself adds a piece to those of the whole. -/
theorem length_flatMap_splitOn (sep : α) (texts : List (List α)) :
    (texts.flatMap (·.splitOn sep)).length = texts.flatten.count sep + texts.length := by
  induction texts with
  | nil => rfl
  | cons text texts ih =>
      rw [List.flatMap_cons, List.length_append, ih, length_splitOn, List.flatten_cons,
        List.count_append, List.length_cons]
      omega

end Splitting

end Text
