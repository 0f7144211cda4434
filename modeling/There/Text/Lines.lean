import Mathlib.Data.List.Basic
import Mathlib.Data.List.Induction
import Mathlib.Logic.Function.Iterate

/-!
# Reading and writing the lines of a text

A reader takes a text apart after every separator, and what follows the last separator
is a piece as well. A writer appends a piece and a separator, whatever the text ends
with. The two agree on closed texts, which have nothing after their last separator: only
there does appending to the text append to its pieces.

For lines of characters the separator is the line feed, and a carriage return in front
of it is not part of the line.
-/

namespace Text

section Closed

variable {α : Type} {sep : α} {xs ys : List α}

/-- Nothing follows the last separator. -/
def Closed (sep : α) (xs : List α) : Prop := ∀ x ∈ xs.getLast?, x = sep

instance [DecidableEq α] : Decidable (Closed sep xs) :=
  Option.decidableForallMem xs.getLast?

@[simp] theorem closed_nil : Closed sep [] := by simp [Closed]

@[simp] theorem closed_concat {x : α} : Closed sep (xs ++ [x]) ↔ x = sep := by simp [Closed]

theorem Closed.tail {x : α} (h : Closed sep (x :: xs)) : Closed sep xs := by
  cases xs with
  | nil => exact closed_nil
  | cons y ys => exact h

/-- Every list is a closed one and a rest without separators. -/
theorem exists_closed_append (sep : α) (xs : List α) :
    ∃ front rest, xs = front ++ rest ∧ Closed sep front ∧ sep ∉ rest := by
  induction xs using List.reverseRecOn with
  | nil => exact ⟨[], [], rfl, closed_nil, List.not_mem_nil⟩
  | append_singleton xs x ih =>
      by_cases last : x = sep
      · exact ⟨xs ++ [x], [], (List.append_nil _).symm, closed_concat.mpr last, List.not_mem_nil⟩
      · obtain ⟨front, rest, rfl, closed, free⟩ := ih
        refine ⟨front, rest ++ [x], List.append_assoc .., closed, ?_⟩
        simpa [free] using Ne.symm last

/-- Such a list is closed only if the rest is empty. -/
theorem closed_append_iff (closed : Closed sep xs) (free : sep ∉ ys) :
    Closed sep (xs ++ ys) ↔ ys = [] := by
  cases ys using List.reverseRecOn with
  | nil => simpa using closed
  | append_singleton ys y =>
      rw [← List.append_assoc, closed_concat]
      simp only [List.mem_append, List.mem_singleton, not_or] at free
      simp [Ne.symm free.2]

end Closed

section Pieces

variable {α : Type} [DecidableEq α] {sep : α} {xs ys : List α}

/-- The pieces of a list, each up to a separator and including it. -/
def splitInclusive (sep : α) : List α → List (List α)
  | [] => []
  | x :: xs =>
      if x = sep then [x] :: splitInclusive sep xs
      else
        match splitInclusive sep xs with
        | [] => [[x]]
        | piece :: pieces => (x :: piece) :: pieces

theorem splitInclusive_ne_nil (sep : α) (h : xs ≠ []) : splitInclusive sep xs ≠ [] := by
  cases xs with
  | nil => exact absurd rfl h
  | cons x xs =>
      rw [splitInclusive]
      split
      · exact List.cons_ne_nil _ _
      · split <;> exact List.cons_ne_nil _ _

theorem splitInclusive_append (closed : Closed sep xs) :
    splitInclusive sep (xs ++ ys) = splitInclusive sep xs ++ splitInclusive sep ys := by
  induction xs with
  | nil => rfl
  | cons x xs ih =>
      rw [List.cons_append, splitInclusive, splitInclusive, ih closed.tail]
      by_cases here : x = sep
      · rw [if_pos here, if_pos here, List.cons_append]
      · have more : xs ≠ [] := by
          rintro rfl
          exact here (closed x rfl)
        rw [if_neg here, if_neg here]
        obtain ⟨piece, pieces, h⟩ := List.exists_cons_of_ne_nil (splitInclusive_ne_nil sep more)
        rw [h]
        rfl

/-- What has no separator is a single piece. -/
theorem splitInclusive_of_not_mem (free : sep ∉ xs) (h : xs ≠ []) :
    splitInclusive sep xs = [xs] := by
  induction xs with
  | nil => exact absurd rfl h
  | cons x xs ih =>
      simp only [List.mem_cons, not_or] at free
      rw [splitInclusive, if_neg (Ne.symm free.1)]
      cases xs with
      | nil => rfl
      | cons y ys => rw [ih free.2 (List.cons_ne_nil y ys)]

/-- And so is what has one at its end only. -/
theorem splitInclusive_concat (free : sep ∉ xs) :
    splitInclusive sep (xs ++ [sep]) = [xs ++ [sep]] := by
  induction xs with
  | nil => simp [splitInclusive]
  | cons x xs ih =>
      simp only [List.mem_cons, not_or] at free
      rw [List.cons_append, splitInclusive, if_neg (Ne.symm free.1), ih free.2]

end Pieces

/-- Drop one carriage return from the end. -/
def dropReturn (line : List Char) : List Char :=
  if line.getLast? = some '\r' then line.dropLast else line

/-- A piece of a text without its line ending, which it has if a line feed ends it. -/
def chomp (piece : List Char) : List Char :=
  if piece.getLast? = some '\n' then dropReturn piece.dropLast else piece

/-- `lines` of a text. -/
def lines (text : String) : List String :=
  (splitInclusive '\n' text.toList).map fun piece => String.ofList (chomp piece)

/-- A line as a reader finds it after it was written. -/
def readBack (line : String) : String := String.ofList (dropReturn line.toList)

/-- A text that is empty or ends with a line feed. -/
def Ended (text : String) : Prop := Closed '\n' text.toList

instance {text : String} : Decidable (Ended text) :=
  inferInstanceAs (Decidable (Closed '\n' text.toList))

section Lines

variable {text line rest : String}

theorem readBack_eq_self : readBack line = line ↔ line.toList.getLast? ≠ some '\r' := by
  rw [readBack, ← String.toList_inj, String.toList_ofList, dropReturn]
  split <;> rename_i h
  · have ne : line.toList ≠ [] := by
      intro empty
      rw [empty] at h
      cases h
    refine iff_of_false (fun same => ?_) (not_not.mpr h)
    have shorter := congrArg List.length same
    have := List.length_pos_iff.mpr ne
    rw [List.length_dropLast] at shorter
    omega
  · exact iff_of_true rfl h

/-- The end of a line decides whether it is read back as it is. -/
theorem readBack_append (ne : line ≠ "") (same : readBack line = line) :
    readBack (rest ++ line) = rest ++ line := by
  rw [readBack_eq_self] at same ⊢
  rwa [String.toList_append, List.getLast?_append_of_ne_nil _ (by simpa using ne)]

theorem exists_ended_append (text : String) :
    ∃ front rest, text = front ++ rest ∧ Ended front ∧ '\n' ∉ rest.toList := by
  obtain ⟨front, rest, split, closed, free⟩ := exists_closed_append '\n' text.toList
  refine ⟨String.ofList front, String.ofList rest, ?_, by simpa [Ended] using closed,
    by simpa using free⟩
  rw [← String.ofList_append, ← split, String.ofList_toList]

theorem ended_append_iff (ended : Ended text) (free : '\n' ∉ rest.toList) :
    Ended (text ++ rest) ↔ rest = "" := by
  rw [Ended, String.toList_append, closed_append_iff ended free, String.toList_eq_nil_iff]

theorem ended_write (text line : String) : Ended (text ++ line ++ "\n") := by
  rw [Ended, String.toList_append]
  exact closed_concat.mpr rfl

/-- A line that is written at the end of an ended text is one line more. -/
theorem lines_write (ended : Ended text) (free : '\n' ∉ line.toList) :
    lines (text ++ line ++ "\n") = lines text ++ [readBack line] := by
  have piece : chomp (line.toList ++ ['\n']) = dropReturn line.toList := by
    simp [chomp]
  rw [lines, String.append_assoc, String.toList_append, splitInclusive_append ended,
    List.map_append, String.toList_append]
  change _ ++ (splitInclusive '\n' (line.toList ++ ['\n'])).map _ = _
  rw [splitInclusive_concat free, List.map_singleton, piece]
  rfl

/-- What follows the last line feed is a line of its own. -/
theorem lines_append (ended : Ended text) (free : '\n' ∉ rest.toList) (ne : rest ≠ "") :
    lines (text ++ rest) = lines text ++ [rest] := by
  have piece : chomp rest.toList = rest.toList :=
    if_neg fun last => free (List.mem_of_getLast? last)
  rw [lines, String.toList_append, splitInclusive_append ended, List.map_append,
    splitInclusive_of_not_mem free (by simpa using ne), List.map_singleton, piece,
    String.ofList_toList]
  rfl

end Lines

/-- Write a line at the end of a text unless it is among the lines already. -/
def addLine (line text : String) : String :=
  if line ∈ lines text then text else text ++ line ++ "\n"

section AddLine

variable {text line : String}

theorem addLine_of_mem (h : line ∈ lines text) : addLine line text = text := if_pos h

theorem addLine_iterate_of_mem (h : line ∈ lines text) (n : Nat) : (addLine line)^[n] text = text :=
  Function.iterate_fixed (addLine_of_mem h) n

theorem ended_addLine (line : String) (ended : Ended text) : Ended (addLine line text) := by
  rw [addLine]
  split
  · exact ended
  · exact ended_write text line

/-- Adding a line to an ended text over and over never touches the lines that are there. -/
theorem exists_lines_addLine_iterate (free : '\n' ∉ line.toList) (ended : Ended text) (n : Nat) :
    ∃ m, lines ((addLine line)^[n] text) = lines text ++ List.replicate m (readBack line) := by
  induction n generalizing text with
  | zero => exact ⟨0, (List.append_nil _).symm⟩
  | succ n ih =>
      rw [Function.iterate_succ_apply]
      by_cases h : line ∈ lines text
      · rw [addLine_of_mem h]
        exact ih ended
      · obtain ⟨m, more⟩ := ih (ended_addLine line ended)
        refine ⟨m + 1, more.trans ?_⟩
        rw [addLine, if_neg h, lines_write ended free, List.append_assoc]
        rfl

/-- An ended text has the line after adding it, if it is read back as it is written. -/
theorem mem_lines_addLine (free : '\n' ∉ line.toList)
    (h : line ∈ lines text ∨ Ended text ∧ readBack line = line) :
    line ∈ lines (addLine line text) := by
  by_cases there : line ∈ lines text
  · rwa [addLine_of_mem there]
  · obtain ⟨ended, same⟩ := h.resolve_left there
    rw [addLine, if_neg there, lines_write ended free, same]
    exact List.mem_append_right _ (List.mem_singleton_self line)

theorem addLine_iterate_succ (free : '\n' ∉ line.toList)
    (h : line ∈ lines text ∨ Ended text ∧ readBack line = line) (n : Nat) :
    (addLine line)^[n + 1] text = addLine line text :=
  addLine_iterate_of_mem (mem_lines_addLine free h) n

/-- Adding a line over and over adds it once, and leaves the other lines alone, exactly if
it is there already or the text is ended and the line is read back as it is written. -/
theorem lines_addLine_iterate_iff (free : '\n' ∉ line.toList) (ne : line ≠ "") (text : String)
    (n : Nat) :
    lines ((addLine line)^[n + 1] text) = lines text ++ (if line ∈ lines text then [] else [line]) ↔
      line ∈ lines text ∨ Ended text ∧ readBack line = line := by
  by_cases h : line ∈ lines text
  · simp [h, addLine_iterate_of_mem h]
  · have first : addLine line text = text ++ line ++ "\n" := if_neg h
    rw [Function.iterate_succ_apply, if_neg h, or_iff_right h]
    by_cases ended : Ended text
    · have added : lines (addLine line text) = lines text ++ [readBack line] := by
        rw [first, lines_write ended free]
      constructor
      · intro same
        obtain ⟨m, more⟩ := exists_lines_addLine_iterate free (ended_addLine line ended) n
        rw [more, added, List.append_assoc] at same
        exact ⟨ended, (List.cons.inj (List.append_cancel_left same)).1⟩
      · rintro ⟨-, same⟩
        have once := addLine_iterate_succ free (.inr ⟨ended, same⟩) n
        rw [Function.iterate_succ_apply] at once
        rw [once, added, same]
    · refine iff_of_false (fun same => ?_) fun ⟨yes, _⟩ => ended yes
      obtain ⟨front, rest, rfl, closed, free'⟩ := exists_ended_append text
      have more : rest ≠ "" := mt (ended_append_iff closed free').mpr ended
      -- The line is appended to the rest, which no later addition separates from it.
      have joined : lines (addLine line (front ++ rest)) =
          lines front ++ [readBack (rest ++ line)] := by
        rw [first, congrArg (· ++ "\n") (String.append_assoc : front ++ rest ++ line = _),
          lines_write closed (by simp [free, free'])]
      obtain ⟨m, later⟩ := exists_lines_addLine_iterate free
        (first ▸ ended_write (front ++ rest) line) n
      rw [later, joined, lines_append closed free' more, List.append_assoc,
        List.append_assoc] at same
      obtain ⟨head, tail⟩ := List.cons.inj (List.append_cancel_left same)
      have single : readBack line = line := by
        have member : line ∈ List.replicate m (readBack line) := by
          rw [show List.replicate m (readBack line) = [line] from tail]
          exact List.mem_singleton_self line
        exact (List.eq_of_mem_replicate member).symm
      rw [readBack_append ne single] at head
      exact ne (by simpa using congrArg String.length head)

end AddLine

example : lines "a\r\n\nb" = ["a", "", "b"] := by decide

end Text
