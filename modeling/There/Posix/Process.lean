import There.Text.Chunks
import Mathlib.Logic.Function.Basic

/-!
# A child process and the pipes to its parent

A child has a pipe for each of its output streams. It writes to them and closes them, at
the latest when it exits, and the parent reads from them. How much a read returns is up to
the system, as long as it is something. A write that has to wait for room in the pipe is
one that has not taken place yet.

What was written to a pipe is what has been read from it followed by what is unread, and
that is all that a proof about a reader needs.
-/

namespace Posix

open Text

structure Pipe where
  /-- Everything that was ever written. -/
  written : ByteArray := .empty
  unread : ByteArray := .empty
  /-- No writing end is left. -/
  closed : Bool := false

namespace Pipe

def write (p : Pipe) (bytes : ByteArray) : Option Pipe :=
  if p.closed then none
  else some { p with written := p.written ++ bytes, unread := p.unread ++ bytes }

def close (p : Pipe) : Pipe := { p with closed := true }

/-- A read that returns `n` bytes. -/
def read (p : Pipe) (n : Nat) : Option (ByteArray × Pipe) :=
  if 0 < n ∧ n ≤ p.unread.size then
    some (p.unread.extract 0 n, { p with unread := p.unread.extract n p.unread.size })
  else none

/-- A read finds the end of the stream. -/
def atEnd (p : Pipe) : Bool := p.closed && p.unread.size == 0

/-- What was written is what was read in these chunks, and after it what is unread. -/
def Accounts (p : Pipe) (chunks : List ByteArray) : Prop := p.written = joined chunks ++ p.unread

variable {p p' : Pipe} {bytes : ByteArray} {chunks : List ByteArray} {n : Nat}

theorem write_eq_some (h : p.write bytes = some p') :
    p' = { p with written := p.written ++ bytes, unread := p.unread ++ bytes } := by
  rw [write] at h
  split at h
  · cases h
  · exact (Option.some.inj h).symm

theorem read_eq_some (h : p.read n = some (bytes, p')) :
    p.unread = bytes ++ p'.unread ∧ p' = { p with unread := p'.unread } := by
  rw [read] at h
  split at h
  · rename_i hn
    simp only [Option.some.injEq, Prod.mk.injEq] at h
    obtain ⟨rfl, rfl⟩ := h
    refine ⟨?_, rfl⟩
    rw [← ByteArray.extract_eq_extract_append_extract n (Nat.zero_le n) hn.2,
      ByteArray.extract_zero_size]
  · cases h

namespace Accounts

theorem write (h : p.Accounts chunks) (hw : p.write bytes = some p') : p'.Accounts chunks := by
  obtain rfl := write_eq_some hw
  rw [Accounts] at *
  rw [h, ByteArray.append_assoc]

theorem read (h : p.Accounts chunks) (hr : p.read n = some (bytes, p')) :
    p'.Accounts (chunks ++ [bytes]) := by
  obtain ⟨unread, same⟩ := read_eq_some hr
  rw [Accounts, joined_append, joined_cons, joined_nil, ByteArray.append_empty,
    ByteArray.append_assoc, ← unread, same]
  exact h

/-- Everything written was read exactly if nothing is unread. -/
theorem joined_eq_written_iff (h : p.Accounts chunks) :
    joined chunks = p.written ↔ p.unread = .empty := by
  rw [h, eq_comm]
  nth_rewrite 2 [← ByteArray.append_empty (b := joined chunks)]
  exact ByteArray.append_right_inj _

end Accounts

end Pipe

/-- A process with a pipe for each stream. -/
structure Process (τ : Type) where
  pipe : τ → Pipe := fun _ => {}
  exited : Bool := false

namespace Process

variable {τ : Type} [DecidableEq τ]

inductive Action (τ : Type) where
  | write (stream : τ) (bytes : ByteArray)
  | close (stream : τ)
  | exit

/-- A step of the process itself, which closes its pipes when it exits. -/
def step (p : Process τ) (act : Action τ) : Option (Process τ) :=
  if p.exited then none
  else match act with
    | .write stream bytes => ((p.pipe stream).write bytes).map fun pipe =>
        { p with pipe := Function.update p.pipe stream pipe }
    | .close stream =>
        some { p with pipe := Function.update p.pipe stream (p.pipe stream).close }
    | .exit => some { pipe := fun stream => (p.pipe stream).close, exited := true }

/-- The parent reads `n` bytes of a stream. -/
def read (p : Process τ) (stream : τ) (n : Nat) : Option (ByteArray × Process τ) :=
  ((p.pipe stream).read n).map fun (bytes, pipe) =>
    (bytes, { p with pipe := Function.update p.pipe stream pipe })

/-- Nothing is unread in any pipe. -/
def Drained (p : Process τ) : Prop := ∀ stream, (p.pipe stream).unread = .empty

/-- An action that writes nothing. -/
def Action.Silent : Action τ → Prop
  | .write _ bytes => bytes = .empty
  | _ => True

variable {p p' : Process τ} {act : Action τ} {chunks : τ → List ByteArray}

/-- What a step does to each pipe: a write to it adds something, and else it is the same,
closed perhaps. -/
theorem step_pipe (h : p.step act = some p') (stream : τ) :
    (∃ bytes, act = .write stream bytes ∧ (p.pipe stream).write bytes = some (p'.pipe stream)) ∨
    (∀ bytes, act ≠ .write stream bytes) ∧ (p'.pipe stream).unread = (p.pipe stream).unread ∧
      (p'.pipe stream).written = (p.pipe stream).written := by
  simp only [step] at h
  split at h
  · cases h
  · cases act with
    | write other bytes =>
        obtain ⟨pipe, written, rfl⟩ := Option.map_eq_some_iff.mp h
        by_cases same : stream = other
        · subst same
          exact .inl ⟨bytes, rfl, by simpa using written⟩
        · exact .inr (by simp [same, Ne.symm same])
    | close other =>
        obtain rfl := Option.some.inj h
        by_cases same : stream = other
        · subst same
          exact .inr (by simp [Pipe.close])
        · exact .inr (by simp [same])
    | exit =>
        obtain rfl := Option.some.inj h
        exact .inr ⟨nofun, rfl, rfl⟩

theorem running_of_step (h : p.step act = some p') : p.exited = false := by
  simp only [step] at h
  split at h
  · cases h
  · simpa using ‹¬ p.exited = true›

/-- What has been read is not changed by the process. -/
theorem accounts_step (h : p.step act = some p')
    (accounts : ∀ stream, (p.pipe stream).Accounts (chunks stream)) (stream : τ) :
    (p'.pipe stream).Accounts (chunks stream) := by
  obtain ⟨bytes, -, written⟩ | ⟨-, unread, written⟩ := step_pipe h stream
  · exact (accounts stream).write written
  · rw [Pipe.Accounts, unread, written]
    exact accounts stream

/-- A write leaves something unread, and nothing else does. -/
theorem drained_step (h : p.step act = some p') : p'.Drained ↔ p.Drained ∧ act.Silent := by
  constructor
  · intro drained
    constructor
    · intro stream
      obtain ⟨bytes, -, written⟩ | ⟨-, unread, -⟩ := step_pipe h stream
      · have unread := drained stream
        rw [Pipe.write_eq_some written] at unread
        exact (ByteArray.append_eq_empty_iff.mp unread).1
      · rw [← unread]
        exact drained stream
    · cases act with
      | write stream bytes =>
          obtain ⟨_, ⟨⟩, written⟩ | ⟨other, -⟩ := step_pipe h stream
          · have unread := drained stream
            rw [Pipe.write_eq_some written] at unread
            exact (ByteArray.append_eq_empty_iff.mp unread).2
          · exact absurd rfl (other bytes)
      | close | exit => trivial
  · rintro ⟨drained, silent⟩ stream
    obtain ⟨bytes, rfl, written⟩ | ⟨-, unread, -⟩ := step_pipe h stream
    · rw [Pipe.write_eq_some written, drained stream, show bytes = .empty from silent]
      exact ByteArray.empty_append
    · rw [unread]
      exact drained stream

theorem accounts_read {stream : τ} {n : Nat} {bytes : ByteArray}
    (h : p.read stream n = some (bytes, p'))
    (accounts : ∀ stream, (p.pipe stream).Accounts (chunks stream)) (other : τ) :
    (p'.pipe other).Accounts (chunks other ++ if stream = other then [bytes] else []) := by
  obtain ⟨⟨_, pipe⟩, read, eq⟩ := Option.map_eq_some_iff.mp h
  simp only [Prod.mk.injEq] at eq
  obtain ⟨rfl, rfl⟩ := eq
  by_cases same : stream = other
  · subst same
    simpa using (accounts stream).read read
  · simpa [same, Ne.symm same] using accounts other

end Process

end Posix
