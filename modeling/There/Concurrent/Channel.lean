import Mathlib.Data.List.TakeDrop

/-!
# Bounded channels

A bounded queue between senders and one receiver. A send waits while the queue is
full and fails once the receiver is gone. A receive that does not wait tells an
empty queue with a living sender from one without.

What has been sent is what has been taken followed by what is still queued. The two
operations keep this account, and it is all that a proof about a channel needs.
-/

namespace Concurrent

variable {α : Type}

inductive TryRecvError where
  | empty
  | disconnected
deriving Repr, DecidableEq

structure Channel (α : Type) where
  capacity : Nat
  buffer : List α := []
  /-- A sender is alive. -/
  sender : Bool := true
  /-- The receiver is alive. -/
  receiver : Bool := true
deriving Repr, DecidableEq

namespace Channel

/-- A send that finds room and a receiver; nothing if it has to wait or fails. -/
def send (c : Channel α) (a : α) : Option (Channel α) :=
  if c.receiver ∧ c.buffer.length < c.capacity then some { c with buffer := c.buffer ++ [a] }
  else none

def tryRecv (c : Channel α) : Except TryRecvError (α × Channel α) :=
  match c.buffer with
  | a :: rest => .ok (a, { c with buffer := rest })
  | [] => if c.sender then .error .empty else .error .disconnected

def dropSender (c : Channel α) : Channel α := { c with sender := false }

def dropReceiver (c : Channel α) : Channel α := { c with receiver := false }

@[simp] theorem dropReceiver_buffer (c : Channel α) : c.dropReceiver.buffer = c.buffer := rfl

variable {c c' : Channel α} {a : α} {sent taken : List α}

theorem send_eq_some (h : c.send a = some c') :
    c.receiver = true ∧ c' = { c with buffer := c.buffer ++ [a] } := by
  rw [send] at h
  split at h
  · rename_i hc
    exact ⟨hc.1, (Option.some.inj h).symm⟩
  · cases h

theorem tryRecv_eq_ok (h : c.tryRecv = .ok (a, c')) :
    c.buffer = a :: c'.buffer ∧ c' = { c with buffer := c'.buffer } := by
  rw [tryRecv] at h
  split at h
  · rename_i b rest hb
    simp only [Except.ok.injEq, Prod.mk.injEq] at h
    obtain ⟨rfl, rfl⟩ := h
    exact ⟨hb, rfl⟩
  · split at h <;> cases h

theorem tryRecv_eq_error {e : TryRecvError} (h : c.tryRecv = .error e) :
    c.buffer = [] ∧ (e = .disconnected ↔ c.sender = false) := by
  rw [tryRecv] at h
  split at h
  · cases h
  · rename_i hb
    split at h <;> obtain rfl := Except.error.inj h <;> simp_all

/-- The messages sent are those taken, and after them those still queued. -/
def Accounts (c : Channel α) (sent taken : List α) : Prop := sent = taken ++ c.buffer

namespace Accounts

theorem send (h : c.Accounts sent taken) (hs : c.send a = some c') :
    c'.Accounts (sent ++ [a]) taken := by
  obtain ⟨-, rfl⟩ := send_eq_some hs
  rw [Accounts] at *
  rw [h, List.append_assoc]

theorem tryRecv (h : c.Accounts sent taken) (hr : c.tryRecv = .ok (a, c')) :
    c'.Accounts sent (taken ++ [a]) := by
  obtain ⟨hb, -⟩ := tryRecv_eq_ok hr
  rw [Accounts] at *
  rw [h, hb, List.append_assoc, List.singleton_append]

/-- Everything sent has been taken when the queue is empty. -/
theorem drained (h : c.Accounts sent taken) (empty : c.buffer = []) : taken = sent := by
  rw [h, empty, List.append_nil]

section Script

variable {script : List α} {n : Nat}

theorem send_next (h : c.Accounts (script.take n) taken) (next : script[n]? = some a)
    (hs : c.send a = some c') : c'.Accounts (script.take (n + 1)) taken := by
  have grown : script.take (n + 1) = script.take n ++ [a] := by
    rw [List.take_add_one, next]
    rfl
  rw [grown]
  exact h.send hs

theorem mem_of_tryRecv (h : c.Accounts (script.take n) taken) (hr : c.tryRecv = .ok (a, c')) :
    a ∈ script := by
  obtain ⟨buffer, -⟩ := tryRecv_eq_ok hr
  apply List.mem_of_mem_take (i := n)
  rw [h, buffer]
  simp

/-- When a message is taken that nothing follows, everything has been sent and taken. -/
theorem tryRecv_last (h : c.Accounts (script.take n) taken) (hr : c.tryRecv = .ok (a, c'))
    (last : ∀ before after, script = before ++ a :: after → after = []) :
    script.take n = script ∧ c'.buffer = [] := by
  obtain ⟨buffer, -⟩ := tryRecv_eq_ok hr
  have split : script = taken ++ a :: (c'.buffer ++ script.drop n) := by
    calc script = script.take n ++ script.drop n := (List.take_append_drop _ _).symm
      _ = (taken ++ c.buffer) ++ script.drop n := by rw [h]
      _ = _ := by rw [buffer]; simp
  obtain ⟨empty, rest⟩ := List.append_eq_nil_iff.mp (last _ _ split)
  refine ⟨?_, empty⟩
  conv_rhs => rw [← List.take_append_drop n script, rest, List.append_nil]

end Script

end Accounts

end Channel

end Concurrent
