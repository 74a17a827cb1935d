import Mathlib.Data.List.Basic

/-!
# First-in first-out channels

What has been put into a channel, what is on the way, and what has been taken out.

* `Channel.send`, `Channel.receive` — put several in, take the oldest out.
* `Channel.Intact` — nothing is lost, doubled or out of order; every operation keeps it.
-/

set_option autoImplicit false

/-- A channel with its history. -/
structure Channel (α : Type) where
  sent : List α
  pending : List α
  received : List α
  deriving DecidableEq, Repr

namespace Channel

variable {α : Type} {c : Channel α}

/-- A channel that is found with something in it. -/
def opened (left : List α) : Channel α := ⟨left, left, []⟩

/-- Putting `xs` in. -/
def send (c : Channel α) (xs : List α) : Channel α :=
  { c with sent := c.sent ++ xs, pending := c.pending ++ xs }

/-- Taking the oldest `n` out. -/
def receive (c : Channel α) (n : Nat) : Channel α :=
  { c with pending := c.pending.drop n, received := c.received ++ c.pending.take n }

/-- Nothing is lost, doubled or out of order. -/
def Intact (c : Channel α) : Prop := c.received ++ c.pending = c.sent

theorem intact_opened (left : List α) : (opened left).Intact := List.nil_append left

theorem Intact.send (h : c.Intact) (xs : List α) : (c.send xs).Intact := by
  unfold Intact at h ⊢
  show c.received ++ (c.pending ++ xs) = c.sent ++ xs
  rw [← List.append_assoc, h]

theorem Intact.receive (h : c.Intact) (n : Nat) : (c.receive n).Intact := by
  unfold Intact at h ⊢
  show c.received ++ c.pending.take n ++ c.pending.drop n = c.sent
  rw [List.append_assoc, List.take_append_drop, h]

/-- What has been taken out is the beginning of what was put in. -/
theorem Intact.received_prefix (h : c.Intact) : c.received <+: c.sent := ⟨c.pending, h⟩

/-- An empty channel has delivered everything. -/
theorem Intact.drained (h : c.Intact) (hempty : c.pending = []) : c.received = c.sent := by
  unfold Intact at h
  rw [hempty, List.append_nil] at h
  exact h

end Channel
