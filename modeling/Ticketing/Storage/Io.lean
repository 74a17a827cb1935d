import Ticketing.Common.Types

/-!
# Input/output outcomes

Every system call of the storage engine may fail.  A run of the model is driven by a *script*
that says how each successive call ends; `IoScript.ok` is the script in which nothing fails, and
it is its own tail, so fault-free runs never mention it again.
-/

set_option autoImplicit false

namespace Ticketing

/-- How one `write`, `pwrite`, `pread`, `fsync` or allocation ends: completely, or with an error
after `n` bytes have been transferred. -/
inductive IoResult where
  | ok
  | short (n : Nat)
  deriving DecidableEq, Repr

/-- The outcomes of the successive calls of a run. -/
abbrev IoScript := Nat → IoResult

/-- Nothing fails. -/
def IoScript.ok : IoScript := fun _ => .ok

/-- The script after `n` calls. -/
def IoScript.drop (io : IoScript) (n : Nat) : IoScript := fun i => io (i + n)

@[simp] theorem IoScript.ok_apply (n : Nat) : IoScript.ok n = .ok := rfl

@[simp] theorem IoScript.drop_ok (n : Nat) : IoScript.ok.drop n = IoScript.ok := rfl

@[simp] theorem IoScript.drop_zero (io : IoScript) : io.drop 0 = io := rfl

@[simp] theorem IoScript.drop_drop (io : IoScript) (m n : Nat) :
    (io.drop m).drop n = io.drop (m + n) := by
  funext i
  rw [IoScript.drop, IoScript.drop, IoScript.drop, Nat.add_assoc, Nat.add_comm n m]

@[simp] theorem IoScript.drop_apply (io : IoScript) (n i : Nat) : io.drop n i = io (i + n) := rfl

/-- Append `buf` to a file; the flag says whether `write` returned the full length. -/
def osWrite (file buf : Bytes) : IoResult → Bytes × Bool
  | .ok => (file ++ buf, true)
  | .short n => (file ++ buf.take n, decide (buf.length ≤ n))

theorem osWrite_full {file buf : Bytes} {r : IoResult} (h : (osWrite file buf r).2 = true) :
    (osWrite file buf r).1 = file ++ buf := by
  cases r with
  | ok => rfl
  | short n =>
    simp only [osWrite, decide_eq_true_eq] at h
    simp [osWrite, List.take_of_length_le h]

end Ticketing
