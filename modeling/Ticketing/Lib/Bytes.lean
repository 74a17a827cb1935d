import Mathlib.Data.List.Basic
import Mathlib.Tactic.Ring

/-!
# Byte strings: little-endian numbers, slices and overwriting

The raw material of every on-disk format: a byte string is a list of bytes.

* `toLE w n` / `ofLE` — the `w` little-endian bytes of a number and the number of a byte string;
  `ofLE_toLE` is the round trip, exact modulo `256 ^ w`.
* `slice off n b` — the `n` bytes at offset `off` (fewer when `b` ends earlier, like a read).
* `splice off x b` — `b` with the bytes from `off` on overwritten by `x`.  `slice_splice_self`
  reads back what was written, `slice_splice_before` / `slice_splice_after` are the frame facts.
* `pwrite off x b` — overwriting that may extend the byte string, zero-filling a gap, as a
  positional write to a file does.
* `getD_splice`, `getD_pwrite`, `getD_slice` — the same operations byte by byte.
-/

set_option autoImplicit false

/-- A byte string. -/
abbrev Bytes := List UInt8

namespace Bytes

/-! ## Little-endian numbers -/

/-- The `w` little-endian bytes of `n`; higher bits are dropped. -/
def toLE : Nat → Nat → Bytes
  | 0, _ => []
  | w + 1, n => UInt8.ofNat (n % 256) :: toLE w (n / 256)

/-- The number with the given little-endian bytes. -/
def ofLE : Bytes → Nat
  | [] => 0
  | b :: bs => b.toNat + 256 * ofLE bs

@[simp] theorem length_toLE (w n : Nat) : (toLE w n).length = w := by
  induction w generalizing n with
  | zero => rfl
  | succ w ih => simp [toLE, ih]

theorem ofLE_toLE (w n : Nat) : ofLE (toLE w n) = n % 256 ^ w := by
  induction w generalizing n with
  | zero => simp [toLE, ofLE, Nat.mod_one]
  | succ w ih =>
    have hb : (UInt8.ofNat (n % 256)).toNat = n % 256 := by
      simp [UInt8.toNat_ofNat']
    rw [toLE, ofLE, ih, hb, Nat.pow_succ', Nat.mod_mul]

theorem ofLE_toLE_of_lt {w n : Nat} (h : n < 256 ^ w) : ofLE (toLE w n) = n := by
  rw [ofLE_toLE, Nat.mod_eq_of_lt h]

theorem ofLE_lt (b : Bytes) : ofLE b < 256 ^ b.length := by
  induction b with
  | nil => simp [ofLE]
  | cons x xs ih =>
    have hx := x.toNat_lt
    rw [ofLE, List.length_cons, Nat.pow_succ]
    omega

/-! ## Slices -/

/-- The `n` bytes at offset `off`; fewer when the byte string ends earlier. -/
def slice (off n : Nat) (b : Bytes) : Bytes := (b.drop off).take n

theorem length_slice {off n : Nat} {b : Bytes} (h : off + n ≤ b.length) :
    (slice off n b).length = n := by
  simp only [slice, List.length_take, List.length_drop]; omega

/-- A slice of a slice. -/
theorem slice_slice {off off' n n' : Nat} (b : Bytes) (h : off + n ≤ n') :
    slice off n (slice off' n' b) = slice (off' + off) n b := by
  simp only [slice]
  rw [List.drop_take, List.drop_drop, List.take_take, Nat.min_eq_left (by omega)]

theorem slice_append_left {off n : Nat} {a : Bytes} (h : off + n ≤ a.length) (b : Bytes) :
    slice off n (a ++ b) = slice off n a := by
  simp only [slice]
  rw [List.drop_append_of_le_length (by omega), List.take_append_of_le_length (by simp; omega)]

theorem slice_append_right (a b : Bytes) (off n : Nat) :
    slice (a.length + off) n (a ++ b) = slice off n b := by
  simp [slice]

/-- `b` with the bytes from `off` on replaced by `x`. -/
def splice (off : Nat) (x b : Bytes) : Bytes := b.take off ++ (x ++ b.drop (off + x.length))

theorem length_splice {off : Nat} {x b : Bytes} (h : off + x.length ≤ b.length) :
    (splice off x b).length = b.length := by
  simp only [splice, List.length_append, List.length_take, List.length_drop]; omega

theorem slice_splice_self {off : Nat} {x b : Bytes} (h : off ≤ b.length) :
    slice off x.length (splice off x b) = x := by
  have hl : (b.take off).length = off := by simp; omega
  have := slice_append_right (b.take off) (x ++ b.drop (off + x.length)) 0 x.length
  rw [hl, Nat.add_zero] at this
  rw [splice, this, slice, List.drop_zero, List.take_append_of_le_length (Nat.le_refl _),
    List.take_length]

/-- Bytes before the overwritten range are unchanged. -/
theorem slice_splice_before {off n i : Nat} {x b : Bytes} (h : i + n ≤ off) (hb : off ≤ b.length) :
    slice i n (splice off x b) = slice i n b := by
  have hl : (b.take off).length = off := by simp; omega
  rw [splice, slice_append_left (by omega)]
  conv_rhs => rw [← List.take_append_drop off b]
  rw [slice_append_left (by omega)]

/-- Bytes after the overwritten range are unchanged. -/
theorem slice_splice_after {off n i : Nat} {x b : Bytes} (h : off + x.length ≤ i)
    (hb : off + x.length ≤ b.length) : slice i n (splice off x b) = slice i n b := by
  have hl : (b.take off ++ x).length = off + x.length := by simp; omega
  obtain ⟨d, rfl⟩ : ∃ d, i = off + x.length + d := ⟨i - (off + x.length), by omega⟩
  have := slice_append_right (b.take off ++ x) (b.drop (off + x.length)) d n
  rw [hl] at this
  rw [splice, ← List.append_assoc, this, slice, slice, List.drop_drop]

/-! ## Positional writes -/

/-- Overwrite at `off`, extending the byte string and zero-filling a gap where needed. -/
def pwrite (off : Nat) (x b : Bytes) : Bytes :=
  splice off x (b ++ List.replicate (off + x.length - b.length) 0)

theorem length_pwrite (off : Nat) (x b : Bytes) :
    (pwrite off x b).length = max b.length (off + x.length) := by
  rw [pwrite, length_splice (by simp; omega)]
  simp; omega

/-! ## Single bytes, zero beyond the end -/

theorem getD_splice {off : Nat} {x b : Bytes} (h : off + x.length ≤ b.length) (i : Nat) :
    (splice off x b).getD i 0 =
      if off ≤ i ∧ i < off + x.length then x.getD (i - off) 0 else b.getD i 0 := by
  simp only [List.getD_eq_getElem?_getD, splice, List.getElem?_append, List.length_take,
    List.getElem?_drop, List.getElem?_take]
  have hmin : min off b.length = off := by omega
  rw [hmin]
  by_cases h1 : i < off
  · rw [if_pos h1, if_neg (show ¬ (off ≤ i ∧ i < off + x.length) by omega), if_pos h1]
  · rw [if_neg h1]
    by_cases h2 : i - off < x.length
    · rw [if_pos h2, if_pos (show off ≤ i ∧ i < off + x.length by omega)]
    · rw [if_neg h2, if_neg (show ¬ (off ≤ i ∧ i < off + x.length) by omega)]
      congr 2
      omega

theorem getD_pwrite (off : Nat) (x b : Bytes) (i : Nat) :
    (pwrite off x b).getD i 0 =
      if off ≤ i ∧ i < off + x.length then x.getD (i - off) 0 else b.getD i 0 := by
  rw [pwrite, getD_splice (by simp; omega)]
  congr 1
  simp only [List.getD_eq_getElem?_getD, List.getElem?_append]
  split
  · rfl
  · rename_i hge
    rw [List.getElem?_eq_none (by omega : b.length ≤ i), List.getElem?_replicate]
    split <;> rfl

theorem getD_slice (off n : Nat) (b : Bytes) (i : Nat) :
    (slice off n b).getD i 0 = if i < n then b.getD (off + i) 0 else 0 := by
  simp only [List.getD_eq_getElem?_getD, slice, List.getElem?_take, List.getElem?_drop]
  split <;> rfl

/-- Byte strings of one length are equal when their bytes are. -/
theorem ext_getD {a b : Bytes} (hlen : a.length = b.length)
    (h : ∀ i < a.length, a.getD i 0 = b.getD i 0) : a = b := by
  apply List.ext_getElem hlen
  intro i hi hi'
  have hbyte := h i hi
  rwa [List.getD_eq_getElem?_getD, List.getD_eq_getElem?_getD, List.getElem?_eq_getElem hi,
    List.getElem?_eq_getElem hi'] at hbyte

/-- Overwriting some bytes of a slice. -/
theorem splice_inside {off i n : Nat} {x b : Bytes} (hb : off + n ≤ b.length) (hx : i + x.length ≤ n) :
    splice (off + i) x b = splice off (splice i x (slice off n b)) b := by
  have hslice := length_slice hb
  have hin : (splice i x (slice off n b)).length = n := by rw [length_splice (by omega), hslice]
  apply ext_getD
  · rw [length_splice (by omega), length_splice (by omega)]
  · intro j _
    rw [getD_splice (by omega), getD_splice (by omega), hin, getD_splice (by omega), getD_slice]
    by_cases h : off + i ≤ j ∧ j < off + i + x.length
    · rw [if_pos h, if_pos (by omega), if_pos (by omega)]
      congr 1
      omega
    · rw [if_neg h]
      by_cases h' : off ≤ j ∧ j < off + n
      · rw [if_pos h', if_neg (by omega), if_pos (by omega)]
        congr 1
        omega
      · rw [if_neg h']

end Bytes
