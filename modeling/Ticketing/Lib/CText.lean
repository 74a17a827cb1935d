import Mathlib.Data.List.TakeWhile
import Mathlib.Algebra.Group.Int.Defs
import Mathlib.Algebra.Group.Nat.Defs

/-!
# C strings and number texts

A C string is the list of its bytes before the terminating NUL.  The character classes and
conversions are those of the "C" locale with 32-bit `int` and 64-bit `long`.

* `text` — the bytes of a string constant.
* `isSpace`, `toLower`, `strcasecmpEq` — `isspace`, `tolower`, `strcasecmp(...) == 0`.
* `strtol`, `atoi` — decimal conversion: saturating to `long`, then cut to `int`.
* `decimal`, `padRight`, `strlcpy` — `%u`, `%-5s`, and a bounded copy.
* `FloatLibc` — what the C library does with floating-point numbers.
-/

set_option autoImplicit false

namespace CText

/-- The bytes of a C string before its NUL. -/
abbrev CStr := List UInt8

/-- The bytes of a string constant. -/
def text (s : String) : CStr := s.toUTF8.data.toList

/-- `isspace`. -/
def isSpace (b : UInt8) : Bool := b == 32 || (decide (9 ≤ b) && decide (b ≤ 13))

/-- `tolower`. -/
def toLower (b : UInt8) : UInt8 := if 65 ≤ b ∧ b ≤ 90 then b + 32 else b

/-- `strcasecmp(a, b) == 0`. -/
def strcasecmpEq (a b : CStr) : Bool := a.map toLower == b.map toLower

/-- `isdigit`. -/
def isDigit (b : UInt8) : Bool := decide (48 ≤ b) && decide (b ≤ 57)

/-- The number a string of digits stands for. -/
def digitsValue (l : CStr) : Nat := l.foldl (fun n b => 10 * n + (b.toNat - 48)) 0

/-- `strtol(s, NULL, 10)`: white space, a sign, digits; out-of-range values saturate. -/
def strtol (s : CStr) : Int :=
  match s.dropWhile isSpace with
  | 45 :: r => max (-(digitsValue (r.takeWhile isDigit) : Int)) (-2 ^ 63)
  | 43 :: r => min (digitsValue (r.takeWhile isDigit) : Int) (2 ^ 63 - 1)
  | r => min (digitsValue (r.takeWhile isDigit) : Int) (2 ^ 63 - 1)

/-- `atoi`: the low 32 bits of `strtol`. -/
def atoi (s : CStr) : Int := (strtol s).bmod (2 ^ 32)

/-- The conversion of an `int` to `uint32_t`. -/
def toUInt32 (n : Int) : Nat := (n % 2 ^ 32).toNat

/-- The conversion of an `int` to `uint16_t`. -/
def toUInt16 (n : Int) : Nat := (n % 2 ^ 16).toNat

/-- `%u`. -/
def decimal (n : Nat) : CStr := (Nat.toDigits 10 n).map (fun c => UInt8.ofNat c.toNat)

/-- `%d`. -/
def decimalInt : Int → CStr
  | .ofNat n => decimal n
  | .negSucc n => 45 :: decimal (n + 1)

/-- `%-ws`: blanks to the right up to the width `w`. -/
def padRight (w : Nat) (s : CStr) : CStr := s ++ List.replicate (w - s.length) 32

/-- A copy into a buffer of `size` bytes, cut where its NUL has to stand. -/
def strlcpy (size : Nat) (s : CStr) : CStr := s.take (size - 1)

/-- The floating-point side of the C library, which stays a parameter. -/
structure FloatLibc where
  /-- `(float)atof(s)`. -/
  atof : CStr → Float32
  /-- `isfinite`. -/
  isFinite : Float32 → Bool
  /-- The comparison `x < 0`. -/
  isNegative : Float32 → Bool
  /-- `%.nf`. -/
  fixed : Nat → Float32 → CStr

/-! ## Digits -/

theorem isDigit_iff {b : UInt8} : isDigit b = true ↔ 48 ≤ b.toNat ∧ b.toNat ≤ 57 := by
  unfold isDigit
  rw [Bool.and_eq_true, decide_eq_true_eq, decide_eq_true_eq, UInt8.le_iff_toNat_le,
    UInt8.le_iff_toNat_le]
  exact Iff.rfl

/-- `%u` prints digits. -/
theorem isDigit_of_mem_decimal {n : Nat} {b : UInt8} (h : b ∈ decimal n) : isDigit b = true := by
  obtain ⟨c, hc, rfl⟩ := List.mem_map.mp h
  have hdigit : c.isDigit = true := Nat.isDigit_of_mem_toDigits (by omega) (by omega) hc
  have hbounds : 48 ≤ c.toNat ∧ c.toNat ≤ 57 := Char.isDigit_iff_toNat.mp hdigit
  rw [isDigit_iff, UInt8.toNat_ofNat']
  omega

/-- `%u` prints no more digits than the number has. -/
theorem length_decimal_le {n k : Nat} (hk : 0 < k) (h : n < 10 ^ k) : (decimal n).length ≤ k := by
  rw [decimal, List.length_map]
  exact (Nat.length_toDigits_le_iff (by decide) hk).mpr h

/-- And `%d` a sign more. -/
theorem length_decimalInt_le {n : Int} {k : Nat} (hk : 0 < k) (h : n.natAbs < 10 ^ k) :
    (decimalInt n).length ≤ k + 1 := by
  cases n with
  | ofNat n => exact Nat.le_succ_of_le (length_decimal_le hk h)
  | negSucc n => exact Nat.succ_le_succ (length_decimal_le hk h)

/-- No digit is a NUL. -/
theorem ne_zero_of_mem_decimalInt {n : Int} {b : UInt8} (h : b ∈ decimalInt n) : b ≠ 0 := by
  have hdigit : ∀ m, b ∈ decimal m → b ≠ 0 := fun m hb => by
    rintro rfl
    exact absurd (isDigit_of_mem_decimal hb) (by decide)
  cases n with
  | ofNat n => exact hdigit n h
  | negSucc n =>
    rcases List.mem_cons.mp h with rfl | h
    · decide
    · exact hdigit _ h

end CText
