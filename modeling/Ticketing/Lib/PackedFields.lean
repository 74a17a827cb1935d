import Ticketing.Lib.Bytes

/-!
# Fields of packed structures

A structure without padding is a row of bytes, and a field of it a range of them that holds a number,
little end first.

* `PackedField.get`, `PackedField.set` — read and write a field.
* `PackedField.get_set_self`, `get_set_ne` — a write changes its own field and no other.
* `PackedField.assign` — several writes in a row; `get_assign`, `get_assign_ne` for fields that lie apart.
-/

set_option autoImplicit false

/-- The place of a number in a structure. -/
structure PackedField where
  offset : Nat
  width : Nat
  deriving DecidableEq, Repr

namespace PackedField

open Bytes

/-- The number in the field. -/
def get (f : PackedField) (b : Bytes) : Nat := ofLE (slice f.offset f.width b)

/-- Store a number in the field. -/
def set (f : PackedField) (v : Nat) (b : Bytes) : Bytes := splice f.offset (toLE f.width v) b

/-- The fields do not overlap. -/
def Apart (f g : PackedField) : Prop := f.offset + f.width ≤ g.offset ∨ g.offset + g.width ≤ f.offset

instance (f g : PackedField) : Decidable (f.Apart g) := inferInstanceAs (Decidable (_ ∨ _))

variable {f g : PackedField} {b : Bytes}

theorem length_set (v : Nat) (h : f.offset + f.width ≤ b.length) : (f.set v b).length = b.length :=
  length_splice (by rwa [length_toLE])

/-- What is stored is read, as far as the field can hold it. -/
theorem get_set_self (v : Nat) (h : f.offset + f.width ≤ b.length) : f.get (f.set v b) = v % 256 ^ f.width := by
  have hslice := @slice_splice_self f.offset (toLE f.width v) b (by omega)
  rw [length_toLE] at hslice
  rw [get, set, hslice, ofLE_toLE]

/-- A write leaves the other fields alone. -/
theorem get_set_ne (v : Nat) (h : f.offset + f.width ≤ b.length) (hapart : f.Apart g) :
    g.get (f.set v b) = g.get b := by
  unfold get set
  rcases hapart with hbefore | hafter
  · rw [slice_splice_after (by rwa [length_toLE]) (by rwa [length_toLE])]
  · rw [slice_splice_before hafter (by omega)]

/-! ## Several fields -/

/-- Store the numbers one after another. -/
def assign (fs : List (PackedField × Nat)) (b : Bytes) : Bytes := fs.foldl (fun b fv => fv.1.set fv.2 b) b

theorem length_assign {fs : List (PackedField × Nat)} : ∀ {names : List PackedField} {b : Bytes},
    fs.map Prod.fst = names → (∀ f ∈ names, f.offset + f.width ≤ b.length) →
      (assign fs b).length = b.length := by
  induction fs with
  | nil => exact fun _ _ => rfl
  | cons fv fs ih =>
    rintro names b rfl hfit
    rw [List.map_cons, List.forall_mem_cons] at hfit
    have hlen := length_set fv.2 hfit.1
    exact (ih rfl (by rw [hlen]; exact hfit.2)).trans hlen

/-- A field that lies apart from all that are written. -/
theorem get_assign_ne {fs : List (PackedField × Nat)} : ∀ {names : List PackedField} {b : Bytes},
    fs.map Prod.fst = names → (∀ f ∈ names, f.offset + f.width ≤ b.length) → (∀ f ∈ names, f.Apart g) →
      g.get (assign fs b) = g.get b := by
  induction fs with
  | nil => exact fun _ _ _ => rfl
  | cons fv fs ih =>
    rintro names b rfl hfit hapart
    rw [List.map_cons, List.forall_mem_cons] at hfit hapart
    have hlen := length_set fv.2 hfit.1
    exact (ih rfl (by rw [hlen]; exact hfit.2) hapart.2).trans (get_set_ne fv.2 hfit.1 hapart.1)

/-- A field that is written once. -/
theorem get_assign {fs : List (PackedField × Nat)} {v : Nat} (hmem : (f, v) ∈ fs) :
    ∀ {names : List PackedField} {b : Bytes}, fs.map Prod.fst = names →
      (∀ f ∈ names, f.offset + f.width ≤ b.length) → names.Pairwise (fun f g => g.Apart f) →
      f.get (assign fs b) = v % 256 ^ f.width := by
  induction fs with
  | nil => cases hmem
  | cons fv fs ih =>
    rintro names b rfl hfit hapart
    rw [List.map_cons, List.forall_mem_cons] at hfit
    rw [List.map_cons, List.pairwise_cons] at hapart
    have hlen := length_set fv.2 hfit.1
    rcases List.mem_cons.mp hmem with rfl | hmem
    · exact (get_assign_ne rfl (by rw [hlen]; exact hfit.2) hapart.1).trans (get_set_self v hfit.1)
    · exact ih hmem rfl (by rw [hlen]; exact hfit.2) hapart.2

end PackedField
