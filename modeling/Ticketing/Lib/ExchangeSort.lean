import Mathlib.Data.List.Perm.Basic

/-!
# Exchange sort

The nested loop `for i, for j > i: if key a[i] > key a[j] then swap` on lists.  One row of the
loop carries the smallest element seen so far to the front; `exchangeSort` repeats it on the rest.
-/

set_option autoImplicit false

section

variable {α : Type} (key : α → Nat)

/-- The inner loop: `x` stands at position `i`, the list behind it. -/
def exchangeRow : α → List α → α × List α
  | x, [] => (x, [])
  | x, y :: ys =>
    if key x > key y then
      let r := exchangeRow y ys
      (r.1, x :: r.2)
    else
      let r := exchangeRow x ys
      (r.1, y :: r.2)

theorem exchangeRow_perm : ∀ (ys : List α) (x : α),
    ((exchangeRow key x ys).1 :: (exchangeRow key x ys).2).Perm (x :: ys) := by
  intro ys
  induction ys with
  | nil => intro x; exact List.Perm.refl _
  | cons y ys ih =>
    intro x
    unfold exchangeRow
    split
    · exact (List.Perm.swap _ _ _).trans ((ih y).cons x)
    · exact (List.Perm.swap _ _ _).trans (((ih x).cons y).trans (List.Perm.swap _ _ _))

theorem exchangeRow_length (x : α) (ys : List α) :
    (exchangeRow key x ys).2.length = ys.length := by
  have := (exchangeRow_perm key ys x).length_eq
  simpa using this

theorem exchangeRow_le : ∀ (ys : List α) (x : α),
    key (exchangeRow key x ys).1 ≤ key x ∧
      ∀ y ∈ (exchangeRow key x ys).2, key (exchangeRow key x ys).1 ≤ key y := by
  intro ys
  induction ys with
  | nil => intro x; exact ⟨Nat.le_refl _, by simp [exchangeRow]⟩
  | cons y ys ih =>
    intro x
    unfold exchangeRow
    split
    · rename_i hgt
      obtain ⟨h1, h2⟩ := ih y
      refine ⟨by simp only; omega, ?_⟩
      intro z hz
      rcases List.mem_cons.mp hz with rfl | hz
      · simp only; omega
      · exact h2 z hz
    · rename_i hle
      obtain ⟨h1, h2⟩ := ih x
      refine ⟨h1, ?_⟩
      intro z hz
      rcases List.mem_cons.mp hz with rfl | hz
      · simp only; omega
      · exact h2 z hz

/-- The whole sort; the fuel is the length of the list. -/
def exchangeSortLoop : Nat → List α → List α
  | 0, l => l
  | _, [] => []
  | n + 1, x :: ys => (exchangeRow key x ys).1 :: exchangeSortLoop n (exchangeRow key x ys).2

/-- Sort by `key`, smallest first. -/
def exchangeSort (l : List α) : List α := exchangeSortLoop key l.length l

theorem exchangeSortLoop_perm : ∀ (n : Nat) (l : List α), (exchangeSortLoop key n l).Perm l := by
  intro n
  induction n with
  | zero => intro l; exact List.Perm.refl _
  | succ n ih =>
    intro l
    cases l with
    | nil => exact List.Perm.refl _
    | cons x ys => exact ((ih _).cons _).trans (exchangeRow_perm key ys x)

theorem exchangeSortLoop_sorted : ∀ (n : Nat) (l : List α), l.length ≤ n →
    (exchangeSortLoop key n l).Pairwise (fun a b => key a ≤ key b) := by
  intro n
  induction n with
  | zero =>
    intro l hl
    rw [List.eq_nil_of_length_eq_zero (Nat.le_zero.mp hl)]
    exact List.Pairwise.nil
  | succ n ih =>
    intro l hl
    cases l with
    | nil => exact List.Pairwise.nil
    | cons x ys =>
      rw [exchangeSortLoop, List.pairwise_cons]
      constructor
      · intro y hy
        exact (exchangeRow_le key ys x).2 y ((exchangeSortLoop_perm key n _).subset hy)
      · apply ih
        rw [exchangeRow_length]
        simpa using hl

theorem exchangeSort_perm (l : List α) : (exchangeSort key l).Perm l :=
  exchangeSortLoop_perm key _ l

theorem exchangeSort_sorted (l : List α) :
    (exchangeSort key l).Pairwise (fun a b => key a ≤ key b) :=
  exchangeSortLoop_sorted key _ l (Nat.le_refl _)

end
