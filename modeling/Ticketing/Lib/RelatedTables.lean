import Mathlib.Data.List.Forall2
import Ticketing.Lib.ExchangeSort
import Ticketing.Lib.OrderedTable

/-!
# Ordered tables with related rows

The same table at two levels: under every id a row of the one kind and a row of the other that stand in a
relation, such as a record in memory and the fields it holds.

* `OTable.Related` — the relation between the tables.
* `Related.get?`, `insert`, `update`, `scan` — the operations respect it.
* `exchangeSort_related` — so does a sort by related keys.
-/

set_option autoImplicit false

namespace OTable

variable {α β : Type} {R : α → β → Prop} {t : OTable α} {u : OTable β}

/-- The same ids, and related rows under them. -/
structure Related (R : α → β → Prop) (t : OTable α) (u : OTable β) : Prop where
  nextId : t.nextId = u.nextId
  rows : List.Forall₂ (fun r s => r.1 = s.1 ∧ R r.2 s.2) t.rows u.rows

theorem related_empty (n : Nat) : Related R (empty n) (empty n) := ⟨rfl, .nil⟩

theorem Related.get? (h : Related R t u) (id : Nat) : Option.Rel R (t.get? id) (u.get? id) := by
  have hfind : ∀ {rs : List (Nat × α)} {ss : List (Nat × β)},
      List.Forall₂ (fun r s => r.1 = s.1 ∧ R r.2 s.2) rs ss →
      Option.Rel R ((rs.find? (fun r => r.1 == id)).map Prod.snd) ((ss.find? (fun s => s.1 == id)).map Prod.snd) := by
    intro rs ss hrows
    induction hrows with
    | nil => exact .none
    | @cons r s rs ss hrs _ ih =>
      rw [List.find?_cons, List.find?_cons, hrs.1]
      split
      · exact .some hrs.2
      · exact ih
  exact hfind h.rows

theorem Related.insert {a : α} {b : β} (h : Related R t u) (hab : R a b) :
    Related R (t.insert a) (u.insert b) :=
  ⟨congrArg (· + 1) h.nextId,
    List.rel_append h.rows (List.Forall₂.cons ⟨h.nextId, hab⟩ .nil)⟩

theorem Related.update {a : α} {b : β} (h : Related R t u) (id : Nat) (hab : R a b) :
    Related R (t.update id a) (u.update id b) := by
  refine ⟨h.nextId, List.forall₂_map_left_iff.mpr (List.forall₂_map_right_iff.mpr (h.rows.imp ?_))⟩
  rintro r s ⟨hid, hrs⟩
  by_cases heq : r.1 = id
  · rw [if_pos heq, if_pos (hid ▸ heq)]
    exact ⟨hid, hab⟩
  · rw [if_neg heq, if_neg (hid ▸ heq)]
    exact ⟨hid, hrs⟩

theorem Related.scan {p : α → Bool} {q : β → Bool} (h : Related R t u) (hpq : ∀ a b, R a b → p a = q b)
    (n : Nat) : List.Forall₂ R ((t.scan p n).map Prod.snd) ((u.scan q n).map Prod.snd) := by
  have hfilter : ∀ {rs : List (Nat × α)} {ss : List (Nat × β)},
      List.Forall₂ (fun r s => r.1 = s.1 ∧ R r.2 s.2) rs ss →
      List.Forall₂ (fun r s => r.1 = s.1 ∧ R r.2 s.2) (rs.filter fun r => p r.2) (ss.filter fun s => q s.2) := by
    intro rs ss hrows
    induction hrows with
    | nil => exact .nil
    | @cons r s rs ss hrs _ ih =>
      rw [List.filter_cons, List.filter_cons, hpq r.2 s.2 hrs.2]
      split
      · exact .cons hrs ih
      · exact ih
  refine List.forall₂_map_left_iff.mpr (List.forall₂_map_right_iff.mpr ?_)
  exact (List.forall₂_take n (hfilter h.rows)).imp fun _ _ hrs => hrs.2

end OTable

/-! ## Related lists -/

section Lists

variable {α β : Type} {R : α → β → Prop} {f : α → Nat} {g : β → Nat}

theorem map_eq_of_related {γ : Type} {f : α → γ} {g : β → γ} (hfg : ∀ a b, R a b → f a = g b) {xs : List α}
    {ys : List β} (h : List.Forall₂ R xs ys) : xs.map f = ys.map g := by
  induction h with
  | nil => rfl
  | cons hab _ ih => rw [List.map_cons, List.map_cons, hfg _ _ hab, ih]

theorem exchangeRow_related (hfg : ∀ a b, R a b → f a = g b) {xs : List α} {ys : List β}
    (h : List.Forall₂ R xs ys) : ∀ {x : α} {y : β}, R x y →
      R (exchangeRow f x xs).1 (exchangeRow g y ys).1 ∧
        List.Forall₂ R (exchangeRow f x xs).2 (exchangeRow g y ys).2 := by
  induction h with
  | nil => exact fun hxy => ⟨hxy, .nil⟩
  | @cons a b xs ys hab _ ih =>
    intro x y hxy
    rw [exchangeRow, exchangeRow, hfg x y hxy, hfg a b hab]
    split
    · exact ⟨(ih hab).1, .cons hxy (ih hab).2⟩
    · exact ⟨(ih hxy).1, .cons hab (ih hxy).2⟩

/-- Sorting by related keys. -/
theorem exchangeSort_related (hfg : ∀ a b, R a b → f a = g b) {xs : List α} {ys : List β}
    (h : List.Forall₂ R xs ys) : List.Forall₂ R (exchangeSort f xs) (exchangeSort g ys) := by
  have hloop : ∀ n {xs : List α} {ys : List β}, List.Forall₂ R xs ys →
      List.Forall₂ R (exchangeSortLoop f n xs) (exchangeSortLoop g n ys) := by
    intro n
    induction n with
    | zero => exact fun h => h
    | succ n ih =>
      intro xs ys h
      cases h with
      | nil => exact .nil
      | cons hab hrest =>
        obtain ⟨hfirst, hsorted⟩ := exchangeRow_related hfg hrest hab
        exact .cons hfirst (ih hsorted)
  unfold exchangeSort
  rw [h.length_eq]
  exact hloop _ h

end Lists
