import Mathlib.Data.List.Induction
import Mathlib.Data.List.Nodup
import Mathlib.Logic.Function.Basic

/-!
# Doubly linked lists threaded through an array

The cells of an array carry the indices of their neighbours in a list.

* `Links`, `remove`, `pushFront`, `findBack` — the pointers and the operations on them.
* `Links.Represents` — the list the pointers stand for.
* `remove_spec`, `pushFront_spec`, `findBack_spec` — the operations on the list.
-/

set_option autoImplicit false

/-- The pointers of all cells, and the two ends. -/
structure Links where
  prev : Nat → Option Nat
  next : Nat → Option Nat
  head : Option Nat
  tail : Option Nat

namespace Links

/-- No cell is in the list. -/
def empty : Links := ⟨fun _ => none, fun _ => none, none, none⟩

/-- Take a cell out of the list. -/
def remove (l : Links) (a : Nat) : Links :=
  let l : Links :=
    match l.prev a with
    | some p => { l with next := Function.update l.next p (l.next a) }
    | none => { l with head := l.next a }
  let l : Links :=
    match l.next a with
    | some q => { l with prev := Function.update l.prev q (l.prev a) }
    | none => { l with tail := l.prev a }
  { l with prev := Function.update l.prev a none, next := Function.update l.next a none }

/-- Put a cell at the head of the list. -/
def pushFront (l : Links) (a : Nat) : Links :=
  let l : Links :=
    { l with prev := Function.update l.prev a none, next := Function.update l.next a l.head }
  let l : Links :=
    match l.head with
    | some h => { l with prev := Function.update l.prev h (some a) }
    | none => l
  let l : Links := { l with head := some a }
  if l.tail = none then { l with tail := some a } else l

/-- The first cell with a property on the way from a cell to the head. -/
def findBack (l : Links) (p : Nat → Bool) : Nat → Option Nat → Option Nat
  | _, none => none
  | 0, some _ => none
  | fuel + 1, some a => if p a then some a else findBack l p fuel (l.prev a)

/-- The pointers stand for a list without repetitions. -/
structure Represents (l : Links) (xs : List Nat) : Prop where
  nodup : xs.Nodup
  head : l.head = xs.head?
  tail : l.tail = xs.getLast?
  links : ∀ pre a post, xs = pre ++ a :: post → l.prev a = pre.getLast? ∧ l.next a = post.head?

theorem represents_empty : empty.Represents [] :=
  ⟨List.nodup_nil, rfl, rfl, fun pre a post h => by simp at h⟩

section Remove

variable {l : Links} {a : Nat}

theorem remove_next (hprev : l.prev a ≠ some a) (x : Nat) :
    (l.remove a).next x =
      if x = a then none else if l.prev a = some x then l.next a else l.next x := by
  rcases eq_or_ne x a with rfl | hxa
  · simp [remove]
  · cases hp : l.prev a with
    | none =>
      simp only [remove, hp, Function.update_of_ne hxa]
      cases hq : l.next a <;> simp [hxa]
    | some p =>
      have hpa : a ≠ p := by
        rintro rfl
        exact hprev hp
      have hq : (Function.update l.next p (l.next a)) a = l.next a := Function.update_of_ne hpa _ _
      simp only [remove, hp, hq, Function.update_of_ne hxa]
      rcases eq_or_ne x p with rfl | hxp
      · cases hn : l.next a <;> simp [hxa]
      · have hpx : p ≠ x := fun h => hxp h.symm
        cases hn : l.next a <;> simp [hxa, hxp, hpx]

theorem remove_prev (hprev : l.prev a ≠ some a) (hnext : l.next a ≠ some a) (x : Nat) :
    (l.remove a).prev x =
      if x = a then none else if l.next a = some x then l.prev a else l.prev x := by
  rcases eq_or_ne x a with rfl | hxa
  · simp [remove]
  · cases hp : l.prev a with
    | none =>
      simp only [remove, hp]
      cases hq : l.next a with
      | none => simp [hxa]
      | some q =>
        rcases eq_or_ne x q with rfl | hxq
        · simp [hxa]
        · have hqx : q ≠ x := fun h => hxq h.symm
          simp [hxa, hxq, hqx]
    | some p =>
      have hpa : a ≠ p := by
        rintro rfl
        exact hprev hp
      have hkeep : (Function.update l.next p (l.next a)) a = l.next a := Function.update_of_ne hpa _ _
      simp only [remove, hp, hkeep]
      cases hq : l.next a with
      | none => simp [hxa]
      | some q =>
        rcases eq_or_ne x q with rfl | hxq
        · simp [hxa]
        · have hqx : q ≠ x := fun h => hxq h.symm
          simp [hxa, hxq, hqx]

theorem remove_head (hprev : l.prev a ≠ some a) :
    (l.remove a).head = if l.prev a = none then l.next a else l.head := by
  cases hp : l.prev a with
  | none => simp only [remove, hp]; cases hq : l.next a <;> simp
  | some p =>
    have hpa : a ≠ p := by
      rintro rfl
      exact hprev hp
    have hkeep : (Function.update l.next p (l.next a)) a = l.next a := Function.update_of_ne hpa _ _
    simp only [remove, hp, hkeep]
    cases hq : l.next a <;> simp

theorem remove_tail (hprev : l.prev a ≠ some a) :
    (l.remove a).tail = if l.next a = none then l.prev a else l.tail := by
  cases hp : l.prev a with
  | none => simp only [remove, hp]; cases hq : l.next a <;> simp
  | some p =>
    have hpa : a ≠ p := by
      rintro rfl
      exact hprev hp
    have hkeep : (Function.update l.next p (l.next a)) a = l.next a := Function.update_of_ne hpa _ _
    simp only [remove, hp, hkeep]
    cases hq : l.next a <;> simp

/-- **Taking a cell out.** -/
theorem remove_spec {pre post : List Nat} (h : l.Represents (pre ++ a :: post)) :
    (l.remove a).Represents (pre ++ post) := by
  obtain ⟨hpa, hna⟩ := h.links pre a post rfl
  have hnd := h.nodup
  rw [List.nodup_append, List.nodup_cons] at hnd
  obtain ⟨hpre, ⟨hapost, hpost⟩, hdisj⟩ := hnd
  have hapre : a ∉ pre := fun ha => hdisj a ha a List.mem_cons_self rfl
  have hself : l.prev a ≠ some a := by
    rw [hpa]
    exact fun ha => hapre (List.mem_of_getLast? ha)
  have hself' : l.next a ≠ some a := by
    rw [hna]
    exact fun ha => hapost (List.mem_of_mem_head? ha)
  refine ⟨?_, ?_, ?_, ?_⟩
  · rw [List.nodup_append]
    exact ⟨hpre, hpost, fun x hx y hy => hdisj x hx y (List.mem_cons_of_mem _ hy)⟩
  · rw [remove_head hself, hpa, hna, h.head]
    cases pre with
    | nil => simp
    | cons x pre => simp
  · rw [remove_tail hself, hpa, hna, h.tail]
    cases post with
    | nil => simp
    | cons x post =>
      simp [List.getLast?_append]
  · intro pre' b post' hsplit
    rw [remove_prev hself hself', remove_next hself]
    obtain ⟨mid, rfl, hmid⟩ | ⟨mid, rfl, hmid⟩ := List.append_eq_append_iff.mp hsplit
    · -- `b` comes after `a`
      have hold := h.links (pre ++ a :: mid) b post' (by simp [hmid])
      have hba : b ≠ a := by
        rintro rfl
        exact hapost (by simp [hmid])
      have hlast : pre.getLast? ≠ some b := by
        intro hb
        exact hdisj b (List.mem_of_getLast? hb) b (by simp [hmid]) rfl
      rw [if_neg hba, if_neg hba, hpa, hna, if_neg hlast, hold.1, hold.2]
      refine ⟨?_, rfl⟩
      cases mid with
      | nil => simp [hmid]
      | cons m mid =>
        have hmb : m ≠ b := by
          rintro rfl
          rw [hmid, List.nodup_append] at hpost
          exact hpost.2.2 m List.mem_cons_self m List.mem_cons_self rfl
        simp [hmid, hmb, List.getLast?_append]
    · cases mid with
      | nil =>
        -- `b` follows `a` directly
        simp only [List.nil_append] at hmid
        subst hmid
        have hold := h.links (pre' ++ [] ++ [a]) b post' (by simp)
        have hba : b ≠ a := by
          rintro rfl
          exact hapost (by simp)
        have hlast : (pre' ++ []).getLast? ≠ some b := by
          intro hb
          exact hdisj b (List.mem_of_getLast? hb) b (by simp) rfl
        rw [if_neg hba, if_neg hba, hpa, hna, if_neg hlast, hold.2]
        simp
      | cons m mid =>
        rw [List.cons_append, List.cons.injEq] at hmid
        obtain ⟨rfl, rfl⟩ := hmid
        -- `b` comes before `a`
        have hold := h.links pre' b (mid ++ a :: post) (by simp)
        have hba : b ≠ a := by
          rintro rfl
          exact hapre (by simp)
        have hnext : post.head? ≠ some b := by
          intro hb
          exact hdisj b (by simp) b (List.mem_cons_of_mem _ (List.mem_of_mem_head? hb)) rfl
        rw [if_neg hba, if_neg hba, hpa, hna, if_neg hnext, hold.1, hold.2]
        refine ⟨rfl, ?_⟩
        cases mid with
        | nil => simp
        | cons m mid =>
          have hmb : (pre' ++ b :: m :: mid).getLast? ≠ some b := by
            rw [List.getLast?_append, List.getLast?_cons_cons]
            intro hb
            have hmem : b ∈ m :: mid := by
              cases hl : (m :: mid).getLast? with
              | none => simp at hl
              | some x =>
                rw [hl] at hb
                simp only [Option.some_or, Option.some.injEq] at hb
                subst hb
                exact List.mem_of_getLast? hl
            rw [List.nodup_append, List.nodup_cons] at hpre
            exact hpre.2.1.1 hmem
          rw [if_neg hmb]
          simp

end Remove

theorem pushFront_prev {l : Links} {a : Nat} (hhead : l.head ≠ some a) (x : Nat) :
    (l.pushFront a).prev x =
      if x = a then none else if l.head = some x then some a else l.prev x := by
  have htail : (l.pushFront a).prev =
      (match l.head with
        | some h => Function.update (Function.update l.prev a none) h (some a)
        | none => Function.update l.prev a none) := by
    cases hh : l.head <;> simp only [pushFront, hh] <;> split <;> rfl
  rw [htail]
  cases hh : l.head with
  | none => rcases eq_or_ne x a with rfl | hxa <;> simp [*]
  | some h =>
    have hha : h ≠ a := by
      rintro rfl
      exact hhead hh
    rcases eq_or_ne x a with rfl | hxa
    · simp [Function.update_of_ne hha.symm]
    · rcases eq_or_ne x h with rfl | hxh
      · simp [hxa]
      · have hhx : h ≠ x := fun he => hxh he.symm
        simp [hxa, hxh, hhx]

theorem pushFront_next (l : Links) (a x : Nat) :
    (l.pushFront a).next x = if x = a then l.head else l.next x := by
  have hnext : (l.pushFront a).next = Function.update l.next a l.head := by
    cases hh : l.head <;> simp only [pushFront, hh] <;> split <;> rfl
  rw [hnext, Function.update_apply]

theorem pushFront_head (l : Links) (a : Nat) : (l.pushFront a).head = some a := by
  cases hh : l.head <;> simp only [pushFront, hh] <;> split <;> rfl

theorem pushFront_tail (l : Links) (a : Nat) :
    (l.pushFront a).tail = if l.tail = none then some a else l.tail := by
  cases hh : l.head <;> simp only [pushFront, hh] <;> split <;> rfl

/-- **Putting a cell in front.** -/
theorem pushFront_spec {l : Links} {xs : List Nat} (h : l.Represents xs) {a : Nat} (ha : a ∉ xs) :
    (l.pushFront a).Represents (a :: xs) := by
  have hhead : l.head ≠ some a := by
    rw [h.head]
    exact fun he => ha (List.mem_of_mem_head? he)
  refine ⟨List.nodup_cons.mpr ⟨ha, h.nodup⟩, pushFront_head l a, ?_, ?_⟩
  · rw [pushFront_tail, h.tail]
    cases xs with
    | nil => rfl
    | cons x xs => simp
  · intro pre b post hsplit
    rw [pushFront_prev hhead, pushFront_next]
    cases pre with
    | nil =>
      rw [List.nil_append, List.cons.injEq] at hsplit
      obtain ⟨rfl, rfl⟩ := hsplit
      simp [h.head]
    | cons c pre =>
      rw [List.cons_append, List.cons.injEq] at hsplit
      obtain ⟨rfl, rfl⟩ := hsplit
      have hba : b ≠ a := by
        rintro rfl
        exact ha (by simp)
      obtain ⟨hprev, hnext⟩ := h.links pre b post rfl
      rw [if_neg hba, if_neg hba, hprev, hnext, h.head]
      refine ⟨?_, rfl⟩
      cases pre with
      | nil => simp
      | cons c pre =>
        have hcb : c ≠ b := by
          rintro rfl
          have hnd := h.nodup
          rw [List.cons_append, List.nodup_cons] at hnd
          exact hnd.1 (by simp)
        simp [hcb]

/-- Taking a cell of the list out of it. -/
theorem Represents.remove {l : Links} {xs : List Nat} (h : l.Represents xs) {a : Nat} (ha : a ∈ xs) :
    (l.remove a).Represents (xs.erase a) := by
  obtain ⟨pre, post, rfl⟩ := List.append_of_mem ha
  have hnd := h.nodup
  rw [List.nodup_middle, List.nodup_cons, List.mem_append, not_or] at hnd
  rw [List.erase_append_right _ hnd.1.1, List.erase_cons_head]
  exact remove_spec h

/-- Moving a cell of the list to its head. -/
theorem Represents.touch {l : Links} {xs : List Nat} (h : l.Represents xs) {a : Nat} (ha : a ∈ xs) :
    ((l.remove a).pushFront a).Represents (a :: xs.erase a) :=
  pushFront_spec (h.remove ha) h.nodup.not_mem_erase

/-- The search from the last cell of an initial part of the list. -/
theorem findBack_initial {l : Links} {xs : List Nat} (h : l.Represents xs) (p : Nat → Bool)
    (ys : List Nat) : ∀ (zs : List Nat) (fuel : Nat), xs = ys ++ zs → ys.length ≤ fuel →
      l.findBack p fuel ys.getLast? = ys.reverse.find? p := by
  induction ys using List.reverseRecOn with
  | nil =>
    intro zs fuel _ _
    cases fuel <;> rfl
  | append_singleton ys a ih =>
    intro zs fuel hsplit hfuel
    rw [List.length_append, List.length_singleton] at hfuel
    obtain ⟨fuel, rfl⟩ : ∃ f, fuel = f + 1 := ⟨fuel - 1, by omega⟩
    have hsplit' : xs = ys ++ a :: zs := by simpa using hsplit
    have hrest := ih (a :: zs) fuel hsplit' (by omega)
    rw [List.getLast?_concat, findBack, (h.links ys a zs hsplit').1, hrest, List.reverse_concat,
      List.find?_cons]
    cases p a <;> rfl

/-- **The search from the tail.** -/
theorem findBack_spec {l : Links} {xs : List Nat} (h : l.Represents xs) (p : Nat → Bool) {fuel : Nat}
    (hfuel : xs.length ≤ fuel) : l.findBack p fuel l.tail = xs.reverse.find? p := by
  rw [h.tail]
  exact findBack_initial h p xs [] fuel (by simp) hfuel

end Links
