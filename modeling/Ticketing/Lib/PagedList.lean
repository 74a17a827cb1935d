import Mathlib.Data.List.Basic
import Mathlib.Data.List.Nodup

/-!
# Lists kept in pages

A list that is stored page by page, with the place of an element as a page and a slot.

* `Paged.At` — what is in a place; `Paged.at_of_mem`, `Paged.at_inj` — every element has a place, and only
  one if its key is unique.
* `Paged.set` — another element in a place; `at_set`, `at_push`, `at_grow` — the places after that, and
  after one more element or page at the end.
* `Paged.Filled` — only the last page can be empty, so there are hardly more pages than elements.
-/

set_option autoImplicit false

namespace Paged

variable {α : Type}

/-- In slot `s` of page `p` is `x`. -/
def At (pages : List (List α)) (p s : Nat) (x : α) : Prop :=
  ∃ page, pages[p]? = some page ∧ page[s]? = some x

/-- Another element in a place. -/
def set (pages : List (List α)) (p s : Nat) (x : α) : List (List α) :=
  pages.modify p fun page => page.set s x

/-- The element between two parts of a list. -/
theorem modify_focus (front back : List α) (x : α) (f : α → α) :
    (front ++ x :: back).modify front.length f = front ++ f x :: back := by
  induction front with
  | nil => rfl
  | cons y front ih => simp [ih]

variable {pages : List (List α)} {p s : Nat} {x y : α}

/-! ## Places -/

theorem At.unique (h : At pages p s x) (h' : At pages p s y) : x = y := by
  obtain ⟨page, hp, hs⟩ := h
  obtain ⟨page', hp', hs'⟩ := h'
  rw [hp, Option.some.injEq] at hp'
  subst hp'
  rw [hs, Option.some.injEq] at hs'
  exact hs'

/-- What is before and behind a place. -/
theorem At.split (h : At pages p s x) : ∃ front left right back,
    pages = front ++ (left ++ x :: right) :: back ∧ front.length = p ∧ left.length = s := by
  obtain ⟨page, hp, hs⟩ := h
  obtain ⟨hlt, hget⟩ := List.getElem?_eq_some_iff.mp hp
  obtain ⟨hlt', hget'⟩ := List.getElem?_eq_some_iff.mp hs
  refine ⟨pages.take p, page.take s, page.drop (s + 1), pages.drop (p + 1), ?_, ?_, ?_⟩
  · have hpage : page = page.take s ++ x :: page.drop (s + 1) := by
      rw [← hget', ← List.drop_eq_getElem_cons hlt', List.take_append_drop]
    rw [← hpage, ← hget, ← List.drop_eq_getElem_cons hlt, List.take_append_drop]
  · rw [List.length_take, Nat.min_eq_left (Nat.le_of_lt hlt)]
  · rw [List.length_take, Nat.min_eq_left (Nat.le_of_lt hlt')]

theorem At.mem (h : At pages p s x) : x ∈ pages.flatten := by
  obtain ⟨page, hp, hs⟩ := h
  exact List.mem_flatten.mpr ⟨page, List.mem_of_getElem? hp, List.mem_of_getElem? hs⟩

/-- Every element has a place. -/
theorem at_of_mem (h : x ∈ pages.flatten) : ∃ p s, At pages p s x := by
  obtain ⟨page, hpage, hx⟩ := List.mem_flatten.mp h
  obtain ⟨p, hp⟩ := List.mem_iff_getElem?.mp hpage
  obtain ⟨s, hs⟩ := List.mem_iff_getElem?.mp hx
  exact ⟨p, s, page, hp, hs⟩

/-- The list around a place. -/
theorem flatten_split {front back : List (List α)} {left right : List α} :
    (front ++ (left ++ x :: right) :: back).flatten =
      (front.flatten ++ left) ++ x :: (right ++ back.flatten) := by
  simp only [List.flatten_append, List.flatten_cons, List.append_assoc, List.cons_append]

/-- An element whose key is unique has one place. -/
theorem at_inj {κ : Type} {key : α → κ} (hkeys : (pages.flatten.map key).Nodup) {p' s' : Nat}
    (h : At pages p s x) (h' : At pages p' s' y) (hxy : key x = key y) : p = p' ∧ s = s' ∧ x = y := by
  induction pages generalizing p p' with
  | nil =>
    obtain ⟨page, hp, -⟩ := h
    cases hp
  | cons page pages ih =>
    rw [List.flatten_cons, List.map_append, List.nodup_append] at hkeys
    obtain ⟨hpage, hrest, hdisj⟩ := hkeys
    -- one key is not both in the first page and behind it
    have happart : ∀ {a b : α}, a ∈ page → b ∈ pages.flatten → key a ≠ key b := fun ha hb =>
      hdisj _ (List.mem_map_of_mem ha) _ (List.mem_map_of_mem hb)
    have hfirst : ∀ {q t : Nat} {a : α}, At (page :: pages) q t a →
        q = 0 ∧ page[t]? = some a ∨ ∃ q', q = q' + 1 ∧ At pages q' t a := by
      rintro q t a ⟨page', hq, ht⟩
      cases q with
      | zero =>
        rw [List.getElem?_cons_zero, Option.some.injEq] at hq
        subst hq
        exact Or.inl ⟨rfl, ht⟩
      | succ q => exact Or.inr ⟨q, rfl, page', hq, ht⟩
    rcases hfirst h with ⟨rfl, hs⟩ | ⟨q, rfl, hq⟩
    · rcases hfirst h' with ⟨rfl, hs'⟩ | ⟨q', rfl, hq'⟩
      · have hlt : s < (page.map key).length := by
          rw [List.length_map]
          exact (List.getElem?_eq_some_iff.mp hs).1
        have heq : (page.map key)[s]? = (page.map key)[s']? := by
          rw [List.getElem?_map, List.getElem?_map, hs, hs', Option.map_some, Option.map_some, hxy]
        obtain rfl := (List.getElem?_inj hlt hpage).mp heq
        rw [hs, Option.some.injEq] at hs'
        exact ⟨rfl, rfl, hs'⟩
      · exact absurd hxy (happart (List.mem_of_getElem? hs) hq'.mem)
    · rcases hfirst h' with ⟨rfl, hs'⟩ | ⟨q', rfl, hq'⟩
      · exact absurd hxy.symm (happart (List.mem_of_getElem? hs') hq.mem)
      · obtain ⟨rfl, rfl, rfl⟩ := ih hrest hq hq'
        exact ⟨rfl, rfl, rfl⟩

/-! ## Another element in a place -/

theorem length_set : (set pages p s x).length = pages.length := List.length_modify _ _ _

theorem getElem?_set (q : Nat) : (set pages p s x)[q]? =
    if q = p then (pages[q]?).map fun page => page.set s x else pages[q]? := by
  unfold set
  rw [List.getElem?_modify]
  by_cases hq : p = q
  · simp [hq]
  · simp [hq, Ne.symm hq]

/-- The places after another element has been put in one. -/
theorem at_set (h : At pages p s x) {q t : Nat} {z : α} :
    At (set pages p s y) q t z ↔ (q = p ∧ t = s ∧ z = y) ∨ ¬ (q = p ∧ t = s) ∧ At pages q t z := by
  obtain ⟨page, hp, hs⟩ := h
  have hlt := (List.getElem?_eq_some_iff.mp hs).1
  unfold At
  rw [getElem?_set]
  by_cases hq : q = p
  · subst hq
    rw [if_pos rfl, hp]
    simp only [Option.map_some, Option.some.injEq, exists_eq_left']
    by_cases ht : t = s
    · subst ht
      rw [List.getElem?_set_self hlt]
      simp [eq_comm]
    · rw [List.getElem?_set_ne (Ne.symm ht)]
      simp [ht]
  · rw [if_neg hq]
    simp [hq]

/-- The list with another element in a place. -/
theorem flatten_set (h : At pages p s x) : ∃ front back,
    pages.flatten = front ++ x :: back ∧ (set pages p s y).flatten = front ++ y :: back := by
  obtain ⟨front, left, right, back, rfl, rfl, rfl⟩ := h.split
  refine ⟨front.flatten ++ left, right ++ back.flatten, flatten_split, ?_⟩
  have hset : set (front ++ (left ++ x :: right) :: back) front.length left.length y =
      front ++ (left ++ y :: right) :: back := by
    unfold set
    rw [modify_focus]
    simp
  rw [hset, flatten_split]

/-! ## One more element, one more page -/

theorem flatten_grow : (pages ++ [[]]).flatten = pages.flatten := by
  rw [List.flatten_append, List.flatten_singleton, List.append_nil]

/-- An empty page has no places. -/
theorem at_grow : At (pages ++ [[]]) p s x ↔ At pages p s x := by
  unfold At
  constructor
  · rintro ⟨page, hp, hs⟩
    rcases Nat.lt_or_ge p pages.length with hlt | hge
    · rw [List.getElem?_append_left hlt] at hp
      exact ⟨page, hp, hs⟩
    · rw [List.getElem?_append_right hge] at hp
      obtain rfl : page = [] := List.mem_singleton.mp (List.mem_of_getElem? hp)
      cases hs
  · rintro ⟨page, hp, hs⟩
    have hlt := (List.getElem?_eq_some_iff.mp hp).1
    exact ⟨page, by rw [List.getElem?_append_left hlt, hp], hs⟩

section Push

variable {front : List (List α)} {last : List α}

theorem flatten_push : (front ++ [last ++ [x]]).flatten = (front ++ [last]).flatten ++ [x] := by
  rw [List.flatten_append, List.flatten_singleton, List.flatten_append, List.flatten_singleton,
    List.append_assoc]

/-- One place more in the last page. -/
theorem at_push : At (front ++ [last ++ [x]]) p s y ↔
    At (front ++ [last]) p s y ∨ (p = front.length ∧ s = last.length ∧ y = x) := by
  unfold At
  rcases Nat.lt_trichotomy p front.length with hlt | rfl | hgt
  · rw [List.getElem?_append_left hlt, List.getElem?_append_left hlt]
    have hne : p ≠ front.length := Nat.ne_of_lt hlt
    simp [hne]
  · rw [List.getElem?_concat_length, List.getElem?_concat_length]
    simp only [Option.some.injEq, exists_eq_left', true_and]
    rcases Nat.lt_trichotomy s last.length with hlt | rfl | hgt
    · rw [List.getElem?_append_left hlt]
      have hne : s ≠ last.length := Nat.ne_of_lt hlt
      simp [hne]
    · simp [eq_comm]
    · rw [List.getElem?_append_right (Nat.le_of_lt hgt)]
      have hne : s ≠ last.length := Nat.ne_of_gt hgt
      have hsub : s - last.length ≠ 0 := by omega
      simp [hne, hsub, Nat.le_of_lt hgt]
  · have hlen : ∀ page : List α, (front ++ [page])[p]? = none := fun page =>
      List.getElem?_eq_none (by rw [List.length_append, List.length_singleton]; omega)
    have hne : p ≠ front.length := Nat.ne_of_gt hgt
    simp [hlen, hne]

end Push

/-! ## Pages that are not empty -/

/-- Only the last page can be empty. -/
def Filled (pages : List (List α)) : Prop :=
  ∀ p page, pages[p]? = some page → p + 1 < pages.length → page ≠ []

theorem Filled.nil : Filled ([] : List (List α)) := fun p page hp => by cases hp

/-- There are not many more pages than elements. -/
theorem Filled.length_le (h : Filled pages) : pages.length ≤ pages.flatten.length + 1 := by
  induction pages with
  | nil => exact Nat.zero_le _
  | cons page pages ih =>
    have hrest : Filled pages := fun p page' hp hlt =>
      h (p + 1) page' hp (by rw [List.length_cons]; omega)
    rw [List.length_cons, List.flatten_cons, List.length_append]
    have := ih hrest
    cases pages with
    | nil => exact Nat.le_add_left _ _
    | cons page' pages =>
      have hne : page ≠ [] := h 0 page rfl (by simp)
      have := List.length_pos_iff.mpr hne
      omega

theorem Filled.set (h : Filled pages) : Filled (set pages p s x) := by
  intro q page hq hlt hnil
  rw [length_set] at hlt
  rw [getElem?_set] at hq
  split at hq
  · obtain ⟨page', hq', rfl⟩ := Option.map_eq_some_iff.mp hq
    exact h q page' hq' hlt (by simpa using hnil)
  · exact h q page hq hlt hnil

/-- Another last page. -/
theorem Filled.last {front : List (List α)} {last last' : List α} (h : Filled (front ++ [last])) :
    Filled (front ++ [last']) := by
  intro q page hq hlt
  have hlen : ∀ l : List α, (front ++ [l]).length = front.length + 1 := fun l => List.length_append
  rw [hlen] at hlt
  have hqlt : q < front.length := by omega
  rw [List.getElem?_append_left hqlt] at hq
  exact h q page (by rw [List.getElem?_append_left hqlt, hq]) (by rw [hlen]; omega)

/-- An empty page behind one that is not empty. -/
theorem Filled.grow {front : List (List α)} {last : List α} (h : Filled (front ++ [last]))
    (hne : last ≠ []) : Filled ((front ++ [last]) ++ [[]]) := by
  intro q page hq hlt
  have hlen : ((front ++ [last]) ++ [([] : List α)]).length = front.length + 2 := by simp
  rw [hlen] at hlt
  rw [List.getElem?_append_left (by simp; omega)] at hq
  rcases Nat.lt_or_ge (q + 1) (front ++ [last]).length with hin | hend
  · exact h q page hq hin
  · have hq' : q = front.length := by
      rw [List.length_append, List.length_singleton] at hend
      omega
    subst hq'
    rw [List.getElem?_concat_length, Option.some.injEq] at hq
    rwa [← hq]

end Paged
