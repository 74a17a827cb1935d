import Mathlib.Data.List.Basic
import Mathlib.Data.List.Perm.Subperm

/-!
# Ordered tables

A table hands out increasing ids and keeps its rows in the order of their ids.  The structure
carries that fact, so a lookup is determined by membership.

* `OTable.get?`, `insert`, `update`, `erase`, `scan` — the operations.
* `OTable.filter` — the rows that satisfy a condition; one lemma for each operation before it.
* `OTable.insertAll`, `modifyAll` — several of them in a row.
* `OTable.mem_iff` — a row is in the table exactly when a lookup finds it.
-/

set_option autoImplicit false

/-- Rows in ascending order of their ids, all below the next id to be handed out. -/
structure OTable (α : Type) where
  nextId : Nat
  rows : List (Nat × α)
  sorted : (rows.map Prod.fst).Pairwise (· < ·)
  below : ∀ r ∈ rows, r.1 < nextId

namespace OTable

variable {α : Type}

/-- The table without rows whose first id will be `n`. -/
def empty (n : Nat) : OTable α := ⟨n, [], List.Pairwise.nil, by simp⟩

/-- Look a row up by its id. -/
def get? (t : OTable α) (id : Nat) : Option α := (t.rows.find? (fun r => r.1 == id)).map Prod.snd

/-- Append a row under the next id. -/
def insert (t : OTable α) (a : α) : OTable α where
  nextId := t.nextId + 1
  rows := t.rows ++ [(t.nextId, a)]
  sorted := by
    rw [List.map_append, List.pairwise_append]
    refine ⟨t.sorted, List.pairwise_singleton _ _, ?_⟩
    intro x hx y hy
    obtain ⟨r, hr, rfl⟩ := List.mem_map.mp hx
    rw [List.map_singleton, List.mem_singleton] at hy
    rw [hy]
    exact t.below r hr
  below := by
    intro r hr
    rcases List.mem_append.mp hr with hr | hr
    · exact Nat.lt_succ_of_lt (t.below r hr)
    · rw [List.mem_singleton] at hr
      rw [hr]
      exact Nat.lt_succ_self _

/-- Use up the next id without a row. -/
def skip (t : OTable α) : OTable α where
  nextId := t.nextId + 1
  rows := t.rows
  sorted := t.sorted
  below := fun r hr => Nat.lt_succ_of_lt (t.below r hr)

/-- Replace the row of an id in place. -/
def update (t : OTable α) (id : Nat) (a : α) : OTable α where
  nextId := t.nextId
  rows := t.rows.map (fun r => if r.1 = id then (r.1, a) else r)
  sorted := by
    have : (t.rows.map (fun r => if r.1 = id then (r.1, a) else r)).map Prod.fst =
        t.rows.map Prod.fst := by
      rw [List.map_map]
      apply List.map_congr_left
      intro r _
      by_cases h : r.1 = id <;> simp [h]
    rw [this]
    exact t.sorted
  below := by
    intro r hr
    obtain ⟨r', hr', rfl⟩ := List.mem_map.mp hr
    by_cases h : r'.1 = id
    · rw [if_pos h]; exact t.below r' hr'
    · rw [if_neg h]; exact t.below r' hr'

/-- Drop the row of an id. -/
def erase (t : OTable α) (id : Nat) : OTable α where
  nextId := t.nextId
  rows := t.rows.filter (fun r => r.1 != id)
  sorted := t.sorted.sublist (List.filter_sublist.map _)
  below := fun r hr => t.below r (List.mem_of_mem_filter hr)

/-- Convert every row. -/
def map {β : Type} (f : α → β) (t : OTable α) : OTable β where
  nextId := t.nextId
  rows := t.rows.map (fun r => (r.1, f r.2))
  sorted := by
    rw [List.map_map]
    exact t.sorted
  below := by
    intro r hr
    obtain ⟨r', hr', rfl⟩ := List.mem_map.mp hr
    exact t.below r' hr'

/-- Keep the rows that satisfy a condition. -/
def filter (t : OTable α) (p : α → Bool) : OTable α where
  nextId := t.nextId
  rows := t.rows.filter (fun r => p r.2)
  sorted := t.sorted.sublist (List.filter_sublist.map _)
  below := fun r hr => t.below r (List.mem_of_mem_filter hr)

theorem filter_true (t : OTable α) : t.filter (fun _ => true) = t := by
  have hrows : t.rows.filter (fun _ => true) = t.rows := List.filter_eq_self.mpr fun _ _ => rfl
  cases t
  simp only [filter, hrows]

/-- The first `n` rows that satisfy a filter. -/
def scan (t : OTable α) (p : α → Bool) (n : Nat) : List (Nat × α) :=
  (t.rows.filter (fun r => p r.2)).take n

/-! ## Lookups -/

theorem find?_eq_some {rows : List (Nat × α)} (hs : (rows.map Prod.fst).Pairwise (· < ·))
    {r : Nat × α} (hr : r ∈ rows) : rows.find? (fun x => x.1 == r.1) = some r := by
  induction rows with
  | nil => cases hr
  | cons x rows ih =>
    rw [List.map_cons, List.pairwise_cons] at hs
    rcases List.mem_cons.mp hr with rfl | hr
    · simp
    · have hlt := hs.1 r.1 (List.mem_map_of_mem hr)
      have hne : x.1 ≠ r.1 := Nat.ne_of_lt hlt
      simp [hne, ih hs.2 hr]

/-- A row is in the table exactly when a lookup finds it. -/
theorem mem_iff {t : OTable α} {id : Nat} {a : α} : (id, a) ∈ t.rows ↔ t.get? id = some a := by
  constructor
  · intro h
    rw [get?, find?_eq_some t.sorted h]
    rfl
  · intro h
    rw [get?, Option.map_eq_some_iff] at h
    obtain ⟨r, hr, rfl⟩ := h
    have hid := List.find?_some hr
    simp only [beq_iff_eq] at hid
    have := List.mem_of_find?_eq_some hr
    rwa [← hid]

theorem get?_lt {t : OTable α} {id : Nat} {a : α} (h : t.get? id = some a) : id < t.nextId :=
  t.below _ (mem_iff.mpr h)

theorem get?_eq_none {t : OTable α} {id : Nat} (h : t.nextId ≤ id) : t.get? id = none := by
  cases hg : t.get? id with
  | none => rfl
  | some a => exact absurd (get?_lt hg) (by omega)

@[simp] theorem get?_empty (n id : Nat) : (empty n : OTable α).get? id = none := rfl

@[simp] theorem nextId_insert (t : OTable α) (a : α) : (t.insert a).nextId = t.nextId + 1 := rfl

@[simp] theorem rows_insert (t : OTable α) (a : α) :
    (t.insert a).rows = t.rows ++ [(t.nextId, a)] := rfl

@[simp] theorem get?_map {β : Type} (f : α → β) (t : OTable α) (id : Nat) :
    (t.map f).get? id = (t.get? id).map f := by
  unfold get? map
  simp only [List.find?_map, Option.map_map]
  rfl

@[simp] theorem get?_skip (t : OTable α) (id : Nat) : t.skip.get? id = t.get? id := rfl

@[simp] theorem nextId_update (t : OTable α) (id : Nat) (a : α) :
    (t.update id a).nextId = t.nextId := rfl

@[simp] theorem nextId_erase (t : OTable α) (id : Nat) : (t.erase id).nextId = t.nextId := rfl

theorem get?_ext {t u : OTable α} {id : Nat} (h : ∀ a, (id, a) ∈ t.rows ↔ (id, a) ∈ u.rows) :
    t.get? id = u.get? id := by
  cases hu : u.get? id with
  | some a => exact mem_iff.mp ((h a).mpr (mem_iff.mpr hu))
  | none =>
    cases ht : t.get? id with
    | none => rfl
    | some a =>
      have := mem_iff.mp ((h a).mp (mem_iff.mpr ht))
      rw [hu] at this
      cases this

theorem get?_insert_self (t : OTable α) (a : α) : (t.insert a).get? t.nextId = some a :=
  mem_iff.mp (by simp)

theorem get?_insert_ne {t : OTable α} {a : α} {id : Nat} (h : id ≠ t.nextId) :
    (t.insert a).get? id = t.get? id :=
  get?_ext (fun b => by simp [h])

theorem get?_update_self {t : OTable α} {id : Nat} {a b : α} (h : t.get? id = some b) :
    (t.update id a).get? id = some a := by
  apply mem_iff.mp
  exact List.mem_map.mpr ⟨(id, b), mem_iff.mpr h, by simp⟩

theorem get?_update_ne {t : OTable α} {id id' : Nat} {a : α} (h : id' ≠ id) :
    (t.update id a).get? id' = t.get? id' := by
  apply get?_ext
  intro b
  constructor
  · intro hm
    obtain ⟨r, hr, he⟩ := List.mem_map.mp hm
    by_cases hid : r.1 = id
    · rw [if_pos hid, Prod.mk.injEq] at he
      exact absurd (he.1.symm.trans hid) h
    · rw [if_neg hid] at he
      rwa [he] at hr
  · intro hm
    exact List.mem_map.mpr ⟨(id', b), hm, by simp [h]⟩

/-- An update replaces the row where it stands. -/
theorem rows_update {t : OTable α} {id : Nat} {a b : α} {front back : List (Nat × α)}
    (h : t.rows = front ++ (id, b) :: back) : (t.update id a).rows = front ++ (id, a) :: back := by
  have hs := t.sorted
  rw [h, List.map_append, List.map_cons, List.pairwise_append, List.pairwise_cons] at hs
  obtain ⟨-, ⟨hback, -⟩, hfront⟩ := hs
  have hkeep : ∀ rows : List (Nat × α), (∀ r ∈ rows, r.1 ≠ id) →
      rows.map (fun r => if r.1 = id then (r.1, a) else r) = rows := fun rows hne => by
    conv_rhs => rw [← List.map_id rows]
    exact List.map_congr_left fun r hr => if_neg (hne r hr)
  have hrows : (t.update id a).rows = t.rows.map fun r => if r.1 = id then (r.1, a) else r := rfl
  rw [hrows, h, List.map_append, List.map_cons, if_pos rfl, hkeep front, hkeep back]
  · exact fun r hr => Nat.ne_of_gt (hback r.1 (List.mem_map_of_mem hr))
  · exact fun r hr => Nat.ne_of_lt (hfront r.1 (List.mem_map_of_mem hr) id List.mem_cons_self)

/-- The row of an id, with the rows before and after it. -/
theorem exists_rows {t : OTable α} {id : Nat} {a : α} (h : t.get? id = some a) :
    ∃ front back, t.rows = front ++ (id, a) :: back :=
  List.append_of_mem (mem_iff.mpr h)

/-- A deletion takes the row out where it stands. -/
theorem rows_erase {t : OTable α} {id : Nat} {a : α} {front back : List (Nat × α)}
    (h : t.rows = front ++ (id, a) :: back) : (t.erase id).rows = front ++ back := by
  have hs := t.sorted
  rw [h, List.map_append, List.map_cons, List.pairwise_append, List.pairwise_cons] at hs
  obtain ⟨-, ⟨hback, -⟩, hfront⟩ := hs
  have hkeep : ∀ rows : List (Nat × α), (∀ r ∈ rows, r.1 ≠ id) →
      rows.filter (fun r => r.1 != id) = rows := fun rows hne =>
    List.filter_eq_self.mpr fun r hr => bne_iff_ne.mpr (hne r hr)
  have hrows : (t.erase id).rows = t.rows.filter fun r => r.1 != id := rfl
  rw [hrows, h, List.filter_append, List.filter_cons_of_neg (by simp), hkeep front, hkeep back]
  · exact fun r hr => Nat.ne_of_gt (hback r.1 (List.mem_map_of_mem hr))
  · exact fun r hr => Nat.ne_of_lt (hfront r.1 (List.mem_map_of_mem hr) id List.mem_cons_self)

/-- Counting rows after a deletion. -/
theorem countP_erase {t : OTable α} {id : Nat} {a : α} (h : t.get? id = some a)
    (p : Nat × α → Bool) :
    (t.erase id).rows.countP p + (if p (id, a) then 1 else 0) = t.rows.countP p := by
  obtain ⟨front, back, hrows⟩ := exists_rows h
  rw [rows_erase hrows, hrows, List.countP_append, List.countP_append, List.countP_cons]
  omega

/-- Counting rows after an update. -/
theorem countP_update {t : OTable α} {id : Nat} {a b : α} (h : t.get? id = some b)
    (p : Nat × α → Bool) :
    (t.update id a).rows.countP p + (if p (id, b) then 1 else 0) =
      t.rows.countP p + if p (id, a) then 1 else 0 := by
  obtain ⟨front, back, hrows⟩ := exists_rows h
  rw [rows_update hrows, hrows, List.countP_append, List.countP_append, List.countP_cons,
    List.countP_cons]
  omega

theorem length_update (t : OTable α) (id : Nat) (a : α) :
    (t.update id a).rows.length = t.rows.length :=
  List.length_map _

theorem get?_erase_self (t : OTable α) (id : Nat) : (t.erase id).get? id = none := by
  cases hg : (t.erase id).get? id with
  | none => rfl
  | some a =>
    have := mem_iff.mpr hg
    simp [erase] at this

theorem get?_erase_ne {t : OTable α} {id id' : Nat} (h : id' ≠ id) :
    (t.erase id).get? id' = t.get? id' :=
  get?_ext (fun b => by simp [erase, h])

/-- Two lists of rows in ascending order of their ids with the same members are equal. -/
theorem rows_ext {l l' : List (Nat × α)} (hl : (l.map Prod.fst).Pairwise (· < ·))
    (hl' : (l'.map Prod.fst).Pairwise (· < ·)) (hmem : ∀ r, r ∈ l ↔ r ∈ l') : l = l' := by
  have hnodup : ∀ {m : List (Nat × α)}, m.Pairwise (fun r r' => r.1 < r'.1) → m.Nodup := by
    intro m hm
    refine hm.imp ?_
    rintro a b hlt rfl
    exact Nat.lt_irrefl _ hlt
  have hs := List.pairwise_map.mp hl
  have hs' := List.pairwise_map.mp hl'
  have hperm : l.Perm l' := (List.perm_ext_iff_of_nodup (hnodup hs) (hnodup hs')).mpr hmem
  refine hperm.eq_of_pairwise ?_ hs hs'
  intro a b _ _ hab hba
  exact absurd hab (Nat.lt_asymm hba)

/-- The rows that pass a filter are determined by the lookups. -/
theorem filter_rows_ext {t u : OTable α} {p : α → Bool}
    (h : ∀ id a, p a = true → (t.get? id = some a ↔ u.get? id = some a)) :
    t.rows.filter (fun r => p r.2) = u.rows.filter (fun r => p r.2) := by
  have hsub : ∀ v : OTable α, ((v.rows.filter (fun r => p r.2)).map Prod.fst).Pairwise (· < ·) :=
    fun v => v.sorted.sublist (List.filter_sublist.map _)
  refine rows_ext (hsub t) (hsub u) ?_
  rintro ⟨id, a⟩
  rw [List.mem_filter, List.mem_filter, mem_iff, mem_iff]
  exact and_congr_left (fun hp => h id a hp)

/-- Two tables with the same counter and the same lookups are equal. -/
theorem eq_of_get? {t u : OTable α} (hn : t.nextId = u.nextId)
    (h : ∀ id, t.get? id = u.get? id) : t = u := by
  have hrows : t.rows = u.rows := by
    refine rows_ext t.sorted u.sorted ?_
    rintro ⟨id, a⟩
    rw [mem_iff, mem_iff, h]
  cases t
  cases u
  simp only at hn hrows
  subst hn
  subst hrows
  rfl

theorem get?_filter (t : OTable α) (p : α → Bool) (id : Nat) :
    (t.filter p).get? id = (t.get? id).filter p := by
  have hmem : ∀ a, (t.filter p).get? id = some a ↔ t.get? id = some a ∧ p a = true := fun a => by
    rw [← mem_iff, ← mem_iff]
    exact List.mem_filter
  cases hget : t.get? id with
  | none =>
    rw [Option.filter_none, Option.eq_none_iff_forall_not_mem]
    intro a ha
    rw [((hmem a).mp ha).1] at hget
    cases hget
  | some a =>
    by_cases hp : p a = true
    · rw [Option.filter_some_pos hp]
      exact (hmem a).mpr ⟨hget, hp⟩
    · rw [Option.filter_some_neg (by simpa using hp), Option.eq_none_iff_forall_not_mem]
      intro b hb
      obtain ⟨hb, hpb⟩ := (hmem b).mp hb
      rw [hget, Option.some.injEq] at hb
      exact hp (hb ▸ hpb)

/-- A new row that satisfies the condition. -/
theorem filter_insert {t : OTable α} {p : α → Bool} {a : α} (h : p a = true) :
    (t.insert a).filter p = (t.filter p).insert a := by
  refine eq_of_get? rfl fun id => ?_
  rcases eq_or_ne id t.nextId with rfl | hne
  · rw [get?_filter, get?_insert_self, Option.filter_some_pos h]
    exact (get?_insert_self (t.filter p) a).symm
  · rw [get?_filter, get?_insert_ne hne, get?_insert_ne (t := t.filter p) hne, get?_filter]

/-- A row that satisfies the condition before and after its update. -/
theorem filter_update {t : OTable α} {p : α → Bool} {id : Nat} {a b : α} (hb : t.get? id = some b)
    (hpb : p b = true) (hpa : p a = true) : (t.update id a).filter p = (t.filter p).update id a := by
  have hget : (t.filter p).get? id = some b := by rw [get?_filter, hb, Option.filter_some_pos hpb]
  refine eq_of_get? rfl fun id' => ?_
  rcases eq_or_ne id' id with rfl | hne
  · rw [get?_filter, get?_update_self hb, get?_update_self hget, Option.filter_some_pos hpa]
  · rw [get?_filter, get?_update_ne hne, get?_update_ne hne, get?_filter]

/-- A row that no longer satisfies the condition. -/
theorem filter_update_erase {t : OTable α} {p : α → Bool} {id : Nat} {a b : α}
    (hb : t.get? id = some b) (hpa : p a = false) :
    (t.update id a).filter p = (t.filter p).erase id := by
  refine eq_of_get? rfl fun id' => ?_
  rcases eq_or_ne id' id with rfl | hne
  · rw [get?_filter, get?_update_self hb, get?_erase_self, Option.filter_some_neg (by simp [hpa])]
  · rw [get?_filter, get?_update_ne hne, get?_erase_ne hne, get?_filter]

/-- Ids that start at 1 are as many as the rows, at least. -/
theorem length_rows_lt {t : OTable α} (hpos : ∀ r ∈ t.rows, 0 < r.1) (hnext : 0 < t.nextId) :
    t.rows.length < t.nextId := by
  have hsub : (t.rows.map Prod.fst).Subperm (List.range' 1 (t.nextId - 1)) := by
    refine List.Nodup.subperm (t.sorted.imp fun h => Nat.ne_of_lt h) fun id hid => ?_
    obtain ⟨r, hr, rfl⟩ := List.mem_map.mp hid
    have hlt := t.below r hr
    have := hpos r hr
    rw [List.mem_range'_1]
    omega
  have hle := hsub.length_le
  rw [List.length_map, List.length_range'] at hle
  omega

/-- Append rows one after another. -/
def insertAll (t : OTable α) (as : List α) : OTable α := as.foldl insert t

/-- They get the next ids, in order. -/
theorem rows_insertAll (t : OTable α) (as : List α) :
    (t.insertAll as).rows = t.rows ++ (List.range' t.nextId as.length).zip as := by
  induction as generalizing t with
  | nil => simp [insertAll]
  | cons a as ih =>
    have hstep : t.insertAll (a :: as) = (t.insert a).insertAll as := rfl
    rw [hstep, ih, rows_insert, nextId_insert, List.append_assoc, List.length_cons, List.range'_succ]
    rfl

theorem nextId_insertAll (t : OTable α) (as : List α) :
    (t.insertAll as).nextId = t.nextId + as.length := by
  induction as generalizing t with
  | nil => rfl
  | cons a as ih =>
    have hstep : t.insertAll (a :: as) = (t.insert a).insertAll as := rfl
    rw [hstep, ih, nextId_insert, List.length_cons]
    omega

theorem insertAll_append (t : OTable α) (as bs : List α) :
    t.insertAll (as ++ bs) = (t.insertAll as).insertAll bs :=
  List.foldl_append

/-- Change the rows of some ids, as far as there are any. -/
def modifyAll (f : α → α) (t : OTable α) (ids : List Nat) : OTable α :=
  ids.foldl (fun t id => (t.get? id).elim t (fun a => t.update id (f a))) t

@[simp] theorem modifyAll_nil (f : α → α) (t : OTable α) : t.modifyAll f [] = t := rfl

theorem modifyAll_append (f : α → α) (t : OTable α) (ids ids' : List Nat) :
    t.modifyAll f (ids ++ ids') = (t.modifyAll f ids).modifyAll f ids' :=
  List.foldl_append

theorem modifyAll_singleton {f : α → α} {t : OTable α} {id : Nat} {a : α} (h : t.get? id = some a) :
    t.modifyAll f [id] = t.update id (f a) := by
  rw [modifyAll, List.foldl_cons, List.foldl_nil, h]
  rfl

theorem modifyAll_missing {f : α → α} {t : OTable α} {id : Nat} (h : t.get? id = none) :
    t.modifyAll f [id] = t := by
  rw [modifyAll, List.foldl_cons, List.foldl_nil, h]
  rfl

/-- A change that makes no difference the second time. -/
theorem get?_modifyAll {f : α → α} (hf : ∀ a, f (f a) = f a) (t : OTable α) (ids : List Nat)
    (id : Nat) : (t.modifyAll f ids).get? id = if id ∈ ids then (t.get? id).map f else t.get? id := by
  induction ids generalizing t with
  | nil => simp
  | cons x ids ih =>
    have hone : (t.modifyAll f [x]).get? id =
        if id = x then (t.get? id).map f else t.get? id := by
      cases hx : t.get? x with
      | none =>
        rw [modifyAll_missing hx]
        by_cases hid : id = x
        · subst hid; simp [hx]
        · simp [hid]
      | some a =>
        rw [modifyAll_singleton hx]
        by_cases hid : id = x
        · subst hid; simp [hx, get?_update_self hx]
        · simp [hid, get?_update_ne hid]
    have hcons : t.modifyAll f (x :: ids) = (t.modifyAll f [x]).modifyAll f ids := rfl
    rw [hcons, ih, hone]
    by_cases hid : id = x
    · subst hid
      by_cases hmem : id ∈ ids
      · cases t.get? id <;> simp [hmem, hf]
      · simp [hmem]
    · simp [hid]

theorem nextId_modifyAll (f : α → α) (t : OTable α) (ids : List Nat) :
    (t.modifyAll f ids).nextId = t.nextId := by
  induction ids generalizing t with
  | nil => rfl
  | cons x ids ih =>
    refine (ih _).trans ?_
    cases hx : t.get? x <;> simp [hx]

/-- An update that a view does not see. -/
theorem map_update {β : Type} {f : α → β} {t : OTable α} {id : Nat} {a b : α}
    (h : t.get? id = some b) (hf : f a = f b) : (t.update id a).map f = t.map f := by
  refine eq_of_get? rfl (fun id' => ?_)
  rcases eq_or_ne id' id with rfl | hne
  · rw [get?_map, get?_map, get?_update_self h, h, Option.map_some, Option.map_some, hf]
  · rw [get?_map, get?_map, get?_update_ne hne]

end OTable
