import Mathlib.Data.List.Nodup
import Mathlib.Logic.Function.Basic

/-!
# Linked queues

A singly linked queue of heap cells, with a pointer to the first and to the last cell.  Cells are
put in at the tail and taken out at the head; a cell that was taken out stays allocated until it is
released.

* `LinkedQueue` — the cells and the two pointers; `enqueue`, `dequeue`, `release`.
* `LinkedQueue.Holds` — the queue the pointers stand for.
* `holds_enqueue`, `holds_dequeue`, `holds_release` — the operations on the queue.
-/

set_option autoImplicit false

/-- A cell of a linked list. -/
structure QueueCell (P α : Type) where
  value : α
  next : Option P
  deriving DecidableEq, Repr

/-- The allocated cells, and the two ends of the queue. -/
structure LinkedQueue (P α : Type) where
  cells : P → Option (QueueCell P α)
  head : Option P
  tail : Option P

namespace LinkedQueue

variable {P α : Type}

/-- Nothing is allocated. -/
def empty : LinkedQueue P α := ⟨fun _ => none, none, none⟩

section Operations

variable [DecidableEq P]

/-- Store the link of a cell. -/
def setNext (cells : P → Option (QueueCell P α)) (t : P) (next : Option P) :
    P → Option (QueueCell P α) :=
  Function.update cells t ((cells t).map fun c => { c with next := next })

/-- Put a value into the new cell `p` and link it in at the tail. -/
def enqueue (q : LinkedQueue P α) (p : P) (x : α) : LinkedQueue P α :=
  let cells := Function.update q.cells p (some ⟨x, none⟩)
  match q.tail with
  | some t => ⟨setNext cells t (some p), q.head, some p⟩
  | none => ⟨cells, some p, some p⟩

/-- Unlink the cell at the head. -/
def dequeue (q : LinkedQueue P α) : Option (P × LinkedQueue P α) :=
  q.head.bind fun p =>
    (q.cells p).map fun c =>
      (p, { q with head := c.next, tail := if c.next = none then none else q.tail })

/-- Free a cell. -/
def release (q : LinkedQueue P α) (p : P) : LinkedQueue P α :=
  { q with cells := Function.update q.cells p none }

end Operations

/-- The list of cells and values that hangs off a pointer. -/
def Linked (cells : P → Option (QueueCell P α)) : Option P → List (P × α) → Prop
  | p, [] => p = none
  | p, (a, x) :: items => p = some a ∧ ∃ next, cells a = some ⟨x, next⟩ ∧ Linked cells next items

/-- The pointers stand for a list of cells without repetitions. -/
structure Holds (q : LinkedQueue P α) (items : List (P × α)) : Prop where
  linked : Linked q.cells q.head items
  tail : q.tail = items.getLast?.map Prod.fst
  nodup : (items.map Prod.fst).Nodup

theorem holds_empty : (empty : LinkedQueue P α).Holds [] := ⟨rfl, rfl, List.nodup_nil⟩

/-- The list depends on its own cells only. -/
theorem Linked.frame {cells cells' : P → Option (QueueCell P α)} {items : List (P × α)} :
    ∀ {p : Option P}, Linked cells p items → (∀ e ∈ items, cells' e.1 = cells e.1) →
      Linked cells' p items := by
  induction items with
  | nil => intro p h _; exact h
  | cons e items ih =>
    rintro p ⟨hp, next, hcell, hrest⟩ hsame
    rw [List.forall_mem_cons] at hsame
    exact ⟨hp, next, hsame.1.trans hcell, ih hrest hsame.2⟩

/-- Every cell of the list is allocated and has its value. -/
theorem Linked.cell {cells : P → Option (QueueCell P α)} {items : List (P × α)} :
    ∀ {p : Option P}, Linked cells p items → ∀ e ∈ items, ∃ next, cells e.1 = some ⟨e.2, next⟩ := by
  induction items with
  | nil => intro p _ e he; cases he
  | cons e items ih =>
    rintro p ⟨-, next, hcell, hrest⟩ e' he'
    rcases List.mem_cons.mp he' with rfl | he'
    · exact ⟨next, hcell⟩
    · exact ih hrest e' he'

/-- The head pointer is null exactly for the empty list. -/
theorem Holds.head_eq_none {q : LinkedQueue P α} {items : List (P × α)} (h : q.Holds items) :
    q.head = none ↔ items = [] := by
  cases items with
  | nil => exact ⟨fun _ => rfl, fun _ => h.linked⟩
  | cons e items =>
    rw [h.linked.1]
    simp

/-- So is the tail pointer. -/
theorem Holds.tail_eq_none {q : LinkedQueue P α} {items : List (P × α)} (h : q.Holds items) :
    q.tail = none ↔ items = [] := by
  rw [h.tail, Option.map_eq_none_iff, List.getLast?_eq_none_iff]

/-- **Taking the first value out**; nothing is written. -/
theorem holds_dequeue {q : LinkedQueue P α} {items : List (P × α)} {p : P} {x : α}
    (h : q.Holds ((p, x) :: items)) :
    ∃ q', q.dequeue = some (p, q') ∧ q'.Holds items ∧ q'.cells = q.cells := by
  obtain ⟨hhead, next, hcell, hrest⟩ := h.linked
  refine ⟨{ q with head := next, tail := if next = none then none else q.tail }, ?_,
    ⟨hrest, ?_, ?_⟩, rfl⟩
  · rw [dequeue, hhead, Option.bind_some, hcell, Option.map_some]
  · cases items with
    | nil =>
      rw [show next = none from hrest]
      rfl
    | cons e items =>
      have hnext : next ≠ none := by
        rw [hrest.1]
        simp
      simp only [if_neg hnext, h.tail, List.getLast?_cons_cons]
  · exact (List.nodup_cons.mp h.nodup).2

section Operations

variable [DecidableEq P] {q : LinkedQueue P α} {items : List (P × α)}

/-- One more cell behind the last one. -/
theorem Linked.append {cells : P → Option (QueueCell P α)} {p : P} {x : α}
    (hp : cells p = some ⟨x, none⟩) {e : P × α} {items : List (P × α)} :
    ∀ {start : Option P}, Linked cells start (items ++ [e]) → ((items ++ [e]).map Prod.fst).Nodup →
      (∀ e' ∈ items ++ [e], e'.1 ≠ p) →
      Linked (setNext cells e.1 (some p)) start (items ++ [e] ++ [(p, x)]) := by
  induction items with
  | nil =>
    rintro start ⟨hstart, next, hcell, rfl⟩ _ hne
    refine ⟨hstart, some p, ?_, rfl, none, ?_, rfl⟩
    · rw [setNext, Function.update_self, hcell]
      rfl
    · rw [setNext, Function.update_of_ne (Ne.symm (hne e (by simp)))]
      exact hp
  | cons d items ih =>
    rintro start ⟨hstart, next, hcell, hrest⟩ hnodup hne
    rw [List.cons_append, List.map_cons, List.nodup_cons] at hnodup
    have hde : d.1 ≠ e.1 := by
      intro h
      exact hnodup.1 (by rw [h]; simp)
    refine ⟨hstart, next, ?_, ih hrest hnodup.2 fun e' he' => hne e' (List.mem_cons_of_mem _ he')⟩
    rw [setNext, Function.update_of_ne hde]
    exact hcell

/-- **Putting a value in**, with a cell that was not allocated. -/
theorem holds_enqueue (h : q.Holds items) {p : P} (hfresh : q.cells p = none) (x : α) :
    (q.enqueue p x).Holds (items ++ [(p, x)]) := by
  have hne : ∀ e ∈ items, e.1 ≠ p := by
    rintro e he rfl
    obtain ⟨next, hcell⟩ := h.linked.cell e he
    rw [hfresh] at hcell
    cases hcell
  have hlinked : Linked (Function.update q.cells p (some ⟨x, none⟩)) q.head items :=
    h.linked.frame fun e he => Function.update_of_ne (hne e he) ..
  have hnodup : ((items ++ [(p, x)]).map Prod.fst).Nodup := by
    rw [List.map_append, List.nodup_append]
    refine ⟨h.nodup, List.nodup_singleton p, ?_⟩
    intro a ha b hb
    obtain ⟨e, he, rfl⟩ := List.mem_map.mp ha
    rw [List.map_singleton, List.mem_singleton] at hb
    rw [hb]
    exact hne e he
  rcases List.eq_nil_or_concat items with rfl | ⟨items, e, rfl⟩
  · have htail : q.tail = none := h.tail_eq_none.mpr rfl
    refine ⟨?_, ?_, hnodup⟩
    · rw [enqueue, htail]
      exact ⟨rfl, none, Function.update_self .., rfl⟩
    · rw [enqueue, htail]
      rfl
  · rw [List.concat_eq_append] at h hne hlinked hnodup ⊢
    have htail : q.tail = some e.1 := by
      rw [h.tail, List.getLast?_append]
      rfl
    refine ⟨?_, ?_, hnodup⟩
    · rw [enqueue, htail]
      exact hlinked.append (Function.update_self ..) h.nodup hne
    · rw [enqueue, htail, List.getLast?_append]
      rfl

/-- Only the new cell and the old last one are written. -/
theorem enqueue_cells {p b : P} (x : α) (hb : b ≠ p) (ht : q.tail ≠ some b) :
    (q.enqueue p x).cells b = q.cells b := by
  unfold enqueue
  cases htail : q.tail with
  | none => exact Function.update_of_ne hb ..
  | some t =>
    have hbt : b ≠ t := by
      rintro rfl
      exact ht htail
    simp only [setNext, Function.update_of_ne hbt, Function.update_of_ne hb]

/-- **Releasing a cell** that is not in the queue. -/
theorem holds_release (h : q.Holds items) {p : P} (hp : p ∉ items.map Prod.fst) :
    (q.release p).Holds items := by
  refine ⟨h.linked.frame fun e he => Function.update_of_ne ?_ .., h.tail, h.nodup⟩
  rintro rfl
  exact hp (List.mem_map_of_mem he)

end Operations

end LinkedQueue
