import Mathlib.Data.List.Forall2
import Mathlib.Data.List.Count

/-!
# Threads in a list

The phases of the threads of a system, one entry for each thread.

* `getElem?_set_cases`, `getElem?_concat_cases`, `countP_set_add` — one thread moves, or a new one
  comes.
* `Listed` — the threads that have come to a given phase, in the order in which they came.
* `condSignal`, `condBroadcast` — `pthread_cond_signal` and `pthread_cond_broadcast` on the threads
  that sleep in a given phase.
* `Woken` — some of the sleepers are awake; what that leaves alone.
-/

set_option autoImplicit false

variable {α : Type}

/-! ## One thread -/

theorem getElem?_concat_cases {l : List α} {a x : α} {i : Nat} (h : (l ++ [a])[i]? = some x) :
    l[i]? = some x ∨ i = l.length ∧ x = a := by
  rw [List.getElem?_append, List.getElem?_singleton] at h
  split at h
  · exact Or.inl h
  · split at h
    · exact Or.inr ⟨by omega, (Option.some.inj h).symm⟩
    · cases h

theorem getElem?_set_cases {l : List α} {a x : α} {i j : Nat} (h : (l.set i a)[j]? = some x) :
    j = i ∧ x = a ∨ j ≠ i ∧ l[j]? = some x := by
  rw [List.getElem?_set] at h
  split at h
  · rename_i hij
    split at h
    · exact Or.inl ⟨hij.symm, (Option.some.inj h).symm⟩
    · cases h
  · rename_i hij
    exact Or.inr ⟨Ne.symm hij, h⟩

/-- A count changes by the thread that moves. -/
theorem countP_set_add (p : α → Bool) {l : List α} {i : Nat} {a b : α} (h : l[i]? = some a) :
    (l.set i b).countP p + (p a).toNat = l.countP p + (p b).toNat := by
  obtain ⟨hi, rfl⟩ := List.getElem?_eq_some_iff.mp h
  rw [List.countP_set hi]
  have hpos : p l[i] = true → 0 < l.countP p := fun hp =>
    List.countP_pos_iff.mpr ⟨l[i], List.getElem_mem hi, hp⟩
  cases hp : p l[i] <;> cases p b <;> simp_all

/-! ## Threads that have come to a phase -/

/-- `order` names the threads in phase `p`, each once. -/
structure Listed (p : α) (threads : List α) (order : List Nat) : Prop where
  nodup : order.Nodup
  mem : ∀ k, k ∈ order ↔ threads[k]? = some p

section Listed

variable {p a b : α} {threads : List α} {order : List Nat} {k : Nat}

theorem listed_nil (p : α) : Listed p [] [] :=
  ⟨List.Pairwise.nil, fun k => ⟨fun h => absurd h List.not_mem_nil, fun h => by cases h⟩⟩

theorem Listed.lt (h : Listed p threads order) (hk : k ∈ order) : k < threads.length :=
  (List.getElem?_eq_some_iff.mp ((h.mem k).mp hk)).1

/-- A new thread in another phase. -/
theorem Listed.concat (h : Listed p threads order) (ha : a ≠ p) : Listed p (threads ++ [a]) order := by
  refine ⟨h.nodup, fun k => ⟨fun hk => ?_, fun hk => ?_⟩⟩
  · rw [List.getElem?_append_left (h.lt hk)]
    exact (h.mem k).mp hk
  · rcases getElem?_concat_cases hk with hk | ⟨-, hk⟩
    · exact (h.mem k).mpr hk
    · exact absurd hk.symm ha

/-- A thread goes from one other phase to another. -/
theorem Listed.move (h : Listed p threads order) (hk : threads[k]? = some a) (ha : a ≠ p) (hb : b ≠ p) :
    Listed p (threads.set k b) order := by
  refine ⟨h.nodup, fun j => ⟨fun hj => ?_, fun hj => ?_⟩⟩
  · have hjp := (h.mem j).mp hj
    have hne : k ≠ j := by
      rintro rfl
      exact ha (Option.some.inj (hk.symm.trans hjp))
    rw [List.getElem?_set_ne hne]
    exact hjp
  · rcases getElem?_set_cases hj with ⟨-, hj⟩ | ⟨-, hj⟩
    · exact absurd hj.symm hb
    · exact (h.mem j).mpr hj

/-- A thread comes to the phase. -/
theorem Listed.enter (h : Listed p threads order) (hk : threads[k]? = some a) (ha : a ≠ p) :
    Listed p (threads.set k p) (order ++ [k]) := by
  have hfresh : k ∉ order := fun hmem => ha (Option.some.inj (hk.symm.trans ((h.mem k).mp hmem)))
  refine ⟨List.nodup_append.mpr ⟨h.nodup, List.pairwise_singleton _ k, fun i hi j hj => ?_⟩,
    fun j => ⟨fun hj => ?_, fun hj => ?_⟩⟩
  · rw [List.mem_singleton] at hj
    rintro rfl
    exact hfresh (hj ▸ hi)
  · rcases List.mem_append.mp hj with hj | hj
    · have hne : k ≠ j := by
        rintro rfl
        exact hfresh hj
      rw [List.getElem?_set_ne hne]
      exact (h.mem j).mp hj
    · rw [List.mem_singleton] at hj
      rw [hj, List.getElem?_set_self (List.getElem?_eq_some_iff.mp hk).1]
  · rcases getElem?_set_cases hj with ⟨rfl, -⟩ | ⟨-, hj⟩
    · exact List.mem_append_right _ (List.mem_singleton_self _)
    · exact List.mem_append_left _ ((h.mem j).mpr hj)

end Listed

/-! ## Condition variables -/

section Signals

variable [DecidableEq α]

/-- `pthread_cond_signal`: one of the sleeping threads wakes up, if there is one. -/
def condSignal (asleep awake : α) (threads : List α) : Option Nat → Option (List α)
  | some i => if threads[i]? = some asleep then some (threads.set i awake) else none
  | none => if asleep ∈ threads then none else some threads

/-- `pthread_cond_broadcast`. -/
def condBroadcast (asleep awake : α) (threads : List α) : List α :=
  threads.map fun t => if t = asleep then awake else t

end Signals

/-- Some of the sleepers have woken up, and nothing else has happened. -/
def Woken (asleep awake : α) : List α → List α → Prop :=
  List.Forall₂ fun t t' => t' = t ∨ t = asleep ∧ t' = awake

section Woken

variable {asleep awake : α} {ts ts' : List α}

theorem Woken.refl : ∀ ts : List α, Woken asleep awake ts ts
  | [] => .nil
  | _ :: ts => .cons (Or.inl rfl) (Woken.refl ts)

theorem Woken.length (h : Woken asleep awake ts ts') : ts'.length = ts.length :=
  (List.Forall₂.length_eq h).symm

/-- What a thread was before. -/
theorem Woken.getElem? (h : Woken asleep awake ts ts') :
    ∀ {i : Nat} {t' : α}, ts'[i]? = some t' →
      ∃ t, ts[i]? = some t ∧ (t' = t ∨ t = asleep ∧ t' = awake) := by
  induction h with
  | nil => intro i t' h; simp at h
  | cons hhead _ ih =>
    intro i t' h
    cases i with
    | zero =>
      cases h
      exact ⟨_, rfl, hhead⟩
    | succ i => exact ih h

/-- Threads that neither sleep nor have just woken up are the same. -/
theorem Woken.getElem?_iff (h : Woken asleep awake ts ts') {i : Nat} {t : α} (hs : t ≠ asleep)
    (ha : t ≠ awake) : ts'[i]? = some t ↔ ts[i]? = some t := by
  induction h generalizing i with
  | nil => exact Iff.rfl
  | @cons a b l l' hhead _ ih =>
    cases i with
    | zero =>
      simp only [List.getElem?_cons_zero, Option.some.injEq]
      rcases hhead with rfl | ⟨rfl, rfl⟩
      · exact Iff.rfl
      · exact ⟨fun h => absurd h.symm ha, fun h => absurd h.symm hs⟩
    | succ i => exact ih

/-- Counts that do not tell sleepers from those awake are the same. -/
theorem Woken.countP_eq (h : Woken asleep awake ts ts') {p : α → Bool} (hp : p awake = p asleep) :
    ts'.countP p = ts.countP p := by
  induction h with
  | nil => rfl
  | cons hhead _ ih =>
    rw [List.countP_cons, List.countP_cons, ih]
    rcases hhead with rfl | ⟨rfl, rfl⟩
    · rfl
    · rw [hp]

/-- Counts of threads awake do not decrease. -/
theorem Woken.countP_le (h : Woken asleep awake ts ts') {p : α → Bool} (hp : p asleep = false) :
    ts.countP p ≤ ts'.countP p := by
  induction h with
  | nil => exact Nat.le_refl _
  | cons hhead _ ih =>
    rw [List.countP_cons, List.countP_cons]
    rcases hhead with rfl | ⟨rfl, rfl⟩
    · exact Nat.add_le_add_right ih _
    · rw [hp]
      exact Nat.le_add_right_of_le ih

/-- Nobody falls asleep. -/
theorem Woken.asleep_mem (h : Woken asleep awake ts ts') (hne : awake ≠ asleep)
    (hmem : asleep ∈ ts') : asleep ∈ ts := by
  obtain ⟨i, hi⟩ := List.mem_iff_getElem?.mp hmem
  obtain ⟨t, ht, rfl | ⟨-, heq⟩⟩ := h.getElem? hi
  · exact List.mem_of_getElem? ht
  · exact absurd heq.symm hne

theorem woken_set : ∀ {ts : List α} {i : Nat}, ts[i]? = some asleep →
    Woken asleep awake ts (ts.set i awake)
  | [], i, h => by simp at h
  | t :: ts, 0, h => .cons (Or.inr ⟨Option.some.inj h, rfl⟩) (Woken.refl ts)
  | t :: ts, i + 1, h => .cons (Or.inl rfl) (woken_set h)

variable [DecidableEq α]

theorem woken_condSignal {woken : Option Nat} (h : condSignal asleep awake ts woken = some ts') :
    Woken asleep awake ts ts' := by
  unfold condSignal at h
  split at h
  · split at h
    · rename_i hi
      cases h
      exact woken_set hi
    · cases h
  · split at h
    · cases h
    · cases h
      exact Woken.refl ts

/-- If somebody still sleeps, the signal has woken somebody else. -/
theorem countP_condSignal {woken : Option Nat} (h : condSignal asleep awake ts woken = some ts')
    (hmem : asleep ∈ ts') {p : α → Bool} (hs : p asleep = false) (ha : p awake = true) :
    ts'.countP p = ts.countP p + 1 := by
  unfold condSignal at h
  split at h
  · split at h
    · rename_i hi
      cases h
      have hcount := countP_set_add p (b := awake) hi
      rw [hs, ha] at hcount
      exact hcount
    · cases h
  · split at h
    · cases h
    · rename_i hnone
      cases h
      exact absurd hmem hnone

theorem woken_condBroadcast : ∀ ts : List α, Woken asleep awake ts (condBroadcast asleep awake ts)
  | [] => .nil
  | t :: ts => by
    refine .cons ?_ (woken_condBroadcast ts)
    dsimp only
    split
    · rename_i ht
      exact Or.inr ⟨ht, rfl⟩
    · exact Or.inl rfl

end Woken
