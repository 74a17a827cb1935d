import Mathlib.Logic.Function.Basic
import Mathlib.Data.List.Nodup

/-!
# Chained hash tables

A table of buckets, each a chain of entries, under an arbitrary hash function.  Entries are
updated and removed through a test on the entry itself (a pointer comparison, say), which has to
single out the entry of one key.

* `Chains.find` — the lookup; the operations act on it as on a partial function of the key.
* `Chains.WF` — every entry lies in its home bucket and no chain has two entries of one key.
-/

set_option autoImplicit false

/-- A table of chains. -/
abbrev Chains (ι α : Type) := ι → List α

namespace Chains

variable {ι K α : Type}

/-- The first entry of a key in its home bucket. -/
def find [DecidableEq K] (hash : K → ι) (key : α → K) (c : Chains ι α) (k : K) : Option α :=
  (c (hash k)).find? (fun e => decide (key e = k))

/-- Put an entry at the head of a chain. -/
def prepend [DecidableEq ι] (c : Chains ι α) (i : ι) (e : α) : Chains ι α := Function.update c i (e :: c i)

/-- Change the entries of a chain that pass a test. -/
def modify [DecidableEq ι] (c : Chains ι α) (i : ι) (p : α → Bool) (f : α → α) : Chains ι α :=
  Function.update c i ((c i).map (fun e => if p e then f e else e))

/-- Unlink the first entry of a chain that passes a test. -/
def unlink [DecidableEq ι] (c : Chains ι α) (i : ι) (p : α → Bool) : Chains ι α :=
  Function.update c i ((c i).eraseP p)

/-- Entries at home, one for each key. -/
structure WF (hash : K → ι) (key : α → K) (c : Chains ι α) : Prop where
  home : ∀ i, ∀ e ∈ c i, hash (key e) = i
  nodup : ∀ i, ((c i).map key).Nodup

variable {hash : K → ι} {key : α → K} {c : Chains ι α}

theorem WF.empty : WF hash key (fun _ => [] : Chains ι α) :=
  ⟨fun _ _ h => by simp at h, fun _ => by simp⟩

section Lookup

variable [DecidableEq K]

theorem find_some {k : K} {e : α} (h : find hash key c k = some e) :
    e ∈ c (hash k) ∧ key e = k := by
  unfold find at h
  exact ⟨List.mem_of_find?_eq_some h, by simpa using List.find?_some h⟩

theorem find_none {k : K} (h : find hash key c k = none) : ∀ e ∈ c (hash k), key e ≠ k := by
  intro e he
  unfold find at h
  simpa using List.find?_eq_none.mp h e he

end Lookup

section ListLemmas

variable [DecidableEq K]

theorem find?_map_modify {l : List α} {p : α → Bool} {f : α → α} {k : K}
    (hf : ∀ e, key (f e) = key e) (hp : ∀ e ∈ l, p e = true ↔ key e = k) (k' : K) :
    (l.map (fun e => if p e then f e else e)).find? (fun e => decide (key e = k')) =
      if k' = k then (l.find? (fun e => decide (key e = k))).map f
      else l.find? (fun e => decide (key e = k')) := by
  induction l with
  | nil => simp
  | cons a l ih =>
    have ih' := ih (fun e he => hp e (List.mem_cons_of_mem _ he))
    have ha := hp a List.mem_cons_self
    rw [List.map_cons, List.find?_cons, List.find?_cons, List.find?_cons]
    by_cases hpa : p a = true
    · have hak := ha.mp hpa
      simp only [hpa, if_true, hf, hak, decide_true, Option.map_some]
      by_cases hk : k' = k
      · simp [hk]
      · have hk' : ¬ k = k' := fun h => hk h.symm
        simp only [hk, hk', decide_false, if_false]
        rw [ih', if_neg hk]
    · have hak : ¬ key a = k := fun h => hpa (ha.mpr h)
      by_cases hk : k' = k
      · subst hk
        simp only [hpa, hak, decide_false, if_false, if_true, Bool.false_eq_true]
        rw [ih', if_pos rfl]
      · simp only [hpa, if_false, hk, Bool.false_eq_true]
        rw [ih', if_neg hk]

theorem find?_eraseP {l : List α} {p : α → Bool} {k : K} (hnd : (l.map key).Nodup)
    (hp : ∀ e ∈ l, p e = true ↔ key e = k) (k' : K) :
    (l.eraseP p).find? (fun e => decide (key e = k')) =
      if k' = k then none else l.find? (fun e => decide (key e = k')) := by
  induction l with
  | nil => simp
  | cons a l ih =>
    rw [List.map_cons, List.nodup_cons] at hnd
    have ih' := ih hnd.2 (fun e he => hp e (List.mem_cons_of_mem _ he))
    have ha := hp a List.mem_cons_self
    by_cases hpa : p a = true
    · have hak := ha.mp hpa
      rw [List.eraseP_cons_of_pos hpa, List.find?_cons]
      by_cases hk : k' = k
      · -- the keys are distinct, so no other entry of the chain has this one
        rw [if_pos hk]
        refine List.find?_eq_none.mpr (fun e he => ?_)
        have : key e ≠ k := fun h => hnd.1 (by rw [hak, ← h]; exact List.mem_map_of_mem he)
        simpa [hk] using this
      · have : ¬ key a = k' := fun h => hk (by rw [← h, hak])
        simp [hk, this]
    · have hak : ¬ key a = k := fun h => hpa (ha.mpr h)
      rw [List.eraseP_cons_of_neg hpa, List.find?_cons, ih', List.find?_cons]
      by_cases hk : k' = k
      · simp [hk, hak]
      · simp [hk]

end ListLemmas

/-! ## Lookups after an operation -/

theorem WF.find_of_mem [DecidableEq K] (hwf : WF hash key c) {i : ι} {e : α} (he : e ∈ c i) :
    find hash key c (key e) = some e := by
  have hi := hwf.home i e he
  subst hi
  cases hf : find hash key c (key e) with
  | none => exact absurd rfl (find_none hf e he)
  | some e' =>
    obtain ⟨hm, hk⟩ := find_some hf
    rw [List.inj_on_of_nodup_map (hwf.nodup _) hm he hk]

section Operations

variable [DecidableEq ι] [DecidableEq K]

theorem find_prepend {k : K} {e : α} (hk : key e = k) (k' : K) :
    find hash key (c.prepend (hash k) e) k' = if k' = k then some e else find hash key c k' := by
  subst hk
  unfold find prepend
  by_cases hk : k' = key e
  · subst hk; simp
  · have hk' : ¬ key e = k' := fun h => hk h.symm
    by_cases hh : hash k' = hash (key e)
    · simp [hk, hk', hh]
    · simp [hk, hh]

theorem find_modify {k : K} {p : α → Bool} {f : α → α} (hf : ∀ e, key (f e) = key e)
    (hp : ∀ e ∈ c (hash k), p e = true ↔ key e = k) (k' : K) :
    find hash key (c.modify (hash k) p f) k' =
      if k' = k then (find hash key c k).map f else find hash key c k' := by
  unfold find modify
  by_cases hh : hash k' = hash k
  · rw [hh, Function.update_self]
    exact find?_map_modify hf hp k'
  · have hk : ¬ k' = k := fun h => hh (by rw [h])
    rw [Function.update_of_ne hh, if_neg hk]

theorem WF.find_unlink (hwf : WF hash key c) {k : K} {p : α → Bool}
    (hp : ∀ e ∈ c (hash k), p e = true ↔ key e = k) (k' : K) :
    find hash key (c.unlink (hash k) p) k' = if k' = k then none else find hash key c k' := by
  unfold find unlink
  by_cases hh : hash k' = hash k
  · rw [hh, Function.update_self]
    exact find?_eraseP (hwf.nodup _) hp k'
  · have hk : ¬ k' = k := fun h => hh (by rw [h])
    rw [Function.update_of_ne hh, if_neg hk]

/-! ## Well-formedness after an operation -/

theorem WF.prepend (hwf : WF hash key c) {e : α} (hnone : find hash key c (key e) = none) :
    WF hash key (c.prepend (hash (key e)) e) := by
  refine ⟨fun i e' he' => ?_, fun i => ?_⟩
  · unfold Chains.prepend at he'
    by_cases hi : i = hash (key e)
    · subst hi
      rw [Function.update_self, List.mem_cons] at he'
      rcases he' with rfl | he'
      · rfl
      · exact hwf.home _ e' he'
    · rw [Function.update_of_ne hi] at he'
      exact hwf.home i e' he'
  · unfold Chains.prepend
    by_cases hi : i = hash (key e)
    · subst hi
      rw [Function.update_self, List.map_cons, List.nodup_cons]
      refine ⟨fun hm => ?_, hwf.nodup _⟩
      obtain ⟨e', he', hk⟩ := List.mem_map.mp hm
      exact find_none hnone e' he' hk
    · rw [Function.update_of_ne hi]
      exact hwf.nodup i

end Operations

theorem WF.modify [DecidableEq ι] (hwf : WF hash key c) {i : ι} {p : α → Bool} {f : α → α}
    (hf : ∀ e, key (f e) = key e) : WF hash key (c.modify i p f) := by
  have hkey : ∀ e, key (if p e then f e else e) = key e := by
    intro e
    split
    · exact hf e
    · rfl
  refine ⟨fun j e he => ?_, fun j => ?_⟩
  · unfold Chains.modify at he
    by_cases hj : j = i
    · subst hj
      rw [Function.update_self, List.mem_map] at he
      obtain ⟨e', he', rfl⟩ := he
      rw [hkey]
      exact hwf.home j e' he'
    · rw [Function.update_of_ne hj] at he
      exact hwf.home j e he
  · unfold Chains.modify
    by_cases hj : j = i
    · subst hj
      rw [Function.update_self, List.map_map]
      have : key ∘ (fun e => if p e then f e else e) = key := funext hkey
      rw [this]
      exact hwf.nodup j
    · rw [Function.update_of_ne hj]
      exact hwf.nodup j

theorem WF.unlink [DecidableEq ι] (hwf : WF hash key c) {i : ι} {p : α → Bool} :
    WF hash key (c.unlink i p) := by
  refine ⟨fun j e he => ?_, fun j => ?_⟩
  · unfold Chains.unlink at he
    by_cases hj : j = i
    · subst hj
      rw [Function.update_self] at he
      exact hwf.home j e (List.mem_of_mem_eraseP he)
    · rw [Function.update_of_ne hj] at he
      exact hwf.home j e he
  · unfold Chains.unlink
    by_cases hj : j = i
    · subst hj
      rw [Function.update_self]
      exact (hwf.nodup j).sublist (List.eraseP_sublist.map key)
    · rw [Function.update_of_ne hj]
      exact hwf.nodup j

end Chains
