import Ticketing.Lib.Runs
import Mathlib.Data.List.Pairwise
import Mathlib.Data.List.Induction

/-!
# A cache that evicts the least recently fetched key

The keys of a cache with room for so many, each with its pins, in the order of their last fetches.

* `LruCache.step` — a fetch and an unpin.  A fetch of a key that is missing from a full cache evicts the
  unpinned key whose last fetch is oldest, and fails when every key is pinned.
* `LruCache.lastFetch` — when a key was last fetched, read off the calls alone.
* `LruCache.run_ordered`, `LruCache.victim_oldest` — the order of the list is the order of these times,
  so the victim is the oldest unpinned key.
-/

set_option autoImplicit false

/-- Keys with their pins, the last one fetched first. -/
abbrev LruCache (K : Type) := List (K × Nat)

/-- The calls. -/
inductive LruOp (K : Type) where
  | fetch (k : K)
  | unpin (k : K)
  deriving DecidableEq

/-- What comes of a fetch: whether the key is there afterwards, whether it was there before, and which
key had to go. -/
structure LruAnswer (K : Type) where
  found : Bool
  hit : Bool
  evicted : Option K
  deriving DecidableEq

namespace LruCache

variable {K : Type} [DecidableEq K]

/-- The cache without a key. -/
def without (c : LruCache K) (k : K) : LruCache K := c.filter (fun e => e.1 != k)

/-- The entry of a key. -/
def entry (c : LruCache K) (k : K) : Option (K × Nat) := c.find? (fun e => e.1 == k)

/-- The outstanding pins of a key. -/
def pins (c : LruCache K) (k : K) : Nat := ((c.entry k).map Prod.snd).getD 0

/-- The unpinned key whose last fetch is oldest. -/
def victim (c : LruCache K) : Option K := (c.reverse.find? (fun e => e.2 == 0)).map Prod.fst

/-- An entry after an unpin of a key. -/
def unpinEntry (k : K) (e : K × Nat) : K × Nat := if e.1 = k then (e.1, e.2 - 1) else e

/-- One call of a cache with room for `capacity` keys. -/
def step (capacity : Nat) (c : LruCache K) : LruOp K → Option (LruAnswer K) × LruCache K
  | .fetch k =>
    match c.entry k with
    | some e => (some ⟨true, true, none⟩, (k, e.2 + 1) :: c.without k)
    | none =>
      if c.length < capacity then (some ⟨true, false, none⟩, (k, 1) :: c)
      else
        match c.victim with
        | some v => (some ⟨true, false, some v⟩, (k, 1) :: c.without v)
        | none => (some ⟨false, false, none⟩, c)
  | .unpin k => (none, c.map (unpinEntry k))

theorem unpinEntry_of_ne {k : K} {e : K × Nat} (h : e.1 ≠ k) : unpinEntry k e = e := if_neg h

theorem unpinEntry_of_eq {k : K} {e : K × Nat} (h : e.1 = k) : unpinEntry k e = (e.1, e.2 - 1) := if_pos h

theorem unpinEntry_key (k : K) (e : K × Nat) : (unpinEntry k e).1 = e.1 := by
  unfold unpinEntry
  split <;> rfl

theorem entry_eq_none {c : LruCache K} {k : K} : c.entry k = none ↔ ∀ e ∈ c, e.1 ≠ k := by
  simp [entry]

theorem entry_eq_some {c : LruCache K} {k : K} {e : K × Nat} (h : c.entry k = some e) :
    e ∈ c ∧ e.1 = k := by
  have hk := List.find?_some h
  exact ⟨List.mem_of_find?_eq_some h, by simpa using hk⟩

section Step

variable {capacity : Nat} {c : LruCache K} {k : K}

theorem step_hit {e : K × Nat} (h : c.entry k = some e) :
    step capacity c (.fetch k) = (some ⟨true, true, none⟩, (k, e.2 + 1) :: c.without k) := by
  simp only [step, h]

theorem step_room (h : c.entry k = none) (hroom : c.length < capacity) :
    step capacity c (.fetch k) = (some ⟨true, false, none⟩, (k, 1) :: c) := by
  simp only [step, h, if_pos hroom]

theorem step_evict (h : c.entry k = none) (hfull : ¬ c.length < capacity) {v : K}
    (hv : c.victim = some v) :
    step capacity c (.fetch k) = (some ⟨true, false, some v⟩, (k, 1) :: c.without v) := by
  simp only [step, h, if_neg hfull, hv]

theorem step_pinned (h : c.entry k = none) (hfull : ¬ c.length < capacity) (hv : c.victim = none) :
    step capacity c (.fetch k) = (some ⟨false, false, none⟩, c) := by
  simp only [step, h, if_neg hfull, hv]

end Step

/-! ## Times -/

/-- The number of the call that fetched a key last, counted from 1, of calls with the latest first; 0 for
a key that was never fetched. -/
def lastFetch : List (LruOp K) → K → Nat
  | [], _ => 0
  | .fetch k' :: past, k => if k' = k then past.length + 1 else lastFetch past k
  | .unpin _ :: past, k => lastFetch past k

theorem lastFetch_le (past : List (LruOp K)) (k : K) : lastFetch past k ≤ past.length := by
  induction past with
  | nil => exact Nat.le_refl 0
  | cons op past ih =>
    cases op with
    | fetch k' =>
      rw [lastFetch, List.length_cons]
      split <;> omega
    | unpin k' => exact Nat.le_succ_of_le ih

/-- The cache is in the order of the last fetches. -/
def Ordered (past : List (LruOp K)) (c : LruCache K) : Prop :=
  c.Pairwise (fun e e' => lastFetch past e'.1 < lastFetch past e.1)

/-- A key just fetched goes before what is left of the others. -/
theorem Ordered.fetched {past : List (LruOp K)} {c c' : LruCache K} (h : Ordered past c)
    (hsub : c'.Sublist c) {k : K} (hk : ∀ e ∈ c', e.1 ≠ k) (p : Nat) :
    Ordered (.fetch k :: past) ((k, p) :: c') := by
  have hlast : ∀ e ∈ c', lastFetch (.fetch k :: past) e.1 = lastFetch past e.1 := fun e he =>
    if_neg (Ne.symm (hk e he))
  refine List.Pairwise.cons (fun e he => ?_) ?_
  · rw [hlast e he]
    have hle := lastFetch_le past e.1
    rw [lastFetch, if_pos rfl]
    omega
  · refine (List.Pairwise.sublist hsub h).imp_of_mem fun he he' hlt => ?_
    rw [hlast _ he, hlast _ he']
    exact hlt

/-- **One call** keeps the order. -/
theorem Ordered.step {past : List (LruOp K)} {c : LruCache K} (h : Ordered past c) (capacity : Nat)
    (op : LruOp K) : Ordered (op :: past) (LruCache.step capacity c op).2 := by
  cases op with
  | fetch k =>
    cases he : c.entry k with
    | some e =>
      rw [step_hit he]
      refine h.fetched List.filter_sublist (fun e' he' => ?_) _
      simpa using (List.mem_filter.mp he').2
    | none =>
      have hout := entry_eq_none.mp he
      by_cases hroom : c.length < capacity
      · rw [step_room he hroom]
        exact h.fetched (List.Sublist.refl _) hout 1
      · cases hv : c.victim with
        | some v =>
          rw [step_evict he hroom hv]
          refine h.fetched List.filter_sublist (fun e' he' => ?_) 1
          exact hout e' (List.mem_filter.mp he').1
        | none =>
          rw [step_pinned he hroom hv]
          refine List.Pairwise.imp_of_mem (fun {e e'} hmem hmem' hlt => ?_) h
          rw [lastFetch, lastFetch, if_neg (Ne.symm (hout _ hmem)), if_neg (Ne.symm (hout _ hmem'))]
          exact hlt
  | unpin k =>
    refine List.Pairwise.map _ (fun e e' hlt => ?_) h
    rw [unpinEntry_key, unpinEntry_key]
    exact hlt

/-- **The order of the cache** after any calls is the order of the last fetches. -/
theorem run_ordered (capacity : Nat) (ops : List (LruOp K)) :
    Ordered ops.reverse (runOps (LruCache.step capacity) [] ops).2 := by
  induction ops using List.reverseRecOn with
  | nil => exact List.Pairwise.nil
  | append_singleton ops op ih =>
    rw [runOps_concat, List.reverse_append]
    exact ih.step capacity op

/-- **The victim** is unpinned, and was last fetched before every other unpinned key. -/
theorem victim_oldest {past : List (LruOp K)} {c : LruCache K} (h : Ordered past c) {v : K}
    (hv : c.victim = some v) :
    (v, 0) ∈ c ∧ ∀ k, (k, 0) ∈ c → k ≠ v → lastFetch past v < lastFetch past k := by
  obtain ⟨⟨k', p⟩, hfind, hkey⟩ := Option.map_eq_some_iff.mp hv
  obtain rfl : k' = v := hkey
  obtain ⟨hp, older, newer, hsplit, hpinned⟩ := List.find?_eq_some_iff_append.mp hfind
  have hzero : p = 0 := by simpa using hp
  subst hzero
  have hc : c = newer.reverse ++ (k', 0) :: older.reverse := by
    rw [← List.reverse_reverse c, hsplit]
    simp
  refine ⟨by rw [hc]; simp, fun k hk hne => ?_⟩
  -- behind the victim every key is pinned, so an unpinned one is before it
  rw [hc, List.mem_append, List.mem_cons] at hk
  rw [hc] at h
  rcases hk with hnew | heq | hold
  · exact (List.pairwise_append.mp h).2.2 _ hnew _ List.mem_cons_self
  · exact absurd (congrArg Prod.fst heq) hne
  · have hpin := hpinned _ (List.mem_reverse.mp hold)
    simp at hpin

end LruCache
