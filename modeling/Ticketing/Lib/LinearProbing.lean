import Mathlib.Data.Fintype.Card
import Mathlib.Data.Nat.ModEq
import Mathlib.Data.List.Range

/-!
# Linear probing

An open-addressed table from keys to indices, in `cap` buckets.  Bucket numbers are computed modulo the
word size `W`, so near `W` the probe sequence repeats buckets; the first visits still come in cyclic
order, up to where the sequence ends (`Probed`, `probeFirst_eq`, `probeFirst_none`).

* `find`, `insert`, `remove` — the operations; `remove` puts the entries behind the freed bucket in
  again, one after another.  `Removes` has that loop without a bound on its turns.
* `Linked` — every entry can be reached from the bucket of its hash; `Room` — some bucket is empty;
  `Holds` — the pairs in the table.
* `Linked.find_eq_some`, `Linked.insert`, `Linked.remove` — what the operations do to the pairs.
* `Wf`, `insert_spec`, `remove_spec` — the same for distinct indices below `n` in a table that is at most
  half full, where every insertion finds its bucket.
-/

set_option autoImplicit false

namespace Probing

/-! ## Buckets in cyclic order -/

theorem mod_add_cancel {cap a i j : Nat} (hi : i < cap) (hj : j < cap)
    (h : (a + i) % cap = (a + j) % cap) : i = j := by
  have hmod : i % cap = j % cap := Nat.ModEq.add_left_cancel' a h
  rwa [Nat.mod_eq_of_lt hi, Nat.mod_eq_of_lt hj] at hmod

/-- A bucket and what follows it. -/
theorem mod_add_shift {cap a i p : Nat} (h : (a + i) % cap = p) (j : Nat) :
    (p + j) % cap = (a + (i + j)) % cap := by
  rw [← h, Nat.mod_add_mod, Nat.add_assoc]

/-- The `i`-th bucket probed from `h`. -/
def probe (W cap h i : Nat) : Nat := (h + i) % W % cap

/-- The first bucket probed at which the loop stops. -/
def probeFirst (W cap h : Nat) (stop : Nat → Bool) : Option Nat :=
  ((List.range cap).map (probe W cap h)).find? stop

/-- As long as the word does not overflow, buckets come in cyclic order. -/
theorem probe_eq {W cap h i : Nat} (hi : h + i < W) : probe W cap h i = (h + i) % cap := by
  rw [probe, Nat.mod_eq_of_lt hi]

/-- After an overflow the sequence goes back `W - cap` buckets. -/
theorem probe_overflow {W cap h i : Nat} (hW : cap ≤ W) (hh : h < cap) (hi : i < cap)
    (hover : W ≤ h + i) : probe W cap h i = (h + (i - (W - cap))) % cap := by
  have hleft : (h + i) % W = h + i - W := by
    rw [Nat.mod_eq_sub_mod hover, Nat.mod_eq_of_lt (by omega)]
  have hright : (h + (i - (W - cap))) % cap = h + i - W := by
    rw [Nat.mod_eq_sub_mod (by omega), Nat.mod_eq_of_lt (by omega)]
    omega
  rw [probe, hleft, hright, Nat.mod_eq_of_lt (by omega)]

/-- The sequence from `h` on comes to the bucket `d` places behind it. -/
def Probed (W cap h d : Nat) : Prop := h + d < W ∨ d + (W - cap) < cap

theorem Probed.mono {W cap h d j : Nat} (hd : Probed W cap h d) (hj : j ≤ d) : Probed W cap h j := by
  rcases hd with hd | hd
  · exact Or.inl (by omega)
  · exact Or.inr (by omega)

/-- **The first stop** in cyclic order is the first stop of the loop. -/
theorem probeFirst_eq {W cap h j : Nat} {stop : Nat → Bool} (hW : cap ≤ W) (hh : h < cap)
    (hj : j < cap) (hbound : Probed W cap h j)
    (hstop : stop ((h + j) % cap) = true)
    (hfirst : ∀ i < j, stop ((h + i) % cap) = false) :
    probeFirst W cap h stop = some ((h + j) % cap) := by
  have key : ∀ i < cap, probe W cap h i = (h + j) % cap →
      (∀ i' < i, stop (probe W cap h i') = false) →
      probeFirst W cap h stop = some ((h + j) % cap) := by
    intro i hi hslot hbefore
    have hfind : (List.range cap).find? (stop ∘ probe W cap h) = some i := by
      rw [List.find?_range_eq_some]
      refine ⟨?_, List.mem_range.mpr hi, fun i' hi' => ?_⟩
      · simp only [Function.comp, hslot, hstop]
      · simp only [Function.comp, hbefore i' hi', Bool.not_false]
    rw [probeFirst, List.find?_map, hfind, Option.map_some, hslot]
  rcases Nat.lt_or_ge (h + j) W with hlt | hge
  · apply key j hj (probe_eq hlt)
    intro i hi
    rw [probe_eq (by omega)]
    exact hfirst i hi
  · have hlate : j + (W - cap) < cap := hbound.resolve_left (by omega)
    apply key (j + (W - cap)) hlate
    · rw [probe_overflow hW hh hlate (by omega), Nat.add_sub_cancel]
    · intro i hi
      rcases Nat.lt_or_ge (h + i) W with hlt | hover
      · rw [probe_eq hlt]
        exact hfirst i (by omega)
      · rw [probe_overflow hW hh (by omega) hover]
        exact hfirst _ (by omega)

/-- A first stop that the sequence does not come to. -/
theorem probeFirst_none {W cap h j : Nat} {stop : Nat → Bool} (hW : cap ≤ W) (hh : h < cap)
    (hbound : ¬ Probed W cap h j) (hfirst : ∀ i < j, stop ((h + i) % cap) = false) :
    probeFirst W cap h stop = none := by
  rw [probeFirst, List.find?_eq_none]
  intro p hp
  obtain ⟨i, hi, rfl⟩ := List.mem_map.mp hp
  have hi := List.mem_range.mp hi
  have hout : W ≤ h + j ∧ cap ≤ j + (W - cap) := by
    unfold Probed at hbound
    omega
  rcases Nat.lt_or_ge (h + i) W with hlt | hover
  · rw [probe_eq hlt, hfirst i (by omega)]
    exact Bool.false_ne_true
  · rw [probe_overflow hW hh hi hover, hfirst _ (by omega)]
    exact Bool.false_ne_true

/-! ## The operations -/

/-- The buckets. -/
abbrev Table (K : Type) := Nat → Option (K × Nat)

section Operations

variable {K : Type} [DecidableEq K] (W cap : Nat) (hash : K → Nat)

/-- The bucket of a key. -/
def find (t : Table K) (k : K) : Option Nat :=
  (probeFirst W cap (hash k) (fun p => (t p).all (fun e => e.1 == k))).filter (fun p => (t p).isSome)

/-- Put a pair into the first empty bucket probed. -/
def insert (t : Table K) (k : K) (i : Nat) : Table K :=
  match probeFirst W cap (hash k) (fun p => (t p).isNone) with
  | some p => Function.update t p (some (k, i))
  | none => t

/-- Put the entries from bucket `p` up to the next empty bucket in again. -/
def rehash : Nat → Table K → Nat → Table K
  | 0, t, _ => t
  | fuel + 1, t, p =>
    match t p with
    | none => t
    | some e => rehash fuel (insert W cap hash (Function.update t p none) e.1 e.2) ((p + 1) % cap)

/-- Take a key out. -/
def remove (t : Table K) (k : K) : Table K :=
  match find W cap hash t k with
  | none => t
  | some p => rehash W cap hash cap (Function.update t p none) ((p + 1) % cap)

/-- The loop of a removal from bucket `p` on, as it comes. -/
inductive Rehashes : Table K → Nat → Table K → Prop where
  | stop {t : Table K} {p : Nat} (h : t p = none) : Rehashes t p t
  | turn {t t' : Table K} {p : Nat} {e : K × Nat} (h : t p = some e)
      (hrest : Rehashes (insert W cap hash (Function.update t p none) e.1 e.2) ((p + 1) % cap) t') :
      Rehashes t p t'

/-- The removal of a key ends with the table `t'`. -/
def Removes (t : Table K) (k : K) (t' : Table K) : Prop :=
  match find W cap hash t k with
  | none => t' = t
  | some p => Rehashes W cap hash (Function.update t p none) ((p + 1) % cap) t'

end Operations

/-- The loop ends in one way. -/
theorem Rehashes.unique {K : Type} {W cap : Nat} {hash : K → Nat} {t t₁ t₂ : Table K}
    {p : Nat} (h₁ : Rehashes W cap hash t p t₁) (h₂ : Rehashes W cap hash t p t₂) : t₁ = t₂ := by
  induction h₁ with
  | stop hfree =>
    cases h₂ with
    | stop _ => rfl
    | turn hentry _ =>
      rw [hfree] at hentry
      cases hentry
  | turn hentry _ ih =>
    cases h₂ with
    | stop hfree =>
      rw [hentry] at hfree
      cases hfree
    | turn hentry' hrest =>
      rw [hentry, Option.some.injEq] at hentry'
      subst hentry'
      exact ih hrest

/-- The pair is in the table. -/
def Holds {K : Type} (t : Table K) (k : K) (i : Nat) : Prop := ∃ p, t p = some (k, i)

/-- Entries lie below `cap`, and keys are distinct. -/
structure Keyed {K : Type} (cap : Nat) (t : Table K) : Prop where
  bound : ∀ p e, t p = some e → p < cap
  keys : ∀ p q e e', t p = some e → t q = some e' → e.1 = e'.1 → p = q

/-- Every entry can be reached from the bucket of its hash, through occupied buckets, by the probe
sequence. -/
structure Linked {K : Type} (W cap : Nat) (hash : K → Nat) (t : Table K) : Prop
    extends Keyed cap t where
  reach : ∀ p e, t p = some e → ∃ d < cap, (hash e.1 + d) % cap = p ∧ Probed W cap (hash e.1) d ∧
    ∀ i < d, t ((hash e.1 + i) % cap) ≠ none

/-- Some bucket is empty. -/
def Room {K : Type} (cap : Nat) (t : Table K) : Prop := ∃ p < cap, t p = none

/-- Keys and indices are distinct, indices below `n`. -/
structure Distinct {K : Type} (n cap : Nat) (t : Table K) : Prop where
  bound : ∀ p e, t p = some e → p < cap
  index : ∀ p e, t p = some e → e.2 < n
  keys : ∀ p q e e', t p = some e → t q = some e' → e.1 = e'.1 → p = q
  indices : ∀ p q e e', t p = some e → t q = some e' → e.2 = e'.2 → p = q

/-- Every entry can be reached from the bucket of its hash through occupied buckets. -/
structure Wf {K : Type} (n cap : Nat) (hash : K → Nat) (t : Table K) : Prop
    extends Distinct n cap t where
  reach : ∀ p e, t p = some e → ∃ d < cap, (hash e.1 + d) % cap = p ∧
    ∀ i < d, t ((hash e.1 + i) % cap) ≠ none

section Facts

variable {K : Type} {W cap : Nat} {hash : K → Nat} {t : Table K}

theorem linked_empty (W cap : Nat) (hash : K → Nat) : Linked W cap hash (fun _ => none : Table K) where
  bound := fun _ _ h => by cases h
  keys := fun _ _ _ _ h => by cases h
  reach := fun _ _ h => by cases h

/-- The next empty bucket. -/
theorem Room.next (hroom : Room cap t) (h : Nat) :
    ∃ j < cap, t ((h + j) % cap) = none ∧ ∀ i < j, t ((h + i) % cap) ≠ none := by
  obtain ⟨p, hp, hfree⟩ := hroom
  have hmod := Nat.mod_lt h (show 0 < cap by omega)
  have hback : (h + (p + cap - h % cap) % cap) % cap = p := by
    rw [Nat.add_mod_mod, Nat.add_mod, ← Nat.add_mod, ← Nat.mod_add_mod,
      show h % cap + (p + cap - h % cap) = p + cap by omega, Nat.add_mod_right, Nat.mod_eq_of_lt hp]
  have hex : ∃ j, t ((h + j) % cap) = none := ⟨_, by rw [hback]; exact hfree⟩
  classical
  have hmin : Nat.find hex ≤ (p + cap - h % cap) % cap := Nat.find_min' hex (by rw [hback]; exact hfree)
  have hlt := Nat.mod_lt (p + cap - h % cap) (show 0 < cap by omega)
  exact ⟨Nat.find hex, by omega, Nat.find_spec hex, fun i hi => Nat.find_min hex hi⟩

/-- Emptying a bucket. -/
theorem Keyed.clear (hd : Keyed cap t) (p : Nat) : Keyed cap (Function.update t p none) := by
  have hsub : ∀ q e, Function.update t p none q = some e → t q = some e := by
    intro q e h
    rcases eq_or_ne q p with rfl | hne
    · rw [Function.update_self] at h
      cases h
    · rwa [Function.update_of_ne hne] at h
  exact ⟨fun q e h => hd.bound q e (hsub q e h),
    fun q q' e e' h h' => hd.keys q q' e e' (hsub q e h) (hsub q' e' h')⟩

/-- Filling a bucket with a new key. -/
theorem Keyed.fill (hd : Keyed cap t) {p i : Nat} {k : K} (hp : p < cap)
    (hkey : ∀ q e, t q = some e → e.1 ≠ k) : Keyed cap (Function.update t p (some (k, i))) := by
  have hcase : ∀ q e, Function.update t p (some (k, i)) q = some e →
      (q = p ∧ e = (k, i)) ∨ (q ≠ p ∧ t q = some e) := by
    intro q e h
    rcases eq_or_ne q p with rfl | hne
    · rw [Function.update_self, Option.some.injEq] at h
      exact Or.inl ⟨rfl, h.symm⟩
    · rw [Function.update_of_ne hne] at h
      exact Or.inr ⟨hne, h⟩
  refine ⟨fun q e h => ?_, fun q q' e e' h h' heq => ?_⟩
  · obtain ⟨rfl, -⟩ | ⟨-, h⟩ := hcase q e h
    · exact hp
    · exact hd.bound q e h
  · obtain ⟨rfl, rfl⟩ | ⟨-, ht⟩ := hcase q e h <;> obtain ⟨rfl, rfl⟩ | ⟨-, ht'⟩ := hcase q' e' h'
    · rfl
    · exact absurd heq.symm (hkey q' e' ht')
    · exact absurd heq (hkey q e ht)
    · exact hd.keys q q' e e' ht ht' heq

end Facts

/-! ## Insertion -/

section Insertion

variable {K : Type} {W cap : Nat} {hash : K → Nat} {t : Table K}

/-- The loop of an insertion ends at the first empty bucket, if it comes there. -/
theorem insert_eq (hW : cap ≤ W) (hhash : ∀ k, hash k < cap) {k : K} {j : Nat} (hj : j < cap)
    (hprobed : Probed W cap (hash k) j) (hfree : t ((hash k + j) % cap) = none)
    (hpath : ∀ i < j, t ((hash k + i) % cap) ≠ none) (i : Nat) :
    insert W cap hash t k i = Function.update t ((hash k + j) % cap) (some (k, i)) := by
  have hfirst : probeFirst W cap (hash k) (fun p => (t p).isNone) = some ((hash k + j) % cap) := by
    apply probeFirst_eq hW (hhash k) hj hprobed
    · rw [hfree]
      rfl
    · intro i hi
      obtain ⟨e, he⟩ := Option.ne_none_iff_exists'.mp (hpath i hi)
      rw [he]
      rfl
  rw [insert, hfirst]

/-- An insertion whose loop does not come to an empty bucket. -/
theorem insert_full (hW : cap ≤ W) (hhash : ∀ k, hash k < cap) {k : K} {j : Nat}
    (hprobed : ¬ Probed W cap (hash k) j) (hpath : ∀ i < j, t ((hash k + i) % cap) ≠ none) (i : Nat) :
    insert W cap hash t k i = t := by
  have hnone : probeFirst W cap (hash k) (fun p => (t p).isNone) = none := by
    apply probeFirst_none hW (hhash k) hprobed
    intro i hi
    obtain ⟨e, he⟩ := Option.ne_none_iff_exists'.mp (hpath i hi)
    rw [he]
    rfl
  rw [insert, hnone]

/-- A new key in the first empty bucket. -/
theorem Linked.fill (hl : Linked W cap hash t) (hhash : ∀ k, hash k < cap) {k : K} {j : Nat}
    (hj : j < cap) (hprobed : Probed W cap (hash k) j) (hfree : t ((hash k + j) % cap) = none)
    (hpath : ∀ i < j, t ((hash k + i) % cap) ≠ none) (hkey : ∀ p e, t p = some e → e.1 ≠ k) (i : Nat) :
    Linked W cap hash (Function.update t ((hash k + j) % cap) (some (k, i))) ∧
      ∀ k' i', Holds (Function.update t ((hash k + j) % cap) (some (k, i))) k' i' ↔
        Holds t k' i' ∨ k' = k ∧ i' = i := by
  have hslot : (hash k + j) % cap < cap := Nat.mod_lt _ (by have := hhash k; omega)
  refine ⟨⟨hl.toKeyed.fill hslot hkey, ?_⟩, ?_⟩
  · -- more buckets are occupied than before
    have hmore : ∀ q, t q ≠ none →
        Function.update t ((hash k + j) % cap) (some (k, i)) q ≠ none := by
      intro q hq
      rcases eq_or_ne q ((hash k + j) % cap) with rfl | hne
      · simp
      · rwa [Function.update_of_ne hne]
    intro p e hp
    rcases eq_or_ne p ((hash k + j) % cap) with rfl | hne
    · rw [Function.update_self, Option.some.injEq] at hp
      subst hp
      exact ⟨j, hj, rfl, hprobed, fun i' hi' => hmore _ (hpath i' hi')⟩
    · rw [Function.update_of_ne hne] at hp
      obtain ⟨d, hd, hp', hd', hpath'⟩ := hl.reach p e hp
      exact ⟨d, hd, hp', hd', fun i' hi' => hmore _ (hpath' i' hi')⟩
  · intro k' i'
    constructor
    · rintro ⟨p, hp⟩
      rcases eq_or_ne p ((hash k + j) % cap) with rfl | hne
      · rw [Function.update_self, Option.some.injEq, Prod.mk.injEq] at hp
        exact Or.inr ⟨hp.1.symm, hp.2.symm⟩
      · rw [Function.update_of_ne hne] at hp
        exact Or.inl ⟨p, hp⟩
    · rintro (⟨p, hp⟩ | ⟨rfl, rfl⟩)
      · refine ⟨p, ?_⟩
        rwa [Function.update_of_ne]
        rintro rfl
        rw [hfree] at hp
        cases hp
      · exact ⟨_, Function.update_self _ _ _⟩

/-- **Insertion** of a new key: the pair is added, or the loop ends without an empty bucket. -/
theorem Linked.insert (hl : Linked W cap hash t) (hroom : Room cap t) (hW : cap ≤ W)
    (hhash : ∀ k, hash k < cap) {k : K} (hkey : ∀ p e, t p = some e → e.1 ≠ k) (i : Nat) :
    Probing.insert W cap hash t k i = t ∨ Linked W cap hash (Probing.insert W cap hash t k i) ∧
      ∀ k' i', Holds (Probing.insert W cap hash t k i) k' i' ↔ Holds t k' i' ∨ k' = k ∧ i' = i := by
  obtain ⟨j, hj, hfree, hpath⟩ := hroom.next (hash k)
  by_cases hprobed : Probed W cap (hash k) j
  · right
    rw [insert_eq hW hhash hj hprobed hfree hpath]
    exact hl.fill hhash hj hprobed hfree hpath hkey i
  · exact Or.inl (insert_full hW hhash hprobed hpath i)

end Insertion

/-! ## The rehash loop -/

section Rehash

variable {K : Type} {W cap : Nat} {hash : K → Nat} {t : Table K}

/-- The rehash loop at bucket `p`, with `m` entries to go before the empty bucket `e`: only these may
be out of reach, and no entry's way from its hash passes `e`. -/
structure Rehashing (W cap : Nat) (hash : K → Nat) (e p m : Nat) (t : Table K) : Prop
    extends Keyed cap t where
  free : t e = none
  last : (p + m) % cap = e
  short : m < cap
  run : ∀ c < m, t ((p + c) % cap) ≠ none
  reach : ∀ q x, t q = some x → ∃ d < cap, (hash x.1 + d) % cap = q ∧ Probed W cap (hash x.1) d ∧
    (∀ i ≤ d, (hash x.1 + i) % cap ≠ e) ∧
    ((∃ c < m, q = (p + c) % cap) ∨ ∀ i < d, t ((hash x.1 + i) % cap) ≠ none)

/-- One turn of the loop: the entry goes to an empty bucket on the way it has come, its own at the
latest. -/
theorem Rehashing.turn {e p m : Nat} {x : K × Nat} (h : Rehashing W cap hash e p (m + 1) t)
    (hW : cap ≤ W) (hhash : ∀ k, hash k < cap) (hp : t p = some x) :
    Rehashing W cap hash e ((p + 1) % cap) m
        (insert W cap hash (Function.update t p none) x.1 x.2) ∧
      ∀ k i, Holds (insert W cap hash (Function.update t p none) x.1 x.2) k i ↔ Holds t k i := by
  have hpcap := h.bound p x hp
  obtain ⟨d, hd, hslot, hprobed, havoid, -⟩ := h.reach p x hp
  have hcleared : ∀ q, q ≠ p → Function.update t p none q = t q := fun q hq =>
    Function.update_of_ne hq _ _
  -- the first empty bucket comes no later than `p` itself
  have hex : ∃ j, Function.update t p none ((hash x.1 + j) % cap) = none :=
    ⟨d, by rw [hslot, Function.update_self]⟩
  classical
  obtain ⟨j, hjd, hfree, hpath⟩ : ∃ j ≤ d, Function.update t p none ((hash x.1 + j) % cap) = none ∧
      ∀ i < j, Function.update t p none ((hash x.1 + i) % cap) ≠ none :=
    ⟨Nat.find hex, Nat.find_min' hex (by rw [hslot, Function.update_self]), Nat.find_spec hex,
      fun i hi => Nat.find_min hex hi⟩
  have hr : (hash x.1 + j) % cap < cap := Nat.mod_lt _ (by omega)
  rw [insert_eq hW hhash (by omega) (hprobed.mono hjd) hfree hpath]
  -- what is in the table afterwards
  have hcase : ∀ q y, Function.update (Function.update t p none) ((hash x.1 + j) % cap) (some x) q =
      some y → (q = (hash x.1 + j) % cap ∧ y = x) ∨
        (q ≠ (hash x.1 + j) % cap ∧ q ≠ p ∧ t q = some y) := by
    intro q y hq
    rcases eq_or_ne q ((hash x.1 + j) % cap) with rfl | hne
    · rw [Function.update_self, Option.some.injEq] at hq
      exact Or.inl ⟨rfl, hq.symm⟩
    · rw [Function.update_of_ne hne] at hq
      rcases eq_or_ne q p with rfl | hqp
      · rw [Function.update_self] at hq
        cases hq
      · rw [hcleared q hqp] at hq
        exact Or.inr ⟨hne, hqp, hq⟩
  have hkeep : ∀ q, q ≠ p → t q ≠ none →
      Function.update (Function.update t p none) ((hash x.1 + j) % cap) (some x) q ≠ none := by
    intro q hqp hq
    rcases eq_or_ne q ((hash x.1 + j) % cap) with rfl | hne
    · simp
    · rwa [Function.update_of_ne hne, hcleared q hqp]
  have hfill : Keyed cap
      (Function.update (Function.update t p none) ((hash x.1 + j) % cap) (some x)) := by
    apply (h.toKeyed.clear p).fill hr
    intro q y hq heq
    have hqp : q ≠ p := by
      rintro rfl
      rw [Function.update_self] at hq
      cases hq
    rw [hcleared q hqp] at hq
    exact hqp (h.keys _ _ _ _ hq hp heq)
  have hep : e ≠ p := by
    rintro rfl
    rw [h.free] at hp
    cases hp
  have hlast := h.last
  have hshort := h.short
  refine ⟨⟨hfill, ?_, ?_, by omega, ?_, ?_⟩, ?_⟩
  · rw [Function.update_of_ne (fun he => havoid j hjd he.symm), hcleared e hep]
    exact h.free
  · rw [Nat.mod_add_mod, ← hlast]
    congr 1
    omega
  · intro c hc
    rw [Nat.mod_add_mod, Nat.add_assoc, Nat.add_comm 1 c]
    apply hkeep _ _ (h.run (c + 1) (by omega))
    intro hsame
    have hzero : (p + (c + 1)) % cap = (p + 0) % cap := by
      rw [hsame, Nat.add_zero, Nat.mod_eq_of_lt hpcap]
    have := mod_add_cancel (by omega) (by omega) hzero
    omega
  · intro q y hq
    obtain ⟨rfl, rfl⟩ | ⟨hqr, hqp, hq⟩ := hcase q y hq
    · refine ⟨j, by omega, rfl, hprobed.mono hjd, fun i hi => havoid i (by omega),
        Or.inr (fun i hi => ?_)⟩
      rw [Function.update_of_ne]
      · exact hpath i hi
      · intro hsame
        have := mod_add_cancel (by omega) (by omega) hsame
        omega
    · obtain ⟨dy, hdy, hslot', hprobed', havoid', hcase'⟩ := h.reach q y hq
      refine ⟨dy, hdy, hslot', hprobed', havoid', ?_⟩
      obtain ⟨c, hc, rfl⟩ | hfull := hcase'
      · left
        cases c with
        | zero =>
          rw [Nat.add_zero, Nat.mod_eq_of_lt hpcap] at hqp
          exact absurd rfl hqp
        | succ c =>
          refine ⟨c, by omega, ?_⟩
          rw [Nat.mod_add_mod, Nat.add_assoc, Nat.add_comm 1 c]
      · by_cases hthrough : ∃ i < dy, (hash y.1 + i) % cap = p
        · -- a way through `p` ends before `e`
          obtain ⟨i, hi, hip⟩ := hthrough
          have hq' : q = (p + (dy - i)) % cap := by
            rw [mod_add_shift hip, ← hslot']
            congr 2
            omega
          left
          rcases Nat.lt_or_ge (dy - i) (m + 1) with hlt | hge
          · refine ⟨dy - i - 1, by omega, ?_⟩
            rw [Nat.mod_add_mod, hq']
            congr 1
            omega
          · exfalso
            apply havoid' (i + (m + 1)) (by omega)
            rw [← mod_add_shift hip, hlast]
        · push Not at hthrough
          exact Or.inr (fun i hi => hkeep _ (hthrough i hi) (hfull i hi))
  · intro k i
    constructor
    · rintro ⟨q, hq⟩
      obtain ⟨-, rfl⟩ | ⟨-, -, hq⟩ := hcase q _ hq
      · exact ⟨p, hp⟩
      · exact ⟨q, hq⟩
    · rintro ⟨q, hq⟩
      rcases eq_or_ne q p with rfl | hqp
      · rw [hp, Option.some.injEq] at hq
        exact ⟨_, by rw [Function.update_self, hq]⟩
      · refine ⟨q, ?_⟩
        rw [Function.update_of_ne, hcleared q hqp]
        · exact hq
        · rintro rfl
          rw [hcleared _ hqp, hq] at hfree
          cases hfree

/-- What the loop leaves: every entry in reach, and the bucket it stops at empty. -/
structure Rehashed (W cap : Nat) (hash : K → Nat) (t t' : Table K) : Prop where
  linked : Linked W cap hash t'
  room : Room cap t'
  holds : ∀ k i, Holds t' k i ↔ Holds t k i

/-- **The loop ends** at the empty bucket; it has no more turns than there are buckets. -/
theorem rehash_spec (hW : cap ≤ W) (hhash : ∀ k, hash k < cap) {e : Nat} (m : Nat) :
    ∀ (fuel p : Nat) (t : Table K), m ≤ fuel → p < cap → Rehashing W cap hash e p m t →
      Rehashed W cap hash t (rehash W cap hash fuel t p) ∧
        Rehashes W cap hash t p (rehash W cap hash fuel t p) := by
  induction m with
  | zero =>
    intro fuel p t _ hp h
    have hpe : p = e := by
      rw [← h.last, Nat.add_zero, Nat.mod_eq_of_lt hp]
    have hend : rehash W cap hash fuel t p = t := by
      cases fuel with
      | zero => rfl
      | succ fuel => simp only [rehash, hpe, h.free]
    rw [hend]
    refine ⟨⟨⟨h.toKeyed, fun q x hq => ?_⟩, ⟨p, hp, by rw [hpe]; exact h.free⟩, fun k i => Iff.rfl⟩,
      .stop (by rw [hpe]; exact h.free)⟩
    obtain ⟨d, hd, hslot, hprobed, -, hcase⟩ := h.reach q x hq
    refine ⟨d, hd, hslot, hprobed, ?_⟩
    obtain ⟨c, hc, -⟩ | hfull := hcase
    · omega
    · exact hfull
  | succ m ih =>
    intro fuel p t hfuel hp h
    obtain ⟨x, hx⟩ : ∃ x, t p = some x := by
      have hrun := h.run 0 (by omega)
      rw [Nat.add_zero, Nat.mod_eq_of_lt hp] at hrun
      exact Option.ne_none_iff_exists'.mp hrun
    obtain ⟨fuel, rfl⟩ : ∃ f, fuel = f + 1 := ⟨fuel - 1, by omega⟩
    obtain ⟨hturn, hpairs⟩ := h.turn hW hhash hx
    obtain ⟨hdone, hloop⟩ := ih fuel ((p + 1) % cap) _ (by omega) (Nat.mod_lt _ (by omega)) hturn
    have hstep : rehash W cap hash (fuel + 1) t p =
        rehash W cap hash fuel (insert W cap hash (Function.update t p none) x.1 x.2)
          ((p + 1) % cap) := by
      simp only [rehash, hx]
    rw [hstep]
    exact ⟨⟨hdone.linked, hdone.room, fun k i => (hdone.holds k i).trans (hpairs k i)⟩, .turn hx hloop⟩

/-- The freed bucket starts a rehash. -/
theorem Linked.rehashing (hl : Linked W cap hash t) (hroom : Room cap t) {b : Nat} {x : K × Nat}
    (hb : t b = some x) :
    ∃ e m, m ≤ cap ∧ Rehashing W cap hash e ((b + 1) % cap) m (Function.update t b none) := by
  have hbcap := hl.bound b x hb
  obtain ⟨m, hm, hfree, hrun⟩ := hroom.next (b + 1)
  have hcleared : ∀ q, q ≠ b → Function.update t b none q = t q := fun q hq =>
    Function.update_of_ne hq _ _
  have heb : (b + 1 + m) % cap ≠ b := by
    intro h
    rw [h, hb] at hfree
    cases hfree
  -- the empty bucket comes before `b` comes again
  have hmb : m + 1 < cap := by
    rcases Nat.lt_or_ge (m + 1) cap with hlt | hge
    · exact hlt
    · refine absurd ?_ heb
      rw [show b + 1 + m = b + cap by omega, Nat.add_mod_right, Nat.mod_eq_of_lt hbcap]
  refine ⟨(b + 1 + m) % cap, m, by omega, hl.toKeyed.clear b, ?_, ?_, by omega, ?_, ?_⟩
  · rw [hcleared _ heb]
    exact hfree
  · rw [Nat.mod_add_mod]
  · intro c hc
    rw [Nat.mod_add_mod, hcleared]
    · exact hrun c hc
    · intro hsame
      have hzero : (b + (1 + c)) % cap = (b + 0) % cap := by
        rw [← Nat.add_assoc, hsame, Nat.add_zero, Nat.mod_eq_of_lt hbcap]
      have := mod_add_cancel (by omega) (by omega) hzero
      omega
  · intro q y hq
    have hqb : q ≠ b := by
      rintro rfl
      rw [Function.update_self] at hq
      cases hq
    rw [hcleared q hqb] at hq
    obtain ⟨d, hd, hslot, hprobed, hpath⟩ := hl.reach q y hq
    -- the way to an entry is occupied, so it does not pass the empty bucket
    have havoid : ∀ i ≤ d, (hash y.1 + i) % cap ≠ (b + 1 + m) % cap := by
      intro i hi hsame
      rcases Nat.lt_or_ge i d with hlt | hge
      · exact hpath i hlt (hsame ▸ hfree)
      · have hid : i = d := by omega
        rw [← hsame, hid, hslot, hq] at hfree
        cases hfree
    refine ⟨d, hd, hslot, hprobed, havoid, ?_⟩
    by_cases hthrough : ∃ i < d, (hash y.1 + i) % cap = b
    · obtain ⟨i, hi, hib⟩ := hthrough
      have hq' : q = (b + (d - i)) % cap := by
        rw [mod_add_shift hib, ← hslot]
        congr 2
        omega
      left
      rcases Nat.lt_or_ge (d - i - 1) m with hlt | hge
      · refine ⟨d - i - 1, hlt, ?_⟩
        rw [Nat.mod_add_mod, hq']
        congr 1
        omega
      · exfalso
        apply havoid (i + (1 + m)) (by omega)
        rw [← mod_add_shift hib, Nat.add_assoc]
    · push Not at hthrough
      right
      intro i hi
      rw [hcleared _ (hthrough i hi)]
      exact hpath i hi

end Rehash

/-! ## Lookup and removal -/

section Lookup

variable {K : Type} [DecidableEq K] {W cap : Nat} {hash : K → Nat} {t : Table K}

/-- **Lookup.** -/
theorem Linked.find_eq_some (hl : Linked W cap hash t) (hW : cap ≤ W) (hhash : ∀ k, hash k < cap) {k : K}
    {p : Nat} : find W cap hash t k = some p ↔ ∃ i, t p = some (k, i) := by
  constructor
  · intro h
    obtain ⟨hfirst, hsome⟩ := Option.filter_eq_some_iff.mp h
    have hstop := List.find?_some hfirst
    obtain ⟨e, he⟩ := Option.isSome_iff_exists.mp hsome
    rw [he] at hstop
    have hkey : e.1 = k := by simpa using hstop
    exact ⟨e.2, by rw [he, ← hkey]⟩
  · rintro ⟨i, hp⟩
    obtain ⟨d, hd, hslot, hprobed, hpath⟩ := hl.reach p _ hp
    have hfirst : probeFirst W cap (hash k) (fun p => (t p).all (fun e => e.1 == k)) =
        some ((hash k + d) % cap) := by
      apply probeFirst_eq hW (hhash k) hd hprobed
      · rw [hslot, hp]
        simp
      · -- another bucket with the key would be this one
        intro j hj
        obtain ⟨e, he⟩ := Option.ne_none_iff_exists'.mp (hpath j hj)
        rw [he, Option.all_some, beq_eq_false_iff_ne]
        intro hkey
        have hsame := hl.keys _ _ _ _ he hp hkey
        rw [← hslot] at hsame
        have := mod_add_cancel (by omega) hd hsame
        omega
    rw [find, hfirst, hslot, Option.filter_some, hp]
    rfl

theorem Linked.find_eq_none (hl : Linked W cap hash t) (hW : cap ≤ W) (hhash : ∀ k, hash k < cap) {k : K} :
    find W cap hash t k = none ↔ ∀ p e, t p = some e → e.1 ≠ k := by
  constructor
  · rintro h p ⟨k', i⟩ hp rfl
    have hfind := (hl.find_eq_some hW hhash).mpr ⟨i, hp⟩
    rw [h] at hfind
    cases hfind
  · intro h
    cases hf : find W cap hash t k with
    | none => rfl
    | some p =>
      obtain ⟨i, hp⟩ := (hl.find_eq_some hW hhash).mp hf
      exact absurd rfl (h p _ hp)

/-- **Removal**, whose loop ends. -/
theorem Linked.remove (hl : Linked W cap hash t) (hroom : Room cap t) (hW : cap ≤ W)
    (hhash : ∀ k, hash k < cap) (k : K) :
    Linked W cap hash (Probing.remove W cap hash t k) ∧ Room cap (Probing.remove W cap hash t k) ∧
      (∀ k' i, Holds (Probing.remove W cap hash t k) k' i ↔ Holds t k' i ∧ k' ≠ k) ∧
      Removes W cap hash t k (Probing.remove W cap hash t k) := by
  cases hf : find W cap hash t k with
  | none =>
    have habsent := (hl.find_eq_none hW hhash).mp hf
    simp only [Probing.remove, Removes, hf]
    refine ⟨hl, hroom, fun k' i => ⟨fun h => ⟨h, ?_⟩, fun h => h.1⟩, trivial⟩
    obtain ⟨p, hp⟩ := h
    exact habsent p _ hp
  | some b =>
    obtain ⟨i, hb⟩ := (hl.find_eq_some hW hhash).mp hf
    obtain ⟨e, m, hm, hre⟩ := hl.rehashing hroom hb
    have hcap : 0 < cap := by
      have := hhash k
      omega
    obtain ⟨hdone, hloop⟩ := rehash_spec hW hhash m cap ((b + 1) % cap) _ hm (Nat.mod_lt _ hcap) hre
    simp only [Probing.remove, Removes, hf]
    refine ⟨hdone.linked, hdone.room, fun k' i' => (hdone.holds k' i').trans ?_, hloop⟩
    constructor
    · rintro ⟨q, hq⟩
      rcases eq_or_ne q b with rfl | hqb
      · rw [Function.update_self] at hq
        cases hq
      · rw [Function.update_of_ne hqb] at hq
        exact ⟨⟨q, hq⟩, fun hkey => hqb (hl.keys _ _ _ _ hq hb hkey)⟩
    · rintro ⟨⟨q, hq⟩, hne⟩
      refine ⟨q, ?_⟩
      rw [Function.update_of_ne]
      · exact hq
      · rintro rfl
        rw [hb, Option.some.injEq, Prod.mk.injEq] at hq
        exact hne hq.1.symm

end Lookup

/-! ## Few entries -/

section Few

variable {K : Type} {W n cap : Nat} {hash : K → Nat} {t : Table K}

/-- An empty table. -/
theorem wf_empty (n cap : Nat) (hash : K → Nat) : Wf n cap hash (fun _ => none : Table K) where
  bound := fun _ _ h => by cases h
  index := fun _ _ h => by cases h
  keys := fun _ _ _ _ h => by cases h
  indices := fun _ _ _ _ h => by cases h
  reach := fun _ _ h => by cases h

/-- A row of occupied buckets is no longer than the number of indices. -/
theorem Distinct.run_le (hd : Distinct n cap t) {h j : Nat} (hj : j ≤ cap)
    (hrun : ∀ i < j, t ((h + i) % cap) ≠ none) : j ≤ n := by
  have hentry : ∀ i : Fin j, ∃ e, t ((h + i) % cap) = some e := fun i =>
    Option.ne_none_iff_exists'.mp (hrun i i.isLt)
  choose entry hentry using hentry
  have hinj : Function.Injective (fun i : Fin j => (⟨(entry i).2, hd.index _ _ (hentry i)⟩ : Fin n)) := by
    intro a b hab
    have hslot := hd.indices _ _ _ _ (hentry a) (hentry b) (Fin.mk.inj hab)
    have hlta := a.isLt
    have hltb := b.isLt
    exact Fin.ext (mod_add_cancel (by omega) (by omega) hslot)
  simpa using Fintype.card_le_of_injective _ hinj

/-- There is an empty bucket. -/
theorem Distinct.room (hd : Distinct n cap t) (hn : n < cap) : Room cap t := by
  by_contra hno
  have hfull : ∀ i < n + 1, t ((0 + i) % cap) ≠ none := fun i _ hfree =>
    hno ⟨(0 + i) % cap, Nat.mod_lt _ (by omega), hfree⟩
  have hle := hd.run_le (h := 0) (j := n + 1) (by omega) hfull
  omega

/-- At most half full, the loop reaches every bucket it has to. -/
theorem probe_bound {h j : Nat} (hload : 2 * n ≤ cap) (hh : h < cap) (hj : j ≤ n) :
    Probed W cap h j := by
  unfold Probed
  omega

theorem Wf.linked (hw : Wf n cap hash t) (hload : 2 * n ≤ cap) (hhash : ∀ k, hash k < cap) :
    Linked W cap hash t := by
  refine ⟨⟨hw.bound, hw.keys⟩, fun p e hp => ?_⟩
  obtain ⟨d, hd, hslot, hpath⟩ := hw.reach p e hp
  exact ⟨d, hd, hslot, probe_bound hload (hhash e.1) (hw.run_le (by omega) hpath), hpath⟩

theorem Linked.wf (hl : Linked W cap hash t) (hindex : ∀ k i, Holds t k i → i < n)
    (hindices : ∀ k k' i, Holds t k i → Holds t k' i → k = k') : Wf n cap hash t := by
  refine ⟨⟨hl.bound, fun p e hp => hindex e.1 e.2 ⟨p, hp⟩, hl.keys, fun p q e e' hp hq heq => ?_⟩,
    fun p e hp => ?_⟩
  · refine hl.keys p q e e' hp hq (hindices e.1 e'.1 e.2 ⟨p, hp⟩ ⟨q, ?_⟩)
    rw [hq, heq]
  · obtain ⟨d, hd, hslot, -, hpath⟩ := hl.reach p e hp
    exact ⟨d, hd, hslot, hpath⟩

theorem Distinct.holds (hd : Distinct n cap t) {k : K} {i : Nat} (h : Holds t k i) : i < n := by
  obtain ⟨p, hp⟩ := h
  exact hd.index p _ hp

theorem Distinct.holds_key (hd : Distinct n cap t) {k k' : K} {i : Nat} (h : Holds t k i)
    (h' : Holds t k' i) : k = k' := by
  obtain ⟨p, hp⟩ := h
  obtain ⟨q, hq⟩ := h'
  have hpq := hd.indices p q _ _ hp hq rfl
  rw [hpq, hq, Option.some.injEq, Prod.mk.injEq] at hp
  exact hp.1.symm

/-- **Insertion** of a new key with a new index. -/
theorem insert_spec (hw : Wf n cap hash t) (hload : 2 * n ≤ cap) (hn : 0 < n) (hW : cap ≤ W)
    (hhash : ∀ k, hash k < cap) {k : K} {i : Nat} (hi : i < n)
    (hkey : ∀ p e, t p = some e → e.1 ≠ k) (hindex : ∀ p e, t p = some e → e.2 ≠ i) :
    Wf n cap hash (insert W cap hash t k i) ∧
      ∀ k' i', Holds (insert W cap hash t k i) k' i' ↔ Holds t k' i' ∨ k' = k ∧ i' = i := by
  obtain ⟨j, hj, hfree, hpath⟩ := (hw.room (by omega)).next (hash k)
  have hprobed : Probed W cap (hash k) j :=
    probe_bound hload (hhash k) (hw.run_le (by omega) hpath)
  rw [insert_eq hW hhash hj hprobed hfree hpath]
  obtain ⟨hlinked, hholds⟩ := (hw.linked hload hhash).fill hhash hj hprobed hfree hpath hkey i
  have hnew : ∀ k', ¬ Holds t k' i := fun k' ⟨p, hp⟩ => hindex p _ hp rfl
  refine ⟨hlinked.wf (fun k' i' h => ?_) (fun k₁ k₂ i' h₁ h₂ => ?_), hholds⟩
  · rcases (hholds k' i').mp h with h | ⟨-, rfl⟩
    · exact hw.holds h
    · exact hi
  · rcases (hholds k₁ i').mp h₁ with hold₁ | ⟨rfl, rfl⟩ <;>
      rcases (hholds k₂ _).mp h₂ with hold₂ | ⟨rfl, heq⟩
    · exact hw.holds_key hold₁ hold₂
    · exact absurd (heq ▸ hold₁) (hnew k₁)
    · exact absurd hold₂ (hnew k₂)
    · rfl

variable [DecidableEq K]

theorem find_eq_some (hw : Wf n cap hash t) (hload : 2 * n ≤ cap) (hW : cap ≤ W)
    (hhash : ∀ k, hash k < cap) {k : K} {p : Nat} :
    find W cap hash t k = some p ↔ ∃ i, t p = some (k, i) :=
  (hw.linked hload hhash).find_eq_some hW hhash

/-- **Removal.** -/
theorem remove_spec (hw : Wf n cap hash t) (hload : 2 * n ≤ cap) (hn : 0 < n) (hW : cap ≤ W)
    (hhash : ∀ k, hash k < cap) (k : K) :
    Wf n cap hash (remove W cap hash t k) ∧
      ∀ k' i, Holds (remove W cap hash t k) k' i ↔ Holds t k' i ∧ k' ≠ k := by
  obtain ⟨hlinked, -, hholds, -⟩ := (hw.linked hload hhash).remove (hw.room (by omega)) hW hhash k
  refine ⟨hlinked.wf (fun k' i h => hw.holds ((hholds k' i).mp h).1) (fun k₁ k₂ i h₁ h₂ => ?_), hholds⟩
  exact hw.holds_key ((hholds k₁ i).mp h₁).1 ((hholds k₂ i).mp h₂).1

end Few

end Probing
