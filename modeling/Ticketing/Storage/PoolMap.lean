import Ticketing.Lib.Runs
import Ticketing.Storage.BufferPool

/-!
# The map of the buffer pool, for every capacity

`_map_insert` and `_map_remove` on a map of any number of buckets, without the bound on its load that
`MAP_FACTOR` gives.

* `MapOp`, `poolMapStep`, `MapOk` — the calls: keys inserted are new, and a bucket stays empty.
* `MapKept` — the probe chains; one lemma for each call.
* `map_remove_keeps_others` — after every run, what a removal does.
-/

set_option autoImplicit false

namespace Ticketing

open BufferPool

/-- The calls. -/
inductive MapOp where
  | insert (k : PageKey) (i : Nat)
  | remove (k : PageKey)

/-- One call. -/
def poolMapStep (pool : BufferPool) : MapOp → Option BufferPool
  | .insert k i => some (pool.mapInsert k i)
  | .remove k => some (pool.mapRemove k)

/-- Some bucket is not occupied. -/
def BufferPool.HasEmpty (pool : BufferPool) : Prop := Probing.Room pool.mapCapacity pool.map

/-- A key is inserted that is not there, and a bucket stays empty. -/
def MapOk (pool : BufferPool) : MapOp → Prop
  | .insert k i => pool.mapFind k = none ∧ (pool.mapInsert k i).HasEmpty
  | .remove _ => True

/-- `_map_remove` without a bound on the turns of its loop. -/
def MapRemoveEnds (pool : BufferPool) (k : PageKey) (table : Probing.Table PageKey) : Prop :=
  Probing.Removes (2 ^ 32) pool.mapCapacity (pageHash pool.mapCapacity) pool.map k table

/-- Probe chains of a map of `cap` buckets, one of them empty. -/
structure MapKept (cap : Nat) (pool : BufferPool) : Prop where
  capacity : pool.mapCapacity = cap
  linked : Probing.Linked (2 ^ 32) cap (pageHash cap) pool.map
  room : Probing.Room cap pool.map

section MapKept

variable {cap : Nat} {pool : BufferPool}

theorem pageHash_lt_capacity (hcap : 0 < cap) (k : PageKey) : pageHash cap k < cap := Nat.mod_lt _ hcap

theorem MapKept.find_eq_some (h : MapKept cap pool) (hcap : 0 < cap) (hcap' : cap < 2 ^ 32) {k : PageKey}
    {b : Nat} : pool.mapFind k = some b ↔ ∃ i, pool.map b = some (k, i) := by
  rw [mapFind, h.capacity]
  exact h.linked.find_eq_some (Nat.le_of_lt hcap') (pageHash_lt_capacity hcap)

/-- The index of a key is the one its pair has. -/
theorem MapKept.frameOf_eq_some (h : MapKept cap pool) (hcap : 0 < cap) (hcap' : cap < 2 ^ 32)
    {k : PageKey} {i : Nat} : pool.frameOf k = some i ↔ Probing.Holds pool.map k i := by
  constructor
  · intro hf
    obtain ⟨b, hb, he⟩ := Option.bind_eq_some_iff.mp hf
    obtain ⟨i', hi'⟩ := (h.find_eq_some hcap hcap').mp hb
    rw [hi', Option.map_some, Option.some.injEq] at he
    exact ⟨b, by rw [hi', ← he]⟩
  · rintro ⟨b, hb⟩
    rw [frameOf, (h.find_eq_some hcap hcap').mpr ⟨i, hb⟩, Option.bind_some, hb]
    rfl

theorem MapKept.insert (h : MapKept cap pool) (hcap : 0 < cap) (hcap' : cap < 2 ^ 32) {k : PageKey}
    (i : Nat) (hnew : pool.mapFind k = none) (hroom : (pool.mapInsert k i).HasEmpty) :
    MapKept cap (pool.mapInsert k i) := by
  have hkey : ∀ b e, pool.map b = some e → e.1 ≠ k := by
    rintro b ⟨k', i'⟩ hb rfl
    rw [(h.find_eq_some hcap hcap').mpr ⟨i', hb⟩] at hnew
    cases hnew
  have hmap : (pool.mapInsert k i).map = Probing.insert (2 ^ 32) cap (pageHash cap) pool.map k i := by
    rw [mapInsert, h.capacity]
  refine ⟨h.capacity, ?_, ?_⟩
  · rw [hmap]
    rcases h.linked.insert h.room (Nat.le_of_lt hcap') (pageHash_lt_capacity hcap) hkey i with
      hsame | ⟨hlinked, -⟩
    · rw [hsame]
      exact h.linked
    · exact hlinked
  · have hcapacity : (pool.mapInsert k i).mapCapacity = cap := h.capacity
    rw [HasEmpty, hcapacity] at hroom
    exact hroom

/-- **A removal**: its loop ends, and it takes one pair away. -/
theorem MapKept.remove (h : MapKept cap pool) (hcap : 0 < cap) (hcap' : cap < 2 ^ 32) (k : PageKey) :
    MapKept cap (pool.mapRemove k) ∧ MapRemoveEnds pool k (pool.mapRemove k).map ∧
      ∀ k' i, Probing.Holds (pool.mapRemove k).map k' i ↔ Probing.Holds pool.map k' i ∧ k' ≠ k := by
  have hmap : (pool.mapRemove k).map = Probing.remove (2 ^ 32) cap (pageHash cap) pool.map k := by
    rw [mapRemove, h.capacity]
  obtain ⟨hlinked, hroom, hholds, hends⟩ :=
    h.linked.remove h.room (Nat.le_of_lt hcap') (pageHash_lt_capacity hcap) k
  rw [MapRemoveEnds, h.capacity, hmap]
  exact ⟨⟨h.capacity, hmap ▸ hlinked, hmap ▸ hroom⟩, hends, hholds⟩

/-- **Every call.** -/
theorem MapKept.step (h : MapKept cap pool) (hcap : 0 < cap) (hcap' : cap < 2 ^ 32) {op : MapOp}
    {pool' : BufferPool} (hok : MapOk pool op) (hs : poolMapStep pool op = some pool') : MapKept cap pool' := by
  cases op with
  | insert k i =>
    obtain rfl := Option.some.inj hs
    exact h.insert hcap hcap' i hok.1 hok.2
  | remove k =>
    obtain rfl := Option.some.inj hs
    exact (h.remove hcap hcap' k).1

end MapKept

/-- The pool with an empty map of `cap` buckets. -/
def emptyMap (cap : Nat) : BufferPool := { bufferPoolCreate 0 with mapCapacity := cap }

theorem mapKept_empty {cap : Nat} (hcap : 0 < cap) : MapKept cap (emptyMap cap) :=
  ⟨rfl, Probing.linked_empty _ _ _, 0, hcap, rfl⟩

/-- **Removal keeps every other key reachable**, in a map of any capacity that insertions of new keys and
removals have built, with a bucket always empty.  The removal of any key ends, and in one way; the key is
not found afterwards, and every other key is found if and only if it was, with the index it had; no key
has two buckets, and every occupied bucket is found by its key. -/
theorem map_remove_keeps_others {cap : Nat} (hcap : 0 < cap) (hcap' : cap < 2 ^ 32) {pool : BufferPool}
    (h : Reachable poolMapStep MapOk (emptyMap cap) pool) (k : PageKey) :
    (∀ table, MapRemoveEnds pool k table ↔ table = (pool.mapRemove k).map) ∧
      (pool.mapRemove k).mapFind k = none ∧
      (∀ k', k' ≠ k → (pool.mapRemove k).frameOf k' = pool.frameOf k') ∧
      (∀ b b' k' i i', (pool.mapRemove k).map b = some (k', i) →
        (pool.mapRemove k).map b' = some (k', i') → b = b') ∧
      (∀ b k' i, (pool.mapRemove k).map b = some (k', i) →
        (pool.mapRemove k).mapFind k' = some b ∧ pool.frameOf k' = some i) := by
  have hkept : MapKept cap pool :=
    h.invariant (mapKept_empty hcap) fun _ _ _ hi hok hs => hi.step hcap hcap' hok hs
  obtain ⟨hkept', hends, hholds⟩ := hkept.remove hcap hcap' k
  refine ⟨fun table => ⟨fun htable => ?_, fun htable => by rw [htable]; exact hends⟩, ?_, fun k' hne => ?_,
    fun b b' k' i i' hb hb' => hkept'.linked.keys b b' _ _ hb hb' rfl, fun b k' i hb => ⟨?_, ?_⟩⟩
  · rw [MapRemoveEnds, Probing.Removes] at htable hends
    cases hfind : Probing.find (2 ^ 32) pool.mapCapacity (pageHash pool.mapCapacity) pool.map k with
    | none =>
      rw [hfind] at htable hends
      exact htable.trans hends.symm
    | some p =>
      rw [hfind] at htable hends
      exact htable.unique hends
  · cases hfind : (pool.mapRemove k).mapFind k with
    | none => rfl
    | some b =>
      obtain ⟨i, hb⟩ := (hkept'.find_eq_some hcap hcap').mp hfind
      exact absurd rfl ((hholds k i).mp ⟨b, hb⟩).2
  · apply Option.ext
    intro i
    rw [hkept'.frameOf_eq_some hcap hcap', hkept.frameOf_eq_some hcap hcap', hholds]
    exact and_iff_left hne
  · exact (hkept'.find_eq_some hcap hcap').mpr ⟨i, hb⟩
  · exact (hkept.frameOf_eq_some hcap hcap').mpr ((hholds k' i).mp ⟨b, hb⟩).1

/-- Four buckets with three pages whose hash is the last bucket, so that their run wraps around. -/
def wrappedMap : BufferPool :=
  (((emptyMap 4).mapInsert ⟨3, 2⟩ 0).mapInsert ⟨3, 6⟩ 1).mapInsert ⟨3, 10⟩ 2

/-- The first page of the run is removed, and the other two move up. -/
theorem map_remove_keeps_others_wrapped : (wrappedMap.mapRemove ⟨3, 2⟩).frameOf ⟨3, 6⟩ = some 1 ∧
    (wrappedMap.mapRemove ⟨3, 2⟩).frameOf ⟨3, 10⟩ = some 2 := by
  have hreach : Reachable poolMapStep MapOk (emptyMap 4) wrappedMap := by
    refine ((Reachable.refl.tail (.insert ⟨3, 2⟩ 0) ⟨by decide, 2, by decide, by decide⟩ rfl).tail
      (.insert ⟨3, 6⟩ 1) ⟨by decide, 2, by decide, by decide⟩ rfl).tail (.insert ⟨3, 10⟩ 2)
      ⟨by decide, 2, by decide, by decide⟩ rfl
  obtain ⟨-, -, hothers, -⟩ := map_remove_keeps_others (by decide) (by decide) hreach ⟨3, 2⟩
  rw [hothers ⟨3, 6⟩ (by decide), hothers ⟨3, 10⟩ (by decide)]
  decide

end Ticketing
