import Ticketing.Storage.BTreeFile

/-!
# Insertions that run out of memory

`split_leaf` and `split_internal` report "no split" when `node_create` fails, and the node stays full;
its arrays have room for `order` keys, one more than it should ever hold, and `key_lower_bound` cannot search more
than `2 ^ 30`.  A root that was split and for which no new root can be created loses its right half.

* `keyRoom`, `FullInv` — the most keys a node may hold then, and the tree's invariant.
* `HasRoom` — the nodes on the path have room for one more key, and a new root can be created.
* `AtomicInsert` — the insertion answers and changes the map as it should, within the arrays.
* `insert_atomic_of_room` — so it does in every run in which the nodes have room.
* `insert_not_atomic` — a tree that loses half of its keys, and one that outgrows its arrays.
-/

set_option autoImplicit false

namespace Ticketing

/-! ## Runs -/

/-- A call of `btree.h`, with what its `node_create`s find, or a `btree_save` and the `btree_open` of the
file it writes.  A call that leaves an array gets nowhere. -/
inductive FaultyOp where
  | call (op : BtOp) (alloc : Nat → Bool)
  | reopen

namespace FaultyOp

def step (t : BTree) : FaultyOp → Option BTree
  | .call op alloc => (btreeStepChecked alloc t op).toOption.map Prod.snd
  | .reopen => btreeOpen (btreeSave t).2

theorem call_step {t t' : BTree} {op : BtOp} {alloc : Nat → Bool} (hs : step t (.call op alloc) = some t') :
    ∃ r, btreeStepChecked alloc t op = .ok r ∧ r.2 = t' := by
  rw [step, Option.map_eq_some_iff] at hs
  obtain ⟨r, hr, rfl⟩ := hs
  refine ⟨r, ?_, rfl⟩
  cases hc : btreeStepChecked alloc t op with
  | error e =>
    rw [hc] at hr
    cases hr
  | ok r' =>
    rw [hc] at hr
    exact congrArg Except.ok (Option.some.inj hr)

end FaultyOp

/-- The most keys that a node may be left with: its arrays have room for them, and `key_lower_bound` can search
them. -/
def keyRoom (order : Nat) : Nat := min order (2 ^ 30)

/-- The key is stored already, or every node on its path that takes a key has room for it, that is, holds
fewer than `order` keys, and with them all at most `2 ^ 30` unless it is split; and if all of them are split then a
new root can be created. -/
def HasRoom (alloc : Nat → Bool) (t : BTree) (key : Nat) : Prop :=
  findPos t key = none →
    PathFits t.order (keyRoom t.order + 2) (min t.order (2 ^ 30 + 1)) alloc 0 (pathCounts key t.root)

theorem keyRoom_le (order : Nat) : keyRoom order ≤ order ∧ keyRoom order ≤ 2 ^ 30 :=
  ⟨Nat.min_le_left _ _, Nat.min_le_right _ _⟩

/-- The bounds of `HasRoom` go together. -/
theorem keyRoom_limit (order : Nat) : keyRoom order ≤ min order (2 ^ 30 + 1) ∧
    min order (2 ^ 30 + 1) ≤ keyRoom order + 1 ∧ min order (2 ^ 30 + 1) ≤ order := by
  unfold keyRoom
  omega

/-- A tree in which every node has been split in time has room. -/
theorem BTreeInv.hasRoom {order : Nat} (ho : 3 ≤ order) {t : BTree} {m : BtreeMap}
    (h : BTreeInv order t m) (key : Nat) : HasRoom allocOk t key := by
  obtain ⟨height, hord⟩ := h.ordered
  have hoe := h.order_eq
  subst hoe
  have hsmall := h.small
  intro _
  refine (pathFits_allocOk ho (pathCounts_le hsmall hord (inRange_none key))).mono ?_ ?_
  · unfold keyRoom
    omega
  · omega

/-- The arguments fit their types, and an insertion has room. -/
def FaultyOp.Permitted (t : BTree) : FaultyOp → Prop
  | .call (.insert key value) alloc => (BtOp.insert key value).Fits ∧ HasRoom alloc t key
  | .call op _ => op.Fits
  | .reopen => True

/-- The tree stands for the map, and no node holds more than `keyRoom order` keys. -/
structure FullInv (order : Nat) (t : BTree) (m : BtreeMap) : Prop where
  order_eq : t.order = order
  inv : BTreeInv (keyRoom order + 2) { t with order := keyRoom order + 2 } m
  sized : FileSized (keyRoom order + 2) t

theorem fullInv_create (order : Nat) : FullInv order (btreeCreate order) ∅ :=
  ⟨rfl, btreeCreate_inv (Nat.add_le_add_right (keyRoom_le order).2 2),
    (fileSized_create _).keys, (fileSized_create _).values⟩

theorem FullInv.saved {order : Nat} {t : BTree} {m : BtreeMap} (h : FullInv order t m) :
    FullInv order (btreeSave t).1 m :=
  ⟨h.order_eq, h.inv.saved, h.sized.keys, h.sized.values⟩

theorem btreeDelete_order (t : BTree) (order key : Nat) :
    btreeDelete { t with order := order } key =
      ((btreeDelete t key).1, { (btreeDelete t key).2 with order := order }) := by
  have hpos : findPos { t with order := order } key = findPos t key := rfl
  unfold btreeDelete
  rw [hpos]
  cases findPos t key <;> rfl

theorem btreeUpdate_order (t : BTree) (order key : Nat) (value : RecordPtr) :
    btreeUpdate { t with order := order } key value =
      ((btreeUpdate t key value).1, { (btreeUpdate t key value).2 with order := order }) := by
  have hpos : findPos { t with order := order } key = findPos t key := rfl
  unfold btreeUpdate
  rw [hpos]
  cases findPos t key <;> rfl

section Step

variable {order : Nat} {t : BTree} {m : BtreeMap}

/-- A search does not see the order. -/
theorem FullInv.search (h : FullInv order t m) (key : Nat) :
    btreeSearch t key = (mapStep m (.search key)).1 := (btreeSearch_refines h.inv key).1

theorem FullInv.insert (ho : 3 ≤ order) (h : FullInv order t m) {alloc : Nat → Bool} {key : Nat}
    {value : RecordPtr} (hfits : (BtOp.insert key value).Fits) (hroom : HasRoom alloc t key) :
    (btreeStep alloc t (.insert key value)).1 = (mapStep m (.insert key value)).1 ∧
      FullInv order (btreeStep alloc t (.insert key value)).2 (mapStep m (.insert key value)).2 ∧
      btreeInsertPeak alloc t key value ≤ order := by
  have hoe := h.order_eq
  subst hoe
  obtain ⟨hlow, hhigh, hlimit⟩ := keyRoom_limit t.order
  have hcap : 3 ≤ keyRoom t.order + 2 := by
    unfold keyRoom
    omega
  obtain ⟨hout, hinv, hpeak⟩ := h.inv.insert ho hcap hlow hhigh key value hroom
  refine ⟨hout, ⟨btreeInsert_order alloc t key value, hinv, ?_⟩, Nat.le_trans hpeak hlimit⟩
  exact h.sized.insert_within ho hcap h.inv.small hlow hhigh hfits.1 hfits.2 hroom

theorem FullInv.delete (h : FullInv order t m) (key : Nat) :
    FullInv order (btreeDelete t key).2 (mapStep m (.delete key)).2 := by
  have hinv := (btreeDelete_refines h.inv key).2
  have hsized := FileSized.delete h.inv ⟨h.sized.keys, h.sized.values⟩ key
  simp only [btreeStep, btreeDelete_order] at hinv hsized
  refine ⟨?_, hinv, ⟨hsized.keys, hsized.values⟩⟩
  rw [← h.order_eq]
  unfold btreeDelete
  cases findPos t key <;> rfl

theorem FullInv.update (h : FullInv order t m) (key : Nat) {value : RecordPtr}
    (hvalue : value.Storable) :
    FullInv order (btreeUpdate t key value).2 (mapStep m (.update key value)).2 := by
  have hinv := (btreeUpdate_refines h.inv key value).2
  have hsized := FileSized.update h.inv ⟨h.sized.keys, h.sized.values⟩ key hvalue
  simp only [btreeStep, btreeUpdate_order] at hinv hsized
  refine ⟨?_, hinv, ⟨hsized.keys, hsized.values⟩⟩
  rw [← h.order_eq]
  unfold btreeUpdate
  cases findPos t key <;> rfl

theorem FullInv.within (h : FullInv order t m) : ∀ n ∈ t.root.subnodes, n.keys.length ≤ keyRoom order := by
  intro n hn
  obtain ⟨height, hord⟩ := h.inv.ordered
  obtain ⟨h', lo', hi', hp, -⟩ := hord.subnode n hn
  have := hp.keys_spec.2.1
  omega

theorem FullInv.within_order (h : FullInv order t m) : ∀ n ∈ t.root.subnodes, n.keys.length ≤ t.order := by
  intro n hn
  rw [h.order_eq]
  exact Nat.le_trans (h.within n hn) (keyRoom_le order).1

theorem FullInv.fits (h : FullInv order t m) : t.root.Fits t.order :=
  BNode.fits_of_subnodes t.root h.within_order

theorem FullInv.fits_int (h : FullInv order t m) : t.root.Fits (2 ^ 30) :=
  BNode.fits_of_subnodes t.root fun n hn => Nat.le_trans (h.within n hn) (keyRoom_le order).2

theorem FullInv.insertChecked (ho : 3 ≤ order) (h : FullInv order t m) {alloc : Nat → Bool} {key : Nat}
    {value : RecordPtr} (hroom : HasRoom alloc t key) :
    btreeInsertChecked alloc t key value = .ok (btreeInsert alloc t key value) := by
  have hoe := h.order_eq
  subst hoe
  obtain ⟨hlow, hhigh, hlimit⟩ := keyRoom_limit t.order
  exact h.inv.insertChecked ho hlow hhigh hlimit key value hroom

/-- **A call** stays inside the arrays. -/
theorem FullInv.stepChecked (ho : 3 ≤ order) (h : FullInv order t m) {op : BtOp} {alloc : Nat → Bool}
    (hok : (FaultyOp.call op alloc).Permitted t) :
    btreeStepChecked alloc t op = .ok (btreeStep alloc t op) := by
  cases op with
  | insert key value =>
    rw [btreeStepChecked, h.insertChecked ho hok.2]
    rfl
  | delete key =>
    rw [btreeStepChecked, btreeDeleteChecked_eq h.fits h.fits_int]
    rfl
  | update key value =>
    rw [btreeStepChecked, btreeUpdateChecked_eq h.fits h.fits_int]
    rfl
  | search key =>
    rw [btreeStepChecked, btreeSearchChecked_eq h.fits h.fits_int]
    rfl

/-- **One operation** succeeds, and keeps the invariant for some map. -/
theorem FullInv.step (ho : 3 ≤ order) (hint : order < 2 ^ 31) (h : FullInv order t m) {op : FaultyOp}
    (hok : op.Permitted t) : ∃ t', op.step t = some t' ∧ ∃ m', FullInv order t' m' := by
  cases op with
  | reopen =>
    obtain ⟨t', hopen, hinv, hsized, horder, -⟩ :=
      btreeOpen_btreeSave_within (by rw [h.order_eq]; omega) h.inv h.sized
    exact ⟨t', hopen, m, horder.trans h.order_eq, hinv, hsized⟩
  | call op alloc =>
    have hs : (FaultyOp.call op alloc).step t = some (btreeStep alloc t op).2 := by
      rw [FaultyOp.step, h.stepChecked ho hok]
      rfl
    refine ⟨_, hs, ?_⟩
    cases op with
    | insert key value => exact ⟨_, (h.insert ho hok.1 hok.2).2.1⟩
    | delete key => exact ⟨_, h.delete key⟩
    | update key value => exact ⟨_, h.update key hok.2⟩
    | search key => exact ⟨m, h⟩

end Step

/-! ## One insertion -/

/-- The insertion stays inside the arrays; it reports a failure and changes nothing, or it adds the one mapping;
and no node holds more keys than its arrays have room for, during the call or after it. -/
def AtomicInsert (alloc : Nat → Bool) (t : BTree) (key : Nat) (value : RecordPtr) : Prop :=
  ∃ r, btreeInsertChecked alloc t key value = .ok r ∧
    ((r.1 = -1 ∧ (∀ k, ∃ out, btreeSearchChecked t k = .ok out ∧ btreeSearchChecked r.2 k = .ok out) ∧
        btreeSize r.2 = btreeSize t) ∨
      (r.1 = 0 ∧ btreeSearchChecked t key = .ok (-1, none) ∧
        (∀ k, ∃ out, btreeSearchChecked t k = .ok out ∧
          btreeSearchChecked r.2 k = .ok (if k = key then (0, some value) else out)) ∧
        btreeSize r.2 = (btreeSize t + 1) % 2 ^ 32)) ∧
    btreeInsertPeak alloc t key value ≤ t.order ∧
    (∀ n ∈ t.root.subnodes, n.keys.length ≤ t.order) ∧
    ∀ n ∈ r.2.root.subnodes, n.keys.length ≤ t.order

theorem btreeInsert_size (alloc : Nat → Bool) (t : BTree) (key : Nat) (value : RecordPtr) :
    (btreeInsert alloc t key value).1 = -1 ∧ (btreeInsert alloc t key value).2.size = t.size ∨
      (btreeInsert alloc t key value).1 = 0 ∧
        (btreeInsert alloc t key value).2.size = (t.size + 1) % 2 ^ 32 := by
  simp only [btreeInsert]
  split
  · exact Or.inl ⟨rfl, rfl⟩
  · split
    · exact Or.inr ⟨rfl, rfl⟩
    · split
      · exact Or.inr ⟨rfl, rfl⟩
      · exact Or.inl ⟨rfl, rfl⟩

/-- A search stays inside the arrays and finds what the map has. -/
theorem FullInv.searchChecked {order : Nat} {t : BTree} {m : BtreeMap} (h : FullInv order t m) (key : Nat) :
    btreeSearchChecked t key = .ok (mapStep m (.search key)).1 := by
  rw [btreeSearchChecked_eq h.fits h.fits_int, h.search]

/-- **An insertion where the nodes have room.** -/
theorem FullInv.atomic {order : Nat} (ho : 3 ≤ order) {t : BTree} {m : BtreeMap}
    (h : FullInv order t m) {alloc : Nat → Bool} {key : Nat} {value : RecordPtr}
    (hfits : (BtOp.insert key value).Fits) (hroom : HasRoom alloc t key) :
    AtomicInsert alloc t key value := by
  obtain ⟨hout, hinv, hpeak⟩ := h.insert ho hfits hroom
  have hoe := h.order_eq
  have hafter : ∀ n ∈ (btreeInsert alloc t key value).2.root.subnodes, n.keys.length ≤ t.order := by
    rw [hoe, ← hinv.order_eq]
    exact hinv.within_order
  refine ⟨_, h.insertChecked ho hroom, ?_, by rw [hoe]; exact hpeak, h.within_order, hafter⟩
  have hret : (btreeInsert alloc t key value).1 = (mapStep m (.insert key value)).1.1 :=
    congrArg Prod.fst hout
  have hfound : ∀ k, btreeSearchChecked (btreeInsert alloc t key value).2 k =
      .ok (mapStep (mapStep m (.insert key value)).2 (.search k)).1 := hinv.searchChecked
  cases hlook : m.lookup key with
  | some v =>
    have hmap : mapStep m (.insert key value) = ((-1, none), m) := by simp only [mapStep, hlook]
    rw [hmap] at hret hfound
    left
    refine ⟨hret, fun k => ⟨_, h.searchChecked k, hfound k⟩, ?_⟩
    rcases btreeInsert_size alloc t key value with ⟨-, hsize⟩ | ⟨hzero, -⟩
    · exact hsize
    · rw [hret] at hzero
      cases hzero
  | none =>
    have hmap : mapStep m (.insert key value) = ((0, none), m.insert key value) := by
      simp only [mapStep, hlook]
    rw [hmap] at hret hfound
    right
    refine ⟨hret, ?_, fun k => ⟨_, h.searchChecked k, ?_⟩, ?_⟩
    · rw [h.searchChecked]
      simp only [mapStep, hlook]
    · rw [hfound]
      by_cases hk : k = key
      · subst hk
        rw [if_pos rfl]
        simp only [mapStep]
        rw [Finmap.lookup_insert]
      · rw [if_neg hk]
        simp only [mapStep]
        rw [Finmap.lookup_insert_of_ne _ hk]
        cases m.lookup k <;> rfl
    · rcases btreeInsert_size alloc t key value with ⟨hfail, -⟩ | ⟨-, hsize⟩
      · rw [hret] at hfail
        cases hfail
      · exact hsize

/-- **Insertions are atomic while the nodes have room.**  In every run, whatever `node_create`s fail,
in which every insertion finds the key stored, or in each node that takes a key fewer than `order` keys, and
at most `2 ^ 30` with it unless the node is split, and memory for a new root when the old one is split: no
call leaves the arrays; an insertion that returns -1 changes no answer, one that returns 0 adds its mapping,
and no node outgrows its arrays. -/
theorem insert_atomic_of_room (order : Nat) (ho : 3 ≤ order) (hint : order < 2 ^ 31) (t : BTree)
    (hrun : Reachable FaultyOp.step FaultyOp.Permitted (btreeCreate order) t) :
    (∀ op, FaultyOp.Permitted t op → (FaultyOp.step t op).isSome = true) ∧
    ∀ alloc key value, FaultyOp.Permitted t (.call (.insert key value) alloc) →
      AtomicInsert alloc t key value := by
  have hstep : ∀ s op s', (∃ m, FullInv order s m) → FaultyOp.Permitted s op →
      FaultyOp.step s op = some s' → ∃ m, FullInv order s' m := by
    rintro s op s' ⟨m, hm⟩ hok hs
    obtain ⟨s'', hs'', hinv⟩ := hm.step ho hint hok
    obtain rfl : s'' = s' := Option.some.inj (hs''.symm.trans hs)
    exact hinv
  obtain ⟨m, hm⟩ := hrun.invariant ⟨∅, fullInv_create order⟩ hstep
  refine ⟨fun op hok => ?_, fun alloc key value hok => hm.atomic ho hok.1 hok.2⟩
  obtain ⟨t', ht', -⟩ := hm.step ho hint hok
  exact Option.isSome_of_eq_some ht'

/-- The second key finds no memory for the split of its leaf, and stays in it. -/
theorem insert_atomic_of_room_full :
    AtomicInsert (fun _ => false) (btreeInsert allocOk (btreeCreate 3) 1 ⟨0, 1⟩).2 2 ⟨0, 2⟩ := by
  have hfirst : FaultyOp.Permitted (btreeCreate 3) (.call (.insert 1 ⟨0, 1⟩) allocOk) :=
    ⟨⟨by decide, by decide, by decide⟩, fun _ => by decide⟩
  refine (insert_atomic_of_room 3 (by decide) (by decide) _ (.tail _ .refl hfirst rfl)).2 _ _ _ ⟨?_, ?_⟩
  · exact ⟨by decide, by decide, by decide⟩
  · exact fun _ => by decide

/-- A tree of order 3.  Keys 2 and 1 split its leaf, and there is no memory for a new root: the call
returns -1, and key 2 is gone with the right half.  Or the leaf never finds memory for its right half:
the fourth key is stored behind the end of arrays of three. -/
theorem insert_not_atomic :
    (let t := (btreeInsert allocOk (btreeCreate 3) 2 ⟨0, 2⟩).2
      let r := btreeInsert (fun i => i == 0) t 1 ⟨0, 1⟩
      r.1 = -1 ∧ btreeSearch t 2 = (0, some ⟨0, 2⟩) ∧ btreeSearch r.2 2 = (-1, none) ∧
        ¬ AtomicInsert (fun i => i == 0) t 1 ⟨0, 1⟩) ∧
    (let insert := fun t key => (btreeInsert (fun _ => false) t key ⟨0, 0⟩).2
      let t := insert (insert (insert (btreeCreate 3) 1) 2) 3
      btreeInsertPeak (fun _ => false) t 4 ⟨0, 0⟩ = 4 ∧ ¬ AtomicInsert (fun _ => false) t 4 ⟨0, 0⟩) := by
  constructor
  · intro t r
    have hret : r.1 = -1 := by decide
    have hbefore : btreeSearch t 2 = (0, some ⟨0, 2⟩) := by decide
    have hafter : btreeSearch r.2 2 = (-1, none) := by decide
    refine ⟨hret, hbefore, hafter, ?_⟩
    rintro ⟨r', hr', hatomic, -⟩
    obtain rfl : r = r' := btreeInsert_of_checked hr'
    rcases hatomic with ⟨-, hsame, -⟩ | ⟨hzero, -⟩
    · obtain ⟨out, hout, hout'⟩ := hsame 2
      have hlost := hafter.symm.trans ((btreeSearch_of_checked hout').trans
        ((btreeSearch_of_checked hout).symm.trans hbefore))
      cases hlost
    · have hboth := hret.symm.trans hzero
      cases hboth
  · intro insert t
    have hpeak : btreeInsertPeak (fun _ => false) t 4 ⟨0, 0⟩ = 4 := by decide
    refine ⟨hpeak, ?_⟩
    rintro ⟨r, -, -, hle, -⟩
    have hle : btreeInsertPeak (fun _ => false) t 4 ⟨0, 0⟩ ≤ 3 := hle
    rw [hpeak] at hle
    exact absurd hle (by decide)

end Ticketing
