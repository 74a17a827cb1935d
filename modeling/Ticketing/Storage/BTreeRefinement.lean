import Ticketing.Storage.BTreeInsert
import Ticketing.Lib.PagedList
import Ticketing.Lib.Runs
import Mathlib.Data.Finmap

/-!
# The B+ tree refines a finite map

`BtreeMap` is the abstract index: a finite map from keys to record pointers with the four
operations of `btree.h`.  A run of operations on the tree and the same run on the map return the
same values, and the tree keeps its shape throughout.

* `BTreeInv` — the invariant that carries the simulation: ordered tree, linked leaves, counted and
  represented bindings.
* `btreeStep_refines` — one operation keeps it and answers like the map.
* `WellShaped`, `BTreeInv.wellShaped` — what the invariant means for a reader of the C structure.
-/

set_option autoImplicit false

namespace Ticketing

/-! ## The abstract index -/

/-- A finite map from keys to record pointers. -/
abbrev BtreeMap := Finmap (fun _ : Nat => RecordPtr)

/-- The calls of `btree.h`. -/
inductive BtOp where
  | insert (key : Nat) (value : RecordPtr)
  | delete (key : Nat)
  | update (key : Nat) (value : RecordPtr)
  | search (key : Nat)
  deriving DecidableEq, Repr

/-- The arguments fit `uint32_t` and `record_ptr_t`. -/
def BtOp.Fits : BtOp → Prop
  | .insert key value => key < 2 ^ 32 ∧ value.Storable
  | .delete key => key < 2 ^ 32
  | .update key value => key < 2 ^ 32 ∧ value.Storable
  | .search key => key < 2 ^ 32

/-- A return value and what the call stored through `out`. -/
abbrev BtOut := Int × Option RecordPtr

/-- One call on the finite map. -/
def mapStep (m : BtreeMap) : BtOp → BtOut × BtreeMap
  | .insert k v =>
    match m.lookup k with
    | some _ => ((-1, none), m)
    | none => ((0, none), m.insert k v)
  | .delete k =>
    match m.lookup k with
    | some _ => ((0, none), m.erase k)
    | none => ((-1, none), m)
  | .update k v =>
    match m.lookup k with
    | some _ => ((0, none), m.insert k v)
    | none => ((-1, none), m)
  | .search k =>
    match m.lookup k with
    | some v => ((0, some v), m)
    | none => ((-1, none), m)

/-- One call on the tree. -/
def btreeStep (alloc : Nat → Bool) (t : BTree) : BtOp → BtOut × BTree
  | .insert k v => (((btreeInsert alloc t k v).1, none), (btreeInsert alloc t k v).2)
  | .delete k => (((btreeDelete t k).1, none), (btreeDelete t k).2)
  | .update k v => (((btreeUpdate t k v).1, none), (btreeUpdate t k v).2)
  | .search k => (btreeSearch t k, t)

/-! ## The leaf chain -/

/-- `ls` is the list hanging off the pointer `p`. -/
def Linked : Option Nat → List BLeaf → Prop
  | p, [] => p = none
  | p, l :: ls => p = some l.addr ∧ Linked l.next ls

/-- The leaves met from `p` on, dereferencing pointers among `heap`. -/
def chainWalk (heap : List BLeaf) : Nat → Option Nat → List BLeaf
  | 0, _ => []
  | _, none => []
  | fuel + 1, some a =>
    match heap.find? (fun l => l.addr == a) with
    | none => []
    | some l => l :: chainWalk heap fuel l.next

theorem Linked.replace {pre post post' : List BLeaf} (x x' : BLeaf) (ha : x'.addr = x.addr)
    (hn : Linked x.next post → Linked x'.next post') :
    ∀ {p : Option Nat}, Linked p (pre ++ x :: post) → Linked p (pre ++ x' :: post') := by
  induction pre with
  | nil => intro p h; exact ⟨by rw [ha]; exact h.1, hn h.2⟩
  | cons y pre ih => intro p h; exact ⟨h.1, ih h.2⟩

/-- The list behind a leaf hangs off its pointer. -/
theorem Linked.next {pre post : List BLeaf} {l : BLeaf} :
    ∀ {p : Option Nat}, Linked p (pre ++ l :: post) → Linked l.next post := by
  induction pre with
  | nil => intro p h; exact h.2
  | cons x pre ih => intro p h; exact ih h.2

theorem find?_addr {heap : List BLeaf} (hd : (heap.map BLeaf.addr).Nodup) {l : BLeaf}
    (hl : l ∈ heap) : heap.find? (fun x => x.addr == l.addr) = some l := by
  induction heap with
  | nil => cases hl
  | cons y heap ih =>
    rw [List.map_cons, List.nodup_cons] at hd
    rcases List.mem_cons.mp hl with rfl | hl
    · simp
    · have hne : y.addr ≠ l.addr := fun h => hd.1 (h ▸ List.mem_map_of_mem hl)
      simp [hne, ih hd.2 hl]

/-- Following `next` visits exactly the linked leaves and then stops. -/
theorem Linked.walk {heap : List BLeaf} (hd : (heap.map BLeaf.addr).Nodup) :
    ∀ {ls : List BLeaf} {p : Option Nat} {fuel : Nat}, Linked p ls → (∀ l ∈ ls, l ∈ heap) →
      ls.length ≤ fuel → chainWalk heap fuel p = ls := by
  intro ls
  induction ls with
  | nil =>
    intro p fuel h _ _
    cases h
    cases fuel <;> rfl
  | cons l ls ih =>
    intro p fuel h hm hf
    obtain ⟨rfl, hnext⟩ := h
    match fuel, hf with
    | fuel + 1, hf =>
      rw [chainWalk, find?_addr hd (hm l (by simp))]
      simp only [List.cons.injEq, true_and]
      exact ih hnext (fun x hx => hm x (List.mem_cons_of_mem _ hx)) (by simpa using hf)

/-! ## Bindings -/

/-- The list of bindings represents the map. -/
def Represents (m : BtreeMap) (bs : List (Nat × RecordPtr)) : Prop :=
  ∀ k v, m.lookup k = some v ↔ (k, v) ∈ bs

theorem Represents.lookup_none {m : BtreeMap} {bs : List (Nat × RecordPtr)} (h : Represents m bs)
    {k : Nat} (hk : k ∉ bs.map Prod.fst) : m.lookup k = none := by
  cases hl : m.lookup k with
  | none => rfl
  | some v => exact absurd (List.mem_map_of_mem ((h k v).mp hl)) hk

theorem Represents.keys {m : BtreeMap} {bs : List (Nat × RecordPtr)} (h : Represents m bs) :
    m.keys = (bs.map Prod.fst).toFinset := by
  ext k
  rw [Finmap.mem_keys, Finmap.mem_iff, List.mem_toFinset, List.mem_map]
  constructor
  · rintro ⟨v, hv⟩
    exact ⟨(k, v), (h k v).mp hv, rfl⟩
  · rintro ⟨⟨k', v⟩, hm, rfl⟩
    exact ⟨v, (h k' v).mpr hm⟩

theorem Represents.card {m : BtreeMap} {bs : List (Nat × RecordPtr)} (h : Represents m bs)
    (hs : (bs.map Prod.fst).Pairwise (· < ·)) : m.keys.card = bs.length := by
  rw [h.keys, List.toFinset_card_of_nodup (hs.imp (fun h => Nat.ne_of_lt h)), List.length_map]

theorem Represents.insert {m : BtreeMap} {a b : List (Nat × RecordPtr)} {k : Nat} {v : RecordPtr}
    (h : Represents m (a ++ b)) (hk : k ∉ (a ++ b).map Prod.fst) :
    Represents (m.insert k v) (a ++ (k, v) :: b) := by
  intro k' v'
  by_cases hkk : k' = k
  · subst hkk
    rw [Finmap.lookup_insert, Option.some.injEq]
    constructor
    · rintro rfl; simp
    · intro hm
      have hnot : (k', v') ∉ a ++ b := fun hm' => hk (List.mem_map_of_mem hm')
      simp only [List.mem_append, List.mem_cons, Prod.mk.injEq, true_and] at hm hnot
      rcases hm with hm | rfl | hm
      · exact absurd (Or.inl hm) hnot
      · rfl
      · exact absurd (Or.inr hm) hnot
  · rw [Finmap.lookup_insert_of_ne _ hkk, h k' v']
    simp [hkk]

theorem Represents.erase {m : BtreeMap} {a b : List (Nat × RecordPtr)} {k : Nat} {v : RecordPtr}
    (h : Represents m (a ++ (k, v) :: b)) (hk : k ∉ (a ++ b).map Prod.fst) :
    Represents (m.erase k) (a ++ b) := by
  intro k' v'
  by_cases hkk : k' = k
  · subst hkk
    rw [Finmap.lookup_erase]
    constructor
    · intro hm; cases hm
    · intro hm; exact absurd (List.mem_map_of_mem hm) hk
  · rw [Finmap.lookup_erase_ne hkk, h k' v']
    simp [hkk]

theorem Represents.update {m : BtreeMap} {a b : List (Nat × RecordPtr)} {k : Nat}
    {v v' : RecordPtr} (h : Represents m (a ++ (k, v) :: b)) (hk : k ∉ (a ++ b).map Prod.fst) :
    Represents (m.insert k v') (a ++ (k, v') :: b) := by
  have := (h.erase hk).insert (v := v') hk
  intro k' v''
  rw [← this k' v'']
  by_cases hkk : k' = k
  · subst hkk; rw [Finmap.lookup_insert, Finmap.lookup_insert]
  · rw [Finmap.lookup_insert_of_ne _ hkk, Finmap.lookup_insert_of_ne _ hkk,
      Finmap.lookup_erase_ne hkk]

/-- In a strictly increasing list a key occurs once. -/
theorem notMem_around {a b : List (Nat × RecordPtr)} {k : Nat} {v : RecordPtr}
    (hs : ((a ++ (k, v) :: b).map Prod.fst).Pairwise (· < ·)) : k ∉ (a ++ b).map Prod.fst := by
  rw [List.map_append, List.map_cons, List.pairwise_append, List.pairwise_cons] at hs
  rw [List.map_append, List.mem_append]
  rintro (hm | hm)
  · exact Nat.lt_irrefl _ (hs.2.2 k hm k (by simp))
  · exact Nat.lt_irrefl _ (hs.2.1.1 k hm)

theorem BNode.bindings_keys (n : BNode) :
    n.bindings.map Prod.fst = n.leaves.flatMap BLeaf.keys := by
  simp only [BNode.bindings, List.map_flatMap]; rfl

/-- The bindings of an ordered tree are strictly increasing from leaf to leaf. -/
theorem Ordered.bindings_sorted {order : Nat} : ∀ {h : Nat} {lo hi : Option Nat} {n : BNode},
    Ordered order h lo hi n → (n.leaves.flatMap BLeaf.keys).Pairwise (· < ·) := by
  intro h
  induction h with
  | zero =>
    intro lo hi n hn
    cases n with
    | leaf l => simpa [BNode.leaves] using hn.1
    | inner ks cs => cases hn
  | succ h ih =>
    intro lo hi n hn
    cases n with
    | leaf l => cases hn
    | inner ks cs =>
      have key : ∀ (ks : List Nat) {lo hi : Option Nat} (cs : List BNode),
          Children (Ordered order h) lo hi ks cs →
          ((BNode.leavesList cs).flatMap BLeaf.keys).Pairwise (· < ·) := by
        intro ks
        induction ks with
        | nil =>
          intro lo hi cs hc
          obtain _ | ⟨c, _ | ⟨d, cs⟩⟩ := cs
          · cases hc
          · simpa [BNode.leavesList] using ih hc
          · cases hc
        | cons s ks ihk =>
          intro lo hi cs hc
          cases cs with
          | nil => cases hc
          | cons c cs =>
            obtain ⟨hc, hb, hrest⟩ := hc
            rw [BNode.leavesList, List.flatMap_append, List.pairwise_append]
            refine ⟨ih hc, ihk cs hrest, ?_⟩
            -- the separator stands between the first child and the rest
            intro x hx y hy
            obtain ⟨l, hl, hxl⟩ := List.mem_flatMap.mp hx
            obtain ⟨l', hl', hyl⟩ := List.mem_flatMap.mp hy
            obtain ⟨d, hd, hld⟩ := BNode.mem_leavesList.mp hl'
            obtain ⟨a, b, hp, ha⟩ := hrest.right_nodes d hd
            have h1 : x < s := (hc.leaf_range l hl x hxl).2
            have h2 : a ≤ y := (hp.leaf_range l' hld y hyl).1
            omega
      exact key ks cs hn.1

/-! ## The invariant -/

/-- The tree is ordered, its leaves are chained, and its bindings are those of `m`.  With this order no node
gets so many keys that `key_lower_bound` overflows. -/
structure BTreeInv (order : Nat) (t : BTree) (m : BtreeMap) : Prop where
  small : order ≤ 2 ^ 30 + 2
  order_eq : t.order = order
  ordered : ∃ h, Ordered order h none none t.root
  linked : ∃ p, Linked p t.root.leaves
  addr_nodup : (t.root.leaves.map BLeaf.addr).Nodup
  addr_lt : ∀ l ∈ t.root.leaves, l.addr < t.nextAddr
  size_eq : t.size = t.root.bindings.length % 2 ^ 32
  represents : Represents m t.root.bindings

theorem inRange_none (k : Nat) : InRange none none k := ⟨trivial, trivial⟩

theorem BTreeInv.sorted {order : Nat} {t : BTree} {m : BtreeMap} (inv : BTreeInv order t m) :
    (t.root.bindings.map Prod.fst).Pairwise (· < ·) := by
  obtain ⟨h, ho⟩ := inv.ordered
  rw [BNode.bindings_keys]
  exact ho.bindings_sorted

theorem BTreeInv.of_order {order : Nat} {t : BTree} {m : BtreeMap}
    (inv : BTreeInv order { t with order := order } m) (h : t.order = order) : BTreeInv order t m := by
  obtain ⟨root, o, size, dirty, nextAddr⟩ := t
  obtain rfl : o = order := h
  exact inv

theorem btreeCreate_inv {order : Nat} (hsmall : order ≤ 2 ^ 30 + 2) : BTreeInv order (btreeCreate order) ∅ := by
  refine ⟨hsmall, rfl, ⟨0, ?_⟩, ⟨some 0, rfl, rfl⟩, ?_, ?_, rfl, ?_⟩
  · exact ⟨List.Pairwise.nil, by simp [BLeaf.keys], by simp [BLeaf.keys]⟩
  · simp [btreeCreate, BNode.leaves]
  · simp [btreeCreate, BNode.leaves]
  · intro k v; simp [btreeCreate, BNode.bindings, BNode.leaves]

/-! ## Search, deletion, update -/

/-- Where `key` stands in the tree: absent, or a binding that the tree can drop or replace. -/
theorem BTreeInv.find {order : Nat} {t : BTree} {m : BtreeMap} (inv : BTreeInv order t m)
    (key : Nat) :
    (findPos t key = none ∧ m.lookup key = none) ∨
    ∃ leaf a v b X Y, findPos t key = some (leaf, a.length) ∧
      leaf.entries = a ++ (key, v) :: b ∧ t.root.bindings = X ++ (key, v) :: Y ∧
      m.lookup key = some v ∧
      ∀ f mid size m', f leaf.entries = a ++ (mid ++ b) → (mid.map Prod.fst).Sublist [key] →
        size = (X ++ (mid ++ Y)).length % 2 ^ 32 → Represents m' (X ++ (mid ++ Y)) →
        BTreeInv order { t with root := modifyLeaf key f t.root, size := size, dirty := true } m' := by
  obtain ⟨h, ho⟩ := inv.ordered
  obtain ⟨pre, leaf, post, F⟩ := findLeaf_spec inv.small ho (inRange_none key)
  have hbind : t.root.bindings =
      pre.flatMap BLeaf.entries ++ (leaf.entries ++ post.flatMap BLeaf.entries) := by
    rw [BNode.bindings, F.leaves]; simp
  rcases keyFindExact_spec F.sorted (Nat.le_trans F.short (by have := inv.small; omega)) key with ⟨hnone, hnot⟩ | ⟨l, r, hcut, hsome⟩
  · left
    refine ⟨by simp [findPos, F.found, hnone], inv.represents.lookup_none ?_⟩
    rw [BNode.bindings_keys, F.leaves, List.mem_flatMap]
    rintro ⟨x, hx, hkx⟩
    rcases List.mem_append.mp hx with hx | hx
    · exact Nat.lt_irrefl _ (F.left x hx key hkx)
    · rcases List.mem_cons.mp hx with rfl | hx
      · exact hnot hkx
      · exact Nat.lt_irrefl _ (F.right x hx key hkx)
  · right
    obtain ⟨a, rest, hent, ha, hrest⟩ := List.map_eq_append_iff.mp hcut
    obtain ⟨⟨k, v⟩, b, hrest', hk, hb⟩ := List.map_eq_cons_iff.mp hrest
    simp only at hk
    subst hk
    rw [hrest'] at hent
    have hbind' : t.root.bindings = (pre.flatMap BLeaf.entries ++ a) ++
        (k, v) :: (b ++ post.flatMap BLeaf.entries) := by
      rw [hbind, hent]; simp
    refine ⟨leaf, a, v, b, _, _, ?_, hent, hbind', ?_, ?_⟩
    · rw [← ha, List.length_map] at hsome
      simp [findPos, F.found, hsome]
    · rw [inv.represents k v, hbind']; simp
    · intro f mid size m' hf hmid hsize hrep
      have hleaves := F.modify_leaves f
      have hbind2 : (modifyLeaf k f t.root).bindings = (pre.flatMap BLeaf.entries ++ a) ++
          (mid ++ (b ++ post.flatMap BLeaf.entries)) := by
        rw [BNode.bindings, hleaves, hf]; simp
      have haddr : (modifyLeaf k f t.root).leaves.map BLeaf.addr =
          t.root.leaves.map BLeaf.addr := by
        rw [hleaves, F.leaves]; simp
      refine ⟨inv.small, inv.order_eq, ⟨h, F.modify_ordered f ?_⟩, ?_, ?_, ?_, ?_, ?_⟩
      · rw [hf, BLeaf.keys, hent]
        simp only [List.map_append, List.map_cons]
        exact (List.Sublist.refl _).append (hmid.append (List.Sublist.refl _))
      · obtain ⟨p, hp⟩ := inv.linked
        rw [F.leaves] at hp
        refine ⟨p, ?_⟩
        show Linked p (modifyLeaf k f t.root).leaves
        rw [hleaves]
        exact hp.replace leaf { leaf with entries := f leaf.entries } rfl (fun h => h)
      · show ((modifyLeaf k f t.root).leaves.map BLeaf.addr).Nodup
        rw [haddr]; exact inv.addr_nodup
      · intro x hx
        have hx' : x.addr ∈ t.root.leaves.map BLeaf.addr := by
          rw [← haddr]; exact List.mem_map_of_mem hx
        obtain ⟨y, hy, he⟩ := List.mem_map.mp hx'
        rw [← he]
        exact inv.addr_lt y hy
      · rw [hsize, ← hbind2]
      · rw [← hbind2] at hrep; exact hrep

theorem btreeDelete_refines {order : Nat} {t : BTree} {m : BtreeMap} (inv : BTreeInv order t m)
    (key : Nat) :
    (btreeStep allocOk t (.delete key)).1 = (mapStep m (.delete key)).1 ∧
      BTreeInv order (btreeStep allocOk t (.delete key)).2 (mapStep m (.delete key)).2 := by
  have hs := inv.sorted
  rcases inv.find key with ⟨hf, hl⟩ | ⟨leaf, a, v, b, X, Y, hf, hent, hb, hl, hmod⟩
  · simp only [btreeStep, btreeDelete, mapStep, hf, hl]
    exact ⟨trivial, inv⟩
  · simp only [btreeStep, btreeDelete, mapStep, hf, hl]
    rw [hb] at hs
    refine ⟨trivial, hmod _ [] _ _ ?_ (by simp) ?_ ((hb ▸ inv.represents).erase (notMem_around hs))⟩
    · rw [hent, List.eraseIdx_append_of_length_le (Nat.le_refl _)]; simp
    · rw [inv.size_eq, hb]
      simp only [List.length_append, List.length_cons, List.nil_append]
      omega

theorem btreeUpdate_refines {order : Nat} {t : BTree} {m : BtreeMap} (inv : BTreeInv order t m)
    (key : Nat) (value : RecordPtr) :
    (btreeStep allocOk t (.update key value)).1 = (mapStep m (.update key value)).1 ∧
      BTreeInv order (btreeStep allocOk t (.update key value)).2
        (mapStep m (.update key value)).2 := by
  have hs := inv.sorted
  rcases inv.find key with ⟨hf, hl⟩ | ⟨leaf, a, v, b, X, Y, hf, hent, hb, hl, hmod⟩
  · simp only [btreeStep, btreeUpdate, mapStep, hf, hl]
    exact ⟨trivial, inv⟩
  · simp only [btreeStep, btreeUpdate, mapStep, hf, hl]
    rw [hb] at hs
    refine ⟨trivial, hmod _ [(key, value)] _ _ ?_ (by simp) ?_
      ((hb ▸ inv.represents).update (notMem_around hs))⟩
    · rw [hent, Paged.modify_focus]; rfl
    · rw [inv.size_eq, hb]; simp

theorem btreeSearch_refines {order : Nat} {t : BTree} {m : BtreeMap} (inv : BTreeInv order t m)
    (key : Nat) :
    (btreeStep allocOk t (.search key)).1 = (mapStep m (.search key)).1 ∧
      BTreeInv order (btreeStep allocOk t (.search key)).2 (mapStep m (.search key)).2 := by
  rcases inv.find key with ⟨hf, hl⟩ | ⟨leaf, a, v, b, X, Y, hf, hent, hb, hl, hmod⟩
  · simp only [btreeStep, btreeSearch, mapStep, hf, hl]
    exact ⟨trivial, inv⟩
  · simp only [btreeStep, btreeSearch, mapStep, hf, hl, hent]
    exact ⟨by simp, inv⟩

/-! ## Insertion -/

/-- An insertion adds one binding in its place among the others. -/
theorem LeavesInserted.bindings {key addr addr' : Nat} {value : RecordPtr} {ls ls' : List BLeaf}
    (h : LeavesInserted key value addr ls ls' addr') :
    ∃ X Y, ls.flatMap BLeaf.entries = X ++ Y ∧
      ls'.flatMap BLeaf.entries = X ++ (key, value) :: Y := by
  cases h with
  | @grow pre post x a b hx =>
    exact ⟨pre.flatMap BLeaf.entries ++ a, b ++ post.flatMap BLeaf.entries, by simp [hx], by simp⟩
  | @split pre post x a b e₁ e₂ hx he =>
    refine ⟨pre.flatMap BLeaf.entries ++ a, b ++ post.flatMap BLeaf.entries, by simp [hx], ?_⟩
    simp only [List.flatMap_append, List.flatMap_cons]
    rw [← List.append_assoc e₁, he]
    simp

/-- An insertion keeps the leaf chain, linking a new leaf in behind the one it was split from. -/
theorem LeavesInserted.linked {key addr addr' : Nat} {value : RecordPtr} {ls ls' : List BLeaf}
    (h : LeavesInserted key value addr ls ls' addr') {p : Option Nat} (hl : Linked p ls) :
    Linked p ls' := by
  cases h with
  | @grow pre post x a b hx =>
    exact hl.replace x { x with entries := a ++ (key, value) :: b } rfl (fun h => h)
  | @split pre post x a b e₁ e₂ hx he =>
    refine hl.replace x { x with entries := e₁, next := some addr } rfl (fun h => ?_)
    exact ⟨rfl, h⟩

/-- An insertion keeps the leaf addresses distinct and below the next one. -/
theorem LeavesInserted.addrs {key addr addr' : Nat} {value : RecordPtr} {ls ls' : List BLeaf}
    (h : LeavesInserted key value addr ls ls' addr') (hd : (ls.map BLeaf.addr).Nodup)
    (hlt : ∀ l ∈ ls, l.addr < addr) :
    (ls'.map BLeaf.addr).Nodup ∧ ∀ l ∈ ls', l.addr < addr' := by
  cases h with
  | @grow pre post x a b hx =>
    refine ⟨by simpa using hd, ?_⟩
    intro l hl
    simp only [List.mem_append, List.mem_cons] at hl
    rcases hl with hl | rfl | hl
    · exact hlt l (by simp [hl])
    · exact hlt x (by simp)
    · exact hlt l (by simp [hl])
  | @split pre post x a b e₁ e₂ hx he =>
    have hfresh : addr ∉ (pre ++ x :: post).map BLeaf.addr := by
      intro hm
      obtain ⟨l, hl, hle⟩ := List.mem_map.mp hm
      have := hlt l hl
      omega
    constructor
    · have hperm : ((pre ++ { x with entries := e₁, next := some addr } ::
          ⟨addr, e₂, x.next⟩ :: post).map BLeaf.addr).Perm
          (addr :: (pre ++ x :: post).map BLeaf.addr) := by
        simp only [List.map_append, List.map_cons]
        rw [← List.singleton_append (l := post.map BLeaf.addr)]
        refine (List.Perm.append_left _ (List.Perm.swap addr x.addr _)).trans ?_
        exact List.perm_middle
      exact hperm.nodup_iff.mpr (List.nodup_cons.mpr ⟨hfresh, hd⟩)
    · intro l hl
      simp only [List.mem_append, List.mem_cons] at hl
      rcases hl with hl | rfl | rfl | hl
      · exact Nat.lt_succ_of_lt (hlt l (by simp [hl]))
      · exact Nat.lt_succ_of_lt (hlt x (by simp))
      · exact Nat.lt_succ_self _
      · exact Nat.lt_succ_of_lt (hlt l (by simp [hl]))

/-- The invariant after a successful insertion, whether or not the root was split. -/
theorem BTreeInv.inserted {order : Nat} {t : BTree} {m : BtreeMap} (inv : BTreeInv order t m)
    {key addr' h : Nat} {value : RecordPtr} {root' : BNode}
    (hord : Ordered order h none none root')
    (hls : LeavesInserted key value t.nextAddr t.root.leaves root'.leaves addr') :
    m.lookup key = none ∧
      BTreeInv order { t with root := root', size := (t.size + 1) % 2 ^ 32, dirty := true,
                              nextAddr := addr' } (m.insert key value) := by
  obtain ⟨X, Y, hX, hY⟩ := hls.bindings
  have hsorted := hord.bindings_sorted
  rw [← BNode.bindings_keys, BNode.bindings, hY] at hsorted
  have hnot := notMem_around hsorted
  have hrep : Represents m (X ++ Y) := hX ▸ inv.represents
  obtain ⟨p, hp⟩ := inv.linked
  obtain ⟨h1, h2⟩ := hls.addrs inv.addr_nodup inv.addr_lt
  refine ⟨hrep.lookup_none hnot, inv.small, inv.order_eq, ⟨h, hord⟩, ⟨p, hls.linked hp⟩, h1, h2, ?_, ?_⟩
  · show (t.size + 1) % 2 ^ 32 = (root'.leaves.flatMap BLeaf.entries).length % 2 ^ 32
    have hlen : t.root.bindings.length = (X ++ Y).length := by rw [← hX]; rfl
    rw [inv.size_eq, hlen, hY]
    simp only [List.length_append, List.length_cons]
    omega
  · show Represents _ (root'.leaves.flatMap BLeaf.entries)
    rw [hY]
    exact hrep.insert hnot

/-- **An insertion on a path with room** answers like the map, whatever splits fail for want of memory.
The bound on the nodes, `cap - 2`, need not be the one that the order gives. -/
theorem BTreeInv.insert {cap limit : Nat} {alloc : Nat → Bool} {t : BTree} {m : BtreeMap}
    (ho : 3 ≤ t.order) (hcap : 3 ≤ cap) (hlow : cap - 2 ≤ limit) (hhigh : limit ≤ cap - 1)
    (inv : BTreeInv cap { t with order := cap } m) (key : Nat) (value : RecordPtr)
    (hfits : findPos t key = none → PathFits t.order cap limit alloc 0 (pathCounts key t.root)) :
    (btreeStep alloc t (.insert key value)).1 = (mapStep m (.insert key value)).1 ∧
      BTreeInv cap { (btreeStep alloc t (.insert key value)).2 with order := cap }
        (mapStep m (.insert key value)).2 ∧
      btreeInsertPeak alloc t key value ≤ limit := by
  obtain ⟨h, hord⟩ := inv.ordered
  have hwithin : InsertedWithin t.order cap limit alloc h none none key value t.nextAddr t.root []
      (insertRecursive t.order alloc key value t.nextAddr t.root) :=
    insertRecursive_root ho inv.small hlow hhigh hord (inRange_none key) hfits
  obtain ⟨hspec, hpeak, hroot⟩ := hwithin
  simp only [btreeStep, btreeInsert, btreeInsertPeak, mapStep]
  generalize insertRecursive t.order alloc key value t.nextAddr t.root = r at hspec hpeak hroot
  have hpeak' : (if r.split.isSome = true then max r.peak 1 else r.peak) ≤ limit := by
    split <;> omega
  cases hspec with
  | duplicate he hsp hnode hmem =>
    obtain ⟨l, hl, hk⟩ := hmem
    obtain ⟨⟨k, v⟩, hkv, rfl⟩ := List.mem_map.mp hk
    have hlook : m.lookup k = some v :=
      (inv.represents k v).mpr (List.mem_flatMap.mpr ⟨l, hl, hkv⟩)
    simp only [he, hlook, if_true, hnode]
    exact ⟨trivial, inv, hpeak'⟩
  | grown he hsp hord' hls =>
    obtain ⟨hnone, hinv⟩ := inv.inserted hord' hls
    simp only [he, hsp, hnone, Bool.false_eq_true, if_false]
    exact ⟨trivial, hinv, by rw [hsp] at hpeak'; exact hpeak'⟩
  | split p right he hsp hb hleft hright hls =>
    -- the old root and its new sibling become the children of a new root
    have hnew : Ordered cap (h + 1) none none (.inner [p] [r.node, right]) :=
      ⟨⟨hleft, hb, hright⟩, by simp; omega⟩
    have hleaves : (BNode.inner [p] [r.node, right]).leaves = r.node.leaves ++ right.leaves := by
      simp [BNode.leaves, BNode.leavesList]
    rw [← hleaves] at hls
    obtain ⟨hnone, hinv⟩ := inv.inserted hnew hls
    have halloc : alloc r.creates = true := hroot (by rw [hsp]; rfl)
    simp only [he, hsp, hnone, halloc, Bool.false_eq_true, if_false, if_true]
    exact ⟨trivial, hinv, by rw [hsp] at hpeak'; exact hpeak'⟩

theorem btreeInsert_fits {order : Nat} (ho : 3 ≤ order) {t : BTree} {m : BtreeMap}
    (inv : BTreeInv order t m) (key : Nat) (value : RecordPtr) :
    (btreeStep allocOk t (.insert key value)).1 = (mapStep m (.insert key value)).1 ∧
      BTreeInv order { (btreeStep allocOk t (.insert key value)).2 with order := order }
        (mapStep m (.insert key value)).2 ∧
      btreeInsertPeak allocOk t key value ≤ order - 1 := by
  obtain ⟨h, hord⟩ := inv.ordered
  have hoe := inv.order_eq
  subst hoe
  exact inv.insert ho ho (by omega) (Nat.le_refl _) key value fun _ =>
    pathFits_allocOk ho (pathCounts_le inv.small hord (inRange_none key))

theorem btreeInsert_order (alloc : Nat → Bool) (t : BTree) (key : Nat) (value : RecordPtr) :
    (btreeInsert alloc t key value).2.order = t.order := by
  simp only [btreeInsert]
  split
  · rfl
  · split
    · rfl
    · split <;> rfl

theorem btreeInsert_refines {order : Nat} (ho : 3 ≤ order) {t : BTree} {m : BtreeMap}
    (inv : BTreeInv order t m) (key : Nat) (value : RecordPtr) :
    (btreeStep allocOk t (.insert key value)).1 = (mapStep m (.insert key value)).1 ∧
      BTreeInv order (btreeStep allocOk t (.insert key value)).2
        (mapStep m (.insert key value)).2 := by
  obtain ⟨hout, hinv, -⟩ := btreeInsert_fits ho inv key value
  exact ⟨hout, hinv.of_order ((btreeInsert_order allocOk t key value).trans inv.order_eq)⟩

/-- No node exceeds `order - 1` keys while an insertion is under way. -/
theorem btreeInsertPeak_le {order : Nat} (ho : 3 ≤ order) {t : BTree} {m : BtreeMap}
    (inv : BTreeInv order t m) (key : Nat) (value : RecordPtr) :
    btreeInsertPeak allocOk t key value ≤ order - 1 :=
  (btreeInsert_fits ho inv key value).2.2

/-- **One call** on the tree answers like the finite map and keeps the invariant. -/
theorem btreeStep_refines {order : Nat} (ho : 3 ≤ order) {t : BTree} {m : BtreeMap}
    (inv : BTreeInv order t m) (op : BtOp) :
    (btreeStep allocOk t op).1 = (mapStep m op).1 ∧
      BTreeInv order (btreeStep allocOk t op).2 (mapStep m op).2 := by
  cases op with
  | insert key value => exact btreeInsert_refines ho inv key value
  | delete key => exact btreeDelete_refines inv key
  | update key value => exact btreeUpdate_refines inv key value
  | search key => exact btreeSearch_refines inv key

/-- **A whole run** does. -/
theorem btreeRun_refines {order : Nat} (ho : 3 ≤ order) (ops : List BtOp) {t : BTree}
    {m : BtreeMap} (inv : BTreeInv order t m) :
    (runOps (btreeStep allocOk) t ops).1 = (runOps mapStep m ops).1 ∧
      BTreeInv order (runOps (btreeStep allocOk) t ops).2 (runOps mapStep m ops).2 :=
  runOps_refines (BTreeInv order) (fun _ _ => True) (fun _ _ op h _ => btreeStep_refines ho h op) ops
    inv (opsOk_true ops m)

/-! ## Shape -/

mutual

/-- The depth of every leaf, from left to right. -/
def BNode.leafDepths : BNode → List Nat
  | .leaf _ => [0]
  | .inner _ cs => (BNode.leafDepthsList cs).map (· + 1)

/-- The leaf depths of a list of subtrees. -/
def BNode.leafDepthsList : List BNode → List Nat
  | [] => []
  | c :: cs => c.leafDepths ++ BNode.leafDepthsList cs

end

/-- The shape of the C structure: sorted and bounded nodes, children between their separators,
leaves of equal depth, chained from left to right. -/
structure WellShaped (t : BTree) : Prop where
  sorted : ∀ n ∈ t.root.subnodes, n.keys.Pairwise (· < ·)
  bounded : ∀ n ∈ t.root.subnodes, n.keys.length ≤ t.order - 1
  arity : ∀ ks cs, .inner ks cs ∈ t.root.subnodes → cs.length = ks.length + 1
  between : ∀ ks cs, .inner ks cs ∈ t.root.subnodes → ∀ (i : Nat) (c : BNode), cs[i]? = some c →
    ∀ n ∈ c.subnodes, ∀ k ∈ n.keys,
      (∀ j s, i = j + 1 → ks[j]? = some s → s ≤ k) ∧ (∀ s, ks[i]? = some s → k < s)
  depth : ∃ h, ∀ d ∈ t.root.leafDepths, d = h
  chain : ∀ fuel, t.root.leaves.length ≤ fuel →
    chainWalk t.root.leaves fuel (t.root.leaves.head?.map BLeaf.addr) = t.root.leaves

theorem Children.range_at {P : Option Nat → Option Nat → BNode → Prop} {ks : List Nat} :
    ∀ {lo hi : Option Nat} {cs : List BNode} {i : Nat} {c : BNode}, Children P lo hi ks cs →
      cs[i]? = some c → ∃ lo' hi', P lo' hi' c ∧
        (∀ j s, i = j + 1 → ks[j]? = some s → lo' = some s) ∧ (i = 0 → lo' = lo) ∧
        (∀ s, ks[i]? = some s → hi' = some s) := by
  induction ks with
  | nil =>
    intro lo hi cs i c h hi'
    match cs, h with
    | [d], h =>
      obtain ⟨rfl, rfl⟩ : i = 0 ∧ d = c := by
        cases i with
        | zero => exact ⟨rfl, by simpa using hi'⟩
        | succ i => simp at hi'
      exact ⟨lo, hi, h, by simp, by simp, by simp⟩
  | cons k ks ih =>
    intro lo hi cs i c h hi'
    match cs, h with
    | d :: cs, ⟨hd, hb, hrest⟩ =>
      cases i with
      | zero =>
        obtain rfl : d = c := by simpa using hi'
        refine ⟨lo, some k, hd, by simp, fun _ => rfl, ?_⟩
        intro s hs; simpa using hs
      | succ i =>
        obtain ⟨lo', hi'', hp, h1, h2, h3⟩ := ih hrest (by simpa using hi')
        refine ⟨lo', hi'', hp, ?_, by simp, by simpa using h3⟩
        intro j s hj hs
        cases j with
        | zero => rw [h2 (by omega)]; simpa using hs
        | succ j => exact h1 j s (by omega) (by simpa using hs)

theorem BNode.mem_subnodesList {n : BNode} {cs : List BNode} :
    n ∈ BNode.subnodesList cs ↔ ∃ c ∈ cs, n ∈ c.subnodes := by
  induction cs with
  | nil => simp [BNode.subnodesList]
  | cons c cs ih => simp [BNode.subnodesList, ih]

/-- Every node below an ordered node is ordered, in a range inside. -/
theorem Ordered.subnode {order : Nat} : ∀ {h : Nat} {lo hi : Option Nat} {n : BNode},
    Ordered order h lo hi n → ∀ d ∈ n.subnodes, ∃ h' lo' hi', Ordered order h' lo' hi' d ∧
      (∀ x, AboveLo lo' x → AboveLo lo x) ∧ (∀ x, BelowHi hi' x → BelowHi hi x) := by
  intro h
  induction h with
  | zero =>
    intro lo hi n hn d hd
    match n, hn with
    | .leaf l, hn =>
      rw [BNode.subnodes, List.mem_singleton] at hd
      subst hd
      exact ⟨0, lo, hi, hn, fun _ h => h, fun _ h => h⟩
  | succ h ih =>
    intro lo hi n hn d hd
    match n, hn with
    | .inner ks cs, hn =>
      rw [BNode.subnodes, List.mem_cons] at hd
      rcases hd with rfl | hd
      · exact ⟨h + 1, lo, hi, hn, fun _ h => h, fun _ h => h⟩
      · obtain ⟨c, hc, hdc⟩ := BNode.mem_subnodesList.mp hd
        obtain ⟨lo₁, hi₁, hp, hlo₁, hhi₁⟩ := hn.1.mem c hc
        obtain ⟨h', lo₂, hi₂, hp', hlo₂, hhi₂⟩ := ih hp d hdc
        exact ⟨h', lo₂, hi₂, hp', fun x hx => hlo₁ x (hlo₂ x hx), fun x hx => hhi₁ x (hhi₂ x hx)⟩

/-- The keys stored in one ordered node. -/
theorem Ordered.keys_spec {order h : Nat} {lo hi : Option Nat} {n : BNode}
    (hn : Ordered order h lo hi n) :
    n.keys.Pairwise (· < ·) ∧ n.keys.length ≤ order - 2 ∧ ∀ k ∈ n.keys, InRange lo hi k := by
  match h, n, hn with
  | 0, .leaf l, hn => exact ⟨hn.1, hn.2.2, hn.2.1⟩
  | h + 1, .inner ks cs, hn =>
    refine ⟨hn.1.keys_sorted, hn.2, ?_⟩
    intro k hk
    exact ⟨(hn.1.keys_between k hk).1.above, (hn.1.keys_between k hk).2⟩

theorem Ordered.leafDepths {order : Nat} : ∀ {h : Nat} {lo hi : Option Nat} {n : BNode},
    Ordered order h lo hi n → ∀ d ∈ n.leafDepths, d = h := by
  intro h
  induction h with
  | zero =>
    intro lo hi n hn d hd
    match n, hn with
    | .leaf l, _ => simpa [BNode.leafDepths] using hd
  | succ h ih =>
    intro lo hi n hn d hd
    match n, hn with
    | .inner ks cs, hn =>
      have key : ∀ cs : List BNode, (∀ c ∈ cs, ∃ lo hi, Ordered order h lo hi c) →
          ∀ d ∈ BNode.leafDepthsList cs, d = h := by
        intro cs
        induction cs with
        | nil => intro _ d hd; simp [BNode.leafDepthsList] at hd
        | cons c cs ihc =>
          intro hcs d hd
          rw [BNode.leafDepthsList, List.mem_append] at hd
          rcases hd with hd | hd
          · obtain ⟨lo, hi, hc⟩ := hcs c (by simp)
            exact ih hc d hd
          · exact ihc (fun c hc => hcs c (List.mem_cons_of_mem _ hc)) d hd
      rw [BNode.leafDepths, List.mem_map] at hd
      obtain ⟨d', hd', rfl⟩ := hd
      rw [key cs (fun c hc => ?_) d' hd']
      obtain ⟨lo', hi', hp, _⟩ := hn.1.mem c hc
      exact ⟨lo', hi', hp⟩

/-- What the invariant says about the C structure. -/
theorem BTreeInv.wellShaped {order : Nat} {t : BTree} {m : BtreeMap} (inv : BTreeInv order t m) :
    WellShaped t := by
  obtain ⟨h, ho⟩ := inv.ordered
  have hoe := inv.order_eq
  subst hoe
  refine ⟨?_, ?_, ?_, ?_, ⟨h, ho.leafDepths⟩, ?_⟩
  · intro n hn
    obtain ⟨h', lo', hi', hp, _⟩ := ho.subnode n hn
    exact hp.keys_spec.1
  · intro n hn
    obtain ⟨h', lo', hi', hp, _⟩ := ho.subnode n hn
    have := hp.keys_spec.2.1
    omega
  · intro ks cs hn
    obtain ⟨h', lo', hi', hp, _⟩ := ho.subnode _ hn
    match h', hp with
    | h' + 1, hp => exact hp.1.length
  · intro ks cs hn i c hc n hnc k hk
    obtain ⟨h', lo', hi', hp, _⟩ := ho.subnode _ hn
    match h', hp with
    | h' + 1, hp =>
      obtain ⟨lo₁, hi₁, hpc, h1, -, h3⟩ := hp.1.range_at hc
      obtain ⟨h₂, lo₂, hi₂, hpn, hlo, hhi⟩ := hpc.subnode n hnc
      have hr := (hpn.keys_spec.2.2 k hk).mono hlo hhi
      refine ⟨?_, ?_⟩
      · intro j s hj hs
        rw [h1 j s hj hs] at hr
        exact hr.1
      · intro s hs
        rw [h3 s hs] at hr
        exact hr.2
  · intro fuel hfuel
    obtain ⟨p, hp⟩ := inv.linked
    have hstart : t.root.leaves.head?.map BLeaf.addr = p := by
      generalize t.root.leaves = ls at hp
      cases ls with
      | nil => exact hp.symm
      | cons l ls => exact hp.1.symm
    rw [hstart]
    exact hp.walk inv.addr_nodup (fun l hl => hl) hfuel

end Ticketing
