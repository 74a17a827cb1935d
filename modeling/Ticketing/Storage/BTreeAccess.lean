import Ticketing.Storage.BTreeRefinement

/-!
# Array accesses of the index (`server/storage/btree.c`)

`node_create` allocates `order` keys, `order` values and `order + 1` children for a node.  Every later
access trusts the number of keys that the node claims, and computes positions with `int`s.  Here the calls
of `btree.h` do each access only after a look at the array.

* `BadAccess`, `touch` — an access outside its array ends the computation.
* `btreeSearchChecked`, `btreeDeleteChecked`, `btreeUpdateChecked`, `btreeInsertChecked`,
  `btreeStepChecked` — the calls.
* `BNode.Fits` — no node claims more keys than it may; then the checked functions do what the unchecked
  ones do.  `btreeStep_of_checked`: so they do wherever they return.
* `btree_refines_map_iff` — the orders for which every run of calls answers like a finite map.
-/

set_option autoImplicit false

namespace Ticketing

/-- `len` items from item `start` on are accessed in an array of `size` items. -/
structure BadAccess where
  start : Int
  len : Nat
  size : Nat
  deriving DecidableEq, Repr

/-- An access, if it stays inside its array. -/
def touch (start len size : Nat) : Except BadAccess Unit :=
  if start + len ≤ size then .ok () else .error ⟨start, len, size⟩

theorem touch_ok {start len size : Nat} (h : start + len ≤ size) : touch start len size = .ok () :=
  if_pos h

theorem except_bind_ok {α β : Type} {x : Except BadAccess α} {f : α → Except BadAccess β} {b : β}
    (h : x.bind f = .ok b) : ∃ a, x = .ok a ∧ f a = .ok b := by
  cases x with
  | error e => cases h
  | ok a => exact ⟨a, rfl, h⟩

theorem except_map_ok {α β : Type} {x : Except BadAccess α} {f : α → β} {b : β}
    (h : x.map f = .ok b) : ∃ a, x = .ok a ∧ f a = b := by
  cases x with
  | error e => cases h
  | ok a =>
    cases h
    exact ⟨a, rfl, rfl⟩

/-! ## Searching -/

/-- The loop of `key_lower_bound`. -/
def lowerBoundLoopChecked (order : Nat) (keys : List Nat) (target : Nat) :
    Nat → Nat → Nat → Except BadAccess Nat
  | 0, lo, _ => .ok lo
  | fuel + 1, lo, hi =>
    if lo < hi then
      match intMid lo hi with
      | .ofNat mid =>
        (touch mid 1 order).bind fun _ =>
          if keys.getD mid 0 < target then lowerBoundLoopChecked order keys target fuel (mid + 1) hi
          else lowerBoundLoopChecked order keys target fuel lo mid
      | .negSucc mid => .error ⟨.negSucc mid, 1, order⟩
    else .ok lo

/-- `key_lower_bound`. -/
def keyLowerBoundChecked (order : Nat) (keys : List Nat) (target : Nat) : Except BadAccess Nat :=
  lowerBoundLoopChecked order keys target keys.length 0 keys.length

/-- `key_find_exact`; `none` is `-1`. -/
def keyFindExactChecked (order : Nat) (keys : List Nat) (key : Nat) :
    Except BadAccess (Option Nat) :=
  (keyLowerBoundChecked order keys key).bind fun pos =>
    if pos < keys.length then
      (touch pos 1 order).bind fun _ => .ok (if keys.getD pos 0 = key then some pos else none)
    else .ok none

/-- The child to descend to. -/
def childIndexChecked (order : Nat) (keys : List Nat) (key : Nat) : Except BadAccess Nat :=
  (keyLowerBoundChecked order keys key).bind fun i =>
    if i < keys.length then
      (touch i 1 order).bind fun _ => .ok (if keys.getD i 0 = key then i + 1 else i)
    else .ok i

mutual

/-- `find_leaf`; an inner node without children stands for a `NULL` root. -/
def findLeafChecked (order key : Nat) : BNode → Except BadAccess (Option BLeaf)
  | .leaf l => .ok (some l)
  | .inner ks cs =>
    if cs.isEmpty then .ok none
    else
      (childIndexChecked order ks key).bind fun i =>
        (touch i 1 (order + 1)).bind fun _ => findLeafChildChecked order key i cs

/-- `find_leaf` continued at `children[i]`. -/
def findLeafChildChecked (order key : Nat) : Nat → List BNode → Except BadAccess (Option BLeaf)
  | _, [] => .ok none
  | 0, c :: _ => findLeafChecked order key c
  | i + 1, _ :: cs => findLeafChildChecked order key i cs

end

/-- The leaf and the position of a key. -/
def findPosChecked (t : BTree) (key : Nat) : Except BadAccess (Option (BLeaf × Nat)) :=
  (findLeafChecked t.order key t.root).bind fun
    | none => .ok none
    | some leaf =>
      (keyFindExactChecked t.order leaf.keys key).map fun pos => pos.map fun pos => (leaf, pos)

/-- `btree_search`: the return value and `*out`. -/
def btreeSearchChecked (t : BTree) (key : Nat) : Except BadAccess (Int × Option RecordPtr) :=
  (findPosChecked t key).bind fun
    | none => .ok (-1, none)
    | some (leaf, pos) =>
      (touch pos 1 t.order).bind fun _ => .ok (0, leaf.entries[pos]?.map Prod.snd)

/-- The loop of `btree_delete`, which moves the items `i + 1` to `i` in both arrays; `n` turns. -/
def shiftLeftChecked (order : Nat) : Nat → Nat → Except BadAccess Unit
  | 0, _ => .ok ()
  | n + 1, i =>
    (touch i 2 order).bind fun _ => (touch i 2 order).bind fun _ => shiftLeftChecked order n (i + 1)

/-- `btree_delete`. -/
def btreeDeleteChecked (t : BTree) (key : Nat) : Except BadAccess (Int × BTree) :=
  (findPosChecked t key).bind fun
    | none => .ok (-1, t)
    | some (leaf, pos) =>
      (shiftLeftChecked t.order (leaf.entries.length - 1 - pos) pos).map fun _ =>
        (0, { t with
          root := modifyLeaf key (fun es => es.eraseIdx pos) t.root
          size := (t.size + (2 ^ 32 - 1)) % 2 ^ 32, dirty := true })

/-- `btree_update`. -/
def btreeUpdateChecked (t : BTree) (key : Nat) (newValue : RecordPtr) : Except BadAccess (Int × BTree) :=
  (findPosChecked t key).bind fun
    | none => .ok (-1, t)
    | some (_, pos) => (touch pos 1 t.order).map fun _ => btreeUpdate t key newValue

/-! ## Inserting -/

/-- The items from `pos` on move up by one, and there is a new one at `pos`. -/
def shiftRightChecked (size count pos : Nat) : Except BadAccess Unit := touch pos (count + 1 - pos) size

mutual

/-- What `insert_recursive` accesses. -/
def insertAccesses (order : Nat) (alloc : Nat → Bool) (key : Nat) (value : RecordPtr) (nextAddr : Nat) :
    BNode → Except BadAccess Unit
  | .leaf l =>
    (keyFindExactChecked order l.keys key).bind fun
      | some _ => .ok ()
      | none =>
        (shiftRightChecked order l.keys.length (keyLowerBound l.keys key)).bind fun _ =>
          shiftRightChecked order l.entries.length (keyLowerBound l.keys key)
  | .inner ks cs =>
    (childIndexChecked order ks key).bind fun i =>
      (touch i 1 (order + 1)).bind fun _ =>
        (insertChildAccesses order alloc key value nextAddr i cs).bind fun _ =>
          let r := insertChild order alloc key value nextAddr i cs
          match r.error, r.split with
          | false, some (promoted, _) =>
            (keyLowerBoundChecked order ks promoted).bind fun pos =>
              (shiftRightChecked order ks.length pos).bind fun _ =>
                shiftRightChecked (order + 1) cs.length (pos + 1)
          | _, _ => .ok ()

/-- The same in `children[i]`. -/
def insertChildAccesses (order : Nat) (alloc : Nat → Bool) (key : Nat) (value : RecordPtr) (nextAddr : Nat) :
    Nat → List BNode → Except BadAccess Unit
  | _, [] => .ok ()
  | 0, c :: _ => insertAccesses order alloc key value nextAddr c
  | i + 1, _ :: cs => insertChildAccesses order alloc key value nextAddr i cs

end

/-- `btree_insert`.  The halves that a split copies, and the one key and two children of a new root, have room
wherever `insert_recursive` has. -/
def btreeInsertChecked (alloc : Nat → Bool) (t : BTree) (key : Nat) (value : RecordPtr) :
    Except BadAccess (Int × BTree) :=
  (insertAccesses t.order alloc key value t.nextAddr t.root).map fun _ => btreeInsert alloc t key value

/-- One call on the tree. -/
def btreeStepChecked (alloc : Nat → Bool) (t : BTree) : BtOp → Except BadAccess (BtOut × BTree)
  | .insert k v => (btreeInsertChecked alloc t k v).map fun r => ((r.1, none), r.2)
  | .delete k => (btreeDeleteChecked t k).map fun r => ((r.1, none), r.2)
  | .update k v => (btreeUpdateChecked t k v).map fun r => ((r.1, none), r.2)
  | .search k => (btreeSearchChecked t k).map fun out => (out, t)

/-! ## Trees that fit their arrays -/

mutual

/-- No node claims more keys than this: the `order` that its arrays were allocated with, or as many as
`key_lower_bound` can search. -/
def BNode.Fits (order : Nat) : BNode → Prop
  | .leaf l => l.entries.length ≤ order
  | .inner ks cs => ks.length ≤ order ∧ BNode.FitsList order cs

/-- The same for a list of subtrees. -/
def BNode.FitsList (order : Nat) : List BNode → Prop
  | [] => True
  | c :: cs => c.Fits order ∧ BNode.FitsList order cs

end

section Fits

variable {order key : Nat}

theorem lowerBoundLoopChecked_eq (keys : List Nat) (target fuel : Nat) : ∀ {lo hi : Nat},
    hi ≤ order → hi ≤ 2 ^ 30 → ∃ pos, lowerBoundLoop keys target fuel lo hi = some pos ∧
      lowerBoundLoopChecked order keys target fuel lo hi = .ok pos := by
  induction fuel with
  | zero => exact fun _ _ => ⟨_, rfl, rfl⟩
  | succ fuel ih =>
    intro lo hi hhi hsmall
    rw [lowerBoundLoop, lowerBoundLoopChecked]
    split
    · rw [intMid_eq (by omega)]
      simp only
      rw [touch_ok (by omega)]
      simp only [Except.bind]
      split
      · exact ih hhi hsmall
      · exact ih (by omega) (by omega)
    · exact ⟨_, rfl, rfl⟩

theorem keyLowerBoundChecked_eq {keys : List Nat} (h : keys.length ≤ order) (hsmall : keys.length ≤ 2 ^ 30)
    (target : Nat) : keyLowerBoundChecked order keys target = .ok (keyLowerBound keys target) := by
  obtain ⟨pos, hpos, hchecked⟩ := @lowerBoundLoopChecked_eq order keys target keys.length 0 _ h hsmall
  rw [keyLowerBoundChecked, hchecked, keyLowerBound, hpos]
  rfl

theorem keyFindExactChecked_eq {keys : List Nat} (h : keys.length ≤ order) (hsmall : keys.length ≤ 2 ^ 30)
    (key : Nat) :
    keyFindExactChecked order keys key = .ok (keyFindExact keys key) := by
  unfold keyFindExactChecked keyFindExact
  rw [keyLowerBoundChecked_eq h hsmall]
  simp only [Except.bind]
  by_cases hpos : keyLowerBound keys key < keys.length
  · rw [if_pos hpos, touch_ok (by omega)]
    simp only [hpos, true_and]
  · rw [if_neg hpos, if_neg (fun hand => hpos hand.1)]

theorem childIndexChecked_eq {keys : List Nat} (h : keys.length ≤ order) (hsmall : keys.length ≤ 2 ^ 30)
    (key : Nat) :
    childIndexChecked order keys key = .ok (childIndex keys key) := by
  unfold childIndexChecked childIndex
  rw [keyLowerBoundChecked_eq h hsmall]
  simp only [Except.bind]
  by_cases hpos : keyLowerBound keys key < keys.length
  · rw [if_pos hpos, touch_ok (by omega)]
    simp only [hpos, true_and]
  · rw [if_neg hpos, if_neg (fun hand => hpos hand.1)]

/-- The child is at most one past the keys, in any order of the keys. -/
theorem lowerBoundLoop_le (keys : List Nat) (target n fuel : Nat) : ∀ {lo hi pos : Nat}, lo ≤ n → hi ≤ n →
    lowerBoundLoop keys target fuel lo hi = some pos → pos ≤ n := by
  induction fuel with
  | zero =>
    intro lo hi pos hlo _ hpos
    cases hpos
    exact hlo
  | succ fuel ih =>
    intro lo hi pos hlo hhi hpos
    rw [lowerBoundLoop] at hpos
    split at hpos
    · rename_i hlt
      cases hmid : intMid lo hi with
      | negSucc mid =>
        rw [hmid] at hpos
        cases hpos
      | ofNat mid =>
        have hle := intMid_ofNat hmid
        simp only [hmid] at hpos
        split at hpos
        · exact ih (by omega) hhi hpos
        · exact ih hlo (by omega) hpos
    · cases hpos
      exact hlo

theorem keyLowerBound_le (keys : List Nat) (key : Nat) : keyLowerBound keys key ≤ keys.length := by
  unfold keyLowerBound
  cases hpos : lowerBoundLoop keys key keys.length 0 keys.length with
  | none => exact Nat.zero_le _
  | some pos => exact lowerBoundLoop_le keys key _ _ (Nat.zero_le _) (Nat.le_refl _) hpos

theorem childIndex_le (keys : List Nat) (key : Nat) : childIndex keys key ≤ keys.length := by
  have hlow := keyLowerBound_le keys key
  unfold childIndex
  simp only
  split
  · omega
  · exact hlow

mutual

theorem findLeafChecked_eq : ∀ n : BNode, n.Fits order → n.Fits (2 ^ 30) →
    findLeafChecked order key n = .ok (findLeaf key n)
  | .leaf l, _, _ => rfl
  | .inner ks cs, h, hsmall => by
    have hidx := childIndex_le ks key
    have hks : ks.length ≤ order := h.1
    have hrest := findLeafChildChecked_eq (childIndex ks key) cs h.2 hsmall.2
    rw [findLeafChecked, findLeaf]
    split
    · rename_i hempty
      rw [List.isEmpty_iff.mp hempty]
      rfl
    · rw [childIndexChecked_eq hks hsmall.1]
      simp only [Except.bind]
      rw [touch_ok (by omega)]
      exact hrest

theorem findLeafChildChecked_eq : ∀ (i : Nat) (cs : List BNode), BNode.FitsList order cs →
    BNode.FitsList (2 ^ 30) cs → findLeafChildChecked order key i cs = .ok (findLeafChild key i cs)
  | _, [], _, _ => by rw [findLeafChildChecked, findLeafChild]
  | 0, c :: cs, h, hsmall => by
    rw [findLeafChildChecked, findLeafChild]
    exact findLeafChecked_eq c h.1 hsmall.1
  | i + 1, c :: cs, h, hsmall => by
    rw [findLeafChildChecked, findLeafChild]
    exact findLeafChildChecked_eq i cs h.2 hsmall.2

end

mutual

/-- The leaf that is found fits, and its entries are the tree's. -/
theorem findLeaf_fits : ∀ (n : BNode) {leaf : BLeaf}, n.Fits order → findLeaf key n = some leaf →
    leaf.entries.length ≤ order
  | .leaf l, leaf, h, hf => by
    rw [findLeaf] at hf
    cases hf
    exact h
  | .inner ks cs, leaf, h, hf => by
    rw [findLeaf] at hf
    exact findLeafChild_fits (childIndex ks key) cs h.2 hf

theorem findLeafChild_fits : ∀ (i : Nat) (cs : List BNode) {leaf : BLeaf}, BNode.FitsList order cs →
    findLeafChild key i cs = some leaf → leaf.entries.length ≤ order
  | _, [], leaf, _, hf => by
    rw [findLeafChild] at hf
    cases hf
  | 0, c :: cs, leaf, h, hf => by
    rw [findLeafChild] at hf
    exact findLeaf_fits c h.1 hf
  | i + 1, c :: cs, leaf, h, hf => by
    rw [findLeafChild] at hf
    exact findLeafChild_fits i cs h.2 hf

end

theorem findPosChecked_eq {t : BTree} (h : t.root.Fits t.order) (hsmall : t.root.Fits (2 ^ 30)) (key : Nat) :
    findPosChecked t key = .ok (findPos t key) := by
  unfold findPosChecked findPos
  rw [findLeafChecked_eq t.root h hsmall]
  simp only [Except.bind]
  cases hleaf : findLeaf key t.root with
  | none => rfl
  | some leaf =>
    have hlen : leaf.keys.length ≤ t.order ∧ leaf.keys.length ≤ 2 ^ 30 := by
      rw [BLeaf.keys, List.length_map]
      exact ⟨findLeaf_fits t.root h hleaf, findLeaf_fits t.root hsmall hleaf⟩
    simp only [keyFindExactChecked_eq hlen.1 hlen.2]
    rfl

/-- The position found is one of the leaf's. -/
theorem findPos_lt {t : BTree} (h : t.root.Fits t.order) {leaf : BLeaf} {pos : Nat}
    (hf : findPos t key = some (leaf, pos)) : pos < leaf.entries.length ∧
      leaf.entries.length ≤ t.order := by
  unfold findPos at hf
  split at hf
  · cases hf
  · rename_i leaf' hleaf
    obtain ⟨p, hp, he⟩ := Option.map_eq_some_iff.mp hf
    cases he
    unfold keyFindExact at hp
    simp only at hp
    split at hp
    · rename_i hpos
      cases hp
      rw [BLeaf.keys, List.length_map] at hpos
      exact ⟨hpos.1, findLeaf_fits t.root h hleaf⟩
    · cases hp

/-- **`btree_search`** stays inside the arrays. -/
theorem btreeSearchChecked_eq {t : BTree} (h : t.root.Fits t.order) (hsmall : t.root.Fits (2 ^ 30))
    (key : Nat) : btreeSearchChecked t key = .ok (btreeSearch t key) := by
  unfold btreeSearchChecked btreeSearch
  rw [findPosChecked_eq h hsmall]
  simp only [Except.bind]
  cases hf : findPos t key with
  | none => rfl
  | some r =>
    obtain ⟨leaf, pos⟩ := r
    have hpos := findPos_lt h hf
    simp only
    rw [touch_ok (by omega)]

theorem shiftLeftChecked_ok (n : Nat) : ∀ {i : Nat}, i + n < order →
    shiftLeftChecked order n i = .ok () := by
  induction n with
  | zero => intro i _; rfl
  | succ n ih =>
    intro i hi
    rw [shiftLeftChecked, touch_ok (by omega)]
    exact ih (by omega)

/-- **`btree_delete`** stays inside the arrays. -/
theorem btreeDeleteChecked_eq {t : BTree} (h : t.root.Fits t.order) (hsmall : t.root.Fits (2 ^ 30))
    (key : Nat) : btreeDeleteChecked t key = .ok (btreeDelete t key) := by
  unfold btreeDeleteChecked btreeDelete
  rw [findPosChecked_eq h hsmall]
  simp only [Except.bind]
  cases hf : findPos t key with
  | none => rfl
  | some r =>
    obtain ⟨leaf, pos⟩ := r
    have hpos := findPos_lt h hf
    simp only
    rw [shiftLeftChecked_ok _ (by omega)]
    rfl

/-- **`btree_update`** stays inside the arrays. -/
theorem btreeUpdateChecked_eq {t : BTree} (h : t.root.Fits t.order) (hsmall : t.root.Fits (2 ^ 30))
    (key : Nat) (value : RecordPtr) : btreeUpdateChecked t key value = .ok (btreeUpdate t key value) := by
  unfold btreeUpdateChecked
  rw [findPosChecked_eq h hsmall]
  simp only [Except.bind]
  cases hf : findPos t key with
  | none => simp only [btreeUpdate, hf]
  | some r =>
    obtain ⟨leaf, pos⟩ := r
    have hpos := findPos_lt h hf
    simp only
    rw [touch_ok (by omega)]
    rfl

mutual

/-- Deleting in a leaf keeps the sizes. -/
theorem modifyLeaf_fits {f : List (Nat × RecordPtr) → List (Nat × RecordPtr)}
    (hf : ∀ es, (f es).length ≤ es.length) : ∀ n : BNode, n.Fits order → (modifyLeaf key f n).Fits order
  | .leaf l, h => Nat.le_trans (hf l.entries) h
  | .inner ks cs, h => by
    rw [modifyLeaf]
    exact ⟨h.1, modifyLeafChild_fits hf (childIndex ks key) cs h.2⟩

theorem modifyLeafChild_fits {f : List (Nat × RecordPtr) → List (Nat × RecordPtr)}
    (hf : ∀ es, (f es).length ≤ es.length) : ∀ (i : Nat) (cs : List BNode), BNode.FitsList order cs →
      BNode.FitsList order (modifyLeafChild key f i cs)
  | _, [], _ => by
    rw [modifyLeafChild]
    trivial
  | 0, c :: cs, h => by
    rw [modifyLeafChild]
    exact ⟨modifyLeaf_fits hf c h.1, h.2⟩
  | i + 1, c :: cs, h => by
    rw [modifyLeafChild]
    exact ⟨h.1, modifyLeafChild_fits hf i cs h.2⟩

end

end Fits

/-! ## The checked functions, where they return -/

section Checked

variable {order key : Nat}

theorem lowerBoundLoop_of_checked {keys : List Nat} {target : Nat} (fuel : Nat) : ∀ {lo hi i : Nat},
    lowerBoundLoopChecked order keys target fuel lo hi = .ok i →
      lowerBoundLoop keys target fuel lo hi = some i := by
  induction fuel with
  | zero =>
    intro lo hi i h
    cases h
    rfl
  | succ fuel ih =>
    intro lo hi i h
    rw [lowerBoundLoopChecked] at h
    rw [lowerBoundLoop]
    split at h
    · rename_i hlt
      rw [if_pos hlt]
      cases hmid : intMid lo hi with
      | negSucc mid =>
        rw [hmid] at h
        cases h
      | ofNat mid =>
        simp only [hmid] at h ⊢
        obtain ⟨-, -, h⟩ := except_bind_ok h
        split at h
        · rename_i hkey
          rw [if_pos hkey]
          exact ih h
        · rename_i hkey
          rw [if_neg hkey]
          exact ih h
    · rename_i hle
      rw [if_neg hle]
      cases h
      rfl

theorem keyLowerBound_of_checked {keys : List Nat} {target i : Nat}
    (h : keyLowerBoundChecked order keys target = .ok i) : keyLowerBound keys target = i := by
  rw [keyLowerBound, lowerBoundLoop_of_checked _ h]
  rfl

theorem keyFindExact_of_checked {keys : List Nat} {r : Option Nat}
    (h : keyFindExactChecked order keys key = .ok r) : keyFindExact keys key = r := by
  obtain ⟨pos, hpos, h⟩ := except_bind_ok h
  have hlow := keyLowerBound_of_checked hpos
  unfold keyFindExact
  simp only [hlow]
  split at h
  · rename_i hlt
    obtain ⟨-, -, h⟩ := except_bind_ok h
    cases h
    simp only [hlt, true_and]
  · rename_i hle
    cases h
    rw [if_neg (fun hand => hle hand.1)]

theorem childIndex_of_checked {keys : List Nat} {i : Nat} (h : childIndexChecked order keys key = .ok i) :
    childIndex keys key = i := by
  obtain ⟨pos, hpos, h⟩ := except_bind_ok h
  have hlow := keyLowerBound_of_checked hpos
  unfold childIndex
  simp only [hlow]
  split at h
  · rename_i hlt
    obtain ⟨-, -, h⟩ := except_bind_ok h
    cases h
    simp only [hlt, true_and]
  · rename_i hle
    cases h
    rw [if_neg (fun hand => hle hand.1)]

mutual

theorem findLeaf_of_checked : ∀ (n : BNode) {r : Option BLeaf}, findLeafChecked order key n = .ok r →
    findLeaf key n = r
  | .leaf l, r, h => by
    rw [findLeafChecked] at h
    cases h
    rw [findLeaf]
  | .inner ks cs, r, h => by
    rw [findLeafChecked] at h
    rw [findLeaf]
    split at h
    · rename_i hempty
      cases h
      rw [List.isEmpty_iff.mp hempty, findLeafChild]
    · obtain ⟨i, hi, h⟩ := except_bind_ok h
      obtain ⟨-, -, h⟩ := except_bind_ok h
      rw [childIndex_of_checked hi]
      exact findLeafChild_of_checked i cs h

theorem findLeafChild_of_checked : ∀ (i : Nat) (cs : List BNode) {r : Option BLeaf},
    findLeafChildChecked order key i cs = .ok r → findLeafChild key i cs = r
  | _, [], r, h => by
    rw [findLeafChildChecked] at h
    cases h
    rw [findLeafChild]
  | 0, c :: cs, r, h => by
    rw [findLeafChildChecked] at h
    rw [findLeafChild]
    exact findLeaf_of_checked c h
  | i + 1, c :: cs, r, h => by
    rw [findLeafChildChecked] at h
    rw [findLeafChild]
    exact findLeafChild_of_checked i cs h

end

theorem findPos_of_checked {t : BTree} {r : Option (BLeaf × Nat)} (h : findPosChecked t key = .ok r) :
    findPos t key = r := by
  obtain ⟨leaf, hleaf, h⟩ := except_bind_ok h
  unfold findPos
  rw [findLeaf_of_checked t.root hleaf]
  cases leaf with
  | none =>
    cases h
    rfl
  | some leaf =>
    obtain ⟨pos, hpos, rfl⟩ := except_map_ok h
    simp only [keyFindExact_of_checked hpos]

theorem btreeSearch_of_checked {t : BTree} {r : Int × Option RecordPtr}
    (h : btreeSearchChecked t key = .ok r) : btreeSearch t key = r := by
  obtain ⟨pos, hpos, h⟩ := except_bind_ok h
  unfold btreeSearch
  rw [findPos_of_checked hpos]
  cases pos with
  | none =>
    cases h
    rfl
  | some pos =>
    obtain ⟨-, -, h⟩ := except_bind_ok h
    cases h
    rfl

theorem btreeDelete_of_checked {t : BTree} {r : Int × BTree} (h : btreeDeleteChecked t key = .ok r) :
    btreeDelete t key = r := by
  obtain ⟨pos, hpos, h⟩ := except_bind_ok h
  unfold btreeDelete
  rw [findPos_of_checked hpos]
  cases pos with
  | none =>
    cases h
    rfl
  | some pos =>
    obtain ⟨-, -, rfl⟩ := except_map_ok h
    rfl

theorem btreeUpdate_of_checked {t : BTree} {value : RecordPtr} {r : Int × BTree}
    (h : btreeUpdateChecked t key value = .ok r) : btreeUpdate t key value = r := by
  obtain ⟨pos, hpos, h⟩ := except_bind_ok h
  cases pos with
  | none =>
    cases h
    unfold btreeUpdate
    rw [findPos_of_checked hpos]
  | some pos =>
    obtain ⟨-, -, rfl⟩ := except_map_ok h
    rfl

theorem btreeInsert_of_checked {alloc : Nat → Bool} {t : BTree} {value : RecordPtr} {r : Int × BTree}
    (h : btreeInsertChecked alloc t key value = .ok r) : btreeInsert alloc t key value = r := by
  obtain ⟨-, -, rfl⟩ := except_map_ok h
  rfl

/-- **A call that stays inside the arrays** does what the unchecked one does. -/
theorem btreeStep_of_checked {alloc : Nat → Bool} {t : BTree} {op : BtOp} {r : BtOut × BTree}
    (h : btreeStepChecked alloc t op = .ok r) : btreeStep alloc t op = r := by
  cases op with
  | insert key value =>
    obtain ⟨r', hr', rfl⟩ := except_map_ok h
    rw [btreeStep, btreeInsert_of_checked hr']
  | delete key =>
    obtain ⟨r', hr', rfl⟩ := except_map_ok h
    rw [btreeStep, btreeDelete_of_checked hr']
  | update key value =>
    obtain ⟨r', hr', rfl⟩ := except_map_ok h
    rw [btreeStep, btreeUpdate_of_checked hr']
  | search key =>
    obtain ⟨r', hr', rfl⟩ := except_map_ok h
    rw [btreeStep, btreeSearch_of_checked hr']

end Checked

/-! ## Ordered trees -/

mutual

/-- Nodes that hold few enough keys fit their arrays. -/
theorem BNode.fits_of_subnodes {order : Nat} : ∀ n : BNode,
    (∀ d ∈ n.subnodes, d.keys.length ≤ order) → n.Fits order
  | .leaf l, h => by
    have hlen := h (.leaf l) List.mem_cons_self
    rwa [BNode.keys, BLeaf.keys, List.length_map] at hlen
  | .inner ks cs, h =>
    ⟨h (.inner ks cs) List.mem_cons_self,
      BNode.fits_of_subnodesList cs fun d hd => h d (List.mem_cons_of_mem _ hd)⟩

theorem BNode.fits_of_subnodesList {order : Nat} : ∀ cs : List BNode,
    (∀ d ∈ BNode.subnodesList cs, d.keys.length ≤ order) → BNode.FitsList order cs
  | [], _ => trivial
  | c :: cs, h =>
    ⟨BNode.fits_of_subnodes c fun d hd => h d (List.mem_append_left _ hd),
      BNode.fits_of_subnodesList cs fun d hd => h d (List.mem_append_right _ hd)⟩

end

/-- An ordered tree fits whatever its bound fits. -/
theorem Ordered.fits {cap h size : Nat} {lo hi : Option Nat} {n : BNode} (hn : Ordered cap h lo hi n)
    (hsize : cap - 2 ≤ size) : n.Fits size :=
  BNode.fits_of_subnodes n fun d hd => by
    obtain ⟨h', lo', hi', hd', -⟩ := hn.subnode d hd
    exact Nat.le_trans hd'.keys_spec.2.1 hsize

section Insert

variable {order cap limit : Nat} {alloc : Nat → Bool} {key addr : Nat} {value : RecordPtr}

theorem insertChildAccesses_eq (c : BNode) (cr : List BNode) : ∀ cl : List BNode,
    insertChildAccesses order alloc key value addr cl.length (cl ++ c :: cr) =
      insertAccesses order alloc key value addr c
  | [] => by rw [List.nil_append, List.length_nil, insertChildAccesses]
  | _ :: cl => by
    rw [List.length_cons, List.cons_append, insertChildAccesses]
    exact insertChildAccesses_eq c cr cl

theorem shiftRightChecked_ok {size count pos : Nat} (hpos : pos ≤ count) (hroom : count + 1 ≤ size) :
    shiftRightChecked size count pos = .ok () := touch_ok (by omega)

/-- A key that is not in the leaf is taken. -/
theorem insertRecursive_leaf_error {l : BLeaf} (hnew : keyFindExact l.keys key = none) :
    (insertRecursive order alloc key value addr (.leaf l)).error = false := by
  have hnot : ¬ (keyLowerBound l.keys key < l.keys.length ∧ l.keys.getD (keyLowerBound l.keys key) 0 = key) := by
    intro hdup
    rw [keyFindExact, if_pos hdup] at hnew
    cases hnew
  rw [insertRecursive]
  simp only [if_neg hnot]
  split
  · unfold splitLeaf
    simp only
    split <;> rfl
  · rfl

/-- **`insert_recursive` on a path with room** stays inside the arrays, whatever splits fail. -/
theorem insertAccesses_ok (ho : 3 ≤ order) (hsmall : cap ≤ 2 ^ 30 + 2) (hlow : cap - 2 ≤ limit)
    (hhigh : limit ≤ cap - 1) (hlimit : limit ≤ order) :
    ∀ {h : Nat} {lo hi : Option Nat} {n : BNode} {above : List Nat}, Ordered cap h lo hi n → InRange lo hi key →
      ((insertRecursive order alloc key value addr n).error = false →
        PathFits order cap limit alloc 0 (pathCounts key n ++ above)) →
      insertAccesses order alloc key value addr n = .ok () := by
  intro h
  induction h with
  | zero =>
    intro lo hi n above hn hk hfits
    match n, hn with
    | .leaf l, hn =>
      have hlen : l.keys.length ≤ cap - 2 := hn.2.2
      have hsame : l.keys.length = l.entries.length := List.length_map _
      rw [insertAccesses, keyFindExactChecked_eq (by omega) (by omega)]
      simp only [Except.bind]
      cases hfind : keyFindExact l.keys key with
      | some pos => rfl
      | none =>
        have hroom := (hfits (insertRecursive_leaf_error hfind)).1
        have hpos := keyLowerBound_le l.keys key
        simp only
        rw [shiftRightChecked_ok hpos (by omega)]
        exact shiftRightChecked_ok (by omega) (by omega)
  | succ h ih =>
    intro lo hi n above hn hk hfits
    match n, hn with
    | .inner ks cs, hn =>
      obtain ⟨l, r, cl, c, cr, lo', hi', F⟩ := hn.1.focus hk
      have hlen : ks.length ≤ cap - 2 := hn.2
      have hidx := F.childIndex hn.1.keys_sorted (hn.small hsmall)
      have hle := childIndex_le ks key
      have hcs := F.children
      have hcall : insertChild order alloc key value addr (childIndex ks key) cs =
          insertRecursive order alloc key value addr c := by
        rw [hidx, hcs, insertChild_eq]
      have haccess : insertChildAccesses order alloc key value addr (childIndex ks key) cs =
          insertAccesses order alloc key value addr c := by
        rw [hidx, hcs, insertChildAccesses_eq]
      have hpath : pathCounts key (.inner ks cs) ++ above = pathCounts key c ++ (ks.length :: above) := by
        rw [pathCounts, hidx, hcs, pathCountsChild_eq, List.append_assoc, List.singleton_append]
      rw [insertRecursive_inner_error, hcall, hpath] at hfits
      have habove := (insertRecursive_fits ho hsmall hlow hhigh F.child F.range hfits).above
      rw [insertAccesses, childIndexChecked_eq (by omega) (by omega)]
      simp only [Except.bind]
      rw [touch_ok (by omega), haccess, ih F.child F.range hfits, hcall]
      simp only
      generalize insertRecursive order alloc key value addr c = res at habove
      split
      · -- the child was split
        rename_i promoted right herr hsplit
        obtain ⟨hroom, -⟩ := habove (by rw [hsplit]; rfl)
        have hpos := keyLowerBound_le ks promoted
        have hchildren := hn.1.length
        rw [keyLowerBoundChecked_eq (by omega) (by omega)]
        simp only
        rw [shiftRightChecked_ok hpos (by omega)]
        exact shiftRightChecked_ok (by omega) (by omega)
      · rfl

/-- **`btree_insert` on a path with room** stays inside the arrays. -/
theorem BTreeInv.insertChecked {t : BTree} {m : BtreeMap} (ho : 3 ≤ t.order) (hlow : cap - 2 ≤ limit)
    (hhigh : limit ≤ cap - 1) (hlimit : limit ≤ t.order) (inv : BTreeInv cap { t with order := cap } m)
    (key : Nat) (value : RecordPtr)
    (hfits : findPos t key = none → PathFits t.order cap limit alloc 0 (pathCounts key t.root)) :
    btreeInsertChecked alloc t key value = .ok (btreeInsert alloc t key value) := by
  obtain ⟨h, hord⟩ := inv.ordered
  have hpath : (insertRecursive t.order alloc key value t.nextAddr t.root).error = false →
      PathFits t.order cap limit alloc 0 (pathCounts key t.root ++ []) := by
    intro herr
    rw [List.append_nil]
    refine hfits ?_
    obtain ⟨pre, leaf, post, F⟩ := findLeaf_spec inv.small hord (inRange_none key)
    rw [findPos, F.found]
    simp only [keyFindExact_of_inserted inv.small hord (inRange_none key) F.found herr, Option.map_none]
  have haccess := insertAccesses_ok ho inv.small hlow hhigh hlimit hord (inRange_none key) hpath
  rw [btreeInsertChecked, haccess]
  rfl

/-- **A call** stays inside the arrays of a tree without full nodes. -/
theorem BTreeInv.stepChecked {t : BTree} {m : BtreeMap} (ho : 3 ≤ order) (inv : BTreeInv order t m) (op : BtOp) :
    btreeStepChecked allocOk t op = .ok (btreeStep allocOk t op) := by
  obtain ⟨h, hord⟩ := inv.ordered
  have hsmall := inv.small
  have hoe := inv.order_eq
  subst hoe
  have hfits : t.root.Fits t.order := hord.fits (by omega)
  have hint : t.root.Fits (2 ^ 30) := hord.fits (by omega)
  cases op with
  | insert key value =>
    have hlow : t.order - 2 ≤ t.order - 1 := by omega
    have hroom := @pathFits_allocOk t.order _ 0 ho (pathCounts_le hsmall hord (inRange_none key))
    rw [btreeStepChecked, inv.insertChecked ho hlow (Nat.le_refl _) (by omega) key value fun _ => hroom]
    rfl
  | delete key =>
    rw [btreeStepChecked, btreeDeleteChecked_eq hfits hint]
    rfl
  | update key value =>
    rw [btreeStepChecked, btreeUpdateChecked_eq hfits hint]
    rfl
  | search key =>
    rw [btreeStepChecked, btreeSearchChecked_eq hfits hint]
    rfl

/-- **A run of calls** does. -/
theorem BTreeInv.runChecked {t : BTree} {m : BtreeMap} (ho : 3 ≤ order) (inv : BTreeInv order t m)
    (ops : List BtOp) : tryOps (btreeStepChecked allocOk) t ops = .ok (runOps (btreeStep allocOk) t ops) := by
  refine tryOps_of_ok (fun t => ∃ m, BTreeInv order t m) ?_ ops ⟨m, inv⟩
  rintro s op ⟨m, hm⟩
  exact ⟨hm.stepChecked ho op, _, (btreeStep_refines ho hm op).2⟩

end Insert

/-! ## More keys than an `int` can search -/

section Overflow

variable {order n : Nat}

/-- Among more than `2 ^ 30` keys the search for a greater one overflows. -/
theorem lowerBoundLoopChecked_overflow {keys : List Nat} {target : Nat} (hall : ∀ k ∈ keys, k < target)
    (hmany : 2 ^ 30 < keys.length) (hint : keys.length < 2 ^ 31) : ∀ {fuel lo : Nat}, lo < keys.length →
      keys.length ≤ lo + fuel → ∃ e, lowerBoundLoopChecked order keys target fuel lo keys.length = .error e := by
  intro fuel
  induction fuel with
  | zero => exact fun hlo hfuel => absurd hfuel (by omega)
  | succ fuel ih =>
    intro lo hlo hfuel
    rw [lowerBoundLoopChecked, if_pos hlo]
    rcases Nat.lt_or_ge (lo + keys.length) (2 ^ 31) with hsum | hsum
    · rw [intMid_eq hsum]
      have hmid : (lo + keys.length) / 2 < keys.length := by omega
      have hkey : keys.getD ((lo + keys.length) / 2) 0 < target := by
        rw [List.getD_eq_getElem?_getD, List.getElem?_eq_getElem hmid]
        exact hall _ (List.getElem_mem hmid)
      simp only
      rcases Nat.lt_or_ge ((lo + keys.length) / 2) order with hin | hout
      · rw [touch_ok (by omega)]
        simp only [Except.bind, if_pos hkey]
        exact ih (by omega) (by omega)
      · rw [touch, if_neg (by omega)]
        exact ⟨_, rfl⟩
    · obtain ⟨mid, hmid⟩ : ∃ mid, intMid lo keys.length = .negSucc mid := by
        refine ⟨(2 ^ 32 - (lo + keys.length)) / 2 - 1, ?_⟩
        rw [intMid, if_neg (by omega), Int.negSucc_eq]
        omega
      rw [hmid]
      exact ⟨_, rfl⟩

/-- The index after `n` insertions in ascending order, all in its one leaf. -/
def ascendingIndex (order n : Nat) : BTree :=
  ⟨.leaf ⟨0, (List.range n).map fun k => (k, ⟨0, 0⟩), none⟩, order, n % 2 ^ 32, true, 1⟩

def ascendingInserts (n : Nat) : List BtOp := (List.range n).map fun k => .insert k ⟨0, 0⟩

/-- These insertions, and a deletion of one key more. -/
def overflowRun (n : Nat) : List BtOp := ascendingInserts n ++ [.delete n]

theorem ascending_keys (n : Nat) :
    (BLeaf.mk 0 ((List.range n).map fun k => (k, ⟨0, 0⟩)) none).keys = List.range n := by
  rw [BLeaf.keys, List.map_map]
  exact List.map_id _

/-- One insertion more, while `key_lower_bound` can search the leaf and it is not split. -/
theorem insert_ascending (hsmall : n ≤ 2 ^ 30) (hroom : n + 2 < order) :
    btreeStepChecked allocOk (ascendingIndex order n) (.insert n ⟨0, 0⟩) =
      .ok ((0, none), ascendingIndex order (n + 1)) := by
  have hkeys := ascending_keys n
  have hlen : (List.range n).length = n := List.length_range
  have hpos : keyLowerBound (List.range n) n = n := by
    have hcut := @keyLowerBound_eq (List.range n) [] n (fun k hk => List.mem_range.mp hk)
      (fun k hk => absurd hk List.not_mem_nil) (by rw [List.append_nil, hlen]; exact hsmall)
    rwa [List.append_nil, hlen] at hcut
  have hnone : keyFindExact (List.range n) n = none := by
    unfold keyFindExact
    rw [hpos, if_neg (by rw [hlen]; omega)]
  have haccess : insertAccesses order allocOk n ⟨0, 0⟩ 1 (ascendingIndex order n).root = .ok () := by
    rw [ascendingIndex, insertAccesses, hkeys, keyFindExactChecked_eq (by omega) (by omega), hnone]
    simp only [Except.bind, hpos, hlen, List.length_map]
    rw [shiftRightChecked_ok (Nat.le_refl n) (by omega)]
  have hgrown : insertAt n (n, (⟨0, 0⟩ : RecordPtr)) ((List.range n).map fun k => (k, ⟨0, 0⟩)) =
      (List.range (n + 1)).map fun k => (k, ⟨0, 0⟩) := by
    rw [List.range_succ, List.map_append, List.map_singleton]
    have hat := insertAt_length ((List.range n).map fun k => (k, (⟨0, 0⟩ : RecordPtr))) [] (n, ⟨0, 0⟩)
    rwa [List.length_map, hlen, List.append_nil] at hat
  have hnosplit : ¬ ((List.range (n + 1)).map fun k => (k, (⟨0, 0⟩ : RecordPtr))).length ≥ order - 1 := by
    rw [List.length_map, List.length_range]
    omega
  have hinsert : btreeInsert allocOk (ascendingIndex order n) n ⟨0, 0⟩ = (0, ascendingIndex order (n + 1)) := by
    unfold btreeInsert ascendingIndex
    rw [insertRecursive]
    simp only [hkeys, hpos, hlen, Nat.lt_irrefl, false_and, if_false, hgrown]
    rw [if_neg hnosplit]
    simp only [Bool.false_eq_true, if_false, Nat.mod_add_mod]
  rw [btreeStepChecked, btreeInsertChecked]
  change ((insertAccesses order allocOk n ⟨0, 0⟩ 1 (ascendingIndex order n).root).map _).map _ = _
  rw [haccess]
  simp only [Except.map, hinsert]

/-- These many insertions. -/
theorem ascendingInserts_run : ∀ {n : Nat}, n ≤ 2 ^ 30 + 1 → n + 1 < order →
    tryOps (btreeStepChecked allocOk) (btreeCreate order) (ascendingInserts n) =
      .ok (List.replicate n (0, none), ascendingIndex order n)
  | 0, _, _ => rfl
  | n + 1, hsmall, hroom => by
    have hrun := ascendingInserts_run (show n ≤ 2 ^ 30 + 1 by omega) (show n + 1 < order by omega)
    have hmore : ascendingInserts (n + 1) = ascendingInserts n ++ [.insert n ⟨0, 0⟩] := by
      rw [ascendingInserts, List.range_succ, List.map_append]
      rfl
    rw [hmore, tryOps_concat hrun, insert_ascending (by omega) (by omega), List.replicate_succ']
    rfl

/-- **The search among `2 ^ 30 + 1` keys** leaves the array. -/
theorem delete_ascending_fails (hn : n = 2 ^ 30 + 1) (t : BTree) (horder : t.order = order)
    (hroot : t.root = (ascendingIndex order n).root) : ∃ e, btreeStepChecked allocOk t (.delete n) = .error e := by
  have hlen : (List.range n).length = n := List.length_range
  obtain ⟨e, he⟩ : ∃ e, keyLowerBoundChecked order (List.range n) n = .error e :=
    lowerBoundLoopChecked_overflow (fun k hk => List.mem_range.mp hk) (by omega) (by omega) (by omega) (by omega)
  refine ⟨e, ?_⟩
  rw [btreeStepChecked, btreeDeleteChecked, findPosChecked, hroot, ascendingIndex, findLeafChecked]
  simp only [Except.bind]
  rw [ascending_keys, keyFindExactChecked, horder, he]
  rfl

theorem overflowRun_fails (hn : n = 2 ^ 30 + 1) (ho : n + 1 < order) :
    ∃ e, tryOps (btreeStepChecked allocOk) (btreeCreate order) (overflowRun n) = .error e := by
  obtain ⟨e, he⟩ := @delete_ascending_fails order n hn (ascendingIndex order n) rfl rfl
  refine ⟨e, ?_⟩
  rw [overflowRun, tryOps_concat (ascendingInserts_run (by omega) ho), he]
  rfl

theorem ascendingInserts_fits (hn : n = 2 ^ 30 + 1) : ∀ op ∈ ascendingInserts n, op.Fits := by
  intro op hop
  obtain ⟨k, hk, rfl⟩ := List.mem_map.mp hop
  have hlt := List.mem_range.mp hk
  exact ⟨by omega, by decide, by decide⟩

theorem overflowRun_fits (hn : n = 2 ^ 30 + 1) : ∀ op ∈ overflowRun n, op.Fits := by
  intro op hop
  rw [overflowRun, List.mem_append, List.mem_singleton] at hop
  rcases hop with hop | rfl
  · exact ascendingInserts_fits hn op hop
  · show n < 2 ^ 32
    omega

end Overflow

/-! ## The refinement -/

/-- **A run of calls on a new tree** answers like the finite map, every access inside its array; `btree_size`
counts the keys modulo `2 ^ 32`, the tree is well shaped, and a further insertion never puts more than
`order - 1` keys into a node, even in passing. -/
def RefinesMap (order : Nat) (ops : List BtOp) : Prop :=
  ∃ outs t, tryOps (btreeStepChecked allocOk) (btreeCreate order) ops = .ok (outs, t) ∧
    outs = (runOps mapStep ∅ ops).1 ∧
    btreeSize t = (runOps mapStep ∅ ops).2.keys.card % 2 ^ 32 ∧
    t.order = order ∧ WellShaped t ∧
    ∀ key value, btreeInsertPeak allocOk t key value ≤ order - 1

/-- **The B+ tree refines a finite map**, whatever calls are made, for just the orders up to `2 ^ 30 + 2`: with a
greater one a leaf can get so many keys that `lo + hi` overflows in `key_lower_bound`. -/
theorem btree_refines_map_iff {order : Nat} (ho : 3 ≤ order) :
    (∀ ops, (∀ op ∈ ops, op.Fits) → RefinesMap order ops) ↔ order ≤ 2 ^ 30 + 2 := by
  constructor
  · intro hall
    by_contra hlarge
    obtain ⟨n, hn⟩ : ∃ n, n = 2 ^ 30 + 1 := ⟨_, rfl⟩
    obtain ⟨outs, t, hrun, -⟩ := hall (overflowRun n) (overflowRun_fits hn)
    obtain ⟨e, he⟩ := @overflowRun_fails order n hn (by omega)
    rw [he] at hrun
    cases hrun
  · intro hsmall ops _
    have hcreate := btreeCreate_inv hsmall
    obtain ⟨hout, hinv⟩ := btreeRun_refines ho ops hcreate
    refine ⟨_, _, hcreate.runChecked ho ops, hout, ?_, hinv.order_eq, hinv.wellShaped, btreeInsertPeak_le ho hinv⟩
    rw [btreeSize, hinv.size_eq, hinv.represents.card hinv.sorted]

/-- Order 3, the smallest: three insertions split a leaf and then the root. -/
theorem btree_refines_map_three :
    RefinesMap 3 [.insert 5 ⟨0, 0⟩, .insert 7 ⟨0, 1⟩, .insert 6 ⟨0, 2⟩, .insert 5 ⟨1, 0⟩, .delete 7,
      .search 6] :=
  (btree_refines_map_iff (Nat.le_refl 3)).mpr (by decide) _
    (by simp [BtOp.Fits, RecordPtr.Storable])

/-- A leaf of order `2 ^ 30 + 3` with `2 ^ 30 + 1` keys. -/
theorem overflowing_leaf : (∀ op ∈ overflowRun (2 ^ 30 + 1), op.Fits) ∧
    ¬ RefinesMap (2 ^ 30 + 3) (overflowRun (2 ^ 30 + 1)) := by
  refine ⟨overflowRun_fits rfl, ?_⟩
  rintro ⟨outs, t, hrun, -⟩
  obtain ⟨e, he⟩ := @overflowRun_fails (2 ^ 30 + 3) (2 ^ 30 + 1) rfl (by decide)
  rw [he] at hrun
  cases hrun

end Ticketing
