import Ticketing.Common.Types

/-!
# B+ tree index (`server/storage/btree.c`)

An in-memory B+ tree from `uint32_t` keys to record pointers.  A leaf keeps the address it was
allocated at and its `next` pointer, so the leaf chain of the C structure is part of the model;
an inner node owns its children.

* `keyLowerBound`, `keyFindExact`, `childIndex` — the binary searches.
* `splitLeaf`, `splitInternal`, `insertRecursive`, `btreeInsert` — insertion.  A leaf split copies
  the separator up, an inner split moves it up, and the position of a promoted key is searched for
  again.  `alloc n` says whether the `n`-th `node_create` of the call succeeds; a failed split
  leaves the node over-full, a failed root allocation loses the right half, as in the source.
* `findLeaf`, `btreeSearch`, `btreeDelete`, `btreeUpdate` — the remaining operations; deletion is
  lazy, separators stay behind.
* `InsertResult.peak` — the largest `num_keys` a touched node reaches before it is split.
-/

set_option autoImplicit false

namespace Ticketing

/-- `record_ptr_t`. -/
structure RecordPtr where
  pageId : Nat
  slotId : Nat
  deriving DecidableEq, Repr

/-- The pointer fits its fields. -/
def RecordPtr.Storable (v : RecordPtr) : Prop := v.pageId < 2 ^ 32 ∧ v.slotId < 2 ^ 16

/-- The key/value arrays of a leaf, its address and its `next` pointer. -/
structure BLeaf where
  addr : Nat
  entries : List (Nat × RecordPtr)
  next : Option Nat
  deriving DecidableEq, Repr

/-- `keys[0 .. num_keys - 1]`. -/
def BLeaf.keys (l : BLeaf) : List Nat := l.entries.map Prod.fst

/-- `btree_node_t`. -/
inductive BNode where
  | leaf (l : BLeaf)
  | inner (keys : List Nat) (children : List BNode)

/-- `btree_t`; `nextAddr` is the address the next `node_create` of a leaf will return. -/
structure BTree where
  root : BNode
  order : Nat
  size : Nat
  dirty : Bool
  nextAddr : Nat

/-! ## Searching in one node -/

/-- `(lo + hi) / 2` of two `int`s.  From `2 ^ 31` on the sum overflows: it wraps around to a negative number, and
division rounds towards zero. -/
def intMid (lo hi : Nat) : Int :=
  if lo + hi < 2 ^ 31 then ((lo + hi) / 2 : Nat) else -((2 ^ 32 - (lo + hi)) / 2 : Nat)

/-- The loop of `key_lower_bound`; the fuel bounds `hi - lo`.  `none` if it looks at `keys[mid]` for a negative
`mid`. -/
def lowerBoundLoop (keys : List Nat) (target : Nat) : Nat → Nat → Nat → Option Nat
  | 0, lo, _ => some lo
  | fuel + 1, lo, hi =>
    if lo < hi then
      match intMid lo hi with
      | .ofNat mid =>
        if keys.getD mid 0 < target then lowerBoundLoop keys target fuel (mid + 1) hi
        else lowerBoundLoop keys target fuel lo mid
      | .negSucc _ => none
    else some lo

/-- `key_lower_bound`: index of the first key `≥ target`.  In a node with more than `2 ^ 30` keys it may leave the
array; then this is no result of the code, and the functions that do each access after a look at the array
(`keyLowerBoundChecked` and what is built on it) say so. -/
def keyLowerBound (keys : List Nat) (target : Nat) : Nat :=
  (lowerBoundLoop keys target keys.length 0 keys.length).getD 0

/-- `key_find_exact`; `none` is `-1`. -/
def keyFindExact (keys : List Nat) (key : Nat) : Option Nat :=
  let pos := keyLowerBound keys key
  if pos < keys.length ∧ keys.getD pos 0 = key then some pos else none

/-- The child to descend to: the lower bound, one further on an exact match. -/
def childIndex (keys : List Nat) (key : Nat) : Nat :=
  let i := keyLowerBound keys key
  if i < keys.length ∧ keys.getD i 0 = key then i + 1 else i

/-- Shift right from `pos` on and store `x` there. -/
def insertAt {α : Type} (pos : Nat) (x : α) (xs : List α) : List α :=
  xs.take pos ++ x :: xs.drop pos

/-! ## Insertion -/

/-- What `insert_recursive` leaves behind. -/
structure InsertResult where
  /-- The node after the call. -/
  node : BNode
  /-- The promoted key and the new right half, if the node was split. -/
  split : Option (Nat × BNode)
  /-- The `*error` flag: duplicate key. -/
  error : Bool
  /-- Number of `node_create` calls so far. -/
  creates : Nat
  nextAddr : Nat
  peak : Nat

/-- `split_leaf`. -/
def splitLeaf (alloc : Nat → Bool) (nextAddr : Nat) (leaf : BLeaf) : InsertResult :=
  let total := leaf.entries.length
  let mid := total / 2
  if alloc 0 then
    { node := .leaf { leaf with entries := leaf.entries.take mid, next := some nextAddr }
      split := some (leaf.keys.getD mid 0, .leaf ⟨nextAddr, leaf.entries.drop mid, leaf.next⟩)
      error := false, creates := 1, nextAddr := nextAddr + 1, peak := total }
  else
    { node := .leaf leaf, split := none, error := false, creates := 1, nextAddr := nextAddr,
      peak := total }

/-- `split_internal`, as the `creates`-th `node_create` of the call. -/
def splitInternal (alloc : Nat → Bool) (creates nextAddr peak : Nat) (keys : List Nat)
    (children : List BNode) : InsertResult :=
  let total := keys.length
  let mid := total / 2
  if alloc creates then
    { node := .inner (keys.take mid) (children.take (mid + 1))
      split := some (keys.getD mid 0, .inner (keys.drop (mid + 1)) (children.drop (mid + 1)))
      error := false, creates := creates + 1, nextAddr := nextAddr, peak := max peak total }
  else
    { node := .inner keys children, split := none, error := false, creates := creates + 1,
      nextAddr := nextAddr, peak := max peak total }

mutual

/-- `insert_recursive`. -/
def insertRecursive (order : Nat) (alloc : Nat → Bool) (key : Nat) (value : RecordPtr)
    (nextAddr : Nat) : BNode → InsertResult
  | .leaf l =>
    let pos := keyLowerBound l.keys key
    if pos < l.keys.length ∧ l.keys.getD pos 0 = key then
      { node := .leaf l, split := none, error := true, creates := 0, nextAddr := nextAddr,
        peak := l.keys.length }
    else
      let l' := { l with entries := insertAt pos (key, value) l.entries }
      if l'.entries.length ≥ order - 1 then splitLeaf alloc nextAddr l'
      else
        { node := .leaf l', split := none, error := false, creates := 0, nextAddr := nextAddr,
          peak := l'.entries.length }
  | .inner ks cs =>
    let i := childIndex ks key
    let r := insertChild order alloc key value nextAddr i cs
    let cs' := cs.set i r.node
    match r.error, r.split with
    | false, some (promoted, newNode) =>
      let pos := keyLowerBound ks promoted
      let ks2 := insertAt pos promoted ks
      let cs2 := insertAt (pos + 1) newNode cs'
      if ks2.length ≥ order - 1 then splitInternal alloc r.creates r.nextAddr r.peak ks2 cs2
      else
        { node := .inner ks2 cs2, split := none, error := false, creates := r.creates,
          nextAddr := r.nextAddr, peak := max r.peak ks2.length }
    | _, _ => { r with node := .inner ks cs', split := none }

/-- The recursive call on `children[i]`. -/
def insertChild (order : Nat) (alloc : Nat → Bool) (key : Nat) (value : RecordPtr)
    (nextAddr : Nat) : Nat → List BNode → InsertResult
  | _, [] =>
    { node := .inner [] [], split := none, error := true, creates := 0, nextAddr := nextAddr,
      peak := 0 }
  | 0, c :: _ => insertRecursive order alloc key value nextAddr c
  | i + 1, _ :: cs => insertChild order alloc key value nextAddr i cs

end

/-- `btree_create`: an empty leaf as root. -/
def btreeCreate (order : Nat) : BTree := ⟨.leaf ⟨0, [], none⟩, order, 0, true, 1⟩

/-- `btree_insert`. -/
def btreeInsert (alloc : Nat → Bool) (t : BTree) (key : Nat) (value : RecordPtr) : Int × BTree :=
  let r := insertRecursive t.order alloc key value t.nextAddr t.root
  if r.error then (-1, { t with root := r.node })
  else
    match r.split with
    | none =>
      (0, { t with root := r.node, size := (t.size + 1) % 2 ^ 32, dirty := true,
                   nextAddr := r.nextAddr })
    | some (promoted, newNode) =>
      if alloc r.creates then
        (0, { t with root := .inner [promoted] [r.node, newNode], size := (t.size + 1) % 2 ^ 32,
                     dirty := true, nextAddr := r.nextAddr })
      else (-1, { t with root := r.node, nextAddr := r.nextAddr })

/-- The largest `num_keys` of any node during `btree_insert`. -/
def btreeInsertPeak (alloc : Nat → Bool) (t : BTree) (key : Nat) (value : RecordPtr) : Nat :=
  let r := insertRecursive t.order alloc key value t.nextAddr t.root
  if r.split.isSome then max r.peak 1 else r.peak

/-! ## Search, lazy deletion, update -/

mutual

/-- `find_leaf`. -/
def findLeaf (key : Nat) : BNode → Option BLeaf
  | .leaf l => some l
  | .inner ks cs => findLeafChild key (childIndex ks key) cs

/-- `find_leaf` continued at `children[i]`. -/
def findLeafChild (key : Nat) : Nat → List BNode → Option BLeaf
  | _, [] => none
  | 0, c :: _ => findLeaf key c
  | i + 1, _ :: cs => findLeafChild key i cs

end

mutual

/-- A write through the pointer that `find_leaf` returned. -/
def modifyLeaf (key : Nat) (f : List (Nat × RecordPtr) → List (Nat × RecordPtr)) : BNode → BNode
  | .leaf l => .leaf { l with entries := f l.entries }
  | .inner ks cs => .inner ks (modifyLeafChild key f (childIndex ks key) cs)

/-- The same at `children[i]`. -/
def modifyLeafChild (key : Nat) (f : List (Nat × RecordPtr) → List (Nat × RecordPtr)) :
    Nat → List BNode → List BNode
  | _, [] => []
  | 0, c :: cs => modifyLeaf key f c :: cs
  | i + 1, c :: cs => c :: modifyLeafChild key f i cs

end

/-- The position of `key` in the leaf `find_leaf` leads to. -/
def findPos (t : BTree) (key : Nat) : Option (BLeaf × Nat) :=
  match findLeaf key t.root with
  | none => none
  | some leaf => (keyFindExact leaf.keys key).map (fun pos => (leaf, pos))

/-- `btree_search`: the return value and `*out`. -/
def btreeSearch (t : BTree) (key : Nat) : Int × Option RecordPtr :=
  match findPos t key with
  | none => (-1, none)
  | some (leaf, pos) => (0, leaf.entries[pos]?.map Prod.snd)

/-- `btree_delete`: lazy, nothing is merged. -/
def btreeDelete (t : BTree) (key : Nat) : Int × BTree :=
  match findPos t key with
  | none => (-1, t)
  | some (_, pos) =>
    (0, { t with root := modifyLeaf key (fun es => es.eraseIdx pos) t.root,
                 size := (t.size + (2 ^ 32 - 1)) % 2 ^ 32, dirty := true })

/-- `btree_update`. -/
def btreeUpdate (t : BTree) (key : Nat) (newValue : RecordPtr) : Int × BTree :=
  match findPos t key with
  | none => (-1, t)
  | some (_, pos) =>
    (0, { t with root := modifyLeaf key (fun es => es.modify pos (fun e => (e.1, newValue))) t.root,
                 dirty := true })

/-- `btree_size`. -/
def btreeSize (t : BTree) : Nat := t.size

/-! ## Views of a tree -/

mutual

/-- A node and all nodes below it, in pre-order. -/
def BNode.subnodes : BNode → List BNode
  | .leaf l => [.leaf l]
  | .inner ks cs => .inner ks cs :: BNode.subnodesList cs

/-- The nodes of a list of subtrees. -/
def BNode.subnodesList : List BNode → List BNode
  | [] => []
  | c :: cs => c.subnodes ++ BNode.subnodesList cs

end

mutual

/-- The leaves, from left to right. -/
def BNode.leaves : BNode → List BLeaf
  | .leaf l => [l]
  | .inner _ cs => BNode.leavesList cs

/-- The leaves of a list of subtrees. -/
def BNode.leavesList : List BNode → List BLeaf
  | [] => []
  | c :: cs => c.leaves ++ BNode.leavesList cs

end

/-- The keys stored in one node. -/
def BNode.keys : BNode → List Nat
  | .leaf l => l.keys
  | .inner ks _ => ks

/-- The bindings of a tree, in leaf order. -/
def BNode.bindings (n : BNode) : List (Nat × RecordPtr) := n.leaves.flatMap BLeaf.entries

end Ticketing
