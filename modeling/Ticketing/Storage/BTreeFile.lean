import Ticketing.Storage.BTreeAccess
import Ticketing.Lib.Bytes

/-!
# The index file (`btree_save`, `btree_open`)

The tree is written in pre-order: for each node whether it is a leaf, the number of keys, the keys,
and then the record pointers of a leaf or the children of an inner node.  Reading it back allocates
every leaf anew and links the leaves from left to right.

* `writeNode`, `btreeSave` — writing; the calls of `fwrite` succeed.
* `readNode`, `linkLeaves`, `btreeOpen` — reading.
* `BNode.shape` — a tree up to where its leaves are: what `readNode` and `linkLeaves` keep.
* `btreeOpen_btreeSave` — what is read is a tree of the same shape for the same map, which would be
  written alike.
* `index_file_roundtrip_iff` — the orders for which this is so of every tree that the calls lead to.
-/

set_option autoImplicit false

namespace Ticketing

open Bytes

/-- `BTREE_MAGIC`. -/
def BTREE_MAGIC : Nat := 0x42505400

/-! ## Writing -/

/-- A `record_ptr_t` as it lies in memory, padded to 8 bytes. -/
def RecordPtr.encode (v : RecordPtr) : Bytes := toLE 4 v.pageId ++ (toLE 2 v.slotId ++ [0, 0])

mutual

/-- `write_node`. -/
def writeNode : BNode → Bytes
  | .leaf l =>
    toLE 4 1 ++ (toLE 4 l.keys.length ++ (l.keys.flatMap (toLE 4) ++
      l.entries.flatMap (fun e => e.2.encode)))
  | .inner ks cs => toLE 4 0 ++ (toLE 4 ks.length ++ (ks.flatMap (toLE 4) ++ writeChildren cs))

/-- `write_node` of the children of an inner node. -/
def writeChildren : List BNode → Bytes
  | [] => []
  | c :: cs => writeNode c ++ writeChildren cs

end

/-- The file that `btree_save` writes. -/
def btreeFile (t : BTree) : Bytes :=
  toLE 4 BTREE_MAGIC ++ (toLE 4 t.order ++ (toLE 4 t.size ++ (toLE 4 1 ++ writeNode t.root)))

/-- `btree_save`: the tree and the index file. -/
def btreeSave (t : BTree) : BTree × Bytes := ({ t with dirty := false }, btreeFile t)

/-! ## Reading -/

/-- `fread` of `n` bytes. -/
def fread (n : Nat) (b : Bytes) : Option (Bytes × Bytes) :=
  if b.length < n then none else some (b.take n, b.drop n)

/-- `fread` of a `uint32_t`. -/
def freadU32 (b : Bytes) : Option (Nat × Bytes) := (fread 4 b).map fun r => (ofLE r.1, r.2)

/-- The array of `n` items of `w` bytes each. -/
def chunks {α : Type} (w : Nat) (f : Bytes → α) : Nat → Bytes → List α
  | 0, _ => []
  | n + 1, b => f (b.take w) :: chunks w f n (b.drop w)

/-- The `record_ptr_t` of 8 bytes. -/
def RecordPtr.decode (b : Bytes) : RecordPtr := ⟨ofLE (slice 0 4 b), ofLE (slice 4 2 b)⟩

/-- `n` nodes in a row; `addr` is the address of the next leaf. -/
def readChildren (read : Nat → Bytes → Option (BNode × Nat × Bytes)) :
    Nat → Nat → Bytes → Option (List BNode × Nat × Bytes)
  | 0, addr, b => some ([], addr, b)
  | n + 1, addr, b =>
    (read addr b).bind fun r =>
      (readChildren read n r.2.1 r.2.2).map fun r' => (r.1 :: r'.1, r'.2)

/-- `read_node`; the fuel bounds the depth. -/
def readNode : Nat → Nat → Bytes → Option (BNode × Nat × Bytes)
  | 0, _, _ => none
  | fuel + 1, addr, b =>
    (freadU32 b).bind fun isLeaf =>
    (freadU32 isLeaf.2).bind fun numKeys =>
    (fread (4 * numKeys.1) numKeys.2).bind fun keys =>
      let ks := chunks 4 ofLE numKeys.1 keys.1
      if isLeaf.1 ≠ 0 then
        (fread (8 * numKeys.1) keys.2).map fun values =>
          (.leaf ⟨addr, ks.zip (chunks 8 RecordPtr.decode numKeys.1 values.1), none⟩, addr + 1,
            values.2)
      else
        (readChildren (readNode fuel) (numKeys.1 + 1) addr keys.2).map fun r =>
          (.inner ks r.1, r.2)

/-- The address of the first leaf, if there is one. -/
def firstAddr (ls : List BLeaf) (after : Option Nat) : Option Nat :=
  (ls.head?.map BLeaf.addr).or after

mutual

/-- `link_leaves`: every leaf points to the next one, the last one to `after`. -/
def linkLeaves : BNode → Option Nat → BNode
  | .leaf l, after => .leaf { l with next := after }
  | .inner ks cs, after => .inner ks (linkLeavesList cs after)

/-- `link_leaves` of the children of an inner node. -/
def linkLeavesList : List BNode → Option Nat → List BNode
  | [], _ => []
  | c :: cs, after => linkLeaves c (firstAddr (BNode.leavesList cs) after) :: linkLeavesList cs after

end

/-- `btree_open`. -/
def btreeOpen (file : Bytes) : Option BTree :=
  (freadU32 file).bind fun magic =>
  (freadU32 magic.2).bind fun order =>
  (freadU32 order.2).bind fun size =>
  (freadU32 size.2).bind fun hasRoot =>
    if magic.1 ≠ BTREE_MAGIC then none
    else if hasRoot.1 ≠ 0 then
      (readNode file.length 0 hasRoot.2).map fun r =>
        ⟨linkLeaves r.1 none, order.1, size.1, false, r.2.1⟩
    else some ⟨.leaf ⟨0, [], none⟩, order.1, size.1, false, 1⟩

/-! ## Reading what was written -/

theorem RecordPtr.length_encode (v : RecordPtr) : v.encode.length = 8 := by
  simp [RecordPtr.encode]

theorem RecordPtr.decode_encode {v : RecordPtr} (h : v.Storable) : RecordPtr.decode v.encode = v := by
  obtain ⟨hpage, hslot⟩ := h
  have h1 : slice 0 4 v.encode = toLE 4 v.pageId := by simp [slice, RecordPtr.encode, toLE]
  have h2 : slice 4 2 v.encode = toLE 2 v.slotId := by simp [slice, RecordPtr.encode, toLE]
  rw [RecordPtr.decode, h1, h2, ofLE_toLE_of_lt (by omega), ofLE_toLE_of_lt (by omega)]

theorem fread_append {n : Nat} {x : Bytes} (hx : x.length = n) (rest : Bytes) :
    fread n (x ++ rest) = some (x, rest) := by
  subst hx
  rw [fread, if_neg (by rw [List.length_append]; omega), List.take_left, List.drop_left]

theorem freadU32_append {v : Nat} (hv : v < 2 ^ 32) (rest : Bytes) :
    freadU32 (toLE 4 v ++ rest) = some (v, rest) := by
  rw [freadU32, fread_append (length_toLE 4 v), Option.map_some, ofLE_toLE_of_lt (by omega)]

theorem length_flatMap_const {α : Type} {w : Nat} {g : α → Bytes} (hg : ∀ x, (g x).length = w)
    (xs : List α) : (xs.flatMap g).length = w * xs.length := by
  induction xs with
  | nil => rfl
  | cons x xs ih => rw [List.flatMap_cons, List.length_append, hg, ih, List.length_cons]; ring

theorem chunks_flatMap {α β : Type} {w : Nat} {g : α → Bytes} {f : Bytes → β}
    (hg : ∀ x, (g x).length = w) (xs : List α) :
    chunks w f xs.length (xs.flatMap g) = xs.map fun x => f (g x) := by
  induction xs with
  | nil => rfl
  | cons x xs ih =>
    rw [List.length_cons, chunks, List.flatMap_cons, List.take_left' (hg x), List.drop_left' (hg x), ih]
    rfl

/-! ## Shapes -/

mutual

/-- A node without the addresses: nodes, keys and values, but no pointers. -/
def BNode.shape : BNode → BNode
  | .leaf l => .leaf ⟨0, l.entries, none⟩
  | .inner ks cs => .inner ks (BNode.shapeList cs)

/-- The shapes of a list of subtrees. -/
def BNode.shapeList : List BNode → List BNode
  | [] => []
  | c :: cs => c.shape :: BNode.shapeList cs

end

mutual

theorem writeNode_shape : ∀ n : BNode, writeNode n.shape = writeNode n
  | .leaf _ => rfl
  | .inner ks cs => by simp only [BNode.shape, writeNode, writeChildren_shape cs]

theorem writeChildren_shape : ∀ cs : List BNode, writeChildren (BNode.shapeList cs) = writeChildren cs
  | [] => rfl
  | c :: cs => by
    simp only [BNode.shapeList, writeChildren, writeNode_shape c, writeChildren_shape cs]

end

mutual

theorem entries_shape : ∀ n : BNode,
    n.shape.leaves.map BLeaf.entries = n.leaves.map BLeaf.entries
  | .leaf _ => rfl
  | .inner _ cs => entries_shapeList cs

theorem entries_shapeList : ∀ cs : List BNode,
    (BNode.leavesList (BNode.shapeList cs)).map BLeaf.entries =
      (BNode.leavesList cs).map BLeaf.entries
  | [] => rfl
  | c :: cs => by
    simp only [BNode.shapeList, BNode.leavesList, List.map_append, entries_shape c,
      entries_shapeList cs]

end

theorem Children.shapeList {P : Option Nat → Option Nat → BNode → Prop}
    (hP : ∀ lo hi n, P lo hi n.shape ↔ P lo hi n) : ∀ {ks : List Nat} {lo hi : Option Nat}
    {cs : List BNode}, Children P lo hi ks (BNode.shapeList cs) ↔ Children P lo hi ks cs
  | [], _, _, [] => Iff.rfl
  | [], lo, hi, [c] => hP lo hi c
  | [], _, _, _ :: _ :: _ => Iff.rfl
  | _ :: _, _, _, [] => Iff.rfl
  | k :: _, lo, _, c :: _ =>
    and_congr (hP lo (some k) c) (and_congr Iff.rfl (Children.shapeList hP))

theorem ordered_shape {order : Nat} : ∀ {h : Nat} (lo hi : Option Nat) (n : BNode),
    Ordered order h lo hi n.shape ↔ Ordered order h lo hi n
  | 0, _, _, .leaf _ => Iff.rfl
  | 0, _, _, .inner _ _ => Iff.rfl
  | _ + 1, _, _, .leaf _ => Iff.rfl
  | _ + 1, _, _, .inner _ _ => and_congr (Children.shapeList ordered_shape) Iff.rfl

section Shape

variable {n n' : BNode} (h : n'.shape = n.shape)
include h

theorem writeNode_of_shape : writeNode n' = writeNode n := by
  rw [← writeNode_shape n', h, writeNode_shape]

theorem bindings_of_shape : n'.bindings = n.bindings := by
  have hentries : n'.leaves.map BLeaf.entries = n.leaves.map BLeaf.entries := by
    rw [← entries_shape n', h, entries_shape]
  rw [BNode.bindings, BNode.bindings, List.flatMap_def, List.flatMap_def, hentries]

theorem Ordered.of_shape {order height : Nat} {lo hi : Option Nat} (hn : Ordered order height lo hi n) :
    Ordered order height lo hi n' :=
  (ordered_shape lo hi n').mp (h ▸ (ordered_shape lo hi n).mpr hn)

end Shape

/-! ## Nodes -/

mutual

/-- The numbers of a node fit their fields in the file, and an inner node has one child more than
keys. -/
def BNode.Writable : BNode → Prop
  | .leaf l =>
    l.keys.length < 2 ^ 32 ∧ (∀ k ∈ l.keys, k < 2 ^ 32) ∧ ∀ e ∈ l.entries, e.2.Storable
  | .inner ks cs =>
    ks.length < 2 ^ 32 ∧ (∀ k ∈ ks, k < 2 ^ 32) ∧ cs.length = ks.length + 1 ∧ BNode.WritableList cs

/-- The same of a list of subtrees. -/
def BNode.WritableList : List BNode → Prop
  | [] => True
  | c :: cs => c.Writable ∧ BNode.WritableList cs

end

theorem chunks_keys {ks : List Nat} (h : ∀ k ∈ ks, k < 2 ^ 32) :
    chunks 4 ofLE ks.length (ks.flatMap (toLE 4)) = ks := by
  rw [chunks_flatMap (length_toLE 4)]
  refine (List.map_congr_left fun k hk => ?_).trans (List.map_id _)
  exact ofLE_toLE_of_lt (by have := h k hk; omega)

/-- A leaf is read as it was written. -/
theorem readNode_leaf {l : BLeaf} (h : (BNode.leaf l).Writable) (fuel addr : Nat) (rest : Bytes) :
    readNode (fuel + 1) addr (writeNode (.leaf l) ++ rest) =
      some (.leaf ⟨addr, l.entries, none⟩, addr + 1, rest) := by
  obtain ⟨hlen, hkeys, hvals⟩ := h
  have hcount : l.keys.length = l.entries.length := List.length_map _
  have hvs : chunks 8 RecordPtr.decode l.keys.length (l.entries.flatMap fun e => e.2.encode) =
      l.entries.map Prod.snd := by
    rw [hcount, chunks_flatMap fun e => e.2.length_encode]
    exact List.map_congr_left fun e he => RecordPtr.decode_encode (hvals e he)
  have hzip : l.keys.zip (l.entries.map Prod.snd) = l.entries :=
    (List.zip_of_prod rfl rfl).symm
  simp only [writeNode, List.append_assoc, readNode]
  rw [freadU32_append (by decide), Option.bind_some, freadU32_append hlen, Option.bind_some,
    fread_append (length_flatMap_const (length_toLE 4) _), Option.bind_some, if_pos Nat.one_ne_zero]
  dsimp only
  rw [fread_append (by rw [length_flatMap_const fun e => e.2.length_encode, hcount]),
    Option.map_some, chunks_keys hkeys, hvs, hzip]

mutual

/-- **`read_node` undoes `write_node`**, up to where the leaves are. -/
theorem readNode_writeNode : ∀ n : BNode, n.Writable → ∀ (fuel addr : Nat) (rest : Bytes),
    (writeNode n).length ≤ fuel →
    ∃ n', readNode fuel addr (writeNode n ++ rest) = some (n', addr + n.leaves.length, rest) ∧
      n'.shape = n.shape ∧ n'.leaves.map BLeaf.addr = List.range' addr n.leaves.length
  | .leaf l, h, fuel, addr, rest, hfuel => by
    match fuel, hfuel with
    | fuel + 1, _ => exact ⟨_, readNode_leaf h fuel addr rest, rfl, rfl⟩
  | .inner ks cs, ⟨hlen, hkeys, hcs, hw⟩, fuel, addr, rest, hfuel => by
    match fuel, hfuel with
    | fuel + 1, hfuel =>
      have hroom : (writeChildren cs).length ≤ fuel := by
        simp only [writeNode, List.length_append, length_toLE] at hfuel
        omega
      obtain ⟨cs', hreads, hshape, haddrs⟩ := readChildren_writeChildren cs hw fuel addr rest hroom
      rw [hcs] at hreads
      refine ⟨.inner ks cs', ?_, by simp only [BNode.shape, hshape], haddrs⟩
      simp only [writeNode, List.append_assoc, readNode]
      rw [freadU32_append (by decide), Option.bind_some, freadU32_append hlen,
        Option.bind_some, fread_append (length_flatMap_const (length_toLE 4) _), Option.bind_some,
        if_neg (not_not.mpr rfl)]
      dsimp only
      rw [hreads, Option.map_some, chunks_keys hkeys]
      rfl

theorem readChildren_writeChildren : ∀ cs : List BNode, BNode.WritableList cs →
    ∀ (fuel addr : Nat) (rest : Bytes), (writeChildren cs).length ≤ fuel →
    ∃ cs', readChildren (readNode fuel) cs.length addr (writeChildren cs ++ rest) =
        some (cs', addr + (BNode.leavesList cs).length, rest) ∧
      BNode.shapeList cs' = BNode.shapeList cs ∧
      (BNode.leavesList cs').map BLeaf.addr = List.range' addr (BNode.leavesList cs).length
  | [], _, _, _, _, _ => ⟨[], rfl, rfl, rfl⟩
  | c :: cs, ⟨hc, hcs⟩, fuel, addr, rest, hfuel => by
    simp only [writeChildren, List.length_append] at hfuel
    obtain ⟨c', hread, hshape, haddrs⟩ :=
      readNode_writeNode c hc fuel addr (writeChildren cs ++ rest) (by omega)
    obtain ⟨cs', hreads, hshapes, haddrs'⟩ :=
      readChildren_writeChildren cs hcs fuel (addr + c.leaves.length) rest (by omega)
    refine ⟨c' :: cs', ?_, by simp only [BNode.shapeList, hshape, hshapes], ?_⟩
    · simp only [writeChildren, List.append_assoc, List.length_cons, BNode.leavesList]
      rw [readChildren, hread, Option.bind_some, hreads, Option.map_some, List.length_append,
        Nat.add_assoc]
    · simp only [BNode.leavesList, List.map_append, List.length_append, haddrs, haddrs']
      rw [List.range'_append_1]

end

/-! ## Linking the leaves -/

/-- Every leaf points to the next one, the last one to `after`. -/
def relink : List BLeaf → Option Nat → List BLeaf
  | [], _ => []
  | l :: ls, after => { l with next := firstAddr ls after } :: relink ls after

theorem firstAddr_append (ls ms : List BLeaf) (after : Option Nat) :
    firstAddr (ls ++ ms) after = firstAddr ls (firstAddr ms after) := by
  cases ls with
  | nil => rfl
  | cons l ls => rfl

theorem relink_append (ls ms : List BLeaf) (after : Option Nat) :
    relink (ls ++ ms) after = relink ls (firstAddr ms after) ++ relink ms after := by
  induction ls with
  | nil => rfl
  | cons l ls ih => simp only [List.cons_append, relink, firstAddr_append, ih]

theorem relink_addrs (ls : List BLeaf) (after : Option Nat) :
    (relink ls after).map BLeaf.addr = ls.map BLeaf.addr := by
  induction ls with
  | nil => rfl
  | cons l ls ih => simp only [relink, List.map_cons, ih]

theorem linked_relink (ls : List BLeaf) : Linked (firstAddr ls none) (relink ls none) := by
  induction ls with
  | nil => rfl
  | cons l ls ih => exact ⟨rfl, ih⟩

mutual

theorem linkLeaves_shape : ∀ (n : BNode) (after : Option Nat), (linkLeaves n after).shape = n.shape
  | .leaf _, _ => rfl
  | .inner _ cs, after => by simp only [linkLeaves, BNode.shape, linkLeavesList_shape cs after]

theorem linkLeavesList_shape : ∀ (cs : List BNode) (after : Option Nat),
    BNode.shapeList (linkLeavesList cs after) = BNode.shapeList cs
  | [], _ => rfl
  | c :: cs, after => by
    simp only [linkLeavesList, BNode.shapeList, linkLeaves_shape c, linkLeavesList_shape cs]

end

mutual

theorem linkLeaves_leaves : ∀ (n : BNode) (after : Option Nat),
    (linkLeaves n after).leaves = relink n.leaves after
  | .leaf _, _ => rfl
  | .inner _ cs, after => linkLeavesList_leaves cs after

theorem linkLeavesList_leaves : ∀ (cs : List BNode) (after : Option Nat),
    BNode.leavesList (linkLeavesList cs after) = relink (BNode.leavesList cs) after
  | [], _ => rfl
  | c :: cs, after => by
    simp only [linkLeavesList, BNode.leavesList, linkLeaves_leaves c, linkLeavesList_leaves cs,
      relink_append]

end

/-! ## The whole file -/

/-- The fields of the header and of every node fit their places in the file. -/
structure BTree.Writable (t : BTree) : Prop where
  order : t.order < 2 ^ 32
  size : t.size < 2 ^ 32
  root : t.root.Writable

/-- **`btree_open` undoes `btree_save`**, and links the leaves. -/
theorem btreeOpen_btreeFile {t : BTree} (h : t.Writable) :
    ∃ n' addr, btreeOpen (btreeFile t) =
        some ⟨linkLeaves n' none, t.order, t.size, false, t.root.leaves.length⟩ ∧
      (linkLeaves n' none).shape = t.root.shape ∧ Linked addr (linkLeaves n' none).leaves ∧
      (linkLeaves n' none).leaves.map BLeaf.addr = List.range' 0 t.root.leaves.length := by
  have hfuel : (writeNode t.root).length ≤ (btreeFile t).length := by
    simp only [btreeFile, List.length_append]
    omega
  obtain ⟨n', hread, hshape, haddrs⟩ :=
    readNode_writeNode t.root h.root (btreeFile t).length 0 [] hfuel
  rw [List.append_nil, Nat.zero_add] at hread
  refine ⟨n', firstAddr n'.leaves none, ?_, (linkLeaves_shape n' none).trans hshape, ?_, ?_⟩
  · unfold btreeOpen
    rw [show btreeFile t = toLE 4 BTREE_MAGIC ++ (toLE 4 t.order ++ (toLE 4 t.size ++
        (toLE 4 1 ++ writeNode t.root))) from rfl] at hread ⊢
    rw [freadU32_append (by decide), Option.bind_some, freadU32_append h.order, Option.bind_some,
      freadU32_append h.size, Option.bind_some, freadU32_append (by decide), Option.bind_some,
      if_neg (not_not.mpr rfl), if_pos Nat.one_ne_zero, hread, Option.map_some]
  · rw [linkLeaves_leaves]
    exact linked_relink _
  · rw [linkLeaves_leaves, relink_addrs, haddrs]

/-- The tree fits the file format: 32-bit keys, and pointers that fit their fields. -/
structure FileSized (order : Nat) (t : BTree) : Prop where
  keys : ∃ h, Ordered order h none (some (2 ^ 32)) t.root
  values : ∀ e ∈ t.root.bindings, e.2.Storable

/-- Children in order are children the file has room for. -/
theorem Children.writable {P : Option Nat → Option Nat → BNode → Prop} : ∀ {ks : List Nat}
    {lo hi : Option Nat} {cs : List BNode}, Children P lo hi ks cs → (∀ k, BelowHi hi k → k < 2 ^ 32) →
    (∀ e ∈ (BNode.leavesList cs).flatMap BLeaf.entries, e.2.Storable) →
    (∀ lo hi c, P lo hi c → (∀ k, BelowHi hi k → k < 2 ^ 32) → (∀ e ∈ c.bindings, e.2.Storable) →
      c.Writable) → BNode.WritableList cs
  | [], _, _, [c], hc, hhi, hvals, ih => by
    refine ⟨ih _ _ c hc hhi fun e he => hvals e ?_, trivial⟩
    simpa [BNode.leavesList, BNode.bindings] using he
  | k :: ks, _, _, c :: cs, ⟨hc, hb, hrest⟩, hhi, hvals, ih => by
    rw [BNode.leavesList, List.flatMap_append] at hvals
    refine ⟨ih _ _ c hc ?_ fun e he => hvals e (List.mem_append_left _ he), ?_⟩
    · intro x hx
      have hlt : x < k := hx
      have hk : k < 2 ^ 32 := hhi k hb.2
      omega
    · exact hrest.writable hhi (fun e he => hvals e (List.mem_append_right _ he)) ih

theorem Ordered.writable {order : Nat} (horder : order ≤ 2 ^ 32) : ∀ {h : Nat} {lo hi : Option Nat}
    {n : BNode}, Ordered order h lo hi n → (∀ k, BelowHi hi k → k < 2 ^ 32) →
    (∀ e ∈ n.bindings, e.2.Storable) → n.Writable
  | 0, _, _, .leaf l, ⟨_, hr, hlen⟩, hhi, hvals => by
    refine ⟨by omega, fun k hk => hhi k (hr k hk).2, fun e he => hvals e ?_⟩
    simpa [BNode.bindings, BNode.leaves] using he
  | _ + 1, _, _, .inner ks cs, ⟨hc, hlen⟩, hhi, hvals =>
    ⟨by omega, fun k hk => hhi k (hc.keys_between k hk).2, hc.length,
      hc.writable hhi hvals fun _ _ _ ho hb hv => Ordered.writable horder ho hb hv⟩

/-- The upper end of the range may go. -/
theorem Ordered.widen {order : Nat} : ∀ {h : Nat} {lo hi : Option Nat} {n : BNode},
    Ordered order h lo hi n → Ordered order h lo none n := by
  intro h
  induction h with
  | zero =>
    intro lo hi n hn
    match n, hn with
    | .leaf l, hn => exact ⟨hn.1, fun k hk => ⟨(hn.2.1 k hk).1, trivial⟩, hn.2.2⟩
  | succ h ih =>
    intro lo hi n hn
    match n, hn with
    | .inner ks cs, ⟨hc, hlen⟩ =>
      have hchildren : ∀ (ks : List Nat) {lo : Option Nat} {cs : List BNode},
          Children (Ordered order h) lo hi ks cs → Children (Ordered order h) lo none ks cs := by
        intro ks
        induction ks with
        | nil =>
          intro lo cs hc
          match cs, hc with
          | [c], hc => exact ih hc
        | cons k ks ihk =>
          intro lo cs hc
          match cs, hc with
          | c :: cs, ⟨hc, hb, hrest⟩ => exact ⟨hc, ⟨hb.1, trivial⟩, ihk hrest⟩
      exact ⟨hchildren ks hc, hlen⟩

/-- **`btree_open` undoes `btree_save`**, whatever bound the nodes keep to. -/
theorem btreeOpen_btreeSave_within {cap : Nat} {t : BTree} {m : BtreeMap}
    (hto : t.order < 2 ^ 32) (inv : BTreeInv cap { t with order := cap } m) (hsize : FileSized cap t) :
    ∃ t', btreeOpen (btreeSave t).2 = some t' ∧ BTreeInv cap { t' with order := cap } m ∧
      FileSized cap t' ∧ t'.order = t.order ∧ t'.size = t.size ∧ t'.root.shape = t.root.shape ∧
      t'.dirty = false ∧ btreeFile t' = btreeFile t := by
  obtain ⟨h, hord⟩ := hsize.keys
  have hcount : t.size = t.root.bindings.length % 2 ^ 32 := inv.size_eq
  have hw : t.Writable := by
    have hsmall := inv.small
    refine ⟨hto, ?_, hord.writable (by omega) (fun k hk => hk) hsize.values⟩
    rw [hcount]
    exact Nat.mod_lt _ (by decide)
  obtain ⟨n', addr, hopen, hshape, hlinked, haddrs⟩ := btreeOpen_btreeFile hw
  have hord' : Ordered cap h none (some (2 ^ 32)) (linkLeaves n' none) := hord.of_shape hshape
  have hbind : (linkLeaves n' none).bindings = t.root.bindings := bindings_of_shape hshape
  refine ⟨_, hopen, ?_, ⟨⟨h, hord'⟩, by rw [hbind]; exact hsize.values⟩, rfl, rfl, hshape, rfl, ?_⟩
  · refine ⟨inv.small, rfl, ⟨h, hord'.widen⟩, ⟨addr, hlinked⟩, ?_, ?_, ?_, ?_⟩
    · rw [haddrs]
      exact List.nodup_range'
    · intro l hl
      have hmem : l.addr ∈ (linkLeaves n' none).leaves.map BLeaf.addr := List.mem_map_of_mem hl
      rw [haddrs, List.mem_range'_1] at hmem
      simpa using hmem.2
    · simp only [hbind]
      exact inv.size_eq
    · simp only [hbind]
      exact inv.represents
  · simp only [btreeFile, writeNode_of_shape hshape]

/-- The tree that is read has the same shape and bindings and would be written alike. -/
theorem btreeOpen_btreeSave {order : Nat} {t : BTree} {m : BtreeMap} (inv : BTreeInv order t m)
    (hsize : FileSized order t) :
    ∃ t', btreeOpen (btreeSave t).2 = some t' ∧ BTreeInv order t' m ∧ FileSized order t' ∧
      t'.size = t.size ∧ t'.root.shape = t.root.shape ∧ t'.dirty = false ∧
      btreeFile t' = btreeFile t := by
  have hsmall := inv.small
  have hto := inv.order_eq
  subst hto
  obtain ⟨t', hopen, inv', hsize', ho, hrest⟩ := btreeOpen_btreeSave_within (by omega) inv hsize
  exact ⟨t', hopen, inv'.of_order ho, hsize', hrest⟩

/-- The tree that has been saved. -/
theorem BTreeInv.saved {order : Nat} {t : BTree} {m : BtreeMap} (inv : BTreeInv order t m) :
    BTreeInv order (btreeSave t).1 m :=
  ⟨inv.small, inv.order_eq, inv.ordered, inv.linked, inv.addr_nodup, inv.addr_lt, inv.size_eq, inv.represents⟩

theorem fileSized_create (order : Nat) : FileSized order (btreeCreate order) := by
  refine ⟨⟨0, List.Pairwise.nil, fun k hk => absurd hk List.not_mem_nil, Nat.zero_le _⟩, ?_⟩
  intro e he
  simp [btreeCreate, BNode.bindings, BNode.leaves] at he

/-- An insertion on a path with room keeps the tree within the file format. -/
theorem FileSized.insert_within {cap limit : Nat} {alloc : Nat → Bool} {t : BTree} (ho : 3 ≤ t.order)
    (hcap : 3 ≤ cap) (hsmall : cap ≤ 2 ^ 30 + 2) (hlow : cap - 2 ≤ limit) (hhigh : limit ≤ cap - 1) (hsize : FileSized cap t)
    {key : Nat} (hkey : key < 2 ^ 32) {value : RecordPtr} (hvalue : value.Storable)
    (hfits : findPos t key = none → PathFits t.order cap limit alloc 0 (pathCounts key t.root)) :
    FileSized cap (btreeInsert alloc t key value).2 := by
  obtain ⟨h, hord⟩ := hsize.keys
  have hwithin : InsertedWithin t.order cap limit alloc h none (some (2 ^ 32)) key value t.nextAddr
      t.root [] (insertRecursive t.order alloc key value t.nextAddr t.root) :=
    insertRecursive_root ho hsmall hlow hhigh hord ⟨trivial, hkey⟩ hfits
  obtain ⟨hspec, -, hroot⟩ := hwithin
  -- the bindings of the new root are the old ones and the new one
  have hvals : ∀ {ls' : List BLeaf} {addr' : Nat},
      LeavesInserted key value t.nextAddr t.root.leaves ls' addr' →
      ∀ e ∈ ls'.flatMap BLeaf.entries, e.2.Storable := by
    intro ls' addr' hls e he
    obtain ⟨X, Y, hX, hY⟩ := hls.bindings
    rw [hY, List.mem_append, List.mem_cons] at he
    have hold : ∀ e ∈ X ++ Y, e.2.Storable := fun e he => hsize.values e (by
      rw [BNode.bindings, hX]
      exact he)
    rcases he with he | rfl | he
    · exact hold e (List.mem_append_left _ he)
    · exact hvalue
    · exact hold e (List.mem_append_right _ he)
  simp only [btreeInsert]
  generalize insertRecursive t.order alloc key value t.nextAddr t.root = r at hspec hroot
  cases hspec with
  | duplicate he hsp hnode hmem =>
    simp only [he, if_true, hnode]
    exact hsize
  | grown he hsp hord' hls =>
    simp only [he, hsp, Bool.false_eq_true, if_false]
    exact ⟨⟨h, hord'⟩, hvals hls⟩
  | split p right he hsp hb hleft hright hls =>
    have hnew : Ordered cap (h + 1) none (some (2 ^ 32)) (.inner [p] [r.node, right]) :=
      ⟨⟨hleft, hb, hright⟩, by rw [List.length_singleton]; omega⟩
    have hleaves : (BNode.inner [p] [r.node, right]).leaves = r.node.leaves ++ right.leaves := by
      simp [BNode.leaves, BNode.leavesList]
    rw [← hleaves] at hls
    have halloc : alloc r.creates = true := hroot (by rw [hsp]; rfl)
    simp only [he, hsp, halloc, Bool.false_eq_true, if_false, if_true]
    exact ⟨⟨h + 1, hnew⟩, hvals hls⟩

/-- An insertion keeps the tree within the file format. -/
theorem FileSized.insert {order : Nat} (ho : 3 ≤ order) {t : BTree} {m : BtreeMap}
    (inv : BTreeInv order t m) (hsize : FileSized order t) {key : Nat} (hkey : key < 2 ^ 32)
    {value : RecordPtr} (hvalue : value.Storable) :
    FileSized order (btreeInsert allocOk t key value).2 := by
  obtain ⟨h, hord⟩ := hsize.keys
  have hoe := inv.order_eq
  subst hoe
  exact hsize.insert_within ho ho inv.small (by omega) (Nat.le_refl _) hkey hvalue fun _ =>
    pathFits_allocOk ho (pathCounts_le inv.small hord ⟨trivial, hkey⟩)

theorem FileSized.key_lt {order : Nat} {t : BTree} (hsize : FileSized order t) {key : Nat}
    {v : RecordPtr} (hmem : (key, v) ∈ t.root.bindings) : key < 2 ^ 32 := by
  obtain ⟨h, hord⟩ := hsize.keys
  obtain ⟨l, hl, he⟩ := List.mem_flatMap.mp hmem
  exact (hord.leaf_range l hl key (List.mem_map_of_mem he)).2

/-- So does a deletion. -/
theorem FileSized.delete {order : Nat} {t : BTree} {m : BtreeMap} (inv : BTreeInv order t m)
    (hsize : FileSized order t) (key : Nat) : FileSized order (btreeDelete t key).2 := by
  rcases inv.find key with ⟨hf, -⟩ | ⟨leaf, a, v, b, X, Y, hf, hent, hb, hl, hmod⟩
  · simp only [btreeDelete, hf]
    exact hsize
  · obtain ⟨h, hord⟩ := hsize.keys
    have hkey : key < 2 ^ 32 := hsize.key_lt (v := v) (by rw [hb]; simp)
    obtain ⟨pre, leaf', post, F⟩ := findLeaf_spec inv.small hord ⟨trivial, hkey⟩
    simp only [btreeDelete, hf]
    refine ⟨⟨h, F.modify_ordered _ ((List.eraseIdx_sublist _ _).map _)⟩, fun e he => ?_⟩
    rw [BNode.bindings, F.modify_leaves] at he
    refine hsize.values e ?_
    rw [BNode.bindings, F.leaves]
    simp only [List.flatMap_append, List.flatMap_cons, List.mem_append] at he ⊢
    rcases he with he | he | he
    · exact Or.inl he
    · exact Or.inr (Or.inl ((List.eraseIdx_sublist _ _).subset he))
    · exact Or.inr (Or.inr he)

theorem findPos_leaf {t : BTree} {key pos : Nat} {leaf leaf' : BLeaf}
    (hf : findPos t key = some (leaf, pos)) (hl : findLeaf key t.root = some leaf') :
    leaf' = leaf := by
  simp only [findPos, hl, Option.map_eq_some_iff, Prod.mk.injEq] at hf
  obtain ⟨_, -, h, -⟩ := hf
  exact h

/-- And an update. -/
theorem FileSized.update {order : Nat} {t : BTree} {m : BtreeMap} (inv : BTreeInv order t m)
    (hsize : FileSized order t) (key : Nat) {value : RecordPtr} (hvalue : value.Storable) :
    FileSized order (btreeUpdate t key value).2 := by
  rcases inv.find key with ⟨hf, -⟩ | ⟨leaf, a, v, b, X, Y, hf, hent, hb, hl, hmod⟩
  · simp only [btreeUpdate, hf]
    exact hsize
  · obtain ⟨h, hord⟩ := hsize.keys
    have hkey : key < 2 ^ 32 := hsize.key_lt (v := v) (by rw [hb]; simp)
    obtain ⟨pre, leaf', post, F⟩ := findLeaf_spec inv.small hord ⟨trivial, hkey⟩
    obtain rfl : leaf' = leaf := findPos_leaf hf F.found
    have hmodify : leaf'.entries.modify a.length (fun e => (e.1, value)) =
        a ++ (key, value) :: b := by rw [hent, Paged.modify_focus]
    simp only [btreeUpdate, hf]
    refine ⟨⟨h, F.modify_ordered _ ?_⟩, fun e he => ?_⟩
    · rw [hmodify, BLeaf.keys, hent]
      simp
    · rw [BNode.bindings, F.modify_leaves] at he
      simp only [List.flatMap_append, List.flatMap_cons, List.mem_append, hmodify,
        List.mem_cons] at he
      have hold : ∀ e, e ∈ pre.flatMap BLeaf.entries ∨ e ∈ a ++ (key, v) :: b ∨
          e ∈ post.flatMap BLeaf.entries → e.2.Storable := by
        intro e he
        refine hsize.values e ?_
        rw [BNode.bindings, F.leaves, ← hent] at *
        simpa only [List.flatMap_append, List.flatMap_cons, List.mem_append] using he
      rcases he with he | (he | rfl | he) | he
      · exact hold e (Or.inl he)
      · exact hold e (Or.inr (Or.inl (List.mem_append_left _ he)))
      · exact hvalue
      · exact hold e (Or.inr (Or.inl (List.mem_append_right _ (List.mem_cons_of_mem _ he))))
      · exact hold e (Or.inr (Or.inr he))

/-! ## Runs -/

theorem FileSized.step {order : Nat} (ho : 3 ≤ order) {t : BTree} {m : BtreeMap}
    (inv : BTreeInv order t m) (hsize : FileSized order t) {op : BtOp} (hop : op.Fits) :
    FileSized order (btreeStep allocOk t op).2 := by
  cases op with
  | insert key value => exact hsize.insert ho inv hop.1 hop.2
  | delete key => exact hsize.delete inv key
  | update key value => exact hsize.update inv key hop.2
  | search key => exact hsize

theorem FileSized.run {order : Nat} (ho : 3 ≤ order) (ops : List BtOp) :
    ∀ {t : BTree} {m : BtreeMap}, BTreeInv order t m → FileSized order t → (∀ op ∈ ops, op.Fits) →
      FileSized order (runOps (btreeStep allocOk) t ops).2 := by
  induction ops with
  | nil => intro t m _ hsize _; exact hsize
  | cons op ops ih =>
    intro t m inv hsize hops
    rw [List.forall_mem_cons] at hops
    exact ih (btreeStep_refines ho inv op).2 (hsize.step ho inv hops.1) hops.2

/-- **The tree that a run of calls leaves** is found by accesses that all stay inside its arrays.  Opening the
file it is saved to gives a tree of the same order, size and shape whose leaf chain visits the leaves from left to
right; all further calls stay inside the arrays of both trees and get the same answers; and saving the tree that
was opened writes the same file. -/
def RoundTrips (order : Nat) (ops : List BtOp) : Prop :=
  ∃ outs t, tryOps (btreeStepChecked allocOk) (btreeCreate order) ops = .ok (outs, t) ∧
    ∃ t', btreeOpen (btreeSave t).2 = some t' ∧ t'.order = t.order ∧ t'.size = t.size ∧
      t'.root.shape = t.root.shape ∧
      (∀ fuel, t'.root.leaves.length ≤ fuel →
        chainWalk t'.root.leaves fuel (t'.root.leaves.head?.map BLeaf.addr) = t'.root.leaves) ∧
      (∀ further, ∃ outs, (tryOps (btreeStepChecked allocOk) (btreeSave t).1 further).map Prod.fst = .ok outs ∧
        (tryOps (btreeStepChecked allocOk) t' further).map Prod.fst = .ok outs) ∧
      (btreeSave t').2 = (btreeSave t).2

theorem roundTrips {order : Nat} (ho : 3 ≤ order) (hsmall : order ≤ 2 ^ 30 + 2) {ops : List BtOp}
    (hops : ∀ op ∈ ops, op.Fits) : RoundTrips order ops := by
  have hcreate := btreeCreate_inv hsmall
  have inv := (btreeRun_refines ho ops hcreate).2
  have hsize := FileSized.run ho ops hcreate (fileSized_create order) hops
  obtain ⟨t', hopen, inv', -, hcount, hshape, -, hfile⟩ := btreeOpen_btreeSave inv hsize
  refine ⟨_, _, hcreate.runChecked ho ops, t', hopen, inv'.order_eq.trans inv.order_eq.symm, hcount, hshape,
    inv'.wellShaped.chain, fun further => ⟨(runOps mapStep (runOps mapStep ∅ ops).2 further).1, ?_, ?_⟩, hfile⟩
  · -- both trees answer like the same finite map
    rw [inv.saved.runChecked ho further, Except.map, (btreeRun_refines ho further inv.saved).1]
  · rw [inv'.runChecked ho further, Except.map, (btreeRun_refines ho further inv').1]

/-- **Index files round-trip**, whatever calls led to the tree, for just the orders up
to `2 ^ 30 + 2`: with a greater one the tree can get a leaf that `key_lower_bound` cannot search. -/
theorem index_file_roundtrip_iff {order : Nat} (ho : 3 ≤ order) :
    (∀ ops, (∀ op ∈ ops, op.Fits) → RoundTrips order ops) ↔ order ≤ 2 ^ 30 + 2 := by
  constructor
  · intro hall
    by_contra hlarge
    obtain ⟨n, hn⟩ : ∃ n, n = 2 ^ 30 + 1 := ⟨_, rfl⟩
    obtain ⟨outs, t, hrun, t', -, -, -, -, -, hfurther, -⟩ := hall (ascendingInserts n) (ascendingInserts_fits hn)
    obtain ⟨outs', hanswers, -⟩ := hfurther [.delete n]
    rw [ascendingInserts_run (by omega) (by omega)] at hrun
    cases hrun
    obtain ⟨e, he⟩ := delete_ascending_fails hn (btreeSave (ascendingIndex order n)).1 rfl rfl
    rw [tryOps, he] at hanswers
    cases hanswers
  · exact fun hsmall ops hops => roundTrips ho hsmall hops

/-- Two levels of nodes, and a leaf that a deletion has emptied. -/
theorem index_file_roundtrip_emptied :
    RoundTrips 3 [.insert 5 ⟨0, 0⟩, .insert 7 ⟨0, 1⟩, .delete 7] :=
  (index_file_roundtrip_iff (Nat.le_refl 3)).mpr (by decide) _
    (by simp [BtOp.Fits, RecordPtr.Storable])

/-- A leaf of order `2 ^ 30 + 3` with `2 ^ 30 + 1` keys, from which one more is deleted. -/
theorem overflowing_leaf_saved : (∀ op ∈ ascendingInserts (2 ^ 30 + 1), op.Fits) ∧
    ¬ RoundTrips (2 ^ 30 + 3) (ascendingInserts (2 ^ 30 + 1)) := by
  refine ⟨ascendingInserts_fits rfl, ?_⟩
  rintro ⟨outs, t, hrun, t', -, -, -, -, -, hfurther, -⟩
  obtain ⟨outs', hanswers, -⟩ := hfurther [.delete (2 ^ 30 + 1)]
  rw [ascendingInserts_run (Nat.le_refl _) (by decide)] at hrun
  cases hrun
  obtain ⟨e, he⟩ :=
    delete_ascending_fails rfl (btreeSave (ascendingIndex (2 ^ 30 + 3) (2 ^ 30 + 1))).1 rfl rfl
  rw [tryOps, he] at hanswers
  cases hanswers

end Ticketing
