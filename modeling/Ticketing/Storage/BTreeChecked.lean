import Ticketing.Storage.BTreeFile

/-!
# Opening any index file (`server/storage/btree.c`)

`btree_open` and `node_free` with each access to an array only after a look at its size, as in
`BTreeAccess`.

* `nodeFreeChecked`, `readNodeChecked`, `btreeOpenChecked` — the functions.  `alloc` says which calls of
  `node_create` get memory.
* `nodeHeaders`, `IndexFits` — the headers of the nodes in an index file, and when reading them stays
  inside the arrays: `btreeOpenChecked_ok`.
-/

set_option autoImplicit false

namespace Ticketing

open Bytes

/-! ## Reading an index file -/

/-- Where `read_node` stands: the next leaf's address, the calls of `node_create` so far, and the rest
of the file. -/
structure ReadPos where
  addr : Nat
  creates : Nat
  rest : Bytes

/-- `node_create` gets its memory: `order` items, `order + 1` children, both computed as an `int`. -/
def nodeCreate (alloc : Nat → Bool) (order : Nat) (isLeaf : Bool) (creates : Nat) : Bool :=
  decide ((if isLeaf then order else order + 1) < 2 ^ 31) && alloc creates

/-- The items of an array that `fread` of `n` items of `w` bytes stores to, from `len` bytes. -/
def itemsStored (w n len : Nat) : Nat := min n ((len + (w - 1)) / w)

mutual

/-- `node_free`. -/
def nodeFreeChecked (order : Nat) : BNode → Except BadAccess Unit
  | .leaf _ => .ok ()
  | .inner ks cs =>
    if cs.isEmpty then .ok ()
    else (touch 0 (ks.length + 1) (order + 1)).bind fun _ => nodeFreeChildrenChecked order cs

/-- `node_free` of the children of a node. -/
def nodeFreeChildrenChecked (order : Nat) : List BNode → Except BadAccess Unit
  | [] => .ok ()
  | c :: cs => (nodeFreeChecked order c).bind fun _ => nodeFreeChildrenChecked order cs

end

/-- `node_free` of a node of which only the children `cs` have been read; the others are `NULL`.  With
`numKeys` from `2 ^ 31` on, `num_keys` is negative and no child is looked at. -/
def freePartial (order numKeys : Nat) (isLeaf : Bool) (cs : List BNode) : Except BadAccess Unit :=
  if isLeaf then .ok ()
  else if numKeys < 2 ^ 31 then
    (touch 0 (numKeys + 1) (order + 1)).bind fun _ => nodeFreeChildrenChecked order cs
  else .ok ()

/-- The loop over the children from `children[i]` on: those that were read, and the position behind
them unless one could not be read. -/
def readChildrenChecked (read : ReadPos → Except BadAccess (Option (BNode × ReadPos))) (order : Nat) :
    Nat → Nat → ReadPos → Except BadAccess (List BNode × Option ReadPos)
  | 0, _, p => .ok ([], some p)
  | n + 1, i, p =>
    (read p).bind fun r =>
      (touch i 1 (order + 1)).bind fun _ =>
        match r with
        | none => .ok ([], none)
        | some r =>
          (readChildrenChecked read order n (i + 1) r.2).map fun q => (r.1 :: q.1, q.2)

/-- `read_node`; the fuel bounds the depth. -/
def readNodeChecked (alloc : Nat → Bool) (order : Nat) :
    Nat → ReadPos → Except BadAccess (Option (BNode × ReadPos))
  | 0, _ => .ok none
  | fuel + 1, p =>
    match freadU32 p.rest with
    | none => .ok none
    | some isLeaf =>
      match freadU32 isLeaf.2 with
      | none => .ok none
      | some numKeys =>
        let leaf := isLeaf.1 != 0
        if !nodeCreate alloc order leaf p.creates then .ok none
        else
          (touch 0 (itemsStored 4 numKeys.1 numKeys.2.length) order).bind fun _ =>
            match fread (4 * numKeys.1) numKeys.2 with
            | none => (freePartial order numKeys.1 leaf []).map fun _ => none
            | some keys =>
              let ks := chunks 4 ofLE numKeys.1 keys.1
              if leaf then
                (touch 0 (itemsStored 8 numKeys.1 keys.2.length) order).bind fun _ =>
                  match fread (8 * numKeys.1) keys.2 with
                  | none => .ok none
                  | some values =>
                    .ok (some
                      (.leaf ⟨p.addr, ks.zip (chunks 8 RecordPtr.decode numKeys.1 values.1), none⟩,
                        ⟨p.addr + 1, p.creates + 1, values.2⟩))
              else
                (readChildrenChecked (readNodeChecked alloc order fuel) order (numKeys.1 + 1) 0
                  ⟨p.addr, p.creates + 1, keys.2⟩).bind fun r =>
                    match r.2 with
                    | none => (freePartial order numKeys.1 leaf r.1).map fun _ => none
                    | some q => .ok (some (.inner ks r.1, q))

mutual

/-- The accesses of `link_leaves`. -/
def linkLeavesChecked (order : Nat) : BNode → Except BadAccess Unit
  | .leaf _ => .ok ()
  | .inner ks cs =>
    (touch 0 (ks.length + 1) (order + 1)).bind fun _ => linkLeavesListChecked order cs

/-- The accesses of `link_leaves` below the children of a node. -/
def linkLeavesListChecked (order : Nat) : List BNode → Except BadAccess Unit
  | [] => .ok ()
  | c :: cs => (linkLeavesChecked order c).bind fun _ => linkLeavesListChecked order cs

end

/-- A `NULL` root. -/
def nullRoot : BNode := .inner [] []

/-- `btree_open`. -/
def btreeOpenChecked (alloc : Nat → Bool) (file : Bytes) : Except BadAccess (Option BTree) :=
  match freadU32 file with
  | none => .ok none
  | some magic =>
    match freadU32 magic.2 with
    | none => .ok none
    | some order =>
      match freadU32 order.2 with
      | none => .ok none
      | some size =>
        match freadU32 size.2 with
        | none => .ok none
        | some hasRoot =>
          if magic.1 ≠ BTREE_MAGIC then .ok none
          else if hasRoot.1 ≠ 0 then
            (readNodeChecked alloc order.1 file.length ⟨0, 0, hasRoot.2⟩).bind fun r =>
              match r with
              | none => .ok none
              | some r =>
                (linkLeavesChecked order.1 r.1).map fun _ =>
                  some ⟨linkLeaves r.1 none, order.1, size.1, false, r.2.addr⟩
          else if nodeCreate alloc order.1 true 0 then
            .ok (some ⟨.leaf ⟨0, [], none⟩, order.1, size.1, false, 1⟩)
          else .ok (some ⟨nullRoot, order.1, size.1, false, 0⟩)

/-! ## The nodes that an index file claims to have -/

/-- The header of a node in the file, and how many bytes follow it. -/
structure NodeHeader where
  isLeaf : Bool
  numKeys : Nat
  remaining : Nat
  deriving DecidableEq, Repr

/-- The headers of `n` nodes in a row and the rest of the file. -/
def childHeaders (read : Bytes → List NodeHeader × Option Bytes) :
    Nat → Bytes → List NodeHeader × Option Bytes
  | 0, b => ([], some b)
  | n + 1, b =>
    match read b with
    | (hs, none) => (hs, none)
    | (hs, some rest) => (hs ++ (childHeaders read n rest).1, (childHeaders read n rest).2)

/-- The headers of a node and all nodes below it, in pre-order, as far as the file has them, and the
rest of the file. -/
def nodeHeaders : Nat → Bytes → List NodeHeader × Option Bytes
  | 0, _ => ([], none)
  | fuel + 1, b =>
    match freadU32 b with
    | none => ([], none)
    | some isLeaf =>
      match freadU32 isLeaf.2 with
      | none => ([], none)
      | some numKeys =>
        let h : NodeHeader := ⟨isLeaf.1 != 0, numKeys.1, numKeys.2.length⟩
        match fread (4 * numKeys.1) numKeys.2 with
        | none => ([h], none)
        | some keys =>
          if h.isLeaf then ([h], (fread (8 * numKeys.1) keys.2).map Prod.snd)
          else
            let r := childHeaders (nodeHeaders fuel) (numKeys.1 + 1) keys.2
            (h :: r.1, r.2)

/-- The keys that the node claims fit its array; or the file ends before the array is full, and
`node_free` looks at no child. -/
def NodeHeader.Fits (order : Nat) (h : NodeHeader) : Prop :=
  h.numKeys ≤ order ∨
    itemsStored 4 h.numKeys h.remaining ≤ order ∧ (h.isLeaf = true ∨ 2 ^ 31 ≤ h.numKeys)

instance (order : Nat) (h : NodeHeader) : Decidable (h.Fits order) := by
  unfold NodeHeader.Fits
  infer_instance

/-- The order that an index file gives, and the bytes of its nodes. -/
def indexNodes (file : Bytes) : Option (Nat × Bytes) :=
  (freadU32 file).bind fun magic =>
  (freadU32 magic.2).bind fun order =>
  (freadU32 order.2).bind fun size =>
  (freadU32 size.2).bind fun hasRoot =>
    if magic.1 ≠ BTREE_MAGIC ∨ hasRoot.1 = 0 then none else some (order.1, hasRoot.2)

/-- Every node in the index file fits the arrays allocated for it. -/
def IndexFits (file : Bytes) : Prop :=
  ∀ order nodes, indexNodes file = some (order, nodes) → order < 2 ^ 31 →
    ∀ h ∈ (nodeHeaders file.length nodes).1, h.Fits order

section Reading

variable {order : Nat}

theorem length_chunks {α : Type} (w : Nat) (f : Bytes → α) (n : Nat) : ∀ b : Bytes,
    (chunks w f n b).length = n := by
  induction n with
  | zero => intro b; rfl
  | succ n ih =>
    intro b
    rw [chunks, List.length_cons, ih]

theorem itemsStored_le (w n len : Nat) : itemsStored w n len ≤ n := Nat.min_le_left _ _

/-- An array that is not filled was not read completely. -/
theorem fread_of_itemsStored {w n : Nat} {b : Bytes} (hw : 0 < w) (h : itemsStored w n b.length < n) :
    fread (w * n) b = none := by
  unfold itemsStored at h
  have hlt : (b.length + (w - 1)) / w < n := by omega
  rw [Nat.div_lt_iff_lt_mul hw, Nat.mul_comm] at hlt
  unfold fread
  rw [if_pos (by omega)]

mutual

theorem nodeFreeChecked_ok : ∀ n : BNode, n.Fits order → nodeFreeChecked order n = .ok ()
  | .leaf _, _ => rfl
  | .inner ks cs, h => by
    have hks : ks.length ≤ order := h.1
    rw [nodeFreeChecked]
    split
    · rfl
    · rw [touch_ok (by omega)]
      exact nodeFreeChildrenChecked_ok cs h.2

theorem nodeFreeChildrenChecked_ok : ∀ cs : List BNode, BNode.FitsList order cs →
    nodeFreeChildrenChecked order cs = .ok ()
  | [], _ => rfl
  | c :: cs, h => by
    rw [nodeFreeChildrenChecked, nodeFreeChecked_ok c h.1]
    exact nodeFreeChildrenChecked_ok cs h.2

end

mutual

theorem linkLeavesChecked_ok : ∀ n : BNode, n.Fits order → linkLeavesChecked order n = .ok ()
  | .leaf _, _ => rfl
  | .inner ks cs, h => by
    have hks : ks.length ≤ order := h.1
    rw [linkLeavesChecked, touch_ok (by omega)]
    exact linkLeavesListChecked_ok cs h.2

theorem linkLeavesListChecked_ok : ∀ cs : List BNode, BNode.FitsList order cs →
    linkLeavesListChecked order cs = .ok ()
  | [], _ => rfl
  | c :: cs, h => by
    rw [linkLeavesListChecked, linkLeavesChecked_ok c h.1]
    exact linkLeavesListChecked_ok cs h.2

end

mutual

/-- Linking the leaves changes no size. -/
theorem linkLeaves_fits : ∀ (n : BNode) (after : Option Nat), n.Fits order →
    (linkLeaves n after).Fits order
  | .leaf _, _, h => h
  | .inner ks cs, after, h => by
    rw [linkLeaves]
    exact ⟨h.1, linkLeavesList_fits cs after h.2⟩

theorem linkLeavesList_fits : ∀ (cs : List BNode) (after : Option Nat), BNode.FitsList order cs →
    BNode.FitsList order (linkLeavesList cs after)
  | [], _, _ => by
    rw [linkLeavesList]
    trivial
  | c :: cs, after, h => by
    rw [linkLeavesList]
    exact ⟨linkLeaves_fits c _ h.1, linkLeavesList_fits cs after h.2⟩

end

theorem freePartial_ok {numKeys : Nat} {isLeaf : Bool} {cs : List BNode} (hcs : BNode.FitsList order cs)
    (h : isLeaf = true ∨ 2 ^ 31 ≤ numKeys ∨ numKeys ≤ order) :
    freePartial order numKeys isLeaf cs = .ok () := by
  unfold freePartial
  split
  · rfl
  · rename_i hleaf
    have hkeys := h.resolve_left hleaf
    split
    · rw [touch_ok (by omega)]
      exact nodeFreeChildrenChecked_ok cs hcs
    · rfl

/-- With a negative order no node is created. -/
theorem readNodeChecked_negative (alloc : Nat → Bool) (h : 2 ^ 31 ≤ order) (fuel : Nat) (p : ReadPos) :
    readNodeChecked alloc order fuel p = .ok none := by
  cases fuel with
  | zero => rfl
  | succ fuel =>
    rw [readNodeChecked]
    cases freadU32 p.rest with
    | none => rfl
    | some isLeaf =>
      simp only
      cases freadU32 isLeaf.2 with
      | none => rfl
      | some numKeys =>
        have hfail : nodeCreate alloc order (isLeaf.1 != 0) p.creates = false := by
          unfold nodeCreate
          rw [decide_eq_false (by split <;> omega), Bool.false_and]
        simp only [hfail, Bool.not_false, if_true]

/-- What a call of `read_node` has to do where the file has certain headers. -/
def ReadsWithin (order : Nat) (read : ReadPos → Except BadAccess (Option (BNode × ReadPos)))
    (headers : Bytes → List NodeHeader × Option Bytes) : Prop :=
  ∀ p, (∀ h ∈ (headers p.rest).1, NodeHeader.Fits order h) →
    ∃ r, read p = .ok r ∧
      ∀ n q, r = some (n, q) → n.Fits order ∧ (headers p.rest).2 = some q.rest

/-- The loop over the children. -/
theorem readChildrenChecked_ok {read : ReadPos → Except BadAccess (Option (BNode × ReadPos))}
    {headers : Bytes → List NodeHeader × Option Bytes} (hread : ReadsWithin order read headers) (n : Nat) :
    ∀ (i : Nat) (p : ReadPos), i + n ≤ order + 1 →
      (∀ h ∈ (childHeaders headers n p.rest).1, NodeHeader.Fits order h) →
      ∃ r, readChildrenChecked read order n i p = .ok r ∧ BNode.FitsList order r.1 ∧
        ∀ q, r.2 = some q → (childHeaders headers n p.rest).2 = some q.rest := by
  induction n with
  | zero =>
    intro i p _ _
    exact ⟨([], some p), rfl, trivial, fun q hq => by cases hq; rfl⟩
  | succ n ih =>
    intro i p hi hfits
    have hfirst : ∀ h ∈ (headers p.rest).1, NodeHeader.Fits order h := by
      intro h hh
      apply hfits h
      rw [childHeaders]
      split
      · rename_i hs heq
        rw [heq] at hh
        exact hh
      · rename_i hs rest heq
        rw [heq] at hh
        exact List.mem_append_left _ hh
    obtain ⟨r, hr, hnode⟩ := hread p hfirst
    rw [readChildrenChecked, hr]
    simp only [Except.bind]
    rw [touch_ok (by omega)]
    cases r with
    | none => exact ⟨([], none), rfl, trivial, fun q hq => by cases hq⟩
    | some r =>
      obtain ⟨c, q⟩ := r
      obtain ⟨hc, hrest⟩ := hnode c q rfl
      have hchild : childHeaders headers (n + 1) p.rest =
          ((headers p.rest).1 ++ (childHeaders headers n q.rest).1,
            (childHeaders headers n q.rest).2) := by
        rw [childHeaders]
        split
        · rename_i hs heq
          rw [heq] at hrest
          cases hrest
        · rename_i hs rest heq
          rw [heq] at hrest
          cases hrest
          rw [heq]
      obtain ⟨r', hr', hcs, hpos⟩ := ih (i + 1) q (by omega) (fun h hh => by
        apply hfits h
        rw [hchild]
        exact List.mem_append_right _ hh)
      simp only [hr']
      refine ⟨(c :: r'.1, r'.2), rfl, ⟨hc, hcs⟩, fun q' hq' => ?_⟩
      rw [hchild]
      exact hpos q' hq'

/-- **`read_node`** stays inside the arrays where every header fits. -/
theorem readNodeChecked_ok (alloc : Nat → Bool) (fuel : Nat) :
    ReadsWithin order (readNodeChecked alloc order fuel) (nodeHeaders fuel) := by
  induction fuel with
  | zero =>
    intro p _
    exact ⟨none, rfl, fun n q h => by cases h⟩
  | succ fuel ih =>
    intro p hfits
    have hnone : ∀ n q, (none : Option (BNode × ReadPos)) = some (n, q) →
        n.Fits order ∧ (nodeHeaders (fuel + 1) p.rest).2 = some q.rest := fun n q h => by cases h
    simp only [nodeHeaders] at hfits hnone ⊢
    rw [readNodeChecked]
    cases hleaf : freadU32 p.rest with
    | none => exact ⟨none, rfl, fun n q h => by cases h⟩
    | some isLeaf =>
      simp only [hleaf] at hfits ⊢
      cases hkeys : freadU32 isLeaf.2 with
      | none => exact ⟨none, rfl, fun n q h => by cases h⟩
      | some numKeys =>
        simp only [hkeys] at hfits ⊢
        split
        · exact ⟨none, rfl, fun n q h => by cases h⟩
        · have hhead : NodeHeader.Fits order ⟨isLeaf.1 != 0, numKeys.1, numKeys.2.length⟩ := by
            apply hfits
            split
            · exact List.mem_cons_self
            · split <;> exact List.mem_cons_self
          have hstored : itemsStored 4 numKeys.1 numKeys.2.length ≤ order := by
            obtain hle | ⟨hle, -⟩ := hhead
            · exact Nat.le_trans (itemsStored_le _ _ _) hle
            · exact hle
          rw [touch_ok (by omega)]
          simp only [Except.bind]
          cases hread : fread (4 * numKeys.1) numKeys.2 with
          | none =>
            refine ⟨none, ?_, fun n q h => by cases h⟩
            rw [@freePartial_ok order numKeys.1 _ [] trivial]
            · rfl
            · obtain hle | ⟨-, hrest⟩ := hhead
              · exact Or.inr (Or.inr hle)
              · exact hrest.imp_right Or.inl
          | some keys =>
            -- the keys were read, so they all have room
            have hle : numKeys.1 ≤ order := by
              by_contra hgt
              have hshort := fread_of_itemsStored (w := 4) (by omega)
                (show itemsStored 4 numKeys.1 numKeys.2.length < numKeys.1 by omega)
              rw [hshort] at hread
              cases hread
            simp only [hread] at hfits ⊢
            have hks := length_chunks 4 ofLE numKeys.1 keys.1
            split
            · rename_i hisleaf
              have hvalues := itemsStored_le 8 numKeys.1 keys.2.length
              rw [touch_ok (by omega)]
              simp only
              cases hval : fread (8 * numKeys.1) keys.2 with
              | none => exact ⟨none, rfl, fun n q h => by cases h⟩
              | some values =>
                refine ⟨_, rfl, fun n q h => ?_⟩
                cases h
                refine ⟨?_, rfl⟩
                show (List.zip _ _).length ≤ order
                rw [List.length_zip, hks]
                omega
            · rename_i hinner
              rw [if_neg hinner] at hfits
              obtain ⟨r, hr, hcs, hpos⟩ := readChildrenChecked_ok ih (numKeys.1 + 1) 0
                ⟨p.addr, p.creates + 1, keys.2⟩ (by omega)
                (fun h hh => hfits h (List.mem_cons_of_mem _ hh))
              rw [hr]
              simp only
              cases hr2 : r.2 with
              | none =>
                refine ⟨none, ?_, fun n q h => by cases h⟩
                rw [freePartial_ok hcs (Or.inr (Or.inr hle))]
                rfl
              | some q =>
                refine ⟨_, rfl, fun n q' h => ?_⟩
                cases h
                exact ⟨⟨by omega, hcs⟩, hpos q hr2⟩

/-- What `read_node` reads when it stays inside its arrays and gets its memory is what the unchecked
function reads. -/
theorem readNode_of_checked (alloc : Nat → Bool) (fuel : Nat) : ∀ {p q : ReadPos} {n : BNode},
    readNodeChecked alloc order fuel p = .ok (some (n, q)) →
      readNode fuel p.addr p.rest = some (n, q.addr, q.rest) := by
  induction fuel with
  | zero => intro p q n h; cases h
  | succ fuel ih =>
    have hchildren : ∀ k i (p q : ReadPos) (cs : List BNode),
        readChildrenChecked (readNodeChecked alloc order fuel) order k i p = .ok (cs, some q) →
          readChildren (readNode fuel) k p.addr p.rest = some (cs, q.addr, q.rest) := by
      intro k
      induction k with
      | zero => intro i p q cs h; cases h; rfl
      | succ k ihk =>
        intro i p q cs h
        rw [readChildrenChecked] at h
        obtain ⟨r, hr, h⟩ := except_bind_ok h
        obtain ⟨-, -, h⟩ := except_bind_ok h
        cases r with
        | none => cases h
        | some r =>
          obtain ⟨cs', hcs', he⟩ := except_map_ok h
          obtain ⟨cs'', q'⟩ := cs'
          cases he
          rw [readChildren, ih (q := r.2) (n := r.1) hr, Option.bind_some, ihk _ _ _ _ hcs']
          rfl
    intro p q n h
    rw [readNodeChecked] at h
    rw [readNode]
    cases hleaf : freadU32 p.rest with
    | none =>
      rw [hleaf] at h
      cases h
    | some isLeaf =>
      simp only [hleaf] at h
      rw [Option.bind_some]
      cases hkeys : freadU32 isLeaf.2 with
      | none =>
        rw [hkeys] at h
        cases h
      | some numKeys =>
        simp only [hkeys] at h
        rw [Option.bind_some]
        split at h
        · cases h
        · obtain ⟨-, -, h⟩ := except_bind_ok h
          cases hread : fread (4 * numKeys.1) numKeys.2 with
          | none =>
            simp only [hread] at h
            obtain ⟨-, -, he⟩ := except_map_ok h
            cases he
          | some keys =>
            simp only [hread] at h
            rw [Option.bind_some]
            split at h
            · rename_i hisleaf
              rw [bne_iff_ne] at hisleaf
              rw [if_pos hisleaf]
              obtain ⟨-, -, h⟩ := except_bind_ok h
              cases hval : fread (8 * numKeys.1) keys.2 with
              | none =>
                rw [hval] at h
                cases h
              | some values =>
                rw [hval] at h
                cases h
                rfl
            · rename_i hinner
              rw [bne_iff_ne] at hinner
              rw [if_neg hinner]
              obtain ⟨r, hr, h⟩ := except_bind_ok h
              obtain ⟨cs, pos⟩ := r
              cases pos with
              | none =>
                obtain ⟨-, -, he⟩ := except_map_ok h
                cases he
              | some pos =>
                cases h
                rw [hchildren _ _ _ _ _ hr]
                rfl

/-- The opened tree is that of the unchecked function, unless an empty root got no memory. -/
theorem btreeOpen_of_checked {alloc : Nat → Bool} {file : Bytes} {t : BTree}
    (h : btreeOpenChecked alloc file = .ok (some t)) :
    btreeOpen file = some t ∨ t.root = nullRoot ∧ (btreeOpen file).isSome := by
  unfold btreeOpenChecked at h
  unfold btreeOpen
  cases hmagic : freadU32 file with
  | none =>
    rw [hmagic] at h
    cases h
  | some magic =>
    simp only [hmagic, Option.bind_some] at h ⊢
    cases horder : freadU32 magic.2 with
    | none =>
      rw [horder] at h
      cases h
    | some order =>
      simp only [horder, Option.bind_some] at h ⊢
      cases hsize : freadU32 order.2 with
      | none =>
        rw [hsize] at h
        cases h
      | some size =>
        simp only [hsize, Option.bind_some] at h ⊢
        cases hroot : freadU32 size.2 with
        | none =>
          rw [hroot] at h
          cases h
        | some hasRoot =>
          simp only [hroot, Option.bind_some] at h ⊢
          split at h
          · cases h
          · rename_i hok
            rw [if_neg hok]
            split at h
            · rename_i hhas
              rw [if_pos hhas]
              obtain ⟨r, hr, h⟩ := except_bind_ok h
              cases r with
              | none => cases h
              | some r =>
                obtain ⟨-, -, he⟩ := except_map_ok h
                cases he
                left
                rw [readNode_of_checked alloc _ (q := r.2) (n := r.1) hr]
                rfl
            · rename_i hhas
              rw [if_neg hhas]
              split at h
              · cases h
                exact Or.inl rfl
              · cases h
                exact Or.inr ⟨rfl, rfl⟩

/-- **`btree_open`** stays inside the arrays where every node in the file fits, and gives a tree that
fits. -/
theorem btreeOpenChecked_ok (alloc : Nat → Bool) {file : Bytes} (h : IndexFits file) :
    ∃ r, btreeOpenChecked alloc file = .ok r ∧ ∀ t, r = some t → t.root.Fits t.order := by
  unfold btreeOpenChecked
  unfold IndexFits indexNodes at h
  cases hmagic : freadU32 file with
  | none => exact ⟨none, rfl, fun t ht => by cases ht⟩
  | some magic =>
    cases horder : freadU32 magic.2 with
    | none => exact ⟨none, by simp only [horder], fun t ht => by cases ht⟩
    | some order =>
      cases hsize : freadU32 order.2 with
      | none => exact ⟨none, by simp only [horder, hsize], fun t ht => by cases ht⟩
      | some size =>
        cases hroot : freadU32 size.2 with
        | none => exact ⟨none, by simp only [horder, hsize, hroot], fun t ht => by cases ht⟩
        | some hasRoot =>
          simp only [hmagic, horder, hsize, hroot, Option.bind_some] at h ⊢
          split
          · exact ⟨none, rfl, fun t ht => by cases ht⟩
          · rename_i hok
            split
            · rename_i hhas
              rw [if_neg (by tauto)] at h
              have hread : ∃ r, readNodeChecked alloc order.1 file.length ⟨0, 0, hasRoot.2⟩ = .ok r ∧
                  ∀ n q, r = some (n, q) → n.Fits order.1 := by
                by_cases hlt : order.1 < 2 ^ 31
                · obtain ⟨r, hr, hnode⟩ := readNodeChecked_ok alloc file.length
                    ⟨0, 0, hasRoot.2⟩ (h _ _ rfl hlt)
                  exact ⟨r, hr, fun n q hnq => (hnode n q hnq).1⟩
                · exact ⟨none, readNodeChecked_negative alloc (by omega) _ _, fun n q hnq => by cases hnq⟩
              obtain ⟨r, hr, hnode⟩ := hread
              rw [hr]
              simp only [Except.bind]
              cases r with
              | none => exact ⟨none, rfl, fun t ht => by cases ht⟩
              | some r =>
                obtain ⟨n, q⟩ := r
                have hn := hnode n q rfl
                simp only [linkLeavesChecked_ok n hn]
                refine ⟨_, rfl, fun t ht => ?_⟩
                cases ht
                exact linkLeaves_fits n none hn
            · split
              · refine ⟨_, rfl, fun t ht => ?_⟩
                cases ht
                exact Nat.zero_le _
              · refine ⟨_, rfl, fun t ht => ?_⟩
                cases ht
                exact ⟨Nat.zero_le _, trivial⟩

end Reading

end Ticketing
