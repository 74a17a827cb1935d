import Mathlib.Algebra.Order.BigOperators.Group.List
import Ticketing.Storage.BTreeReopen

/-!
# The height of an index (`server/storage/btree.c`)

`btree_delete` merges nothing, so a tree never gets lower, and what it holds does not bound its height.
What has been inserted does: a leaf is only split when it is full, and both halves of a full node are at
least half full.

* `BNode.Bushy` — all leaves at one depth, and enough children in every inner node; the root of a tree may
  have as few as two.
* `BNode.weight` — the keys of the leaves, where a leaf that has lost more than half of them counts as half
  full.  An insertion adds at most one to it, whatever memory it finds.
* `index_height_bound` — the height after any history, and what it bounds.
-/

set_option autoImplicit false

namespace Ticketing

/-- What the smaller half of a full leaf holds. -/
def halfLeaf (order : Nat) : Nat := (order - 1) / 2

/-- Height `h`; at least `least` children in the node itself, and `order / 2` in the inner nodes below. -/
def BNode.Bushy (order : Nat) : Nat → Nat → BNode → Prop
  | _, 0, .leaf _ => True
  | least, h + 1, .inner ks cs =>
    cs.length = ks.length + 1 ∧ least ≤ cs.length ∧ ∀ c ∈ cs, BNode.Bushy order (order / 2) h c
  | _, _, _ => False

/-- A leaf counts as half full at least. -/
def BLeaf.weight (order : Nat) (l : BLeaf) : Nat := max (halfLeaf order) l.entries.length

def BNode.weight (order : Nat) (n : BNode) : Nat := (n.leaves.map (BLeaf.weight order)).sum

/-- The node and its new right half, if it was split. -/
def InsertResult.halves (r : InsertResult) : List BNode := r.node :: r.split.toList.map Prod.snd

/-! ## Weights -/

section Weights

variable {order : Nat}

theorem weight_leaf (l : BLeaf) : (BNode.leaf l).weight order = l.weight order := by
  simp [BNode.weight, BNode.leaves]

theorem weight_inner (ks : List Nat) (cs : List BNode) :
    (BNode.inner ks cs).weight order = (cs.map (BNode.weight order)).sum := by
  unfold BNode.weight
  rw [BNode.leaves]
  induction cs with
  | nil => rfl
  | cons c cs ih => rw [BNode.leavesList, List.map_append, List.sum_append, ih, List.map_cons, List.sum_cons]

theorem insertAt_perm {α : Type} (pos : Nat) (x : α) (xs : List α) : (insertAt pos x xs).Perm (x :: xs) := by
  unfold insertAt
  have hperm := @List.perm_middle α x (xs.take pos) (xs.drop pos)
  rwa [List.take_append_drop] at hperm

theorem length_insertAt {α : Type} (pos : Nat) (x : α) (xs : List α) :
    (insertAt pos x xs).length = xs.length + 1 := by
  rw [(insertAt_perm pos x xs).length_eq, List.length_cons]

/-- A list at a position inside it. -/
theorem exists_focus {α : Type} {i : Nat} {xs : List α} (h : i < xs.length) :
    ∃ front x back, xs = front ++ x :: back ∧ i = front.length := by
  refine ⟨xs.take i, xs[i], xs.drop (i + 1), ?_, ?_⟩
  · rw [List.getElem_cons_drop, List.take_append_drop]
  · rw [List.length_take]
    omega

end Weights

/-! ## Insertion -/

section Insert

variable {order least h : Nat} {alloc : Nat → Bool}

/-- What an insertion leaves of a node of height `h` and weight `w`. -/
structure InsertResult.Bushy (order least h w : Nat) (r : InsertResult) : Prop where
  node : r.node.Bushy order least h
  split : ∀ promoted right, r.split = some (promoted, right) →
    r.node.Bushy order (order / 2) h ∧ right.Bushy order (order / 2) h
  weight : (r.halves.map (BNode.weight order)).sum ≤ w + 1
  creates : r.creates ≤ h + 1

theorem splitLeaf_bushy (nextAddr : Nat) {leaf : BLeaf} {w : Nat} (hfull : order - 1 ≤ leaf.entries.length)
    (hw : leaf.weight order ≤ w + 1) : (splitLeaf alloc nextAddr leaf).Bushy order least 0 w := by
  unfold splitLeaf
  simp only
  split
  · refine ⟨trivial, fun promoted right hr => ?_, ?_, Nat.le_refl _⟩
    · cases hr
      exact ⟨trivial, trivial⟩
    · simp only [InsertResult.halves, Option.toList_some, List.map_cons, List.map_nil, List.sum_cons,
        List.sum_nil, weight_leaf, BLeaf.weight, List.length_take, List.length_drop]
      unfold BLeaf.weight at hw
      unfold halfLeaf at hw ⊢
      omega
  · refine ⟨trivial, nofun, ?_, Nat.le_refl _⟩
    simp only [InsertResult.halves, Option.toList_none, List.map_cons, List.map_nil, List.sum_cons,
      List.sum_nil, weight_leaf, Nat.add_zero]
    exact hw

theorem splitInternal_bushy (ho : 4 ≤ order) (hleast : least ≤ order / 2) {creates nextAddr peak w : Nat}
    {ks : List Nat} {cs : List BNode} (hcs : cs.length = ks.length + 1) (hfull : order - 1 ≤ ks.length)
    (hbushy : ∀ c ∈ cs, c.Bushy order (order / 2) h) (hw : (cs.map (BNode.weight order)).sum ≤ w + 1)
    (hcreates : creates ≤ h + 1) :
    (splitInternal alloc creates nextAddr peak ks cs).Bushy order least (h + 1) w := by
  unfold splitInternal
  simp only
  split
  · have hleft : (BNode.inner (ks.take (ks.length / 2)) (cs.take (ks.length / 2 + 1))).Bushy order
        (order / 2) (h + 1) := by
      refine ⟨?_, ?_, fun c hc => hbushy c (List.mem_of_mem_take hc)⟩ <;>
        simp only [List.length_take] <;> omega
    have hright : (BNode.inner (ks.drop (ks.length / 2 + 1)) (cs.drop (ks.length / 2 + 1))).Bushy order
        (order / 2) (h + 1) := by
      refine ⟨?_, ?_, fun c hc => hbushy c (List.mem_of_mem_drop hc)⟩ <;>
        simp only [List.length_drop] <;> omega
    refine ⟨⟨hleft.1, Nat.le_trans hleast hleft.2.1, hleft.2.2⟩, fun promoted right hr => ?_, ?_,
      Nat.succ_le_succ hcreates⟩
    · cases hr
      exact ⟨hleft, hright⟩
    · simp only [InsertResult.halves, Option.toList_some, List.map_cons, List.map_nil, List.sum_cons,
        List.sum_nil, weight_inner, Nat.add_zero]
      rw [← List.sum_append, ← List.map_append, List.take_append_drop]
      exact hw
  · refine ⟨⟨hcs, by omega, hbushy⟩, nofun, ?_, Nat.succ_le_succ hcreates⟩
    simp only [InsertResult.halves, Option.toList_none, List.map_cons, List.map_nil, List.sum_cons,
      List.sum_nil, weight_inner, Nat.add_zero]
    exact hw

/-- A node that took no second half from below. -/
theorem InsertResult.Bushy.kept {ks : List Nat} {cs : List BNode} {r : InsertResult} {w : Nat}
    (hbushy : (BNode.inner ks cs).Bushy order least (h + 1))
    (hw : (cs.map (BNode.weight order)).sum ≤ w + 1) (hcreates : r.creates ≤ h + 2)
    (hnode : r.node = .inner ks cs) (hsplit : r.split = none) : r.Bushy order least (h + 1) w := by
  refine ⟨hnode ▸ hbushy, fun promoted right hr => ?_, ?_, hcreates⟩
  · rw [hsplit] at hr
    cases hr
  · simp only [InsertResult.halves, hsplit, hnode, Option.toList_none, List.map_cons, List.map_nil,
      List.sum_cons, List.sum_nil, weight_inner, Nat.add_zero]
    exact hw

/-- **`insert_recursive` keeps the shape**, wherever it goes and whatever memory it finds. -/
theorem insertRecursive_bushy (ho : 4 ≤ order) (key : Nat) (value : RecordPtr) (addr : Nat) :
    ∀ {h least : Nat} {n : BNode}, least ≤ order / 2 → n.Bushy order least h →
      (insertRecursive order alloc key value addr n).Bushy order least h (n.weight order) := by
  intro h
  induction h with
  | zero =>
    intro least n hleast hn
    cases n with
    | inner ks cs => exact hn.elim
    | leaf l =>
      rw [insertRecursive, weight_leaf]
      simp only [ge_iff_le, length_insertAt]
      have hw : ∀ pos, BLeaf.weight order { l with entries := insertAt pos (key, value) l.entries } ≤
          l.weight order + 1 := by
        intro pos
        simp only [BLeaf.weight, length_insertAt]
        omega
      split
      · exact ⟨trivial, fun _ _ hr => (by cases hr), by simp [InsertResult.halves, weight_leaf], Nat.zero_le _⟩
      · split
        · rename_i hfull
          exact splitLeaf_bushy addr (by rwa [length_insertAt]) (hw _)
        · refine ⟨trivial, fun _ _ hr => (by cases hr), ?_, Nat.zero_le _⟩
          simp only [InsertResult.halves, Option.toList_none, List.map_cons, List.map_nil, List.sum_cons,
            List.sum_nil, weight_leaf, Nat.add_zero]
          exact hw _
  | succ h ih =>
    intro least n hleast hn
    cases n with
    | leaf l => exact hn.elim
    | inner ks cs =>
      obtain ⟨hlen, hle, hbushy⟩ := hn
      obtain ⟨front, c, back, rfl, hidx⟩ :=
        exists_focus (show childIndex ks key < cs.length by have hi := childIndex_le ks key; omega)
      have hr := ih (Nat.le_refl _) (hbushy c (by simp))
      rw [insertRecursive, hidx, insertChild_eq, set_focus, weight_inner]
      simp only
      generalize insertRecursive order alloc key value addr c = r at hr ⊢
      have hkept : ∀ d ∈ front ++ r.node :: back, d.Bushy order (order / 2) h := by
        intro d hd
        rcases List.mem_append.mp hd with hd | hd
        · exact hbushy d (List.mem_append_left _ hd)
        · rcases List.mem_cons.mp hd with rfl | hd
          · exact hr.node
          · exact hbushy d (List.mem_append_right _ (List.mem_cons_of_mem _ hd))
      have hweight := hr.weight
      simp only [InsertResult.halves, List.map_cons, List.sum_cons] at hweight
      simp only [List.length_append, List.length_cons] at hlen hle
      split
      · rename_i promoted right herror hsplit
        have hright := (hr.split promoted right hsplit).2
        rw [hsplit] at hweight
        simp only [Option.toList_some, List.map_cons, List.map_nil, List.sum_cons, List.sum_nil] at hweight
        generalize hcs2 : insertAt (keyLowerBound ks promoted + 1) right (front ++ r.node :: back) = cs2
        have hperm := hcs2 ▸ insertAt_perm (keyLowerBound ks promoted + 1) right (front ++ r.node :: back)
        have hcs2len := hperm.length_eq
        have hcs2weight := (hperm.map (BNode.weight order)).sum_eq
        have hall : ∀ d ∈ cs2, d.Bushy order (order / 2) h := by
          intro d hd
          rcases List.mem_cons.mp (hperm.mem_iff.mp hd) with rfl | hd
          · exact hright
          · exact hkept d hd
        simp only [List.length_cons, List.length_append] at hcs2len
        simp only [List.map_cons, List.map_append, List.sum_cons, List.sum_append] at hcs2weight ⊢
        simp only [ge_iff_le, length_insertAt]
        split
        · exact splitInternal_bushy ho hleast (by rw [length_insertAt]; omega)
            (by rwa [length_insertAt]) hall (by omega) hr.creates
        · refine InsertResult.Bushy.kept ⟨?_, ?_, hall⟩ (by omega) (Nat.le_succ_of_le hr.creates) rfl rfl
          · rw [length_insertAt]
            omega
          · omega
      · refine InsertResult.Bushy.kept ⟨?_, ?_, hkept⟩ ?_ (Nat.le_succ_of_le hr.creates) rfl rfl
        · simp only [List.length_append, List.length_cons]
          exact hlen
        · simp only [List.length_append, List.length_cons]
          exact hle
        · simp only [List.map_cons, List.map_append, List.sum_cons, List.sum_append]
          omega

end Insert

/-! ## Nodes that fit their arrays -/

section Fits

variable {order : Nat} {alloc : Nat → Bool} {key addr : Nat} {value : RecordPtr}

theorem fitsList_iff (cs : List BNode) : BNode.FitsList order cs ↔ ∀ c ∈ cs, c.Fits order := by
  induction cs with
  | nil => exact iff_of_true trivial fun _ hc => absurd hc List.not_mem_nil
  | cons c cs ih => rw [BNode.FitsList, ih, List.forall_mem_cons]

mutual

theorem BNode.Fits.mono {order' : Nat} (hle : order ≤ order') : ∀ n : BNode, n.Fits order → n.Fits order'
  | .leaf _, h => Nat.le_trans h hle
  | .inner _ cs, h => ⟨Nat.le_trans h.1 hle, BNode.FitsList.mono hle cs h.2⟩

theorem BNode.FitsList.mono {order' : Nat} (hle : order ≤ order') :
    ∀ cs : List BNode, BNode.FitsList order cs → BNode.FitsList order' cs
  | [], _ => trivial
  | c :: cs, h => ⟨BNode.Fits.mono hle c h.1, BNode.FitsList.mono hle cs h.2⟩

end

mutual

theorem fits_shape : ∀ n : BNode, n.shape.Fits order ↔ n.Fits order
  | .leaf _ => Iff.rfl
  | .inner _ cs => and_congr Iff.rfl (fits_shapeList cs)

theorem fits_shapeList : ∀ cs : List BNode, BNode.FitsList order (BNode.shapeList cs) ↔ BNode.FitsList order cs
  | [] => Iff.rfl
  | c :: cs => and_congr (fits_shape c) (fits_shapeList cs)

end

/-- What an insertion leaves fits its arrays. -/
structure InsertResult.Fits (order : Nat) (r : InsertResult) : Prop where
  node : r.node.Fits order
  split : ∀ promoted right, r.split = some (promoted, right) → right.Fits order

theorem splitLeaf_fits (nextAddr : Nat) {leaf : BLeaf} (hleaf : leaf.entries.length ≤ order) :
    (splitLeaf alloc nextAddr leaf).Fits order := by
  unfold splitLeaf
  simp only
  split
  · refine ⟨Nat.le_trans (List.take_sublist _ _).length_le hleaf, fun promoted right hr => ?_⟩
    cases hr
    exact Nat.le_trans (List.drop_sublist _ _).length_le hleaf
  · exact ⟨hleaf, nofun⟩

theorem splitInternal_fits (creates nextAddr peak : Nat) {ks : List Nat} {cs : List BNode}
    (hks : ks.length ≤ order) (hcs : BNode.FitsList order cs) :
    (splitInternal alloc creates nextAddr peak ks cs).Fits order := by
  rw [fitsList_iff] at hcs
  unfold splitInternal
  simp only
  split
  · refine ⟨⟨Nat.le_trans (List.take_sublist _ _).length_le hks, ?_⟩, fun promoted right hr => ?_⟩
    · exact (fitsList_iff _).mpr fun c hc => hcs c (List.mem_of_mem_take hc)
    · cases hr
      refine ⟨Nat.le_trans (List.drop_sublist _ _).length_le hks, ?_⟩
      exact (fitsList_iff _).mpr fun c hc => hcs c (List.mem_of_mem_drop hc)
  · exact ⟨⟨hks, (fitsList_iff _).mpr hcs⟩, nofun⟩

/-- The items that move up have room. -/
theorem shiftRightChecked_room {size count pos : Nat} (hpos : pos ≤ count)
    (h : shiftRightChecked size count pos = .ok ()) : count + 1 ≤ size := by
  unfold shiftRightChecked touch at h
  split at h
  · omega
  · cases h

mutual

/-- **`insert_recursive` inside the arrays** leaves nodes that fit them. -/
theorem insertRecursive_keepsFits : ∀ n : BNode, n.Fits order →
    insertAccesses order alloc key value addr n = .ok () → (insertRecursive order alloc key value addr n).Fits order
  | .leaf l, hfits, haccess => by
    rw [insertRecursive]
    simp only [ge_iff_le, length_insertAt]
    split
    · exact ⟨hfits, nofun⟩
    · rename_i hnew
      obtain ⟨pos, hpos, hshift⟩ := except_bind_ok (show (keyFindExactChecked order l.keys key).bind _ = _ from haccess)
      have hnone : pos = none := by
        rw [← keyFindExact_of_checked hpos, keyFindExact, if_neg hnew]
      subst hnone
      obtain ⟨_, hkeys, -⟩ := except_bind_ok hshift
      have hroom : l.keys.length + 1 ≤ order := shiftRightChecked_room (keyLowerBound_le l.keys key) hkeys
      rw [BLeaf.keys, List.length_map] at hroom
      have hgrown : ∀ pos, (insertAt pos (key, value) l.entries).length ≤ order := fun pos => by
        rw [length_insertAt]
        exact hroom
      split
      · exact splitLeaf_fits addr (hgrown _)
      · exact ⟨hgrown _, nofun⟩
  | .inner ks cs, hfits, haccess => by
    obtain ⟨i, hi, haccess⟩ := except_bind_ok (show (childIndexChecked order ks key).bind _ = _ from haccess)
    obtain ⟨-, -, haccess⟩ := except_bind_ok haccess
    obtain ⟨_, hchild, haccess⟩ := except_bind_ok haccess
    have hr := insertChild_keepsFits i cs hfits.2 hchild
    rw [insertRecursive, childIndex_of_checked hi]
    simp only at haccess ⊢
    generalize insertChild order alloc key value addr i cs = r at haccess hr
    have hkept : ∀ c ∈ cs.set i r.node, c.Fits order := by
      intro c hc
      rcases List.mem_or_eq_of_mem_set hc with hc | rfl
      · exact (fitsList_iff cs).mp hfits.2 c hc
      · exact hr.node
    split
    · rename_i promoted right herror hsplit
      rw [herror, hsplit] at haccess
      obtain ⟨pos, hpos, haccess⟩ := except_bind_ok haccess
      obtain ⟨_, hkeys, -⟩ := except_bind_ok haccess
      rw [← keyLowerBound_of_checked hpos] at hkeys
      have hroom := shiftRightChecked_room (keyLowerBound_le ks promoted) hkeys
      have hcs2 : BNode.FitsList order (insertAt (keyLowerBound ks promoted + 1) right (cs.set i r.node)) := by
        rw [fitsList_iff]
        intro c hc
        rcases List.mem_cons.mp ((insertAt_perm _ _ _).mem_iff.mp hc) with rfl | hc
        · exact hr.split promoted c hsplit
        · exact hkept c hc
      have hks2 : (insertAt (keyLowerBound ks promoted) promoted ks).length ≤ order := by
        rw [length_insertAt]
        exact hroom
      split
      · exact splitInternal_fits _ _ _ hks2 hcs2
      · exact ⟨⟨hks2, hcs2⟩, nofun⟩
    · exact ⟨⟨hfits.1, (fitsList_iff _).mpr hkept⟩, nofun⟩

theorem insertChild_keepsFits : ∀ (i : Nat) (cs : List BNode), BNode.FitsList order cs →
    insertChildAccesses order alloc key value addr i cs = .ok () →
      (insertChild order alloc key value addr i cs).Fits order
  | _, [], _, _ => by
    rw [insertChild]
    exact ⟨⟨Nat.zero_le _, trivial⟩, nofun⟩
  | 0, c :: _, hfits, haccess => insertRecursive_keepsFits c hfits.1 haccess
  | i + 1, _ :: cs, hfits, haccess => insertChild_keepsFits i cs hfits.2 haccess

end

end Fits

/-! ## Other operations -/

section Operations

variable {order : Nat}

/-- A write through the pointer of a leaf that adds no key. -/
theorem modifyLeaf_bushy {key : Nat} {f : List (Nat × RecordPtr) → List (Nat × RecordPtr)}
    (hf : ∀ es, (f es).length ≤ es.length) : ∀ {h least : Nat} {n : BNode}, n.Bushy order least h →
      (modifyLeaf key f n).Bushy order least h ∧
        (modifyLeaf key f n).weight order ≤ n.weight order := by
  intro h
  induction h with
  | zero =>
    intro least n hn
    match n, hn with
    | .leaf l, _ =>
      rw [modifyLeaf, weight_leaf, weight_leaf]
      have hle := hf l.entries
      refine ⟨trivial, ?_⟩
      simp only [BLeaf.weight]
      omega
  | succ h ih =>
    intro least n hn
    match n, hn with
    | .inner ks cs, ⟨hlen, hle, hbushy⟩ =>
      obtain ⟨front, c, back, rfl, hidx⟩ :=
        exists_focus (show childIndex ks key < cs.length by have hi := childIndex_le ks key; omega)
      obtain ⟨hnode, hweight⟩ := ih (hbushy c (by simp))
      rw [modifyLeaf, hidx, modifyLeafChild_eq, weight_inner, weight_inner]
      simp only [List.length_append, List.length_cons] at hlen hle
      refine ⟨⟨?_, ?_, fun d hd => ?_⟩, ?_⟩
      · simp only [List.length_append, List.length_cons]
        exact hlen
      · simp only [List.length_append, List.length_cons]
        exact hle
      · rcases List.mem_append.mp hd with hd | hd
        · exact hbushy d (List.mem_append_left _ hd)
        · rcases List.mem_cons.mp hd with rfl | hd
          · exact hnode
          · exact hbushy d (List.mem_append_right _ (List.mem_cons_of_mem _ hd))
      · simp only [List.map_cons, List.map_append, List.sum_cons, List.sum_append]
        omega

theorem shapeList_eq (cs : List BNode) : BNode.shapeList cs = cs.map BNode.shape := by
  induction cs with
  | nil => rfl
  | cons c cs ih => rw [BNode.shapeList, ih, List.map_cons]

/-- Addresses do not matter. -/
theorem bushy_shape : ∀ {h least : Nat} (n : BNode), n.shape.Bushy order least h ↔ n.Bushy order least h
  | 0, _, .leaf _ => Iff.rfl
  | 0, _, .inner _ _ => Iff.rfl
  | _ + 1, _, .leaf _ => Iff.rfl
  | h + 1, least, .inner ks cs => by
    rw [BNode.shape, shapeList_eq]
    simp only [BNode.Bushy, List.length_map, List.forall_mem_map]
    exact and_congr Iff.rfl (and_congr Iff.rfl (forall_congr' fun c => imp_congr Iff.rfl (bushy_shape c)))

theorem weight_of_shape {n n' : BNode} (h : n'.shape = n.shape) : n'.weight order = n.weight order := by
  have hentries : n'.leaves.map BLeaf.entries = n.leaves.map BLeaf.entries := by
    rw [← entries_shape n', h, entries_shape]
  have hweight : ∀ m : BNode,
      m.weight order = ((m.leaves.map BLeaf.entries).map fun es => max (halfLeaf order) es.length).sum := by
    intro m
    rw [List.map_map]
    rfl
  rw [hweight, hweight, hentries]

end Operations

/-! ## What the shape bounds -/

section Bounds

variable {order : Nat}

theorem length_leavesList (cs : List BNode) :
    (BNode.leavesList cs).length = (cs.map fun c => c.leaves.length).sum := by
  induction cs with
  | nil => rfl
  | cons c cs ih => rw [BNode.leavesList, List.length_append, ih, List.map_cons, List.sum_cons]

/-- As many leaves as the children of the node, and of those below, make at least. -/
theorem BNode.Bushy.leaves_inner {h least b : Nat} {ks : List Nat} {cs : List BNode}
    (hn : (BNode.inner ks cs).Bushy order least (h + 1)) (hb : ∀ c ∈ cs, b ≤ c.leaves.length) :
    least * b ≤ (BNode.inner ks cs).leaves.length := by
  rw [BNode.leaves, length_leavesList]
  have hsum : (cs.map fun c => c.leaves.length).length • b ≤ (cs.map fun c => c.leaves.length).sum :=
    List.card_nsmul_le_sum _ _ (List.forall_mem_map.mpr hb)
  rw [List.length_map, Nat.nsmul_eq_mul] at hsum
  exact Nat.le_trans (Nat.mul_le_mul_right b hn.2.1) hsum

theorem BNode.Bushy.leaves_pow : ∀ {h : Nat} {n : BNode}, n.Bushy order (order / 2) h →
    (order / 2) ^ h ≤ n.leaves.length := by
  intro h
  induction h with
  | zero =>
    intro n hn
    match n, hn with
    | .leaf _, _ => exact Nat.le_refl 1
  | succ h ih =>
    intro n hn
    match n, hn with
    | .inner ks cs, hn =>
      rw [Nat.pow_succ']
      exact hn.leaves_inner fun c hc => ih (hn.2.2 c hc)

/-- A root has two children, and each of these is a full subtree. -/
theorem BNode.Bushy.leaves_root {h : Nat} {n : BNode} (hn : n.Bushy order 2 (h + 1)) :
    2 * (order / 2) ^ h ≤ n.leaves.length := by
  match n, hn with
  | .inner ks cs, hn => exact hn.leaves_inner fun c hc => (hn.2.2 c hc).leaves_pow

theorem leaves_le_weight (n : BNode) : n.leaves.length * halfLeaf order ≤ n.weight order := by
  have hsum : (n.leaves.map (BLeaf.weight order)).length • halfLeaf order ≤
      (n.leaves.map (BLeaf.weight order)).sum :=
    List.card_nsmul_le_sum _ _ (List.forall_mem_map.mpr fun l _ => Nat.le_max_left _ _)
  rwa [List.length_map, Nat.nsmul_eq_mul] at hsum

/-- `find_leaf` gets to a leaf, through one node on every level. -/
theorem BNode.Bushy.path (key : Nat) : ∀ {h least : Nat} {n : BNode}, n.Bushy order least h →
    (pathCounts key n).length = h + 1 ∧ ∃ leaf, findLeaf key n = some leaf := by
  intro h
  induction h with
  | zero =>
    intro least n hn
    match n, hn with
    | .leaf l, _ => exact ⟨rfl, l, rfl⟩
  | succ h ih =>
    intro least n hn
    match n, hn with
    | .inner ks cs, ⟨hlen, hle, hbushy⟩ =>
      obtain ⟨front, c, back, rfl, hidx⟩ :=
        exists_focus (show childIndex ks key < cs.length by have hi := childIndex_le ks key; omega)
      obtain ⟨hcounts, hleaf⟩ := ih (hbushy c (by simp))
      rw [pathCounts, findLeaf, hidx, pathCountsChild_eq, findLeafChild_eq, List.length_append, hcounts]
      exact ⟨rfl, hleaf⟩

theorem BNode.Bushy.leafDepths : ∀ {h least : Nat} {n : BNode}, n.Bushy order least h →
    ∀ d ∈ n.leafDepths, d = h := by
  intro h
  induction h with
  | zero =>
    intro least n hn
    match n, hn with
    | .leaf _, _ => exact fun d hd => List.mem_singleton.mp hd
  | succ h ih =>
    intro least n hn
    match n, hn with
    | .inner ks cs, ⟨_, _, hbushy⟩ =>
      have hall : ∀ ds : List BNode, (∀ c ∈ ds, c.Bushy order (order / 2) h) →
          ∀ d ∈ BNode.leafDepthsList ds, d = h := by
        intro ds
        induction ds with
        | nil => exact fun _ d hd => absurd hd List.not_mem_nil
        | cons c ds ihs =>
          intro hds d hd
          rw [List.forall_mem_cons] at hds
          rcases List.mem_append.mp hd with hd | hd
          · exact ih hds.1 d hd
          · exact ihs hds.2 d hd
      intro d hd
      obtain ⟨e, he, rfl⟩ := List.mem_map.mp hd
      rw [hall cs hbushy e he]

end Bounds

/-! ## Runs -/

def FaultyOp.isInsert : FaultyOp → Bool
  | .call (.insert _ _) _ => true
  | _ => false

/-- The number of calls of `btree_insert`. -/
def insertCalls (tr : List (Transition BTree FaultyOp)) : Nat := tr.countP fun x => x.act.isInsert

/-- The tree has height `h`, and `inserts` calls of `btree_insert` have made it. -/
structure Grown (order inserts h : Nat) (t : BTree) : Prop where
  order_eq : t.order = order
  fits : t.root.Fits order
  bushy : t.root.Bushy order 2 h
  weight : t.root.weight order ≤ halfLeaf order + inserts

section Runs

variable {order inserts h : Nat} {t : BTree}

theorem grown_create (order : Nat) : Grown order 0 0 (btreeCreate order) :=
  ⟨rfl, Nat.zero_le _, trivial, by simp [btreeCreate, weight_leaf, BLeaf.weight]⟩

theorem Grown.insert (ho : 4 ≤ order) (hg : Grown order inserts h t) {alloc : Nat → Bool} {key : Nat}
    {value : RecordPtr} {r : Int × BTree} (hok : btreeInsertChecked alloc t key value = .ok r) :
    ∃ h', Grown order (inserts + 1) h' r.2 := by
  have horder := hg.order_eq
  obtain ⟨_, haccess, -⟩ := except_map_ok hok
  rw [← btreeInsert_of_checked hok]
  rw [horder] at haccess
  have hr := @insertRecursive_bushy order alloc ho key value t.nextAddr _ _ _ (by omega) hg.bushy
  have hfits := insertRecursive_keepsFits t.root hg.fits haccess
  have hweight := hr.weight
  have hbound := hg.weight
  rw [← horder] at hr hfits hweight
  unfold btreeInsert
  simp only
  generalize insertRecursive t.order alloc key value t.nextAddr t.root = r at hr hfits hweight ⊢
  simp only [InsertResult.halves, List.map_cons, List.sum_cons] at hweight
  rw [horder] at hr hfits hweight
  have hkept : r.node.weight order ≤ halfLeaf order + (inserts + 1) := by omega
  split
  · exact ⟨h, horder, hfits.node, hr.node, hkept⟩
  · split
    · exact ⟨h, horder, hfits.node, hr.node, hkept⟩
    · rename_i promoted right hsplit
      split
      · -- a new root over the two halves
        obtain ⟨hleft, hright⟩ := hr.split promoted right hsplit
        refine ⟨h + 1, horder, ?_, ⟨rfl, Nat.le_refl 2, ?_⟩, ?_⟩
        · refine ⟨?_, hfits.node, hfits.split promoted right hsplit, trivial⟩
          rw [List.length_singleton]
          omega
        · simp only [List.mem_cons, List.not_mem_nil, or_false, forall_eq_or_imp, forall_eq]
          exact ⟨hleft, hright⟩
        · rw [hsplit] at hweight
          simp only [Option.toList_some, List.map_cons, List.map_nil, List.sum_cons, List.sum_nil,
            weight_inner] at hweight ⊢
          omega
      · -- no memory for it: the right half is lost
        exact ⟨h, horder, hfits.node, hr.node, hkept⟩

theorem Grown.modify (hg : Grown order inserts h t) (key : Nat)
    {f : List (Nat × RecordPtr) → List (Nat × RecordPtr)} (hf : ∀ es, (f es).length ≤ es.length)
    {t' : BTree} (horder : t'.order = t.order) (hroot : t'.root = modifyLeaf key f t.root) :
    Grown order inserts h t' := by
  obtain ⟨hbushy, hweight⟩ := @modifyLeaf_bushy order key f hf _ _ _ hg.bushy
  exact ⟨horder.trans hg.order_eq, hroot ▸ modifyLeaf_fits hf t.root hg.fits, hroot ▸ hbushy, hroot ▸ Nat.le_trans hweight hg.weight⟩

/-- **One call, or one `btree_save` and `btree_open`.** -/
theorem Grown.step (ho : 4 ≤ order) (hg : Grown order inserts h t) {a : FaultyOp} {t' : BTree}
    (hfile : a = .reopen → t.Writable) (hs : a.step t = some t') :
    ∃ h', Grown order (inserts + a.isInsert.toNat) h' t' := by
  cases a with
  | reopen =>
    obtain ⟨n, addr, hopen, hshape, -⟩ := btreeOpen_btreeFile (hfile rfl)
    obtain rfl : (⟨linkLeaves n none, t.order, t.size, false, t.root.leaves.length⟩ : BTree) = t' :=
      Option.some.inj (hopen.symm.trans hs)
    refine ⟨h, hg.order_eq, ?_, ?_, ?_⟩
    · rw [← fits_shape, hshape, fits_shape]
      exact hg.fits
    · rw [← bushy_shape, hshape, bushy_shape]
      exact hg.bushy
    · rw [weight_of_shape hshape]
      exact hg.weight
  | call op alloc =>
    obtain ⟨r, hr, rfl⟩ := FaultyOp.call_step hs
    have hstep := btreeStep_of_checked hr
    cases op with
    | insert key value =>
      obtain ⟨r', hr', rfl⟩ := except_map_ok hr
      exact hg.insert ho hr'
    | delete key =>
      refine ⟨h, ?_⟩
      rw [← hstep]
      simp only [btreeStep, btreeDelete]
      split
      · exact hg
      · exact hg.modify key (fun es => List.length_eraseIdx_le _ _) rfl rfl
    | update key value =>
      refine ⟨h, ?_⟩
      rw [← hstep]
      simp only [btreeStep, btreeUpdate]
      split
      · exact hg
      · exact hg.modify key (fun es => Nat.le_of_eq (List.length_modify _ _ _)) rfl rfl
    | search key =>
      rw [← hstep]
      exact ⟨h, hg⟩

theorem grown_history (ho : 4 ≤ order) {tr : List (Transition BTree FaultyOp)}
    (hist : History FaultyOp.step (btreeCreate order) tr t)
    (hfile : ∀ x ∈ tr, x.act = .reopen → x.before.Writable) : ∃ h, Grown order (insertCalls tr) h t := by
  induction hist with
  | nil => exact ⟨0, grown_create order⟩
  | @cons tr t t' a hist hs ih =>
    obtain ⟨hlast, hbefore⟩ := List.forall_mem_cons.mp hfile
    obtain ⟨h, hg⟩ := ih hbefore
    obtain ⟨h', hg'⟩ := hg.step ho hlast hs
    refine ⟨h', ?_⟩
    unfold insertCalls at hg' ⊢
    rw [List.countP_cons]
    cases hinsert : a.isInsert <;> rw [hinsert] at hg' <;> simpa [hinsert] using hg'

/-- The insertions that a height takes. -/
theorem Grown.inserts_le (hg : Grown order inserts (h + 1) t) :
    2 * (order / 2) ^ h * halfLeaf order ≤ halfLeaf order + inserts :=
  Nat.le_trans (Nat.mul_le_mul_right _ hg.bushy.leaves_root)
    (Nat.le_trans (leaves_le_weight t.root) hg.weight)

/-- **The height of an index.**  After any calls of `btree.h` that stay inside the arrays, whatever memory they
find, and any orderly `btree_save` and `btree_open` between them:

* all leaves are at one depth `h`; `find_leaf` stays inside the arrays and gets to a leaf, through one node on
  every level; and `insert_recursive` creates at most one node on every level;
* with `(order - 1) / 2` keys for half a leaf, a tree of height `h` has taken insertions for
  `2 * (order / 2) ^ (h - 1)` halves less one: deletions never make it worse, though they merge nothing;
* so an index of the server, with fewer ids than a `uint32_t` has, is at most five levels high. -/
theorem index_height_bound (ho : 4 ≤ order) (hsmall : order ≤ 2 ^ 30) {tr : List (Transition BTree FaultyOp)}
    (hist : History FaultyOp.step (btreeCreate order) tr t)
    (hfile : ∀ x ∈ tr, x.act = .reopen → x.before.Writable) : ∃ h,
      (∀ d ∈ t.root.leafDepths, d = h) ∧
      (∀ key, (pathCounts key t.root).length = h + 1 ∧
        ∃ leaf, findLeafChecked t.order key t.root = .ok (some leaf)) ∧
      (∀ alloc key value, (insertRecursive t.order alloc key value t.nextAddr t.root).creates ≤ h + 1) ∧
      (0 < h → 2 * (order / 2) ^ (h - 1) * ((order - 1) / 2) ≤ (order - 1) / 2 + insertCalls tr) ∧
      (order = BTREE_DEFAULT_ORDER → insertCalls tr < 2 ^ 32 → h ≤ 5) := by
  obtain ⟨h, hg⟩ := grown_history ho hist hfile
  refine ⟨h, hg.bushy.leafDepths, fun key => ?_, fun alloc key value => ?_, fun hpos => ?_,
    fun hdefault hfew => ?_⟩
  · obtain ⟨hlen, leaf, hleaf⟩ := hg.bushy.path key
    refine ⟨hlen, leaf, ?_⟩
    rw [hg.order_eq, findLeafChecked_eq t.root hg.fits (BNode.Fits.mono hsmall t.root hg.fits), hleaf]
  · rw [hg.order_eq]
    exact (insertRecursive_bushy ho key value t.nextAddr (by omega) hg.bushy).creates
  · obtain ⟨k, rfl⟩ := Nat.exists_eq_succ_of_ne_zero (Nat.ne_of_gt hpos)
    exact hg.inserts_le
  · by_contra hhigh
    obtain ⟨k, rfl⟩ : ∃ k, h = k + 1 := ⟨h - 1, by omega⟩
    have hinserts := hg.inserts_le
    subst hdefault
    have hpow : 64 ^ 5 ≤ 64 ^ k := Nat.pow_le_pow_right (by decide) (by omega)
    change 2 * 64 ^ k * 63 ≤ 63 + insertCalls tr at hinserts
    omega

end Runs

/-- Four keys, one deleted again, in a tree of height one that is saved and opened. -/
theorem index_height_bound_reopened : ∃ tr t t', History FaultyOp.step (btreeCreate 4) tr t' ∧
    tr.head?.map Transition.before = some t ∧ t.root.leafDepths = [1, 1, 1] ∧
      ∃ h, ∀ key, (pathCounts key t'.root).length = h + 1 ∧
        ∃ leaf, findLeafChecked t'.order key t'.root = .ok (some leaf) := by
  have hrun : ∃ tr t, runHistory FaultyOp.step [] (btreeCreate 4)
      [.call (.insert 1 ⟨0, 0⟩) allocOk, .call (.insert 2 ⟨0, 1⟩) allocOk, .call (.insert 3 ⟨0, 2⟩) allocOk,
        .call (.insert 4 ⟨0, 3⟩) allocOk, .call (.delete 1) allocOk] = some (tr, t) ∧
      t.root.leafDepths = [1, 1, 1] ∧ t.Writable ∧ ∀ x ∈ tr, x.act = .reopen → x.before.Writable := by
    refine ⟨_, _, rfl, rfl, ⟨by decide, by decide, ?_⟩, ?_⟩
    · change BNode.Writable (.inner [2, 3] [.leaf ⟨0, [], some 1⟩, .leaf ⟨1, [(2, ⟨0, 1⟩)], some 2⟩,
        .leaf ⟨2, [(3, ⟨0, 2⟩), (4, ⟨0, 3⟩)], none⟩])
      simp [BNode.Writable, BNode.WritableList, BLeaf.keys, RecordPtr.Storable]
    · simp only [List.forall_mem_cons, List.not_mem_nil, false_implies, implies_true, and_true, reduceCtorEq]
  obtain ⟨tr, t, hrun, hdepths, hwritable, hfile⟩ := hrun
  obtain ⟨n, addr, hopen, -⟩ := btreeOpen_btreeFile hwritable
  have hreopen : FaultyOp.step t .reopen = some _ := hopen
  have hist := (History.of_runHistory .nil hrun).cons .reopen hreopen
  obtain ⟨h, -, hpath, -⟩ :=
    index_height_bound (by decide) (by decide) hist (List.forall_mem_cons.mpr ⟨fun _ => hwritable, hfile⟩)
  exact ⟨_, t, _, hist, rfl, hdepths, h, hpath⟩

end Ticketing
