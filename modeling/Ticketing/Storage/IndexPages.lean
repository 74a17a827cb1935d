import Ticketing.Storage.BTreeHeight
import Ticketing.Storage.BTreeEntries

/-!
# Where an index leads

Whatever memory `node_create` finds and however often a tree is saved and opened again, its entries lead to
pages that they were inserted with.

* `BTree.Leads` — the tree fits its arrays and the file format, and its entries lead to the first pages of a
  data file.
* `BTree.Leads.search`, `.insert`, `.delete` — one call.
* `IndexLeads` — the same of every tree that `btree_open` makes of a file; `BTree.Leads.saved`.
-/

set_option autoImplicit false

namespace Ticketing

open Bytes

mutual

/-- The nodes fit their arrays and the file format, and the entries lead to the first `pages` pages. -/
def BNode.Leads (order pages : Nat) : BNode → Prop
  | .leaf l => l.entries.length ≤ order ∧ ∀ e ∈ l.entries, e.1 < 2 ^ 32 ∧ e.2.pageId < pages ∧ e.2.slotId < 2 ^ 16
  | .inner ks cs =>
    ks.length ≤ order ∧ (∀ k ∈ ks, k < 2 ^ 32) ∧ cs.length = ks.length + 1 ∧ BNode.LeadsList order pages cs

/-- The same of a list of subtrees. -/
def BNode.LeadsList (order pages : Nat) : List BNode → Prop
  | [] => True
  | c :: cs => c.Leads order pages ∧ BNode.LeadsList order pages cs

end

/-- The tree leads to the first `pages` pages of its data file. -/
structure BTree.Leads (t : BTree) (pages : Nat) : Prop where
  order : 0 < t.order ∧ t.order < 2 ^ 32
  size : t.size < 2 ^ 32
  root : t.root.Leads t.order pages

section Nodes

variable {order pages : Nat}

theorem leadsList_iff {cs : List BNode} :
    BNode.LeadsList order pages cs ↔ ∀ c ∈ cs, c.Leads order pages := by
  induction cs with
  | nil => simp [BNode.LeadsList]
  | cons c cs ih => simp [BNode.LeadsList, ih]

mutual

theorem BNode.Leads.mono {pages' : Nat} (hle : pages ≤ pages') : ∀ {n : BNode}, n.Leads order pages →
    n.Leads order pages'
  | .leaf _, ⟨hlen, h⟩ => ⟨hlen, fun e he => ⟨(h e he).1, Nat.lt_of_lt_of_le (h e he).2.1 hle, (h e he).2.2⟩⟩
  | .inner _ _, ⟨hlen, hkeys, hcount, h⟩ => ⟨hlen, hkeys, hcount, BNode.LeadsList.mono hle h⟩

theorem BNode.LeadsList.mono {pages' : Nat} (hle : pages ≤ pages') : ∀ {cs : List BNode},
    BNode.LeadsList order pages cs → BNode.LeadsList order pages' cs
  | [], _ => trivial
  | _ :: _, ⟨hc, hcs⟩ => ⟨hc.mono hle, BNode.LeadsList.mono hle hcs⟩

end

mutual

theorem BNode.Leads.entries : ∀ {n : BNode}, n.Leads order pages → n.EntriesIn fun e => e.2.pageId < pages
  | .leaf _, ⟨_, h⟩ => entriesIn_leaf.mpr fun e he => (h e he).2.1
  | .inner _ _, ⟨_, _, _, h⟩ => entriesIn_inner.mpr (BNode.LeadsList.entries h)

theorem BNode.LeadsList.entries : ∀ {cs : List BNode}, BNode.LeadsList order pages cs →
    ∀ c ∈ cs, c.EntriesIn fun e => e.2.pageId < pages
  | [], _ => fun _ hc => absurd hc List.not_mem_nil
  | _ :: _, ⟨hc, hcs⟩ => List.forall_mem_cons.mpr ⟨hc.entries, BNode.LeadsList.entries hcs⟩

end

mutual

/-- A tree that leads somewhere can be written. -/
theorem BNode.Leads.writable (ho : order < 2 ^ 32) (hp : pages ≤ 2 ^ 32) : ∀ {n : BNode},
    n.Leads order pages → n.Writable
  | .leaf l, ⟨hlen, h⟩ => by
    refine ⟨by rw [BLeaf.keys, List.length_map]; omega, fun k hk => ?_, fun e he => ?_⟩
    · obtain ⟨e, he, rfl⟩ := List.mem_map.mp hk
      exact (h e he).1
    · exact ⟨Nat.lt_of_lt_of_le (h e he).2.1 hp, (h e he).2.2⟩
  | .inner _ _, ⟨hlen, hkeys, hcount, h⟩ =>
    ⟨Nat.lt_of_le_of_lt hlen ho, hkeys, hcount, BNode.LeadsList.writable ho hp h⟩

theorem BNode.LeadsList.writable (ho : order < 2 ^ 32) (hp : pages ≤ 2 ^ 32) : ∀ {cs : List BNode},
    BNode.LeadsList order pages cs → BNode.WritableList cs
  | [], _ => trivial
  | _ :: _, ⟨hc, hcs⟩ => ⟨hc.writable ho hp, BNode.LeadsList.writable ho hp hcs⟩

end

mutual

theorem leads_shape : ∀ n : BNode, n.shape.Leads order pages ↔ n.Leads order pages
  | .leaf _ => Iff.rfl
  | .inner ks cs => by
    have hlen : (BNode.shapeList cs).length = cs.length := length_shapeList cs
    simp only [BNode.shape, BNode.Leads, hlen, leadsList_shapeList cs]

theorem leadsList_shapeList : ∀ cs : List BNode,
    BNode.LeadsList order pages (BNode.shapeList cs) ↔ BNode.LeadsList order pages cs
  | [] => Iff.rfl
  | c :: cs => and_congr (leads_shape c) (leadsList_shapeList cs)

theorem length_shapeList : ∀ cs : List BNode, (BNode.shapeList cs).length = cs.length
  | [] => rfl
  | _ :: cs => congrArg (· + 1) (length_shapeList cs)

end

/-! ## Deletion -/

mutual

/-- A write to a leaf that adds no entry. -/
theorem modifyLeaf_leads {key : Nat} {f : List (Nat × RecordPtr) → List (Nat × RecordPtr)}
    (hf : ∀ es, (f es).length ≤ es.length ∧ f es ⊆ es) : ∀ {n : BNode}, n.Leads order pages →
      (modifyLeaf key f n).Leads order pages
  | .leaf l, ⟨hlen, h⟩ => by
    rw [modifyLeaf]
    exact ⟨Nat.le_trans (hf l.entries).1 hlen, fun e he => h e ((hf l.entries).2 he)⟩
  | .inner ks cs, ⟨hlen, hkeys, hcount, h⟩ => by
    obtain ⟨hcs, hsame⟩ : BNode.LeadsList order pages (modifyLeafChild key f (childIndex ks key) cs) ∧
        (modifyLeafChild key f (childIndex ks key) cs).length = cs.length :=
      modifyLeafChild_leads hf (childIndex ks key) h
    rw [modifyLeaf]
    exact ⟨hlen, hkeys, hsame.trans hcount, hcs⟩

theorem modifyLeafChild_leads {key : Nat} {f : List (Nat × RecordPtr) → List (Nat × RecordPtr)}
    (hf : ∀ es, (f es).length ≤ es.length ∧ f es ⊆ es) : ∀ (i : Nat) {cs : List BNode},
      BNode.LeadsList order pages cs → BNode.LeadsList order pages (modifyLeafChild key f i cs) ∧
        (modifyLeafChild key f i cs).length = cs.length
  | _, [], _ => by
    rw [modifyLeafChild]
    exact ⟨trivial, rfl⟩
  | 0, _ :: _, ⟨hc, hcs⟩ => by
    rw [modifyLeafChild]
    exact ⟨⟨modifyLeaf_leads hf hc, hcs⟩, rfl⟩
  | i + 1, _ :: cs, ⟨hc, hcs⟩ => by
    obtain ⟨h, hsame⟩ : BNode.LeadsList order pages (modifyLeafChild key f i cs) ∧
        (modifyLeafChild key f i cs).length = cs.length := modifyLeafChild_leads hf i hcs
    rw [modifyLeafChild]
    exact ⟨⟨hc, h⟩, congrArg (· + 1) hsame⟩

end

/-! ## Insertion -/

/-- What an insertion leaves in a node and its new right half. -/
def InsertResult.Leads (order pages : Nat) (r : InsertResult) : Prop :=
  r.node.Leads order pages ∧
    ∀ promoted right, r.split = some (promoted, right) → promoted < 2 ^ 32 ∧ right.Leads order pages

theorem mem_insertAt {α : Type} {pos : Nat} {x y : α} {xs : List α} (h : y ∈ insertAt pos x xs) :
    y = x ∨ y ∈ xs := by
  rcases List.mem_append.mp h with hy | hy
  · exact Or.inr (List.mem_of_mem_take hy)
  · rcases List.mem_cons.mp hy with rfl | hy
    · exact Or.inl rfl
    · exact Or.inr (List.mem_of_mem_drop hy)

theorem getD_lt {ks : List Nat} (h : ∀ k ∈ ks, k < 2 ^ 32) (i : Nat) : ks.getD i 0 < 2 ^ 32 := by
  rw [List.getD_eq_getElem?_getD]
  cases hk : ks[i]? with
  | none => exact Nat.two_pow_pos 32
  | some k => exact h k (List.mem_of_getElem? hk)

theorem splitLeaf_leads (alloc : Nat → Bool) (nextAddr : Nat) {leaf : BLeaf}
    (h : (BNode.leaf leaf).Leads order pages) : (splitLeaf alloc nextAddr leaf).Leads order pages := by
  obtain ⟨hlen, hall⟩ := h
  have hkeys : ∀ k ∈ leaf.keys, k < 2 ^ 32 := by
    intro k hk
    obtain ⟨e, he, rfl⟩ := List.mem_map.mp hk
    exact (hall e he).1
  unfold splitLeaf
  simp only
  split
  · refine ⟨⟨?_, fun e he => hall e (List.mem_of_mem_take he)⟩, fun promoted right hr => ?_⟩
    · rw [List.length_take]
      omega
    · cases hr
      refine ⟨getD_lt hkeys _, ?_, fun e he => hall e (List.mem_of_mem_drop he)⟩
      rw [List.length_drop]
      omega
  · exact ⟨⟨hlen, hall⟩, fun _ _ hr => by cases hr⟩

theorem splitInternal_leads (alloc : Nat → Bool) (creates nextAddr peak : Nat) {ks : List Nat}
    {cs : List BNode} (hpos : 0 < ks.length) (h : (BNode.inner ks cs).Leads order pages) :
    (splitInternal alloc creates nextAddr peak ks cs).Leads order pages := by
  obtain ⟨hlen, hkeys, hcount, hcs⟩ := h
  rw [leadsList_iff] at hcs
  unfold splitInternal
  simp only
  split
  · refine ⟨⟨?_, fun k hk => hkeys k (List.mem_of_mem_take hk), ?_,
      leadsList_iff.mpr fun c hc => hcs c (List.mem_of_mem_take hc)⟩, fun promoted right hr => ?_⟩
    · rw [List.length_take]
      omega
    · rw [List.length_take, List.length_take]
      omega
    · cases hr
      refine ⟨getD_lt hkeys _, ?_, fun k hk => hkeys k (List.mem_of_mem_drop hk), ?_,
        leadsList_iff.mpr fun c hc => hcs c (List.mem_of_mem_drop hc)⟩
      · rw [List.length_drop]
        omega
      · rw [List.length_drop, List.length_drop]
        omega
  · exact ⟨⟨hlen, hkeys, hcount, leadsList_iff.mpr hcs⟩, fun _ _ hr => by cases hr⟩

variable {alloc : Nat → Bool} {key : Nat} {value : RecordPtr} {nextAddr : Nat}

mutual

theorem insertRecursive_leads (hkey : key < 2 ^ 32) (hpage : value.pageId < pages)
    (hslot : value.slotId < 2 ^ 16) : ∀ {n : BNode}, n.Leads order pages →
      insertAccesses order alloc key value nextAddr n = .ok () →
      (insertRecursive order alloc key value nextAddr n).Leads order pages
  | .leaf l, ⟨hlen, hall⟩, haccess => by
    rw [insertAccesses] at haccess
    obtain ⟨found, hfound, haccess⟩ := except_bind_ok haccess
    have hexact := keyFindExact_of_checked hfound
    rw [insertRecursive]
    simp only
    split
    · exact ⟨⟨hlen, hall⟩, fun _ _ hr => by cases hr⟩
    · rename_i hnew
      cases found with
      | some p =>
        unfold keyFindExact at hexact
        simp only at hexact
        rw [if_neg hnew] at hexact
        cases hexact
      | none =>
        obtain ⟨_, hshift, -⟩ := except_bind_ok haccess
        have hroom := shiftRightChecked_room (keyLowerBound_le l.keys key) hshift
        rw [BLeaf.keys, List.length_map] at hroom
        have hleaf : ∀ pos, (BNode.leaf { l with entries := insertAt pos (key, value) l.entries }).Leads
            order pages := by
          refine fun pos => ⟨by rw [length_insertAt]; exact hroom, fun e he => ?_⟩
          rcases mem_insertAt he with rfl | he
          · exact ⟨hkey, hpage, hslot⟩
          · exact hall e he
        split
        · exact splitLeaf_leads alloc nextAddr (hleaf _)
        · exact ⟨hleaf _, fun _ _ hr => by cases hr⟩
  | .inner ks cs, ⟨hlen, hkeys, hcount, hcs⟩, haccess => by
    rw [insertAccesses] at haccess
    obtain ⟨i, hi, haccess⟩ := except_bind_ok haccess
    obtain rfl := childIndex_of_checked hi
    obtain ⟨-, -, haccess⟩ := except_bind_ok haccess
    obtain ⟨_, hchildren, haccess⟩ := except_bind_ok haccess
    have hlow := childIndex_le ks key
    have hchild : (insertChild order alloc key value nextAddr (childIndex ks key) cs).Leads order pages :=
      insertChild_leads hkey hpage hslot (childIndex ks key) hcs (by omega) hchildren
    rw [insertRecursive]
    simp only at haccess ⊢
    generalize insertChild order alloc key value nextAddr (childIndex ks key) cs = r at hchild haccess ⊢
    have hset : ∀ c ∈ cs.set (childIndex ks key) r.node, c.Leads order pages := by
      intro c hc
      rcases List.mem_or_eq_of_mem_set hc with hc | rfl
      · exact leadsList_iff.mp hcs c hc
      · exact hchild.1
    split
    · rename_i promoted right herror hr
      rw [herror, hr] at haccess
      obtain ⟨pos, hpos, haccess⟩ := except_bind_ok haccess
      obtain ⟨_, hshift, -⟩ := except_bind_ok haccess
      obtain rfl := keyLowerBound_of_checked hpos
      have hroom := shiftRightChecked_room (keyLowerBound_le ks promoted) hshift
      obtain ⟨hpromoted, hright⟩ := hchild.2 promoted right hr
      have hnode : (BNode.inner (insertAt (keyLowerBound ks promoted) promoted ks)
          (insertAt (keyLowerBound ks promoted + 1) right (cs.set (childIndex ks key) r.node))).Leads
          order pages := by
        refine ⟨by rw [length_insertAt]; exact hroom, fun k hk => ?_, ?_, leadsList_iff.mpr fun c hc => ?_⟩
        · rcases mem_insertAt hk with rfl | hk
          · exact hpromoted
          · exact hkeys k hk
        · rw [length_insertAt, length_insertAt, List.length_set, hcount]
        · rcases mem_insertAt hc with rfl | hc
          · exact hright
          · exact hset c hc
      split
      · exact splitInternal_leads alloc _ _ _ (by rw [length_insertAt]; omega) hnode
      · exact ⟨hnode, fun _ _ hr => by cases hr⟩
    · refine ⟨⟨hlen, hkeys, ?_, leadsList_iff.mpr hset⟩, fun _ _ hr => by cases hr⟩
      rw [List.length_set, hcount]

theorem insertChild_leads (hkey : key < 2 ^ 32) (hpage : value.pageId < pages)
    (hslot : value.slotId < 2 ^ 16) : ∀ (i : Nat) {cs : List BNode}, BNode.LeadsList order pages cs →
      i < cs.length → insertChildAccesses order alloc key value nextAddr i cs = .ok () →
      (insertChild order alloc key value nextAddr i cs).Leads order pages
  | _, [], _, hi, _ => absurd hi (Nat.not_lt_zero _)
  | 0, c :: _, ⟨hc, _⟩, _, haccess => by
    rw [insertChildAccesses] at haccess
    rw [insertChild]
    exact insertRecursive_leads hkey hpage hslot hc haccess
  | i + 1, _ :: cs, ⟨_, hcs⟩, hi, haccess => by
    rw [insertChildAccesses] at haccess
    rw [insertChild]
    exact insertChild_leads hkey hpage hslot i hcs (Nat.lt_of_succ_lt_succ hi) haccess

end

end Nodes

/-! ## One call -/

section Calls

variable {t : BTree} {pages key : Nat}

theorem BTree.Leads.mono {pages' : Nat} (h : t.Leads pages) (hle : pages ≤ pages') : t.Leads pages' :=
  ⟨h.order, h.size, h.root.mono hle⟩

theorem btreeCreate_leads {order : Nat} (ho : 0 < order) (ho' : order < 2 ^ 32) :
    (btreeCreate order).Leads pages :=
  ⟨⟨ho, ho'⟩, Nat.two_pow_pos 32, Nat.zero_le _, fun _ he => absurd he List.not_mem_nil⟩

theorem BTree.Leads.search (h : t.Leads pages) {rc : Int} {ptr : RecordPtr}
    (hs : btreeSearchChecked t key = .ok (rc, some ptr)) : ptr.pageId < pages := by
  obtain ⟨_, hpage⟩ := btreeSearch_entry h.root.entries (btreeSearch_of_checked hs)
  exact hpage

theorem BTree.Leads.delete (h : t.Leads pages) {r : Int × BTree} (hs : btreeDeleteChecked t key = .ok r) :
    r.2.Leads pages := by
  rw [← btreeDelete_of_checked hs]
  unfold btreeDelete
  split
  · exact h
  · refine ⟨h.order, Nat.mod_lt _ (Nat.two_pow_pos 32), modifyLeaf_leads (fun es => ⟨?_, List.eraseIdx_subset⟩)
      h.root⟩
    exact List.length_eraseIdx_le es _

theorem BTree.Leads.insert (h : t.Leads pages) {alloc : Nat → Bool} {value : RecordPtr} {r : Int × BTree}
    (hkey : key < 2 ^ 32) (hpage : value.pageId < pages) (hslot : value.slotId < 2 ^ 16)
    (hs : btreeInsertChecked alloc t key value = .ok r) : r.2.Leads pages := by
  obtain ⟨u, haccess, rfl⟩ := except_map_ok hs
  have hr := insertRecursive_leads hkey hpage hslot h.root haccess
  have hsize : (t.size + 1) % 2 ^ 32 < 2 ^ 32 := Nat.mod_lt _ (Nat.two_pow_pos 32)
  unfold btreeInsert
  simp only
  generalize insertRecursive t.order alloc key value t.nextAddr t.root = r at hr ⊢
  split
  · exact ⟨h.order, h.size, hr.1⟩
  · split
    · exact ⟨h.order, hsize, hr.1⟩
    · rename_i promoted right hsplit
      obtain ⟨hpromoted, hright⟩ := hr.2 promoted right hsplit
      split
      · refine ⟨h.order, hsize, h.order.1, fun k hk => ?_, rfl, hr.1, hright, trivial⟩
        rw [List.mem_singleton.mp hk]
        exact hpromoted
      · exact ⟨h.order, h.size, hr.1⟩

end Calls

/-! ## Index files -/

/-- Whatever `btree_open` makes of the file leads to the first `pages` pages. -/
def IndexLeads (pages : Nat) (file : Bytes) : Prop :=
  ∀ alloc t, btreeOpenChecked alloc file = .ok (some t) → t.Leads pages

theorem IndexLeads.mono {pages pages' : Nat} {file : Bytes} (h : IndexLeads pages file) (hle : pages ≤ pages') :
    IndexLeads pages' file := fun alloc t ht => (h alloc t ht).mono hle

/-- **A tree that has been saved** leads to the same pages when it is opened. -/
theorem BTree.Leads.saved {t : BTree} {pages : Nat} (h : t.Leads pages) (hp : pages ≤ 2 ^ 32) :
    IndexLeads pages (btreeFile t) := by
  intro alloc t' ht'
  have hw : t.Writable := ⟨h.order.2, h.size, h.root.writable h.order.2 hp⟩
  obtain ⟨n', addr, hopen, hshape, -⟩ := btreeOpen_btreeFile hw
  have hsame : btreeOpen (btreeFile t) = some t' := by
    -- the file has a root
    unfold btreeOpenChecked at ht'
    unfold btreeOpen
    rw [show btreeFile t = toLE 4 BTREE_MAGIC ++ (toLE 4 t.order ++ (toLE 4 t.size ++
        (toLE 4 1 ++ writeNode t.root))) from rfl] at ht' ⊢
    rw [freadU32_append (by decide)] at ht' ⊢
    simp only [Option.bind_some] at ht' ⊢
    rw [freadU32_append h.order.2] at ht' ⊢
    simp only [Option.bind_some] at ht' ⊢
    rw [freadU32_append h.size] at ht' ⊢
    simp only [Option.bind_some] at ht' ⊢
    rw [freadU32_append (by decide)] at ht' ⊢
    simp only [Option.bind_some] at ht' ⊢
    rw [if_neg (not_not.mpr rfl), if_pos Nat.one_ne_zero] at ht' ⊢
    obtain ⟨r, hr, ht'⟩ := except_bind_ok ht'
    cases r with
    | none => cases ht'
    | some r =>
      obtain ⟨-, -, he⟩ := except_map_ok ht'
      cases he
      rw [readNode_of_checked alloc _ (q := r.2) (n := r.1) hr]
      rfl
  obtain rfl := Option.some.inj (hsame.symm.trans hopen)
  refine ⟨h.order, h.size, (leads_shape _).mp ?_⟩
  rw [hshape]
  exact (leads_shape _).mpr h.root

end Ticketing
