import Ticketing.Storage.BTreeChecked

/-!
# The entries of any index

Whatever shape a tree has (one read from a file may have any), a search returns a record pointer of one of
its entries, and a deletion adds no entry.

* `EntriesIn` — every entry of a tree satisfies `p`; `btreeSearch_entry`, `btreeDelete_entries`.
-/

set_option autoImplicit false

namespace Ticketing

/-! ## Entries -/

/-- Every entry in the leaves satisfies `p`. -/
def BNode.EntriesIn (p : Nat × RecordPtr → Prop) (n : BNode) : Prop :=
  ∀ l ∈ n.leaves, ∀ e ∈ l.entries, p e

section Entries

variable {p : Nat × RecordPtr → Prop}

theorem entriesIn_inner {ks : List Nat} {cs : List BNode} :
    (BNode.inner ks cs).EntriesIn p ↔ ∀ c ∈ cs, c.EntriesIn p := by
  simp only [BNode.EntriesIn, BNode.leaves, BNode.mem_leavesList]
  constructor
  · intro h c hc l hl
    exact h l ⟨c, hc, hl⟩
  · rintro h l ⟨c, hc, hl⟩
    exact h c hc l hl

theorem entriesIn_leaf {l : BLeaf} : (BNode.leaf l).EntriesIn p ↔ ∀ e ∈ l.entries, p e := by
  simp [BNode.EntriesIn, BNode.leaves]

/-! ## Searching -/

mutual

theorem findLeaf_mem {key : Nat} : ∀ (n : BNode) {leaf : BLeaf}, findLeaf key n = some leaf →
    leaf ∈ n.leaves
  | .leaf l, leaf, h => by
    rw [findLeaf] at h
    cases h
    exact List.mem_singleton_self _
  | .inner ks cs, leaf, h => by
    rw [findLeaf] at h
    obtain ⟨c, hc, hl⟩ := findLeafChild_mem (childIndex ks key) cs h
    exact BNode.mem_leavesList.mpr ⟨c, hc, hl⟩

theorem findLeafChild_mem {key : Nat} : ∀ (i : Nat) (cs : List BNode) {leaf : BLeaf},
    findLeafChild key i cs = some leaf → ∃ c ∈ cs, leaf ∈ c.leaves
  | _, [], leaf, h => by
    rw [findLeafChild] at h
    cases h
  | 0, c :: cs, leaf, h => by
    rw [findLeafChild] at h
    exact ⟨c, List.mem_cons_self, findLeaf_mem c h⟩
  | i + 1, c :: cs, leaf, h => by
    rw [findLeafChild] at h
    obtain ⟨c', hc', hl⟩ := findLeafChild_mem i cs h
    exact ⟨c', List.mem_cons_of_mem _ hc', hl⟩

end

/-- **`btree_search`** returns the pointer of an entry. -/
theorem btreeSearch_entry {t : BTree} (h : t.root.EntriesIn p) {key : Nat} {rc : Int} {ptr : RecordPtr}
    (hs : btreeSearch t key = (rc, some ptr)) : ∃ k, p (k, ptr) := by
  unfold btreeSearch at hs
  split at hs
  · cases hs
  · rename_i leaf pos hpos
    obtain ⟨hrc, hptr⟩ := Prod.mk.inj hs
    obtain ⟨e, he, rfl⟩ := Option.map_eq_some_iff.mp hptr
    unfold findPos at hpos
    split at hpos
    · cases hpos
    · rename_i leaf' hleaf
      obtain ⟨q, -, hq⟩ := Option.map_eq_some_iff.mp hpos
      cases hq
      exact ⟨e.1, h leaf (findLeaf_mem t.root hleaf) e (List.mem_of_getElem? he)⟩

mutual

/-- A write to a leaf that adds no entry. -/
theorem modifyLeaf_entries {key : Nat} {f : List (Nat × RecordPtr) → List (Nat × RecordPtr)}
    (hf : ∀ es, f es ⊆ es) : ∀ n : BNode, n.EntriesIn p → (modifyLeaf key f n).EntriesIn p
  | .leaf l, h => by
    rw [modifyLeaf]
    rw [entriesIn_leaf] at h ⊢
    exact fun e he => h e (hf _ he)
  | .inner ks cs, h => by
    rw [modifyLeaf]
    rw [entriesIn_inner] at h ⊢
    exact modifyLeafChild_entries hf (childIndex ks key) cs h

theorem modifyLeafChild_entries {key : Nat} {f : List (Nat × RecordPtr) → List (Nat × RecordPtr)}
    (hf : ∀ es, f es ⊆ es) : ∀ (i : Nat) (cs : List BNode), (∀ c ∈ cs, c.EntriesIn p) →
      ∀ c ∈ modifyLeafChild key f i cs, c.EntriesIn p
  | _, [], _ => by
    rw [modifyLeafChild]
    exact fun c hc => by cases hc
  | 0, c :: cs, h => by
    rw [modifyLeafChild]
    obtain ⟨hc, hcs⟩ := List.forall_mem_cons.mp h
    exact List.forall_mem_cons.mpr ⟨modifyLeaf_entries hf c hc, hcs⟩
  | i + 1, c :: cs, h => by
    rw [modifyLeafChild]
    obtain ⟨hc, hcs⟩ := List.forall_mem_cons.mp h
    exact List.forall_mem_cons.mpr ⟨hc, modifyLeafChild_entries hf i cs hcs⟩

end

/-- **`btree_delete`** adds no entry. -/
theorem btreeDelete_entries {t : BTree} (h : t.root.EntriesIn p) (key : Nat) :
    (btreeDelete t key).2.root.EntriesIn p := by
  unfold btreeDelete
  split
  · exact h
  · exact modifyLeaf_entries (fun es => List.eraseIdx_subset) _ h

end Entries

end Ticketing
