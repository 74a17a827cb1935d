import Ticketing.Storage.BTreeChecked
import Ticketing.Storage.BTreeSave

/-!
# An index file is opened as it was written (`server/storage/btree.c`)

`btree_open` finds no node too large in a file that `btree_save` wrote, so the tree comes back.

* `readNodeChecked_writeNode` — `read_node` stays inside the arrays.
* `FullInv.reopen` — `btree_open` of the file of a tree.
-/

set_option autoImplicit false

namespace Ticketing

open Bytes

section Nodes

variable {order : Nat}

/-- `node_create` with memory. -/
theorem nodeCreate_ok (ho : order + 1 < 2 ^ 31) (isLeaf : Bool) (creates : Nat) :
    nodeCreate allocOk order isLeaf creates = true := by
  unfold nodeCreate allocOk
  rw [Bool.and_true, decide_eq_true_iff]
  split <;> omega

mutual

/-- **`read_node` of a node that fits** stays inside its arrays. -/
theorem readNodeChecked_writeNode (ho : order + 1 < 2 ^ 31) : ∀ n : BNode, n.Writable → n.Fits order →
    ∀ (fuel : Nat) (p : ReadPos) (rest : Bytes), (writeNode n).length ≤ fuel → p.rest = writeNode n ++ rest →
      ∃ n' q, readNodeChecked allocOk order fuel p = .ok (some (n', q)) ∧ n'.Fits order ∧ q.rest = rest
  | .leaf l, ⟨hlen, _, _⟩, hfits, fuel, p, rest, hfuel, hp => by
    match fuel, hfuel with
    | fuel + 1, _ =>
      have hcount : l.keys.length = l.entries.length := List.length_map _
      have hkeys : l.keys.length ≤ order := hcount ▸ hfits
      simp only [writeNode, List.append_assoc] at hp
      simp only [readNodeChecked, hp]
      rw [freadU32_append (by decide)]
      dsimp only
      rw [freadU32_append hlen]
      dsimp only
      rw [show (1 != 0) = true from rfl, nodeCreate_ok ho,
        touch_ok (by rw [Nat.zero_add]; exact Nat.le_trans (itemsStored_le _ _ _) hkeys)]
      simp only [Bool.not_true, Bool.false_eq_true, if_false, if_true, Except.bind]
      rw [fread_append (length_flatMap_const (length_toLE 4) _)]
      dsimp only
      rw [touch_ok (by rw [Nat.zero_add]; exact Nat.le_trans (itemsStored_le _ _ _) hkeys),
        fread_append (by rw [length_flatMap_const fun e => e.2.length_encode, hcount])]
      refine ⟨_, _, rfl, ?_, rfl⟩
      unfold BNode.Fits
      rw [List.length_zip, length_chunks]
      omega
  | .inner ks cs, ⟨hlen, _, hcs, hw⟩, ⟨hks, hfits⟩, fuel, p, rest, hfuel, hp => by
    match fuel, hfuel with
    | fuel + 1, hfuel =>
      have hroom : (writeChildren cs).length ≤ fuel := by
        simp only [writeNode, List.length_append, length_toLE] at hfuel
        omega
      obtain ⟨cs', q, hreads, hfits', hq⟩ := readChildrenChecked_writeChildren ho cs hw hfits fuel
        ⟨p.addr, p.creates + 1, writeChildren cs ++ rest⟩ rest 0 hroom rfl (by omega)
      rw [hcs] at hreads
      simp only [writeNode, List.append_assoc] at hp
      simp only [readNodeChecked, hp]
      rw [freadU32_append (by decide)]
      dsimp only
      rw [freadU32_append hlen]
      dsimp only
      rw [show (0 != 0) = false from rfl, nodeCreate_ok ho,
        touch_ok (by rw [Nat.zero_add]; exact Nat.le_trans (itemsStored_le _ _ _) hks)]
      simp only [Bool.not_true, Bool.false_eq_true, if_false, Except.bind]
      rw [fread_append (length_flatMap_const (length_toLE 4) _)]
      dsimp only
      rw [hreads]
      refine ⟨_, _, rfl, ⟨?_, hfits'⟩, hq⟩
      rw [length_chunks]
      exact hks

theorem readChildrenChecked_writeChildren (ho : order + 1 < 2 ^ 31) : ∀ cs : List BNode,
    BNode.WritableList cs → BNode.FitsList order cs → ∀ (fuel : Nat) (p : ReadPos) (rest : Bytes) (i : Nat),
      (writeChildren cs).length ≤ fuel → p.rest = writeChildren cs ++ rest → i + cs.length ≤ order + 1 →
      ∃ cs' q, readChildrenChecked (readNodeChecked allocOk order fuel) order cs.length i p =
        .ok (cs', some q) ∧ BNode.FitsList order cs' ∧ q.rest = rest
  | [], _, _, _, p, _, _, _, hp, _ => ⟨[], p, rfl, trivial, hp⟩
  | c :: cs, ⟨hc, hcs⟩, ⟨hfit, hfits⟩, fuel, p, rest, i, hfuel, hp, hi => by
    simp only [writeChildren, List.length_append] at hfuel
    rw [writeChildren, List.append_assoc] at hp
    rw [List.length_cons] at hi
    obtain ⟨c', q, hread, hfit', hq⟩ :=
      readNodeChecked_writeNode ho c hc hfit fuel p (writeChildren cs ++ rest) (by omega) hp
    obtain ⟨cs', q', hreads, hfits', hq'⟩ :=
      readChildrenChecked_writeChildren ho cs hcs hfits fuel q rest (i + 1) (by omega) hq (by omega)
    refine ⟨c' :: cs', q', ?_, ⟨hfit', hfits'⟩, hq'⟩
    rw [List.length_cons, readChildrenChecked, hread, touch_ok (by omega)]
    simp only [Except.bind]
    rw [hreads]
    rfl

end

/-- `btree_open` with memory, of a file that has been written. -/
theorem btreeOpenChecked_btreeFile {t : BTree} (hw : t.Writable) (ho : t.order + 1 < 2 ^ 31)
    (hfits : t.root.Fits t.order) : ∃ t', btreeOpenChecked allocOk (btreeFile t) = .ok (some t') ∧
      btreeOpen (btreeFile t) = some t' := by
  have hfuel : (writeNode t.root).length ≤ (btreeFile t).length := by
    simp only [btreeFile, List.length_append]
    omega
  obtain ⟨n', q, hread, hfits', hq⟩ := readNodeChecked_writeNode ho t.root hw.root hfits (btreeFile t).length
    ⟨0, 0, writeNode t.root⟩ [] hfuel (List.append_nil _).symm
  have hplain := readNode_of_checked allocOk _ hread
  refine ⟨⟨linkLeaves n' none, t.order, t.size, false, q.addr⟩, ?_, ?_⟩
  · unfold btreeOpenChecked
    rw [show btreeFile t = toLE 4 BTREE_MAGIC ++ (toLE 4 t.order ++ (toLE 4 t.size ++
        (toLE 4 1 ++ writeNode t.root))) from rfl] at hread ⊢
    rw [freadU32_append (by decide)]
    dsimp only
    rw [freadU32_append hw.order]
    dsimp only
    rw [freadU32_append hw.size]
    dsimp only
    rw [freadU32_append (by decide)]
    dsimp only
    rw [if_neg (not_not.mpr rfl), if_pos Nat.one_ne_zero, hread]
    simp only [Except.bind]
    rw [linkLeavesChecked_ok n' hfits']
    rfl
  · unfold btreeOpen
    rw [show btreeFile t = toLE 4 BTREE_MAGIC ++ (toLE 4 t.order ++ (toLE 4 t.size ++
        (toLE 4 1 ++ writeNode t.root))) from rfl] at hplain ⊢
    rw [freadU32_append (by decide), Option.bind_some, freadU32_append hw.order, Option.bind_some,
      freadU32_append hw.size, Option.bind_some, freadU32_append (by decide), Option.bind_some,
      if_neg (not_not.mpr rfl), if_pos Nat.one_ne_zero, hplain]
    rfl

end Nodes

/-- **The file of a tree** opens to a tree for the same map. -/
theorem FullInv.reopen {order : Nat} {t : BTree} {m : BtreeMap} (h : FullInv order t m)
    (ho : order + 2 < 2 ^ 31) : ∃ t', btreeOpenChecked allocOk (btreeFile t) = .ok (some t') ∧
      FullInv order t' m ∧ t'.root.shape = t.root.shape ∧ t'.dirty = false ∧
      btreeFile t' = btreeFile t := by
  have horder := h.order_eq
  obtain ⟨t', hopen, hinv, hsized, ho', -, hshape, hclean, hfile⟩ :=
    btreeOpen_btreeSave_within (by omega) h.inv h.sized
  obtain ⟨t'', hchecked, hplain⟩ :=
    btreeOpenChecked_btreeFile (h.writable (by omega)) (by omega) h.fits
  have hsame : t'' = t' := Option.some.inj (hplain.symm.trans hopen)
  subst hsame
  exact ⟨t'', hchecked, ⟨ho'.trans horder, hinv, hsized⟩, hshape, hclean, hfile⟩

/-- A tree of the same shape is ordered alike. -/
theorem BTreeInv.of_shape {order : Nat} {t t' : BTree} {m m' : BtreeMap} (h : BTreeInv order t m')
    (h' : FullInv order t' m) (hshape : t'.root.shape = t.root.shape) : BTreeInv order t' m := by
  obtain ⟨height, hord⟩ := h.ordered
  exact ⟨h.small, h'.order_eq, ⟨height, hord.of_shape hshape⟩, h'.inv.linked, h'.inv.addr_nodup, h'.inv.addr_lt,
    h'.inv.size_eq, h'.inv.represents⟩

end Ticketing
