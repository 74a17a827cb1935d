import Ticketing.Storage.BTreeFile
import Mathlib.Data.Finset.Sort

/-!
# Range scans of the B+ tree

`btree_range_scan` starts in the leaf that the separators choose for the lower bound and follows the
`next` pointers until a key is past the upper bound.

* `scanEntries`, `scanLeaves`, `btreeRangeScan` — the two loops; a pointer to no leaf, or a chain that
  does not end, has no result.
* `scanEntries_spec`, `scanLeaves_spec` — what a loop over entries in ascending order stores.
* `IndexOp` — the calls of `btree.h` together with a save and the open after it.
* `range_scan_filters_map_iff` — the orders for which the scan is the map, filtered, after any of these.
-/

set_option autoImplicit false

namespace Ticketing

/-! ## The scan -/

/-- The loop over the entries of a leaf: the results so far, and whether a key was past `high`. -/
def scanEntries (low high : Nat) (max : Int) :
    List (Nat × RecordPtr) → List RecordPtr → List RecordPtr × Bool
  | [], results => (results, false)
  | e :: es, results =>
    if results.length < max then
      if high < e.1 then (results, true)
      else scanEntries low high max es (if low ≤ e.1 then results ++ [e.2] else results)
    else (results, false)

/-- The loop along the leaf chain, dereferencing pointers among `heap`. -/
def scanLeaves (heap : List BLeaf) (low high : Nat) (max : Int) :
    Nat → BLeaf → List RecordPtr → Option (List RecordPtr)
  | 0, _, _ => none
  | fuel + 1, leaf, results =>
    if results.length < max then
      match scanEntries low high max leaf.entries results with
      | (results, true) => some results
      | (results, false) =>
        match leaf.next with
        | none => some results
        | some a =>
          match heap.find? (fun l => l.addr == a) with
          | none => none
          | some next => scanLeaves heap low high max fuel next results
    else some results

/-- `btree_range_scan`: what it stores in `results`; it returns how many they are. -/
def btreeRangeScan (t : BTree) (low high : Nat) (max : Int) : Except BadAccess (Option (List RecordPtr)) :=
  if max ≤ 0 then .ok (some [])
  else if high < low then .ok (some [])
  else
    (findLeafChecked t.order low t.root).map fun
      | none => some []
      | some leaf => scanLeaves t.root.leaves low high max t.root.leaves.length leaf []

/-! ## What the loops store -/

section Loops

variable {low high : Nat} {max : Int}

/-- The values of the keys between the bounds. -/
def hits (low high : Nat) (es : List (Nat × RecordPtr)) : List RecordPtr :=
  (es.filter fun e => low ≤ e.1 ∧ e.1 ≤ high).map Prod.snd

theorem hits_append (es es' : List (Nat × RecordPtr)) :
    hits low high (es ++ es') = hits low high es ++ hits low high es' := by
  simp [hits]

theorem hits_above {es : List (Nat × RecordPtr)} (h : ∀ e ∈ es, high < e.1) :
    hits low high es = [] := by
  simp only [hits, List.map_eq_nil_iff, List.filter_eq_nil_iff]
  intro e he hin
  have := h e he
  have : e.1 ≤ high := (of_decide_eq_true hin).2
  omega

theorem hits_below {es : List (Nat × RecordPtr)} (h : ∀ e ∈ es, e.1 < low) :
    hits low high es = [] := by
  simp only [hits, List.map_eq_nil_iff, List.filter_eq_nil_iff]
  intro e he hin
  have := h e he
  have : low ≤ e.1 := (of_decide_eq_true hin).1
  omega

/-- What is stored once the loops have passed `es`. -/
def scanned (low high : Nat) (max : Int) (results : List RecordPtr) (es : List (Nat × RecordPtr)) :
    List RecordPtr :=
  results ++ (hits low high es).take (max.toNat - results.length)

theorem scanned_full {results : List RecordPtr} (h : ¬ (results.length : Int) < max)
    (es : List (Nat × RecordPtr)) : scanned low high max results es = results := by
  have hz : max.toNat - results.length = 0 := by omega
  rw [scanned, hz, List.take_zero, List.append_nil]

theorem scanned_append {results : List RecordPtr} (es es' : List (Nat × RecordPtr)) :
    scanned low high max (scanned low high max results es) es' =
      scanned low high max results (es ++ es') := by
  simp only [scanned, hits_append, List.append_assoc, List.length_append, List.length_take,
    List.take_append]
  congr 3
  omega

theorem scanned_none {results : List RecordPtr} {es : List (Nat × RecordPtr)}
    (h : hits low high es = []) : scanned low high max results es = results := by
  rw [scanned, h, List.take_nil, List.append_nil]

/-- One turn of the loop over the entries. -/
theorem scanned_cons {results : List RecordPtr} (h : (results.length : Int) < max)
    {e : Nat × RecordPtr} (hle : e.1 ≤ high) (es : List (Nat × RecordPtr)) :
    scanned low high max results (e :: es) =
      scanned low high max (if low ≤ e.1 then results ++ [e.2] else results) es := by
  by_cases hlow : low ≤ e.1
  · obtain ⟨room, hroom⟩ : ∃ room, max.toNat - results.length = room + 1 :=
      ⟨max.toNat - results.length - 1, by omega⟩
    have hrest : max.toNat - (results ++ [e.2]).length = room := by
      rw [List.length_append, List.length_singleton]
      omega
    rw [if_pos hlow, scanned, scanned, hroom, hrest]
    simp [hits, hlow, hle]
  · rw [if_neg hlow, scanned, scanned]
    simp [hits, hlow]

/-- **The loop over a leaf.**  Where it stops at a key past `high`, what follows has no hits. -/
theorem scanEntries_spec : ∀ (es : List (Nat × RecordPtr)) (results : List RecordPtr),
    (es.map Prod.fst).Pairwise (· < ·) →
    (scanEntries low high max es results).1 = scanned low high max results es ∧
      ((scanEntries low high max es results).2 = true → ∃ e ∈ es, high < e.1) := by
  intro es
  induction es with
  | nil =>
    intro results _
    exact ⟨by simp [scanEntries, scanned, hits], fun h => absurd h Bool.false_ne_true⟩
  | cons e es ih =>
    intro results hs
    rw [List.map_cons, List.pairwise_cons] at hs
    rw [scanEntries]
    by_cases hroom : (results.length : Int) < max
    · rw [if_pos hroom]
      by_cases hhigh : high < e.1
      · -- the key and all after it are past the upper bound
        rw [if_pos hhigh]
        refine ⟨?_, fun _ => ⟨e, List.mem_cons_self, hhigh⟩⟩
        have habove : hits low high (e :: es) = [] := by
          refine hits_above fun x hx => ?_
          rcases List.mem_cons.mp hx with rfl | hx
          · exact hhigh
          · have := hs.1 x.1 (List.mem_map_of_mem hx)
            omega
        rw [scanned_none habove]
      · rw [if_neg hhigh]
        obtain ⟨hres, hstop⟩ := ih (if low ≤ e.1 then results ++ [e.2] else results) hs.2
        refine ⟨?_, fun h => ?_⟩
        · rw [hres, scanned_cons hroom (Nat.not_lt.mp hhigh)]
        · obtain ⟨x, hx, hlt⟩ := hstop h
          exact ⟨x, List.mem_cons_of_mem _ hx, hlt⟩
    · rw [if_neg hroom]
      exact ⟨(scanned_full hroom _).symm, fun h => absurd h Bool.false_ne_true⟩

/-- **The loop along the chain** stores the hits of all leaves from `leaf` on. -/
theorem scanLeaves_spec {heap : List BLeaf} (hd : (heap.map BLeaf.addr).Nodup) :
    ∀ (post : List BLeaf) {leaf : BLeaf} {results : List RecordPtr} {fuel : Nat},
    Linked leaf.next post → (∀ l ∈ post, l ∈ heap) → post.length < fuel →
    (((leaf :: post).flatMap BLeaf.entries).map Prod.fst).Pairwise (· < ·) →
    scanLeaves heap low high max fuel leaf results =
      some (scanned low high max results ((leaf :: post).flatMap BLeaf.entries)) := by
  intro post
  induction post with
  | nil =>
    intro leaf results fuel hlink _ hfuel hs
    obtain ⟨fuel, rfl⟩ : ∃ f, fuel = f + 1 := ⟨fuel - 1, by omega⟩
    simp only [List.flatMap_cons, List.flatMap_nil, List.append_nil] at hs ⊢
    rw [scanLeaves]
    by_cases hroom : (results.length : Int) < max
    · rw [if_pos hroom]
      obtain ⟨hres, -⟩ := scanEntries_spec leaf.entries results hs

      have hnext : leaf.next = none := hlink
      generalize scanEntries low high max leaf.entries results = r at hres
      obtain ⟨stored, stop⟩ := r
      cases stop
      · simp only [hnext]
        exact congrArg some hres
      · exact congrArg some hres
    · rw [if_neg hroom, scanned_full hroom]
  | cons next post ih =>
    intro leaf results fuel hlink hheap hfuel hs
    obtain ⟨fuel, rfl⟩ : ∃ f, fuel = f + 1 := ⟨fuel - 1, by omega⟩
    rw [List.flatMap_cons, List.map_append, List.pairwise_append] at hs
    rw [scanLeaves, List.flatMap_cons]
    by_cases hroom : (results.length : Int) < max
    · rw [if_pos hroom]
      obtain ⟨hres, hstop⟩ := scanEntries_spec leaf.entries results hs.1

      obtain ⟨hnext, hrest⟩ := hlink
      generalize scanEntries low high max leaf.entries results = r at hres hstop
      obtain ⟨stored, stop⟩ := r
      obtain rfl : stored = _ := hres
      cases stop
      · simp only [hnext, find?_addr hd (hheap next List.mem_cons_self)]
        rw [ih hrest (fun l hl => hheap l (List.mem_cons_of_mem _ hl))
          (by rw [List.length_cons] at hfuel; omega) hs.2.1, scanned_append]
      · -- a key of this leaf is past the upper bound, and the leaves behind it only have larger ones
        obtain ⟨e, he, hhigh⟩ := hstop rfl
        have habove : hits low high ((next :: post).flatMap BLeaf.entries) = [] := by
          refine hits_above fun x hx => ?_
          have := hs.2.2 e.1 (List.mem_map_of_mem he) x.1 (List.mem_map_of_mem hx)
          omega
        rw [← scanned_append, scanned_none habove]
    · rw [if_neg hroom, scanned_full hroom]

end Loops

/-! ## The scan of a tree -/

/-- The keys of a map between the bounds, in ascending order. -/
def BtreeMap.keysBetween (m : BtreeMap) (low high : Nat) : List Nat :=
  (m.keys.filter fun k => low ≤ k ∧ k ≤ high).sort (· ≤ ·)

/-- Bindings in ascending order, filtered, are the map, filtered. -/
theorem hits_represents {m : BtreeMap} {bs : List (Nat × RecordPtr)} (h : Represents m bs)
    (hs : (bs.map Prod.fst).Pairwise (· < ·)) (low high : Nat) :
    (hits low high bs).map some = (m.keysBetween low high).map m.lookup := by
  have hkeys : m.keysBetween low high =
      (bs.filter fun e => low ≤ e.1 ∧ e.1 ≤ high).map Prod.fst := by
    have hfilter : (bs.filter fun e => low ≤ e.1 ∧ e.1 ≤ high).map Prod.fst =
        (bs.map Prod.fst).filter fun k => low ≤ k ∧ k ≤ high := by
      rw [List.filter_map]
      rfl
    have hsorted := hs.filter fun k => low ≤ k ∧ k ≤ high
    have hfinset : (bs.map Prod.fst).toFinset.filter (fun k => low ≤ k ∧ k ≤ high) =
        ((bs.map Prod.fst).filter fun k => low ≤ k ∧ k ≤ high).toFinset := by
      ext k
      simp
    rw [BtreeMap.keysBetween, h.keys, hfilter, hfinset]
    exact (List.toFinset_sort (· ≤ ·) (hsorted.imp Nat.ne_of_lt)).mpr (hsorted.imp Nat.le_of_lt)
  rw [hkeys, hits, List.map_map, List.map_map]
  refine List.map_congr_left fun e he => ?_
  exact ((h e.1 e.2).mpr (List.mem_of_mem_filter he)).symm

/-- **The scan of a tree that keeps its invariant.** -/
theorem btreeRangeScan_spec {order : Nat} (horder : 3 ≤ order) {t : BTree} {m : BtreeMap}
    (inv : BTreeInv order t m) (low high : Nat) {max : Int} (hmax : 0 < max) :
    ∃ results, btreeRangeScan t low high max = .ok (some results) ∧
      results.map some = ((m.keysBetween low high).take max.toNat).map m.lookup := by
  rw [btreeRangeScan, if_neg (Int.not_le.mpr hmax), List.map_take,
    ← hits_represents inv.represents inv.sorted, ← List.map_take]
  by_cases hlow : high < low
  · have hnone : hits low high t.root.bindings = [] := by
      simp only [hits, List.map_eq_nil_iff, List.filter_eq_nil_iff, decide_eq_true_eq]
      omega
    exact ⟨[], if_pos hlow, by rw [hnone, List.take_nil]⟩
  · obtain ⟨h, ho⟩ := inv.ordered
    obtain ⟨pre, leaf, post, F⟩ := findLeaf_spec inv.small ho (inRange_none low)
    have hsorted := inv.sorted
    have hbind : t.root.bindings =
        pre.flatMap BLeaf.entries ++ (leaf :: post).flatMap BLeaf.entries := by
      rw [BNode.bindings, F.leaves, List.flatMap_append]
    -- the leaves before the one that is found only have keys below the lower bound
    have hbelow : hits low high (pre.flatMap BLeaf.entries) = [] := by
      refine hits_below fun e he => ?_
      obtain ⟨l, hl, hel⟩ := List.mem_flatMap.mp he
      exact F.left l hl e.1 (List.mem_map_of_mem hel)
    have hlinked : Linked leaf.next post := by
      obtain ⟨p, hp⟩ := inv.linked
      rw [F.leaves] at hp
      exact hp.next
    rw [hbind, List.map_append, List.pairwise_append] at hsorted
    refine ⟨scanned low high max [] ((leaf :: post).flatMap BLeaf.entries), ?_, ?_⟩
    · have hsmall := inv.small
      rw [if_neg hlow, inv.order_eq, findLeafChecked_eq t.root (ho.fits (by omega)) (ho.fits (by omega)), F.found]
      refine congrArg Except.ok (scanLeaves_spec inv.addr_nodup post hlinked (fun l hl => ?_) ?_ hsorted.2.1)
      · rw [F.leaves]
        exact List.mem_append_right _ (List.mem_cons_of_mem _ hl)
      · rw [F.leaves, List.length_append, List.length_cons]
        omega
    · rw [hbind, hits_append, hbelow, scanned, List.nil_append, List.nil_append, List.length_nil,
        Nat.sub_zero]

/-! ## Runs with saves and opens -/

/-- A call of `btree.h`, or a `btree_save` and the `btree_open` of the file it writes. -/
inductive IndexOp where
  | call (op : BtOp)
  | reopen

/-- The arguments fit their types. -/
def IndexOp.Fits : IndexOp → Prop
  | .call op => op.Fits
  | .reopen => True

/-- The tree after it; a call that leaves an array gets nowhere. -/
def indexStep (t : BTree) : IndexOp → Option BTree
  | .call op => (btreeStepChecked allocOk t op).toOption.map Prod.snd
  | .reopen => btreeOpen (btreeSave t).2

/-- The same on the map. -/
def IndexOp.mapStep (m : BtreeMap) : IndexOp → BtreeMap
  | .call op => (Ticketing.mapStep m op).2
  | .reopen => m

section Runs

variable {order : Nat}

/-- One operation keeps the tree's invariant, and a file that is saved can be opened. -/
theorem indexStep_spec (ho : 3 ≤ order) {t : BTree} {m : BtreeMap} (inv : BTreeInv order t m)
    (hsize : FileSized order t) {op : IndexOp} (hop : op.Fits) :
    ∃ t', indexStep t op = some t' ∧ BTreeInv order t' (op.mapStep m) ∧ FileSized order t' := by
  cases op with
  | call op =>
    refine ⟨_, ?_, (btreeStep_refines ho inv op).2, hsize.step ho inv hop⟩
    rw [indexStep, inv.stepChecked ho op]
    rfl
  | reopen =>
    obtain ⟨t', hopen, hinv, hsized, -⟩ := btreeOpen_btreeSave inv hsize
    exact ⟨t', hopen, hinv, hsized⟩

theorem indexRun_spec (ho : 3 ≤ order) (ops : List IndexOp) :
    ∀ {t : BTree} {m : BtreeMap}, BTreeInv order t m → FileSized order t → (∀ op ∈ ops, op.Fits) →
      ∃ t', ops.foldlM indexStep t = some t' ∧ BTreeInv order t' (ops.foldl IndexOp.mapStep m) := by
  induction ops with
  | nil => intro t m inv _ _; exact ⟨t, rfl, inv⟩
  | cons op ops ih =>
    intro t m inv hsize hops
    rw [List.forall_mem_cons] at hops
    obtain ⟨t', hstep, hinv, hsized⟩ := indexStep_spec ho inv hsize hops.1
    obtain ⟨t'', hrun, hinv'⟩ := ih hinv hsized hops.2
    exact ⟨t'', by rw [List.foldlM_cons, hstep]; exact hrun, hinv'⟩

/-- Calls one after the other. -/
theorem foldlM_indexStep_call : ∀ (ops : List BtOp) {t t' : BTree},
    (ops.map IndexOp.call).foldlM indexStep t = some t' →
      ∃ outs, tryOps (btreeStepChecked allocOk) t ops = .ok (outs, t')
  | [], _, _, h => ⟨[], congrArg _ (congrArg _ (Option.some.inj h))⟩
  | op :: ops, t, t', h => by
    rw [List.map_cons, List.foldlM_cons, indexStep] at h
    rw [tryOps]
    cases hstep : btreeStepChecked allocOk t op with
    | error e =>
      rw [hstep] at h
      cases h
    | ok r =>
      rw [hstep] at h
      obtain ⟨outs, hrun⟩ := foldlM_indexStep_call ops h
      refine ⟨r.1 :: outs, ?_⟩
      simp only [hrun]
      rfl

/-- **A range scan of the tree that some operations lead to**, which all stay inside the arrays like the scan
itself: it stores the values of the first `max_results` stored keys between the bounds, in ascending order of the
keys, and returns how many they are. -/
def ScansMap (order : Nat) (ops : List IndexOp) (low high : Nat) (max : Int) : Prop :=
  ∃ t results, ops.foldlM indexStep (btreeCreate order) = some t ∧ t.root.Fits t.order ∧
    btreeRangeScan t low high max = .ok (some results) ∧
    results.map some = (((ops.foldl IndexOp.mapStep ∅).keysBetween low high).take max.toNat).map
      (ops.foldl IndexOp.mapStep ∅).lookup ∧
    results.length = min max.toNat
      (((ops.foldl IndexOp.mapStep ∅).keys.filter fun k => low ≤ k ∧ k ≤ high).card)

theorem scansMap (ho : 3 ≤ order) (hsmall : order ≤ 2 ^ 30 + 2) {ops : List IndexOp}
    (hops : ∀ op ∈ ops, op.Fits) (low high : Nat) {max : Int} (hmax : 0 < max) :
    ScansMap order ops low high max := by
  obtain ⟨t, hrun, inv⟩ := indexRun_spec ho ops (btreeCreate_inv hsmall) (fileSized_create order) hops
  obtain ⟨results, hscan, hvalues⟩ := btreeRangeScan_spec ho inv low high hmax
  obtain ⟨height, hord⟩ := inv.ordered
  have hfits : t.root.Fits t.order := by
    rw [inv.order_eq]
    exact hord.fits (Nat.sub_le _ _)
  refine ⟨t, results, hrun, hfits, hscan, hvalues, ?_⟩
  have hlength := congrArg List.length hvalues
  rw [List.length_map, List.length_map, List.length_take, BtreeMap.keysBetween,
    Finset.length_sort] at hlength
  exact hlength

/-- The calls that overflow, without a save between them. -/
theorem not_scansMap (ho : 2 ^ 30 + 3 ≤ order) (low high : Nat) (max : Int) :
    ¬ ScansMap order ((overflowRun (2 ^ 30 + 1)).map .call) low high max := by
  rintro ⟨t, results, hrun, -⟩
  obtain ⟨outs, hrun⟩ := foldlM_indexStep_call _ hrun
  obtain ⟨e, he⟩ := @overflowRun_fails order (2 ^ 30 + 1) rfl (by omega)
  rw [he] at hrun
  cases hrun

/-- **A range scan is the map, filtered**, whatever inserts, deletes, updates and saves with the open after them
led to the tree, for just the orders up to `2 ^ 30 + 2`: with a greater one the tree can get a leaf that
`key_lower_bound` cannot search. -/
theorem range_scan_filters_map_iff (ho : 3 ≤ order) :
    (∀ ops low high max, (∀ op ∈ ops, IndexOp.Fits op) → 0 < max → ScansMap order ops low high max) ↔
      order ≤ 2 ^ 30 + 2 := by
  constructor
  · intro hall
    by_contra hlarge
    refine not_scansMap (by omega) 0 0 1 (hall _ 0 0 1 ?_ Int.one_pos)
    exact List.forall_mem_map.mpr (overflowRun_fits rfl)
  · exact fun hsmall ops low high max hops hmax => scansMap ho hsmall hops low high hmax

end Runs

/-- A leaf that deletions emptied stands between the two results. -/
theorem range_scan_filters_map_emptied :
    ScansMap 3 [.call (.insert 1 ⟨0, 1⟩), .call (.insert 2 ⟨0, 2⟩), .call (.insert 3 ⟨0, 3⟩),
      .call (.delete 2), .reopen] 1 3 10 :=
  (range_scan_filters_map_iff (Nat.le_refl 3)).mpr (by decide) _ 1 3 10
    (by simp [IndexOp.Fits, BtOp.Fits, RecordPtr.Storable]) (by decide)

/-- A scan for key 0, of which the keys are in a leaf of order `2 ^ 30 + 3` with `2 ^ 30 + 1` keys. -/
theorem overflowing_leaf_scanned : (∀ op ∈ (overflowRun (2 ^ 30 + 1)).map IndexOp.call, op.Fits) ∧
    ¬ ScansMap (2 ^ 30 + 3) ((overflowRun (2 ^ 30 + 1)).map .call) 0 0 1 :=
  ⟨List.forall_mem_map.mpr (overflowRun_fits rfl), not_scansMap (Nat.le_refl _) 0 0 1⟩

end Ticketing
