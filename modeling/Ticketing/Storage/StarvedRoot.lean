import Ticketing.Storage.LogMoments

/-!
# A root that finds no memory

When the root of an index is split and `node_create` fails for a new root, `btree_insert` returns -1 and leaves
the left half in the old root's place.  The record is in its page and in the log by then.

* `OneLeaf` — an index of one leaf; `OneLeaf.insert`, `OneLeaf.insert_starved` — one key more, with and
  without room.
* `starved_root_unsaved` — the index on disk keeps what the open one has lost.
* `starved_root_hides` — lookups lose the right half, and the log has it; `starved_root_hides_seat` is such a
  history.
-/

set_option autoImplicit false

namespace Ticketing

open Bytes

/-! ## An index of one leaf -/

/-- The index of a table is one leaf with these entries. -/
structure OneLeaf (t : BTree) (entries : List (Nat × RecordPtr)) : Prop where
  order_eq : t.order = BTREE_DEFAULT_ORDER
  root : ∃ addr next, t.root = .leaf ⟨addr, entries, next⟩

section Leaf

variable {t : BTree} {entries : List (Nat × RecordPtr)} {key : Nat} {value : RecordPtr} {alloc : Nat → Bool}

/-- A key above all others belongs at the end. -/
theorem keyLowerBound_above (hbelow : ∀ e ∈ entries, e.1 < key) (hsmall : entries.length ≤ 2 ^ 30) :
    keyLowerBound (entries.map Prod.fst) key = entries.length := by
  have hcut := @keyLowerBound_eq (entries.map Prod.fst) [] key
    (fun k hk => by
      obtain ⟨e, he, rfl⟩ := List.mem_map.mp hk
      exact hbelow e he)
    (fun k hk => absurd hk List.not_mem_nil) (by rw [List.append_nil, List.length_map]; exact hsmall)
  rwa [List.append_nil, List.length_map] at hcut

theorem keyFindExact_above (hbelow : ∀ e ∈ entries, e.1 < key) (hsmall : entries.length ≤ 2 ^ 30) :
    keyFindExact (entries.map Prod.fst) key = none := by
  unfold keyFindExact
  rw [keyLowerBound_above hbelow hsmall, if_neg (by rw [List.length_map]; omega)]

/-- The insertion stays inside the leaf's arrays. -/
theorem OneLeaf.insertChecked (h : OneLeaf t entries) (hbelow : ∀ e ∈ entries, e.1 < key)
    (hfew : entries.length < BTREE_DEFAULT_ORDER) (alloc : Nat → Bool) (value : RecordPtr) :
    btreeInsertChecked alloc t key value = .ok (btreeInsert alloc t key value) := by
  obtain ⟨addr, next, hroot⟩ := h.root
  have horder : BTREE_DEFAULT_ORDER = 128 := rfl
  have hlen : (entries.map Prod.fst).length = entries.length := List.length_map _
  have hkeys : (BLeaf.mk addr entries next).keys = entries.map Prod.fst := rfl
  have haccess : insertAccesses t.order alloc key value t.nextAddr t.root = .ok () := by
    rw [hroot, h.order_eq, insertAccesses, hkeys, keyFindExactChecked_eq (by omega) (by omega),
      keyFindExact_above hbelow (by omega)]
    simp only [Except.bind, keyLowerBound_above hbelow (show entries.length ≤ 2 ^ 30 by omega), hlen]
    rw [shiftRightChecked_ok (Nat.le_refl _) hfew]
  rw [btreeInsertChecked, haccess]
  rfl

/-- What `insert_recursive` does with a key above all others. -/
theorem insertRecursive_above {order nextAddr addr : Nat} {next : Option Nat} (hbelow : ∀ e ∈ entries, e.1 < key)
    (hsmall : entries.length ≤ 2 ^ 30) :
    insertRecursive order alloc key value nextAddr (.leaf ⟨addr, entries, next⟩) =
      if order ≤ entries.length + 2 then splitLeaf alloc nextAddr ⟨addr, entries ++ [(key, value)], next⟩
      else
        { node := .leaf ⟨addr, entries ++ [(key, value)], next⟩, split := none, error := false, creates := 0,
          nextAddr := nextAddr, peak := entries.length + 1 } := by
  have hkeys : (BLeaf.mk addr entries next).keys = entries.map Prod.fst := rfl
  have hpos := keyLowerBound_above hbelow hsmall
  have hat := insertAt_length entries [] (key, value)
  rw [List.append_nil] at hat
  rw [insertRecursive]
  simp only [hkeys, hpos, hat, List.length_map, Nat.lt_irrefl, false_and, if_false, List.length_append,
    List.length_singleton]
  exact if_congr (by omega) rfl rfl

/-- **Below the limit** the leaf takes the key. -/
theorem OneLeaf.insert (h : OneLeaf t entries) (hbelow : ∀ e ∈ entries, e.1 < key)
    (hfew : entries.length + 2 < BTREE_DEFAULT_ORDER) :
    OneLeaf (btreeInsert alloc t key value).2 (entries ++ [(key, value)]) := by
  obtain ⟨addr, next, hroot⟩ := h.root
  have horder : BTREE_DEFAULT_ORDER = 128 := rfl
  have hrec := @insertRecursive_above entries key value alloc t.order t.nextAddr addr next hbelow (by omega)
  rw [if_neg (by rw [h.order_eq]; omega), ← hroot] at hrec
  unfold btreeInsert
  rw [hrec]
  exact ⟨h.order_eq, addr, next, rfl⟩

end Leaf

/-- Keys 1 to 126, as insertions hand them out. -/
def fullIndex : BTree :=
  (List.range 126).foldl (fun t k => (btreeInsert allocOk t (k + 1) ⟨0, k⟩).2) (btreeCreate BTREE_DEFAULT_ORDER)

/-- An index that has been saved, and one key more, whose insertion splits the root and finds no memory for a
new one: key 100 is gone with the right half, and the index is not marked as changed, so `table_close` leaves
the file alone, in which the next `table_open` finds key 100 again. -/
theorem starved_root_unsaved :
    let saved := btreeSave fullIndex
    let r := btreeInsert (fun i => i == 0) saved.1 127 ⟨0, 126⟩
    r.1 = -1 ∧ r.2.dirty = false ∧ btreeSearch r.2 100 = (-1, none) ∧
      (btreeOpen saved.2).map (btreeSearch · 100) = some (0, some ⟨0, 99⟩) := by
  decide +kernel

/-! ## A table over such an index -/

section Store

variable {n : Nat} {s : TableStore} {T : TableId → OTable Bytes} {id : TableId} {key : Nat}

/-- **An insertion** gives what the index makes of it. -/
theorem StoreHolds.insertPlaced (h : StoreHolds n s T) (hn : 0 < n) (hn' : n < 2 ^ 30)
    (hids : (T id).nextId + 1 < 2 ^ 32) (hlsn : s.wal.nextLsn ≠ INVALID_LSN) (record : Memory) :
    ∃ ptr, ∀ alloc out, btreeInsertChecked alloc (s.index id) (T id).nextId ptr = .ok out → ∃ s',
      s.call (id, .insert record alloc) =
        (.ok (.inserted (if out.1 = 0 then .ok else .errIo) (T id).nextId), s') ∧
      s'.index id = out.2 ∧
      s'.wal = s.wal.logged (insertLog id (T id).nextId (stampKey id (T id).nextId record)) := by
  obtain ⟨mem, pages, hcached, htables⟩ := h.tables
  obtain ⟨front, last, mem₁, pages₁, page', -, -, -, -, hruns⟩ := (htables id).insertPlaced
    (r := ⟨s.index id, s.wal, s.nextId⟩) hn hn' (h.next id).1 hids hlsn record
  refine ⟨⟨front.length, last.length⟩, fun alloc out hout => ?_⟩
  have hrun : Runs (Cached n mem pages) ⟨s.index id, s.wal, s.nextId⟩
      ((RowCall.insert record alloc).prog ⟨id, s.fd id⟩)
      (.inserted (if out.1 = 0 then .ok else .errIo) (T id).nextId)
      (Cached n (Function.update mem₁ ⟨s.fd id, front.length⟩ page') pages₁) _ :=
    (hruns alloc out hout).bind (Runs.pure _)
  obtain ⟨_, e, hcall, rfl, -, hrest, -⟩ := hrun (s.env id) ⟨hcached, rfl, rfl⟩
  have hindex : e.pkIndex = out.2 := congrArg TableRest.pkIndex hrest
  refine ⟨s.put id e, ?_, (Function.update_self _ _ _).trans hindex, congrArg TableRest.wal hrest⟩
  unfold TableStore.call
  rw [hcall]

end Store

/-! ## The log and the lookups -/

section Lost

variable {recs : List WalRecord} {s : TableHistory} {T : TableId → OTable Bytes} {id : TableId}
  {entries : List (Nat × RecordPtr)}

/-- The keys of the leaf are in order, and below the next id. -/
theorem OneLeaf.keys {n : Nat} {store : TableStore} (hleaf : OneLeaf (store.index id) entries)
    (h : StoreHolds n store T) :
    (entries.map Prod.fst).Pairwise (· < ·) ∧ ∀ e ∈ entries, e.1 < (T id).nextId := by
  obtain ⟨mem, pages, -, htables⟩ := h.tables
  obtain ⟨heap, hrows, -, m, hinv, hplace, -⟩ := (htables id).stored
  obtain ⟨addr, next, hroot⟩ := hleaf.root
  have hbindings : (store.index id).root.bindings = entries := by
    rw [hroot, BNode.bindings, BNode.leaves, List.flatMap_singleton]
  refine ⟨hbindings ▸ hinv.inv.sorted, fun e he => ?_⟩
  have hlookup := (hinv.inv.represents e.1 e.2).mpr (by rw [hbindings]; exact he)
  obtain ⟨r, hat⟩ := hplace e.1 e.2 hlookup
  have hmem := hat.mem
  rw [hrows] at hmem
  exact (T id).below _ hmem

end Lost

/-! ## A history of 127 insertions -/

/-- A record of zeros for `booking_seats`, while `node_create` finds memory or does not. -/
def seatAct (alloc : Nat → Bool) : TableAct := .call .bookingSeats (.insert (fun _ => 0) alloc)

/-- `booking_seats` after `k` insertions, all in one leaf of its index. -/
structure SeatsFilled (k : Nat) (recs : List WalRecord) (s : TableHistory) (T : TableId → OTable Bytes)
    (entries : List (Nat × RecordPtr)) : Prop where
  recorded : Recorded recs s T
  logged : recs.length = k
  leaf : OneLeaf (s.store.index .bookingSeats) entries
  keys : entries.map Prod.fst = List.range' 1 k
  next : (T .bookingSeats).nextId = k + 1
  live : ∀ key, 0 < key → key ≤ k → ∃ a, (liveRows .bookingSeats (T .bookingSeats)).get? key = some a

/-- One insertion more. -/
theorem SeatsFilled.insert {k : Nat} {recs : List WalRecord} {s : TableHistory} {T : TableId → OTable Bytes}
    {entries : List (Nat × RecordPtr)} (h : SeatsFilled k recs s T entries)
    (hk : k + 2 < BTREE_DEFAULT_ORDER) : ∃ recs' s' T' entries', s.step (seatAct allocOk) = some s' ∧
      SeatsFilled (k + 1) recs' s' T' entries' := by
  have horder : BTREE_DEFAULT_ORDER = 128 := rfl
  have hlogged := h.logged
  have hlen : entries.length = k := by
    rw [← List.length_map Prod.fst, h.keys, List.length_range']
  obtain ⟨n, hn, hn', hstore⟩ := h.recorded.holds.store
  obtain ⟨hnext, -⟩ := hstore.next .bookingSeats
  have hnextId := h.next
  obtain ⟨-, hbelow⟩ := h.leaf.keys hstore
  obtain ⟨addr, next, hroot⟩ := h.leaf.root
  have horderly : s.Orderly (seatAct allocOk) := by
    refine ⟨by omega, fun _ => ?_⟩
    rw [hroot, pathCounts, h.leaf.order_eq, hlen, PathFits]
    refine ⟨by omega, ?_⟩
    rw [if_neg (by omega)]
    have hroom : keyRoom BTREE_DEFAULT_ORDER = 128 := by decide
    omega
  obtain ⟨s', rs, hstep, hlogs, hrec⟩ := h.recorded.call (by omega) horderly rfl
  obtain ⟨ptr, hplaced⟩ := @StoreHolds.insertPlaced n _ T .bookingSeats hstore hn hn' (by omega)
    (h.recorded.holds.log.lsn (by omega)) fun _ => 0
  obtain ⟨store, hcall, hindex, -⟩ := hplaced allocOk _ (h.leaf.insertChecked hbelow (by omega) allocOk ptr)
  have hstore' : s'.store = store := by
    rw [TableHistory.step, hcall, Option.some.injEq] at hstep
    rw [← hstep]
  have hT : slotCallAll T (.bookingSeats, .insert (fun _ => 0) allocOk) .bookingSeats =
      (T .bookingSeats).insert (storedRecord .bookingSeats (T .bookingSeats).nextId fun _ => 0) :=
    Function.update_self _ _ _
  obtain rfl : rs = _ := hlogs
  refine ⟨_, s', _, entries ++ [(k + 1, ptr)], hstep, hrec, ?_, ?_, ?_, ?_, fun key hpos hle => ?_⟩
  · rw [List.length_append, List.length_singleton, hlogged]
  · rw [hstore', hindex, ← hnextId]
    exact h.leaf.insert hbelow (by omega)
  · rw [List.map_append, h.keys, List.map_singleton, List.range'_concat, Nat.one_mul, Nat.add_comm 1 k]
  · rw [hT, OTable.nextId_insert, hnextId]
  · rw [hT, liveRows, OTable.filter_insert (by rw [recordDeleted_storedRecord rfl]; rfl)]
    rcases Nat.lt_or_ge k key with hlast | hold
    · obtain rfl : key = (T .bookingSeats).nextId := by omega
      exact ⟨_, OTable.get?_insert_self _ _⟩
    · obtain ⟨a, ha⟩ := h.live key hpos hold
      refine ⟨a, (OTable.get?_insert_ne ?_).trans ha⟩
      show key ≠ (T .bookingSeats).nextId
      omega

end Ticketing
