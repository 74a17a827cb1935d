import Ticketing.Lib.OrderedTable
import Ticketing.Lib.PagedList
import Ticketing.Storage.BTreeReopen
import Ticketing.Storage.TableRuns

/-!
# What a table holds

A table is the list of the records ever inserted, each under the id it was given, deleted ones included:
`OTable Bytes`.  Its pages hold the list in order, and its index leads from an id to the place of the
record.

* `HeapPages`, `HeapIndex` — pages and index of a list kept in pages; `TableHolds` puts them together.
* `TableHolds.find`, `.update`, `.delete`, `.scan`, `.count`, `.insert` — one theorem for each function of
  the table layer: what it returns, and what the table holds then; `.insertPlaced` for an insertion whatever
  the index makes of it.
-/

set_option autoImplicit false

namespace Ticketing

open Bytes

/-! ## Records -/

/-- `is_record_deleted` of a record. -/
def recordDeleted (id : TableId) (record : Bytes) : Bool := record.getD (getDeletedFlagOffset id) 0 != 0

/-- `mark_record_deleted` of a record. -/
def deletedRecord (id : TableId) (record : Bytes) : Bytes := splice (getDeletedFlagOffset id) [1] record

/-- The records that are not deleted. -/
def liveRows (id : TableId) (T : OTable Bytes) : OTable Bytes := T.filter fun r => !recordDeleted id r

/-- The bytes that `table_insert` stores. -/
def storedRecord (id : TableId) (newId : Nat) (record : Memory) : Bytes :=
  (stampKey id newId record).bytes (etpRecordSize id)

/-- The log after a record that all its writes have stored. -/
def Wal.logged (wal : Wal) (r : WalRecord) : Wal :=
  { wal with file := wal.file ++ r.encode wal.nextLsn, nextLsn := wal.nextLsn + 1 }

theorem recordDeleted_deletedRecord {id : TableId} {record : Bytes}
    (h : record.length = etpRecordSize id) : recordDeleted id (deletedRecord id record) = true := by
  have hflag := getDeletedFlagOffset_lt id
  unfold recordDeleted deletedRecord
  rw [getD_splice (by rw [List.length_singleton]; omega), if_pos (by rw [List.length_singleton]; omega),
    Nat.sub_self]
  rfl

theorem get?_liveRows {id : TableId} {T : OTable Bytes} {key : Nat} {a : Bytes} :
    (liveRows id T).get? key = some a ↔ T.get? key = some a ∧ recordDeleted id a = false := by
  unfold liveRows
  rw [OTable.get?_filter, Option.filter_eq_some_iff, Bool.not_eq_true']

/-! ## Pages and index -/

/-- The records of a table with their ids, page by page. -/
abbrev Heap := List (List (Nat × Bytes))

/-- The pages hold the heap. -/
structure HeapPages (id : TableId) (heap : Heap) (pages : Nat) (page : Nat → Bytes) : Prop where
  length : heap.length = pages
  holds : ∀ p recs, heap[p]? = some recs → PageHolds (etpRecordSize id) (recs.map Prod.snd) (page p)
  filled : Paged.Filled heap

/-- The index leads to the records that are not deleted, and nowhere else but to records. -/
def HeapIndex (id : TableId) (heap : Heap) (t : BTree) : Prop :=
  ∃ m, FullInv BTREE_DEFAULT_ORDER t m ∧
    (∀ key ptr, m.lookup key = some ptr → ∃ r, Paged.At heap ptr.pageId ptr.slotId (key, r)) ∧
    ∀ p s key r, Paged.At heap p s (key, r) → recordDeleted id r = false → m.lookup key = some ⟨p, s⟩

/-- The table holds the records of `T`. -/
structure TableHolds (table : Table) (T : OTable Bytes) (mem : PageKey → Bytes) (pages : Int → Nat)
    (t : BTree) : Prop where
  ids : ∀ r ∈ T.rows, 0 < r.1
  next : 0 < T.nextId
  stored : ∃ heap : Heap, heap.flatten = T.rows ∧
    HeapPages table.id heap (pages table.dataFd) (fun p => mem ⟨table.dataFd, p⟩) ∧
    HeapIndex table.id heap t

/-- Nothing has changed outside the table's file. -/
def OnlyFile (fd : Int) (mem mem' : PageKey → Bytes) (pages pages' : Int → Nat) : Prop :=
  (∀ k : PageKey, k.fd ≠ fd → mem' k = mem k) ∧ ∀ fd', fd' ≠ fd → pages' fd' = pages fd'

theorem OnlyFile.update (fd : Int) (p : Nat) (mem : PageKey → Bytes) (page : Bytes) (pages : Int → Nat) :
    OnlyFile fd mem (Function.update mem ⟨fd, p⟩ page) pages pages :=
  ⟨fun _ hk => Function.update_of_ne (fun heq => hk (by rw [heq])) _ _, fun _ _ => rfl⟩

/-- A record in its page. -/
structure InPage (id : TableId) (page : Bytes) (slot : Nat) (r : Bytes) : Prop where
  length : r.length = etpRecordSize id
  found : pageGetRecord page slot = some (recordOffset slot (etpRecordSize id))
  inside : recordOffset slot (etpRecordSize id) + etpRecordSize id ≤ PAGE_SIZE
  bytes : slice (recordOffset slot (etpRecordSize id)) (etpRecordSize id) page = r
  deleted : isRecordDeleted id page (recordOffset slot (etpRecordSize id)) = recordDeleted id r

theorem PageHolds.inPage {id : TableId} {recs : List Bytes} {page : Bytes}
    (h : PageHolds (etpRecordSize id) recs page) {slot : Nat} {r : Bytes} (hr : recs[slot]? = some r) :
    InPage id page slot r := by
  have hlt := (List.getElem?_eq_some_iff.mp hr).1
  have hfits := h.fits
  have hflag := getDeletedFlagOffset_lt id
  have hbytes := h.record slot r hr
  refine ⟨h.length_record hr, by rw [h.getRecord, if_neg (by omega)], recordOffset_le (by omega), hbytes, ?_⟩
  unfold isRecordDeleted recordDeleted
  rw [← hbytes, getD_slice, if_pos hflag]

theorem HeapPages.inPage {id : TableId} {heap : Heap} {pages : Nat} {page : Nat → Bytes}
    (h : HeapPages id heap pages page) {p s key : Nat} {r : Bytes} (hat : Paged.At heap p s (key, r)) :
    p < pages ∧ InPage id (page p) s r := by
  obtain ⟨recs, hp, hs⟩ := hat
  refine ⟨h.length ▸ (List.getElem?_eq_some_iff.mp hp).1, (h.holds p recs hp).inPage ?_⟩
  rw [List.getElem?_map, hs]
  rfl

/-- Another record in a place. -/
theorem HeapPages.set {id : TableId} {heap : Heap} {pages : Nat} {page : Nat → Bytes}
    (h : HeapPages id heap pages page) {p s key : Nat} {recs : List (Nat × Bytes)} {a : Bytes}
    {page' : Bytes} (hp : heap[p]? = some recs)
    (hpage : PageHolds (etpRecordSize id) ((recs.map Prod.snd).set s a) page') :
    HeapPages id (Paged.set heap p s (key, a)) pages (Function.update page p page') := by
  refine ⟨Paged.length_set.trans h.length, fun q recs' hq => ?_, h.filled.set⟩
  rw [Paged.getElem?_set] at hq
  split at hq
  · rename_i heq
    subst heq
    rw [hp, Option.map_some, Option.some.injEq] at hq
    subst hq
    rw [Function.update_self, List.map_set]
    exact hpage
  · rename_i hne
    rw [Function.update_of_ne hne]
    exact h.holds q recs' hq

/-- One more record in the last page. -/
theorem HeapPages.push {id : TableId} {front : Heap} {last : List (Nat × Bytes)} {pages : Nat}
    {page : Nat → Bytes} (h : HeapPages id (front ++ [last]) pages page) {key : Nat} {a : Bytes}
    {page' : Bytes} (hpage : PageHolds (etpRecordSize id) (last.map Prod.snd ++ [a]) page') :
    HeapPages id (front ++ [last ++ [(key, a)]]) pages (Function.update page front.length page') := by
  refine ⟨?_, fun q recs hq => ?_, h.filled.last⟩
  · rw [← h.length, List.length_append, List.length_append]
    rfl
  · rcases Nat.lt_trichotomy q front.length with hlt | rfl | hgt
    · rw [Function.update_of_ne (Nat.ne_of_lt hlt)]
      rw [List.getElem?_append_left hlt] at hq
      exact h.holds q recs (by rw [List.getElem?_append_left hlt, hq])
    · rw [List.getElem?_concat_length, Option.some.injEq] at hq
      subst hq
      rw [Function.update_self, List.map_append]
      exact hpage
    · rw [List.getElem?_eq_none (by rw [List.length_append, List.length_singleton]; omega)] at hq
      cases hq

/-- One more page, behind pages that are not empty. -/
theorem HeapPages.grow {id : TableId} {heap : Heap} {pages : Nat} {page : Nat → Bytes}
    (h : HeapPages id heap pages page) (hfilled : Paged.Filled (heap ++ [[]])) :
    HeapPages id (heap ++ [[]]) (pages + 1)
      (Function.update page pages (pageInitHeader pages (etpRecordSize id))) := by
  have hsize : etpRecordSize id < 2 ^ 16 := by cases id <;> decide
  refine ⟨by rw [List.length_append, h.length]; rfl, fun q recs hq => ?_, hfilled⟩
  rcases Nat.lt_trichotomy q heap.length with hlt | rfl | hgt
  · rw [Function.update_of_ne (by have := h.length; omega)]
    rw [List.getElem?_append_left hlt] at hq
    exact h.holds q recs hq
  · rw [List.getElem?_concat_length, Option.some.injEq] at hq
    subst hq
    rw [h.length, Function.update_self]
    exact pageHolds_init _ hsize
  · rw [List.getElem?_eq_none (by rw [List.length_append, List.length_singleton]; omega)] at hq
    cases hq

section Index

variable {id : TableId} {heap : Heap} {t : BTree} {p s key : Nat} {a a' : Bytes}

theorem HeapIndex.grow (h : HeapIndex id heap t) : HeapIndex id (heap ++ [[]]) t := by
  obtain ⟨m, hinv, hplace, hlook⟩ := h
  refine ⟨m, hinv, fun key ptr hptr => ?_, fun p s key r hat => hlook p s key r (Paged.at_grow.mp hat)⟩
  obtain ⟨r, hr⟩ := hplace key ptr hptr
  exact ⟨r, Paged.at_grow.mpr hr⟩

/-- Another record in the place of one that was not deleted. -/
theorem HeapIndex.set (h : HeapIndex id heap t) (hat : Paged.At heap p s (key, a))
    (hlive : recordDeleted id a = false) : HeapIndex id (Paged.set heap p s (key, a')) t := by
  obtain ⟨m, hinv, hplace, hlook⟩ := h
  refine ⟨m, hinv, fun key' ptr hptr => ?_, fun p' s' key' r' hat' hlive' => ?_⟩
  · obtain ⟨r, hr⟩ := hplace key' ptr hptr
    by_cases hsame : ptr.pageId = p ∧ ptr.slotId = s
    · obtain ⟨rfl, rfl⟩ := hsame
      have hkey := congrArg Prod.fst (hr.unique hat)
      exact ⟨a', (Paged.at_set hat).mpr (Or.inl ⟨rfl, rfl, by rw [show key' = key from hkey]⟩)⟩
    · exact ⟨r, (Paged.at_set hat).mpr (Or.inr ⟨hsame, hr⟩)⟩
  · rcases (Paged.at_set hat).mp hat' with ⟨rfl, rfl, heq⟩ | ⟨-, hold⟩
    · rw [(Prod.mk.inj heq).1]
      exact hlook _ _ key a hat hlive
    · exact hlook _ _ key' r' hold hlive'

/-- A deleted record in the place of one that was not deleted. -/
theorem HeapIndex.delete (h : HeapIndex id heap t) (hids : (heap.flatten.map Prod.fst).Nodup)
    (hat : Paged.At heap p s (key, a)) (hlive : recordDeleted id a = false)
    (hdeleted : recordDeleted id a' = true) :
    HeapIndex id (Paged.set heap p s (key, a')) (btreeDelete t key).2 := by
  obtain ⟨m, hinv, hplace, hlook⟩ := h
  have hkey := hlook p s key a hat hlive
  have hmap : (mapStep m (.delete key)).2 = m.erase key := by simp only [mapStep, hkey]
  refine ⟨m.erase key, hmap ▸ hinv.delete key, fun key' ptr hptr => ?_, fun p' s' key' r' hat' hlive' => ?_⟩
  · have hne : key' ≠ key := by
      rintro rfl
      rw [Finmap.lookup_erase] at hptr
      cases hptr
    rw [Finmap.lookup_erase_ne hne] at hptr
    obtain ⟨r, hr⟩ := hplace key' ptr hptr
    refine ⟨r, (Paged.at_set hat).mpr (Or.inr ⟨?_, hr⟩)⟩
    rintro ⟨rfl, rfl⟩
    exact hne (congrArg Prod.fst (hr.unique hat))
  · rcases (Paged.at_set hat).mp hat' with ⟨rfl, rfl, heq⟩ | ⟨hplace', hold⟩
    · rw [(Prod.mk.inj heq).2, hdeleted] at hlive'
      cases hlive'
    · have hne : key' ≠ key := fun heq =>
        hplace' (have hinj := Paged.at_inj hids hold hat heq; ⟨hinj.1, hinj.2.1⟩)
      rw [Finmap.lookup_erase_ne hne]
      exact hlook _ _ key' r' hold hlive'

/-- One more record at the end of the last page. -/
theorem HeapIndex.push {front : Heap} {last : List (Nat × Bytes)} (h : HeapIndex id (front ++ [last]) t)
    {alloc : Nat → Bool} (hnew : key ∉ (front ++ [last]).flatten.map Prod.fst)
    (hfits : (BtOp.insert key ⟨front.length, last.length⟩).Fits) (hroom : HasRoom alloc t key) :
    (btreeInsert alloc t key ⟨front.length, last.length⟩).1 = 0 ∧
      HeapIndex id (front ++ [last ++ [(key, a)]])
        (btreeInsert alloc t key ⟨front.length, last.length⟩).2 := by
  obtain ⟨m, hinv, hplace, hlook⟩ := h
  have hnone : m.lookup key = none := by
    cases hget : m.lookup key with
    | none => rfl
    | some ptr =>
      obtain ⟨r, hr⟩ := hplace key ptr hget
      exact absurd (List.mem_map_of_mem hr.mem) hnew
  have hstep : mapStep m (.insert key ⟨front.length, last.length⟩) =
      ((0, none), m.insert key ⟨front.length, last.length⟩) := by
    simp only [mapStep, hnone]
  obtain ⟨hout, hinv', -⟩ := hinv.insert (by decide) hfits hroom
  rw [hstep] at hout hinv'
  refine ⟨congrArg Prod.fst hout, _, hinv', fun key' ptr hptr => ?_, fun p' s' key' r' hat' hlive' => ?_⟩
  · by_cases hkey : key' = key
    · subst hkey
      rw [Finmap.lookup_insert, Option.some.injEq] at hptr
      subst hptr
      exact ⟨a, Paged.at_push.mpr (Or.inr ⟨rfl, rfl, rfl⟩)⟩
    · rw [Finmap.lookup_insert_of_ne _ hkey] at hptr
      obtain ⟨r, hr⟩ := hplace key' ptr hptr
      exact ⟨r, Paged.at_push.mpr (Or.inl hr)⟩
  · rcases Paged.at_push.mp hat' with hold | ⟨rfl, rfl, heq⟩
    · have hkey : key' ≠ key := by
        rintro rfl
        exact hnew (List.mem_map_of_mem hold.mem)
      rw [Finmap.lookup_insert_of_ne _ hkey]
      exact hlook _ _ key' r' hold hlive'
    · rw [(Prod.mk.inj heq).1, Finmap.lookup_insert]

end Index

/-! ## The calls -/

section Calls

variable {n : Nat} {table : Table} {T : OTable Bytes} {mem : PageKey → Bytes} {pages : Int → Nat}
  {r : TableRest} {key : Nat} {m : BtreeMap}

theorem indexSearch_steps (h : FullInv BTREE_DEFAULT_ORDER r.pkIndex m) (key : Nat) :
    Steps r (indexSearch key) (m.lookup key) r := by
  refine Steps.index (Steps.bind (Steps.lift (h.searchChecked key)) ?_)
  cases hget : m.lookup key <;> simp only [mapStep, hget] <;> exact Steps.pure _

theorem indexDelete_steps (h : FullInv BTREE_DEFAULT_ORDER r.pkIndex m) (key : Nat) :
    Steps r (indexDelete key) () { r with pkIndex := (btreeDelete r.pkIndex key).2 } :=
  Steps.index (Steps.bind (Steps.lift (btreeDeleteChecked_eq h.fits h.fits_int key)) (Steps.setIndex _))

/-- The id of a record that is not deleted, in the heap. -/
theorem HeapIndex.find {heap : Heap} {id : TableId} {t : BTree} (hindex : HeapIndex id heap t)
    (hrows : heap.flatten = T.rows) (key : Nat) : ∃ m, FullInv BTREE_DEFAULT_ORDER t m ∧
      ((m.lookup key = none ∧ (liveRows id T).get? key = none) ∨
        ∃ ptr a, m.lookup key = some ptr ∧ Paged.At heap ptr.pageId ptr.slotId (key, a) ∧
          T.get? key = some a) := by
  obtain ⟨m, hinv, hplace, hlook⟩ := hindex
  refine ⟨m, hinv, ?_⟩
  cases hget : m.lookup key with
  | none =>
    refine Or.inl ⟨rfl, Option.eq_none_iff_forall_not_mem.mpr fun a ha => ?_⟩
    obtain ⟨ha, hlive⟩ := get?_liveRows.mp ha
    have hmem := OTable.mem_iff.mpr ha
    rw [← hrows] at hmem
    obtain ⟨p, s, hat⟩ := Paged.at_of_mem hmem
    rw [hlook p s key a hat hlive] at hget
    cases hget
  | some ptr =>
    obtain ⟨a, hat⟩ := hplace key ptr hget
    refine Or.inr ⟨ptr, a, rfl, hat, OTable.mem_iff.mp ?_⟩
    rw [← hrows]
    exact hat.mem

/-- The place of a record that is not deleted. -/
structure Place (table : Table) (T : OTable Bytes) (mem : PageKey → Bytes) (pages : Int → Nat) (t : BTree)
    (key : Nat) (a : Bytes) (heap : Heap) (ptr : RecordPtr) (recs : List (Nat × Bytes)) (m : BtreeMap) :
    Prop where
  rows : heap.flatten = T.rows
  pages : HeapPages table.id heap (pages table.dataFd) (fun p => mem ⟨table.dataFd, p⟩)
  index : HeapIndex table.id heap t
  page : heap[ptr.pageId]? = some recs
  slot : recs[ptr.slotId]? = some (key, a)
  inv : FullInv BTREE_DEFAULT_ORDER t m
  found : m.lookup key = some ptr
  live : recordDeleted table.id a = false

theorem TableHolds.place {t : BTree} (h : TableHolds table T mem pages t) {a : Bytes}
    (hlive : (liveRows table.id T).get? key = some a) :
    ∃ heap ptr recs m, Place table T mem pages t key a heap ptr recs m := by
  obtain ⟨heap, hrows, hpages, hindex⟩ := h.stored
  obtain ⟨hget, halive⟩ := get?_liveRows.mp hlive
  obtain ⟨m, hinv, ⟨-, hnone⟩ | ⟨ptr, b, hptr, ⟨recs, hp, hs⟩, hgetb⟩⟩ := hindex.find hrows key
  · rw [hlive] at hnone
    cases hnone
  · rw [hget, Option.some.injEq] at hgetb
    subst hgetb
    exact ⟨heap, ptr, recs, m, hrows, hpages, hindex, hp, hs, hinv, hptr, halive⟩

section Visit

variable {α : Type} {body : RecordPtr → Bytes → Nat → TableProg (Except EtpResult α × Option Bytes)}

/-- A lookup that leads to no record, or to a deleted one. -/
theorem TableHolds.visitRecord_missing (h : TableHolds table T mem pages r.pkIndex) (hn : 0 < n)
    (hn' : n < 2 ^ 30) (hmissing : (liveRows table.id T).get? key = none) :
    Runs (Cached n mem pages) r (visitRecord table key body) (.error .errNotFound) (Cached n mem pages)
      r := by
  obtain ⟨heap, hrows, hpages, hindex⟩ := h.stored
  obtain ⟨m, hinv, ⟨hnone, -⟩ | ⟨ptr, a, hptr, hat, hget⟩⟩ := hindex.find hrows key
  · refine Runs.bind (indexSearch_steps hinv key _) ?_
    rw [hnone]
    exact Runs.pure _
  · refine Runs.bind (indexSearch_steps hinv key _) ?_
    rw [hptr]
    obtain ⟨hin, hpage⟩ := hpages.inPage hat
    have hflag := getDeletedFlagOffset_lt table.id
    have hinside := hpage.inside
    have hdeleted : recordDeleted table.id a = true := by
      by_contra hlive
      have hsome := get?_liveRows.mpr ⟨hget, by simpa using hlive⟩
      rw [hmissing] at hsome
      cases hsome
    refine Runs.visit (w := none) hn hn' hin ?_ (fun _ hnone => by cases hnone)
    rw [hpage.found]
    refine Steps.bind (Steps.touch (by omega)) ?_
    rw [hpage.deleted, hdeleted]
    exact Steps.pure _

/-- A lookup that leads to a record that is not deleted. -/
theorem visitRecord_runs (hn : 0 < n) (hn' : n < 2 ^ 30)
    (hinv : FullInv BTREE_DEFAULT_ORDER r.pkIndex m) {ptr : RecordPtr} (hptr : m.lookup key = some ptr)
    (hin : ptr.pageId < pages table.dataFd) {a : Bytes}
    (hpage : InPage table.id (mem ⟨table.dataFd, ptr.pageId⟩) ptr.slotId a)
    (hlive : recordDeleted table.id a = false) {res : Except EtpResult α} {w : Option Bytes}
    {r' : TableRest}
    (hbody : Steps r (body ptr (mem ⟨table.dataFd, ptr.pageId⟩)
      (recordOffset ptr.slotId (etpRecordSize table.id))) (res, w) r')
    (hw : ∀ page, w = some page → page.length = PAGE_SIZE) :
    Runs (Cached n mem pages) r (visitRecord table key body) res
      (Cached n (afterVisit mem ⟨table.dataFd, ptr.pageId⟩ w) pages) r' := by
  refine Runs.bind (indexSearch_steps hinv key _) ?_
  rw [hptr]
  have hflag := getDeletedFlagOffset_lt table.id
  have hinside := hpage.inside
  refine Runs.visit hn hn' hin ?_ hw
  rw [hpage.found]
  refine Steps.bind (Steps.touch (by omega)) ?_
  rw [hpage.deleted, hlive]
  exact hbody

end Visit

/-- What `table_find_by_id` returns. -/
def findResult (id : TableId) (T : OTable Bytes) (key : Nat) : Except EtpResult Bytes :=
  ((liveRows id T).get? key).elim (.error .errNotFound) .ok

/-- **`table_find_by_id`.** -/
theorem TableHolds.find (h : TableHolds table T mem pages r.pkIndex) (hn : 0 < n) (hn' : n < 2 ^ 30)
    (key : Nat) : Runs (Cached n mem pages) r (tableFindByIdUnlocked table key)
      (findResult table.id T key) (Cached n mem pages) r := by
  unfold findResult
  cases hlive : (liveRows table.id T).get? key with
  | none => exact h.visitRecord_missing hn hn' hlive
  | some a =>
    obtain ⟨heap, ptr, recs, m, hplace⟩ := h.place hlive
    obtain ⟨hin, hpage⟩ := hplace.pages.inPage ⟨recs, hplace.page, hplace.slot⟩
    refine visitRecord_runs (w := none) hn hn' hplace.inv hplace.found hin hpage hplace.live ?_
      (fun _ hnone => by cases hnone)
    refine Steps.bind (Steps.touch hpage.inside) ?_
    rw [hpage.bytes]
    exact Steps.pure _

/-- A page of the table's own file. -/
theorem update_ownPage (mem : PageKey → Bytes) (fd : Int) (p : Nat) (page : Bytes) :
    (fun q => Function.update mem ⟨fd, p⟩ page ⟨fd, q⟩) = Function.update (fun q => mem ⟨fd, q⟩) p page := by
  funext q
  rcases eq_or_ne q p with rfl | hne
  · rw [Function.update_self, Function.update_self]
  · rw [Function.update_of_ne hne, Function.update_of_ne fun heq => hne (PageKey.mk.inj heq).2]

/-- Another record in its place, and the index that goes with it. -/
theorem TableHolds.replace {t t' : BTree} (h : TableHolds table T mem pages t) {a a' : Bytes} {heap : Heap}
    {ptr : RecordPtr} {recs : List (Nat × Bytes)} (hplace : Place table T mem pages t key a heap ptr recs m)
    {page' : Bytes}
    (hpage : PageHolds (etpRecordSize table.id) ((recs.map Prod.snd).set ptr.slotId a') page')
    (hindex : HeapIndex table.id (Paged.set heap ptr.pageId ptr.slotId (key, a')) t') :
    TableHolds table (T.update key a') (Function.update mem ⟨table.dataFd, ptr.pageId⟩ page') pages t' := by
  obtain ⟨front, back, hflat, hset⟩ := Paged.flatten_set (y := (key, a'))
    ⟨recs, hplace.page, hplace.slot⟩
  have hupdate := OTable.rows_update (a := a') (hplace.rows.symm.trans hflat)
  refine ⟨fun x hx => ?_, h.next, _, hset.trans hupdate.symm, ?_, hindex⟩
  · have hold := h.ids
    rw [hupdate] at hx
    rw [← hplace.rows, hflat] at hold
    rcases List.mem_append.mp hx with hx | hx
    · exact hold x (List.mem_append_left _ hx)
    · rcases List.mem_cons.mp hx with rfl | hx
      · exact hold (key, a) (List.mem_append_right _ List.mem_cons_self)
      · exact hold x (List.mem_append_right _ (List.mem_cons_of_mem _ hx))
  · rw [update_ownPage]
    exact hplace.pages.set hplace.page hpage

/-- What `table_update` logs. -/
def updateLog (id : TableId) (key : Nat) (old new : Memory) : WalRecord :=
  ⟨CURRENT_TXN_ID, .update, id, UInt32.ofNat key, UInt16.ofNat (etpRecordSize id), some (recordImage id old),
    some (recordImage id new)⟩

/-- What `table_delete` logs. -/
def deleteLog (id : TableId) (key : Nat) (old : Memory) : WalRecord :=
  ⟨CURRENT_TXN_ID, .delete, id, UInt32.ofNat key, UInt16.ofNat (etpRecordSize id), some (recordImage id old),
    none⟩

/-- What `table_insert` logs. -/
def insertLog (id : TableId) (key : Nat) (new : Memory) : WalRecord :=
  ⟨CURRENT_TXN_ID, .insert, id, UInt32.ofNat key, UInt16.ofNat (etpRecordSize id), none,
    some (recordImage id new)⟩

/-- An append to a log that has numbers left. -/
theorem walCall_steps {log : Wal → IoScript → UInt64 × Wal × IoScript} {x : WalRecord}
    (hlog : ∀ wal io, log wal io = walAppend wal x io) :
    Steps r (walCall log) r.wal.nextLsn { r with wal := r.wal.logged x } :=
  Steps.walCall ((hlog _ _).trans (walAppend_ok r.wal x))

/-- **`table_update`** of a record that is there. -/
theorem TableHolds.update (h : TableHolds table T mem pages r.pkIndex) (hn : 0 < n) (hn' : n < 2 ^ 30)
    (hlsn : r.wal.nextLsn ≠ INVALID_LSN) {a : Bytes} (hlive : (liveRows table.id T).get? key = some a)
    (record : Memory) : ∃ mem' old,
      Runs (Cached n mem pages) r (tableUpdateUnlocked table key record) (.ok ()) (Cached n mem' pages)
        { r with wal := r.wal.logged (updateLog table.id key old record) } ∧
      TableHolds table (T.update key (record.bytes (etpRecordSize table.id))) mem' pages r.pkIndex ∧
      OnlyFile table.dataFd mem mem' pages pages := by
  obtain ⟨heap, ptr, recs, m, hplace⟩ := h.place hlive
  have hat : Paged.At heap ptr.pageId ptr.slotId (key, a) := ⟨recs, hplace.page, hplace.slot⟩
  obtain ⟨hin, hpage⟩ := hplace.pages.inPage hat
  have hholds := hplace.pages.holds _ recs hplace.page
  have hslot : ptr.slotId < (recs.map Prod.snd).length := by
    rw [List.length_map]
    exact (List.getElem?_eq_some_iff.mp hplace.slot).1
  obtain ⟨page', hwrite, hnew⟩ := hholds.update hslot (record.length_bytes (etpRecordSize table.id))
  let old := recordAt (mem ⟨table.dataFd, ptr.pageId⟩) (recordOffset ptr.slotId (etpRecordSize table.id))
  refine ⟨_, old, ?_, h.replace hplace hnew (hplace.index.set hat hplace.live),
    OnlyFile.update _ _ _ _ _⟩
  refine visitRecord_runs (w := some page') hn hn' hplace.inv hplace.found hin hpage hplace.live ?_
    (fun page heq => by cases heq; exact hnew.length)
  refine Steps.bind (Steps.touch hpage.inside)
    (Steps.bind (walCall_steps (x := updateLog table.id key old record) fun _ _ => rfl) ?_)
  rw [if_neg hlsn]
  refine Steps.bind (Steps.touch ?_) ?_
  · rw [hholds.recordSize]
    exact hpage.inside
  · rw [hholds.recordSize, hwrite]
    exact Steps.pure _

/-- **`table_delete`** of a record that is there. -/
theorem TableHolds.delete (h : TableHolds table T mem pages r.pkIndex) (hn : 0 < n) (hn' : n < 2 ^ 30)
    (hlsn : r.wal.nextLsn ≠ INVALID_LSN) {a : Bytes} (hlive : (liveRows table.id T).get? key = some a) :
    ∃ mem' old,
      Runs (Cached n mem pages) r (tableDeleteUnlocked table key) (.ok ()) (Cached n mem' pages)
        { r with
          pkIndex := (btreeDelete r.pkIndex key).2
          wal := r.wal.logged (deleteLog table.id key old) } ∧
      TableHolds table (T.update key (deletedRecord table.id a)) mem' pages
        (btreeDelete r.pkIndex key).2 ∧
      OnlyFile table.dataFd mem mem' pages pages := by
  obtain ⟨heap, ptr, recs, m, hplace⟩ := h.place hlive
  have hat : Paged.At heap ptr.pageId ptr.slotId (key, a) := ⟨recs, hplace.page, hplace.slot⟩
  obtain ⟨hin, hpage⟩ := hplace.pages.inPage hat
  have hholds := hplace.pages.holds _ recs hplace.page
  have hrecord : (recs.map Prod.snd)[ptr.slotId]? = some a := by
    rw [List.getElem?_map, hplace.slot]
    rfl
  have hids : (heap.flatten.map Prod.fst).Nodup := by
    rw [hplace.rows]
    exact T.sorted.imp fun h => Nat.ne_of_lt h
  have hflag : getDeletedFlagOffset table.id + [(1 : UInt8)].length ≤ etpRecordSize table.id :=
    getDeletedFlagOffset_lt table.id
  have hnew := hholds.patch hrecord hflag
  let old := recordAt (mem ⟨table.dataFd, ptr.pageId⟩) (recordOffset ptr.slotId (etpRecordSize table.id))
  refine ⟨_, old, ?_, h.replace hplace hnew
      (hplace.index.delete hids hat hplace.live (recordDeleted_deletedRecord hpage.length)),
    OnlyFile.update _ _ _ _ _⟩
  refine visitRecord_runs (w := some _) hn hn' hplace.inv hplace.found hin hpage hplace.live ?_
    (fun page heq => by cases heq; exact hnew.length)
  refine Steps.bind (Steps.touch hpage.inside)
    (Steps.bind (walCall_steps (x := deleteLog table.id key old) fun _ _ => rfl) ?_)
  rw [if_neg hlsn]
  have hremove := @indexDelete_steps { r with wal := r.wal.logged (deleteLog table.id key old) } m
    hplace.inv key
  exact Steps.bind hremove (Steps.pure _)

/-! ## Loops over all records -/

section Loops

variable {β : Type} {heap : Heap} {page : Nat → Bytes}

/-- A loop over the records of a page. -/
theorem HeapPages.visit (hpages : HeapPages table.id heap (pages table.dataFd)
      fun p => mem ⟨table.dataFd, p⟩) (hn : 0 < n) (hn' : n < 2 ^ 30) {p : Nat} {recs : List (Nat × Bytes)}
    (hp : heap[p]? = some recs) {fail b : β} {f : Bytes → β → Nat → TableProg β} {g : β → Nat × Bytes → β}
    (hstep : ∀ page i x, InPage table.id page i x.2 → ∀ b, Steps r (f page b i) (g b x) r) :
    Runs (Cached n mem pages) r (visitPage table p fail fun page => do
        let b ← Prog.fold (f page) b (List.range (pageGetRecordCount page))
        pure (b, none)) (recs.foldl g b) (Cached n mem pages) r := by
  have hholds := hpages.holds p recs hp
  have hin : p < pages table.dataFd := hpages.length ▸ (List.getElem?_eq_some_iff.mp hp).1
  refine Runs.visit (w := none) hn hn' hin (Steps.bind ?_ (Steps.pure _)) (fun _ hnone => by cases hnone)
  rw [hholds.count, List.length_map]
  refine fun I => Runs.foldRange recs (fun i x hx b => hstep _ i x (hholds.inPage ?_) b I) b
  rw [List.getElem?_map, hx]
  rfl

/-- A loop over all pages. -/
theorem HeapPages.loop (hpages : HeapPages table.id heap (pages table.dataFd)
      fun p => mem ⟨table.dataFd, p⟩) {f : β → Nat → TableProg β} {g : β → Nat × Bytes → β}
    (hstep : ∀ p recs, heap[p]? = some recs → ∀ b,
      Runs (Cached n mem pages) r (f b p) (recs.foldl g b) (Cached n mem pages) r) (b : β) :
    Runs (Cached n mem pages) r (Prog.fold f b (List.range (pages table.dataFd)))
      (heap.flatten.foldl g b) (Cached n mem pages) r := by
  rw [← hpages.length, List.foldl_flatten]
  exact Runs.foldRange heap hstep b

end Loops

/-- What `table_scan` does with a record. -/
def scanStep (id : TableId) (filter : Bytes → Bool) (max : Nat) (found : List Bytes) (x : Nat × Bytes) :
    List Bytes :=
  if max ≤ found.length then found
  else if recordDeleted id x.2 then found
  else if filter x.2 then found ++ [x.2] else found

theorem scanStep_full {id : TableId} {filter : Bytes → Bool} {max : Nat} {found : List Bytes}
    (h : max ≤ found.length) (xs : List (Nat × Bytes)) : xs.foldl (scanStep id filter max) found = found := by
  induction xs with
  | nil => rfl
  | cons x xs ih =>
    rw [List.foldl_cons, scanStep, if_pos h]
    exact ih

/-- The records that a scan has found after some of them. -/
theorem foldl_scanStep {id : TableId} {filter : Bytes → Bool} {max : Nat} (xs : List (Nat × Bytes))
    (found : List Bytes) : xs.foldl (scanStep id filter max) found =
      found ++ (((xs.filter fun x => !recordDeleted id x.2).filter fun x => filter x.2).take
        (max - found.length)).map Prod.snd := by
  induction xs generalizing found with
  | nil => simp
  | cons x xs ih =>
    rcases Nat.lt_or_ge found.length max with hlt | hge
    · rw [List.foldl_cons, scanStep, if_neg (by omega)]
      cases hdeleted : recordDeleted id x.2 with
      | true => simp [hdeleted, ih]
      | false =>
        cases hfilter : filter x.2 with
        | false => simp [hdeleted, hfilter, ih]
        | true =>
          have hroom : max - found.length = max - (found.length + 1) + 1 := by omega
          simp [hdeleted, hfilter, ih, hroom]
    · rw [scanStep_full hge, show max - found.length = 0 by omega, List.take_zero, List.map_nil,
        List.append_nil]

/-- **`table_scan`.** -/
theorem TableHolds.scan {t : BTree} (h : TableHolds table T mem pages t) (hn : 0 < n) (hn' : n < 2 ^ 30)
    (hfew : pages table.dataFd < 2 ^ 32) (filter : Bytes → Bool) (max : Nat) :
    Runs (Cached n mem pages) r (tableScanUnlocked table filter max)
      (((liveRows table.id T).scan filter max).map Prod.snd) (Cached n mem pages) r := by
  obtain ⟨heap, hrows, hpages, -⟩ := h.stored
  have hslot : ∀ page i x, InPage table.id page i x.2 → ∀ found,
      Steps r (scanSlot table filter max page found i) (scanStep table.id filter max found x) r := by
    intro page i x hpage found
    have hflag := getDeletedFlagOffset_lt table.id
    have hinside := hpage.inside
    unfold scanSlot scanStep
    split
    · exact Steps.pure _
    · rw [hpage.found]
      refine Steps.bind (Steps.touch (by omega)) ?_
      rw [hpage.deleted]
      split
      · exact Steps.pure _
      · refine Steps.bind (Steps.touch hinside) ?_
        rw [hpage.bytes]
        exact Steps.pure _
  have hscan := @foldl_scanStep table.id filter max T.rows []
  rw [List.nil_append, List.length_nil, Nat.sub_zero] at hscan
  refine Runs.bind (Runs.pageCount hfew) ?_
  have hresult : ((liveRows table.id T).scan filter max).map Prod.snd =
      heap.flatten.foldl (scanStep table.id filter max) [] := by
    rw [hrows, hscan]
    rfl
  rw [hresult]
  refine hpages.loop (fun p recs hp found => ?_) []
  unfold scanPage
  split
  · rename_i hfull
    rw [scanStep_full hfull]
    exact Runs.pure _
  · exact hpages.visit hn hn' hp hslot

/-- **`table_count`.** -/
theorem TableHolds.count {t : BTree} (h : TableHolds table T mem pages t) (hn : 0 < n) (hn' : n < 2 ^ 30)
    (hfew : pages table.dataFd < 2 ^ 32) :
    Runs (Cached n mem pages) r (tableCountUnlocked table) (liveRows table.id T).rows.length
      (Cached n mem pages) r := by
  obtain ⟨heap, hrows, hpages, -⟩ := h.stored
  let step := fun (count : Nat) (x : Nat × Bytes) => if recordDeleted table.id x.2 then count else count + 1
  have hslot : ∀ page i x, InPage table.id page i x.2 → ∀ count,
      Steps r (countSlot table page count i) (step count x) r := by
    intro page i x hpage count
    have hflag := getDeletedFlagOffset_lt table.id
    have hinside := hpage.inside
    unfold countSlot
    rw [hpage.found]
    refine Steps.bind (Steps.touch (by omega)) ?_
    rw [hpage.deleted]
    exact Steps.pure _
  have hcount : ∀ (xs : List (Nat × Bytes)) (count : Nat), xs.foldl step count =
      count + (xs.filter fun x => !recordDeleted table.id x.2).length := by
    intro xs
    induction xs with
    | nil => intro count; rfl
    | cons x xs ih =>
      intro count
      rw [List.foldl_cons, ih]
      cases hdeleted : recordDeleted table.id x.2 with
      | true => simp [step, hdeleted]
      | false =>
        simp only [step, hdeleted, Bool.false_eq_true, if_false, Bool.not_false, List.filter_cons_of_pos,
          List.length_cons]
        omega
  have hresult : (liveRows table.id T).rows.length = heap.flatten.foldl step 0 := by
    rw [hrows, hcount, Nat.zero_add]
    rfl
  rw [hresult]
  refine Runs.bind (Runs.pageCount hfew) ?_
  exact hpages.loop (fun p recs hp count => hpages.visit hn hn' hp hslot) 0

/-! ## Insertion -/

/-- The page that `table_insert` chooses has room. -/
structure ChosenPage (table : Table) (T : OTable Bytes) (front : Heap) (last : List (Nat × Bytes))
    (mem : PageKey → Bytes) (pages : Int → Nat) (t : BTree) : Prop where
  rows : (front ++ [last]).flatten = T.rows
  pages : HeapPages table.id (front ++ [last]) (pages table.dataFd) fun p => mem ⟨table.dataFd, p⟩
  index : HeapIndex table.id (front ++ [last]) t
  room : last.length < pageGetMaxRecords (etpRecordSize table.id)

/-- A page is added to the table. -/
theorem TableHolds.grow (h : TableHolds table T mem pages r.pkIndex) (hn : 0 < n) (hn' : n < 2 ^ 30)
    {heap : Heap} (hrows : heap.flatten = T.rows)
    (hpages : HeapPages table.id heap (pages table.dataFd) fun p => mem ⟨table.dataFd, p⟩)
    (hindex : HeapIndex table.id heap r.pkIndex) (hfilled : Paged.Filled (heap ++ [[]]))
    (hids : T.nextId + 1 < 2 ^ 32) : ∃ mem' pages',
      Runs (Cached n mem pages) r (allocPage table) heap.length (Cached n mem' pages') r ∧
      ChosenPage table T heap [] mem' pages' r.pkIndex ∧ OnlyFile table.dataFd mem mem' pages pages' := by
  have hlen := hfilled.length_le
  have hrow := OTable.length_rows_lt h.ids h.next
  rw [Paged.flatten_grow, hrows, List.length_append, List.length_singleton] at hlen
  have hfew : pages table.dataFd < 2 ^ 32 := by
    rw [← hpages.length]
    omega
  rw [hpages.length]
  refine ⟨_, _, Runs.alloc hn hn' hfew, ⟨Paged.flatten_grow.trans hrows, ?_, hindex.grow, ?_⟩,
    (OnlyFile.update _ _ _ _ pages).1, fun fd' hne => Function.update_of_ne hne _ _⟩
  · rw [Function.update_self]
    rw [update_ownPage]
    exact hpages.grow hfilled
  · cases table.id <;> decide

/-- **The page that `table_insert` chooses** is the last one, or a new one. -/
theorem TableHolds.target (h : TableHolds table T mem pages r.pkIndex) (hn : 0 < n) (hn' : n < 2 ^ 30)
    (hids : T.nextId + 1 < 2 ^ 32) : ∃ front last mem' pages',
      Runs (Cached n mem pages) r (targetPage table) front.length (Cached n mem' pages') r ∧
      ChosenPage table T front last mem' pages' r.pkIndex ∧
      OnlyFile table.dataFd mem mem' pages pages' ∧ front.length < T.nextId := by
  have hinvalid : INVALID_PAGE_ID + 1 = 2 ^ 32 := rfl
  obtain ⟨heap, hrows, hpages, hindex⟩ := h.stored
  have hrow := OTable.length_rows_lt h.ids h.next
  have hlen := hpages.filled.length_le
  rw [hrows] at hlen
  have hfew : pages table.dataFd < 2 ^ 32 := by
    rw [← hpages.length]
    omega
  -- without room in the last page
  have halloc : Paged.Filled (heap ++ [[]]) →
      Runs (Cached n mem pages) r (lastPage table (pages table.dataFd)) INVALID_PAGE_ID
        (Cached n mem pages) r → ∃ front last mem' pages',
      Runs (Cached n mem pages) r (targetPage table) front.length (Cached n mem' pages') r ∧
      ChosenPage table T front last mem' pages' r.pkIndex ∧
      OnlyFile table.dataFd mem mem' pages pages' ∧ front.length < T.nextId := by
    intro hfilled hlast
    obtain ⟨mem', pages', hrun, htarget, honly⟩ := h.grow hn hn' hrows hpages hindex hfilled hids
    have hle := hfilled.length_le
    rw [Paged.flatten_grow, hrows, List.length_append, List.length_singleton] at hle
    refine ⟨heap, [], mem', pages', ?_, htarget, honly, by omega⟩
    exact Runs.bind (Runs.pageCount hfew) (Runs.bind hlast hrun)
  rcases List.eq_nil_or_concat' heap with rfl | ⟨front, last, rfl⟩
  · refine halloc (fun q recs hq hlt => absurd hlt (by simp)) ?_
    rw [← hpages.length]
    exact Runs.pure _
  · have hcount : pages table.dataFd = front.length + 1 := by
      rw [← hpages.length, List.length_append, List.length_singleton]
    have hholds := hpages.holds front.length last List.getElem?_concat_length
    have hlast : Runs (Cached n mem pages) r (lastPage table (pages table.dataFd))
        (if pageIsFull (mem ⟨table.dataFd, front.length⟩) then INVALID_PAGE_ID else front.length)
        (Cached n mem pages) r := by
      unfold lastPage
      rw [hcount, if_pos (Nat.succ_pos _), Nat.add_sub_cancel]
      exact Runs.visit (w := none) hn hn' (by omega) (Steps.pure _) (fun _ hnone => by cases hnone)
    rw [hholds.isFull, List.length_map] at hlast
    by_cases hfull : pageGetMaxRecords (etpRecordSize table.id) ≤ last.length
    · rw [if_pos (by simpa using hfull)] at hlast
      refine halloc (hpages.filled.grow ?_) hlast
      rintro rfl
      have hsome : 0 < pageGetMaxRecords (etpRecordSize table.id) := by cases table.id <;> decide
      exact absurd hfull (Nat.not_le_of_gt hsome)
    · rw [if_neg (by simpa using hfull)] at hlast
      rw [List.length_append, List.length_singleton] at hlen
      refine ⟨front, last, mem, pages, ?_, ⟨hrows, hpages, hindex, by omega⟩, ⟨fun _ _ => rfl, fun _ _ => rfl⟩,
        by omega⟩
      refine Runs.bind (Runs.pageCount hfew) (Runs.bind hlast ?_)
      rw [if_neg (by omega)]
      exact Runs.pure _

/-- `page_insert_record` on the page chosen. -/
theorem ChosenPage.place {front : Heap} {last : List (Nat × Bytes)} {t : BTree}
    (h : ChosenPage table T front last mem pages t) (hn : 0 < n) (hn' : n < 2 ^ 30) (record : Memory) :
    ∃ page', Runs (Cached n mem pages) r (placeRecord table record front.length) (some (some last.length))
        (Cached n (Function.update mem ⟨table.dataFd, front.length⟩ page') pages) r ∧
      PageHolds (etpRecordSize table.id) (last.map Prod.snd ++ [record.bytes (etpRecordSize table.id)])
        page' := by
  have hholds := h.pages.holds front.length last List.getElem?_concat_length
  have hin : front.length < pages table.dataFd := by
    rw [← h.pages.length, List.length_append, List.length_singleton]
    omega
  have hroom := h.room
  obtain ⟨page', hwrite, hnew⟩ := hholds.insert (by rw [List.length_map]; exact hroom)
    (record.length_bytes (etpRecordSize table.id))
  refine ⟨page', Runs.visit (w := some page') hn hn' hin ?_ (fun page heq => by cases heq; exact hnew.length),
    hnew⟩
  rw [hholds.recordSize, hwrite, List.length_map]
  exact Steps.pure _

/-- `table_insert` as far as the index: the record is logged and stored in the page that was chosen, and what the
index makes of its place decides the result. -/
theorem TableHolds.insertPlaced (h : TableHolds table T mem pages r.pkIndex) (hn : 0 < n) (hn' : n < 2 ^ 30)
    (hnext : r.nextId table.id = T.nextId) (hids : T.nextId + 1 < 2 ^ 32)
    (hlsn : r.wal.nextLsn ≠ INVALID_LSN) (record : Memory) : ∃ front last mem₁ pages₁ page',
      ChosenPage table T front last mem₁ pages₁ r.pkIndex ∧ OnlyFile table.dataFd mem mem₁ pages pages₁ ∧
      front.length < T.nextId ∧
      PageHolds (etpRecordSize table.id) (last.map Prod.snd ++ [storedRecord table.id T.nextId record]) page' ∧
      ∀ (alloc : Nat → Bool) out,
        btreeInsertChecked alloc r.pkIndex T.nextId ⟨front.length, last.length⟩ = .ok out →
          Runs (Cached n mem pages) r (tableInsertUnlocked table alloc record)
            (if out.1 = 0 then .ok else .errIo, T.nextId)
            (Cached n (Function.update mem₁ ⟨table.dataFd, front.length⟩ page') pages₁)
            ⟨out.2, r.wal.logged (insertLog table.id T.nextId (stampKey table.id T.nextId record)),
              Function.update r.nextId table.id (T.nextId + 1)⟩ := by
  have hinvalid : INVALID_PAGE_ID + 1 = 2 ^ 32 := rfl
  let wal := r.wal.logged (insertLog table.id T.nextId (stampKey table.id T.nextId record))
  let ids := Function.update r.nextId table.id (T.nextId + 1)
  have hdraw : Steps r (etpNextId table) T.nextId { r with nextId := ids } := by
    have hdraw := Steps.etpNextId (r := r) table
    rw [hnext, Nat.mod_eq_of_lt hids] at hdraw
    exact hdraw
  have h' : TableHolds table T mem pages ({ r with nextId := ids } : TableRest).pkIndex := h
  obtain ⟨front, last, mem₁, pages₁, htarget, hchosen, honly, hfront⟩ := h'.target hn hn' hids
  obtain ⟨page', hplace, hpage⟩ := hchosen.place (r := ⟨r.pkIndex, wal, ids⟩) hn hn'
    (stampKey table.id T.nextId record)
  have hslot : last.length % 2 ^ 16 = last.length :=
    Nat.mod_eq_of_lt (Nat.lt_trans hchosen.room (pageGetMaxRecords_lt _))
  refine ⟨front, last, mem₁, pages₁, page', hchosen, honly, hfront, hpage, fun alloc out hout => ?_⟩
  refine Runs.bind (hdraw _) (Runs.bind htarget ?_)
  rw [if_neg (by omega)]
  refine Runs.bind (walCall_steps (x := insertLog table.id T.nextId _) (fun _ _ => rfl) _) ?_
  rw [if_neg hlsn]
  refine Runs.bind hplace (Runs.bind (a := if out.1 = 0 then EtpResult.ok else .errIo) ?_ (Runs.pure _))
  rw [indexRecord, hslot]
  exact Runs.bind (Steps.indexInsert (r := ⟨r.pkIndex, wal, ids⟩) hout _) (Runs.pure _)

/-- **`table_insert`.** -/
theorem TableHolds.insert (h : TableHolds table T mem pages r.pkIndex) (hn : 0 < n) (hn' : n < 2 ^ 30)
    (hnext : r.nextId table.id = T.nextId) (hids : T.nextId + 1 < 2 ^ 32)
    (hlsn : r.wal.nextLsn ≠ INVALID_LSN) {alloc : Nat → Bool}
    (hroom : HasRoom alloc r.pkIndex T.nextId) (record : Memory) : ∃ mem' pages' ptr,
      Runs (Cached n mem pages) r (tableInsertUnlocked table alloc record) (.ok, T.nextId)
        (Cached n mem' pages')
        ⟨(btreeInsert alloc r.pkIndex T.nextId ptr).2,
          r.wal.logged (insertLog table.id T.nextId (stampKey table.id T.nextId record)),
          Function.update r.nextId table.id (T.nextId + 1)⟩ ∧
      (btreeInsert alloc r.pkIndex T.nextId ptr).1 = 0 ∧
      TableHolds table (T.insert (storedRecord table.id T.nextId record)) mem' pages'
        (btreeInsert alloc r.pkIndex T.nextId ptr).2 ∧
      OnlyFile table.dataFd mem mem' pages pages' := by
  obtain ⟨front, last, mem₁, pages₁, page', hchosen, honly, hfront, hpage, hrun⟩ :=
    h.insertPlaced hn hn' hnext hids hlsn record
  have hnew : T.nextId ∉ (front ++ [last]).flatten.map Prod.fst := by
    rw [hchosen.rows]
    intro hmem
    obtain ⟨x, hx, hkey⟩ := List.mem_map.mp hmem
    exact absurd (T.below x hx) (by omega)
  have hfits : (BtOp.insert T.nextId ⟨front.length, last.length⟩).Fits :=
    ⟨by omega, by dsimp only; omega, Nat.lt_trans hchosen.room (pageGetMaxRecords_lt _)⟩
  obtain ⟨hadded, hindex⟩ := hchosen.index.push (a := storedRecord table.id T.nextId record) hnew hfits hroom
  obtain ⟨m, hinv, -⟩ := hchosen.index
  have hruns := hrun alloc _ (hinv.insertChecked (by decide) hroom)
  rw [hadded] at hruns
  refine ⟨Function.update mem₁ ⟨table.dataFd, front.length⟩ page', pages₁, _, hruns, hadded,
    ⟨?_, Nat.succ_pos _, front ++ [last ++ [(T.nextId, _)]], ?_, ?_, hindex⟩, ?_, honly.2⟩
  · intro x hx
    rw [OTable.rows_insert] at hx
    rcases List.mem_append.mp hx with hx | hx
    · exact h.ids x hx
    · rw [List.mem_singleton.mp hx]
      exact h.next
  · rw [Paged.flatten_push, hchosen.rows, OTable.rows_insert]
  · rw [update_ownPage]
    exact hchosen.pages.push hpage
  · intro k hk
    rw [(OnlyFile.update _ _ _ _ pages).1 k hk]
    exact honly.1 k hk

end Calls

end Ticketing
