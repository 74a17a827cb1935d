import Ticketing.Storage.BTreeEntries
import Ticketing.Storage.PageVersions

/-!
# Malformed table files

`table_open` believes the number of keys of every node in the index file, and the number and the size of
the records of every page of the data file.  Here is which files cannot lead any access out of bounds.

* `SlotFits`, `OpenFits`, `DataFits` — the records that the functions reach lie in their pages; with
  `IndexFits` for the index.
* `PageVersion` — what the pages of such a file can become: no header changes, and a record that is not
  deleted was so at first, or lies before one that was.
* `tableOpen_meets`, `runTableCall_meets` — no access of an open, or of a later call, is bad.
* `table_accesses_in_bounds` — the same of a whole run, whatever input, output and allocation fails.
* `malformed_files_out_of_bounds` — an index file and a data file that do lead out of bounds.
-/

set_option autoImplicit false

namespace Ticketing

open Bytes

/-! ## Files whose records lie in their pages -/

/-- Where a slot of the page starts. -/
def slotOffset (page : Bytes) (slot : Nat) : Nat := recordOffset slot (pageRecordSize page)

/-- The record in the slot is one that is not deleted. -/
def LiveSlot (id : TableId) (page : Bytes) (slot : Nat) : Prop :=
  isRecordDeleted id page (slotOffset page slot) = false

instance (id : TableId) (page : Bytes) (slot : Nat) : Decidable (LiveSlot id page slot) := by
  unfold LiveSlot
  infer_instance

/-- The deletion flag of a slot, and unless it is set the whole record, lie in the page. -/
def SlotFits (id : TableId) (page : Bytes) (slot : Nat) : Prop :=
  slotOffset page slot + getDeletedFlagOffset id < PAGE_SIZE ∧
    (LiveSlot id page slot → slotOffset page slot + etpRecordSize id ≤ PAGE_SIZE)

/-- The slots that `table_open` looks at, in its order. -/
def pageSlots (file : Bytes) (pageId : Nat) : List (Bytes × Nat) :=
  (List.range (pageGetRecordCount (pageRead file pageId))).map fun slot => (pageRead file pageId, slot)

/-- The slots of all pages. -/
def fileSlots (file : Bytes) : List (Bytes × Nat) :=
  (List.range (pageGetCount file)).flatMap (pageSlots file)

/-- The primary key in a slot. -/
def slotKey (id : TableId) (x : Bytes × Nat) : Nat := storedKey id x.1 (slotOffset x.1 x.2)

/-- A record of `booking_seats` without a junction id. -/
def LegacySlot (id : TableId) (x : Bytes × Nat) : Prop := id = .bookingSeats ∧ slotKey id x = 0

/-- The keys that `table_open` reads lie in their pages: those up to the first legacy record. -/
def OpenFits (id : TableId) (file : Bytes) : Prop :=
  ∀ front x post, fileSlots file = front ++ x :: post → (∀ y ∈ front, ¬ LegacySlot id y) →
    slotOffset x.1 x.2 + keyOffset id + 4 ≤ PAGE_SIZE

/-- `table_open` gives up because of the records it finds. -/
def OpenStops (id : TableId) (file : Bytes) : Prop :=
  ∃ x ∈ fileSlots file, LegacySlot id x ∨ slotKey id x = 2 ^ 32 - 1

/-- The index after some calls of `btree_delete`. -/
def deleteKeys (t : BTree) (keys : List Nat) : BTree := keys.foldl (fun t key => (btreeDelete t key).2) t

/-- What `btree_search` can return for the index, or for what is left of it after deletions. -/
def Lookup (t : BTree) (ptr : RecordPtr) : Prop :=
  ∃ keys key, btreeSearch (deleteKeys t keys) key = (0, some ptr)

/-- A lookup leads to a record of the page that is not deleted, so that the page may be written. -/
def Updatable (id : TableId) (t : BTree) (file : Bytes) (pageId : Nat) : Prop :=
  ∃ ptr, Lookup t ptr ∧ ptr.pageId = pageId ∧
    ptr.slotId < pageGetRecordCount (pageRead file pageId) ∧
    LiveSlot id (pageRead file pageId) ptr.slotId

/-- `key_lower_bound` can search the nodes of the index, and the records of the data file that the functions
reach lie in their pages.  A scan reaches the pages that `page_get_count` counts, and the incomplete one at the
end once a write has filled it up; a lookup reaches what the index points to. -/
structure DataFits (id : TableId) (t : BTree) (file : Bytes) : Prop where
  opened : OpenFits id file
  searched : ¬ OpenStops id file → t.root.Fits (2 ^ 30)
  scanned : ¬ OpenStops id file → ∀ pageId,
    pageId < pageGetCount file ∨
      pageId = pageGetCount file ∧ Updatable id t file (file.length / PAGE_SIZE) →
    ∀ slot < pageGetRecordCount (pageRead file pageId), SlotFits id (pageRead file pageId) slot
  lookedUp : ¬ OpenStops id file → ∀ ptr, Lookup t ptr →
    ptr.slotId < pageGetRecordCount (pageRead file ptr.pageId) →
    SlotFits id (pageRead file ptr.pageId) ptr.slotId ∧
      (LiveSlot id (pageRead file ptr.pageId) ptr.slotId →
        slotOffset (pageRead file ptr.pageId) ptr.slotId + pageRecordSize (pageRead file ptr.pageId) ≤
          PAGE_SIZE)

/-! ## What their pages can become -/

/-- A page that comes from `page` by updates and deletions of records inside it, and by torn writes. -/
structure PageVersion (id : TableId) (page : Bytes) (b : Bytes) : Prop where
  length : b.length = PAGE_SIZE
  header : ∀ i, i = 4 ∨ i = 5 ∨ i = 8 ∨ i = 9 → b.getD i 0 = page.getD i 0
  body : ∀ i, PAGE_HEADER_SIZE ≤ i → i < PAGE_SIZE → b.getD i 0 = 0 → page.getD i 0 = 0 ∨
    ∃ slot, i < slotOffset page slot + pageRecordSize page ∧
      slotOffset page slot + etpRecordSize id ≤ PAGE_SIZE ∧
      slotOffset page slot + pageRecordSize page ≤ PAGE_SIZE

section PageVersion

variable {id : TableId} {page b : Bytes}

/-- A field of two bytes. -/
theorem slice_two_congr {off : Nat} {a b : Bytes} (ha : a.length = PAGE_SIZE) (hb : b.length = PAGE_SIZE)
    (hoff : off + 2 ≤ PAGE_SIZE) (h : a.getD off 0 = b.getD off 0)
    (h' : a.getD (off + 1) 0 = b.getD (off + 1) 0) : slice off 2 a = slice off 2 b := by
  have hla := length_slice (show off + 2 ≤ a.length by omega)
  have hlb := length_slice (show off + 2 ≤ b.length by omega)
  apply ext_getD
  · rw [hla, hlb]
  · intro i hi
    rw [getD_slice, getD_slice]
    have hcase : i = 0 ∨ i = 1 := by omega
    rcases hcase with rfl | rfl
    · simpa using h
    · simpa using h'

theorem PageVersion.self (h : page.length = PAGE_SIZE) : PageVersion id page page :=
  ⟨h, fun _ _ => rfl, fun _ _ _ hi => Or.inl hi⟩

theorem PageVersion.count (h : PageVersion id page b) (hpage : page.length = PAGE_SIZE) :
    pageGetRecordCount b = pageGetRecordCount page := by
  unfold pageGetRecordCount
  rw [slice_two_congr h.length hpage (by decide) (h.header 4 (by omega)) (h.header 5 (by omega))]

theorem PageVersion.recordSize (h : PageVersion id page b) (hpage : page.length = PAGE_SIZE) :
    pageRecordSize b = pageRecordSize page := by
  unfold pageRecordSize
  rw [slice_two_congr h.length hpage (by decide) (h.header 8 (by omega)) (h.header 9 (by omega))]

theorem PageVersion.slotOffset (h : PageVersion id page b) (hpage : page.length = PAGE_SIZE)
    (slot : Nat) : slotOffset b slot = slotOffset page slot := by
  unfold Ticketing.slotOffset
  rw [h.recordSize hpage]

/-- A record that is not deleted was so at first, or it lies before one that lies in the page. -/
theorem PageVersion.live (h : PageVersion id page b) (hpage : page.length = PAGE_SIZE) {slot : Nat}
    (hflag : Ticketing.slotOffset page slot + getDeletedFlagOffset id < PAGE_SIZE)
    (hlive : LiveSlot id b slot) : LiveSlot id page slot ∨
      Ticketing.slotOffset page slot + etpRecordSize id ≤ PAGE_SIZE ∧
        Ticketing.slotOffset page slot + pageRecordSize page ≤ PAGE_SIZE := by
  unfold LiveSlot isRecordDeleted at hlive ⊢
  rw [h.slotOffset hpage, bne_eq_false_iff_eq] at hlive
  rw [bne_eq_false_iff_eq]
  have hstart : PAGE_HEADER_SIZE ≤ Ticketing.slotOffset page slot := Nat.le_add_right _ _
  obtain hzero | ⟨slot', hlt, hrecord, hsize⟩ := h.body _ (by omega) hflag hlive
  · exact Or.inl hzero
  · right
    have hle : Ticketing.slotOffset page slot ≤ Ticketing.slotOffset page slot' := by
      rcases Nat.lt_or_ge slot' slot with hbefore | hafter
      · have := recordOffset_lt (pageRecordSize page) hbefore
        unfold Ticketing.slotOffset at hlt ⊢
        omega
      · have := Nat.mul_le_mul_right (pageRecordSize page) hafter
        unfold Ticketing.slotOffset recordOffset
        omega
    omega

theorem PageVersion.slotFits (h : PageVersion id page b) (hpage : page.length = PAGE_SIZE) {slot : Nat}
    (hfits : SlotFits id page slot) : SlotFits id b slot := by
  refine ⟨?_, fun hlive => ?_⟩
  · rw [h.slotOffset hpage]
    exact hfits.1
  · rw [h.slotOffset hpage]
    rcases h.live hpage hfits.1 hlive with hwas | hin
    · exact hfits.2 hwas
    · exact hin.1

/-- A mixture of two versions. -/
theorem PageVersion.mixture {a b c : Bytes} (ha : PageVersion id page a) (hb : PageVersion id page b)
    (hlen : c.length = PAGE_SIZE) (hmix : Mixture a b c) : PageVersion id page c := by
  have hheader : PAGE_HEADER_SIZE < PAGE_SIZE := by decide
  have hsize : PAGE_SIZE = 4096 := rfl
  refine ⟨hlen, fun i hi => ?_, fun i hlo hhi hzero => ?_⟩
  · rcases hmix i (by omega) with he | he
    · rw [he]
      exact ha.header i hi
    · rw [he]
      exact hb.header i hi
  · rcases hmix i hhi with he | he
    · rw [he] at hzero
      exact ha.body i hlo hhi hzero
    · rw [he] at hzero
      exact hb.body i hlo hhi hzero

/-- Setting the flag in the header. -/
theorem PageVersion.setDirtyFlag (h : PageVersion id page b) : PageVersion id page (setDirtyFlag b) := by
  have hlen := h.length
  have hsize : PAGE_SIZE = 4096 := rfl
  have hhead : PAGE_HEADER_SIZE = 16 := rfl
  have hroom : 10 + (toLE 2 (pageFlags b ||| PAGE_FLAG_DIRTY)).length ≤ b.length := by
    rw [length_toLE]
    omega
  unfold Ticketing.setDirtyFlag
  refine ⟨by rw [length_splice hroom, hlen], fun i hi => ?_, fun i hlo hhi hzero => ?_⟩
  · rw [getD_splice hroom, if_neg (by omega)]
    exact h.header i hi
  · rw [getD_splice hroom, length_toLE, if_neg (by omega)] at hzero
    exact h.body i hlo hhi hzero

/-- **`page_update_record`** of a record inside the page. -/
theorem PageVersion.update (h : PageVersion id page b) (hpage : page.length = PAGE_SIZE) {slot : Nat}
    (hrecord : Ticketing.slotOffset page slot + etpRecordSize id ≤ PAGE_SIZE)
    (hsize : Ticketing.slotOffset page slot + pageRecordSize page ≤ PAGE_SIZE) {record b' : Bytes}
    (hlen : record.length = pageRecordSize b) (hb' : pageUpdateRecord b slot record = some b') :
    PageVersion id page b' := by
  unfold pageUpdateRecord at hb'
  split at hb'
  · cases hb'
  · cases hb'
    apply PageVersion.setDirtyFlag
    rw [List.take_of_length_le (Nat.le_of_eq hlen), h.recordSize hpage]
    rw [h.recordSize hpage] at hlen
    have hstart : PAGE_HEADER_SIZE ≤ Ticketing.slotOffset page slot := Nat.le_add_right _ _
    have hhead : PAGE_HEADER_SIZE = 16 := rfl
    change PageVersion id page (splice (Ticketing.slotOffset page slot) record b)
    have hroom : Ticketing.slotOffset page slot + record.length ≤ b.length := by
      rw [hlen, h.length]
      exact hsize
    refine ⟨by rw [length_splice hroom, h.length], fun i hi => ?_, fun i hlo hhi hzero => ?_⟩
    · rw [getD_splice hroom, if_neg (by omega)]
      exact h.header i hi
    · rw [getD_splice hroom] at hzero
      split at hzero
      · rename_i hin
        exact Or.inr ⟨slot, by omega, hrecord, hsize⟩
      · exact h.body i hlo hhi hzero

/-- **`mark_record_deleted`** of a record inside the page. -/
theorem PageVersion.markDeleted (h : PageVersion id page b) {off : Nat} (hlo : PAGE_HEADER_SIZE ≤ off)
    (hflag : off + getDeletedFlagOffset id < PAGE_SIZE) :
    PageVersion id page (markRecordDeleted id b off) := by
  have hhead : PAGE_HEADER_SIZE = 16 := rfl
  have hroom : off + getDeletedFlagOffset id + [(1 : UInt8)].length ≤ b.length := by
    rw [h.length, List.length_singleton]
    omega
  unfold markRecordDeleted
  refine ⟨by rw [length_splice hroom, h.length], fun i hi => ?_, fun i hlo' hhi hzero => ?_⟩
  · rw [getD_splice hroom, if_neg (by omega)]
    exact h.header i hi
  · rw [getD_splice hroom, List.length_singleton] at hzero
    split at hzero
    · rename_i hin
      rw [show i - (off + getDeletedFlagOffset id) = 0 by omega] at hzero
      exact absurd hzero (by decide)
    · exact h.body i hlo' hhi hzero

end PageVersion

/-- Behind the end of a file there are no records. -/
theorem recordCount_beyond {file : Bytes} {pageId : Nat} (h : file.length / PAGE_SIZE < pageId) :
    pageGetRecordCount (pageRead file pageId) = 0 := by
  have hend : file.length ≤ pageId * PAGE_SIZE := by
    simp only [PAGE_SIZE] at h ⊢
    omega
  have hslice : slice (pageId * PAGE_SIZE) PAGE_SIZE file = [] := by
    rw [slice, List.drop_eq_nil_of_le hend, List.take_nil]
  have hpage : pageRead file pageId = List.replicate PAGE_SIZE 0 := by
    unfold pageRead
    rw [hslice]
    rfl
  rw [pageGetRecordCount, hpage, slice, List.drop_replicate, List.take_replicate]
  rfl

/-- The pages of a file while nothing has been written. -/
def originalVersions (file : Bytes) : Versions where
  version q b := b = pageRead file q
  written _ := False
  mixture := by
    rintro q a b c rfl rfl hlen hmix
    apply ext_getD
    · rw [hlen, length_pageRead]
    · intro i hi
      rw [hlen] at hi
      rcases hmix i hi with he | he
      · exact he
      · exact he

/-- The pages of a file whose records are updated and deleted through an index. -/
def tableVersions (id : TableId) (t : BTree) (file : Bytes) : Versions where
  version q b := PageVersion id (pageRead file q) b ∧ (Updatable id t file q ∨ b = pageRead file q)
  written := Updatable id t file
  mixture := by
    rintro q a b c ⟨ha, hwa⟩ ⟨hb, hwb⟩ hlen hmix
    refine ⟨ha.mixture hb hlen hmix, ?_⟩
    rcases hwa with hw | rfl
    · exact Or.inl hw
    · rcases hwb with hw | rfl
      · exact Or.inl hw
      · exact Or.inr ((originalVersions file).mixture rfl rfl hlen hmix)

theorem updatable_le {id : TableId} {t : BTree} {file : Bytes} {pageId : Nat}
    (h : Updatable id t file pageId) : pageId ≤ file.length / PAGE_SIZE := by
  obtain ⟨ptr, -, rfl, hslot, -⟩ := h
  by_contra hgt
  rw [recordCount_beyond (by omega)] at hslot
  omega

/-- The index is what deletions have left of `t`. -/
def DeletedFrom (t t' : BTree) : Prop :=
  (∃ keys, t' = deleteKeys t keys) ∧ t'.root.Fits t'.order ∧ t'.root.Fits (2 ^ 30)

theorem DeletedFrom.delete {t t' : BTree} (h : DeletedFrom t t') (key : Nat) :
    DeletedFrom t (btreeDelete t' key).2 := by
  obtain ⟨⟨keys, rfl⟩, hfits, hint⟩ := h
  have herase : ∀ (pos : Nat) (es : List (Nat × RecordPtr)), (es.eraseIdx pos).length ≤ es.length :=
    fun _ es => List.length_eraseIdx_le es _
  refine ⟨⟨keys ++ [key], ?_⟩, ?_⟩
  · rw [deleteKeys, deleteKeys, List.foldl_append]
    rfl
  · unfold btreeDelete
    split
    · exact ⟨hfits, hint⟩
    · exact ⟨modifyLeaf_fits (herase _) _ hfits, modifyLeaf_fits (herase _) _ hint⟩

/-! ## The calls -/

section Calls

variable {n : Nat} {table : Table} {t : BTree} {file : Bytes}

/-- The state between two calls. -/
def Opened (n : Nat) (table : Table) (t : BTree) (file : Bytes) (s : TableEnv) : Prop :=
  FileEnv n table (tableVersions table.id t file) (file.length / PAGE_SIZE) (DeletedFrom t) s

theorem indexSearch_meets (key : Nat) :
    Prog.Meets (Opened n table t file) (indexSearch key) fun r s =>
      (∀ ptr, r = some ptr → Lookup t ptr) ∧ Opened n table t file s := by
  rintro s ⟨hfile, ⟨keys, hkeys⟩, hfits, hint⟩
  refine ⟨if (btreeSearch s.pkIndex key).1 = 0 then (btreeSearch s.pkIndex key).2 else none, s, ?_, ?_,
    hfile, ⟨keys, hkeys⟩, hfits, hint⟩
  · simp only [indexSearch, Bind.bind, Prog.reads, Prog.lift, btreeSearchChecked_eq hfits hint key]
    rfl
  · intro ptr hptr
    split at hptr
    · rename_i hrc
      exact ⟨keys, key, Prod.ext (by rw [← hkeys]; exact hrc) (by rw [← hkeys]; exact hptr)⟩
    · cases hptr

/-- What the functions know about the record that a lookup leads to, once they have seen that it is not
deleted. -/
structure Reached (id : TableId) (t : BTree) (file : Bytes) (ptr : RecordPtr) (page : Bytes)
    (off : Nat) : Prop where
  updatable : Updatable id t file ptr.pageId
  version : PageVersion id (pageRead file ptr.pageId) page
  offset : off = slotOffset (pageRead file ptr.pageId) ptr.slotId
  record : off + etpRecordSize id ≤ PAGE_SIZE
  size : off + pageRecordSize page ≤ PAGE_SIZE

/-- **The common part of a lookup, an update and a deletion.** -/
theorem visitRecord_meets {α : Type} {key : Nat}
    {body : RecordPtr → Bytes → Nat → TableProg (Except EtpResult α × Option Bytes)} (hn : 0 < n)
    (hn' : n < 2 ^ 30) (hdata : DataFits table.id t file) (hopen : ¬ OpenStops table.id file)
    (hside : ∀ ptr page off, Beside (body ptr page off))
    (hbody : ∀ ptr page off, Reached table.id t file ptr page off →
      Prog.Meets (fun s => DeletedFrom t s.pkIndex) (body ptr page off) fun r s =>
        DeletedFrom t s.pkIndex ∧
          ∀ page', r.2 = some page' → PageVersion table.id (pageRead file ptr.pageId) page') :
    Prog.Meets (Opened n table t file) (visitRecord table key body) fun _ s =>
      Opened n table t file s := by
  refine Prog.Meets.bind (indexSearch_meets key) fun r => Prog.Meets.and_pre fun hlookup => ?_
  cases r with
  | none => exact Prog.Meets.pure fun s hs => hs
  | some ptr =>
    have hptr := hlookup ptr rfl
    have hlen := length_pageRead file ptr.pageId
    refine visitPage_keeps hn hn' (fun q hq => updatable_le hq) ?_ ?_
    · intro page
      cases pageGetRecord page ptr.slotId with
      | none => exact Beside.pure _
      | some off =>
        refine Beside.bind (Beside.lift _) fun _ => ?_
        split
        · exact Beside.pure _
        · exact hside _ _ _
    · rintro page - ⟨hversion, hwritten⟩
      unfold pageGetRecord
      rw [hversion.count hlen, hversion.recordSize hlen]
      split
      · rename_i off heq
        exact Prog.Meets.pure fun s hs => ⟨hs, fun _ hnone => by cases hnone⟩
      · rename_i off heq
        split at heq
        · cases heq
        · rename_i hslot
          cases heq
          change Prog.Meets _ (Prog.lift (touch (slotOffset _ ptr.slotId + _) 1 PAGE_SIZE) >>= _) _
          obtain ⟨hfits, hsize⟩ := hdata.lookedUp hopen ptr hptr (by omega)
          refine Prog.Meets.bind (touch_meets (by have := hfits.1; omega)) fun _ => ?_
          split
          · exact Prog.Meets.pure fun s hs => ⟨hs, fun _ hnone => by cases hnone⟩
          · rename_i hdeleted
            have hlive : LiveSlot table.id page ptr.slotId := by
              unfold LiveSlot
              rw [hversion.slotOffset hlen]
              exact (Bool.not_eq_true _).mp hdeleted
            -- the record was there from the start, or another one behind it was updated
            have hroom : slotOffset (pageRead file ptr.pageId) ptr.slotId + etpRecordSize table.id ≤
                PAGE_SIZE ∧ slotOffset (pageRead file ptr.pageId) ptr.slotId +
                  pageRecordSize (pageRead file ptr.pageId) ≤ PAGE_SIZE := by
              rcases hversion.live hlen hfits.1 hlive with hwas | hin
              · exact ⟨hfits.2 hwas, hsize hwas⟩
              · exact hin
            have hupdatable : Updatable table.id t file ptr.pageId := by
              rcases hwritten with hw | rfl
              · exact hw
              · exact ⟨ptr, hptr, rfl, by omega, hlive⟩
            refine (hbody ptr page _ ⟨hupdatable, hversion, rfl, hroom.1, ?_⟩).post fun r s hs => ?_
            · rw [hversion.recordSize hlen]
              exact hroom.2
            · refine ⟨hs.1, fun page' hpage' => ?_⟩
              have hnew := hs.2 page' hpage'
              exact ⟨hupdatable, hnew.length, hnew, Or.inl hupdatable⟩

theorem readRecord_meets {P : TableEnv → Prop} {off : Nat} (h : off + etpRecordSize table.id ≤ PAGE_SIZE) :
    Prog.Meets P (readRecord table off) fun _ s => P s :=
  touch_meets h

/-- The log does not look at the index. -/
theorem walCall_meets {R : BTree → Prop} (log : Wal → IoScript → UInt64 × Wal × IoScript) :
    Prog.Meets (fun s => R s.pkIndex) (walCall log) fun _ s => R s.pkIndex :=
  Prog.Meets.act fun _ hs => hs

theorem tableFindByIdUnlocked_meets (hn : 0 < n) (hn' : n < 2 ^ 30) (hdata : DataFits table.id t file)
    (hopen : ¬ OpenStops table.id file) (key : Nat) :
    Prog.Meets (Opened n table t file) (tableFindByIdUnlocked table key) fun _ s => Opened n table t file s := by
  refine visitRecord_meets hn hn' hdata hopen ?_ ?_
  · exact fun ptr page off => Beside.bind (Beside.lift _) fun _ => Beside.pure _
  · intro ptr page off hr
    refine Prog.Meets.bind (readRecord_meets hr.record) fun _ => ?_
    exact Prog.Meets.pure fun s hs => ⟨hs, fun _ hnone => by cases hnone⟩

theorem updateInPage_meets (record : Memory) {ptr : RecordPtr} {page : Bytes} {off : Nat}
    (hr : Reached table.id t file ptr page off) :
    Prog.Meets (fun s => DeletedFrom t s.pkIndex) (updateInPage record ptr page off) fun r s =>
      DeletedFrom t s.pkIndex ∧
        ∀ page', r.2 = some page' → PageVersion table.id (pageRead file ptr.pageId) page' := by
  have hlen := length_pageRead file ptr.pageId
  refine Prog.Meets.bind (touch_meets hr.size) fun _ => ?_
  cases hnew : pageUpdateRecord page ptr.slotId (record.bytes (pageRecordSize page)) with
  | none => exact Prog.Meets.pure fun s hs => ⟨hs, fun _ hnone => by cases hnone⟩
  | some page' =>
    refine Prog.Meets.pure fun s hs => ⟨hs, fun page'' hpage'' => ?_⟩
    cases hpage''
    have hrecord := hr.record
    have hsize := hr.size
    rw [hr.offset] at hrecord
    rw [hr.offset, hr.version.recordSize hlen] at hsize
    exact hr.version.update hlen hrecord hsize (Memory.length_bytes _ _) hnew

theorem beside_updateInPage (record : Memory) (ptr : RecordPtr) (page : Bytes) (off : Nat) :
    Beside (updateInPage record ptr page off) := by
  refine Beside.bind (Beside.lift _) fun _ => ?_
  split
  · exact Beside.pure _
  · exact Beside.pure _

theorem tableUpdateUnlocked_meets (hn : 0 < n) (hn' : n < 2 ^ 30) (hdata : DataFits table.id t file)
    (hopen : ¬ OpenStops table.id file) (key : Nat) (record : Memory) :
    Prog.Meets (Opened n table t file) (tableUpdateUnlocked table key record) fun _ s =>
      Opened n table t file s := by
  refine visitRecord_meets hn hn' hdata hopen ?_ ?_
  · intro ptr page off
    refine Beside.bind (Beside.lift _) fun _ => Beside.bind (Beside.walCall _) fun _ => ?_
    split
    · exact Beside.pure _
    · exact beside_updateInPage _ _ _ _
  · intro ptr page off hr
    refine Prog.Meets.bind (readRecord_meets hr.record) fun _ =>
      Prog.Meets.bind (walCall_meets _) fun lsn => ?_
    split
    · exact Prog.Meets.pure fun s hs => ⟨hs, fun _ hnone => by cases hnone⟩
    · exact updateInPage_meets record hr

theorem indexDelete_meets (key : Nat) :
    Prog.Meets (fun s => DeletedFrom t s.pkIndex) (indexDelete key) fun _ s =>
      DeletedFrom t s.pkIndex := by
  intro s hs
  refine ⟨(), { s with pkIndex := (btreeDelete s.pkIndex key).2 }, ?_, hs.delete key⟩
  simp only [indexDelete, Bind.bind, Prog.reads, Prog.lift, btreeDeleteChecked_eq hs.2.1 hs.2.2 key]
  rfl

theorem beside_indexDelete (key : Nat) : Beside (indexDelete key) :=
  Beside.index fun _ => Beside.bind (Beside.lift _) fun _ => Beside.setIndex _

theorem tableDeleteUnlocked_meets (hn : 0 < n) (hn' : n < 2 ^ 30) (hdata : DataFits table.id t file)
    (hopen : ¬ OpenStops table.id file) (key : Nat) :
    Prog.Meets (Opened n table t file) (tableDeleteUnlocked table key) fun _ s =>
      Opened n table t file s := by
  refine visitRecord_meets hn hn' hdata hopen ?_ ?_
  · intro ptr page off
    refine Beside.bind (Beside.lift _) fun _ => Beside.bind (Beside.walCall _) fun _ => ?_
    split
    · exact Beside.pure _
    · exact Beside.bind (beside_indexDelete key) fun _ => Beside.pure _
  · intro ptr page off hr
    refine Prog.Meets.bind (readRecord_meets hr.record) fun _ =>
      Prog.Meets.bind (walCall_meets _) fun lsn => ?_
    split
    · exact Prog.Meets.pure fun s hs => ⟨hs, fun _ hnone => by cases hnone⟩
    · refine Prog.Meets.bind (indexDelete_meets key) fun _ => ?_
      refine Prog.Meets.pure fun s hs => ⟨hs, fun page' hpage' => ?_⟩
      cases hpage'
      have hflag := getDeletedFlagOffset_lt table.id
      have hrecord := hr.record
      refine hr.version.markDeleted ?_ (by omega)
      rw [hr.offset]
      exact Nat.le_add_right _ _

/-- The pages that `page_get_count` counts have records that lie inside. -/
theorem pageCount_meets (hdata : DataFits table.id t file) (hopen : ¬ OpenStops table.id file) :
    Prog.Meets (Opened n table t file) (pageCount table) fun pages s =>
      (∀ q < pages, ∀ slot < pageGetRecordCount (pageRead file q),
        SlotFits table.id (pageRead file q) slot) ∧ Opened n table t file s := by
  refine Prog.Meets.reads fun s hs => ⟨fun q hq => hdata.scanned hopen q ?_, hs⟩
  change q < s.files.pages table.dataFd % 2 ^ 32 at hq
  unfold pageGetCount
  rcases hs.1.pages with hp | ⟨hw, hp⟩
  · rw [hp] at hq
    exact Or.inl hq
  · rw [hp] at hq
    rcases Nat.lt_or_ge q (file.length / PAGE_SIZE % 2 ^ 32) with hlt | hge
    · exact Or.inl hlt
    · exact Or.inr ⟨by omega, hw⟩

theorem beside_scanSlot (filter : Bytes → Bool) (max : Nat) (page : Bytes) (found : List Bytes)
    (slot : Nat) : Beside (scanSlot table filter max page found slot) := by
  unfold scanSlot
  split
  · exact Beside.pure _
  · split
    · exact Beside.pure _
    · refine Beside.bind (Beside.lift _) fun _ => ?_
      split
      · exact Beside.pure _
      · exact Beside.bind (Beside.lift _) fun _ => Beside.pure _

theorem scanSlot_meets {P : TableEnv → Prop} (filter : Bytes → Bool) (max : Nat) {page : Bytes}
    (found : List Bytes) {slot : Nat} (hfits : SlotFits table.id page slot) :
    Prog.Meets P (scanSlot table filter max page found slot) fun _ s => P s := by
  unfold scanSlot
  split
  · exact Prog.Meets.pure fun s hs => hs
  · split
    · exact Prog.Meets.pure fun s hs => hs
    · rename_i off heq
      unfold pageGetRecord at heq
      split at heq
      · cases heq
      · cases heq
        change Prog.Meets _ (Prog.lift (touch (slotOffset page slot + _) 1 PAGE_SIZE) >>= _) _
        refine Prog.Meets.bind (touch_meets (by have := hfits.1; omega)) fun _ => ?_
        split
        · exact Prog.Meets.pure fun s hs => hs
        · rename_i hdeleted
          have hlive : LiveSlot table.id page slot := (Bool.not_eq_true _).mp hdeleted
          refine Prog.Meets.bind (readRecord_meets (hfits.2 hlive)) fun _ => ?_
          exact Prog.Meets.pure fun s hs => hs

theorem tableScanUnlocked_meets (hn : 0 < n) (hn' : n < 2 ^ 30) (hdata : DataFits table.id t file)
    (hopen : ¬ OpenStops table.id file) (filter : Bytes → Bool) (max : Nat) :
    Prog.Meets (Opened n table t file) (tableScanUnlocked table filter max) fun _ s =>
      Opened n table t file s := by
  refine Prog.Meets.bind (pageCount_meets hdata hopen) fun pages => Prog.Meets.and_pre fun hpages => ?_
  refine Prog.Meets.fold (fun _ _ s => Opened n table t file s) fun front q post found hxs => ?_
  have hq : q < pages := by
    have hmem : q ∈ List.range pages := by
      rw [hxs]
      exact List.mem_append_right _ List.mem_cons_self
    exact List.mem_range.mp hmem
  have hlen := length_pageRead file q
  unfold scanPage
  split
  · exact Prog.Meets.pure fun s hs => hs
  · refine visitPage_keeps hn hn' (fun q hq => updatable_le hq) ?_ ?_
    · exact fun page => Beside.bind (Beside.fold (fun b x => beside_scanSlot _ _ _ b x) _) fun _ =>
        Beside.pure _
    · rintro page - ⟨hversion, -⟩
      rw [hversion.count hlen]
      have hloop : Prog.Meets (fun s => DeletedFrom t s.pkIndex)
          (Prog.fold (scanSlot table filter max page) found
            (List.range (pageGetRecordCount (pageRead file q)))) fun _ s => DeletedFrom t s.pkIndex := by
        refine Prog.Meets.fold (fun _ _ (s : TableEnv) => DeletedFrom t s.pkIndex)
          fun front slot post b hxs => ?_
        have hslot : slot ∈ List.range (pageGetRecordCount (pageRead file q)) := by
          rw [hxs]
          exact List.mem_append_right _ List.mem_cons_self
        exact scanSlot_meets filter max b
          (hversion.slotFits hlen (hpages q hq slot (List.mem_range.mp hslot)))
      refine Prog.Meets.bind hloop fun _ => ?_
      exact Prog.Meets.pure fun s hs => ⟨hs, fun _ hnone => by cases hnone⟩

/-! ## Opening -/

/-- What the loop of `table_open` knows of the slots it has passed. -/
def Passed (id : TableId) (slots : List (Bytes × Nat)) (maxId : Option Nat) : Prop :=
  ∀ m, maxId = some m → m < 2 ^ 32 ∧ ∀ x ∈ slots, ¬ LegacySlot id x ∧ slotKey id x ≤ m

theorem slotKey_lt (id : TableId) (x : Bytes × Nat) : slotKey id x < 2 ^ 32 := storedKey_lt id x.1 _

/-- One slot. -/
theorem openSlot_meets {P : TableEnv → Prop} {slots : List (Bytes × Nat)} {maxId : Option Nat}
    {page : Bytes} {slot : Nat} (hslot : slot < pageGetRecordCount page)
    (hpassed : Passed table.id slots maxId)
    (hfits : (∀ y ∈ slots, ¬ LegacySlot table.id y) →
      slotOffset page slot + keyOffset table.id + 4 ≤ PAGE_SIZE) :
    Prog.Meets P (openSlot table page maxId slot) fun maxId s =>
      Passed table.id (slots ++ [(page, slot)]) maxId ∧ P s := by
  cases maxId with
  | none => exact Prog.Meets.pure fun s hs => ⟨fun m hm => (by cases hm), hs⟩
  | some m =>
    obtain ⟨hm, hslots⟩ := hpassed m rfl
    unfold openSlot pageGetRecord
    rw [if_neg (by omega)]
    change Prog.Meets _ (Prog.lift (touch (slotOffset page slot + keyOffset table.id) 4 PAGE_SIZE) >>= _) _
    refine Prog.Meets.bind (touch_meets (hfits fun y hy => (hslots y hy).1)) fun _ => ?_
    refine Prog.Meets.pure fun s hs => ⟨fun m' hm' => ?_, hs⟩
    change (if table.id = .bookingSeats ∧ slotKey table.id (page, slot) = 0 then none
      else some (max m (slotKey table.id (page, slot)))) = some m' at hm'
    split at hm'
    · cases hm'
    · rename_i hlegacy
      cases hm'
      have hkey := slotKey_lt table.id (page, slot)
      refine ⟨by omega, fun x hx => ?_⟩
      rcases List.mem_append.mp hx with hx | hx
      · exact ⟨(hslots x hx).1, Nat.le_trans (hslots x hx).2 (Nat.le_max_left _ _)⟩
      · rw [List.mem_singleton] at hx
        subst hx
        exact ⟨hlegacy, Nat.le_max_right _ _⟩

/-- The state while the table is opened: nothing is written. -/
def Opening (n : Nat) (table : Table) (t : BTree) (file : Bytes) (s : TableEnv) : Prop :=
  FileEnv n table (originalVersions file) (file.length / PAGE_SIZE) (fun t' => t' = t) s

theorem beside_openSlot (page : Bytes) (maxId : Option Nat) (slot : Nat) :
    Beside (openSlot table page maxId slot) := by
  cases maxId with
  | none => exact Beside.pure _
  | some m =>
    cases hrecord : pageGetRecord page slot with
    | none =>
      simp only [openSlot, hrecord]
      exact Beside.pure _
    | some off =>
      simp only [openSlot, hrecord]
      exact Beside.bind (Beside.lift _) fun _ => Beside.pure _

/-- One page. -/
theorem openPage_meets (hn : 0 < n) (hn' : n < 2 ^ 30) (hfits : OpenFits table.id file)
    {front post : List Nat} {q : Nat} (hxs : List.range (pageGetCount file) = front ++ q :: post)
    {maxId : Option Nat} (hpassed : Passed table.id (front.flatMap (pageSlots file)) maxId) :
    Prog.Meets (Opening n table t file) (openPage table maxId q) fun maxId s =>
      Passed table.id ((front ++ [q]).flatMap (pageSlots file)) maxId ∧ Opening n table t file s := by
  cases maxId with
  | none => exact Prog.Meets.pure fun s hs => ⟨fun m hm => (by cases hm), hs⟩
  | some m =>
    unfold openPage
    refine visitPage_meets hn hn' (fun q hq => hq.elim) ?_ (fun m hm => by cases hm) ?_
    · exact fun page => Beside.bind (Beside.fold (fun b x => beside_openSlot page b x) _) fun _ =>
        Beside.pure _
    · rintro page - rfl
      have hloop : Prog.Meets (fun s => Passed table.id (front.flatMap (pageSlots file) ++ []) (some m) ∧
            s.pkIndex = t)
          (Prog.fold (openSlot table (pageRead file q)) (some m)
            (List.range (pageGetRecordCount (pageRead file q))))
          fun maxId s => Passed table.id (front.flatMap (pageSlots file) ++ pageSlots file q) maxId ∧
            s.pkIndex = t := by
        refine Prog.Meets.fold (fun slots maxId (s : TableEnv) =>
          Passed table.id (front.flatMap (pageSlots file) ++
            slots.map fun slot => (pageRead file q, slot)) maxId ∧ s.pkIndex = t)
          fun slots slot rest b hrange => Prog.Meets.and_pre fun hb => ?_
        have hslot : slot ∈ List.range (pageGetRecordCount (pageRead file q)) := by
          rw [hrange]
          exact List.mem_append_right _ List.mem_cons_self
        refine (openSlot_meets (List.mem_range.mp hslot) hb fun hlegacy => ?_).post fun maxId s hs => ?_
        · -- the slots before this one, and those behind it
          refine hfits _ (pageRead file q, slot) (rest.map (fun slot => (pageRead file q, slot)) ++
            post.flatMap (pageSlots file)) ?_ hlegacy
          rw [fileSlots, hxs, List.flatMap_append, List.flatMap_cons, pageSlots, hrange, List.map_append,
            List.map_cons]
          simp only [List.append_assoc, List.cons_append]
        · rw [List.map_append, List.map_cons, List.map_nil, ← List.append_assoc]
          exact hs
      refine Prog.Meets.bind (hloop.pre fun s hs => ⟨by rw [List.append_nil]; exact hpassed, hs⟩)
        fun maxId => ?_
      refine Prog.Meets.pure fun s hs => ⟨hs.2, ?_, fun _ hnone => by cases hnone⟩
      rw [List.flatMap_append, List.flatMap_cons, List.flatMap_nil, List.append_nil]
      exact hs.1

/-- The root of the index is freed. -/
theorem indexFree_meets {P : TableEnv → Prop} (hfits : ∀ s, P s → s.pkIndex.root.Fits s.pkIndex.order) :
    Prog.Meets P indexFree fun _ s => P s := by
  intro s hs
  refine ⟨(), s, ?_, hs⟩
  simp only [indexFree, Bind.bind, Prog.reads, Prog.lift, nodeFreeChecked_ok _ (hfits s hs)]
  rfl

/-- Pages that have not changed are versions. -/
theorem Opening.opened {s : TableEnv} (h : Opening n table t file s) (hfits : t.root.Fits t.order)
    (hint : t.root.Fits (2 ^ 30)) : Opened n table t file s := by
  obtain ⟨hinv, rfl⟩ := h
  have hself : ∀ q b, b = pageRead file q → (tableVersions table.id s.pkIndex file).version q b := by
    rintro q b rfl
    exact ⟨PageVersion.self (length_pageRead _ _), Or.inr rfl⟩
  refine ⟨⟨hinv.shape, fun i hi hfd => ?_, fun q => hself q _ (hinv.disk q), ?_⟩, ⟨[], rfl⟩, hfits, hint⟩
  · have hf := hinv.frame i hi hfd
    exact ⟨hf.length, hself _ _ hf.version, fun hd => (hf.written hd).elim⟩
  · exact Or.inl (hinv.pages.resolve_right fun hw => hw.1)

/-- What the pool has of the data file, if it has any of it, is what the file has. -/
def CachedAsOnDisk (n : Nat) (table : Table) (s : TableEnv) : Prop :=
  ∀ i, s.pool.InUse n i → (s.pool.frames i).key.fd = table.dataFd →
    (s.pool.frames i).buf = s.files.page (s.pool.frames i).key ∧ (s.pool.frames i).dirty = false

/-- So the pool and the file have nothing but the pages of the file. -/
theorem CachedAsOnDisk.originals {s : TableEnv} (h : CachedAsOnDisk n table s) (hshape : PoolShape n s.pool) :
    FileInv n table.dataFd (originalVersions (s.files table.dataFd))
      ((s.files table.dataFd).length / PAGE_SIZE) s.pool s.files := by
  refine ⟨hshape, fun i hi hfd => ?_, fun q => rfl, Or.inl rfl⟩
  obtain ⟨hbuf, hdirty⟩ := h i hi hfd
  refine ⟨?_, ?_, fun hd => ?_⟩
  · rw [hbuf]
    exact length_pageRead _ _
  · rw [← hfd]
    exact hbuf
  · rw [hdirty] at hd
    cases hd

/-- With an empty root that got no memory there is nothing to look up. -/
theorem not_lookup_nullRoot (hroot : t.root = nullRoot) (ptr : RecordPtr) : ¬ Lookup t ptr := by
  rintro ⟨keys, key, h⟩
  have hno : (deleteKeys t keys).root.EntriesIn fun _ => False := by
    have hstep : ∀ (keys : List Nat) (t : BTree), t.root.EntriesIn (fun _ => False) →
        (deleteKeys t keys).root.EntriesIn fun _ => False := by
      intro keys
      induction keys with
      | nil => exact fun t ht => ht
      | cons k keys ih => exact fun t ht => ih _ (btreeDelete_entries ht k)
    refine hstep keys t ?_
    rw [hroot]
    exact entriesIn_inner.mpr fun c hc => by cases hc
  obtain ⟨k, hfalse⟩ := btreeSearch_entry hno h
  exact hfalse

theorem DataFits.nullRoot {t' : BTree} (h : DataFits table.id t' file) (hroot : t.root = nullRoot) :
    DataFits table.id t file := by
  have hnone := not_lookup_nullRoot hroot
  refine ⟨h.opened, fun _ => ?_, fun hopen q hq => h.scanned hopen q ?_,
    fun _ ptr hptr => absurd hptr (hnone ptr)⟩
  · rw [hroot]
    exact ⟨Nat.zero_le _, trivial⟩
  rcases hq with hlt | ⟨-, ptr, hptr, -⟩
  · exact Or.inl hlt
  · exact absurd hptr (hnone ptr)

/-- **`table_open`** with an index file that fits and the data file it is used with. -/
theorem tableOpen_meets (hn : 0 < n) (hn' : n < 2 ^ 30) {index : Bytes} (hindex : IndexFits index)
    (hdata : ∀ t, btreeOpen index = some t → DataFits table.id t file) (alloc : Nat → Bool)
    {s : TableEnv} (hshape : PoolShape n s.pool)
    (hnew : CachedAsOnDisk n table s) (hfile : s.files table.dataFd = file) :
    ∃ opened s', tableOpen table alloc index s = .ok (opened, s') ∧
      (opened = true → ¬ OpenStops table.id file ∧
        ∃ t, DataFits table.id t file ∧ Opened n table t file s') := by
  obtain ⟨r, hr, hrfits⟩ := btreeOpenChecked_ok alloc hindex
  cases r with
  | none =>
    refine ⟨false, s, ?_, fun h => by cases h⟩
    simp only [tableOpen, Bind.bind, Prog.lift, hr]
    rfl
  | some t =>
    have hfits := hrfits t rfl
    have hdataFits : DataFits table.id t file := by
      rcases btreeOpen_of_checked hr with hopen | ⟨hroot, hopen⟩
      · exact hdata t hopen
      · obtain ⟨t', ht'⟩ := Option.isSome_iff_exists.mp hopen
        exact (hdata t' ht').nullRoot hroot
    have hstart : Opening n table t file { s with pkIndex := t } := by
      refine ⟨?_, rfl⟩
      rw [← hfile]
      exact hnew.originals hshape
    have hcount : Prog.Meets (Opening n table t file) (pageCount table) fun pages s =>
        pages = pageGetCount file ∧ Opening n table t file s :=
      Prog.Meets.reads fun s hs => by
        have hpages := hs.1.pages.resolve_right fun hw => hw.1
        refine ⟨?_, hs⟩
        show s.files.pages table.dataFd % 2 ^ 32 = _
        rw [hpages]
        rfl
    have hloop : Prog.Meets (fun s => Passed table.id ([].flatMap (pageSlots file)) (some 0) ∧
          Opening n table t file s)
        (Prog.fold (openPage table) (some 0) (List.range (pageGetCount file))) fun maxId s =>
          Passed table.id (fileSlots file) maxId ∧ Opening n table t file s :=
      Prog.Meets.fold (fun front maxId s => Passed table.id (front.flatMap (pageSlots file)) maxId ∧
        Opening n table t file s) fun front q post maxId hxs => Prog.Meets.and_pre fun hpassed =>
          openPage_meets hn hn' hdataFits.opened hxs hpassed
    have hindexed : Prog.Meets (fun s' => s' = s)
        (Prog.lift (btreeOpenChecked alloc index) : TableProg (Option BTree)) fun r s' =>
          r = some t ∧ s' = s := by
      rintro s' rfl
      exact ⟨some t, s', by rw [Prog.lift, hr]; rfl, rfl, rfl⟩
    have hset : Prog.Meets (fun s' => s' = s) (setIndex t) fun _ s' => Opening n table t file s' :=
      Prog.Meets.act fun s' hs' => by
        rw [hs']
        exact hstart
    have hrest : Prog.Meets (fun s' => s' = s) (tableOpen table alloc index) fun opened s =>
        opened = true → ¬ OpenStops table.id file ∧ Opened n table t file s := by
      refine Prog.Meets.bind hindexed fun r => Prog.Meets.and_pre ?_
      rintro rfl
      refine Prog.Meets.bind hset fun _ => ?_
      refine Prog.Meets.bind hcount fun pages => Prog.Meets.and_pre ?_
      rintro rfl
      refine Prog.Meets.bind (hloop.pre fun s hs => ⟨?_, hs⟩) fun maxId => Prog.Meets.and_pre fun hpassed => ?_
      · intro m hm
        cases hm
        exact ⟨by decide, fun x hx => by cases hx⟩
      · have hfree : Prog.Meets (Opening n table t file) indexFree fun _ s => Opening n table t file s :=
          indexFree_meets fun s hs => by
            rw [hs.2]
            exact hfits
        cases maxId with
        | none => exact Prog.Meets.bind hfree fun _ => Prog.Meets.pure fun s _ h => by cases h
        | some m =>
          obtain ⟨hm, hslots⟩ := hpassed m rfl
          simp only
          split
          · exact Prog.Meets.bind hfree fun _ => Prog.Meets.pure fun s _ h => by cases h
          · rename_i hne
            have hset : Prog.Meets (Opening n table t file) (etpSetNextId table (m + 1)) fun _ s =>
                Opening n table t file s := Prog.Meets.act fun s hs => hs
            have hgoes : ¬ OpenStops table.id file := by
              rintro ⟨x, hx, hlegacy | hmax⟩
              · exact (hslots x hx).1 hlegacy
              · have := (hslots x hx).2
                omega
            exact Prog.Meets.bind hset fun _ =>
              Prog.Meets.pure fun s hs _ => ⟨hgoes, hs.opened hfits (hdataFits.searched hgoes)⟩
    obtain ⟨opened, s', hrun, hpost⟩ := hrest s rfl
    exact ⟨opened, s', hrun, fun h => ⟨(hpost h).1, t, hdataFits, (hpost h).2⟩⟩

/-! ## Runs -/

/-- A call after the table has been opened. -/
inductive TableCall where
  | find (key : Nat)
  | update (key : Nat) (record : Memory)
  | delete (key : Nat)
  | scan (filter : Bytes → Bool) (max : Nat)

/-- One call; what it returns does not matter. -/
def runTableCall (table : Table) : TableCall → TableProg Unit
  | .find key => do
    let _ ← tableFindByIdUnlocked table key
    pure ()
  | .update key record => do
    let _ ← tableUpdateUnlocked table key record
    pure ()
  | .delete key => do
    let _ ← tableDeleteUnlocked table key
    pure ()
  | .scan filter max => do
    let _ ← tableScanUnlocked table filter max
    pure ()

/-- Any calls in a row. -/
def runTableCalls (table : Table) (calls : List TableCall) : TableProg Unit :=
  Prog.fold (fun _ call => runTableCall table call) () calls

/-- **No call leads out of bounds.** -/
theorem runTableCall_meets (hn : 0 < n) (hn' : n < 2 ^ 30) (hdata : DataFits table.id t file)
    (hopen : ¬ OpenStops table.id file) (call : TableCall) :
    Prog.Meets (Opened n table t file) (runTableCall table call) fun _ s => Opened n table t file s := by
  have hdone : ∀ {α : Type} {p : TableProg α},
      Prog.Meets (Opened n table t file) p (fun _ s => Opened n table t file s) →
      Prog.Meets (Opened n table t file) (p >>= fun _ => pure ()) fun _ s => Opened n table t file s :=
    fun hp => Prog.Meets.bind hp fun _ => Prog.Meets.pure fun _ hs => hs
  cases call with
  | find key => exact hdone (tableFindByIdUnlocked_meets hn hn' hdata hopen key)
  | update key record => exact hdone (tableUpdateUnlocked_meets hn hn' hdata hopen key record)
  | delete key => exact hdone (tableDeleteUnlocked_meets hn hn' hdata hopen key)
  | scan filter max => exact hdone (tableScanUnlocked_meets hn hn' hdata hopen filter max)

/-- **Files that fit lead no access out of bounds.**  `table_open`, and any lookups, updates, deletions
and scans after it, stay inside the arrays of every node and inside the page, whatever input, output and
allocation fails, and whatever other files have in the pool. -/
theorem table_accesses_in_bounds (hn : 0 < n) (hn' : n < 2 ^ 30) {index : Bytes}
    (hindex : IndexFits index) {s : TableEnv}
    (hdata : ∀ t, btreeOpen index = some t → DataFits table.id t (s.files table.dataFd))
    (hshape : PoolShape n s.pool)
    (hnew : CachedAsOnDisk n table s) (alloc : Nat → Bool) (calls : List TableCall) :
    ∃ opened s', tableOpen table alloc index s = .ok (opened, s') ∧
      (opened = true → ∃ s'', runTableCalls table calls s' = .ok ((), s'')) := by
  obtain ⟨opened, s', hrun, hpost⟩ := tableOpen_meets hn hn' hindex hdata alloc hshape hnew rfl
  refine ⟨opened, s', hrun, fun h => ?_⟩
  obtain ⟨hopen, t, hfits, hs'⟩ := hpost h
  have hcalls : Prog.Meets (Opened n table t (s.files table.dataFd)) (runTableCalls table calls)
      fun _ s'' => Opened n table t (s.files table.dataFd) s'' :=
    Prog.Meets.fold (fun _ _ s'' => Opened n table t (s.files table.dataFd) s'')
      fun front call post _ _ => runTableCall_meets hn hn' hfits hopen call
  obtain ⟨_, s'', hrun', -⟩ := hcalls s' hs'
  exact ⟨s'', hrun'⟩

end Calls

/-! ## Files on which this can be seen -/

/-- An index with one record pointer. -/
def oneEntryTree : BTree := ⟨.leaf ⟨0, [(1, ⟨0, 0⟩)], none⟩, 128, 1, false, 1⟩

/-- The header of a page of `booking_seats`, with the given number of records of the given size. -/
def seatHeader (count size : Nat) : Bytes :=
  toLE 4 0 ++ (toLE 2 count ++ (toLE 2 32 ++ (toLE 2 size ++ (toLE 2 1 ++ toLE 4 0))))

/-- A page of `booking_seats` with such a header and one record, of key 1. -/
def seatPage (count size : Nat) : Bytes :=
  seatHeader count size ++
    ([5, 0, 0, 0, 7, 0, 0, 0, 0, 1, 0, 0, 0, 0, 0, 0] ++ List.replicate (PAGE_SIZE - 32) 0)

/-- A new pool of one frame over a data file with descriptor 3. -/
def freshEnv (data : Bytes) : TableEnv where
  pkIndex := btreeCreate 128
  pool := bufferPoolCreate 1
  files := fun _ => data
  wal := walCreate
  nextId := fun _ => 1
  io := IoScript.ok

/-- The table of the data file. -/
def seatTable : Table := ⟨.bookingSeats, 3⟩

instance (id : TableId) (page : Bytes) (slot : Nat) : Decidable (SlotFits id page slot) := by
  unfold SlotFits
  infer_instance

/-- The access that a computation ends with. -/
def badAccessOf {α : Type} : Except BadAccess α → Option BadAccess
  | .error e => some e
  | .ok _ => none

theorem table_accesses_in_bounds_seats :
    ∃ opened s', tableOpen seatTable (fun _ => true) (btreeFile oneEntryTree) (freshEnv (seatPage 1 16)) =
        .ok (opened, s') ∧
      (opened = true → ∃ s'', runTableCalls seatTable
        [.find 1, .update 1 (fun _ => 0), .delete 1, .scan (fun _ => true) 10] s' = .ok ((), s'')) := by
  have hopen : btreeOpen (btreeFile oneEntryTree) = some oneEntryTree := rfl
  have hnodes : indexNodes (btreeFile oneEntryTree) = some (128, writeNode oneEntryTree.root) := rfl
  refine table_accesses_in_bounds (by decide) (by decide) ?_ ?_ (poolShape_create (by decide)) ?_ _ _
  · intro order nodes h _
    rw [hnodes] at h
    cases h
    decide
  · intro t ht
    rw [hopen] at ht
    cases ht
    have hptr : ∀ ptr, Lookup oneEntryTree ptr → ptr = ⟨0, 0⟩ := by
      rintro ptr ⟨keys, key, h⟩
      have hentries : ∀ (keys : List Nat) (t : BTree), t.root.EntriesIn (fun e => e.2 = ⟨0, 0⟩) →
          (deleteKeys t keys).root.EntriesIn fun e => e.2 = ⟨0, 0⟩ := by
        intro keys
        induction keys with
        | nil => exact fun t ht => ht
        | cons k keys ih => exact fun t ht => ih _ (btreeDelete_entries ht k)
      obtain ⟨k, he⟩ := btreeSearch_entry
        (hentries keys oneEntryTree (entriesIn_leaf.mpr (by decide))) h
      exact he
    have hslots : ∀ q < 2, ∀ slot < pageGetRecordCount (pageRead (seatPage 1 16) q),
        SlotFits .bookingSeats (pageRead (seatPage 1 16) q) slot := by decide +kernel
    refine ⟨?_, fun _ => ?_, fun _ q hq => hslots q ?_, fun _ ptr hlook hslot => ?_⟩
    · have hall : ∀ x ∈ fileSlots (seatPage 1 16), slotOffset x.1 x.2 + keyOffset .bookingSeats + 4 ≤
          PAGE_SIZE := by decide +kernel
      intro front x post hx _
      refine hall x ?_
      rw [show (freshEnv (seatPage 1 16)).files seatTable.dataFd = seatPage 1 16 from rfl] at hx
      rw [hx]
      exact List.mem_append_right _ List.mem_cons_self
    · show 1 ≤ 2 ^ 30
      decide
    · have hcount : pageGetCount (seatPage 1 16) = 1 := by decide +kernel
      rw [show (freshEnv (seatPage 1 16)).files seatTable.dataFd = seatPage 1 16 from rfl, hcount] at hq
      omega
    · have hsize : slotOffset (pageRead (seatPage 1 16) 0) 0 + pageRecordSize (pageRead (seatPage 1 16) 0) ≤
          PAGE_SIZE := by decide +kernel
      rw [hptr ptr hlook] at hslot ⊢
      exact ⟨hslots 0 (by decide) 0 hslot, fun _ => hsize⟩
  · rintro i ⟨-, hvalid⟩
    cases hvalid

/-- An index file of order 3 whose root claims ten keys, and a data file whose page claims 300 records. -/
theorem malformed_files_out_of_bounds :
    badAccessOf (tableOpen seatTable (fun _ => true)
      (toLE 4 BTREE_MAGIC ++ (toLE 4 3 ++ (toLE 4 0 ++ (toLE 4 1 ++ (toLE 4 1 ++ (toLE 4 10 ++
        List.replicate 120 0)))))) (freshEnv [])) = some ⟨0, 10, 3⟩ ∧
    badAccessOf (tableOpen ⟨.seats, 3⟩ (fun _ => true) (btreeFile oneEntryTree)
      (freshEnv (seatPage 300 32))) = some ⟨4112, 4, 4096⟩ := by
  constructor
  · decide +kernel
  · decide +kernel

end Ticketing
