import Ticketing.Storage.Io

/-!
# Pages (`server/storage/page.c`)

A data file is a byte string cut into pages of `PAGE_SIZE` bytes; a page is a 16-byte header and
records of one size.

* `pageRead`, `pageWrite`, `pageAlloc`, `pageGetCount` — pages of a file.  `page_get_count` returns a
  32-bit number, and `page_alloc` takes it for the number of the new page.
* `pageInsertRecord`, `pageGetRecord`, `pageUpdateRecord` — records of a page in memory.
* `pageRead_pageWrite_self`, `pageRead_pageWrite_ne` — what is read after a write.
* `PageHolds` — the records of a page; one lemma for each record operation.

Descriptors are those of open files.
-/

set_option autoImplicit false

namespace Ticketing

open Bytes

/-! ## Pages of a file -/

/-- The bytes of a page in a file; a short read is filled up with zeros. -/
def pageRead (file : Bytes) (pageId : Nat) : Bytes :=
  let b := slice (pageId * PAGE_SIZE) PAGE_SIZE file
  b ++ List.replicate (PAGE_SIZE - b.length) 0

/-- The file after a `pwrite` of a page that ends as given, and whether `page_write` returns 0. -/
def pageWrite (file : Bytes) (pageId : Nat) (page : Bytes) : IoResult → Bytes × Bool
  | .ok => (pwrite (pageId * PAGE_SIZE) page file, true)
  | .short n =>
    (if n = 0 then file else pwrite (pageId * PAGE_SIZE) (page.take n) file, decide (PAGE_SIZE ≤ n))

/-- `page_get_count`. -/
def pageGetCount (file : Bytes) : Nat := file.length / PAGE_SIZE % 2 ^ 32

/-- `page_init_header`: page id, no records, the first free byte, the record size, no flags. -/
def pageInitHeader (pageId recordSize : Nat) : Bytes :=
  toLE 4 pageId ++ (toLE 2 0 ++ (toLE 2 PAGE_HEADER_SIZE ++ (toLE 2 recordSize ++
    (toLE 2 0 ++ (toLE 4 0 ++ List.replicate (PAGE_SIZE - PAGE_HEADER_SIZE) 0)))))

/-- `page_alloc`: the file and the number of the new page. -/
def pageAlloc (file : Bytes) (recordSize : Nat) (io : IoResult) : Bytes × Nat :=
  if recordSize = 0 then (file, INVALID_PAGE_ID)
  else
    let newId := pageGetCount file
    let r := pageWrite file newId (pageInitHeader newId recordSize) io
    (r.1, if r.2 then newId else INVALID_PAGE_ID)

theorem length_pageRead (file : Bytes) (pageId : Nat) : (pageRead file pageId).length = PAGE_SIZE := by
  have h : (slice (pageId * PAGE_SIZE) PAGE_SIZE file).length ≤ PAGE_SIZE := by
    unfold slice
    rw [List.length_take]
    omega
  unfold pageRead
  rw [List.length_append, List.length_replicate]
  omega

theorem length_pageInitHeader (pageId recordSize : Nat) :
    (pageInitHeader pageId recordSize).length = PAGE_SIZE := by
  simp only [pageInitHeader, List.length_append, length_toLE, List.length_replicate]
  rfl

theorem getD_pageRead (file : Bytes) (pageId : Nat) {i : Nat} (hi : i < PAGE_SIZE) :
    (pageRead file pageId).getD i 0 = file.getD (pageId * PAGE_SIZE + i) 0 := by
  have hslice := getD_slice (pageId * PAGE_SIZE) PAGE_SIZE file i
  rw [if_pos hi] at hslice
  rw [← hslice]
  unfold pageRead
  simp only [List.getD_eq_getElem?_getD, List.getElem?_append]
  split
  · rfl
  · rename_i hge
    rw [List.getElem?_eq_none (by omega : (slice (pageId * PAGE_SIZE) PAGE_SIZE file).length ≤ i),
      List.getElem?_replicate]
    split <;> rfl

/-- A page just written is read back. -/
theorem pageRead_pageWrite_self (file : Bytes) (pageId : Nat) {page : Bytes}
    (h : page.length = PAGE_SIZE) : pageRead (pageWrite file pageId page .ok).1 pageId = page := by
  apply ext_getD
  · rw [length_pageRead, h]
  · intro i hi
    rw [length_pageRead] at hi
    rw [getD_pageRead _ _ hi, pageWrite, getD_pwrite, if_pos (by omega), Nat.add_sub_cancel_left]

/-- The other pages stay. -/
theorem pageRead_pageWrite_ne (file : Bytes) {pageId q : Nat} {page : Bytes}
    (h : page.length = PAGE_SIZE) (hne : q ≠ pageId) :
    pageRead (pageWrite file pageId page .ok).1 q = pageRead file q := by
  apply ext_getD
  · rw [length_pageRead, length_pageRead]
  · intro i hi
    rw [length_pageRead] at hi
    rw [getD_pageRead _ _ hi, getD_pageRead _ _ hi, pageWrite, getD_pwrite, if_neg]
    rw [h]
    rcases Nat.lt_or_gt_of_ne hne with hlt | hgt
    · have := Nat.mul_le_mul_right PAGE_SIZE (show q + 1 ≤ pageId by omega)
      rw [Nat.add_mul] at this
      omega
    · have := Nat.mul_le_mul_right PAGE_SIZE (show pageId + 1 ≤ q by omega)
      rw [Nat.add_mul] at this
      omega

/-- The number of whole pages after a page inside the file is overwritten. -/
theorem pages_pageWrite {file : Bytes} {pageId : Nat} {page : Bytes} (h : page.length = PAGE_SIZE)
    (hin : pageId < file.length / PAGE_SIZE) :
    (pageWrite file pageId page .ok).1.length = file.length := by
  have hle : (pageId + 1) * PAGE_SIZE ≤ file.length := by
    have := Nat.mul_le_mul_right PAGE_SIZE (show pageId + 1 ≤ file.length / PAGE_SIZE by omega)
    have := Nat.div_mul_le_self file.length PAGE_SIZE
    omega
  rw [Nat.add_mul, Nat.one_mul] at hle
  rw [pageWrite, length_pwrite, h]
  omega

/-- The new page is the last one. -/
theorem pages_pageAlloc {file : Bytes} {page : Bytes} (h : page.length = PAGE_SIZE) :
    (pageWrite file (file.length / PAGE_SIZE) page .ok).1.length / PAGE_SIZE =
      file.length / PAGE_SIZE + 1 := by
  have hpos : 0 < PAGE_SIZE := by decide
  have hdiv := Nat.div_add_mod file.length PAGE_SIZE
  have hmod := Nat.mod_lt file.length hpos
  rw [pageWrite, length_pwrite, h, Nat.max_eq_right]
  · rw [Nat.add_div_right _ hpos, Nat.mul_div_cancel _ hpos]
  · rw [Nat.mul_comm] at hdiv
    omega

/-! ## Records of a page -/

/-- `record_count`. -/
def pageGetRecordCount (page : Bytes) : Nat := ofLE (slice 4 2 page)

/-- `record_size`. -/
def pageRecordSize (page : Bytes) : Nat := ofLE (slice 8 2 page)

/-- `flags`. -/
def pageFlags (page : Bytes) : Nat := ofLE (slice 10 2 page)

/-- `PAGE_FLAG_DIRTY`. -/
def PAGE_FLAG_DIRTY : Nat := 1

/-- `_record_offset`. -/
def recordOffset (slot recordSize : Nat) : Nat := PAGE_HEADER_SIZE + slot * recordSize

/-- `page_get_max_records`. -/
def pageGetMaxRecords (recordSize : Nat) : Nat :=
  if recordSize = 0 then 0 else (PAGE_SIZE - PAGE_HEADER_SIZE) / recordSize

/-- `page_is_full`. -/
def pageIsFull (page : Bytes) : Bool :=
  decide (pageGetMaxRecords (pageRecordSize page) ≤ pageGetRecordCount page)

/-- `hdr->flags |= PAGE_FLAG_DIRTY`. -/
def setDirtyFlag (page : Bytes) : Bytes := splice 10 (toLE 2 (pageFlags page ||| PAGE_FLAG_DIRTY)) page

/-- `page_insert_record`: the page and the slot, `none` for -1. -/
def pageInsertRecord (page record : Bytes) : Bytes × Option Nat :=
  let size := pageRecordSize page
  let slot := pageGetRecordCount page
  if pageGetMaxRecords size ≤ slot then (page, none)
  else
    let page := splice (recordOffset slot size) (record.take size) page
    let page := splice 4 (toLE 2 (slot + 1)) page
    let page := splice 6 (toLE 2 (PAGE_HEADER_SIZE + (slot + 1) % 2 ^ 16 * size)) page
    (setDirtyFlag page, some slot)

/-- `page_get_record`: where the record starts in the page, `none` for `NULL`. -/
def pageGetRecord (page : Bytes) (slot : Nat) : Option Nat :=
  if pageGetRecordCount page ≤ slot then none else some (recordOffset slot (pageRecordSize page))

/-- `page_update_record`: the page, `none` for -1. -/
def pageUpdateRecord (page : Bytes) (slot : Nat) (record : Bytes) : Option Bytes :=
  if pageGetRecordCount page ≤ slot then none
  else
    let size := pageRecordSize page
    some (setDirtyFlag (splice (recordOffset slot size) (record.take size) page))

/-! ## What a page holds -/

/-- The page has the records `recs`, each of `size` bytes. -/
structure PageHolds (size : Nat) (recs : List Bytes) (page : Bytes) : Prop where
  length : page.length = PAGE_SIZE
  count : pageGetRecordCount page = recs.length
  recordSize : pageRecordSize page = size
  fits : recs.length ≤ pageGetMaxRecords size
  record : ∀ j r, recs[j]? = some r → slice (recordOffset j size) size page = r

section PageHolds

variable {size : Nat} {recs : List Bytes} {page : Bytes}

theorem recordOffset_le {j : Nat} (hj : j < pageGetMaxRecords size) :
    recordOffset j size + size ≤ PAGE_SIZE := by
  unfold pageGetMaxRecords at hj
  split at hj
  · omega
  · have hmul := Nat.mul_le_mul_right size (show j + 1 ≤ (PAGE_SIZE - PAGE_HEADER_SIZE) / size by omega)
    have hdiv := Nat.div_mul_le_self (PAGE_SIZE - PAGE_HEADER_SIZE) size
    rw [Nat.add_mul] at hmul
    have hhead : PAGE_HEADER_SIZE ≤ PAGE_SIZE := by decide
    unfold recordOffset
    omega

theorem recordOffset_lt (size : Nat) {i j : Nat} (hij : i < j) :
    recordOffset i size + size ≤ recordOffset j size := by
  have hmul := Nat.mul_le_mul_right size (show i + 1 ≤ j by omega)
  rw [Nat.add_mul] at hmul
  unfold recordOffset
  omega

theorem pageGetMaxRecords_lt (size : Nat) : pageGetMaxRecords size < 2 ^ 16 := by
  unfold pageGetMaxRecords
  split
  · decide
  · have := Nat.div_le_self (PAGE_SIZE - PAGE_HEADER_SIZE) size
    have hroom : PAGE_SIZE - PAGE_HEADER_SIZE < 2 ^ 16 := by decide
    omega

/-- Every record of the page has `size` bytes. -/
theorem PageHolds.length_record (h : PageHolds size recs page) {j : Nat} {r : Bytes}
    (hr : recs[j]? = some r) : r.length = size := by
  have hj := (List.getElem?_eq_some_iff.mp hr).1
  have hfits := h.fits
  have hoff := recordOffset_le (show j < pageGetMaxRecords size by omega)
  rw [← h.record j r hr]
  exact length_slice (by rw [h.length]; exact hoff)

/-- A field that a write does not touch. -/
theorem slice_splice_disjoint {off n i : Nat} {x b : Bytes} (hb : off + x.length ≤ b.length)
    (h : i + n ≤ off ∨ off + x.length ≤ i) : slice i n (splice off x b) = slice i n b := by
  rcases h with h | h
  · exact slice_splice_before h (by omega)
  · exact slice_splice_after h hb

/-- A write to the header that leaves the count and the size of the records. -/
theorem PageHolds.header (h : PageHolds size recs page) {off : Nat} {x : Bytes}
    (hx : off + x.length ≤ PAGE_HEADER_SIZE) (hcount : 6 ≤ off ∨ off + x.length ≤ 4)
    (hsize : 10 ≤ off ∨ off + x.length ≤ 8) : PageHolds size recs (splice off x page) := by
  have hlen := h.length
  have hhead : PAGE_HEADER_SIZE ≤ PAGE_SIZE := by decide
  have hroom : off + x.length ≤ page.length := by omega
  refine ⟨by rw [length_splice hroom, hlen], ?_, ?_, h.fits, fun j r hr => ?_⟩
  · rw [pageGetRecordCount, slice_splice_disjoint hroom (by omega)]
    exact h.count
  · rw [pageRecordSize, slice_splice_disjoint hroom (by omega)]
    exact h.recordSize
  · rw [slice_splice_disjoint hroom (by unfold recordOffset; omega)]
    exact h.record j r hr

theorem PageHolds.setDirtyFlag (h : PageHolds size recs page) :
    PageHolds size recs (setDirtyFlag page) := by
  have hflag : PAGE_HEADER_SIZE = 16 := rfl
  refine h.header ?_ ?_ ?_
  · rw [length_toLE, hflag]
    omega
  · omega
  · omega

/-- A new page has no records. -/
theorem pageHolds_init (pageId : Nat) {size : Nat} (hsize : size < 2 ^ 16) :
    PageHolds size [] (pageInitHeader pageId size) := by
  refine ⟨length_pageInitHeader _ _, ?_, ?_, Nat.zero_le _, fun j r hr => ?_⟩
  · have hfield : slice 4 2 (pageInitHeader pageId size) = toLE 2 0 := by
      simp [slice, pageInitHeader, toLE]
    rw [pageGetRecordCount, hfield]
    rfl
  · have hfield : slice 8 2 (pageInitHeader pageId size) = toLE 2 size := by
      simp [slice, pageInitHeader, toLE]
    rw [pageRecordSize, hfield]
    exact ofLE_toLE_of_lt (by omega)
  · rw [List.getElem?_nil] at hr
    cases hr

/-- A record's bytes are overwritten. -/
theorem PageHolds.writeRecord (h : PageHolds size recs page) {j : Nat} (hj : j < pageGetMaxRecords size)
    {r : Bytes} (hr : r.length = size) {recs' : List Bytes} (hlen : recs'.length = recs.length)
    (hself : j < recs.length → recs'[j]? = some r) (hother : ∀ i, i ≠ j → recs'[i]? = recs[i]?) :
    PageHolds size recs' (splice (recordOffset j size) r page) := by
  have hoff := recordOffset_le hj
  have hpage := h.length
  have hroom : recordOffset j size + r.length ≤ page.length := by omega
  have hstart : PAGE_HEADER_SIZE ≤ recordOffset j size := Nat.le_add_right _ _
  have hhead : PAGE_HEADER_SIZE = 16 := rfl
  refine ⟨by rw [length_splice hroom, hpage], ?_, ?_, by rw [hlen]; exact h.fits, fun i r' hi => ?_⟩
  · rw [pageGetRecordCount, slice_splice_disjoint hroom (by omega), hlen]
    exact h.count
  · rw [pageRecordSize, slice_splice_disjoint hroom (by omega)]
    exact h.recordSize
  · rcases Nat.lt_trichotomy i j with hlt | rfl | hgt
    · have hbefore := recordOffset_lt size hlt
      rw [slice_splice_disjoint hroom (by omega)]
      exact h.record i r' (hother i (by omega) ▸ hi)
    · have hin : i < recs.length := by
        rw [← hlen]
        exact (List.getElem?_eq_some_iff.mp hi).1
      rw [hself hin, Option.some.injEq] at hi
      subst hi
      have hread := slice_splice_self (x := r) (show recordOffset i size ≤ page.length by omega)
      rwa [hr] at hread
    · have hafter := recordOffset_lt size hgt
      rw [slice_splice_disjoint hroom (by omega)]
      exact h.record i r' (hother i (by omega) ▸ hi)

/-- **`page_insert_record`** on a page that is not full. -/
theorem PageHolds.insert (h : PageHolds size recs page) (hroom : recs.length < pageGetMaxRecords size)
    {r : Bytes} (hr : r.length = size) :
    ∃ page', pageInsertRecord page r = (page', some recs.length) ∧
      PageHolds size (recs ++ [r]) page' := by
  have hhead : PAGE_HEADER_SIZE = 16 := rfl
  have hpage : PAGE_SIZE = 4096 := rfl
  have hmax := pageGetMaxRecords_lt size
  refine ⟨_, by rw [pageInsertRecord, h.count, h.recordSize, if_neg (by omega)], ?_⟩
  rw [List.take_of_length_le (Nat.le_of_eq hr)]
  apply PageHolds.setDirtyFlag
  refine PageHolds.header ?_ (by rw [length_toLE]; omega) (by omega) (by rw [length_toLE]; omega)
  -- the record first, then the count that takes it in
  have hwrite : PageHolds size recs (splice (recordOffset recs.length size) r page) :=
    h.writeRecord hroom hr rfl (fun hlt => absurd hlt (Nat.lt_irrefl _)) (fun _ _ => rfl)
  have hlen := hwrite.length
  have hoff := recordOffset_le hroom
  have hread := slice_splice_self (x := r) (b := page)
    (show recordOffset recs.length size ≤ page.length by have := h.length; omega)
  rw [hr] at hread
  generalize splice (recordOffset recs.length size) r page = page₁ at hwrite hlen hread ⊢
  have htwo := length_toLE 2 (recs.length + 1)
  have hcount : 4 + (toLE 2 (recs.length + 1)).length ≤ page₁.length := by omega
  refine ⟨by rw [length_splice hcount, hlen], ?_, ?_, by rw [List.length_append]; exact hroom,
    fun j r' hj => ?_⟩
  · have hfield := slice_splice_self (x := toLE 2 (recs.length + 1)) (show 4 ≤ page₁.length by omega)
    rw [htwo] at hfield
    rw [pageGetRecordCount, hfield, List.length_append, List.length_singleton]
    exact ofLE_toLE_of_lt (by omega)
  · rw [pageRecordSize, slice_splice_disjoint hcount (by omega)]
    exact hwrite.recordSize
  · rw [slice_splice_disjoint hcount (by unfold recordOffset; omega)]
    rcases Nat.lt_or_ge j recs.length with hlt | hge
    · rw [List.getElem?_append_left hlt] at hj
      exact hwrite.record j r' hj
    · have hlast : j = recs.length := by
        have := (List.getElem?_eq_some_iff.mp hj).1
        rw [List.length_append, List.length_singleton] at this
        omega
      subst hlast
      rw [List.getElem?_append_right (Nat.le_refl _), Nat.sub_self] at hj
      cases hj
      exact hread

theorem PageHolds.isFull (h : PageHolds size recs page) :
    pageIsFull page = decide (pageGetMaxRecords size ≤ recs.length) := by
  rw [pageIsFull, h.count, h.recordSize]

/-- **`page_get_record`**: where the record is. -/
theorem PageHolds.getRecord (h : PageHolds size recs page) (j : Nat) :
    pageGetRecord page j = if recs.length ≤ j then none else some (recordOffset j size) := by
  rw [pageGetRecord, h.count, h.recordSize]

/-- **`page_update_record`** of a record of the page. -/
theorem PageHolds.update (h : PageHolds size recs page) {j : Nat} (hj : j < recs.length) {r : Bytes}
    (hr : r.length = size) :
    ∃ page', pageUpdateRecord page j r = some page' ∧ PageHolds size (recs.set j r) page' := by
  have hfits := h.fits
  refine ⟨_, by rw [pageUpdateRecord, h.count, h.recordSize, if_neg (by omega)], ?_⟩
  rw [List.take_of_length_le (Nat.le_of_eq hr)]
  apply PageHolds.setDirtyFlag
  refine h.writeRecord (by omega) hr (List.length_set) (fun _ => ?_) (fun i hi => ?_)
  · rw [List.getElem?_set_self hj]
  · rw [List.getElem?_set_ne (Ne.symm hi)]

/-- Some bytes of a record of the page are overwritten. -/
theorem PageHolds.patch (h : PageHolds size recs page) {j : Nat} {r : Bytes} (hr : recs[j]? = some r)
    {off : Nat} {x : Bytes} (hx : off + x.length ≤ size) :
    PageHolds size (recs.set j (splice off x r)) (splice (recordOffset j size + off) x page) := by
  have hj := (List.getElem?_eq_some_iff.mp hr).1
  have hfits := h.fits
  have hlen := h.length_record hr
  have hoff := recordOffset_le (show j < pageGetMaxRecords size by omega)
  rw [splice_inside (n := size) (by rw [h.length]; exact hoff) hx, h.record j r hr]
  refine h.writeRecord (by omega) (by rw [length_splice (by omega), hlen]) List.length_set
    (fun _ => ?_) (fun i hi => ?_)
  · rw [List.getElem?_set_self hj]
  · rw [List.getElem?_set_ne (Ne.symm hi)]

end PageHolds

end Ticketing
