import Ticketing.Lib.Runs
import Ticketing.Storage.Page

/-!
# A page is a bounded list

The record calls of `page.c` on a page that `page_init_header` has set up, beside a list with room for
so many elements.

* `ListOp`, `boundedListStep` — the list: append, or replace an element.
* `RecordBuf`, `PageOp.onPage` — the calls.  A record is read from memory of the caller's, which has
  at least `record_size` bytes.
* `PageIs` — a page with its id, its free-space offset and its records; one lemma for each call.
* `OnlyPage` — a call with memory behind the page.
* `page_is_list` — every run of calls.
-/

set_option autoImplicit false

namespace Ticketing

open Bytes

/-! ## Bounded lists -/

/-- A call on a list. -/
inductive ListOp (α : Type) where
  | append (a : α)
  | replace (i : Nat) (a : α)

/-- The calls on a list with room for `capacity` elements: the number of the new element or -1, 0 or
-1. -/
def boundedListStep {α : Type} (capacity : Nat) (l : List α) : ListOp α → Int × List α
  | .append a => if l.length < capacity then (l.length, l ++ [a]) else (-1, l)
  | .replace i a => if i < l.length then (0, l.set i a) else (-1, l)

/-! ## The calls -/

/-- What `const void *record` points to. -/
structure RecordBuf (size : Nat) where
  bytes : Bytes
  enough : size ≤ bytes.length

/-- The record that the page takes from there. -/
def RecordBuf.record {size : Nat} (b : RecordBuf size) : Bytes := b.bytes.take size

theorem RecordBuf.length_record {size : Nat} (b : RecordBuf size) : b.record.length = size :=
  (List.length_take).trans (Nat.min_eq_left b.enough)

/-- `page_insert_record` and `page_update_record`. -/
inductive PageOp (size : Nat) where
  | insert (record : RecordBuf size)
  | update (slot : UInt16) (record : RecordBuf size)

namespace PageOp

variable {size : Nat}

/-- The value that the call returns, and the page. -/
def onPage (page : Bytes) : PageOp size → Int × Bytes
  | .insert record =>
    let r := pageInsertRecord page record.bytes
    (match r.2 with
      | some slot => (slot : Int)
      | none => -1, r.1)
  | .update slot record =>
    match pageUpdateRecord page slot.toNat record.bytes with
    | some page' => (0, page')
    | none => (-1, page)

/-- The same call of the list. -/
def onList : PageOp size → ListOp Bytes
  | .insert record => .append record.record
  | .update slot record => .replace slot.toNat record.record

end PageOp

/-- `page_id`. -/
def pageIdOf (page : Bytes) : Nat := ofLE (slice 0 4 page)

/-- `free_space_offset`. -/
def pageFreeSpaceOffset (page : Bytes) : Nat := ofLE (slice 6 2 page)

/-! ## A page and its list -/

/-- A page with its id, its free-space offset and its records. -/
structure PageIs (pageId size : Nat) (recs : List Bytes) (page : Bytes) : Prop
    extends PageHolds size recs page where
  pageId : pageIdOf page = pageId
  freeSpace : pageFreeSpaceOffset page = PAGE_HEADER_SIZE + recs.length * size

section PageIs

variable {pageId size : Nat} {recs : List Bytes} {page : Bytes}

/-- Only the first `record_size` bytes count. -/
theorem pageInsertRecord_record (page : Bytes) (record : RecordBuf (pageRecordSize page)) :
    pageInsertRecord page record.bytes = pageInsertRecord page record.record := by
  simp only [pageInsertRecord, RecordBuf.record, List.take_take, Nat.min_self]

theorem pageUpdateRecord_record (page : Bytes) (slot : Nat) (record : RecordBuf (pageRecordSize page)) :
    pageUpdateRecord page slot record.bytes = pageUpdateRecord page slot record.record := by
  simp only [pageUpdateRecord, RecordBuf.record, List.take_take, Nat.min_self]

/-- The records end inside the page. -/
theorem PageIs.freeSpace_le (h : PageIs pageId size recs page) :
    PAGE_HEADER_SIZE + recs.length * size ≤ PAGE_SIZE := by
  have hfits := h.fits
  rcases Nat.eq_zero_or_pos recs.length with hnil | hpos
  · rw [hnil, Nat.zero_mul]
    decide
  · have hlast := recordOffset_le (show recs.length - 1 < pageGetMaxRecords size by omega)
    have hmul : recs.length * size = (recs.length - 1) * size + size := by
      rw [← Nat.succ_mul]
      congr 1
      omega
    unfold recordOffset at hlast
    omega

/-- `page_init_header` sets up an empty list. -/
theorem pageIs_init (hid : pageId < 2 ^ 32) (hsize : size < 2 ^ 16) :
    PageIs pageId size [] (pageInitHeader pageId size) := by
  refine ⟨pageHolds_init pageId hsize, ?_, ?_⟩
  · have hfield : slice 0 4 (pageInitHeader pageId size) = toLE 4 pageId := by
      simp [slice, pageInitHeader, toLE]
    rw [pageIdOf, hfield]
    exact ofLE_toLE_of_lt (by omega)
  · have hfield : slice 6 2 (pageInitHeader pageId size) = toLE 2 PAGE_HEADER_SIZE := by
      simp [slice, pageInitHeader, toLE]
    rw [pageFreeSpaceOffset, hfield, List.length_nil, Nat.zero_mul]
    rfl

/-- The dirty flag is neither the page's id nor its free-space offset. -/
theorem slice_setDirtyFlag (hlen : page.length = PAGE_SIZE) {i n : Nat} (hin : i + n ≤ 10) :
    slice i n (setDirtyFlag page) = slice i n page := by
  have hsize : PAGE_SIZE = 4096 := rfl
  rw [setDirtyFlag, slice_splice_before hin (by omega)]

/-- **`page_insert_record`** appends. -/
theorem PageIs.insert (h : PageIs pageId size recs page) (hroom : recs.length < pageGetMaxRecords size)
    {r : Bytes} (hr : r.length = size) :
    ∃ page', pageInsertRecord page r = (page', some recs.length) ∧
      PageIs pageId size (recs ++ [r]) page' := by
  have hhead : PAGE_HEADER_SIZE = 16 := rfl
  have hpage : PAGE_SIZE = 4096 := rfl
  have hlen := h.length
  have hmax := pageGetMaxRecords_lt size
  have hoff := recordOffset_le hroom
  obtain ⟨page', hins, hholds⟩ := h.toPageHolds.insert hroom hr
  refine ⟨page', hins, hholds, ?_, ?_⟩ <;>
    rw [pageInsertRecord, h.count, h.recordSize, if_neg (by omega), Prod.mk.injEq,
      List.take_of_length_le (Nat.le_of_eq hr)] at hins <;>
    rw [← hins.1]
  -- the record lies behind the header, the two header fields behind the page's id
  · have hrec : (splice (recordOffset recs.length size) r page).length = PAGE_SIZE := by
      rw [length_splice (by omega), hlen]
    have hcount : (splice 4 (toLE 2 (recs.length + 1))
        (splice (recordOffset recs.length size) r page)).length = PAGE_SIZE := by
      rw [length_splice (by rw [length_toLE]; omega), hrec]
    rw [pageIdOf, slice_setDirtyFlag (by rw [length_splice (by rw [length_toLE]; omega), hcount]) (by omega),
      slice_splice_before (by omega) (by omega), slice_splice_before (by omega) (by omega),
      slice_splice_before (by unfold recordOffset; omega) (by omega)]
    exact h.pageId
  · have hrec : (splice (recordOffset recs.length size) r page).length = PAGE_SIZE := by
      rw [length_splice (by omega), hlen]
    have hcount : (splice 4 (toLE 2 (recs.length + 1))
        (splice (recordOffset recs.length size) r page)).length = PAGE_SIZE := by
      rw [length_splice (by rw [length_toLE]; omega), hrec]
    rw [pageFreeSpaceOffset,
      slice_setDirtyFlag (by rw [length_splice (by rw [length_toLE]; omega), hcount]) (by omega)]
    generalize splice 4 _ _ = page₁ at hcount ⊢
    have hend : PAGE_HEADER_SIZE + (recs.length + 1) * size ≤ PAGE_SIZE := by
      rw [Nat.succ_mul]
      unfold recordOffset at hoff
      omega
    have hread := slice_splice_self (x := toLE 2 (PAGE_HEADER_SIZE + (recs.length + 1) % 2 ^ 16 * size))
      (show 6 ≤ page₁.length by omega)
    rw [length_toLE] at hread
    rw [hread, List.length_append, List.length_singleton,
      Nat.mod_eq_of_lt (show recs.length + 1 < 2 ^ 16 by omega)]
    exact ofLE_toLE_of_lt (by omega)

/-- **`page_update_record`** replaces a record. -/
theorem PageIs.update (h : PageIs pageId size recs page) {j : Nat} (hj : j < recs.length) {r : Bytes}
    (hr : r.length = size) :
    ∃ page', pageUpdateRecord page j r = some page' ∧ PageIs pageId size (recs.set j r) page' := by
  have hhead : PAGE_HEADER_SIZE = 16 := rfl
  have hpage : PAGE_SIZE = 4096 := rfl
  have hlen := h.length
  have hfits := h.fits
  have hoff := recordOffset_le (show j < pageGetMaxRecords size by omega)
  obtain ⟨page', hupd, hholds⟩ := h.toPageHolds.update hj hr
  have hrec : (splice (recordOffset j size) r page).length = PAGE_SIZE := by
    rw [length_splice (by omega), hlen]
  have hfield : ∀ i n, i + n ≤ 10 → slice i n page' = slice i n page := by
    intro i n hin
    rw [pageUpdateRecord, h.count, h.recordSize, if_neg (by omega), Option.some.injEq,
      List.take_of_length_le (Nat.le_of_eq hr)] at hupd
    rw [← hupd, slice_setDirtyFlag hrec hin,
      slice_splice_before (by unfold recordOffset; omega) (by omega)]
  refine ⟨page', hupd, hholds, ?_, ?_⟩
  · rw [pageIdOf, hfield 0 4 (by omega)]
    exact h.pageId
  · rw [pageFreeSpaceOffset, hfield 6 2 (by omega), List.length_set]
    exact h.freeSpace

/-- **One call**: the page answers as the list does, and stays the page of the list. -/
theorem PageIs.step (h : PageIs pageId size recs page) (op : PageOp size) :
    (op.onPage page).1 = (boundedListStep (pageGetMaxRecords size) recs op.onList).1 ∧
      PageIs pageId size (boundedListStep (pageGetMaxRecords size) recs op.onList).2 (op.onPage page).2 := by
  have hsize := h.recordSize
  cases op with
  | insert record =>
    subst hsize
    simp only [PageOp.onPage, PageOp.onList, boundedListStep, pageInsertRecord_record]
    by_cases hroom : recs.length < pageGetMaxRecords (pageRecordSize page)
    · obtain ⟨page', hins, hholds⟩ := h.insert hroom record.length_record
      rw [hins, if_pos hroom]
      exact ⟨rfl, hholds⟩
    · rw [pageInsertRecord, h.count, if_pos (by omega), if_neg hroom]
      exact ⟨rfl, h⟩
  | update slot record =>
    subst hsize
    simp only [PageOp.onPage, PageOp.onList, boundedListStep, pageUpdateRecord_record]
    by_cases hslot : slot.toNat < recs.length
    · obtain ⟨page', hupd, hholds⟩ := h.update hslot record.length_record
      rw [hupd, if_pos hslot]
      exact ⟨rfl, hholds⟩
    · rw [pageUpdateRecord, h.count, if_pos (by omega), if_neg hslot]
      exact ⟨rfl, h⟩

/-- A page is full when the list is. -/
theorem PageIs.full (h : PageIs pageId size recs page) :
    pageIsFull page = true ↔ recs.length = pageGetMaxRecords size := by
  have hfits := h.fits
  rw [h.isFull, decide_eq_true_iff]
  omega

/-- **`page_get_record`** points to the record, and to nothing behind the last one. -/
theorem PageIs.get (h : PageIs pageId size recs page) (slot : Nat) :
    (pageGetRecord page slot).map (fun off => slice off size page) = recs[slot]? := by
  rw [h.getRecord]
  split
  · rename_i hle
    rw [List.getElem?_eq_none hle]
    rfl
  · rename_i hlt
    have hin := List.getElem?_eq_getElem (show slot < recs.length by omega)
    rw [hin, Option.map_some, h.record slot _ hin]

end PageIs

/-! ## What lies behind the page -/

/-- With memory behind the page the call does to the page what it does without it, and nothing to that
memory. -/
def OnlyPage {size : Nat} (op : PageOp size) (page : Bytes) : Prop :=
  ∀ behind : Bytes, op.onPage (page ++ behind) = ((op.onPage page).1, (op.onPage page).2 ++ behind)

/-- A write inside the first of two byte strings. -/
theorem splice_append {off : Nat} {x a : Bytes} (h : off + x.length ≤ a.length) (b : Bytes) :
    splice off x (a ++ b) = splice off x a ++ b := by
  rw [splice, splice, List.take_append_of_le_length (by omega), List.drop_append_of_le_length h]
  simp only [List.append_assoc]

section Behind

variable {size : Nat} {recs : List Bytes} {page : Bytes}

theorem setDirtyFlag_append (hlen : page.length = PAGE_SIZE) (behind : Bytes) :
    setDirtyFlag (page ++ behind) = setDirtyFlag page ++ behind := by
  have hsize : PAGE_SIZE = 4096 := rfl
  rw [setDirtyFlag, pageFlags, slice_append_left (by omega), splice_append (by rw [length_toLE]; omega)]
  rfl

/-- The header fields are read inside the page. -/
theorem PageHolds.fields_append (h : PageHolds size recs page) (behind : Bytes) :
    pageGetRecordCount (page ++ behind) = recs.length ∧ pageRecordSize (page ++ behind) = size := by
  have hpage : PAGE_SIZE = 4096 := rfl
  have hlen := h.length
  constructor
  · rw [pageGetRecordCount, slice_append_left (by omega)]
    exact h.count
  · rw [pageRecordSize, slice_append_left (by omega)]
    exact h.recordSize

/-- A record is written inside the page. -/
theorem PageHolds.splice_append (h : PageHolds size recs page) {j : Nat}
    (hj : j < pageGetMaxRecords size) {x : Bytes} (hx : x.length = size) (behind : Bytes) :
    splice (recordOffset j size) x (page ++ behind) = splice (recordOffset j size) x page ++ behind ∧
      (splice (recordOffset j size) x page).length = PAGE_SIZE := by
  have hin : recordOffset j size + x.length ≤ page.length := by
    rw [h.length, hx]
    exact recordOffset_le hj
  exact ⟨Ticketing.splice_append hin behind, by rw [length_splice hin, h.length]⟩

theorem PageHolds.insert_append (h : PageHolds size recs page) (record : RecordBuf size)
    (behind : Bytes) :
    pageInsertRecord (page ++ behind) record.bytes =
      ((pageInsertRecord page record.bytes).1 ++ behind, (pageInsertRecord page record.bytes).2) := by
  have hpage : PAGE_SIZE = 4096 := rfl
  obtain ⟨hcount, hsize⟩ := h.fields_append behind
  simp only [pageInsertRecord, hcount, hsize, h.count, h.recordSize]
  by_cases hfull : pageGetMaxRecords size ≤ recs.length
  · rw [if_pos hfull, if_pos hfull]
  · obtain ⟨happ, hrec⟩ := h.splice_append (show recs.length < _ by omega) record.length_record behind
    unfold RecordBuf.record at happ hrec
    rw [if_neg hfull, if_neg hfull, happ]
    -- the record first, then the two fields of the header
    generalize splice (recordOffset recs.length size) (record.bytes.take size) page = page₁ at hrec ⊢
    have hfirst : 4 + (toLE 2 (recs.length + 1)).length ≤ page₁.length := by
      rw [length_toLE]
      omega
    have hlen₂ := length_splice hfirst
    rw [Ticketing.splice_append hfirst]
    generalize splice 4 (toLE 2 (recs.length + 1)) page₁ = page₂ at hlen₂ ⊢
    have hsecond : 6 + (toLE 2 (PAGE_HEADER_SIZE + (recs.length + 1) % 2 ^ 16 * size)).length ≤
        page₂.length := by
      rw [length_toLE]
      omega
    rw [Ticketing.splice_append hsecond,
      setDirtyFlag_append (by rw [length_splice hsecond, hlen₂, hrec])]

theorem PageHolds.update_append (h : PageHolds size recs page) (slot : Nat) (record : RecordBuf size)
    (behind : Bytes) :
    pageUpdateRecord (page ++ behind) slot record.bytes =
      (pageUpdateRecord page slot record.bytes).map (fun page' => page' ++ behind) := by
  obtain ⟨hcount, hsize⟩ := h.fields_append behind
  simp only [pageUpdateRecord, hcount, hsize, h.count, h.recordSize]
  by_cases hslot : recs.length ≤ slot
  · rw [if_pos hslot, if_pos hslot]
    rfl
  · have hfits := h.fits
    obtain ⟨happ, hrec⟩ := h.splice_append (show slot < _ by omega) record.length_record behind
    unfold RecordBuf.record at happ hrec
    rw [if_neg hslot, if_neg hslot, happ, setDirtyFlag_append hrec]
    rfl

/-- **No call writes behind the page.** -/
theorem PageHolds.onlyPage (h : PageHolds size recs page) (op : PageOp size) : OnlyPage op page := by
  intro behind
  cases op with
  | insert record => simp only [PageOp.onPage, h.insert_append]
  | update slot record =>
    simp only [PageOp.onPage, h.update_append]
    cases pageUpdateRecord page slot.toNat record.bytes <;> rfl

end Behind

/-! ## Every run -/

/-- What the claims of `page.h` come to for a page and its list. -/
structure PageAsList (pageId size : Nat) (recs : List Bytes) (page : Bytes) : Prop where
  length : page.length = 4096
  capacity : recs.length ≤ 4080 / size
  header : pageIdOf page = pageId
  recordSize : pageRecordSize page = size
  count : pageGetRecordCount page = recs.length
  freeSpace : pageFreeSpaceOffset page = 16 + recs.length * size
  inside : 16 + recs.length * size ≤ 4096
  full : pageIsFull page = true ↔ recs.length = 4080 / size
  get : ∀ slot : UInt16,
    (pageGetRecord page slot.toNat).map (fun off => slice off size page) = recs[slot.toNat]?
  insertFails : ∀ record : RecordBuf size,
    ((PageOp.insert record).onPage page).1 = -1 ↔ pageIsFull page = true
  failed : ∀ op : PageOp size, (op.onPage page).1 = -1 → (op.onPage page).2 = page
  onlyPage : ∀ op : PageOp size, OnlyPage op page
  disk : ∀ file : Bytes, pageRead (pageWrite file pageId page .ok).1 pageId = page

/-- A failed call leaves the page. -/
theorem onPage_failed {size : Nat} (op : PageOp size) (page : Bytes) (h : (op.onPage page).1 = -1) :
    (op.onPage page).2 = page := by
  cases op with
  | insert record =>
    simp only [PageOp.onPage, pageInsertRecord] at h ⊢
    by_cases hfull : pageGetMaxRecords (pageRecordSize page) ≤ pageGetRecordCount page
    · rw [if_pos hfull]
    · rw [if_neg hfull] at h
      simp only at h
      omega
  | update slot record =>
    simp only [PageOp.onPage] at h ⊢
    cases hupd : pageUpdateRecord page slot.toNat record.bytes with
    | none => rfl
    | some page' =>
      rw [hupd] at h
      cases h

theorem pageGetMaxRecords_of_pos {size : Nat} (hpos : 0 < size) :
    pageGetMaxRecords size = 4080 / size := by
  rw [pageGetMaxRecords, if_neg (by omega)]
  simp only [PAGE_SIZE, PAGE_HEADER_SIZE]

theorem PageIs.asList {pageId size : Nat} {recs : List Bytes} {page : Bytes} (hpos : 0 < size)
    (h : PageIs pageId size recs page) : PageAsList pageId size recs page := by
  have hcap := pageGetMaxRecords_of_pos hpos
  refine ⟨h.length, hcap ▸ h.fits, h.pageId, h.recordSize, h.count, h.freeSpace, h.freeSpace_le,
    hcap ▸ h.full, fun slot => h.get slot.toNat, fun record => ?_, fun op => onPage_failed op page,
    fun op => h.onlyPage op, fun file => pageRead_pageWrite_self file pageId h.length⟩
  have hfits := h.fits
  rw [(h.step (.insert record)).1, h.full, PageOp.onList, boundedListStep]
  split
  · simp only
    omega
  · simp only [true_iff]
    omega

/-- **A page is a bounded list of records.**  Every run of calls on a new page returns what the list
returns, and leaves the page of the list. -/
theorem page_is_list {pageId size : Nat} (hid : pageId < 2 ^ 32) (hpos : 0 < size) (hmax : size ≤ 4080)
    (ops : List (PageOp size)) :
    let run := runOps PageOp.onPage (pageInitHeader pageId size) ops
    let list := runOps (fun recs op => boundedListStep (4080 / size) recs op.onList) [] ops
    run.1 = list.1 ∧ PageAsList pageId size list.2 run.2 := by
  have hcap := pageGetMaxRecords_of_pos hpos
  let listStep := fun recs (op : PageOp size) => boundedListStep (4080 / size) recs op.onList
  have hstep : ∀ page recs op, PageIs pageId size recs page → True →
      (PageOp.onPage page op).1 = (listStep recs op).1 ∧
        PageIs pageId size (listStep recs op).2 (PageOp.onPage page op).2 := by
    intro page recs op h _
    have hone := h.step op
    rw [hcap] at hone
    exact hone
  have hrun := runOps_refines (fun page recs => PageIs pageId size recs page) (fun _ _ => True) hstep
    ops (pageIs_init hid (show size < 2 ^ 16 by omega)) (opsOk_true ops _)
  exact ⟨hrun.1, hrun.2.asList hpos⟩

/-- A record of 1360 zeros; a page has room for three. -/
def thirdOfPage : RecordBuf 1360 := ⟨List.replicate 1360 0, Nat.le_of_eq List.length_replicate.symm⟩

/-- The fourth insertion fails, and so does an update of the fourth slot. -/
theorem page_is_list_thirds :
    (runOps PageOp.onPage (pageInitHeader 7 1360)
      [.insert thirdOfPage, .insert thirdOfPage, .insert thirdOfPage, .insert thirdOfPage,
        .update 3 thirdOfPage, .update 2 thirdOfPage]).1 = [0, 1, 2, -1, -1, 0] := by
  rw [(page_is_list (by decide) (by decide) (by decide) _).1]
  rfl

end Ticketing
