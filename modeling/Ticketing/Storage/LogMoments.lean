import Ticketing.Storage.LogFirst

/-!
# Every moment of the table layer

The functions of `table.c` log a change before they write it into a page.

* `Looks` — what a visit does that writes nothing.
* `guarded_insert`, `guarded_update`, `guarded_delete` and the others — one lemma for each function.
* `TableHistory.moments` — the steps of a call or a restart, and the states in which they are taken.
* `log_determines_data` — the log is first at every moment of every history, and gives back the records.
-/

set_option autoImplicit false

namespace Ticketing

open Bytes BufferPool

/-! ## Looking at pages -/

/-- A computation on a page that takes no step, and has nothing to write. -/
structure Looks {α : Type} (p : TableProg (α × Option Bytes)) : Prop where
  still : Still p
  writes : ∀ s r s', p s = .ok (r, s') → r.2 = none

section Looks

variable {α β : Type}

theorem Looks.pure (a : α) : Looks (Pure.pure (a, none) : TableProg (α × Option Bytes)) := by
  refine ⟨Still.pure _, fun s r s' h => ?_⟩
  cases h
  rfl

theorem Looks.bind {p : TableProg β} {f : β → TableProg (α × Option Bytes)} (hp : Still p)
    (hf : ∀ b, Looks (f b)) : Looks (p >>= f) := by
  refine ⟨hp.bind fun b => (hf b).still, fun s r s' h => ?_⟩
  obtain ⟨b, s₁, -, hrest⟩ := Prog.bind_ok h
  exact (hf b).writes s₁ r s' hrest

end Looks

section Functions

variable {n : Nat} {fd : TableId → Int} {pages : Int → Nat} {recs : List WalRecord} {id : TableId}
  {α β : Type}

theorem AheadIn.congr {i : Nat} {k : PageKey} {s s' : TableEnv} (h : AheadIn n fd pages i k recs s)
    (hpool : s'.pool = s.pool) (hfiles : s'.files = s.files) (hwal : s'.wal = s.wal) (hio : s'.io = s.io) :
    AheadIn n fd pages i k recs s' :=
  ⟨h.ahead.congr hpool hfiles hwal hio, hpool ▸ h.inUse, hpool ▸ h.key⟩

theorem AheadIn.append {i : Nat} {k : PageKey} {s : TableEnv} (h : AheadIn n fd pages i k recs s)
    (r : WalRecord) : AheadIn n fd pages i k (recs ++ [r]) { s with wal := s.wal.logged r } :=
  ⟨h.ahead.append r, h.inUse, h.key⟩

/-- A look in a visit. -/
theorem Looks.guarded {p : TableProg (α × Option Bytes)} (hp : Looks p) {i : Nat} {k : PageKey} :
    Guarded fd (AheadIn n fd pages i k recs) p fun r s =>
      ∃ rs, (True ∧ ∀ page', r.2 = some page' → HoldsLogged (recs ++ rs) id page') ∧
        AheadIn n fd pages i k (recs ++ rs) s := by
  refine Prog.Along.quiet hp.still.quiet fun s r s' hs hrun => ?_
  have hnone := hp.writes s r s' hrun
  obtain rfl := hp.still.same s r s' hrun
  refine ⟨[], ⟨trivial, fun page' hpage => ?_⟩, by rw [List.append_nil]; exact hs⟩
  rw [hnone] at hpage
  cases hpage

theorem guarded_pageCount : Guarded fd (Later n fd pages recs) (pageCount ⟨id, fd id⟩)
    fun count s => count ≤ pages (fd id) ∧ Later n fd pages recs s := by
  refine Prog.Along.quiet (fun _ => rfl) (Prog.Ensures.reads fun s hs => ⟨?_, hs⟩)
  obtain ⟨rs, hahead⟩ := hs
  rw [← hahead.lengths id]
  exact Nat.mod_le _ _

/-- A loop over pages of the file. -/
theorem guarded_pages {f : β → Nat → TableProg β}
    (hf : ∀ p < pages (fd id), ∀ b, Guarded fd (Later n fd pages recs) (f b p) fun _ => Later n fd pages recs)
    {count : Nat} (hle : count ≤ pages (fd id)) (b : β) :
    Guarded fd (Later n fd pages recs) (Prog.fold f b (List.range count))
      fun _ => Later n fd pages recs :=
  Prog.Along.fold (fun p hp b => hf p (Nat.lt_of_lt_of_le (List.mem_range.mp hp) hle) b) b

variable (hfd : Function.Injective fd) (hn : 0 < n) (hn' : n < 2 ^ 30)
include hfd hn hn'

/-- A visit that writes nothing. -/
theorem guarded_look {pageId : Nat} (hp : pageId < pages (fd id)) {fail : α}
    {body : Bytes → TableProg (α × Option Bytes)} (hbody : ∀ page, Looks (body page)) :
    Guarded fd (Later n fd pages recs) (visitPage ⟨id, fd id⟩ pageId fail body)
      fun _ => Later n fd pages recs := by
  refine Guarded.exists_pre fun rs => ?_
  have hvisit : Guarded fd (LogAhead n fd pages (recs ++ rs)) (visitPage ⟨id, fd id⟩ pageId fail body)
      fun _ s => True ∧ Later n fd pages (recs ++ rs) s :=
    guarded_visit (recs ++ rs) hfd (fun _ => True) (fun _ => True) hn hn' hp trivial
      (fun s hs => ⟨hs, fun _ _ => trivial⟩) fun i page _ _ => (hbody page).guarded
  exact hvisit.post fun a s hs => hs.2.trans

theorem guarded_scan (filter : Bytes → Bool) (max : Nat) :
    Guarded fd (Later n fd pages recs) (tableScanUnlocked ⟨id, fd id⟩ filter max)
      fun _ => Later n fd pages recs := by
  have hslot : ∀ page found slot, Still (scanSlot ⟨id, fd id⟩ filter max page found slot) := by
    intro page found slot
    unfold scanSlot
    split
    · exact Still.pure _
    · cases pageGetRecord page slot with
      | none => exact Still.pure _
      | some off =>
        refine (Still.lift _).bind fun _ => ?_
        split
        · exact Still.pure _
        · exact (still_readRecord _ _).bind fun _ => Still.pure _
  refine Prog.Along.bind guarded_pageCount fun count => Guarded.and_pre fun hle =>
    guarded_pages (fun p hp found => ?_) hle []
  unfold scanPage
  split
  · exact Prog.Along.pure fun s hs => hs
  · exact guarded_look hfd hn hn' hp fun page => Looks.bind (Still.fold (hslot page) found) fun _ => Looks.pure _

theorem guarded_count : Guarded fd (Later n fd pages recs) (tableCountUnlocked ⟨id, fd id⟩)
    fun _ => Later n fd pages recs := by
  have hslot : ∀ page count slot, Still (countSlot ⟨id, fd id⟩ page count slot) := by
    intro page count slot
    unfold countSlot
    cases pageGetRecord page slot with
    | none => exact Still.pure _
    | some off => exact (Still.lift _).bind fun _ => Still.pure _
  refine Prog.Along.bind guarded_pageCount fun pages => Guarded.and_pre fun hle =>
    guarded_pages (fun p hp count => ?_) hle 0
  exact guarded_look hfd hn hn' hp fun page => Looks.bind (Still.fold (hslot page) count) fun _ => Looks.pure _

/-- `table_open`: it may refuse the table. -/
theorem guarded_open (alloc : Nat → Bool) (index : Bytes) :
    Guarded fd (Later n fd pages recs) (tableOpen ⟨id, fd id⟩ alloc index)
      fun _ => Later n fd pages recs := by
  have hslot : ∀ page maxId slot, Still (openSlot ⟨id, fd id⟩ page maxId slot) := by
    intro page maxId slot
    cases maxId with
    | none => exact Still.pure _
    | some m =>
      unfold openSlot
      cases pageGetRecord page slot with
      | none => exact Still.pure _
      | some off => exact (Still.lift _).bind fun _ => Still.pure _
  have hpage : ∀ p < pages (fd id), ∀ maxId, Guarded fd (Later n fd pages recs)
      (openPage ⟨id, fd id⟩ maxId p) fun _ => Later n fd pages recs := by
    intro p hp maxId
    cases maxId with
    | none => exact Prog.Along.pure fun s hs => hs
    | some m =>
      exact guarded_look hfd hn hn' hp fun page =>
        Looks.bind (Still.fold (hslot page) (some m)) fun _ => Looks.pure _
  have hfree : Guarded fd (Later n fd pages recs) (do indexFree; pure false)
      fun _ => Later n fd pages recs :=
    Guarded.still (still_indexFree.bind fun _ => Still.pure _)
  refine Prog.Along.bind (Guarded.still (Still.lift _)) fun r => ?_
  cases r with
  | none => exact Prog.Along.pure fun s hs => hs
  | some t =>
    have hset : Guarded fd (Later n fd pages recs) (setIndex t) fun _ => Later n fd pages recs :=
      Guarded.step hfd (fun s ⟨rs, hs⟩ => ⟨pages, _, hs⟩) fun s ⟨rs, hs⟩ =>
        ⟨rs, hs.congr rfl rfl rfl rfl⟩
    refine Prog.Along.bind hset fun _ => Prog.Along.bind guarded_pageCount fun count =>
      Guarded.and_pre fun hle => Prog.Along.bind (guarded_pages hpage hle (some 0)) fun maxId => ?_
    cases maxId with
    | none => exact hfree
    | some m =>
      dsimp only
      split
      · exact hfree
      · refine Prog.Along.bind (R := fun _ => Later n fd pages recs) ?_ fun _ => Prog.Along.pure fun s hs => hs
        exact Guarded.step hfd (fun s ⟨rs, hs⟩ => ⟨pages, _, hs⟩) fun s ⟨rs, hs⟩ =>
          ⟨rs, hs.congr rfl rfl rfl rfl⟩

omit hn hn' in
theorem guarded_close : Guarded fd (Later n fd pages recs) tableClose fun _ => Later n fd pages recs := by
  refine Prog.Along.bind (R := fun _ => Later n fd pages recs) ?_ fun _ => Guarded.still ?_
  · exact Guarded.step hfd (fun s ⟨rs, hs⟩ => ⟨pages, _, hs⟩) fun s ⟨rs, hs⟩ => ⟨rs, hs.flushAll hfd⟩
  · exact (Still.reads _).bind fun _ => still_indexFree.bind fun _ => Still.pure _

/-! ## One record -/

section Record

variable {T : OTable Bytes} {mem : PageKey → Bytes} {t : BTree} {key : Nat}

/-- Before a call on a record: the index is that of the table, and the pool stands for its pages. -/
structure AtRecord (n : Nat) (fd : TableId → Int) (pages : Int → Nat) (recs : List WalRecord)
    (mem : PageKey → Bytes) (t : BTree) (s : TableEnv) : Prop where
  ahead : LogAhead n fd pages recs s
  index : s.pkIndex = t
  cached : Cached n mem pages s.pool s.files

omit hfd in
theorem AtRecord.fetched {s : TableEnv} (h : AtRecord n fd pages recs mem t s) {k : PageKey}
    (hin : k.pageId < pages k.fd) {i : Nat} (hi : (bufferPoolFetch s.pool s.files k s.io).2.2 = some i) :
    ((bufferPoolFetch s.pool s.files k s.io).1.frames i).buf = mem k := by
  obtain ⟨hquiet, hpages⟩ := h.cached
  obtain ⟨pool', files', j, hrun, -, hbuf, -⟩ := hquiet.fetch hn hn' (k := k) (by rw [hpages]; exact hin)
  rw [h.ahead.io, hrun] at hi ⊢
  cases hi
  exact hbuf

/-- **The record of a key**: what `body` gets is in the page, under this key. -/
theorem guarded_visitRecord (h : TableHolds ⟨id, fd id⟩ T mem pages t) (hkeys : Stamped id T)
    {body : RecordPtr → Bytes → Nat → TableProg (Except EtpResult α × Option Bytes)}
    (hbody : ∀ i ptr page a, InPage id page ptr.slotId a → recordKey id a = key → HoldsLogged recs id page →
      Guarded fd (AheadIn n fd pages i ⟨fd id, ptr.pageId⟩ recs)
        (body ptr page (recordOffset ptr.slotId (etpRecordSize id))) fun r s =>
          ∃ rs, (True ∧ ∀ page', r.2 = some page' → HoldsLogged (recs ++ rs) id page') ∧
            AheadIn n fd pages i ⟨fd id, ptr.pageId⟩ (recs ++ rs) s) :
    Guarded fd (AtRecord n fd pages recs mem t) (visitRecord ⟨id, fd id⟩ key body)
      fun _ => Later n fd pages recs := by
  obtain ⟨heap, hrows, hpages, hindex⟩ := h.stored
  obtain ⟨m, hinv, hfind⟩ := hindex.find hrows key
  have hsearch : Guarded fd (AtRecord n fd pages recs mem t) (indexSearch key)
      fun r s => r = m.lookup key ∧ AtRecord n fd pages recs mem t s := by
    refine Prog.Along.quiet (still_indexSearch key).quiet fun s r s' hs hrun => ?_
    have hsame := (still_indexSearch key).same s r s' hrun
    have hinv' : FullInv BTREE_DEFAULT_ORDER s.rest.pkIndex m := by
      rw [show s.rest.pkIndex = t from hs.index]
      exact hinv
    obtain ⟨_, _, hrun', hresult, -⟩ := indexSearch_steps hinv' key (fun _ _ => True) s
      ⟨trivial, rfl, hs.ahead.io⟩
    rw [hrun', Except.ok.injEq, Prod.mk.injEq] at hrun
    exact ⟨hrun.1.symm.trans hresult, hsame ▸ hs⟩
  refine Prog.Along.bind hsearch fun r => Guarded.and_pre fun hr => ?_
  rcases hfind with ⟨hnone, -⟩ | ⟨ptr, a, hptr, hat, hget⟩
  · rw [hr, hnone]
    exact Prog.Along.pure fun s hs => hs.ahead.later
  · rw [hr, hptr]
    obtain ⟨hin, hpage⟩ := hpages.inPage hat
    have hkey := hkeys (key, a) (OTable.mem_iff.mpr hget)
    refine (guarded_visit recs hfd (fun page => page = mem ⟨fd id, ptr.pageId⟩) (fun _ => True) hn hn' hin
      trivial (fun s hs => ⟨hs.ahead, fun i hi => hs.fetched hn hn' hin hi⟩) ?_).post fun _ s hs => hs.2
    rintro i page rfl hlogged
    rw [hpage.found]
    have htouch : Guarded fd (AheadIn n fd pages i ⟨fd id, ptr.pageId⟩ recs)
        (Prog.lift (touch (recordOffset ptr.slotId (etpRecordSize id) + getDeletedFlagOffset id) 1 PAGE_SIZE))
        fun _ => AheadIn n fd pages i ⟨fd id, ptr.pageId⟩ recs :=
      Guarded.still (Still.lift _)
    refine Prog.Along.bind htouch fun _ => ?_
    split
    · exact (Looks.pure _).guarded
    · exact hbody i ptr _ a hpage hkey hlogged

theorem guarded_find (h : TableHolds ⟨id, fd id⟩ T mem pages t) (hkeys : Stamped id T) :
    Guarded fd (AtRecord n fd pages recs mem t) (tableFindByIdUnlocked ⟨id, fd id⟩ key)
      fun _ => Later n fd pages recs :=
  guarded_visitRecord hfd hn hn' h hkeys fun _ _ _ _ _ _ _ =>
    Looks.guarded (Looks.bind (still_readRecord _ _) fun _ => Looks.pure _)

/-- **An update** is logged before it is written. -/
theorem guarded_update (h : TableHolds ⟨id, fd id⟩ T mem pages t) (hkeys : Stamped id T) {record : Memory}
    (hkeep : recordKey id (record.bytes (etpRecordSize id)) = key) :
    Guarded fd (AtRecord n fd pages recs mem t) (tableUpdateUnlocked ⟨id, fd id⟩ key record)
      fun _ => Later n fd pages recs := by
  refine guarded_visitRecord hfd hn hn' h hkeys fun i ptr page a _ _ hlogged => ?_
  let off := recordOffset ptr.slotId (etpRecordSize id)
  let r := updateLog id key (recordAt page off) record
  have hlog : Guarded fd (AheadIn n fd pages i ⟨fd id, ptr.pageId⟩ recs)
      (walCall fun wal io => walLogUpdate wal CURRENT_TXN_ID id (UInt32.ofNat key) _
        (recordImage id (recordAt page off)) (recordImage id record) io)
      fun _ => AheadIn n fd pages i ⟨fd id, ptr.pageId⟩ (recs ++ [r]) :=
    Guarded.log (x := r) hfd (fun _ _ => rfl) (fun s hs => hs.ahead) fun s hs => hs.append r
  have hnothing : ∀ res : Except EtpResult Unit, Guarded fd
      (AheadIn n fd pages i ⟨fd id, ptr.pageId⟩ (recs ++ [r])) (pure (res, none)) fun r s =>
        ∃ rs, (True ∧ ∀ page', r.2 = some page' → HoldsLogged (recs ++ rs) id page') ∧
          AheadIn n fd pages i ⟨fd id, ptr.pageId⟩ (recs ++ rs) s :=
    fun res => Prog.Along.pure fun s hs => ⟨[r], ⟨trivial, fun _ hpage => by cases hpage⟩, hs⟩
  refine Prog.Along.bind (Guarded.still (still_readRecord _ _)) fun _ => Prog.Along.bind hlog fun lsn => ?_
  split
  · exact hnothing _
  · refine Prog.Along.bind (Guarded.still (Still.lift _)) fun _ => ?_
    cases hwrite : pageUpdateRecord page ptr.slotId (record.bytes (pageRecordSize page)) with
    | none => exact hnothing _
    | some page' =>
      refine Prog.Along.pure fun s hs => ⟨[r], ⟨trivial, fun page'' hpage => ?_⟩, hs⟩
      rw [Option.some.injEq] at hpage
      exact hpage ▸ (hlogged.mono [r]).update (logged_stored (Or.inr rfl) _ hkeep) hwrite

/-- **A deletion** is logged before the record is marked. -/
theorem guarded_delete (h : TableHolds ⟨id, fd id⟩ T mem pages t) (hkeys : Stamped id T) :
    Guarded fd (AtRecord n fd pages recs mem t) (tableDeleteUnlocked ⟨id, fd id⟩ key)
      fun _ => Later n fd pages recs := by
  refine guarded_visitRecord hfd hn hn' h hkeys fun i ptr page a hin hkey hlogged => ?_
  let off := recordOffset ptr.slotId (etpRecordSize id)
  let r := deleteLog id key (recordAt page off)
  have hlog : Guarded fd (AheadIn n fd pages i ⟨fd id, ptr.pageId⟩ recs)
      (walCall fun wal io => walLogDelete wal CURRENT_TXN_ID id (UInt32.ofNat key) _
        (recordImage id (recordAt page off)) io)
      fun _ => AheadIn n fd pages i ⟨fd id, ptr.pageId⟩ (recs ++ [r]) :=
    Guarded.log (x := r) hfd (fun _ _ => rfl) (fun s hs => hs.ahead) fun s hs => hs.append r
  have hindex : Guarded fd (AheadIn n fd pages i ⟨fd id, ptr.pageId⟩ (recs ++ [r])) (indexDelete key)
      fun _ => AheadIn n fd pages i ⟨fd id, ptr.pageId⟩ (recs ++ [r]) := by
    refine Prog.Along.bind (Guarded.still (Still.reads _)) fun t =>
      Prog.Along.bind (Guarded.still (Still.lift _)) fun res => ?_
    exact Guarded.step hfd (fun s hs => ⟨pages, _, hs.ahead⟩) fun s hs =>
      hs.congr rfl rfl rfl rfl
  refine Prog.Along.bind (Guarded.still (still_readRecord _ _)) fun _ => Prog.Along.bind hlog fun lsn => ?_
  split
  · exact Prog.Along.pure fun s hs => ⟨[r], ⟨trivial, fun _ hpage => by cases hpage⟩, hs⟩
  · refine Prog.Along.bind hindex fun _ => Prog.Along.pure fun s hs =>
      ⟨[r], ⟨trivial, fun page' hpage => ?_⟩, hs⟩
    have hold : (recordAt page off).bytes (etpRecordSize id) = a := hin.recordAt_bytes
    have hdeleted := @logged_deleteLog recs id key (recordAt page off) (by rw [hold]; exact hkey)
    rw [hold] at hdeleted
    rw [Option.some.injEq] at hpage
    exact hpage ▸ (hlogged.mono [r]).delete hin hdeleted

end Record

/-! ## Insertion -/

omit hn hn' in
theorem guarded_alloc (hfew : pages (fd id) < 2 ^ 32) :
    Guarded fd (Later n fd pages recs) (allocPage ⟨id, fd id⟩) fun target s =>
      target = pages (fd id) ∧ Later n fd (Function.update pages (fd id) (pages (fd id) + 1)) recs s := by
  refine Guarded.step hfd (fun s ⟨rs, hs⟩ => ⟨pages, _, hs⟩) fun s ⟨rs, hs⟩ => ?_
  obtain ⟨htarget, hahead⟩ := hs.alloc hfd hfew
  exact ⟨htarget, rs, hahead⟩

/-- The page chosen is in the file. -/
theorem guarded_target (hfew : pages (fd id) < 2 ^ 32) :
    Guarded fd (Later n fd pages recs) (targetPage ⟨id, fd id⟩) fun target s =>
      ∃ pages', (target < pages' (fd id) ∧ pages' (fd id) ≤ pages (fd id) + 1) ∧
        Later n fd pages' recs s := by
  refine Prog.Along.bind guarded_pageCount fun count => Guarded.and_pre fun hle => ?_
  have hlast : Guarded fd (Later n fd pages recs) (lastPage ⟨id, fd id⟩ count) fun last s =>
      (last = INVALID_PAGE_ID ∨ last < pages (fd id)) ∧ Later n fd pages recs s := by
    unfold lastPage
    split
    · refine Guarded.exists_pre fun rs => ?_
      refine (guarded_visit (recs ++ rs) hfd (fun _ => True)
        (fun last => last = INVALID_PAGE_ID ∨ last < pages (fd id)) hn hn' (by omega) (Or.inl rfl)
        (fun s hs => ⟨hs, fun _ _ => trivial⟩) fun i page _ _ => ?_).post fun _ s hs => ⟨hs.1, hs.2.trans⟩
      refine Prog.Along.pure fun s hs => ⟨[], ⟨?_, fun _ hpage => by cases hpage⟩, ?_⟩
      · dsimp only
        split
        · exact Or.inl rfl
        · exact Or.inr (by omega)
      · rw [List.append_nil]
        exact hs
    · exact Prog.Along.pure fun s hs => ⟨Or.inl rfl, hs⟩
  refine Prog.Along.bind hlast fun last => Guarded.and_pre fun hcase => ?_
  split
  · refine (guarded_alloc hfd hfew).post fun target s hs => ⟨_, ⟨?_, ?_⟩, hs.2⟩
    · rw [hs.1, Function.update_self]
      exact Nat.lt_succ_self _
    · rw [Function.update_self]
  · rename_i hvalid
    refine Prog.Along.pure fun s hs => ⟨pages, ⟨?_, Nat.le_succ _⟩, hs⟩
    exact hcase.resolve_left hvalid

/-- A logged record is placed. -/
theorem guarded_place {record : Memory} {target : Nat} (hin : target < pages (fd id))
    (hrecord : Logged recs id (record.bytes (etpRecordSize id))) :
    Guarded fd (Later n fd pages recs) (placeRecord ⟨id, fd id⟩ record target)
      fun _ => Later n fd pages recs := by
  refine Guarded.exists_pre fun rs => ?_
  refine (guarded_visit (recs ++ rs) hfd (fun _ => True) (fun _ => True) hn hn' hin trivial
    (fun s hs => ⟨hs, fun _ _ => trivial⟩) fun i page _ hlogged => ?_).post fun _ s hs => hs.2.trans
  refine Prog.Along.pure fun s hs => ⟨[], ⟨trivial, fun page' hpage => ?_⟩, ?_⟩
  · rw [List.append_nil]
    obtain ⟨slot, hslot, hpage⟩ := Option.map_eq_some_iff.mp hpage
    exact hpage ▸ hlogged.insert (hrecord.mono rs) hslot
  · rw [List.append_nil]
    exact hs

omit hn hn' in
theorem guarded_indexRecord (alloc : Nat → Bool) (newId pageId slot : Nat) :
    Guarded fd (Later n fd pages recs) (indexRecord alloc newId pageId slot)
      fun _ => Later n fd pages recs := by
  have hset : ∀ t, Guarded fd (Later n fd pages recs) (setIndex t) fun _ => Later n fd pages recs := fun t =>
    Guarded.step hfd (fun s ⟨rs, hs⟩ => ⟨pages, _, hs⟩) fun s ⟨rs, hs⟩ => ⟨rs, hs.congr rfl rfl rfl rfl⟩
  have hinsert : Guarded fd (Later n fd pages recs) (indexInsert alloc newId ⟨pageId, slot % 2 ^ 16⟩)
      fun _ => Later n fd pages recs :=
    Prog.Along.bind (Guarded.still (Still.reads _)) fun t =>
      Prog.Along.bind (Guarded.still (Still.lift _)) fun out =>
        Prog.Along.bind (hset out.2) fun _ => Prog.Along.pure fun s hs => hs
  exact Prog.Along.bind hinsert fun _ => Prog.Along.pure fun s hs => hs

theorem guarded_fallback {record : Memory} (hfew : pages (fd id) < 2 ^ 32)
    (hrecord : Logged recs id (record.bytes (etpRecordSize id))) (alloc : Nat → Bool) (newId : Nat) :
    Guarded fd (Later n fd pages recs) (insertFallback ⟨id, fd id⟩ alloc newId record)
      fun _ s => ∃ pages', Later n fd pages' recs s := by
  refine Prog.Along.bind (guarded_alloc hfd hfew) fun target => Guarded.and_pre fun htarget => ?_
  split
  · exact Prog.Along.pure fun s hs => ⟨_, hs⟩
  · have hin : target < Function.update pages (fd id) (pages (fd id) + 1) (fd id) := by
      rw [htarget, Function.update_self]
      exact Nat.lt_succ_self _
    refine Prog.Along.bind (guarded_place hfd hn hn' hin hrecord) fun r => ?_
    rcases r with _ | _ | slot
    · exact Prog.Along.pure fun s hs => ⟨_, hs⟩
    · exact Prog.Along.pure fun s hs => ⟨_, hs⟩
    · exact (guarded_indexRecord hfd alloc newId target slot).post fun _ s hs => ⟨_, hs⟩

/-- **An insertion** is logged before it is written. -/
theorem guarded_insert (hfew : pages (fd id) + 1 < 2 ^ 32) (alloc : Nat → Bool) (record : Memory) :
    Guarded fd (fun s => s.nextId id < 2 ^ 32 ∧ Later n fd pages recs s)
      (tableInsertUnlocked ⟨id, fd id⟩ alloc record) fun _ s => ∃ pages', Later n fd pages' recs s := by
  have hdraw : Guarded fd (fun s => s.nextId id < 2 ^ 32 ∧ Later n fd pages recs s)
      (etpNextId ⟨id, fd id⟩) fun newId s => newId < 2 ^ 32 ∧ Later n fd pages recs s :=
    Guarded.step hfd (fun s ⟨_, rs, hs⟩ => ⟨pages, _, hs⟩) fun s ⟨hid, rs, hs⟩ =>
      ⟨hid, rs, hs.congr rfl rfl rfl rfl⟩
  refine Prog.Along.bind hdraw fun newId => Guarded.and_pre fun hid =>
    Prog.Along.bind (guarded_target hfd hn hn' (by omega)) fun target =>
      Guarded.exists_pre fun pages' => Guarded.and_pre fun htarget => ?_
  split
  · exact Prog.Along.pure fun s hs => ⟨pages', hs⟩
  · let stamped := stampKey id newId record
    let r := insertLog id newId stamped
    have hlog : Guarded fd (Later n fd pages' recs)
        (walCall fun wal io => walLogInsert wal CURRENT_TXN_ID id (UInt32.ofNat newId) _
          (recordImage id stamped) io) fun _ s => ∃ rs, Later n fd pages' (recs ++ rs ++ [r]) s := by
      refine Guarded.exists_pre fun rs => ?_
      have happend : Guarded fd (LogAhead n fd pages' (recs ++ rs)) _
          fun _ => LogAhead n fd pages' (recs ++ rs ++ [r]) :=
        Guarded.log (x := r) (R := LogAhead n fd pages') hfd (fun _ _ => rfl) (fun s hs => hs)
          fun s hs => hs.append r
      exact happend.post fun _ s hs => ⟨rs, hs.later⟩
    refine Prog.Along.bind hlog fun lsn => Guarded.exists_pre fun rs => ?_
    have hback : ∀ s, Later n fd pages' (recs ++ rs ++ [r]) s → Later n fd pages' recs s :=
      fun s hs => hs.trans.trans
    have hrecord : Logged (recs ++ rs ++ [r]) id (stamped.bytes (etpRecordSize id)) :=
      logged_stored (Or.inl rfl) none (recordKey_storedRecord hid record)
    split
    · exact Prog.Along.pure fun s hs => ⟨pages', hback s hs⟩
    · refine Prog.Along.bind (guarded_place hfd hn hn' htarget.1 hrecord) fun place => ?_
      rcases place with _ | _ | slot
      · exact Prog.Along.pure fun s hs => ⟨pages', hback s hs⟩
      · refine Prog.Along.bind (guarded_fallback hfd hn hn' (by omega) hrecord alloc newId) fun rc => ?_
        exact Prog.Along.pure fun s ⟨pages'', hs⟩ => ⟨pages'', hs.trans.trans⟩
      · refine Prog.Along.bind (guarded_indexRecord hfd alloc newId target slot) fun rc => ?_
        exact Prog.Along.pure fun s hs => ⟨pages', hback s hs⟩

/-- **Every call** of the table layer. -/
theorem guarded_call {T : OTable Bytes} {mem : PageKey → Bytes} {t : BTree}
    (h : TableHolds ⟨id, fd id⟩ T mem pages t) (hkeys : Stamped id T) (hids : T.nextId < 2 ^ 32) {c : RowCall}
    (hroom : ∀ record alloc, c = .insert record alloc → T.nextId + 1 < 2 ^ 32)
    (hkeep : ∀ key record, c = .update key record → recordKey id (record.bytes (etpRecordSize id)) = key) :
    Guarded fd (fun s => s.nextId id = T.nextId ∧ AtRecord n fd pages recs mem t s) (c.prog ⟨id, fd id⟩)
      fun _ s => ∃ pages', Later n fd pages' recs s := by
  have hahead : ∀ s, AtRecord n fd pages recs mem t s → Later n fd pages recs s := fun s hs => hs.ahead.later
  have hends : ∀ {β : Type} {p : TableProg β} {f : β → RowResult},
      Guarded fd (AtRecord n fd pages recs mem t) p (fun _ => Later n fd pages recs) →
      Guarded fd (fun s => s.nextId id = T.nextId ∧ AtRecord n fd pages recs mem t s)
        (p >>= fun r => pure (f r)) fun _ s => ∃ pages', Later n fd pages' recs s := fun hp =>
    Prog.Along.bind (hp.pre fun s hs => hs.2) fun r => Prog.Along.pure fun s hs => ⟨pages, hs⟩
  have hle := h.pages_le
  cases c with
  | insert record alloc =>
    have hmore := hroom record alloc rfl
    refine Prog.Along.bind ((guarded_insert hfd hn hn' (by dsimp only at hle; omega) alloc record).pre
      fun s hs => ⟨by rw [hs.1]; exact hids, hahead s hs.2⟩) fun r => Prog.Along.pure fun s hs => hs
  | find key => exact hends (guarded_find hfd hn hn' h hkeys)
  | update key record => exact hends (guarded_update hfd hn hn' h hkeys (hkeep key record rfl))
  | delete key => exact hends (guarded_delete hfd hn hn' h hkeys)
  | scan filter max => exact hends ((guarded_scan hfd hn hn' filter max).pre hahead)
  | count => exact hends ((guarded_count hfd hn hn').pre hahead)

end Functions

/-! ## Moments -/

/-- The steps of a function that is called for one table after the other. -/
def turnMoments {β : Type} (prog : TableStore → TableId → TableProg β)
    (turn : TableStore → TableId → Option TableStore) :
    List TableId → TableStore → List ((TableId → Int) × LayerStep × TableEnv)
  | [], _ => []
  | id :: ids, s => ((prog s id).moments (s.env id)).map (s.fd, ·) ++
      (turn s id).elim [] (turnMoments prog turn ids)

/-- `table_open`, with the index file that is there. -/
def TableStore.opening (s : TableStore) (id : TableId) : TableProg Bool :=
  tableOpen ⟨id, s.fd id⟩ allocOk (s.indexFile id)

/-- The steps of a call or of a restart in the order of the code, each with the descriptors at that time and
the state before it. -/
def TableHistory.moments (s : TableHistory) : TableAct → List ((TableId → Int) × LayerStep × TableEnv)
  | .call id c => ((c.prog ⟨id, s.store.fd id⟩).moments (s.store.env id)).map (s.store.fd, ·)
  | .restart n fd =>
    turnMoments (fun _ _ => tableClose) TableStore.closeTable TableId.all.reverse s.store ++
      (TableId.all.reverse.foldlM TableStore.closeTable s.store).elim [] fun closed =>
        turnMoments TableStore.opening TableStore.openTable TableId.all (closed.boot n fd)

/-- The store has the invariant. -/
def StoreAhead (n : Nat) (s : TableStore) : Prop :=
  ∃ pages recs, ∀ id, LogAhead n s.fd pages recs (s.env id)

section Stores

variable {n : Nat} {s s' : TableStore} {id : TableId}

/-- The store that a function leaves. -/
theorem storeAhead_of_env {pages : Int → Nat} {recs : List WalRecord} {e : TableEnv}
    (h : LogAhead n s.fd pages recs e) (hfd : s'.fd = s.fd) (hpool : s'.pool = e.pool) (hfiles : s'.files = e.files)
    (hwal : s'.wal = e.wal) : StoreAhead n s' := by
  refine ⟨pages, recs, fun id => ?_⟩
  rw [hfd]
  exact h.congr hpool hfiles hwal h.io.symm

/-- A function that is called for one table after the other. -/
theorem turns_guarded {β : Type} (prog : TableStore → TableId → TableProg β)
    (turn : TableStore → TableId → Option TableStore)
    (hturn : ∀ s id s', turn s id = some s' → ∃ b e, prog s id (s.env id) = .ok (b, e) ∧ s'.fd = s.fd ∧
      s'.pool = e.pool ∧ s'.files = e.files ∧ s'.wal = e.wal)
    (hprog : ∀ s id pages recs, Function.Injective s.fd →
      Guarded s.fd (Later n s.fd pages recs) (prog s id) fun _ => Later n s.fd pages recs)
    (ids : List TableId) : ∀ {s s' : TableStore}, Function.Injective s.fd → StoreAhead n s →
      ids.foldlM turn s = some s' → (∀ m ∈ turnMoments prog turn ids s, LogFirst m.1 m.2.2) ∧
        StoreAhead n s' ∧ s'.fd = s.fd := by
  induction ids with
  | nil =>
    rintro s s' - hahead hrun
    cases hrun
    exact ⟨fun m hm => absurd hm List.not_mem_nil, hahead, rfl⟩
  | cons id ids ih =>
    intro s s' hfd hahead hrun
    rw [List.foldlM_cons] at hrun
    obtain ⟨s₁, hfirst, hrest⟩ := Option.bind_eq_some_iff.mp hrun
    obtain ⟨pages, recs, hall⟩ := hahead
    obtain ⟨hmoments, hend⟩ := hprog s id pages recs hfd (s.env id) (hall id).later
    obtain ⟨b, e, hok, hfd₁, hpool, hfiles, hwal⟩ := hturn s id s₁ hfirst
    obtain ⟨rs, hlast⟩ := hend b e hok
    obtain ⟨hmoments', hahead', hfd'⟩ := ih (hfd₁ ▸ hfd)
      (storeAhead_of_env hlast hfd₁ hpool hfiles hwal) hrest
    refine ⟨fun m hm => ?_, hahead', hfd'.trans hfd₁⟩
    rw [turnMoments, hfirst, Option.elim_some, List.mem_append, List.mem_map] at hm
    rcases hm with ⟨m', hm', rfl⟩ | hm
    · exact hmoments m' hm'
    · exact hmoments' m hm

theorem closeTable_env (h : s.closeTable id = some s') : ∃ b e, tableClose (s.env id) = .ok (b, e) ∧
    s'.fd = s.fd ∧ s'.pool = e.pool ∧ s'.files = e.files ∧ s'.wal = e.wal := by
  unfold TableStore.closeTable at h
  split at h
  · rename_i b e hrun
    cases h
    exact ⟨b, e, hrun, rfl, rfl, rfl, rfl⟩
  · cases h

theorem openTable_env (h : s.openTable id = some s') : ∃ b e, s.opening id (s.env id) = .ok (b, e) ∧
    s'.fd = s.fd ∧ s'.pool = e.pool ∧ s'.files = e.files ∧ s'.wal = e.wal := by
  unfold TableStore.openTable at h
  split at h
  · rename_i e hrun
    cases h
    exact ⟨true, e, hrun, rfl, rfl, rfl, rfl⟩
  · cases h

/-- What the next process finds on disk is logged in the file that it opens. -/
theorem StoreAhead.boot (h : StoreAhead n s) {recs : List WalRecord} (hlog : LogHolds recs s.wal)
    (hroom : recs.length + 1 < 2 ^ 64) {n' : Nat} (hn' : n' < 2 ^ 30) {fd' : TableId → Int}
    (hfd' : Function.Injective fd') : StoreAhead n' (s.boot n' fd') := by
  obtain ⟨pages, recs', hall⟩ := h
  have hopen := hlog.open hroom
  refine ⟨(s.boot n' fd').files.pages, recs', fun id => ⟨poolShape_create hn', rfl, ⟨?_, ?_⟩, fun _ => rfl,
    fun i hi => ?_, fun id' p hp => ?_⟩⟩
  · have hsame : (walOpen s.wal.file).file = s.wal.file := hopen.file.trans hlog.file.symm
    exact hsame.trans (hall id).log.file
  · exact hopen.nextLsn.trans (hlog.nextLsn.symm.trans (hall id).log.nextLsn)
  · have hfree := hi.2
    cases hfree
  · have hfile : (s.boot n' fd').files (fd' id') = s.files (s.fd id') := reopenedFiles_apply hfd' s.files id'
    have hpages : (s.boot n' fd').files.pages (fd' id') = pages (s.fd id') := by
      rw [DataFiles.pages, hfile]
      exact (hall id).lengths id'
    have hdisk := (hall id).disk id' p (hpages ▸ hp)
    show HoldsLogged recs' id' (pageRead ((s.boot n' fd').files (fd' id')) p)
    rw [hfile]
    exact hdisk

theorem StoreHolds.numFrames {T : TableId → OTable Bytes} (h : StoreHolds n s T) : s.pool.numFrames = n := by
  obtain ⟨mem, pages, ⟨hquiet, -⟩, -⟩ := h.tables
  exact PoolInv.shape hquiet |>.numFrames

theorem StoreAhead.numFrames (h : StoreAhead n s) : s.pool.numFrames = n := by
  obtain ⟨pages, recs, hall⟩ := h
  exact (hall .users).shape.numFrames

end Stores

/-! ## Histories -/

/-- The records that are stored are not marked as deleted. -/
def TableAct.Unmarked : TableAct → Prop
  | .call id c => c.Unmarked id
  | .restart _ _ => True

/-- The log file is not longer than files can be: `off_t` has 63 bits. -/
def TableHistory.Storable (s : TableHistory) : Prop := s.store.wal.file.length < 2 ^ 63

/-- The tables and the log after a history. -/
structure Recorded (recs : List WalRecord) (s : TableHistory) (T : TableId → OTable Bytes) : Prop where
  holds : HistoryHolds recs s T
  determines : Determines recs T
  ahead : StoreAhead s.store.pool.numFrames s.store

section Histories

variable {recs : List WalRecord} {s s' : TableHistory} {T : TableId → OTable Bytes} {id : TableId} {c : RowCall}

/-- A file has room for fewer records than there are numbers. -/
theorem Recorded.few (h : Recorded recs s T) (hfile : s.Storable) : recs.length < 2 ^ 63 := by
  have hsum : ∀ rs : List WalRecord, rs.length ≤ (rs.map WalRecord.size).sum := by
    intro rs
    induction rs with
    | nil => exact Nat.le_refl _
    | cons r rs ih =>
      have hsize := r.size_ge
      unfold WAL_HEADER_SIZE at hsize
      rw [List.length_cons, List.map_cons, List.sum_cons]
      omega
  have hlen := length_encodeAll 1 recs
  have hle := hsum recs
  unfold TableHistory.Storable at hfile
  rw [h.holds.log.file] at hfile
  omega

/-- **A call** takes its steps in states in which the log is first. -/
theorem Recorded.moments_call (h : Recorded recs s T) (hc : s.Orderly (.call id c)) :
    (∀ m ∈ s.moments (.call id c), LogFirst m.1 m.2.2) ∧
      ∀ s', s.step (.call id c) = some s' → StoreAhead s.store.pool.numFrames s'.store := by
  obtain ⟨n, hn, hn', hstore⟩ := h.holds.store
  obtain ⟨pages₀, recs₀, hall⟩ := h.ahead
  obtain ⟨mem, pages, hcached, htables⟩ := hstore.tables
  obtain ⟨hnext, hids⟩ := hstore.next id
  rw [hstore.numFrames] at hall ⊢
  have hahead : LogAhead n s.store.fd pages recs₀ (s.store.env id) :=
    (hall id).withPages fun id => ((hall id).lengths id).symm.trans (hcached.2 _)
  have hroom : ∀ record alloc, c = .insert record alloc → (T id).nextId + 1 < 2 ^ 32 := by
    rintro record alloc rfl
    exact hnext ▸ hc.1
  have hkeep : ∀ key record, c = .update key record →
      recordKey id (record.bytes (etpRecordSize id)) = key := by
    rintro key record rfl
    exact hc
  obtain ⟨hmoments, hend⟩ := guarded_call hstore.distinct hn hn' (htables id) (h.holds.stamped id) hids
    hroom hkeep (s.store.env id) ⟨hnext, hahead, rfl, hcached⟩
  refine ⟨fun m hm => ?_, fun s' hs' => ?_⟩
  · obtain ⟨m', hm', rfl⟩ := List.mem_map.mp hm
    exact hmoments m' hm'
  · simp only [TableHistory.step, TableStore.call] at hs'
    cases hrun : c.prog ⟨id, s.store.fd id⟩ (s.store.env id) with
    | error e =>
      rw [hrun] at hs'
      cases hs'
    | ok r =>
      rw [hrun] at hs'
      cases hs'
      obtain ⟨pages', rs, hlast⟩ := hend r.1 r.2 hrun
      exact storeAhead_of_env hlast rfl rfl rfl rfl

/-- **A restart** does. -/
theorem Recorded.moments_restart (h : Recorded recs s T) (hroom : recs.length + 1 < 2 ^ 64) {n' : Nat}
    {fd' : TableId → Int} (hc : s.Orderly (.restart n' fd')) {store : TableStore}
    (hrun : s.store.restart n' fd' = some store) :
    (∀ m ∈ s.moments (.restart n' fd'), LogFirst m.1 m.2.2) ∧ StoreAhead n' store := by
  obtain ⟨n, -, -, hstore⟩ := h.holds.store
  obtain ⟨hn, hn', hfd'⟩ := hc
  obtain ⟨closed, -, -, hclose, hfd, hwal, -⟩ := hstore.close
  rw [TableStore.restart, hclose, Option.bind_some] at hrun
  have hahead := h.ahead
  obtain ⟨hmoments, hclosed, -⟩ := turns_guarded (fun _ _ => tableClose)
    TableStore.closeTable (fun s id s' hturn => closeTable_env hturn)
    (fun s id pages recs hinj => guarded_close hinj) TableId.all.reverse hstore.distinct hahead hclose
  have hboot := hclosed.boot (hwal ▸ h.holds.log) hroom hn' hfd'
  obtain ⟨hmoments', hopened, -⟩ := turns_guarded TableStore.opening
    TableStore.openTable (fun s id s' hturn => openTable_env hturn)
    (fun s id pages recs hinj => guarded_open hinj hn hn' allocOk (s.indexFile id)) TableId.all
    (show Function.Injective (closed.boot n' fd').fd from hfd') hboot hrun
  refine ⟨fun m hm => ?_, hopened⟩
  rw [TableHistory.moments, hclose, Option.elim_some] at hm
  rcases List.mem_append.mp hm with hm | hm
  · exact hmoments m hm
  · exact hmoments' m hm

/-- **An act** does. -/
theorem Recorded.moments (h : Recorded recs s T) (hroom : recs.length + 1 < 2 ^ 64) {a : TableAct}
    (hok : s.Orderly a) : ∀ m ∈ s.moments a, LogFirst m.1 m.2.2 := by
  cases a with
  | call id c => exact (h.moments_call hok).1
  | restart n fd =>
    obtain ⟨store, hrun, -⟩ := h.holds.restart hroom hok
    exact (h.moments_restart hroom hok hrun).1

/-- **A call** does to the tables and the log what it is for. -/
theorem Recorded.call (h : Recorded recs s T) (hroom : recs.length + 1 < 2 ^ 64) (hc : s.Orderly (.call id c))
    (hun : c.Unmarked id) : ∃ s' rs, s.step (.call id c) = some s' ∧ CallLogs id (T id) rs c ∧
      Recorded (recs ++ rs) s' (slotCallAll T (id, c)) := by
  obtain ⟨n, -, -, hstore⟩ := h.holds.store
  obtain ⟨s', rs, hcall, -, hlogs, hholds⟩ := h.holds.call hroom hc
  have hahead := (h.moments_call hc).2 s' hcall
  rw [← hahead.numFrames] at hahead
  exact ⟨s', rs, hcall, hlogs, hholds,
    h.determines.call hlogs hun (hstore.lengths id) (hstore.next id).2, hahead⟩

/-- **A step** keeps everything, and logs one record at most. -/
theorem Recorded.step (h : Recorded recs s T) (hroom : recs.length + 1 < 2 ^ 64) {a : TableAct}
    (hok : s.Orderly a) (hun : a.Unmarked) (hs : s.step a = some s') :
    ∃ rs T', rs.length ≤ 1 ∧ Recorded (recs ++ rs) s' T' := by
  cases a with
  | call id c =>
    obtain ⟨s'', rs, hcall, hlogs, hrec⟩ := h.call hroom hok hun
    rw [hcall, Option.some.injEq] at hs
    exact ⟨rs, _, hlogs.length_le, hs ▸ hrec⟩
  | restart n fd =>
    obtain ⟨store, hrun, hholds⟩ := h.holds.restart hroom hok
    rw [TableHistory.step, hrun, Option.map_some, Option.some.injEq] at hs
    subst hs
    have hahead := (h.moments_restart hroom hok hrun).2
    rw [← hahead.numFrames] at hahead
    refine ⟨[], T, Nat.zero_le _, ?_⟩
    rw [List.append_nil]
    exact ⟨hholds, h.determines, hahead⟩

/-- Tables just created. -/
theorem recorded_create {n : Nat} (hn : 0 < n) (hn' : n < 2 ^ 30) {fd : TableId → Int}
    (hfd : Function.Injective fd) : Recorded [] (.create n fd) fun _ => OTable.empty 1 := by
  refine ⟨historyHolds_create hn hn' hfd, fun id key => rfl, fun _ => 0, [], fun id =>
    ⟨poolShape_create hn', rfl, ⟨rfl, rfl⟩, fun id => Nat.zero_div _, fun i hi => ?_, fun id p hp => ?_⟩⟩
  · have hfree := hi.2
    cases hfree
  · exact absurd hp (Nat.not_lt_zero p)

/-- **Any history.** -/
theorem recorded {n : Nat} (hn : 0 < n) (hn' : n < 2 ^ 30) {fd : TableId → Int} (hfd : Function.Injective fd)
    {tr : List (Transition TableHistory TableAct)} (hist : History TableHistory.step (.create n fd) tr s) :
    (∀ t ∈ tr, t.before.Orderly t.act ∧ t.act.Unmarked ∧ t.before.Storable) → ∃ recs T, Recorded recs s T := by
  refine History.invariant (I := fun tr s => (∀ t ∈ tr, t.before.Orderly t.act ∧ t.act.Unmarked ∧
    t.before.Storable) → ∃ recs T, Recorded recs s T) (fun _ => ⟨[], _, recorded_create hn hn' hfd⟩) ?_ hist
  intro tr s a s' ih hs hok
  rw [List.forall_mem_cons] at hok
  obtain ⟨⟨horderly, hun, hfile⟩, hbefore⟩ := hok
  obtain ⟨recs, T, hrec⟩ := ih hbefore
  have hfew := hrec.few hfile
  obtain ⟨rs, T', -, hnext⟩ := hrec.step (by omega) horderly hun hs
  exact ⟨recs ++ rs, T', hnext⟩

end Histories

/-- A short history has a short log. -/
theorem storable_of_short {n : Nat} (hn : 0 < n) (hn' : n < 2 ^ 30) {fd : TableId → Int}
    (hfd : Function.Injective fd) {tr : List (Transition TableHistory TableAct)} {s : TableHistory}
    (hist : History TableHistory.step (.create n fd) tr s) (horderly : ∀ t ∈ tr, t.before.Orderly t.act)
    (hshort : tr.length < 2 ^ 40) : s.Storable := by
  obtain ⟨recs, T, hrecs, hholds⟩ := historyHolds hn hn' hfd hist horderly (by omega)
  have hsum : ∀ rs : List WalRecord, (rs.map WalRecord.size).sum ≤ rs.length * 2 ^ 20 := by
    intro rs
    induction rs with
    | nil => exact Nat.le_refl _
    | cons r rs ih =>
      have hsize : r.size ≤ 2 ^ 20 := by
        have := r.dataSize.toNat_lt
        unfold WalRecord.size WAL_HEADER_SIZE
        omega
      rw [List.length_cons, List.map_cons, List.sum_cons]
      omega
  have hle := hsum recs
  show s.store.wal.file.length < 2 ^ 63
  rw [hholds.log.file, length_encodeAll]
  omega

/-- The record of the seat is inserted, changed and deleted, with a restart between. -/
theorem seatHistory_recorded : ∃ tr s, History TableHistory.step (.create 1 fiveFds) tr s ∧
    tr.map Transition.act = seatActs ∧
    (∀ t ∈ tr, t.before.Orderly t.act ∧ t.act.Unmarked ∧ t.before.Storable) ∧ s.Storable := by
  obtain ⟨tr, s, hist, hacts, horderly⟩ := seatHistory
  have hlen := congrArg List.length hacts
  rw [List.length_map] at hlen
  have hshort : tr.length < 2 ^ 40 := by
    rw [hlen]
    decide
  refine ⟨tr, s, hist, hacts, fun t ht => ⟨horderly t ht, ?_, ?_⟩,
    storable_of_short Nat.one_pos (by decide) fiveFds_injective hist horderly hshort⟩
  · have hunmarked : ∀ a ∈ seatActs, a.Unmarked := by
      simp only [seatActs, List.forall_mem_cons, List.not_mem_nil, false_implies, implies_true, and_true]
      exact ⟨trivial, trivial, rfl, rfl⟩
    exact hunmarked t.act (hacts ▸ List.mem_map_of_mem ht)
  · obtain ⟨later, tr₀, rfl⟩ := List.append_of_mem ht
    obtain ⟨_, _ | ⟨_, hist₀, _⟩⟩ := hist.earlier
    refine storable_of_short Nat.one_pos (by decide) fiveFds_injective hist₀ (fun t' ht' => horderly t' ?_) ?_
    · exact List.mem_append_right _ (List.mem_cons_of_mem _ ht')
    · rw [List.length_append, List.length_cons] at hshort
      omega

end Ticketing
