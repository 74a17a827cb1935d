import Ticketing.Storage.OwnFile

/-!
# The table layer on its own file

Every call of the table layer works on the pages of its own file and on the index that leads into them.

* `Leading` — the index leads into the file, and the counters are 32-bit numbers.
* `tableInsert_settles`, `visitRecord_settles`, `tableScan_settles`, `tableCount_settles` — the calls;
  `RowCall.settles` for any of them.
* `tableOpen_settles`, `tableClose_ends` — opening and closing; `Shown.disk` — what is on disk then.
-/

set_option autoImplicit false

namespace Ticketing

open Bytes BufferPool

/-! ## Pages -/

section Lengths

variable {page : Bytes}

theorem length_setDirtyFlag (h : page.length = PAGE_SIZE) : (setDirtyFlag page).length = PAGE_SIZE := by
  unfold setDirtyFlag
  rw [length_splice (by rw [length_toLE, h]; decide), h]

theorem length_pageInsertRecord (h : page.length = PAGE_SIZE) (record : Bytes) :
    (pageInsertRecord page record).1.length = PAGE_SIZE := by
  unfold pageInsertRecord
  simp only
  split
  · exact h
  · rename_i hroom
    have hin := recordOffset_le (Nat.lt_of_not_le hroom)
    have hrecord : (splice (recordOffset (pageGetRecordCount page) (pageRecordSize page))
        (record.take (pageRecordSize page)) page).length = PAGE_SIZE := by
      rw [length_splice (by rw [List.length_take, h]; omega), h]
    have hcount : ∀ (n : Nat) {b : Bytes}, b.length = PAGE_SIZE → (splice 4 (toLE 2 n) b).length = PAGE_SIZE :=
      fun n b hb => by rw [length_splice (by rw [length_toLE, hb]; decide), hb]
    have hfree : ∀ (n : Nat) {b : Bytes}, b.length = PAGE_SIZE → (splice 6 (toLE 2 n) b).length = PAGE_SIZE :=
      fun n b hb => by rw [length_splice (by rw [length_toLE, hb]; decide), hb]
    exact length_setDirtyFlag (hfree _ (hcount _ hrecord))

theorem length_pageUpdateRecord (h : page.length = PAGE_SIZE) {slot off : Nat} {record page' : Bytes}
    (hoff : pageGetRecord page slot = some off) (hin : off + pageRecordSize page ≤ PAGE_SIZE)
    (hupdate : pageUpdateRecord page slot record = some page') : page'.length = PAGE_SIZE := by
  unfold pageGetRecord at hoff
  unfold pageUpdateRecord at hupdate
  split at hoff
  · cases hoff
  · rename_i hslot
    cases hoff
    rw [if_neg hslot] at hupdate
    cases hupdate
    refine length_setDirtyFlag ?_
    rw [length_splice (by rw [List.length_take, h]; omega), h]

theorem length_markRecordDeleted {id : TableId} (h : page.length = PAGE_SIZE) {off : Nat}
    (hin : off + getDeletedFlagOffset id + 1 ≤ PAGE_SIZE) :
    (markRecordDeleted id page off).length = PAGE_SIZE := by
  unfold markRecordDeleted
  rw [length_splice (by rw [List.length_singleton, h]; exact hin), h]

end Lengths

/-- An access that was in bounds. -/
theorem touch_in {start len size : Nat} {u : Unit} (h : touch start len size = .ok u) : start + len ≤ size := by
  unfold touch at h
  split at h
  · assumption
  · cases h

/-! ## The index -/

/-- The index leads into the first `pages` pages, and the counters are 32-bit numbers. -/
structure Leading (pages : Nat) (r : TableRest) : Prop where
  index : r.pkIndex.Leads pages
  counters : ∀ id, r.nextId id < 2 ^ 32

theorem Leading.mono {pages pages' : Nat} {r : TableRest} (h : Leading pages r) (hle : pages ≤ pages') :
    Leading pages' r := ⟨h.index.mono hle, h.counters⟩

section Calls

variable {w : Prop} {table : Table} {r : TableRest} {F : List Bytes} {pages : Nat}

theorem indexSearch_decided (h : Leading pages r) (key : Nat) : Decided r (indexSearch key) fun found r' =>
    r' = r ∧ ∀ ptr, found = some ptr → ptr.pageId < pages := by
  refine Decided.index (Decided.bind (Decided.lift (Q := fun a r' => r' = r ∧
    btreeSearchChecked r.pkIndex key = .ok a) fun a ha => ⟨rfl, ha⟩) fun a r' hr => ?_)
  obtain ⟨rfl, ha⟩ := hr
  refine Decided.pure ⟨rfl, fun ptr hptr => ?_⟩
  split at hptr
  · rename_i hrc
    obtain ⟨rc, found⟩ := a
    subst hptr
    exact h.index.search ha
  · cases hptr

theorem indexInsert_decided (h : Leading pages r) (alloc : Nat → Bool) {key : Nat} {value : RecordPtr}
    (hkey : key < 2 ^ 32) (hpage : value.pageId < pages) (hslot : value.slotId < 2 ^ 16) :
    Decided r (indexInsert alloc key value) fun _ r' => Leading pages r' := by
  refine Decided.index (Decided.bind (Decided.lift (Q := fun a r' => r' = r ∧
    btreeInsertChecked alloc r.pkIndex key value = .ok a) fun a ha => ⟨rfl, ha⟩) fun a r' hr => ?_)
  obtain ⟨rfl, ha⟩ := hr
  refine Decided.bind (Decided.setIndex a.2 (Q := fun _ r' => Leading pages r')
    ⟨h.index.insert hkey hpage hslot ha, h.counters⟩) fun _ r'' h'' => Decided.pure h''

theorem indexDelete_decided (h : Leading pages r) (key : Nat) :
    Decided r (indexDelete key) fun _ r' => Leading pages r' := by
  refine Decided.index (Decided.bind (Decided.lift (Q := fun a r' => r' = r ∧
    btreeDeleteChecked r.pkIndex key = .ok a) fun a ha => ⟨rfl, ha⟩) fun a r' hr => ?_)
  obtain ⟨rfl, ha⟩ := hr
  exact Decided.setIndex a.2 ⟨h.index.delete ha, h.counters⟩

theorem etpNextId_decided (h : Leading pages r) : Decided r (etpNextId table) fun key r' =>
    key < 2 ^ 32 ∧ Leading pages r' := by
  refine Decided.act (r.nextId table.id)
    { r with nextId := Function.update r.nextId table.id ((r.nextId table.id + 1) % 2 ^ 32) }
    (fun s hs _ => by subst hs; rfl) ⟨h.counters _, h.index, fun id => ?_⟩
  dsimp only
  rcases eq_or_ne id table.id with rfl | hne
  · rw [Function.update_self]
    exact Nat.mod_lt _ (Nat.two_pow_pos 32)
  · rw [Function.update_of_ne hne]
    exact h.counters id

theorem etpSetNextId_decided {next : Nat} (hnext : next < 2 ^ 32) (h : Leading pages r) :
    Decided r (etpSetNextId table next) fun _ r' => Leading pages r' := by
  refine Decided.act () { r with nextId := Function.update r.nextId table.id next }
    (fun s hs _ => by subst hs; rfl) ⟨h.index, fun id => ?_⟩
  dsimp only
  rcases eq_or_ne id table.id with rfl | hne
  · rw [Function.update_self]
    exact hnext
  · rw [Function.update_of_ne hne]
    exact h.counters id

/-- A record of the log. -/
theorem walRecord_decided {log : Wal → IoScript → UInt64 × Wal × IoScript} {x : WalRecord}
    (hlog : ∀ wal io, log wal io = walAppend wal x io) (h : Leading pages r) :
    Decided r (walCall log) fun _ r' => Leading pages r' :=
  Decided.walCall (by rw [hlog, walAppend_ok]) fun _ _ => ⟨h.index, h.counters⟩

/-! ## Insertion -/

theorem lastPage_settles : Settles w table r F (lastPage table F.length) fun p r' F' =>
    r' = r ∧ F' = F ∧ (p = INVALID_PAGE_ID ∨ p < F.length) := by
  unfold lastPage
  split
  · refine Settles.visit (by omega) fun _ => Decided.pure ⟨fun _ heq => (by cases heq), rfl, rfl, ?_⟩
    dsimp only
    split
    · exact Or.inl rfl
    · exact Or.inr (by omega)
  · exact Settles.pure ⟨rfl, rfl, Or.inl rfl⟩

/-- The page that `table_insert` chooses is in the file. -/
theorem targetPage_settles (hfew : F.length < 2 ^ 32) : Settles w table r F (targetPage table) fun p r' F' =>
    r' = r ∧ p < F'.length ∧ F.length ≤ F'.length ∧ F'.length ≤ F.length + 1 := by
  refine Settles.bind (Settles.pageCount hfew (Q := fun n r' F' => n = F.length ∧ r' = r ∧ F' = F)
    ⟨rfl, rfl, rfl⟩) fun n r' F' h => ?_
  obtain ⟨rfl, rfl, rfl⟩ := h
  refine Settles.bind lastPage_settles fun p r'' F'' h => ?_
  obtain ⟨rfl, rfl, hp⟩ := h
  split
  · refine Settles.alloc hfew ⟨rfl, ?_, ?_, ?_⟩ <;> rw [List.length_append, List.length_singleton] <;> omega
  · rename_i hvalid
    exact Settles.pure ⟨rfl, hp.resolve_left hvalid, Nat.le_refl _, Nat.le_succ _⟩

theorem placeRecord_settles (hw : w) {record : Memory} {pageId : Nat} (hin : pageId < F.length) :
    Settles w table r F (placeRecord table record pageId) fun _ r' F' => r' = r ∧ F'.length = F.length := by
  refine Settles.visit hin fun hlen => Decided.pure ⟨fun page heq => ⟨hw, ?_⟩, rfl, length_setPage _ _ _⟩
  obtain ⟨_, -, rfl⟩ := Option.map_eq_some_iff.mp heq
  exact length_pageInsertRecord hlen _

theorem indexRecord_settles (h : Leading F.length r) (alloc : Nat → Bool) {newId pageId : Nat}
    (hid : newId < 2 ^ 32) (hin : pageId < F.length) (slot : Nat) :
    Settles w table r F (indexRecord alloc newId pageId slot) fun _ r' F' => F' = F ∧ Leading F.length r' :=
  Settles.decided (Decided.bind (indexInsert_decided h alloc hid hin (Nat.mod_lt _ (Nat.two_pow_pos 16)))
    fun _ _ h' => Decided.pure ⟨rfl, h'⟩)

/-- What an insertion that has drawn an id leaves of a file of `pages` pages, or of one more. -/
def Lengthened (pages more : Nat) (r : TableRest) (F : List Bytes) : Prop :=
  pages ≤ F.length ∧ F.length ≤ pages + more ∧ Leading F.length r

theorem insertFallback_settles (hw : w) (h : Leading F.length r) (hfew : F.length < 2 ^ 32) (alloc : Nat → Bool)
    {newId : Nat} (hid : newId < 2 ^ 32) (record : Memory) :
    Settles w table r F (insertFallback table alloc newId record) fun _ => Lengthened F.length 1 := by
  have hlonger : (F ++ [pageInitHeader F.length (etpRecordSize table.id)]).length = F.length + 1 := by
    rw [List.length_append, List.length_singleton]
  refine Settles.bind (Settles.alloc hfew (Q := fun p r' F' => p < F'.length ∧ Lengthened F.length 1 r' F')
    ⟨by omega, by omega, by omega, h.mono (by omega)⟩) fun p r' F' h' => ?_
  obtain ⟨hin, hgrown⟩ := h'
  split
  · exact Settles.pure hgrown
  · refine Settles.bind (placeRecord_settles hw hin) fun out r'' F'' h'' => ?_
    obtain ⟨rfl, hsame⟩ := h''
    have hgrown' : Lengthened F.length 1 r'' F'' := by
      unfold Lengthened
      rw [hsame]
      exact hgrown
    match out with
    | none => exact Settles.pure hgrown'
    | some none => exact Settles.pure hgrown'
    | some (some slot) =>
      refine (indexRecord_settles hgrown'.2.2 alloc hid (by omega) slot).post fun _ r₃ F₃ h₃ => ?_
      obtain ⟨rfl, hlead⟩ := h₃
      exact ⟨hgrown'.1, hgrown'.2.1, hlead⟩

/-- **`table_insert`.** -/
theorem tableInsert_settles (hw : w) (h : Leading F.length r) (hfew : F.length + 1 < 2 ^ 32)
    (alloc : Nat → Bool) (record : Memory) :
    Settles w table r F (tableInsertUnlocked table alloc record) fun _ => Lengthened F.length 2 := by
  refine Settles.bind (Settles.decided (Q := fun key r' F' => key < 2 ^ 32 ∧ F' = F ∧ Leading F.length r')
    ((etpNextId_decided h).post fun key r' hk => ⟨hk.1, rfl, hk.2⟩)) fun newId r₁ F₁ h₁ => ?_
  obtain ⟨hid, rfl, hlead⟩ := h₁
  refine Settles.bind (targetPage_settles (by omega)) fun target r₂ F₂ h₂ => ?_
  obtain ⟨rfl, hin, hle, hle'⟩ := h₂
  have hlead₂ := hlead.mono hle
  have hgrown : ∀ {r F'}, Lengthened F₂.length 1 r F' → Lengthened F₁.length 2 r F' := fun hg =>
    ⟨Nat.le_trans hle hg.1, Nat.le_trans hg.2.1 (by omega), hg.2.2⟩
  split
  · exact Settles.pure ⟨hle, by omega, hlead₂⟩
  refine Settles.bind (Settles.decided (Q := fun _ r' F' => F' = F₂ ∧ Leading F₂.length r')
    ((walRecord_decided (fun _ _ => rfl) hlead₂).post fun _ r' hl => ⟨rfl, hl⟩)) fun lsn r₃ F₃ h₃ => ?_
  obtain ⟨rfl, hlead₃⟩ := h₃
  split
  · exact Settles.pure ⟨hle, by omega, hlead₃⟩
  refine Settles.bind (placeRecord_settles hw hin) fun out r₄ F₄ h₄ => ?_
  obtain ⟨rfl, hsame⟩ := h₄
  rw [← hsame] at hlead₃ hin hle hle' hgrown
  match out with
  | none => exact Settles.pure ⟨hle, by omega, hlead₃⟩
  | some none =>
    exact Settles.bind (insertFallback_settles hw hlead₃ (by omega) alloc hid _) fun _ _ _ hg =>
      Settles.pure (hgrown hg)
  | some (some slot) =>
    refine Settles.bind (indexRecord_settles hlead₃ alloc hid hin slot) fun _ r₅ F₅ h₅ => ?_
    obtain ⟨rfl, hlead₅⟩ := h₅
    exact Settles.pure ⟨hle, by omega, hlead₅⟩

/-! ## One record -/

/-- A visit of the record of a key. -/
theorem visitRecord_settles {α : Type} (h : Leading F.length r) (key : Nat)
    {body : RecordPtr → Bytes → Nat → TableProg (Except EtpResult α × Option Bytes)}
    (hbody : ∀ ptr page off, page.length = PAGE_SIZE → pageGetRecord page ptr.slotId = some off →
      off + getDeletedFlagOffset table.id + 1 ≤ PAGE_SIZE → Decided r (body ptr page off) fun out r' =>
        (∀ page', out.2 = some page' → w ∧ page'.length = PAGE_SIZE) ∧ Leading F.length r') :
    Settles w table r F (visitRecord table key body) fun _ => Lengthened F.length 0 := by
  have hgrown : ∀ {r' F'}, F'.length = F.length → Leading F.length r' →
      Lengthened F.length 0 r' F' := fun hsame hl =>
    ⟨Nat.le_of_eq hsame.symm, Nat.le_of_eq hsame, hsame ▸ hl⟩
  refine Settles.bind (Settles.decided (Q := fun found r' F' => r' = r ∧ F' = F ∧
    ∀ ptr, found = some ptr → ptr.pageId < F.length) ((indexSearch_decided h key).post fun found r' hf =>
      ⟨hf.1, rfl, hf.2⟩)) fun found r₁ F₁ h₁ => ?_
  obtain ⟨rfl, rfl, hin⟩ := h₁
  cases found with
  | none => exact Settles.pure (hgrown rfl h)
  | some ptr =>
    refine Settles.visit (hin ptr rfl) fun hlen => ?_
    cases hoff : pageGetRecord (F₁.getD ptr.pageId []) ptr.slotId with
    | none => exact Decided.pure ⟨fun _ heq => (by cases heq), hgrown rfl h⟩
    | some off =>
      refine Decided.bind (Decided.lift (Q := fun _ r' => r' = r₁ ∧
        off + getDeletedFlagOffset table.id + 1 ≤ PAGE_SIZE) fun u hu => ⟨rfl, touch_in hu⟩) fun _ r₂ h₂ => ?_
      obtain ⟨rfl, hflag⟩ := h₂
      split
      · exact Decided.pure ⟨fun _ heq => (by cases heq), hgrown rfl h⟩
      · exact (hbody ptr _ off hlen hoff hflag).post fun out r' hout =>
          ⟨hout.1, hgrown (length_setPage _ _ _) hout.2⟩

theorem readRecord_decided (off : Nat) : Decided r (readRecord table off) fun _ r' => r' = r :=
  Decided.lift fun _ _ => rfl

/-- **`table_find_by_id`.** -/
theorem tableFind_settles (h : Leading F.length r) (key : Nat) :
    Settles w table r F (tableFindByIdUnlocked table key) fun _ => Lengthened F.length 0 := by
  refine visitRecord_settles h key fun ptr page off _ _ _ => ?_
  refine Decided.bind (readRecord_decided off) fun _ r' hr => ?_
  subst hr
  exact Decided.pure ⟨fun _ heq => (by cases heq), h⟩

/-- **`table_update`.** -/
theorem tableUpdate_settles (hw : w) (h : Leading F.length r) (key : Nat) (record : Memory) :
    Settles w table r F (tableUpdateUnlocked table key record) fun _ => Lengthened F.length 0 := by
  refine visitRecord_settles h key fun ptr page off hlen hoff _ => ?_
  refine Decided.bind (readRecord_decided off) fun _ r' hr => ?_
  subst hr
  refine Decided.bind (walRecord_decided (fun _ _ => rfl) h) fun lsn r₁ h₁ => ?_
  split
  · exact Decided.pure ⟨fun _ heq => (by cases heq), h₁⟩
  · refine Decided.bind (Decided.lift (Q := fun _ r' => r' = r₁ ∧ off + pageRecordSize page ≤ PAGE_SIZE)
      fun u hu => ⟨rfl, touch_in hu⟩) fun _ r₂ h₂ => ?_
    obtain ⟨rfl, hin⟩ := h₂
    cases hupdate : pageUpdateRecord page ptr.slotId (record.bytes (pageRecordSize page)) with
    | none => exact Decided.pure ⟨fun _ heq => (by cases heq), h₁⟩
    | some page' =>
      refine Decided.pure ⟨fun _ heq => ⟨hw, ?_⟩, h₁⟩
      cases heq
      exact length_pageUpdateRecord hlen hoff hin hupdate

/-- **`table_delete`.** -/
theorem tableDelete_settles (hw : w) (h : Leading F.length r) (key : Nat) :
    Settles w table r F (tableDeleteUnlocked table key) fun _ => Lengthened F.length 0 := by
  refine visitRecord_settles h key fun ptr page off hlen _ hflag => ?_
  refine Decided.bind (readRecord_decided off) fun _ r' hr => ?_
  subst hr
  refine Decided.bind (walRecord_decided (fun _ _ => rfl) h) fun lsn r₁ h₁ => ?_
  split
  · exact Decided.pure ⟨fun _ heq => (by cases heq), h₁⟩
  · refine Decided.bind (indexDelete_decided h₁ key) fun _ r₂ h₂ => Decided.pure ⟨fun _ heq => ⟨hw, ?_⟩, h₂⟩
    cases heq
    exact length_markRecordDeleted hlen hflag

/-! ## All records -/

/-- **A loop over the pages** that only reads them. -/
theorem pages_settle {β : Type} {f : β → Nat → TableProg β} {J : β → Prop} {b : β} (hfew : F.length < 2 ^ 32)
    (hpage : ∀ p < F.length, ∀ b, J b →
      Settles w table r F (f b p) fun b' r' F' => r' = r ∧ F' = F ∧ J b') (hb : J b) :
    Settles w table r F
      (do
        let pages ← pageCount table
        Prog.fold f b (List.range pages))
      fun b' r' F' => r' = r ∧ F' = F ∧ J b' := by
  refine Settles.bind (Settles.pageCount hfew (Q := fun n r' F' => n = F.length ∧ r' = r ∧ F' = F)
    ⟨rfl, rfl, rfl⟩) fun n r' F' h => ?_
  obtain ⟨rfl, rfl, rfl⟩ := h
  refine Settles.fold (J := fun b r₁ F₁ => r₁ = r' ∧ F₁ = F' ∧ J b) (fun p hp b r₁ F₁ h => ?_) ⟨rfl, rfl, hb⟩
  obtain ⟨rfl, rfl, hb⟩ := h
  exact hpage p (List.mem_range.mp hp) b hb

/-- A visit that only reads the page, slot by slot. -/
theorem slots_settle {β : Type} {pageId : Nat} {fail b : β} {f : Bytes → β → Nat → TableProg β} {J : β → Prop}
    (hin : pageId < F.length)
    (hslot : ∀ page b slot, J b → Decided r (f page b slot) fun b' r' => r' = r ∧ J b') (hb : J b) :
    Settles w table r F
      (visitPage table pageId fail fun page => do
        let b ← Prog.fold (f page) b (List.range (pageGetRecordCount page))
        pure (b, none))
      fun b' r' F' => r' = r ∧ F' = F ∧ J b' := by
  refine Settles.visit hin fun _ => Decided.bind (Decided.fold (J := fun b r' => r' = r ∧ J b)
    (fun slot _ b r' h => ?_) ⟨rfl, hb⟩) fun b' r' h => Decided.pure ⟨fun _ heq => (by cases heq), h.1, rfl, h.2⟩
  obtain ⟨rfl, hb⟩ := h
  exact hslot _ b slot hb

/-- An access to a record. -/
theorem touch_decided (start len : Nat) : Decided r (Prog.lift (touch start len PAGE_SIZE)) fun _ r' => r' = r :=
  Decided.lift fun _ _ => rfl

/-- **`table_scan`.** -/
theorem tableScan_settles (hfew : F.length < 2 ^ 32) (filter : Bytes → Bool) (max : Nat) :
    Settles w table r F (tableScanUnlocked table filter max) fun _ r' F' => r' = r ∧ F' = F := by
  have hslot : ∀ page found slot, True → Decided r (scanSlot table filter max page found slot) fun _ r' =>
      r' = r ∧ True := by
    intro page found slot _
    unfold scanSlot
    split
    · exact Decided.pure ⟨rfl, trivial⟩
    · split
      · exact Decided.pure ⟨rfl, trivial⟩
      · refine Decided.bind (touch_decided _ _) fun _ r' hr => ?_
        subst hr
        split
        · exact Decided.pure ⟨rfl, trivial⟩
        · refine Decided.bind (readRecord_decided _) fun _ r'' hr => ?_
          subst hr
          exact Decided.pure ⟨rfl, trivial⟩
  refine (pages_settle (J := fun _ => True) hfew (fun p hp found _ => ?_) trivial).post
    fun _ _ _ h => ⟨h.1, h.2.1⟩
  unfold scanPage
  split
  · exact Settles.pure ⟨rfl, rfl, trivial⟩
  · exact slots_settle hp hslot trivial

/-- **`table_count`.** -/
theorem tableCount_settles (hfew : F.length < 2 ^ 32) :
    Settles w table r F (tableCountUnlocked table) fun _ r' F' => r' = r ∧ F' = F := by
  have hslot : ∀ page count slot, True → Decided r (countSlot table page count slot) fun _ r' =>
      r' = r ∧ True := by
    intro page count slot _
    unfold countSlot
    split
    · exact Decided.pure ⟨rfl, trivial⟩
    · refine Decided.bind (touch_decided _ _) fun _ r' hr => ?_
      subst hr
      exact Decided.pure ⟨rfl, trivial⟩
  exact (pages_settle (J := fun _ => True) hfew (fun p hp count _ => slots_settle hp hslot trivial) trivial).post
    fun _ _ _ h => ⟨h.1, h.2.1⟩

/-- The pages by which a call may make the file longer. -/
def RowCall.growth : RowCall → Nat
  | .insert _ _ => 2
  | _ => 0

/-- **Any call**, on a file that stays below `2 ^ 32` pages. -/
theorem RowCall.settles (hw : w) (h : Leading F.length r) {c : RowCall} (hfew : F.length + c.growth < 2 ^ 32) :
    Settles w table r F (c.prog table) fun _ => Lengthened F.length c.growth := by
  have hsame : ∀ {r' F'}, r' = r ∧ F' = F → Lengthened F.length 0 r' F' := by
    rintro r' F' ⟨rfl, rfl⟩
    exact ⟨Nat.le_refl _, Nat.le_refl _, h⟩
  cases c with
  | insert record alloc =>
    exact Settles.bind (tableInsert_settles hw h (Nat.lt_of_succ_lt hfew) alloc record) fun _ _ _ hg =>
      Settles.pure hg
  | find key => exact Settles.bind (tableFind_settles h key) fun _ _ _ hg => Settles.pure hg
  | update key record =>
    exact Settles.bind (tableUpdate_settles hw h key record) fun _ _ _ hg => Settles.pure hg
  | delete key => exact Settles.bind (tableDelete_settles hw h key) fun _ _ _ hg => Settles.pure hg
  | scan filter max =>
    exact Settles.bind (tableScan_settles hfew filter max) fun _ _ _ hg => Settles.pure (hsame hg)
  | count => exact Settles.bind (tableCount_settles hfew) fun _ _ _ hg => Settles.pure (hsame hg)

/-! ## Opening and closing -/

theorem indexFree_decided : Decided r indexFree fun _ r' => r' = r :=
  Decided.index (Decided.lift fun _ _ => rfl)

/-- The largest id so far is a 32-bit number. -/
def IdFits (maxId : Option Nat) : Prop := ∀ x, maxId = some x → x < 2 ^ 32

theorem openSlot_decided {page : Bytes} {maxId : Option Nat} (slot : Nat) (h : IdFits maxId) :
    Decided r (openSlot table page maxId slot) fun maxId' r' => r' = r ∧ IdFits maxId' := by
  unfold openSlot
  split
  · exact Decided.pure ⟨rfl, fun x hx => (by cases hx)⟩
  · rename_i maxId
    split
    · exact Decided.pure ⟨rfl, h⟩
    · refine Decided.bind (touch_decided _ _) fun _ r' hr => ?_
      subst hr
      refine Decided.pure ⟨rfl, fun x hx => ?_⟩
      split at hx
      · cases hx
      · cases hx
        exact Nat.max_lt.mpr ⟨h _ rfl, storedKey_lt _ _ _⟩

/-- **`table_open`** marks no page, and if it returns a table then its index leads into the file. -/
theorem tableOpen_settles (hfew : F.length < 2 ^ 32) {index : Bytes} (hindex : IndexLeads F.length index)
    (hcounters : ∀ id, r.nextId id < 2 ^ 32) (alloc : Nat → Bool) :
    Settles False table r F (tableOpen table alloc index) fun ok r' F' =>
      F' = F ∧ (∀ id, r'.nextId id < 2 ^ 32) ∧ (ok = true → Leading F.length r') := by
  have hrefused : ∀ {r'}, (∀ id, r'.nextId id < 2 ^ 32) → F = F ∧ (∀ id, r'.nextId id < 2 ^ 32) ∧
      (false = true → Leading F.length r') := fun h => ⟨rfl, h, fun hf => by cases hf⟩
  refine Settles.bind (Settles.decided (Q := fun t r' F' => r' = r ∧ F' = F ∧
    ∀ t', t = some t' → t'.Leads F.length) (Decided.lift fun t ht => ⟨rfl, rfl, fun t' heq =>
      hindex alloc t' (heq ▸ ht)⟩)) fun t r₁ F₁ h₁ => ?_
  obtain ⟨rfl, rfl, hleads⟩ := h₁
  match t with
  | none => exact Settles.pure (hrefused hcounters)
  | some t =>
    have hlead : Leading F₁.length { r₁ with pkIndex := t } := ⟨hleads t rfl, hcounters⟩
    refine Settles.bind (Settles.decided (Q := fun _ r' F' => r' = { r₁ with pkIndex := t } ∧ F' = F₁)
      (Decided.setIndex t ⟨rfl, rfl⟩)) fun _ r₂ F₂ h₂ => ?_
    obtain ⟨rfl, rfl⟩ := h₂
    have hloop : Settles False table { r₁ with pkIndex := t } F₂
        (do
          let pages ← pageCount table
          Prog.fold (openPage table) (some 0) (List.range pages))
        fun maxId r' F' => r' = { r₁ with pkIndex := t } ∧ F' = F₂ ∧ IdFits maxId := by
      refine pages_settle hfew (fun p hp maxId hfits => ?_) fun x hx => by cases hx; exact Nat.two_pow_pos 32
      unfold openPage
      split
      · exact Settles.pure ⟨rfl, rfl, fun x hx => (by cases hx)⟩
      · exact slots_settle hp (fun page b slot hb => openSlot_decided slot hb) hfits
    refine Settles.assoc (Settles.bind hloop fun maxId r₃ F₃ h₃ => ?_)
    obtain ⟨rfl, rfl, hfits⟩ := h₃
    have hrefuse : Settles False table { r₁ with pkIndex := t } F₃
        (do
          indexFree
          pure false)
        fun ok r' F' => F' = F₃ ∧ (∀ id, r'.nextId id < 2 ^ 32) ∧ (ok = true → Leading F₃.length r') :=
      Settles.decided (Decided.bind indexFree_decided fun _ r' hr => Decided.pure (hr ▸ hrefused hcounters))
    cases maxId with
    | none => exact hrefuse
    | some maxId =>
      dsimp only
      split
      · exact hrefuse
      · rename_i hmax
        have hlt := hfits maxId rfl
        refine Settles.decided (Decided.bind (etpSetNextId_decided (by omega) hlead) fun _ r' h' =>
          Decided.pure ⟨rfl, h'.counters, fun _ => h'⟩)

/-- What `table_close` makes of the index. -/
def closeResult (t : BTree) : Except BadAccess (Option Bytes) :=
  (nodeFreeChecked t.order t.root).map fun _ => if t.dirty then some (btreeSave t).2 else none

/-- **`table_close`** leaves no page that waits to be written. -/
theorem tableClose_ends {n : Nat} {S : Int → Prop} {mem : PageKey → Bytes} {pages : Int → Nat} {s : TableEnv}
    (hs : Shows (Shown n S mem pages) r s) :
    match closeResult r.pkIndex with
    | .error e => tableClose s = .error e
    | .ok file => ∃ s', tableClose s = .ok (file, s') ∧ Shows (Shown n (fun _ => False) mem pages) r s' := by
  obtain ⟨⟨⟨hquiet, hpages⟩, -⟩, rfl, hio⟩ := hs
  obtain ⟨hquiet', hpages', hclean, -⟩ := hquiet.flushAll rfl
  let flushed : TableEnv := { s with
    pool := (bufferPoolFlushAll s.pool s.files s.io).1
    files := (bufferPoolFlushAll s.pool s.files s.io).2.1, io := s.io.drop s.pool.numFrames }
  have hshows : Shows (Shown n (fun _ => False) mem pages) s.rest flushed := by
    refine ⟨⟨⟨?_, fun fd => ?_⟩, fun i hi hd => ?_⟩, rfl, ?_⟩
    · show Quiet n (bufferPoolFlushAll s.pool s.files s.io).1 (bufferPoolFlushAll s.pool s.files s.io).2.1 mem
      rw [hio]
      exact hquiet'
    · show (bufferPoolFlushAll s.pool s.files s.io).2.1.pages fd = pages fd
      rw [hio, hpages', hpages]
    · change ((bufferPoolFlushAll s.pool s.files s.io).1.frames i).dirty = true at hd
      change (bufferPoolFlushAll s.pool s.files s.io).1.InUse n i at hi
      rw [hio] at hd hi
      rw [hclean i hi] at hd
      cases hd
    · show s.io.drop s.pool.numFrames = IoScript.ok
      rw [hio, IoScript.drop_ok]
  have hrun : tableClose s = (closeResult s.pkIndex).map fun file => (file, flushed) := by
    have hfreed : indexFree flushed =
        (nodeFreeChecked s.pkIndex.order s.pkIndex.root).map fun u => (u, flushed) := rfl
    have hflush : tableFlushUnlocked s = .ok ((bufferPoolFlushAll s.pool s.files s.io).2.2, flushed) := rfl
    have hindex : (Prog.reads TableEnv.pkIndex : TableProg BTree) flushed = .ok (s.pkIndex, flushed) := rfl
    unfold tableClose
    rw [Prog.bind_run hflush, Prog.bind_run hindex]
    simp only [Bind.bind, hfreed, closeResult]
    cases nodeFreeChecked s.pkIndex.order s.pkIndex.root <;> rfl
  cases hresult : closeResult s.rest.pkIndex with
  | error e =>
    show tableClose s = .error e
    rw [hrun, show s.pkIndex = s.rest.pkIndex from rfl, hresult]
    rfl
  | ok file =>
    refine ⟨flushed, ?_, hshows⟩
    rw [hrun, show s.pkIndex = s.rest.pkIndex from rfl, hresult]
    rfl

end Calls

/-- A page that does not wait to be written is on disk. -/
theorem Shown.disk {n : Nat} {S : Int → Prop} {mem : PageKey → Bytes} {pages : Int → Nat} {pool : BufferPool}
    {files : DataFiles} (h : Shown n S mem pages pool files) {k : PageKey} (hS : ¬ S k.fd)
    (hin : k.pageId < pages k.fd) : files.page k = mem k := by
  obtain ⟨⟨hquiet, hpages⟩, hdirty⟩ := h
  by_cases hcached : ∃ i, pool.InUse n i ∧ (pool.frames i).key = k
  · obtain ⟨i, hi, rfl⟩ := hcached
    rcases (hquiet.frame i hi).clean with hd | hu | hpage
    · exact absurd (hdirty i hi hd) hS
    · cases hu
    · exact hpage
  · push Not at hcached
    exact (hquiet.out k hcached).page (by rw [hpages]; exact hin)

end Ticketing
