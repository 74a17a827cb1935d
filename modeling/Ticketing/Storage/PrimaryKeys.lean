import Ticketing.Storage.MalformedFiles

/-!
# Primary keys (`etp_next_id`, `table_open`, `table_insert`)

`table_open` sets the counter behind the largest key it finds; each insertion takes the number and adds
one modulo `2 ^ 32`.

* `fileKeys`, `KeyedTable` — the keys of the data file, and those stored since.
* `KeyKept` — what one insertion owes to the keys.
* `tableOpen_counter`, `tableInsertUnlocked_key` — what `table_open` and `table_insert` do to the counter.
* `primary_keys_fresh` — every run in which the counter has not come to 0.
-/

set_option autoImplicit false

namespace Ticketing

open Bytes

/-! ## Keys -/

/-- The keys of the records in a data file, deleted or not. -/
def fileKeys (id : TableId) (file : Bytes) : List Nat := (fileSlots file).map (slotKey id)

/-- A table that has been opened, with the keys of its file and those that insertions have been made
with since, whatever they returned. -/
structure KeyedTable where
  env : TableEnv
  stored : List Nat

/-- An insertion, or anything else that happens between two of them: only `table_insert` and `table_open`
touch the counter of a table. -/
inductive KeyedAct where
  | insert (record : Memory) (alloc : Nat → Bool)
  | other (env : TableEnv)

/-- One step; an insertion that accesses a page or a node of the index out of bounds ends the run. -/
def KeyedTable.step (table : Table) (s : KeyedTable) : KeyedAct → Option KeyedTable
  | .insert record alloc =>
    match tableInsertUnlocked table alloc record s.env with
    | .error _ => none
    | .ok (r, env) => some ⟨env, r.2 :: s.stored⟩
  | .other env =>
    if env.nextId table.id = s.env.nextId table.id then some ⟨env, s.stored⟩ else none

/-- The counter has not come to 0 when an insertion draws its key. -/
def KeyedAct.HasKey (table : Table) (s : KeyedTable) : KeyedAct → Prop
  | .insert _ _ => s.env.nextId table.id ≠ 0
  | .other _ => True

/-- What a call returns when no input or output fails. -/
def answer {α : Type} (p : TableProg α) (s : TableEnv) : Except BadAccess α :=
  (p { s with io := IoScript.ok }).map Prod.fst

/-- `table_scan`, `table_count` and `table_find_by_id` return the same. -/
structure SameAnswers (table : Table) (s s' : TableEnv) : Prop where
  scan : ∀ filter max,
    answer (tableScanUnlocked table filter max) s = answer (tableScanUnlocked table filter max) s'
  count : answer (tableCountUnlocked table) s = answer (tableCountUnlocked table) s'
  find : ∀ key, answer (tableFindByIdUnlocked table key) s = answer (tableFindByIdUnlocked table key) s'

/-- `ETP_OK` comes with a new key that is not 0; without such a key there is an error, and nothing
changes. -/
structure KeyKept (table : Table) (stored : List Nat) (s : TableEnv) (rc : EtpResult) (id : Nat)
    (s' : TableEnv) : Prop where
  fresh : rc = .ok → id ≠ 0 ∧ id ∉ stored
  refused : id = 0 ∨ id ∈ stored → rc ≠ .ok ∧ SameAnswers table s s'

section Counter

variable {table : Table}

/-! ## The counter in `table_insert` -/

section Insert

variable {ids : TableId → Nat}

/-- The program leaves the counters alone. -/
def KeepsCounters {α : Type} (p : TableProg α) : Prop :=
  ∀ ids, Prog.Ensures (fun s => s.nextId = ids) p fun _ s => s.nextId = ids

theorem KeepsCounters.pure {α : Type} (a : α) : KeepsCounters (Pure.pure a : TableProg α) :=
  fun _ => Prog.Ensures.pure fun _ h => h

theorem KeepsCounters.bind {α β : Type} {p : TableProg α} {f : α → TableProg β} (hp : KeepsCounters p)
    (hf : ∀ a, KeepsCounters (f a)) : KeepsCounters (p >>= f) :=
  fun ids => Prog.Ensures.bind (hp ids) fun a => hf a ids

theorem KeepsCounters.act {α : Type} {l : LayerStep} {f : TableEnv → α × TableEnv}
    (h : ∀ s, (f s).2.nextId = s.nextId) : KeepsCounters (Prog.act l f : TableProg α) :=
  fun _ => Prog.Ensures.act fun s hs => (h s).trans hs

theorem keepsCounters_allocPage : KeepsCounters (allocPage table) := .act fun _ => rfl

theorem keepsCounters_writePage (pageId frame : Nat) (page : Option Bytes) :
    KeepsCounters (writePage table pageId frame page) := by
  cases page with
  | none => exact .pure ()
  | some page => exact .bind (.act fun _ => rfl) fun _ => .act fun _ => rfl

theorem keepsCounters_visitPage {α : Type} {pageId : Nat} {fail : α}
    {body : Bytes → TableProg (α × Option Bytes)} (hbody : ∀ page, KeepsCounters (body page)) :
    KeepsCounters (visitPage table pageId fail body) := by
  refine .bind (.act fun _ => rfl) fun r => ?_
  cases r with
  | none => exact .pure fail
  | some frame =>
    refine .bind (fun _ => Prog.Ensures.reads fun _ h => h) fun page => ?_
    refine .bind (hbody page) fun r => ?_
    exact .bind (keepsCounters_writePage _ _ _) fun _ => .bind (.act fun _ => rfl) fun _ => .pure _

theorem keepsCounters_targetPage : KeepsCounters (targetPage table) := by
  refine .bind (fun _ => Prog.Ensures.reads fun _ h => h) fun pages => ?_
  refine .bind ?_ fun last => ?_
  · unfold lastPage
    split
    · exact keepsCounters_visitPage fun _ => .pure _
    · exact .pure _
  · split
    · exact keepsCounters_allocPage
    · exact .pure _

theorem KeepsCounters.reads {α : Type} (f : TableEnv → α) : KeepsCounters (Prog.reads f : TableProg α) :=
  fun _ => Prog.Ensures.reads fun _ h => h

theorem keepsCounters_indexRecord (alloc : Nat → Bool) (newId pageId slot : Nat) :
    KeepsCounters (indexRecord alloc newId pageId slot) := by
  have hinsert : KeepsCounters (indexInsert alloc newId ⟨pageId, slot % 2 ^ 16⟩) := by
    refine .bind (.reads _) fun t => .bind (fun _ => Prog.Ensures.lift fun _ _ _ h => h) fun r => ?_
    exact .bind (.act fun _ => rfl) fun _ => .pure _
  exact .bind hinsert fun _ => .pure _

theorem keepsCounters_placeRecord (record : Memory) (pageId : Nat) :
    KeepsCounters (placeRecord table record pageId) :=
  keepsCounters_visitPage fun _ => .pure _

theorem keepsCounters_insertFallback (alloc : Nat → Bool) (newId : Nat) (record : Memory) :
    KeepsCounters (insertFallback table alloc newId record) := by
  refine .bind keepsCounters_allocPage fun target => ?_
  split
  · exact .pure _
  · refine .bind (keepsCounters_placeRecord _ _) fun placed => ?_
    match placed with
    | none => exact .pure _
    | some none => exact .pure _
    | some (some slot) => exact keepsCounters_indexRecord _ _ _ _

/-- A program that ends with the key it was given. -/
theorem ensures_key {α : Type} {p : TableProg α} {f : α → TableProg (EtpResult × Nat)} {key : Nat}
    (hp : KeepsCounters p)
    (hf : ∀ a, Prog.Ensures (fun s => s.nextId = ids) (f a) fun r s => r.2 = key ∧ s.nextId = ids) :
    Prog.Ensures (fun s => s.nextId = ids) (p >>= f) fun r s => r.2 = key ∧ s.nextId = ids :=
  Prog.Ensures.bind (hp ids) hf

/-- **`table_insert` takes the counter for its key**, and adds one. -/
theorem tableInsertUnlocked_key (alloc : Nat → Bool) (record : Memory) :
    Prog.Ensures (fun s => s.nextId = ids) (tableInsertUnlocked table alloc record) fun r s =>
      r.2 = ids table.id ∧ s.nextId = Function.update ids table.id ((ids table.id + 1) % 2 ^ 32) := by
  have hdraw : Prog.Ensures (fun s : TableEnv => s.nextId = ids) (etpNextId table) fun newId s =>
      newId = ids table.id ∧
        s.nextId = Function.update ids table.id ((ids table.id + 1) % 2 ^ 32) := by
    refine Prog.Ensures.act fun s hs => ?_
    rw [hs]
    exact ⟨rfl, rfl⟩
  refine Prog.Ensures.bind hdraw fun newId => Prog.Ensures.and_pre ?_
  rintro rfl
  have hdone : ∀ rc, Prog.Ensures
      (fun s : TableEnv => s.nextId = Function.update ids table.id ((ids table.id + 1) % 2 ^ 32))
      (pure (rc, ids table.id) : TableProg (EtpResult × Nat)) fun r s => r.2 = ids table.id ∧
        s.nextId = Function.update ids table.id ((ids table.id + 1) % 2 ^ 32) :=
    fun rc => Prog.Ensures.pure fun s hs => ⟨rfl, hs⟩
  refine ensures_key keepsCounters_targetPage fun target => ?_
  split
  · exact hdone _
  · refine ensures_key (.act fun _ => rfl) fun lsn => ?_
    split
    · exact hdone _
    · refine ensures_key (keepsCounters_placeRecord _ _) fun placed => ?_
      match placed with
      | none => exact hdone _
      | some none => exact ensures_key (keepsCounters_insertFallback _ _ _) fun rc => hdone rc
      | some (some slot) => exact ensures_key (keepsCounters_indexRecord _ _ _ _) fun rc => hdone rc

end Insert

/-! ## The counter in `table_open` -/

section Open

variable {n : Nat} {file : Bytes}

/-- The pool and the data file while `table_open` reads: every page is as in the file. -/
def Scanning (n : Nat) (table : Table) (file : Bytes) (s : TableEnv) : Prop :=
  FileInv n table.dataFd (originalVersions file) (file.length / PAGE_SIZE) s.pool s.files

/-- The loop of `table_open` has passed these slots. -/
def KeysBelow (id : TableId) (slots : List (Bytes × Nat)) (maxId : Option Nat) : Prop :=
  ∀ m, maxId = some m → m < 2 ^ 32 ∧ ∀ x ∈ slots, slotKey id x ≤ m

theorem Beside.ensures {α : Type} {p : TableProg α} (hp : Beside p) {Q : α → Prop}
    (h : Prog.Ensures (fun _ => True) p fun a _ => Q a) :
    Prog.Ensures (Scanning n table file) p fun a s => Q a ∧ Scanning n table file s := by
  intro s a s' hs hrun
  obtain ⟨hpool, hfiles⟩ := hp.unchanged hrun
  refine ⟨h s a s' trivial hrun, ?_⟩
  unfold Scanning
  rw [hpool, hfiles]
  exact hs

/-- A visit that only reads. -/
theorem visitPage_reads {α : Type} {pageId : Nat} {fail : α} {body : Bytes → TableProg (α × Option Bytes)}
    {Post : α → Prop} (hn : 0 < n) (hn' : n < 2 ^ 30) (hside : ∀ page, Beside (body page))
    (hfail : Post fail) (hbody : Prog.Ensures (fun _ => True) (body (pageRead file pageId)) fun r _ =>
      Post r.1 ∧ r.2 = none) :
    Prog.Ensures (Scanning n table file) (visitPage table pageId fail body) fun a s =>
      Post a ∧ Scanning n table file s := by
  have hfetch : Prog.Ensures (Scanning n table file) (fetchPage table pageId) fun r s =>
      Scanning n table file s ∧ ∀ i, r = some i →
        s.pool.InUse n i ∧ (s.pool.frames i).key = ⟨table.dataFd, pageId⟩ :=
    Prog.Ensures.act fun s hs => hs.fetch hn hn' (fun q hq => hq.elim) _ s.io
  refine Prog.Ensures.bind hfetch fun r => ?_
  cases r with
  | none => exact Prog.Ensures.pure fun s hs => ⟨hfail, hs.1⟩
  | some i =>
    have hread : Prog.Ensures
        (fun s => Scanning n table file s ∧ ∀ j, some i = some j →
          s.pool.InUse n j ∧ (s.pool.frames j).key = ⟨table.dataFd, pageId⟩) (pageAt i)
        fun page s => page = pageRead file pageId ∧ Scanning n table file s :=
      Prog.Ensures.reads fun s hs => by
        obtain ⟨hi, hkey⟩ := hs.2 i rfl
        have hversion := (hs.1.frame i hi (by rw [hkey])).version
        rw [hkey] at hversion
        exact ⟨hversion, hs.1⟩
    refine Prog.Ensures.bind hread fun page => Prog.Ensures.and_pre ?_
    rintro rfl
    refine Prog.Ensures.bind ((hside _).ensures hbody) fun r => ?_
    have hwrite : Prog.Ensures (fun s => (Post r.1 ∧ r.2 = none) ∧ Scanning n table file s)
        (writePage table pageId i r.2) fun _ s => Post r.1 ∧ Scanning n table file s := by
      refine Prog.Ensures.and_pre fun hr => ?_
      rw [hr.2]
      exact Prog.Ensures.pure fun s hs => ⟨hr.1, hs⟩
    refine Prog.Ensures.bind hwrite fun _ => ?_
    refine Prog.Ensures.bind (Prog.Ensures.act fun s hs => ?_) fun _ => Prog.Ensures.pure fun s hs => hs
    exact ⟨hs.1, FileInv.unpin hs.2 hn hn' _⟩

/-- One slot. -/
theorem openSlot_keys {slots : List (Bytes × Nat)} {maxId : Option Nat} {page : Bytes} {slot : Nat}
    (hslot : slot < pageGetRecordCount page) (hbelow : KeysBelow table.id slots maxId) :
    Prog.Ensures (fun _ => True) (openSlot table page maxId slot) fun maxId _ =>
      KeysBelow table.id (slots ++ [(page, slot)]) maxId := by
  cases maxId with
  | none => exact Prog.Ensures.pure fun s _ m hm => by cases hm
  | some m =>
    obtain ⟨hm, hslots⟩ := hbelow m rfl
    unfold openSlot pageGetRecord
    rw [if_neg (by omega)]
    refine Prog.Ensures.bind (Prog.Ensures.lift fun _ _ _ h => h) fun _ => ?_
    refine Prog.Ensures.pure fun s _ m' hm' => ?_
    change (if table.id = .bookingSeats ∧ slotKey table.id (page, slot) = 0 then none
      else some (max m (slotKey table.id (page, slot)))) = some m' at hm'
    split at hm'
    · cases hm'
    · cases hm'
      have hkey := slotKey_lt table.id (page, slot)
      refine ⟨by omega, fun x hx => ?_⟩
      rcases List.mem_append.mp hx with hx | hx
      · exact Nat.le_trans (hslots x hx) (Nat.le_max_left _ _)
      · rw [List.mem_singleton] at hx
        subst hx
        exact Nat.le_max_right _ _

/-- One page. -/
theorem openPage_keys (hn : 0 < n) (hn' : n < 2 ^ 30) {slots : List (Bytes × Nat)} {q : Nat}
    {maxId : Option Nat} (hbelow : KeysBelow table.id slots maxId) :
    Prog.Ensures (Scanning n table file) (openPage table maxId q) fun maxId s =>
      KeysBelow table.id (slots ++ pageSlots file q) maxId ∧ Scanning n table file s := by
  cases maxId with
  | none => exact Prog.Ensures.pure fun s hs => ⟨fun m hm => (by cases hm), hs⟩
  | some m =>
    refine visitPage_reads hn hn' ?_ (fun m hm => by cases hm) ?_
    · exact fun page => Beside.bind (Beside.fold (fun b x => beside_openSlot page b x) _) fun _ =>
        Beside.pure _
    · have hloop : Prog.Ensures (fun _ => KeysBelow table.id (slots ++ []) (some m))
          (Prog.fold (openSlot table (pageRead file q)) (some m)
            (List.range (pageGetRecordCount (pageRead file q)))) fun maxId _ =>
          KeysBelow table.id (slots ++ pageSlots file q) maxId := by
        refine Prog.Ensures.fold (fun front maxId _ => KeysBelow table.id
          (slots ++ front.map fun slot => (pageRead file q, slot)) maxId) fun front slot post b hrange => ?_
        have hslot : slot ∈ List.range (pageGetRecordCount (pageRead file q)) := by
          rw [hrange]
          exact List.mem_append_right _ List.mem_cons_self
        intro s b' s' hb hrun
        have hnext := openSlot_keys (List.mem_range.mp hslot) hb s b' s' trivial hrun
        rw [List.map_append, List.map_cons, List.map_nil, ← List.append_assoc]
        exact hnext
      refine Prog.Ensures.bind (hloop.pre fun _ _ => by rw [List.append_nil]; exact hbelow) fun maxId => ?_
      exact Prog.Ensures.pure fun s hs => ⟨hs, rfl⟩

/-- **`table_open` sets the counter behind every key of the file.** -/
theorem tableOpen_counter (hn : 0 < n) (hn' : n < 2 ^ 30) {alloc : Nat → Bool} {index : Bytes}
    {s s' : TableEnv} (hshape : PoolShape n s.pool) (hnew : CachedAsOnDisk n table s)
    (hfile : s.files table.dataFd = file) (hrun : tableOpen table alloc index s = .ok (true, s')) :
    ∃ m, m + 1 < 2 ^ 32 ∧ s'.nextId table.id = m + 1 ∧ ∀ k ∈ fileKeys table.id file, k ≤ m := by
  have hcount : Prog.Ensures (Scanning n table file) (pageCount table) fun pages s =>
      pages = pageGetCount file ∧ Scanning n table file s :=
    Prog.Ensures.reads fun s hs => by
      have hpages := hs.pages.resolve_right fun hw => hw.1
      refine ⟨?_, hs⟩
      show s.files.pages table.dataFd % 2 ^ 32 = _
      rw [hpages]
      rfl
  have hloop : Prog.Ensures (fun s => KeysBelow table.id [] (some 0) ∧ Scanning n table file s)
      (Prog.fold (openPage table) (some 0) (List.range (pageGetCount file))) fun maxId s =>
        KeysBelow table.id (fileSlots file) maxId ∧ Scanning n table file s := by
    refine Prog.Ensures.fold (fun front maxId s =>
      KeysBelow table.id (front.flatMap (pageSlots file)) maxId ∧ Scanning n table file s)
      fun front q post maxId _ => Prog.Ensures.and_pre fun hbelow => ?_
    rw [List.flatMap_append, List.flatMap_singleton]
    exact openPage_keys hn hn' hbelow
  have hopen : Prog.Ensures (Scanning n table file) (tableOpen table alloc index) fun opened s =>
      opened = true → ∃ m, m + 1 < 2 ^ 32 ∧ s.nextId table.id = m + 1 ∧
        ∀ x ∈ fileSlots file, slotKey table.id x ≤ m := by
    refine Prog.Ensures.bind (Prog.Ensures.lift fun s r _ hs => hs) fun r => ?_
    cases r with
    | none => exact Prog.Ensures.pure fun s _ h => by cases h
    | some t =>
      have hset : Prog.Ensures (Scanning n table file) (setIndex t) fun _ s => Scanning n table file s :=
        Prog.Ensures.act fun s hs => hs
      refine Prog.Ensures.bind hset fun _ => ?_
      refine Prog.Ensures.bind hcount fun pages => Prog.Ensures.and_pre ?_
      rintro rfl
      refine Prog.Ensures.bind (hloop.pre fun s hs => ⟨?_, hs⟩) fun maxId => Prog.Ensures.and_pre ?_
      · intro m hm
        cases hm
        exact ⟨by decide, fun x hx => by cases hx⟩
      · intro hbelow
        have hfail : ∀ P : TableEnv → Prop, Prog.Ensures P
            (do indexFree; pure false : TableProg Bool) fun opened s =>
            opened = true → ∃ m, m + 1 < 2 ^ 32 ∧ s.nextId table.id = m + 1 ∧
              ∀ x ∈ fileSlots file, slotKey table.id x ≤ m := by
          rintro P s a s' - hrun h
          obtain ⟨_, s₁, -, hpure⟩ := Prog.bind_ok hrun
          cases hpure
          cases h
        cases maxId with
        | none => exact hfail _
        | some m =>
          obtain ⟨hm, hslots⟩ := hbelow m rfl
          dsimp only
          split
          · exact hfail _
          · rename_i hne
            have hset : Prog.Ensures (Scanning n table file) (etpSetNextId table (m + 1)) fun _ s =>
                s.nextId table.id = m + 1 := Prog.Ensures.act fun s _ => Function.update_self _ _ _
            refine Prog.Ensures.bind hset fun _ => Prog.Ensures.pure fun s hs _ => ?_
            exact ⟨m, by omega, hs, hslots⟩
  have hstart : Scanning n table file s := by
    unfold Scanning
    rw [← hfile]
    exact hnew.originals hshape
  obtain ⟨m, hm, hid, hslots⟩ := hopen s true s' hstart hrun rfl
  refine ⟨m, hm, hid, fun k hk => ?_⟩
  obtain ⟨x, hx, rfl⟩ := List.mem_map.mp hk
  exact hslots x hx

end Open

/-! ## Runs -/

/-- Every key that has been stored is smaller than the counter, until that comes to 0. -/
def KeysBehind (table : Table) (s : KeyedTable) : Prop :=
  s.env.nextId table.id < 2 ^ 32 ∧
    (s.env.nextId table.id ≠ 0 → ∀ k ∈ s.stored, k < s.env.nextId table.id)

/-- **One step.** -/
theorem KeysBehind.step {s s' : KeyedTable} {a : KeyedAct} (h : KeysBehind table s)
    (hkey : a.HasKey table s) (hs : s.step table a = some s') : KeysBehind table s' := by
  obtain ⟨hlt, hbehind⟩ := h
  cases a with
  | other env =>
    simp only [KeyedTable.step] at hs
    split at hs
    · rename_i hsame
      cases hs
      unfold KeysBehind
      rw [hsame]
      exact ⟨hlt, hbehind⟩
    · cases hs
  | insert record alloc =>
    simp only [KeyedTable.step] at hs
    split at hs
    · cases hs
    · rename_i r env hrun
      cases hs
      obtain ⟨hid, hnext⟩ := tableInsertUnlocked_key alloc record s.env r env rfl hrun
      have hcounter : env.nextId table.id = (s.env.nextId table.id + 1) % 2 ^ 32 := by
        rw [hnext, Function.update_self]
      refine ⟨by dsimp only; omega, fun hne k hk => ?_⟩
      dsimp only at hne ⊢
      have hold := hbehind hkey
      rcases List.mem_cons.mp hk with rfl | hk
      · omega
      · have := hold k hk
        omega

end Counter

/-- **Primary keys are fresh until the counter wraps.**  A table is opened, over a pool that has nothing of
its file but what is on disk; then insertions and anything else follow in any order, whatever input, output
and allocation fails.  As long as the counter is not 0 when an insertion draws its key, an insertion that
returns `ETP_OK` returns a key that is not 0, that no record of the file has, and that no insertion before
it was made with. -/
theorem primary_keys_fresh {n : Nat} (hn : 0 < n) (hn' : n < 2 ^ 30) (table : Table) {alloc : Nat → Bool}
    {index : Bytes} {s₀ s₁ : TableEnv} (hshape : PoolShape n s₀.pool) (hnew : CachedAsOnDisk n table s₀)
    (hopen : tableOpen table alloc index s₀ = .ok (true, s₁)) {s : KeyedTable}
    (hrun : Reachable (KeyedTable.step table) (fun s a => a.HasKey table s)
      ⟨s₁, fileKeys table.id (s₀.files table.dataFd)⟩ s)
    (record : Memory) (alloc' : Nat → Bool) (hkey : (KeyedAct.insert record alloc').HasKey table s)
    {rc : EtpResult} {id : Nat} {s' : TableEnv}
    (hcall : tableInsertUnlocked table alloc' record s.env = .ok ((rc, id), s')) :
    KeyKept table s.stored s.env rc id s' := by
  obtain ⟨m, hm, hid, hkeys⟩ := tableOpen_counter hn hn' hshape hnew rfl hopen
  have hinit : KeysBehind table ⟨s₁, fileKeys table.id (s₀.files table.dataFd)⟩ := by
    unfold KeysBehind
    rw [hid]
    exact ⟨hm, fun _ k hk => Nat.lt_succ_of_le (hkeys k hk)⟩
  obtain ⟨-, hbehind⟩ := hrun.invariant hinit fun s a s' h hok hs => h.step hok hs
  obtain ⟨hdrawn, -⟩ := tableInsertUnlocked_key alloc' record s.env _ _ rfl hcall
  have hdrawn : id = s.env.nextId table.id := hdrawn
  have hzero : id ≠ 0 := by
    rw [hdrawn]
    exact hkey
  have hnew' : id ∉ s.stored := fun hmem => by
    have hlt := hbehind hkey id hmem
    omega
  exact ⟨fun _ => ⟨hzero, hnew'⟩, fun hbad => absurd hbad (by tauto)⟩

/-! ## The end of the keys -/

/-- An index with the keys 1 and `key`. -/
def twoEntryTree (key : Nat) : BTree := ⟨.leaf ⟨0, [(1, ⟨0, 0⟩), (key, ⟨0, 1⟩)], none⟩, 128, 2, false, 1⟩

/-- A page of `booking_seats` with two records, of the keys 1 and `key`. -/
def twoSeatPage (key : Nat) : Bytes :=
  seatHeader 2 16 ++ ([5, 0, 0, 0, 7, 0, 0, 0, 0, 1, 0, 0, 0, 0, 0, 0] ++
    ([5, 0, 0, 0, 8, 0, 0, 0, 0] ++ toLE 4 key ++ [0, 0, 0] ++ List.replicate (PAGE_SIZE - 48) 0))

/-- The table is opened, and then records are inserted: the state, and what the insertions returned. -/
def insertMany (key : Nat) : Nat → Option (TableEnv × List (EtpResult × Nat))
  | 0 =>
    match tableOpen seatTable (fun _ => true) (btreeFile (twoEntryTree key)) (freshEnv (twoSeatPage key)) with
    | .ok (true, s) => some (s, [])
    | _ => none
  | k + 1 =>
    (insertMany key k).bind fun r =>
      match tableInsertUnlocked seatTable (fun _ => true) (fun _ => 0) r.1 with
      | .ok (out, s) => some (s, r.2 ++ [out])
      | .error _ => none

theorem insertMany_succ {key k : Nat} {s' : TableEnv} {outs : List (EtpResult × Nat)}
    {out : EtpResult × Nat} (h : insertMany key (k + 1) = some (s', outs ++ [out])) :
    ∃ s, insertMany key k = some (s, outs) ∧
      tableInsertUnlocked seatTable (fun _ => true) (fun _ => 0) s = .ok (out, s') := by
  obtain ⟨⟨s, outs'⟩, hk, h⟩ := Option.bind_eq_some_iff.mp h
  split at h
  · rename_i out' s'' hrun
    rw [Option.some.injEq, Prod.mk.injEq] at h
    obtain ⟨rfl, houts⟩ := h
    obtain ⟨rfl, hout⟩ := List.append_inj' houts rfl
    rw [List.singleton_inj] at hout
    subst hout
    exact ⟨s, hk, hrun⟩
  · cases h

theorem insertMany_zero {key : Nat} {s : TableEnv} {outs : List (EtpResult × Nat)}
    (h : insertMany key 0 = some (s, outs)) :
    tableOpen seatTable (fun _ => true) (btreeFile (twoEntryTree key)) (freshEnv (twoSeatPage key)) =
      .ok (true, s) := by
  unfold insertMany at h
  split at h
  · rename_i s' hrun
    cases h
    exact hrun
  · cases h

/-- Keys 1 and 2 are stored, an insertion is made with key 3, and the next one with key 4. -/
theorem primary_keys_fresh_fourth : ∃ s₁ s₂ s₃ id,
    tableOpen seatTable (fun _ => true) (btreeFile (twoEntryTree 2)) (freshEnv (twoSeatPage 2)) =
        .ok (true, s₁) ∧
      tableInsertUnlocked seatTable (fun _ => true) (fun _ => 0) s₁ = .ok ((.ok, 3), s₂) ∧
      tableInsertUnlocked seatTable (fun _ => true) (fun _ => 0) s₂ = .ok ((.ok, id), s₃) ∧
      KeyKept seatTable (3 :: fileKeys seatTable.id (twoSeatPage 2)) s₂ .ok id s₃ := by
  have hcheck : (insertMany 2 2).map Prod.snd = some [(.ok, 3), (.ok, 4)] := by decide +kernel
  have hfirst : (insertMany 2 0).map (fun r => r.1.nextId .bookingSeats) = some 3 := by decide +kernel
  have hsecond : (insertMany 2 1).map (fun r => r.1.nextId .bookingSeats) = some 4 := by decide +kernel
  obtain ⟨⟨s₃, outs⟩, h2, rfl⟩ := Option.map_eq_some_iff.mp hcheck
  obtain ⟨s₂, h1, hins2⟩ := @insertMany_succ _ _ _ [(.ok, 3)] _ h2
  obtain ⟨s₁, h0, hins1⟩ := @insertMany_succ _ _ _ [] _ h1
  have hopen := insertMany_zero h0
  rw [h0, Option.map_some, Option.some.injEq] at hfirst
  rw [h1, Option.map_some, Option.some.injEq] at hsecond
  have hnone : CachedAsOnDisk 1 seatTable (freshEnv (twoSeatPage 2)) := by
    rintro i ⟨-, hvalid⟩
    cases hvalid
  have hshape : PoolShape 1 (freshEnv (twoSeatPage 2)).pool := poolShape_create (by decide)
  have hkey1 : (KeyedAct.insert (fun _ => 0) fun _ => true).HasKey seatTable
      ⟨s₁, fileKeys seatTable.id (twoSeatPage 2)⟩ := by
    have hfirst : s₁.nextId seatTable.id = 3 := hfirst
    rw [KeyedAct.HasKey, hfirst]
    decide
  have hkey2 : s₂.nextId .bookingSeats ≠ 0 := by
    rw [hsecond]
    decide
  have hstep : KeyedTable.step seatTable ⟨s₁, fileKeys seatTable.id (twoSeatPage 2)⟩
      (.insert (fun _ => 0) fun _ => true) = some ⟨s₂, 3 :: fileKeys seatTable.id (twoSeatPage 2)⟩ := by
    simp only [KeyedTable.step, hins1]
  have hkept := primary_keys_fresh Nat.one_pos (by decide) seatTable hshape hnone hopen
    (.tail _ .refl hkey1 hstep) (fun _ => 0) (fun _ => true) hkey2 hins2
  exact ⟨s₁, s₂, s₃, 4, hopen, hins1, hins2, hkept⟩

/-- The largest key stored is `2 ^ 32 - 2`.  The second insertion returns `ETP_OK` and 0; the third gets
key 1, which is stored, returns an error and leaves its record in the table. -/
theorem keys_wrap : ∃ s₁ s₂ s₃ s₄,
    tableOpen seatTable (fun _ => true) (btreeFile (twoEntryTree (2 ^ 32 - 2)))
        (freshEnv (twoSeatPage (2 ^ 32 - 2))) = .ok (true, s₁) ∧
      tableInsertUnlocked seatTable (fun _ => true) (fun _ => 0) s₁ = .ok ((.ok, 2 ^ 32 - 1), s₂) ∧
      tableInsertUnlocked seatTable (fun _ => true) (fun _ => 0) s₂ = .ok ((.ok, 0), s₃) ∧
      tableInsertUnlocked seatTable (fun _ => true) (fun _ => 0) s₃ = .ok ((.errIo, 1), s₄) ∧
      ¬ KeyKept seatTable ((2 ^ 32 - 1) :: fileKeys seatTable.id (twoSeatPage (2 ^ 32 - 2))) s₂ .ok 0 s₃ ∧
      ¬ KeyKept seatTable (0 :: (2 ^ 32 - 1) :: fileKeys seatTable.id (twoSeatPage (2 ^ 32 - 2))) s₃ .errIo 1
        s₄ := by
  have hcheck : (insertMany (2 ^ 32 - 2) 3).map
      (fun r => (r.2, (answer (tableCountUnlocked seatTable) r.1).toOption)) =
      some ([(.ok, 2 ^ 32 - 1), (.ok, 0), (.errIo, 1)], some 5) := by decide +kernel
  have hbefore : (insertMany (2 ^ 32 - 2) 2).map
      (fun r => (answer (tableCountUnlocked seatTable) r.1).toOption) = some (some 4) := by decide +kernel
  have hstored : 1 ∈ fileKeys seatTable.id (twoSeatPage (2 ^ 32 - 2)) := by decide +kernel
  obtain ⟨⟨s₄, outs⟩, h3, hr⟩ := Option.map_eq_some_iff.mp hcheck
  obtain ⟨rfl, hafter⟩ := Prod.mk.inj hr
  obtain ⟨s₃, h2, hins3⟩ := @insertMany_succ _ _ _ [(.ok, 2 ^ 32 - 1), (.ok, 0)] _ h3
  obtain ⟨s₂, h1, hins2⟩ := @insertMany_succ _ _ _ [(.ok, 2 ^ 32 - 1)] _ h2
  obtain ⟨s₁, h0, hins1⟩ := @insertMany_succ _ _ _ [] _ h1
  rw [h2, Option.map_some, Option.some.injEq] at hbefore
  refine ⟨s₁, s₂, s₃, s₄, insertMany_zero h0, hins1, hins2, hins3, fun h => ?_, fun h => ?_⟩
  · exact (h.fresh rfl).1 rfl
  · have hsame := (h.refused (Or.inr (List.mem_cons_of_mem _ (List.mem_cons_of_mem _ hstored)))).2.count
    dsimp only at hafter
    rw [hsame, hafter] at hbefore
    exact absurd hbefore (by decide)

end Ticketing
